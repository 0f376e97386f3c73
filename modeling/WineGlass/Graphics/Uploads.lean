import WineGlass.Lib.Copies
import WineGlass.Lib.Fields

/-!
# Initial data of buffers and textures

`CreateBuffer` and `CreateTexture2D` take the guest's data into a copy of the host and hand it to
the backend. The guest is a 64-bit one: `D3D11_SUBRESOURCE_DATA` starts with a pointer of eight
bytes, and its pitch is behind. All sizes in the handlers have 32 bits.
-/

namespace WineGlass.Uploads

open Copies Fields

abbrev U32 := BitVec 32
abbrev Mem := Nat → BitVec 8

def Mem.get32 (m : Mem) (p : U32) : U32 := .ofNat 32 (get m ⟨p.toNat, 4⟩)

/-- Whether `malloc` and the backend have memory for a number of bytes. -/
structure Env where
  malloc : Nat → Bool
  backend : Nat → Bool

/-- The host's copy of the data: its size, and what has been copied into it. -/
structure Upload where
  size : Nat
  copies : List Copy

/-- What the backend is asked for, if it is, and what the guest is told. -/
structure Answer where
  initial : Option Upload
  created : Bool
  ret : U32

def sOk : U32 := 0

/-- `ByteWidth` -/
def byteWidth (m : Mem) (pDesc : U32) : U32 := if pDesc ≠ 0 then m.get32 pDesc else 0

def bufferCap : U32 := 0x4000000

def createBuffer (env : Env) (m : Mem) (pDesc pInitialData : U32) : Answer :=
  let size := byteWidth m pDesc
  let initial :=
    if pInitialData ≠ 0 ∧ size ≠ 0 ∧ size ≤ bufferCap then
      let sysmem := m.get32 pInitialData
      if sysmem ≠ 0 ∧ env.malloc size.toNat then
        some ⟨size.toNat, [⟨sysmem.toNat, 0, size.toNat⟩]⟩
      else none
    else none
  ⟨initial, true, sOk⟩

def width (m : Mem) (pDesc : U32) : U32 := if pDesc ≠ 0 then m.get32 pDesc else 0

def height (m : Mem) (pDesc : U32) : U32 := if pDesc ≠ 0 then m.get32 (pDesc + 4) else 0

def textureCap : U32 := 0x8000000

def createTexture2D (env : Env) (m : Mem) (pDesc pInitialData : U32) : Answer :=
  let w := width m pDesc
  let h := height m pDesc
  let sz := w * h * 4
  let initial :=
    if pInitialData ≠ 0 ∧ w ≠ 0 ∧ h ≠ 0 ∧ sz ≤ textureCap ∧ env.malloc sz.toNat then
      let sysmem := m.get32 pInitialData
      let dstpitch := w * 4
      let srcpitch := m.get32 (pInitialData + 8)
      let srcpitch := if srcpitch = 0 then dstpitch else srcpitch
      if sysmem ≠ 0 then
        some ⟨sz.toNat, (List.range h.toNat).map fun r =>
          ⟨(sysmem + .ofNat 32 r * srcpitch).toNat, (.ofNat 32 r * dstpitch : U32).toNat,
            dstpitch.toNat⟩⟩
      else none
    else none
  ⟨initial, true, sOk⟩

-- ---------------------------------------------------------------------------
-- What is promised
-- ---------------------------------------------------------------------------

/-- The guest's image: rows of `width` bytes, a pitch apart. -/
structure Image where
  ptr : Nat
  pitch : Nat
  width : Nat
  rows : Nat

def Image.bytes (img : Image) : Nat := img.width * img.rows

/-- `pSysMem` -/
def sysMem (m : Mem) (pInitialData : U32) : Nat :=
  if pInitialData ≠ 0 then get m ⟨pInitialData.toNat, 8⟩ else 0

/-- A buffer is an image of one row. -/
def bufferImage (m : Mem) (pDesc pInitialData : U32) : Image :=
  ⟨sysMem m pInitialData, 0, (byteWidth m pDesc).toNat, 1⟩

def textureImage (m : Mem) (pDesc pInitialData : U32) : Image :=
  ⟨sysMem m pInitialData, (m.get32 (pInitialData + 8)).toNat, (width m pDesc).toNat * 4,
    (height m pDesc).toNat⟩

/-- The guest has data for the resource. -/
def Image.Given (img : Image) : Prop := img.ptr ≠ 0 ∧ img.bytes ≠ 0

def TooLarge (env : Env) (cap : Nat) (img : Image) : Prop :=
  ¬ env.backend img.bytes ∨ img.Given ∧ (cap < img.bytes ∨ ¬ env.malloc img.bytes)

structure Uploaded (env : Env) (cap : Nat) (img : Image) (a : Answer) : Prop where
  inside : ∀ u ∈ a.initial, Inside u.size u.copies
  /-- The backend gets each row of the image at its place. -/
  rows : img.Given → a.created → ∃ u ∈ a.initial, ∀ r < img.rows, ∀ j < img.width,
    source u.copies (r * img.width + j) = some (img.ptr + r * img.pitch + j)
  made : ¬ TooLarge env cap img → a.created
  refused : TooLarge env cap img → ¬ a.created ∧ 0x80000000 ≤ a.ret

/-- There is memory for everything, every row starts in the low 4 GB, and a pitch of zero is only
there for a single row. -/
structure Reached (env : Env) (cap : Nat) (img : Image) : Prop where
  small : ¬ TooLarge env cap img
  low : img.Given → img.ptr + (img.rows - 1) * img.pitch < 2 ^ 32
  pitched : img.Given → img.rows = 1 ∨ img.pitch ≠ 0

-- ---------------------------------------------------------------------------
-- One handler
-- ---------------------------------------------------------------------------

variable {env : Env} {m : Mem} {pDesc pInitialData : U32} {img : Image} {a : Answer}

/-- The pitch that the rows are read at. -/
def Image.step (img : Image) : Nat := if img.pitch = 0 then img.width else img.pitch

/-- What a handler does with its data, when there is no reason against it: its addresses wrap. -/
structure Handles (env : Env) (cap : Nat) (img : Image) (a : Answer) : Prop where
  created : a.created = true
  ret : a.ret = sOk
  low : cap < 2 ^ 32
  none : ¬ img.Given → a.initial = none
  some : img.Given → ¬ TooLarge env cap img → a.initial =
    if img.ptr % 2 ^ 32 = 0 then .none
    else .some ⟨img.bytes,
      Copies.rows (fun r => (img.ptr + r * img.step) % 2 ^ 32) img.width img.rows⟩

theorem Handles.small_iff (h : Handles env cap img a) : (¬ TooLarge env cap img → a.created) ∧
    (TooLarge env cap img → ¬ a.created ∧ 0x80000000 ≤ a.ret) ↔ ¬ TooLarge env cap img := by
  constructor
  · rintro ⟨-, hrefused⟩ hlarge
    exact (hrefused hlarge).1 h.created
  · exact fun hs => ⟨fun _ => h.created, fun hlarge => absurd hlarge hs⟩

theorem Image.Given.pos (hg : img.Given) : 0 < img.width ∧ 0 < img.rows := by
  have hne := hg.2
  unfold Image.bytes at hne
  exact ⟨Nat.pos_of_ne_zero (Nat.mul_ne_zero_iff.1 hne).1,
    Nat.pos_of_ne_zero (Nat.mul_ne_zero_iff.1 hne).2⟩

/-- The rows are read where they are exactly when no address wraps and the pitch is the guest's. -/
theorem rows_read_iff (hg : img.Given) (hw : img.width < 2 ^ 32) :
    (∀ r < img.rows, (img.ptr + r * img.step) % 2 ^ 32 = img.ptr + r * img.pitch) ↔
      img.ptr + (img.rows - 1) * img.pitch < 2 ^ 32 ∧ (img.rows = 1 ∨ img.pitch ≠ 0) := by
  obtain ⟨hwidth, hrows⟩ := hg.pos
  constructor
  · intro h
    have hfirst := h 0 hrows
    have hlast := h (img.rows - 1) (Nat.sub_lt hrows Nat.one_pos)
    have hlow : img.ptr + (img.rows - 1) * img.pitch < 2 ^ 32 := by
      rw [← hlast]
      exact Nat.mod_lt _ (by decide)
    refine ⟨hlow, or_iff_not_imp_left.2 fun h1 h0 => ?_⟩
    have hsecond := h 1 (by omega)
    have hstep : img.step = img.width := if_pos h0
    rw [hstep, h0] at hsecond
    rw [Nat.zero_mul, Nat.add_zero, Nat.zero_mul, Nat.add_zero] at hfirst
    omega
  · rintro ⟨hlow, hpitch⟩ r hr
    have hsame : r * img.step = r * img.pitch := by
      rcases hpitch with h1 | h0
      · obtain rfl : r = 0 := by omega
        rw [Nat.zero_mul, Nat.zero_mul]
      · rw [Image.step, if_neg h0]
    have hle : r * img.pitch ≤ (img.rows - 1) * img.pitch := Nat.mul_le_mul_right _ (by omega)
    rw [hsame]
    exact Nat.mod_eq_of_lt (by omega)

theorem small_given (hs : ¬ TooLarge env cap img) (hg : img.Given) :
    img.bytes ≤ cap ∧ env.malloc img.bytes := by
  simp only [TooLarge, not_or, not_and, not_not, not_lt] at hs
  exact hs.2 hg

theorem Handles.narrow (h : Handles env cap img a) (hs : ¬ TooLarge env cap img) (hg : img.Given) :
    img.width < 2 ^ 32 := by
  have hbytes : img.width ≤ img.bytes := Nat.le_mul_of_pos_right _ hg.pos.2
  exact (hbytes.trans (small_given hs hg).1).trans_lt h.low

theorem Handles.uploaded_iff (h : Handles env cap img a) :
    Uploaded env cap img a ↔ Reached env cap img := by
  constructor
  · rintro ⟨-, hrows, hmade, hrefused⟩
    have hsmall := h.small_iff.1 ⟨hmade, hrefused⟩
    have hread : img.Given →
        ∀ r < img.rows, (img.ptr + r * img.step) % 2 ^ 32 = img.ptr + r * img.pitch := by
      intro hg r hr
      obtain ⟨u, hu, hat⟩ := hrows hg h.created
      rw [h.some hg hsmall] at hu
      split at hu
      · cases hu
      · cases hu
        have hsource := hat r hr 0 hg.pos.1
        rw [source_rows hg.pos.1 hr] at hsource
        exact Option.some.inj hsource
    exact ⟨hsmall, fun hg => ((rows_read_iff hg (h.narrow hsmall hg)).1 (hread hg)).1,
      fun hg => ((rows_read_iff hg (h.narrow hsmall hg)).1 (hread hg)).2⟩
  · rintro ⟨hsmall, hlow, hpitched⟩
    obtain ⟨hmade, hrefused⟩ := h.small_iff.2 hsmall
    have hinitial : img.Given → a.initial = .some ⟨img.bytes,
        Copies.rows (fun r => (img.ptr + r * img.step) % 2 ^ 32) img.width img.rows⟩ := by
      intro hg
      have hptr := hg.1
      have hlow := hlow hg
      rw [h.some hg hsmall, if_neg (by omega)]
    refine ⟨fun u hu => ?_, fun hg _ => ⟨_, hinitial hg, fun r hr j hj => ?_⟩, hmade, hrefused⟩
    · by_cases hg : img.Given
      · rw [hinitial hg] at hu
        cases hu
        exact rows_inside _ _ _
      · rw [h.none hg] at hu
        cases hu
    · rw [source_rows hj hr, (rows_read_iff hg (h.narrow hsmall hg)).2 ⟨hlow hg, hpitched hg⟩ r hr]

-- ---------------------------------------------------------------------------
-- The two handlers
-- ---------------------------------------------------------------------------

/-- The half of a pointer that the handlers read. -/
theorem sysMem_low (h : pInitialData ≠ 0) :
    (m.get32 pInitialData).toNat = sysMem m pInitialData % 2 ^ 32 := by
  have hsplit : get m ⟨pInitialData.toNat, 4 + 4⟩ = _ := get_add
  rw [sysMem, if_pos h, hsplit, Mem.get32, BitVec.toNat_ofNat]
  omega

theorem sysMem_zero (h : m.get32 pInitialData ≠ 0) (h0 : pInitialData ≠ 0) :
    sysMem m pInitialData ≠ 0 := by
  intro hs
  have hlow := sysMem_low (m := m) h0
  rw [hs] at hlow
  exact h (BitVec.eq_of_toNat_eq hlow)

theorem sysMem_given (h : sysMem m pInitialData ≠ 0) : pInitialData ≠ 0 := by
  rintro rfl
  exact h rfl

theorem buffer_handles : Handles env bufferCap.toNat (bufferImage m pDesc pInitialData)
    (createBuffer env m pDesc pInitialData) where
  created := rfl
  ret := rfl
  low := by decide
  none hg := by
    have hbytes : (bufferImage m pDesc pInitialData).bytes = (byteWidth m pDesc).toNat :=
      Nat.mul_one _
    simp only [createBuffer]
    by_cases hin : pInitialData ≠ 0 ∧ byteWidth m pDesc ≠ 0 ∧ byteWidth m pDesc ≤ bufferCap
    · rw [if_pos hin, if_neg]
      rintro ⟨hsys, -⟩
      refine hg ⟨sysMem_zero hsys hin.1, ?_⟩
      rw [hbytes]
      exact fun h0 => hin.2.1 (BitVec.eq_of_toNat_eq h0)
    · exact if_neg hin
  some hg hs := by
    have hbytes : (bufferImage m pDesc pInitialData).bytes = (byteWidth m pDesc).toNat :=
      Nat.mul_one _
    obtain ⟨hcap, halloc⟩ := small_given hs hg
    obtain ⟨hptr, hne⟩ := hg
    rw [hbytes] at hcap halloc hne
    have hinit := sysMem_given hptr
    have hlow : (m.get32 pInitialData).toNat = (bufferImage m pDesc pInitialData).ptr % 2 ^ 32 :=
      sysMem_low hinit
    have hnull : m.get32 pInitialData = 0 ↔
        (bufferImage m pDesc pInitialData).ptr % 2 ^ 32 = 0 := by
      rw [← hlow, ← BitVec.toNat_inj]
      rfl
    have hwidth : byteWidth m pDesc ≠ 0 := fun h0 => hne (by rw [h0]; rfl)
    have hle : byteWidth m pDesc ≤ bufferCap := hcap
    simp only [createBuffer]
    rw [if_pos ⟨hinit, hwidth, hle⟩, hbytes]
    by_cases h0 : m.get32 pInitialData = 0
    · rw [if_neg fun h => h.1 h0, if_pos (hnull.1 h0)]
    · rw [if_pos ⟨h0, halloc⟩, if_neg fun h => h0 (hnull.2 h), hlow]
      have hone : ∀ src, Copies.rows src (byteWidth m pDesc).toNat 1 =
          [⟨src 0, 0, (byteWidth m pDesc).toNat⟩] := fun src => by
        simp [Copies.rows]
      refine congrArg (fun cs => some (Upload.mk _ cs)) ?_
      show _ = Copies.rows _ (byteWidth m pDesc).toNat 1
      rw [hone, Nat.zero_mul, Nat.add_zero]

theorem row_toNat (r : Nat) (p : U32) : (BitVec.ofNat 32 r * p).toNat = r * p.toNat % 2 ^ 32 := by
  rw [BitVec.toNat_mul, BitVec.toNat_ofNat, Nat.mod_mul_mod]

theorem texture_bytes : (textureImage m pDesc pInitialData).bytes =
    (width m pDesc).toNat * (height m pDesc).toNat * 4 :=
  Nat.mul_right_comm _ _ _

theorem texture_handles : Handles env textureCap.toNat (textureImage m pDesc pInitialData)
    (createTexture2D env m pDesc pInitialData) where
  created := rfl
  ret := rfl
  low := by decide
  none hg := by
    simp only [createTexture2D]
    split
    · rename_i hin
      rw [if_neg]
      intro hsys
      refine hg ⟨sysMem_zero hsys hin.1, ?_⟩
      rw [texture_bytes]
      have hw : (width m pDesc).toNat ≠ 0 := fun h0 => hin.2.1 (BitVec.eq_of_toNat_eq h0)
      have hh : (height m pDesc).toNat ≠ 0 := fun h0 => hin.2.2.1 (BitVec.eq_of_toNat_eq h0)
      exact Nat.mul_ne_zero (Nat.mul_ne_zero hw hh) (by decide)
    · rfl
  some hg hs := by
    obtain ⟨hcap, halloc⟩ := small_given hs hg
    obtain ⟨hwidth, hheight⟩ := hg.pos
    have hinit := sysMem_given hg.1
    have hlow : (m.get32 pInitialData).toNat = (textureImage m pDesc pInitialData).ptr % 2 ^ 32 :=
      sysMem_low hinit
    have hnull : m.get32 pInitialData = 0 ↔
        (textureImage m pDesc pInitialData).ptr % 2 ^ 32 = 0 := by
      rw [← hlow, ← BitVec.toNat_inj]
      rfl
    have hsz : (width m pDesc * height m pDesc * 4).toNat =
        (textureImage m pDesc pInitialData).bytes := by
      rw [texture_bytes] at hcap ⊢
      have hcap : _ ≤ 134217728 := hcap
      rw [BitVec.toNat_mul, BitVec.toNat_mul]
      change (width m pDesc).toNat * (height m pDesc).toNat % 2 ^ 32 * 4 % 2 ^ 32 = _
      omega
    have hw : width m pDesc ≠ 0 := by
      intro h0
      rw [textureImage, h0] at hwidth
      cases hwidth
    have hh : height m pDesc ≠ 0 := by
      intro h0
      rw [textureImage, h0] at hheight
      cases hheight
    have hle : width m pDesc * height m pDesc * 4 ≤ textureCap := by
      rw [BitVec.le_def, hsz]
      exact hcap
    have halloc : env.malloc (width m pDesc * height m pDesc * 4).toNat := by
      rwa [hsz]
    simp only [createTexture2D]
    rw [if_pos ⟨hinit, hw, hh, hle, halloc⟩, hsz]
    by_cases h0 : m.get32 pInitialData = 0
    · rw [if_neg fun h => h h0, if_pos (hnull.1 h0)]
    · rw [if_pos h0, if_neg fun h => h0 (hnull.2 h)]
      refine congrArg (fun cs => some (Upload.mk _ cs)) ?_
      refine List.map_congr_left fun r hr => ?_
      have hr := List.mem_range.1 hr
      have hcap : _ ≤ 134217728 := hcap
      have hrow : (width m pDesc).toNat * 4 ≤ (textureImage m pDesc pInitialData).bytes :=
        Nat.le_mul_of_pos_right _ hheight
      have hend : r * ((width m pDesc).toNat * 4) ≤ (textureImage m pDesc pInitialData).bytes := by
        rw [Nat.mul_comm]
        exact Nat.mul_le_mul_left _ (Nat.le_of_lt hr)
      have hdst : (width m pDesc * 4).toNat = (width m pDesc).toNat * 4 := by
        rw [BitVec.toNat_mul]
        exact Nat.mod_eq_of_lt (by change (width m pDesc).toNat * 4 < 2 ^ 32; omega)
      have hstep : (if m.get32 (pInitialData + 8) = 0 then width m pDesc * 4
          else m.get32 (pInitialData + 8)).toNat = (textureImage m pDesc pInitialData).step := by
        unfold Image.step textureImage
        dsimp only
        rw [apply_ite BitVec.toNat, hdst]
        exact if_congr BitVec.toNat_inj.symm rfl rfl
      have hplace : (BitVec.ofNat 32 r * (width m pDesc * 4)).toNat = r * ((width m pDesc).toNat * 4) := by
        rw [row_toNat, hdst]
        exact Nat.mod_eq_of_lt (by omega)
      rw [hdst, hplace, BitVec.toNat_add, row_toNat, hstep, hlow, Nat.mod_add_mod, Nat.add_mod_mod]
      rfl

-- ---------------------------------------------------------------------------
-- The law
-- ---------------------------------------------------------------------------

/-- The promise is kept exactly by the images that there is memory for and whose rows the 32-bit
addresses reach. -/
theorem uploads_law (env : Env) (m : Mem) (pDesc pInitialData : U32) :
    (Uploaded env bufferCap.toNat (bufferImage m pDesc pInitialData)
        (createBuffer env m pDesc pInitialData) ↔
      Reached env bufferCap.toNat (bufferImage m pDesc pInitialData)) ∧
    (Uploaded env textureCap.toNat (textureImage m pDesc pInitialData)
        (createTexture2D env m pDesc pInitialData) ↔
      Reached env textureCap.toNat (textureImage m pDesc pInitialData)) :=
  ⟨buffer_handles.uploaded_iff, texture_handles.uploaded_iff⟩

/-- A description at `0x1000`, of a width and a height, and data at `0x3000` with a pitch. -/
def described (w h pitch : Nat) : Mem :=
  setAll (fun _ => 0) [(⟨0x1000, 4⟩, w), (⟨0x1004, 4⟩, h), (⟨0x2000, 8⟩, 0x3000), (⟨0x2008, 4⟩, pitch)]

/-- Of a texture of 32768 by 32768 pixels the size is 0, and its first row is behind the end of the
host's copy. -/
theorem wrapped_overflows : ¬ ∀ (env : Env) (m : Mem) (pDesc pInitialData : U32),
    Uploaded env textureCap.toNat (textureImage m pDesc pInitialData)
      (createTexture2D env m pDesc pInitialData) := by
  intro hall
  let m := described 0x8000 0x8000 0x20000
  have hinside := (hall ⟨fun _ => true, fun _ => true⟩ m 0x1000 0x2000).inside
  have hw : width m 0x1000 = 0x8000 := by decide
  have hh : height m 0x1000 = 0x8000 := by decide
  have hp : m.get32 0x2000 = 0x3000 := by decide
  have hpitch : m.get32 (0x2000 + 8) = 0x20000 := by decide
  simp only [createTexture2D, hw, hh, hp, hpitch] at hinside
  rw [if_pos (by decide), if_pos (by decide)] at hinside
  simp only [Inside, Option.mem_some, forall_eq', List.forall_mem_map] at hinside
  exact absurd (hinside 0 (List.mem_range.2 (by decide))) (by decide)

end WineGlass.Uploads
