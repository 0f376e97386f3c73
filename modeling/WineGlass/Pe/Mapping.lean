import WineGlass.Pe.Image

/-!
# Mapping an image

What `wg_load_dll` puts into the guest: the headers, then each section zero-filled and with
its raw data. Of blink, `ReserveVirtual` gives zeroed pages, also where there were some, and
copies to and from the guest stop at the first page that is not mapped. Where the sections
have pages of their own, each byte of the guest afterwards comes from one place of the file
or from none (`mapImage_is`).
-/

namespace WineGlass.Pe

open Fields Word

/-- The pages that are mapped, and the bytes by their addresses. -/
structure Guest where
  mapped : Nat → Bool
  bytes : Nat → Byte

/-- Every page from `a` to `i` is mapped. -/
def Guest.reaches (g : Guest) (a i : Nat) : Bool :=
  (List.range (i + 1 - a)).all fun j => g.mapped ((a + j) / 4096)

/-- `wg_blink_write_mem`. -/
def Guest.write (g : Guest) (a n : Nat) (b : Nat → Byte) : Guest :=
  { g with bytes := fun i =>
      if (Extent.mk a n).Has i ∧ g.reaches a i then b (i - a) else g.bytes i }

/-- `wg_blink_read_mem` into a zeroed word. -/
def Guest.read (g : Guest) (a n : Nat) : Nat :=
  word (fun i => if g.reaches a (a + i) then g.bytes (a + i) else 0) n

def Guest.reserve (g : Guest) (a n : Nat) : Guest where
  mapped p := g.mapped p || (a / 4096 ≤ p && p < (a + n + 4095) / 4096)
  bytes i := if a / 4096 ≤ i / 4096 ∧ i / 4096 < (a + n + 4095) / 4096 then 0 else g.bytes i

/-- `wg_blink_load_code`. -/
def Guest.loadCode (g : Guest) (a n : Nat) (b : Nat → Byte) : Guest := (g.reserve a n).write a n b

-- ---------------------------------------------------------------------------
-- Headers and sections
-- ---------------------------------------------------------------------------

/-- How many bytes of raw data are mapped. -/
def Section.filled (s : Section) : Nat :=
  if s.rawSize < s.virtualSize then s.rawSize.toNat else s.virtualSize.toNat

def mapHeaders (img : Image) (base : U32) (g : Guest) : Guest :=
  if img.sizeOfHeaders ≠ 0 ∧ img.sizeOfHeaders.toNat ≤ img.raw.size then
    g.write base.toNat img.sizeOfHeaders.toNat img.raw.bytes
  else g

/-- The body of the section loop. -/
def mapSection (d : Buffer) (base : U32) (s : Section) (g : Guest) : Option Guest :=
  if s.virtualSize = 0 then some g
  else
    let va := (base + s.virtualAddress).toNat
    let g := g.loadCode va s.virtualSize.toNat fun _ => 0
    match s.data with
    | none => some g
    | some data =>
      if s.rawSize = 0 then some g
      else
        if data + s.filled ≤ d.size then some (g.write va s.filled fun i => d.bytes (data + i))
        else none

def mapSections (d : Buffer) (base : U32) : List Section → Guest → Option Guest
  | [], g => some g
  | s :: ss, g => (mapSection d base s g).bind fun g => mapSections d base ss g

def mapImage (img : Image) (base : U32) (g : Guest) : Option Guest :=
  mapSections img.raw base img.sections (mapHeaders img base g)

-- ---------------------------------------------------------------------------
-- Where a byte comes from
-- ---------------------------------------------------------------------------

/-- The pages of a section. -/
def Section.room (base : U32) (s : Section) : Extent :=
  ⟨(base + s.virtualAddress).toNat, (s.virtualSize.toNat + 4095) / 4096 * 4096⟩

def Section.onPage (base : U32) (s : Section) (p : Nat) : Bool :=
  (s.room base).start / 4096 ≤ p && p < ((s.room base).start + s.virtualSize.toNat + 4095) / 4096

/-- Byte `i` of a section: raw data, then zeros. -/
def content (d : Buffer) (s : Section) (i : Nat) : Byte :=
  match s.data with
  | none => 0
  | some data => if i < s.filled then d.bytes (data + i) else 0

def sectionsByte (d : Buffer) (base : U32) (ss : List Section) (g : Guest) (a : Nat) : Byte :=
  match ss.find? fun s => decide ((s.room base).Has a) with
  | none => g.bytes a
  | some s => content d s (a - (s.room base).start)

/-- The guest with the image of the buffer `d` in it. -/
def mappedImage (img : Image) (base : U32) (g : Guest) (d : Buffer) : Guest where
  mapped p := g.mapped p || img.sections.any fun s => s.onPage base p
  bytes := sectionsByte d base img.sections (mapHeaders { img with raw := d } base g)

/-- The place in the file that a byte of the guest comes from. -/
def origin (img : Image) (base : U32) (g : Guest) (a : Nat) : Option Nat :=
  match img.sections.find? fun s => decide ((s.room base).Has a) with
  | some s => s.data.bind fun data =>
    if a - (s.room base).start < s.filled then some (data + (a - (s.room base).start)) else none
  | none =>
    if (img.sizeOfHeaders ≠ 0 ∧ img.sizeOfHeaders.toNat ≤ img.raw.size) ∧
        (Extent.mk base.toNat img.sizeOfHeaders.toNat).Has a ∧ g.reaches base.toNat a then
      some (a - base.toNat)
    else none

/-- A byte that comes from no place in the file. -/
def unfilled (img : Image) (base : U32) (g : Guest) (a : Nat) : Byte :=
  if (img.sections.find? fun s => decide ((s.room base).Has a)).isSome then 0 else g.bytes a

theorem reaches_iff {g : Guest} : g.reaches a i ↔ ∀ j, a ≤ j → j ≤ i → g.mapped (j / 4096) := by
  simp only [Guest.reaches, List.all_eq_true, List.mem_range]
  constructor
  · intro h j hj hi
    have := h (j - a) (by omega)
    rwa [Nat.add_sub_cancel' hj] at this
  · exact fun h j hj => h (a + j) (Nat.le_add_right ..) (by omega)

variable {d : Buffer} {s : Section} {g : Guest}

theorem reserve_room (h : 4096 ∣ (s.room base).start) :
    g.reserve (s.room base).start s.virtualSize.toNat =
      ⟨fun p => g.mapped p || s.onPage base p,
        fun i => if (s.room base).Has i then 0 else g.bytes i⟩ := by
  have hiff : ∀ i, ((s.room base).start / 4096 ≤ i / 4096 ∧
      i / 4096 < ((s.room base).start + s.virtualSize.toNat + 4095) / 4096) ↔
        (s.room base).Has i := by
    intro i
    have hw : (s.room base).width = (s.virtualSize.toNat + 4095) / 4096 * 4096 := rfl
    unfold Extent.Has
    omega
  unfold Guest.reserve
  simp only [hiff]
  rfl

/-- The pages of a section are mapped once they are reserved. -/
theorem reaches_room {g : Guest} (h : 4096 ∣ (s.room base).start)
    (hg : ∀ p, s.onPage base p → g.mapped p) (hi : i < s.virtualSize.toNat) :
    g.reaches (s.room base).start ((s.room base).start + i) := by
  refine reaches_iff.2 fun j hj hji => hg _ ?_
  simp only [Section.onPage, Bool.and_eq_true, decide_eq_true_eq]
  omega

theorem loadCode_zeros (h : 4096 ∣ (s.room base).start) :
    g.loadCode (s.room base).start s.virtualSize.toNat (fun _ => 0) =
      ⟨fun p => g.mapped p || s.onPage base p,
        fun i => if (s.room base).Has i then 0 else g.bytes i⟩ := by
  rw [Guest.loadCode, reserve_room h, Guest.write]
  congr 1
  funext i
  split
  · rename_i hi
    have hroom : (s.room base).Has i := by
      have hw : (s.room base).width = (s.virtualSize.toNat + 4095) / 4096 * 4096 := rfl
      obtain ⟨⟨hlo, hup⟩, -⟩ := hi
      exact ⟨hlo, by dsimp only at hup; omega⟩
    rw [if_pos hroom]
  · rfl

theorem filled_le (s : Section) : s.filled ≤ s.rawSize.toNat ∧ s.filled ≤ s.virtualSize.toNat := by
  unfold Section.filled
  split <;> rename_i h <;> rw [BitVec.lt_def] at h <;> omega

/-- Raw data over the zeros. -/
theorem write_content (h : 4096 ∣ (s.room base).start) (hdata : s.data = some data)
    (hg : ∀ p, s.onPage base p → g.mapped p) (hzero : ∀ a, (s.room base).Has a → g.bytes a = 0) :
    g.write (s.room base).start s.filled (fun i => d.bytes (data + i)) =
      { g with bytes := fun a =>
          if (s.room base).Has a then content d s (a - (s.room base).start) else g.bytes a } := by
  have hw : (s.room base).width = (s.virtualSize.toNat + 4095) / 4096 * 4096 := rfl
  have hle := (filled_le s).2
  unfold Guest.write
  congr 1
  funext a
  rw [content, hdata]
  dsimp only
  by_cases ha : (Extent.mk (s.room base).start s.filled).Has a
  · obtain ⟨hlo, hup⟩ := ha
    obtain ⟨i, rfl⟩ := Nat.exists_eq_add_of_le hlo
    have hi : i < s.filled := Nat.lt_of_add_lt_add_left hup
    have hroom : (s.room base).Has ((s.room base).start + i) := ⟨hlo, by omega⟩
    rw [if_pos ⟨⟨hlo, hup⟩, reaches_room h hg (Nat.lt_of_lt_of_le hi hle)⟩, if_pos hroom,
      Nat.add_sub_cancel_left, if_pos hi]
  · rw [if_neg fun hc => ha hc.1]
    split
    · rename_i hroom
      have hout : ¬ a - (s.room base).start < s.filled := fun hlt =>
        ha ⟨hroom.1, by have := hroom.1; dsimp only; omega⟩
      rw [if_neg hout, hzero a hroom]
    · rfl

theorem mapSection_is (h : 4096 ∣ (s.room base).start)
    (hin : ∀ data, s.data = some data → data + s.filled ≤ d.size) :
    mapSection d base s g = some ⟨fun p => g.mapped p || s.onPage base p, fun a =>
      if (s.room base).Has a then content d s (a - (s.room base).start) else g.bytes a⟩ := by
  have hw : (s.room base).width = (s.virtualSize.toNat + 4095) / 4096 * 4096 := rfl
  unfold mapSection
  split
  · rename_i hz
    have hvs : s.virtualSize.toNat = 0 := by rw [hz]; rfl
    have hpage : ∀ p, s.onPage base p = false := by
      intro p
      simp only [Section.onPage, Bool.and_eq_false_iff, decide_eq_false_iff_not]
      omega
    have hroom : ∀ a, ¬ (s.room base).Has a := by
      rintro a ⟨hlo, hup⟩
      omega
    simp only [hpage, hroom, Bool.or_false, if_false]
  · have hempty : (∀ i, content d s i = 0) → (fun a => if (s.room base).Has a then
        content d s (a - (s.room base).start) else g.bytes a) =
          fun a => if (s.room base).Has a then 0 else g.bytes a := by
      intro hc
      simp only [hc]
    have hstart : (base + s.virtualAddress).toNat = (s.room base).start := rfl
    dsimp only
    rw [hstart, loadCode_zeros h]
    cases hdata : s.data with
    | none => rw [hempty fun i => by rw [content, hdata]]
    | some data =>
      dsimp only
      split
      · rename_i hraw
        have hfilled : s.filled = 0 :=
          Nat.eq_zero_of_le_zero ((filled_le s).1.trans_eq (by rw [hraw]; rfl))
        rw [hempty fun i => by simp [content, hdata, hfilled]]
      · rw [if_pos (hin data hdata),
          write_content h hdata (fun p hp => by simp [hp]) fun a ha => if_pos ha]
        congr 2
        funext a
        split <;> rename_i ha <;> simp [ha]

/-- Sections with pages of their own are mapped one beside the other. -/
theorem mapSections_is (h : ∀ s ∈ ss, 4096 ∣ (Section.room base s).start)
    (hin : ∀ s ∈ ss, ∀ data, s.data = some data → data + s.filled ≤ d.size)
    (hap : ss.Pairwise fun s t => (Section.room base s).Apart (t.room base)) :
    mapSections d base ss g = some ⟨fun p => g.mapped p || ss.any fun s => s.onPage base p,
      sectionsByte d base ss g⟩ := by
  induction ss generalizing g with
  | nil =>
    unfold sectionsByte
    simp [mapSections]
  | cons s ss ih =>
    obtain ⟨hs, hss⟩ := List.forall_mem_cons.1 h
    obtain ⟨hin, hins⟩ := List.forall_mem_cons.1 hin
    obtain ⟨hfirst, hap⟩ := List.pairwise_cons.1 hap
    rw [mapSections, mapSection_is hs hin, Option.bind_some, ih hss hins hap]
    congr 2
    · funext p
      rw [List.any_cons, Bool.or_assoc]
    · funext a
      unfold sectionsByte
      rw [List.find?_cons]
      by_cases ha : (s.room base).Has a
      · have hnone : ss.find? (fun s => decide ((s.room base).Has a)) = none := by
          refine List.find?_eq_none.2 fun t ht hta => ?_
          exact (hfirst t ht).not_has (of_decide_eq_true hta) ha
        simp [ha, hnone]
      · simp [ha]

theorem mapImage_is (h : ∀ s ∈ img.sections, 4096 ∣ (Section.room base s).start)
    (hin : ∀ s ∈ img.sections, ∀ data, s.data = some data → data + s.filled ≤ img.raw.size)
    (hap : img.sections.Pairwise fun s t => (Section.room base s).Apart (t.room base)) :
    mapImage img base g = some (mappedImage img base g img.raw) := by
  have hmapped : (mapHeaders img base g).mapped = g.mapped := by
    unfold mapHeaders
    split <;> rfl
  rw [mapImage, mapSections_is h hin hap, hmapped]
  rfl

theorem mappedImage_byte (hsize : d.size = img.raw.size) : (mappedImage img base g d).bytes a =
    (origin img base g a).elim (unfilled img base g a) d.bytes := by
  simp only [mappedImage, sectionsByte, origin, unfilled]
  cases img.sections.find? fun s => decide ((s.room base).Has a) with
  | some s =>
    dsimp only
    unfold content
    cases s.data with
    | none => rfl
    | some data =>
      rw [Option.bind_some]
      dsimp only
      split <;> rfl
  | none =>
    simp only [mapHeaders, hsize]
    split
    · rename_i hh
      unfold Guest.write
      dsimp only
      split <;> rename_i ha
      · rw [if_pos ⟨hh, ha⟩]
        rfl
      · rw [if_neg fun hc => ha hc.2]
        rfl
    · rename_i hh
      rw [if_neg fun hc => hh hc.1]
      rfl

/-- Two files give the same guest when they agree on what is mapped of them. -/
theorem mappedImage_eq_iff (hsize : d.size = img.raw.size) (hsize' : d'.size = img.raw.size) :
    mappedImage img base g d = mappedImage img base g d' ↔
      ∀ a o, origin img base g a = some o → d.bytes o = d'.bytes o := by
  have hbyte : (∀ a, (mappedImage img base g d).bytes a = (mappedImage img base g d').bytes a) ↔
      ∀ a o, origin img base g a = some o → d.bytes o = d'.bytes o := by
    refine forall_congr' fun a => ?_
    rw [mappedImage_byte hsize, mappedImage_byte hsize']
    cases origin img base g a with
    | none => simp
    | some o => simp
  rw [← hbyte]
  constructor
  · intro h a
    rw [h]
  · exact fun h => congrArg (Guest.mk _) (funext h)

end WineGlass.Pe
