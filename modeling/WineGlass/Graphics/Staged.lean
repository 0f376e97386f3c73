import WineGlass.Graphics.Com

/-!
# Mapped resources

`Map` hands out a block of guest memory that stands beside the resource, and `Unmap` copies it to
the backend. A byte of the backend that comes from behind the host's copy is `none`.
-/

namespace WineGlass.Staged

open Com Runs

abbrev Byte := BitVec 8

/-- `D3D11_MAP` -/
inductive MapType
  | read | write | readWrite | writeDiscard | writeNoOverwrite
  deriving DecidableEq, Repr

/-- A resource: its COM object, the guest's memory, what the backend holds and the length of its
buffer, and whether it is mapped. `latest` is what the guest has last written to a byte. -/
structure State where
  obj : ComObj
  mem : Mem
  store : Nat → Option Byte
  length : Nat
  mapped : Bool
  latest : Nat → Option Byte

inductive Action
  /-- With what the guest's allocator gives for a block, and whether the host has memory for a
  copy. -/
  | map (type : MapType) (alloc : Nat)
  | write (i : Nat) (b : Byte)
  | unmap (malloc : Bool)

/-- `D3D11_MAPPED_SUBRESOURCE` -/
structure Subresource where
  pData : Nat
  rowPitch : Nat
  depthPitch : Nat

/-- `desc_len` of a `D3D11_TEXTURE2D_DESC`. -/
def isTexture (o : ComObj) : Prop := 44 ≤ o.descLen

instance (o : ComObj) : Decidable (isTexture o) := inferInstanceAs (Decidable (_ ≤ _))

/-- `wg_guest_alloc` gives memory that is zero. -/
def zeroed (m : Mem) (p n : Nat) : Mem := fun a => if p ≤ a ∧ a < p + n then 0 else m a

def State.reserve (s : State) (alloc : Nat) : State :=
  let sz := mapBytes (some s.obj)
  if s.obj.mapScratch = 0 ∨ s.obj.mapSize < sz then
    { s with obj := { s.obj with mapScratch := alloc, mapSize := sz }, mem := zeroed s.mem alloc sz }
  else s

/-- The type of the mapping is not looked at. -/
def State.map (s : State) (_ : MapType) (alloc : Nat) : State × Subresource :=
  let sz := mapBytes (some s.obj)
  let s := s.reserve alloc
  ({ s with mapped := true },
    ⟨s.obj.mapScratch, if isTexture s.obj then s.obj.desc.1 * 4 % 2 ^ 32 else sz, sz⟩)

/-- `wg_gpu_update_buffer`, which takes as many bytes as the buffer has when it is longer. -/
def State.updateBuffer (s : State) (data : Nat → Byte) (size : Nat) : State :=
  if isTexture s.obj then s
  else { s with store := fun i => if i < size then some (data i) else none, length := max s.length size }

def State.unmap (s : State) (malloc : Bool) : State :=
  let sz := unmapBytes s.obj
  let s := { s with mapped := false }
  if s.obj.backend.isSome ∧ s.obj.mapScratch ≠ 0 ∧ 0 < sz ∧ sz ≤ 0x400000 ∧ malloc then
    s.updateBuffer (fun i => s.mem (s.obj.mapScratch + i)) sz
  else s

/-- The guest writes a byte of the block. -/
def State.write (s : State) (i : Nat) (b : Byte) : State :=
  { s with mem := Function.update s.mem (s.obj.mapScratch + i) b
           latest := Function.update s.latest i (some b) }

def step (s : State) : Action → Option (State × Option Subresource)
  | .map type alloc => some ((s.map type alloc).1, some (s.map type alloc).2)
  | .write i b =>
    if s.mapped ∧ s.obj.mapScratch ≠ 0 ∧ i < mapBytes (some s.obj) then some (s.write i b, none)
    else none
  | .unmap malloc => some (s.unmap malloc, none)

-- ---------------------------------------------------------------------------
-- What is promised
-- ---------------------------------------------------------------------------

/-- The bytes of a row, and the rows. -/
def rowBytes (o : ComObj) : Nat := if isTexture o then o.desc.1 * 4 else o.desc.1

def rows (o : ComObj) : Nat := if isTexture o then o.desc.2 else 1

def bytes (o : ComObj) : Nat := rowBytes o * rows o

/-- Every byte of the resource has a place of its own in the mapped range. -/
structure Covers (o : ComObj) (r : Subresource) : Prop where
  data : r.pData ≠ 0
  pitch : 1 < rows o → rowBytes o ≤ r.rowPitch
  range : ∀ row < rows o, ∀ j < rowBytes o, row * r.rowPitch + j < r.depthPitch

/-- A byte is what the guest has last written, and else what it was at the start. -/
def Kept (s₀ s : State) : Prop :=
  ∀ i < bytes s.obj, s.store i = ((s.latest i).map some).getD (s₀.store i)

/-- Without `WRITE_DISCARD`, what the guest has been told covers the resource, and the backend holds
it when it is not mapped. -/
structure Faithful (s₀ : State) (tr : List (Action × Option Subresource)) (s : State) : Prop where
  covers : ∀ e ∈ tr, ∀ r ∈ e.2, Covers s.obj r
  kept : (∀ e ∈ tr, ∀ alloc, e.1 ≠ .map .writeDiscard alloc) → s.mapped = false → Kept s₀ s

/-- A new resource. -/
structure Start (s : State) : Prop where
  desc : s.obj.descLen = 24 ∨ s.obj.descLen = 44
  backend : s.obj.backend.isSome
  scratch : s.obj.mapScratch = 0
  unmapped : s.mapped = false
  length : bytes s.obj ≠ 0 → s.length = bytes s.obj
  unwritten : s.latest = fun _ => none

/-- There is memory for the block, and for the copy of it. -/
def Granted (_ : State) : Action → Prop
  | .map _ alloc => alloc ≠ 0
  | .write _ _ => True
  | .unmap malloc => malloc

instance (s : State) : ∀ a, Decidable (Granted s a)
  | .map _ _ => inferInstanceAs (Decidable (_ ≠ _))
  | .write _ _ => inferInstanceAs (Decidable True)
  | .unmap _ => inferInstanceAs (Decidable (_ = _))

/-- Only the block of a buffer, and of one of at most 4 MB, reaches the backend. -/
def Updates (o : ComObj) : Prop := ¬ isTexture o ∧ bytes o ≤ 0x400000

instance (o : ComObj) : Decidable (Updates o) := inferInstanceAs (Decidable (_ ∧ _))

/-- What the backend holds when nothing is mapped. A byte of the block that the guest has not written
is zero, whatever the resource was made with. -/
structure Copied (s₀ : State) (tr : List (Action × Option Subresource)) (s : State) : Prop where
  covers : ∀ e ∈ tr, ∀ r ∈ e.2, Covers s.obj r
  store : s.mapped = false → ∀ i < bytes s.obj, s.store i =
    if s.obj.mapScratch ≠ 0 ∧ Updates s.obj then some ((s.latest i).getD 0) else s₀.store i

-- ---------------------------------------------------------------------------
-- Sizes
-- ---------------------------------------------------------------------------

variable {o : ComObj} {s s' : State}

/-- The block is as large as the resource. -/
theorem mapBytes_eq (hdesc : o.descLen = 24 ∨ o.descLen = 44) (hne : bytes o ≠ 0)
    (hle : bytes o ≤ 0x4000000) : mapBytes (some o) = bytes o := by
  rcases hdesc with h24 | h44
  · have hbytes : bytes o = o.desc.1 := by simp [bytes, rowBytes, rows, isTexture, h24]
    simp only [mapBytes, h24, Nat.reduceLeDiff, Nat.le_refl, ↓reduceIte, ← hbytes]
    exact if_neg (by omega)
  · have hbytes : bytes o = o.desc.1 * o.desc.2 * 4 := by
      simp only [bytes, rowBytes, rows, isTexture, h44, Nat.le_refl, ↓reduceIte]
      exact Nat.mul_right_comm ..
    have hheight : o.desc.2 ≠ 0 := fun h0 => hne (by rw [hbytes, h0, Nat.mul_zero])
    simp only [mapBytes, h44, Nat.le_refl, ↓reduceIte]
    rw [if_neg hheight, ← hbytes, Nat.mod_eq_of_lt (by omega)]
    exact if_neg (by omega)

theorem rowBytes_le (hrow : row < rows o) : rowBytes o ≤ bytes o :=
  Nat.le_mul_of_pos_right _ (Nat.zero_lt_of_lt hrow)

/-- The pitch of the rows, where there are rows. -/
theorem pitch_eq (hrow : row < rows o) (hle : bytes o ≤ 0x4000000) (ht : isTexture o) :
    o.desc.1 * 4 % 2 ^ 32 = rowBytes o := by
  have hrows := rowBytes_le hrow
  rw [rowBytes, if_pos ht] at hrows ⊢
  exact Nat.mod_eq_of_lt (by omega)

/-- What `Map` reports covers the resource. -/
theorem reported_covers (hdesc : o.descLen = 24 ∨ o.descLen = 44) (hle : bytes o ≤ 0x4000000)
    (hp : p ≠ 0) : Covers o
      ⟨p, if isTexture o then o.desc.1 * 4 % 2 ^ 32 else mapBytes (some o), mapBytes (some o)⟩ where
  data := hp
  pitch hrows := by
    dsimp only
    split
    · rename_i ht
      exact (pitch_eq hrows hle ht).ge
    · rename_i hb
      rw [rows, if_neg hb] at hrows
      exact absurd hrows (Nat.lt_irrefl 1)
  range row hrow j hj := by
    have hne : bytes o ≠ 0 := by
      have hrows := rowBytes_le hrow
      omega
    have hrange : row * rowBytes o + j < bytes o := by
      have hnext : (row + 1) * rowBytes o ≤ rows o * rowBytes o := Nat.mul_le_mul_right _ hrow
      rw [Nat.succ_mul] at hnext
      rw [bytes, Nat.mul_comm (rowBytes o)]
      omega
    dsimp only
    rw [mapBytes_eq hdesc hne hle]
    split
    · rename_i ht
      rwa [pitch_eq hrow hle ht]
    · rename_i hb
      rw [rows, if_neg hb] at hrow
      obtain rfl : row = 0 := Nat.lt_one_iff.1 hrow
      rwa [Nat.zero_mul] at hrange ⊢

/-- `Unmap` takes a buffer as a whole. -/
theorem unmapBytes_eq (hdesc : o.descLen = 24) (hne : bytes o ≠ 0) (hle : bytes o ≤ o.mapSize) :
    unmapBytes o = bytes o := by
  have hbytes : bytes o = o.desc.1 := by simp [bytes, rowBytes, rows, isTexture, hdesc]
  simp only [unmapBytes, hdesc, Nat.le_refl, ↓reduceIte, ← hbytes]
  exact if_neg (by omega)

-- ---------------------------------------------------------------------------
-- Steps
-- ---------------------------------------------------------------------------

/-- The block holds what the guest has written, and is zero elsewhere. -/
structure Inv (s₀ s : State) : Prop where
  obj : s.obj = { s₀.obj with mapScratch := s.obj.mapScratch, mapSize := s.obj.mapSize }
  length : bytes s₀.obj ≠ 0 → s.length = bytes s₀.obj
  size : s.obj.mapScratch ≠ 0 → s.obj.mapSize = mapBytes (some s₀.obj)
  fresh : s.obj.mapScratch = 0 → s.latest = fun _ => none
  block : s.obj.mapScratch ≠ 0 → ∀ i < mapBytes (some s₀.obj),
    s.mem (s.obj.mapScratch + i) = (s.latest i).getD 0
  reserved : s.mapped → s.obj.mapScratch ≠ 0
  store : (Updates s₀.obj → s.mapped = false) → ∀ i < bytes s₀.obj, s.store i =
    if s.obj.mapScratch ≠ 0 ∧ Updates s₀.obj then some ((s.latest i).getD 0) else s₀.store i

variable {s₀ : State}

theorem Inv.bytes_eq (h : Inv s₀ s) : bytes s.obj = bytes s₀.obj := by
  rw [h.obj]
  rfl

theorem Inv.mapBytes_obj (h : Inv s₀ s) : mapBytes (some s.obj) = mapBytes (some s₀.obj) := by
  rw [h.obj]
  rfl

theorem Inv.updates_iff (h : Inv s₀ s) : Updates s.obj ↔ Updates s₀.obj := by
  rw [h.obj]
  exact Iff.rfl

theorem Start.inv (h : Start s) : Inv s s where
  obj := rfl
  length := h.length
  size hne := absurd h.scratch hne
  fresh _ := h.unwritten
  block hne := absurd h.scratch hne
  reserved hm := absurd (h.unmapped.symm.trans hm) Bool.false_ne_true
  store _ _ _ := (if_neg fun hne => hne.1 h.scratch).symm

theorem Inv.reserve (h : Inv s₀ s) (halloc : alloc ≠ 0) :
    Inv s₀ { s.reserve alloc with mapped := true } ∧ (s.reserve alloc).obj.mapScratch ≠ 0 := by
  unfold State.reserve
  dsimp only
  rw [h.mapBytes_obj]
  split
  · rename_i hfirst
    have hnone : s.obj.mapScratch = 0 := by
      refine hfirst.elim id fun hlt => by_contra fun hne => ?_
      rw [h.size hne] at hlt
      exact Nat.lt_irrefl _ hlt
    refine ⟨⟨?_, h.length, fun _ => rfl, fun h0 => absurd h0 halloc, fun _ i hi => ?_,
      fun _ => halloc, fun hup i hi => ?_⟩, halloc⟩
    · rw [h.obj]
    · rw [h.fresh hnone]
      exact if_pos ⟨Nat.le_add_right _ _, Nat.add_lt_add_left hi _⟩
    · have hnot : ¬ Updates s₀.obj := fun hu => Bool.false_ne_true (hup hu).symm
      have hstore := h.store (fun hu => absurd hu hnot) i hi
      rw [if_neg fun hand => hnot hand.2] at hstore ⊢
      exact hstore
  · rename_i hkept
    have hne : s.obj.mapScratch ≠ 0 := fun h0 => hkept (.inl h0)
    refine ⟨⟨h.obj, h.length, h.size, h.fresh, h.block, fun _ => hne, fun hup i hi => ?_⟩, hne⟩
    have hnot : ¬ Updates s₀.obj := fun hu => Bool.false_ne_true (hup hu).symm
    exact h.store (fun hu => absurd hu hnot) i hi

theorem Inv.write (h : Inv s₀ s) (hm : s.mapped) (hne : s.obj.mapScratch ≠ 0) :
    Inv s₀ (s.write i b) where
  obj := h.obj
  length := h.length
  size := h.size
  fresh h0 := absurd h0 hne
  block _ j hj := by
    have hblock := h.block hne j hj
    simp only [State.write]
    rcases Decidable.em (j = i) with rfl | hji
    · rw [Function.update_self, Function.update_self]
      rfl
    · rwa [Function.update_of_ne (fun he => hji (Nat.add_left_cancel he)), Function.update_of_ne hji]
  reserved _ := hne
  store hup j hj := by
    have hnot : ¬ Updates s₀.obj := fun hu => Bool.false_ne_true ((hup hu).symm.trans hm)
    have hstore := h.store hup j hj
    rw [if_neg fun hand => hnot hand.2] at hstore ⊢
    exact hstore

/-- `Unmap` with nothing to do. -/
theorem Inv.quiet (h : Inv s₀ s) (hnot : ¬ (s.obj.mapScratch ≠ 0 ∧ Updates s₀.obj)) :
    Inv s₀ { s with mapped := false } where
  obj := h.obj
  length := h.length
  size := h.size
  fresh := h.fresh
  block := h.block
  reserved hm := (Bool.false_ne_true hm).elim
  store _ := h.store fun hu => Bool.eq_false_iff.2 fun hm => hnot ⟨h.reserved hm, hu⟩

theorem Inv.isTexture_iff (h : Inv s₀ s) : isTexture s.obj ↔ isTexture s₀.obj := by
  rw [h.obj]
  exact Iff.rfl

/-- The bytes of `Unmap`, where there are any. -/
theorem Inv.unmapBytes_eq (h : Inv s₀ s) (hdesc : s₀.obj.descLen = 24 ∨ s₀.obj.descLen = 44)
    (hle : bytes s₀.obj ≤ 0x4000000) (hne : s.obj.mapScratch ≠ 0) (hb : ¬ isTexture s₀.obj)
    (hpos : bytes s₀.obj ≠ 0) :
    unmapBytes s.obj = bytes s₀.obj ∧ mapBytes (some s₀.obj) = bytes s₀.obj := by
  have hmap := mapBytes_eq hdesc hpos hle
  have h24 : s.obj.descLen = 24 := by
    rw [h.obj]
    refine hdesc.resolve_right fun h44 => hb ?_
    exact h44.ge
  rw [← h.bytes_eq] at hpos hmap ⊢
  refine ⟨Staged.unmapBytes_eq h24 hpos ?_, hmap⟩
  rw [h.size hne, hmap]

theorem Inv.unmap (h : Inv s₀ s) (hdesc : s₀.obj.descLen = 24 ∨ s₀.obj.descLen = 44)
    (hback : s₀.obj.backend.isSome) (hle : bytes s₀.obj ≤ 0x4000000) : Inv s₀ (s.unmap true) := by
  unfold State.unmap
  dsimp only
  split
  · rename_i hflush
    obtain ⟨-, hne, -, hcap, -⟩ := hflush
    unfold State.updateBuffer
    dsimp only
    split
    · rename_i ht
      exact h.quiet fun hand => hand.2.1 (h.isTexture_iff.1 ht)
    · rename_i hb
      have hb := mt h.isTexture_iff.2 hb
      refine ⟨h.obj, fun hpos => ?_, h.size, h.fresh, h.block, fun hm => (Bool.false_ne_true hm).elim,
        fun _ i hi => ?_⟩
      · dsimp only
        rw [h.length hpos, (h.unmapBytes_eq hdesc hle hne hb hpos).1, Nat.max_self]
      · obtain ⟨hun, hmap⟩ := h.unmapBytes_eq hdesc hle hne hb (Nat.ne_zero_of_lt hi)
        dsimp only
        rw [hun] at hcap ⊢
        rw [if_pos hi, if_pos ⟨hne, hb, hcap⟩, h.block hne i (by rwa [hmap])]
  · rename_i hskip
    by_cases hpos : bytes s₀.obj = 0
    · refine ⟨h.obj, h.length, h.size, h.fresh, h.block, fun hm => (Bool.false_ne_true hm).elim,
        fun _ i hi => ?_⟩
      rw [hpos] at hi
      exact absurd hi (Nat.not_lt_zero i)
    · refine h.quiet fun hand => hskip ⟨?_, hand.1, ?_, ?_, rfl⟩
      · rw [h.obj]
        exact hback
      · rw [(h.unmapBytes_eq hdesc hle hand.1 hand.2.1 hpos).1]
        exact Nat.pos_of_ne_zero hpos
      · rw [(h.unmapBytes_eq hdesc hle hand.1 hand.2.1 hpos).1]
        exact hand.2.2

-- ---------------------------------------------------------------------------
-- Runs
-- ---------------------------------------------------------------------------

/-- What holds along a run. -/
structure Along (s₀ : State) (tr : List (Action × Option Subresource)) (s : State) : Prop where
  inv : Inv s₀ s
  covers : ∀ e ∈ tr, ∀ r ∈ e.2, Covers s₀.obj r

theorem Along.step (h : Along s₀ tr s) (hdesc : s₀.obj.descLen = 24 ∨ s₀.obj.descLen = 44)
    (hback : s₀.obj.backend.isSome) (hle : bytes s₀.obj ≤ 0x4000000) (hok : Granted s a)
    (hs : step s a = some (s', e)) : Along s₀ (tr ++ [(a, e)]) s' := by
  have hnew : Inv s₀ s' ∧ ∀ r ∈ e, Covers s₀.obj r := by
    cases a with
    | map type alloc =>
      obtain ⟨hinv, hne⟩ := h.inv.reserve hok
      have hwidth : (s.reserve alloc).obj.desc = s₀.obj.desc := by
        have hobj := hinv.obj
        rw [hobj]
      have hpitch : (if isTexture (s.reserve alloc).obj then (s.reserve alloc).obj.desc.1 * 4 % 2 ^ 32
          else mapBytes (some s.obj)) = if isTexture s₀.obj then s₀.obj.desc.1 * 4 % 2 ^ 32
          else mapBytes (some s₀.obj) := by
        rw [hwidth, h.inv.mapBytes_obj]
        exact if_congr hinv.isTexture_iff rfl rfl
      cases hs
      refine ⟨hinv, ?_⟩
      rintro _ ⟨⟩
      simp only [State.map]
      rw [hpitch, h.inv.mapBytes_obj]
      exact reported_covers hdesc hle hne
    | write i b =>
      simp only [Staged.step] at hs
      split at hs
      · rename_i hin
        cases hs
        exact ⟨h.inv.write hin.1 hin.2.1, nofun⟩
      · cases hs
    | unmap malloc =>
      cases hs
      obtain rfl : malloc = true := hok
      exact ⟨h.inv.unmap hdesc hback hle, nofun⟩
  refine ⟨hnew.1, fun x hx => ?_⟩
  rcases List.mem_append.1 hx with hold | hlast
  · exact h.covers x hold
  · obtain rfl := List.mem_singleton.1 hlast
    exact hnew.2

/-- What a run of `Map`, the guest's writes and `Unmap` leaves in the backend. -/
theorem staged_law (hstart : Start s₀) (hle : bytes s₀.obj ≤ 0x4000000)
    (hr : Run step Granted s₀ tr s) : Copied s₀ tr s := by
  have halong : Along s₀ tr s := hr.invariant (P := Along s₀) ⟨hstart.inv, nofun⟩
    fun h hok hs => h.step hstart.desc hstart.backend hle hok hs
  refine ⟨fun e he r hr => ?_, fun hm i hi => ?_⟩
  · have hcov := halong.covers e he r hr
    rw [halong.inv.obj]
    exact ⟨hcov.data, hcov.pitch, hcov.range⟩
  · rw [halong.inv.bytes_eq] at hi
    rw [halong.inv.store (fun _ => hm) i hi]
    exact if_congr (and_congr_right fun _ => halong.inv.updates_iff.symm) rfl rfl

/-- A buffer of four bytes, made from the numbers from one on. -/
def counted : State where
  obj := { inUse := true, iface := .d3d11Child, guest := 0x1000, refcount := 1, backend := some .stub
           descLen := 24, desc := (4, 0) }
  mem := fun _ => 0
  store := fun i => if i < 4 then some (.ofNat 8 (i + 1)) else none
  length := 4
  mapped := false
  latest := fun _ => none

theorem counted_start : Start counted := ⟨.inl rfl, rfl, rfl, rfl, fun _ => rfl, rfl⟩

/-- One byte is written. -/
def written : State := ((counted.map .write 0x2000).1.write 0 9).unmap true

theorem written_run : ∃ tr, Run step Granted counted tr written ∧
    ∀ e ∈ tr, ∀ alloc, e.1 ≠ .map .writeDiscard alloc := by
  have hexec : exec step Granted counted [.map .write 0x2000, .write 0 9, .unmap true] =
      some ([(.map .write 0x2000, some ⟨0x2000, 4, 4⟩), (.write 0 9, none), (.unmap true, none)],
        written) := rfl
  refine ⟨_, .of_exec hexec, ?_⟩
  simp

theorem staged_law_counted : ∃ tr, Copied counted tr written := by
  obtain ⟨tr, hr, -⟩ := written_run
  exact ⟨tr, staged_law counted_start (by decide) hr⟩

/-- The other bytes lose what the buffer was made with. -/
theorem initial_lost : ¬ ∀ s₀ tr s, Start s₀ → Run step Granted s₀ tr s → Faithful s₀ tr s := by
  intro hall
  obtain ⟨tr, hr, hkeeps⟩ := written_run
  have hkept := (hall counted tr written counted_start hr).kept hkeeps rfl 1 (by decide)
  exact absurd hkept (by decide)

end WineGlass.Staged
