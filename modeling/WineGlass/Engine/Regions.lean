import WineGlass.Engine.GuestHeap
import Mathlib.Data.List.GetD

/-!
# The regions of `VirtualAlloc`

A 64-bit program's reservations from a cutoff on go to region 3, above 4 GB: a bump pointer,
a list of freed blocks and a table of those in use, each of at most 8192 entries. What region 3
does not serve, and what is smaller, goes to the 32-bit heap. Whether a reservation is
committed too decides nothing about where it is.
-/

namespace WineGlass.Regions

open Runs Spans GuestHeap

-- ---------------------------------------------------------------------------
-- The code
-- ---------------------------------------------------------------------------

/-- `WG_HEAP64_BASE`, `WG_HEAP64_END` and `WG_MAX_ALLOC64`. -/
def heap64Base : Nat := 0x100000000
def heap64End : Nat := 0x2800000000
def maxAlloc64 : Nat := 8192

def u64 (x : Nat) : Nat := x % 2 ^ 64

/-- `(x + 0xFFF) & ~0xFFF`. -/
def roundPage64 (x : Nat) : Nat := u64 (x + 0xFFF) / 0x1000 * 0x1000

/-- `(x + 0xFFFF) & ~0xFFFF`. -/
def roundGranule64 (x : Nat) : Nat := u64 (x + 0xFFFF) / 0x10000 * 0x10000

/-- What the environment sets: `region3_min`, and `WG_WHOLEBLOCK`. -/
structure Config where
  cutoff : Nat
  wholeBlock : Bool

/-- `s_heap64_ptr`, `s_alloc64` and `s_free64`. -/
structure Region3 where
  ptr : Nat
  tracked : List Span
  freed : List Span
  deriving DecidableEq, Repr

structure State where
  heap : GuestHeap.State
  region3 : Region3

def State.init : State := ⟨.init, ⟨heap64Base, [], []⟩⟩

def overlapsLive (tracked : List Span) (addr size : Nat) : Bool :=
  tracked.any fun t => addr < u64 (t.start + roundPage64 t.len) && t.start < u64 (addr + size)

/-- The search for a block of the very size; `n` entries are still to be looked at, and one
that overlaps a block in use is dropped. -/
def takeExact (tracked : List Span) (want : Nat) : Nat → List Span → Option Span × List Span
  | 0, freed => (none, freed)
  | n + 1, freed =>
    let i := freed.length - (n + 1)
    match freed[i]? with
    | none => (none, freed)
    | some b =>
      if b.len = want then
        if overlapsLive tracked b.start want then takeExact tracked want n (swapRemove freed i)
        else (some b, swapRemove freed i)
      else takeExact tracked want n freed

/-- The first of the smallest blocks that are large enough. -/
def bestFit (freed : List Span) (want : Nat) : Option Nat :=
  (List.range freed.length).foldl (fun best i =>
    let len := fun i => (freed.getD i ⟨0, 0⟩).len
    if want ≤ len i ∧ ∀ j ∈ best, len i < len j then some i else best) none

/-- The search for a block that is large enough, to be handed out whole. -/
def takeBest (tracked : List Span) (want : Nat) : Nat → List Span → Option Span × List Span
  | 0, freed => (none, freed)
  | n + 1, freed =>
    match bestFit freed want with
    | none => (none, freed)
    | some i =>
      let b := freed.getD i ⟨0, 0⟩
      if overlapsLive tracked b.start b.len then takeBest tracked want n (swapRemove freed i)
      else (some b, swapRemove freed i)

/-- `wg_free_take64_r`. -/
def freeTake64 (c : Config) (r : Region3) (size : Nat) : Option Span × List Span :=
  let want := roundPage64 size
  match takeExact r.tracked want r.freed.length r.freed with
  | (some b, freed) => (some b, freed)
  | (none, freed) =>
    if c.wholeBlock then takeBest r.tracked want freed.length freed else (none, freed)

/-- `wg_track_alloc64`. -/
def trackAlloc64 (tracked : List Span) (b : Span) : List Span :=
  if tracked.length < maxAlloc64 then tracked ++ [b] else tracked

/-- A reservation at the pointer. -/
def bump64 (r : Region3) (size : Nat) : Region3 × Nat :=
  let ptr := roundGranule64 r.ptr
  let alloc := roundPage64 size
  if heap64End < u64 (ptr + alloc) then ({ r with ptr }, 0)
  else
    ({ r with ptr := roundPage64 (u64 (ptr + alloc)), tracked := trackAlloc64 r.tracked ⟨ptr, size⟩ },
      ptr)

/-- `wg_guest_reserve64`, for the granule of 64 KB: the region after, the address, and how much
of it there is to commit. -/
def reserve64 (c : Config) (r : Region3) (request : Nat) : Region3 × Nat × Nat :=
  let size := if request = 0 then 1 else request
  let bump := fun r => ((bump64 r size).1, (bump64 r size).2, size)
  match freeTake64 c r (roundPage64 size) with
  | (some b, freed) =>
    if b.start ≠ 0 then ({ r with freed, tracked := trackAlloc64 r.tracked b }, b.start, b.len)
    else bump { r with freed }
  | (none, freed) => bump { r with freed }

/-- The entry of the table for a block, the one used last first. -/
def find64 (tracked : List Span) (addr : Nat) : Option Nat :=
  (tracked.reverse.findIdx? fun b => b.start == addr).map (tracked.length - 1 - ·)

/-- `wg_guest_free64`. -/
def free64 (r : Region3) (addr : Nat) : Region3 :=
  if addr < heap64Base then r
  else
    match find64 r.tracked addr with
    | none => r
    | some i =>
      let size := (r.tracked.getD i ⟨0, 0⟩).len
      let r := { r with tracked := swapRemove r.tracked i }
      if size = 0 then r
      else if r.freed.any fun b => b.start == addr then r
      else if r.freed.length < maxAlloc64 then
        { r with freed := r.freed ++ [⟨addr, roundPage64 size⟩] }
      else r

/-- The 32-bit heap is given what is left of the size in 32 bits. -/
def allocLow (heap : GuestHeap.State) (size : Nat) (ok : Bool) : GuestHeap.State × Nat :=
  guestAllocAligned heap (u32 size) 0x10000 ok

/-- `VirtualAlloc(NULL, size)`; `ok` tells whether `calloc` succeeds. -/
def virtualAlloc (c : Config) (s : State) (size : Nat) (ok : Bool) : State × Nat :=
  if size = 0 then (s, 0)
  else if c.cutoff ≤ size then
    let (region3, a, _) := reserve64 c s.region3 size
    if a ≠ 0 then ({ s with region3 }, a)
    else
      let (heap, a) := allocLow s.heap size ok
      (⟨heap, region3⟩, a)
  else
    let (heap, a) := allocLow s.heap size ok
    ({ s with heap }, a)

/-- `VirtualFree(addr, 0, MEM_RELEASE)`. -/
def virtualFree (s : State) (addr : Nat) : State :=
  if heap64Base ≤ addr then { s with region3 := free64 s.region3 addr }
  else
    { s with heap := { s.heap with
      freeBlocks := guestFree s.heap addr
      live := s.heap.live.eraseP fun b => b.start == addr } }

inductive Action
  | alloc (size : Nat) (ok : Bool)
  | free (addr : Nat)
  deriving DecidableEq, Repr

/-- Arguments are 64 bits wide. -/
def Action.Fits : Action → Prop
  | .alloc size _ => size < 2 ^ 64
  | .free addr => addr < 2 ^ 64

instance (a : Action) : Decidable a.Fits := by cases a <;> unfold Action.Fits <;> infer_instance

def step (c : Config) (s : State) (a : Action) : Option (State × Nat) :=
  if a.Fits then
    match a with
    | .alloc size ok => some (virtualAlloc c s size ok)
    | .free addr => some (virtualFree s addr, 1)
  else none

-- ---------------------------------------------------------------------------
-- Regions
-- ---------------------------------------------------------------------------

/-- A size in whole pages. -/
def pages (size : Nat) : Nat := (size + 0xFFF) / 0x1000 * 0x1000

/-- What the program holds: each reservation until its base is released. -/
def regions (tr : List (Action × Nat)) : List Span :=
  tr.foldl (fun l x =>
    match x with
    | (.alloc size _, a) => if a = 0 then l else ⟨a, pages size⟩ :: l
    | (.free addr, _) => l.eraseP fun b => b.start == addr) []

/-- A place for a region: in region 3 or in the 32-bit heap, on a boundary of 64 KB. -/
structure Placed (b : Span) : Prop where
  inside : heap64Base ≤ b.start ∧ b.stop ≤ heap64End ∨ InHeap b
  aligned : 0x10000 ∣ b.start

structure Sound (tr : List (Action × Nat)) : Prop where
  apart : AllApart (regions tr)
  placed : ∀ b ∈ regions tr, Placed b

/-- A reservation that region 3 does not wrap around on, and that does not go to the 32-bit
heap short of its upper bits; a release of a block of the 32-bit heap that adds nothing to the
list of freed blocks but the live block there. -/
def Meets (c : Config) (s : State) : Action → Prop
  | .alloc size ok => size = 0 ∨
      (c.cutoff ≤ size → roundGranule64 s.region3.ptr + pages size < 2 ^ 64) ∧
      (size < 2 ^ 32 ∨ c.cutoff ≤ size ∧ (reserve64 c s.region3 size).2.1 ≠ 0 ∨
        (allocLow s.heap size ok).2 = 0)
  | .free addr => heap64Base ≤ addr ∨ guestFree s.heap addr = s.heap.freeBlocks ∨
      ∃ b ∈ liveAt s.heap addr, roundPage (allocSizeFor s.heap.allocSizes addr) ≤ b.len

instance (c : Config) (s : State) (a : Action) : Decidable (Meets c s a) := by
  cases a <;> unfold Meets <;> infer_instance

-- ---------------------------------------------------------------------------
-- Arithmetic
-- ---------------------------------------------------------------------------

theorem u64_eq (h : x < 2 ^ 64) : u64 x = x := Nat.mod_eq_of_lt h

theorem roundPage64_eq (h : pages x < 2 ^ 64) : roundPage64 x = pages x := by
  unfold roundPage64 pages u64 at *
  omega

theorem pages_pages (x : Nat) : pages (pages x) = pages x := by
  unfold pages
  omega

theorem le_pages (x : Nat) : x ≤ pages x ∧ 0x1000 ∣ pages x := by
  unfold pages
  omega

theorem granule_bounds (h : p ≤ heap64End) :
    p ≤ roundGranule64 p ∧ roundGranule64 p ≤ heap64End ∧ 0x10000 ∣ roundGranule64 p := by
  unfold roundGranule64 u64 heap64End at *
  omega

-- ---------------------------------------------------------------------------
-- The list of freed blocks
-- ---------------------------------------------------------------------------

theorem swapRemove_subperm {l : List α} (h : i < l.length) : (l[i] :: swapRemove l i).Subperm l :=
  (swapRemove_perm h).subperm

/-- A search takes a block out, or nothing; it may drop others. -/
def Takes (freed : List Span) (want : Nat) (r : Option Span × List Span) : Prop :=
  match r.1 with
  | none => r.2.Subperm freed
  | some b => want ≤ b.len ∧ (b :: r.2).Subperm freed

theorem Takes.drop (h : Takes (swapRemove freed i) want r) (hi : i < freed.length) :
    Takes freed want r := by
  have hsub : (swapRemove freed i).Subperm freed :=
    (List.Subperm.cons_self).trans (swapRemove_subperm hi)
  unfold Takes at *
  cases hr : r.1 with
  | none =>
    rw [hr] at h
    exact h.trans hsub
  | some b =>
    rw [hr] at h
    exact ⟨h.1, h.2.trans hsub⟩

theorem takeExact_takes (tracked : List Span) (want n : Nat) (freed : List Span) :
    Takes freed want (takeExact tracked want n freed) := by
  induction n generalizing freed with
  | zero => exact .refl freed
  | succ n ih =>
    rw [takeExact]
    split
    · exact .refl freed
    · rename_i b hb
      obtain ⟨hi, hbi⟩ := List.getElem?_eq_some_iff.1 hb
      split
      · rename_i hlen
        split
        · exact (ih _).drop hi
        · refine ⟨Nat.le_of_eq hlen.symm, ?_⟩
          rw [← hbi]
          exact swapRemove_subperm hi
      · exact ih freed

theorem bestFit_spec (h : bestFit freed want = some i) :
    ∃ hi : i < freed.length, want ≤ freed[i].len := by
  let good (best : Option Nat) : Prop := ∀ i ∈ best, ∃ hi : i < freed.length, want ≤ freed[i].len
  suffices hgood : good (bestFit freed want) from hgood i h
  unfold bestFit
  refine List.foldlRecOn (motive := good) _ _ (fun _ h => absurd h (Option.not_mem_none _)) ?_
  intro best hbest i hi
  lift_lets
  intro len
  split
  · rename_i hcond
    rintro j hj
    obtain rfl := Option.some.inj hj
    have hlt := List.mem_range.1 hi
    have hlen : len i = freed[i].len := congrArg Span.len (List.getD_eq_getElem _ _ hlt)
    exact ⟨hlt, hlen ▸ hcond.1⟩
  · exact hbest

theorem takeBest_takes (tracked : List Span) (want n : Nat) (freed : List Span) :
    Takes freed want (takeBest tracked want n freed) := by
  induction n generalizing freed with
  | zero => exact .refl freed
  | succ n ih =>
    rw [takeBest]
    split
    · exact .refl freed
    · rename_i i hbest
      obtain ⟨hi, hle⟩ := bestFit_spec hbest
      dsimp only
      rw [List.getD_eq_getElem _ _ hi]
      split
      · exact (ih _).drop hi
      · exact ⟨hle, swapRemove_subperm hi⟩

theorem freeTake64_takes (c : Config) (r : Region3) (size : Nat) :
    Takes r.freed (roundPage64 size) (freeTake64 c r size) := by
  have hexact := takeExact_takes r.tracked (roundPage64 size) r.freed.length r.freed
  unfold freeTake64
  dsimp only
  split
  · rename_i b freed heq
    rw [heq] at hexact
    exact hexact
  · rename_i freed heq
    rw [heq] at hexact
    split
    · have hbest := takeBest_takes r.tracked (roundPage64 size) freed.length freed
      unfold Takes at *
      split
      · rename_i hnone
        rw [hnone] at hbest
        exact hbest.trans hexact
      · rename_i b hsome
        rw [hsome] at hbest
        exact ⟨hbest.1, hbest.2.trans hexact⟩
    · exact hexact

-- ---------------------------------------------------------------------------
-- Region 3
-- ---------------------------------------------------------------------------

/-- A block as it is given back. -/
def whole (t : Span) : Span := ⟨t.start, pages t.len⟩

/-- A block of whole pages below the pointer. -/
structure Block (ptr : Nat) (b : Span) : Prop where
  above : heap64Base ≤ b.start
  below : b.stop ≤ ptr
  aligned : 0x10000 ∣ b.start
  paged : 0x1000 ∣ b.len
  room : 0 < b.len

/-- The blocks in use and those that are freed are apart, and the table knows some of those
in use. -/
structure Inv (r : Region3) (own : List Span) : Prop where
  apart : AllApart (own ++ r.freed)
  blocks : ∀ b ∈ own ++ r.freed, Block r.ptr b
  tracked : (r.tracked.map whole).Subperm own
  ptr : heap64Base ≤ r.ptr ∧ r.ptr ≤ heap64End

theorem Block.whole (h : Block p b) : whole b = b := by
  obtain ⟨k, hk⟩ := h.paged
  have hlen : pages b.len = b.len := by
    unfold pages
    omega
  exact congrArg (Span.mk b.start) hlen

theorem Block.up (h : Block p b) (hp : p ≤ q) : Block q b :=
  ⟨h.above, Nat.le_trans h.below hp, h.aligned, h.paged, h.room⟩

theorem track_subperm {tracked own : List Span} (h : (tracked.map whole).Subperm own) (b : Span) :
    ((trackAlloc64 tracked b).map whole).Subperm (whole b :: own) := by
  unfold trackAlloc64
  split
  · rw [List.map_append]
    exact ((List.perm_append_singleton (whole b) _).subperm).trans ((List.subperm_cons (whole b)).2 h)
  · exact h.trans List.Subperm.cons_self

/-- Dropped blocks and a higher pointer keep the invariant. -/
theorem Inv.drop (h : Inv r own) (hsub : freed.Subperm r.freed) (hp : r.ptr ≤ p) (hend : p ≤ heap64End) :
    Inv { r with freed, ptr := p } own where
  apart := h.apart.subperm ((List.subperm_append_left own).2 hsub)
  blocks b hb := (h.blocks b ((List.subperm_append_left own).2 hsub |>.subset hb)).up hp
  tracked := h.tracked
  ptr := ⟨Nat.le_trans h.ptr.1 hp, hend⟩

theorem Inv.reuse (h : Inv r own) (hsub : (b :: freed).Subperm r.freed) :
    Inv { r with freed, tracked := trackAlloc64 r.tracked b } (b :: own) := by
  have hall : (b :: own ++ freed).Subperm (own ++ r.freed) :=
    (List.perm_middle.symm.subperm).trans ((List.subperm_append_left own).2 hsub)
  refine ⟨h.apart.subperm hall, fun c hc => h.blocks c (hall.subset hc), ?_, h.ptr⟩
  have htrack := track_subperm h.tracked b
  rw [(h.blocks b (hall.subset List.mem_cons_self)).whole] at htrack
  exact htrack

/-- A reservation at the pointer, when nothing wraps. -/
theorem Inv.bump (h : Inv r own) (hsize : 0 < size)
    (hfit : roundGranule64 r.ptr + pages size < 2 ^ 64) (he : bump64 r size = (r', a)) :
    a = 0 ∧ Inv r' own ∨ Inv r' (⟨a, pages size⟩ :: own) := by
  obtain ⟨hle, hend, hal⟩ := granule_bounds h.ptr.2
  have hp64 : pages size < 2 ^ 64 := Nat.lt_of_le_of_lt (Nat.le_add_left ..) hfit
  unfold bump64 at he
  dsimp only at he
  rw [roundPage64_eq hp64, u64_eq hfit] at he
  split at he
  · obtain ⟨rfl, rfl⟩ := Prod.mk.inj he
    exact .inl ⟨rfl, h.drop (.refl _) hle hend⟩
  · rename_i hroom
    obtain ⟨rfl, rfl⟩ := Prod.mk.inj he
    obtain ⟨hpages, hdvd⟩ := le_pages size
    generalize roundGranule64 r.ptr = p at *
    have hnext : roundPage64 (p + pages size) = p + pages size := by
      have hmul : pages (p + pages size) = p + pages size := by
        unfold pages at *
        omega
      rw [roundPage64_eq (by rw [hmul]; exact hfit), hmul]
    rw [hnext]
    refine .inr ⟨?_, ?_, track_subperm h.tracked ⟨p, size⟩, ?_⟩
    · exact h.apart.beyond fun b hb => Nat.le_trans (h.blocks b hb).below hle
    · intro b hb
      rcases List.mem_cons.1 hb with rfl | hb
      · exact ⟨Nat.le_trans h.ptr.1 hle, Nat.le_refl _, hal, hdvd, by dsimp only; omega⟩
      · exact (h.blocks b hb).up (by dsimp only; omega)
    · exact ⟨by have := h.ptr.1; dsimp only; omega, by dsimp only; omega⟩

/-- A reservation in region 3 adds a block that is large enough, or none. -/
theorem Inv.reserve (h : Inv r own) (c : Config) (hsize : 0 < size)
    (hfit : roundGranule64 r.ptr + pages size < 2 ^ 64)
    (he : reserve64 c r size = (r', a, commit)) :
    a = 0 ∧ Inv r' own ∨ pages size ≤ pages commit ∧ Inv r' (⟨a, pages commit⟩ :: own) := by
  have hp64 : pages size < 2 ^ 64 := Nat.lt_of_le_of_lt (Nat.le_add_left ..) hfit
  have htake := freeTake64_takes c r (pages size)
  have hwant : roundPage64 (pages size) = pages size := by
    rw [roundPage64_eq (by rw [pages_pages]; exact hp64), pages_pages]
  unfold reserve64 at he
  dsimp only at he
  rw [if_neg (Nat.ne_of_gt hsize), roundPage64_eq hp64] at he
  rw [hwant] at htake
  split at he
  · rename_i b freed hb
    rw [hb] at htake
    obtain ⟨hlen, hsub⟩ := htake
    have hreuse := h.reuse hsub
    split at he
    · obtain ⟨rfl, hrest⟩ := Prod.mk.inj he
      obtain ⟨rfl, rfl⟩ := Prod.mk.inj hrest
      have hpaged : pages b.len = b.len :=
        congrArg Span.len (hreuse.blocks b List.mem_cons_self).whole
      refine .inr ?_
      rw [hpaged]
      exact ⟨hlen, hreuse⟩
    · rename_i hzero
      have habove := (hreuse.blocks b List.mem_cons_self).above
      rw [Decidable.not_not.1 hzero] at habove
      exact absurd habove (by decide)
  · rename_i freed hb
    rw [hb] at htake
    have hsub : freed.Subperm r.freed := htake
    have hdrop := h.drop hsub (Nat.le_refl _) h.ptr.2
    obtain ⟨rfl, hrest⟩ := Prod.mk.inj he
    obtain ⟨rfl, rfl⟩ := Prod.mk.inj hrest
    obtain hno | hyes := hdrop.bump hsize hfit (Prod.eta _).symm
    · exact .inl hno
    · exact .inr ⟨Nat.le_refl _, hyes⟩

theorem erase_subperm (own : List Span) (p : Span → Bool) : (own.eraseP p).Subperm own :=
  List.eraseP_sublist.subperm

/-- The entry that a release finds. -/
theorem find64_some (h : find64 l addr = some i) : ∃ hi : i < l.length, l[i].start = addr := by
  obtain ⟨j, hj, rfl⟩ := Option.map_eq_some_iff.1 h
  obtain ⟨hj, hstart, -⟩ := List.findIdx?_eq_some_iff_getElem.1 hj
  rw [List.length_reverse] at hj
  refine ⟨by omega, ?_⟩
  rw [List.getElem_reverse] at hstart
  exact eq_of_beq hstart

theorem find64_none (h : find64 l addr = none) (hb : b ∈ l) : b.start ≠ addr := by
  intro hstart
  have hno := List.findIdx?_eq_none_iff.1 (Option.map_eq_none_iff.1 h) b (List.mem_reverse.2 hb)
  rw [beq_iff_eq.2 hstart] at hno
  cases hno

/-- A release gives back the block it removes, if the table knows it. -/
theorem Inv.free (h : Inv r own) (addr : Nat) :
    Inv (free64 r addr) (own.eraseP fun b => b.start == addr) := by
  -- Whatever becomes of the block, the others stay as they are.
  have hkeep : ∀ tracked, (tracked.map whole).Subperm (own.eraseP fun b => b.start == addr) →
      Inv { r with tracked } (own.eraseP fun b => b.start == addr) := by
    intro tracked htracked
    have hsub := (List.subperm_append_right r.freed).2 (erase_subperm own fun b => b.start == addr)
    exact ⟨h.apart.subperm hsub, fun b hb => h.blocks b (hsub.subset hb), htracked, h.ptr⟩
  unfold free64
  split
  · rename_i hlow
    rw [List.eraseP_of_forall_not]
    · exact h
    · intro b hb hstart
      have habove := (h.blocks b (List.mem_append_left _ hb)).above
      rw [eq_of_beq hstart] at habove
      omega
  · split
    · rename_i hnone
      refine hkeep r.tracked (subperm_eraseP h.tracked fun a ha hstart => ?_)
      obtain ⟨t, ht, rfl⟩ := List.mem_map.1 ha
      exact find64_none hnone ht (eq_of_beq hstart)
    · rename_i i hi
      obtain ⟨hi, hstart⟩ := find64_some hi
      dsimp only
      rw [List.getD_eq_getElem _ _ hi]
      have htracked := ((swapRemove_perm hi).map whole).subperm.trans h.tracked
      generalize r.tracked[i] = t at htracked hstart
      rw [List.map_cons] at htracked
      have hmem : whole t ∈ own := htracked.subset List.mem_cons_self
      obtain ⟨b, hb, hperm⟩ := eraseP_perm (p := fun b => b.start == addr) hmem (beq_iff_eq.2 hstart)
      have hroom := fun c hc => (h.blocks c (List.mem_append_left _ hc)).room
      obtain rfl : b = whole t := by
        have hbmem : b ∈ own := hperm.mem_iff.2 List.mem_cons_self
        exact h.apart.left.eq_of_start hbmem hmem ((eq_of_beq hb).trans hstart.symm)
          (hroom b hbmem) (hroom _ hmem)
      have hrest := (List.subperm_cons (whole t)).1 (htracked.trans hperm.subperm)
      have hkept := hkeep (swapRemove r.tracked i) hrest
      split
      · exact hkept
      · split
        · exact hkept
        · split
          · have hblock := h.blocks _ (List.mem_append_left _ hmem)
            have hlen : pages t.len < 2 ^ 64 := by
              have hbelow : t.start + pages t.len ≤ r.ptr := hblock.below
              have hend : r.ptr ≤ 0x2800000000 := h.ptr.2
              omega
            have hgiven : (⟨addr, roundPage64 t.len⟩ : Span) = whole t := by
              rw [roundPage64_eq hlen, ← hstart]
              rfl
            rw [hgiven]
            have hall : (own.eraseP (fun b => b.start == addr) ++ (r.freed ++ [whole t])).Perm
                (own ++ r.freed) := by
              rw [← List.append_assoc]
              exact (List.perm_append_singleton _ _).trans (hperm.symm.append_right r.freed)
            exact ⟨h.apart.perm hall.symm, fun b hb => h.blocks b (hall.mem_iff.1 hb), hrest, h.ptr⟩
          · exact hkept

-- ---------------------------------------------------------------------------
-- The 32-bit heap
-- ---------------------------------------------------------------------------

/-- With requests on boundaries of 64 KB only, all blocks are. -/
structure Low (heap : GuestHeap.State) : Prop where
  inv : GuestHeap.Inv heap
  aligned : ∀ b ∈ heap.live ++ heap.freeBlocks, 0x10000 ∣ b.start
  ptr : heap.heapPtr ≤ region2End

theorem alignPtr_granule (h : p ≤ region2End) :
    0x10000 ∣ alignPtr p 0x10000 ∧ alignPtr p 0x10000 ≤ region2End := by
  unfold region2End at *
  have hu : u32 (p + (0x10000 - 1)) = p + 0xFFFF := u32_eq (by omega)
  have hand : (p + 0xFFFF) &&& 0xFFFF0000 = (p + 0xFFFF) / 2 ^ 16 * 2 ^ 16 := by
    have hlow : ((p + 0xFFFF) &&& 0xFFFF0000) % 2 ^ 16 = 0 := by
      rw [Nat.and_mod_two_pow]
      exact Nat.and_zero _
    have hhigh : ((p + 0xFFFF) &&& 0xFFFF0000) / 2 ^ 16 = (p + 0xFFFF) / 2 ^ 16 := by
      rw [Nat.and_div_two_pow]
      exact (Nat.and_two_pow_sub_one_eq_mod _ 16).trans (Nat.mod_eq_of_lt (by omega))
    omega
  unfold alignPtr
  dsimp only
  rw [hu, show 2 ^ 32 - 0x10000 = 0xFFFF0000 from rfl, hand, if_pos (by omega)]
  omega

theorem skip_granule (hal : 0x10000 ∣ p) (hle : p ≤ region2End) :
    0x10000 ∣ skipThunks (hop p alloc) alloc ∧ skipThunks (hop p alloc) alloc ≤ region2End := by
  have hhop : 0x10000 ∣ hop p alloc ∧ hop p alloc ≤ region2End := by
    unfold hop
    split
    · decide
    · exact ⟨hal, hle⟩
  unfold skipThunks
  split
  · decide
  · exact hhop

theorem freeListTake_aligned {free : List Span} (h : ∀ b ∈ free, 0x10000 ∣ b.start) (alloc : Nat) :
    0x10000 ∣ (freeListTake free alloc).1 ∧ ∀ b ∈ (freeListTake free alloc).2, 0x10000 ∣ b.start := by
  obtain hnone | ⟨i, hi, -, htake⟩ := freeListTake_cases free alloc
  · rw [hnone]
    exact ⟨⟨0, rfl⟩, h⟩
  · have hstart := h _ (List.getElem_mem hi)
    obtain htake | htake := htake
    · rw [htake]
      refine ⟨hstart, fun b hb => ?_⟩
      obtain hb | rfl := List.mem_or_eq_of_mem_set hb
      · exact h b hb
      · unfold u32 roundGranule
        dsimp only
        omega
    · rw [htake]
      refine ⟨hstart, fun b hb => h b ?_⟩
      exact (swapRemove_perm hi).mem_iff.1 (List.mem_cons_of_mem _ hb)

theorem guestAlloc_aligned {s : GuestHeap.State} (hs : ∀ b ∈ s.live ++ s.freeBlocks, 0x10000 ∣ b.start)
    (hal : 0x10000 ∣ s.heapPtr) (hle : s.heapPtr ≤ region2End)
    (he : guestAlloc s request ok = (s', a)) :
    (∀ b ∈ s'.live ++ s'.freeBlocks, 0x10000 ∣ b.start) ∧ s'.heapPtr ≤ region2End := by
  have hlive : ∀ b ∈ s.live, 0x10000 ∣ b.start := fun b hb => hs b (List.mem_append_left _ hb)
  unfold guestAlloc at he
  dsimp only at he
  generalize (if request = 0 then 1 else request) = size at he
  split at he
  · obtain ⟨rfl, -⟩ := Prod.mk.inj he
    exact ⟨hs, hle⟩
  obtain ⟨hreuse, hfree⟩ := freeListTake_aligned
    (fun b hb => hs b (List.mem_append_right _ hb)) (roundPage size)
  have hboth : ∀ b ∈ s.live ++ (freeListTake s.freeBlocks (roundPage size)).2, 0x10000 ∣ b.start := by
    intro b hb
    rcases List.mem_append.1 hb with hb | hb
    · exact hlive b hb
    · exact hfree b hb
  have hskip : 0x10000 ∣ skipThunks (hop s.heapPtr (roundPage size)) (roundPage size) ∧
      skipThunks (hop s.heapPtr (roundPage size)) (roundPage size) ≤ region2End := skip_granule hal hle
  split at he
  · rename_i free ht
    rw [ht] at hboth
    generalize skipThunks (hop s.heapPtr (roundPage size)) (roundPage size) = q at hskip he
    split at he
    · obtain ⟨rfl, -⟩ := Prod.mk.inj he
      exact ⟨hboth, hskip.2⟩
    rename_i hfit
    split at he
    · obtain ⟨rfl, -⟩ := Prod.mk.inj he
      exact ⟨hboth, hskip.2⟩
    obtain ⟨rfl, -⟩ := Prod.mk.inj he
    refine ⟨fun b hb => ?_, ?_⟩
    · rcases List.mem_cons.1 hb with rfl | hb
      · exact hskip.1
      · exact hboth b hb
    · have hreg : regionEnd q ≤ region2End := by
        unfold regionEnd
        split <;> decide
      unfold region2End at *
      unfold roundPage u32 at *
      dsimp only
      omega
  · rename_i reuse free hne ht
    rw [ht] at hboth hreuse
    obtain ⟨rfl, -⟩ := Prod.mk.inj he
    refine ⟨fun b hb => ?_, hle⟩
    rcases List.mem_cons.1 hb with rfl | hb
    · exact hreuse
    · exact hboth b hb

/-- A request to the 32-bit heap adds a block, or none. -/
theorem Low.alloc (h : Low heap) (he : allocLow heap size ok = (heap', a)) :
    Low heap' ∧ (a = 0 ∧ heap'.live = heap.live ∨ u32 size ≤ 512 * 1024 * 1024 ∧
      heap'.live = ⟨a, roundPage (if u32 size = 0 then 1 else u32 size)⟩ :: heap.live) := by
  have hup : heap.heapPtr ≤ alignPtr heap.heapPtr 0x10000 ∧ alignPtr heap.heapPtr 0x10000 < 2 ^ 32 :=
    le_alignPtr h.inv.ptr.2
  obtain ⟨hal, hend⟩ := alignPtr_granule h.ptr
  have hinv : GuestHeap.Inv (guestAlloc { heap with heapPtr := alignPtr heap.heapPtr 0x10000 }
    (u32 size) ok).1 := guestAlloc_inv (h.inv.ptr_up hup.1 hup.2)
  obtain ⟨haligned, hptr⟩ := guestAlloc_aligned (s := { heap with heapPtr := alignPtr heap.heapPtr 0x10000 })
    h.aligned hal hend he
  have hlive := guestAlloc_live he
  unfold allocLow guestAllocAligned at he
  rw [he] at hinv
  exact ⟨⟨hinv, haligned, hptr⟩, hlive⟩

/-- A release gives back a live block, or nothing. -/
theorem Low.free (h : Low heap) (hm : guestFree heap addr = heap.freeBlocks ∨
      ∃ b ∈ liveAt heap addr, roundPage (allocSizeFor heap.allocSizes addr) ≤ b.len) :
    Low { heap with
      freeBlocks := guestFree heap addr
      live := heap.live.eraseP fun b => b.start == addr } := by
  have hlive : (heap.live.eraseP fun b => b.start == addr).Subperm heap.live := erase_subperm _ _
  have hsame : guestFree heap addr = heap.freeBlocks → Low { heap with
      freeBlocks := guestFree heap addr
      live := heap.live.eraseP fun b => b.start == addr } := by
    intro hsame
    rw [hsame]
    have hsub := (List.subperm_append_right heap.freeBlocks).2 hlive
    refine ⟨⟨h.inv.apart.subperm hsub, fun b hb => h.inv.inHeap b (hsub.subset hb),
      fun b hb => h.inv.below b (hsub.subset hb), h.inv.ptr⟩, fun b hb => h.aligned b (hsub.subset hb), h.ptr⟩
  obtain hsame' | ⟨b, hb, hle⟩ := hm
  · exact hsame hsame'
  · obtain hsame' | ⟨-, hf⟩ := guestFree_cases heap addr
    · exact hsame hsame'
    · refine ⟨h.inv.free (.inl (by rw [Option.isSome_iff_exists]; exact ⟨b, hb⟩)) ?_, ?_, h.ptr⟩
      · rintro c hc
        obtain rfl := Option.some.inj (hb.symm.trans hc)
        exact hle
      · intro c hc
        dsimp only at hc
        rw [hf] at hc
        rcases List.mem_append.1 hc with hc | hc
        · exact h.aligned c (List.mem_append_left _ (hlive.subset hc))
        · rcases List.mem_append.1 hc with hc | hc
          · exact h.aligned c (List.mem_append_right _ hc)
          · obtain rfl := List.mem_singleton.1 hc
            obtain ⟨rfl, hperm⟩ := liveAt_perm hb
            exact h.aligned b (List.mem_append_left _ (hperm.mem_iff.2 List.mem_cons_self))

-- ---------------------------------------------------------------------------
-- Both together
-- ---------------------------------------------------------------------------

def isLow (b : Span) : Bool := b.start < heap64Base

/-- A region that starts with its block. -/
def Covers (b block : Span) : Prop := b.start = block.start ∧ b.len ≤ block.len

/-- The regions below 4 GB are the live blocks of the 32-bit heap; each of the others has a
block of region 3. -/
structure Keeps (l : List Span) (s : State) : Prop where
  low : Low s.heap
  held : l.filter isLow = s.heap.live
  high : ∃ own, Inv s.region3 own ∧ List.Forall₂ Covers (l.filter (!isLow ·)) own

theorem init_keeps : Keeps [] .init :=
  ⟨⟨init_inv, by simp [State.init, GuestHeap.State.init], by decide⟩, rfl,
    [], ⟨.nil, by simp [State.init], .refl [], by decide⟩, .nil⟩

theorem regions_append (tr : List (Action × Nat)) (a : Action) (r : Nat) :
    regions (tr ++ [(a, r)]) =
      match a with
      | .alloc size _ => if r = 0 then regions tr else ⟨r, pages size⟩ :: regions tr
      | .free addr => (regions tr).eraseP fun b => b.start == addr := by
  unfold regions
  rw [List.foldl_append]
  cases a <;> rfl

theorem roundPage_pages (h0 : n ≠ 0) (h : n ≤ 512 * 1024 * 1024) :
    roundPage (if n = 0 then 1 else n) = pages n := by
  rw [if_neg h0]
  unfold roundPage pages u32
  omega

theorem Keeps.allocLow (h : Keeps l s) (hsize : size ≠ 0)
    (hm : size < 2 ^ 32 ∨ (allocLow s.heap size ok).2 = 0) (he : allocLow s.heap size ok = (heap, a)) :
    Keeps (if a = 0 then l else ⟨a, pages size⟩ :: l) { s with heap } := by
  obtain ⟨hlow, ⟨ha, hlive⟩ | ⟨hsmall, hlive⟩⟩ := h.low.alloc he
  · rw [if_pos ha]
    exact ⟨hlow, h.held.trans hlive.symm, h.high⟩
  · have hin := hlow.inv.inHeap _ (List.mem_append_left _ (hlive ▸ List.mem_cons_self))
    have hstart : heapBase ≤ a := hin.bounds.1
    have hstop : a + _ ≤ region2End := hin.bounds.2
    have ha : a ≠ 0 := by
      unfold heapBase at hstart
      omega
    have hfull : u32 size = size := by
      obtain hlt | hzero := hm
      · exact u32_eq hlt
      · rw [he] at hzero
        exact absurd hzero ha
    rw [hfull] at hlive hsmall
    rw [roundPage_pages hsize hsmall] at hlive
    have hbelow : isLow ⟨a, pages size⟩ = true := by
      unfold region2End at hstop
      refine decide_eq_true (?_ : a < 0x100000000)
      omega
    rw [if_neg ha]
    refine ⟨hlow, ?_, ?_⟩
    · rw [List.filter_cons_of_pos hbelow, h.held]
      exact hlive.symm
    · obtain ⟨own, hinv, hcov⟩ := h.high
      refine ⟨own, hinv, ?_⟩
      rw [List.filter_cons_of_neg (by rw [hbelow]; exact Bool.false_ne_true)]
      exact hcov

theorem Keeps.alloc (h : Keeps l s) (hm : Meets c s (.alloc size ok))
    (he : virtualAlloc c s size ok = (s', a)) :
    Keeps (if a = 0 then l else ⟨a, pages size⟩ :: l) s' := by
  unfold virtualAlloc at he
  split at he
  · obtain ⟨rfl, rfl⟩ := Prod.mk.inj he
    exact h
  · rename_i hsize
    obtain ⟨hwrap, hmet⟩ := hm.resolve_left hsize
    split at he
    · rename_i hcut
      obtain ⟨own, hinv, hcov⟩ := h.high
      generalize hr : reserve64 c s.region3 size = r at he hmet
      obtain ⟨region3, p, commit⟩ := r
      have hres := hinv.reserve c (Nat.pos_of_ne_zero hsize) (hwrap hcut) hr
      dsimp only at he
      split at he
      · rename_i hp
        obtain ⟨rfl, rfl⟩ := Prod.mk.inj he
        obtain ⟨hzero, -⟩ | ⟨hlen, hinv'⟩ := hres
        · exact absurd hzero hp
        · have habove : heap64Base ≤ p := (hinv'.blocks _ List.mem_cons_self).above
          have hhigh : isLow ⟨p, pages size⟩ = false := decide_eq_false (Nat.not_lt.2 habove)
          rw [if_neg hp]
          refine ⟨h.low, ?_, ⟨p, pages commit⟩ :: own, hinv', ?_⟩
          · rw [List.filter_cons_of_neg (by rw [hhigh]; exact Bool.false_ne_true)]
            exact h.held
          · rw [List.filter_cons_of_pos (by rw [hhigh]; rfl)]
            exact .cons ⟨rfl, hlen⟩ hcov
      · rename_i hp
        generalize hl : Regions.allocLow s.heap size ok = x at he
        obtain ⟨heap, q⟩ := x
        obtain ⟨rfl, rfl⟩ := Prod.mk.inj he
        have hkeep : Keeps l { s with region3 } := by
          obtain ⟨-, hinv'⟩ | ⟨-, hinv'⟩ := hres
          · exact ⟨h.low, h.held, own, hinv', hcov⟩
          · have habove : heap64Base ≤ p := (hinv'.blocks _ List.mem_cons_self).above
            rw [Decidable.not_not.1 hp] at habove
            exact absurd habove (by decide)
        refine hkeep.allocLow hsize ?_ hl
        obtain hlt | ⟨-, hne⟩ | hzero := hmet
        · exact .inl hlt
        · exact absurd hne hp
        · exact .inr hzero
    · rename_i hcut
      generalize hl : Regions.allocLow s.heap size ok = x at he
      obtain ⟨heap, q⟩ := x
      obtain ⟨rfl, rfl⟩ := Prod.mk.inj he
      refine h.allocLow hsize ?_ hl
      obtain hlt | ⟨hcut', -⟩ | hzero := hmet
      · exact .inl hlt
      · exact absurd hcut' hcut
      · exact .inr hzero

theorem Keeps.free (h : Keeps l s) (hm : Meets c s (.free addr)) :
    Keeps (l.eraseP fun b => b.start == addr) (virtualFree s addr) := by
  have hstart : ∀ b : Span, (b.start == addr) = true → isLow b = decide (addr < heap64Base) := by
    intro b hb
    rw [isLow, eq_of_beq hb]
  unfold virtualFree
  split
  · rename_i hhigh
    rw [decide_eq_false (Nat.not_lt.2 hhigh)] at hstart
    obtain ⟨own, hinv, hcov⟩ := h.high
    refine ⟨h.low, ?_, own.eraseP fun b => b.start == addr, hinv.free addr, ?_⟩
    · rw [filter_eraseP_of_not hstart]
      exact h.held
    · rw [filter_eraseP fun b hb => by rw [hstart b hb]; rfl]
      exact forall₂_eraseP (fun a b hab => by rw [hab.1]) hcov
  · rename_i hlow
    rw [decide_eq_true (Nat.not_le.1 hlow)] at hstart
    refine ⟨h.low.free (hm.resolve_left hlow), ?_, ?_⟩
    · rw [filter_eraseP hstart, h.held]
    · rw [filter_eraseP_of_not fun b hb => by rw [hstart b hb]; rfl]
      exact h.high

theorem step_keeps (h : Keeps (regions tr) s) (hm : Meets c s a) (hs : step c s a = some (s', r)) :
    Keeps (regions (tr ++ [(a, r)])) s' := by
  rw [regions_append]
  unfold step at hs
  split at hs
  case isFalse => cases hs
  cases a with
  | alloc size ok => exact h.alloc hm (Option.some.inj hs)
  | free addr =>
    obtain ⟨rfl, -⟩ := Prod.mk.inj (Option.some.inj hs)
    exact h.free hm

-- ---------------------------------------------------------------------------
-- The law
-- ---------------------------------------------------------------------------

theorem Keeps.sound (h : Keeps (regions tr) s) : Sound tr := by
  obtain ⟨own, hinv, hcov⟩ := h.high
  have hperm := List.filter_append_perm isLow (regions tr)
  have hbelow : ∀ b ∈ (regions tr).filter isLow, InHeap b ∧ 0x10000 ∣ b.start := by
    intro b hb
    rw [h.held] at hb
    exact ⟨h.low.inv.inHeap b (List.mem_append_left _ hb),
      h.low.aligned b (List.mem_append_left _ hb)⟩
  have habove : ∀ b ∈ (regions tr).filter (!isLow ·), heap64Base ≤ b.start ∧
      b.stop ≤ heap64End ∧ 0x10000 ∣ b.start := by
    intro b hb
    obtain ⟨block, hblock, hstart, hlen⟩ := covered_mem hcov hb
    have hin := hinv.blocks block (List.mem_append_left _ hblock)
    have hbelow := hin.below
    have hend := hinv.ptr.2
    refine ⟨hstart ▸ hin.above, ?_, hstart ▸ hin.aligned⟩
    unfold Span.stop at *
    omega
  refine ⟨AllApart.perm (List.pairwise_append.2 ⟨?_, ?_, fun a ha b hb => ?_⟩) hperm, fun b hb => ?_⟩
  · rw [h.held]
    exact h.low.inv.apart.left
  · refine hinv.apart.left.covered (hcov.imp fun a b hab => ?_)
    exact ⟨Nat.le_of_eq hab.1.symm, by unfold Span.stop; have := hab.1; have := hab.2; omega⟩
  · have hstop := (hbelow a ha).1.bounds.2
    have hstart := (habove b hb).1
    exact .inl (Nat.le_trans hstop (Nat.le_trans (by decide) hstart))
  · rcases List.mem_append.1 (hperm.mem_iff.2 hb) with hb | hb
    · exact ⟨.inr (hbelow b hb).1, (hbelow b hb).2⟩
    · obtain ⟨hstart, hstop, hal⟩ := habove b hb
      exact ⟨.inl ⟨hstart, hstop⟩, hal⟩

/-- In every run whose steps meet the condition, the regions held are apart and in their
places, and a reservation for which there is no place is refused. -/
theorem regions_law (c : Config) (h : Run (step c) (Meets c) .init tr s) : Sound tr ∧
    ∀ size ok s' a, Meets c s (.alloc size ok) → step c s (.alloc size ok) = some (s', a) →
      (∀ b, b.len = pages size → Placed b → ¬ AllApart (b :: regions tr)) → a = 0 := by
  have hkeeps : Keeps (regions tr) s :=
    h.invariant (P := fun tr s => Keeps (regions tr) s) init_keeps fun hk hm hs => step_keeps hk hm hs
  refine ⟨hkeeps.sound, fun size ok s' a hm hs hno => ?_⟩
  have hsound := (step_keeps hkeeps hm hs).sound
  by_contra ha
  have hregions : regions (tr ++ [(.alloc size ok, a)]) = ⟨a, pages size⟩ :: regions tr := by
    rw [regions_append]
    exact if_neg ha
  refine hno ⟨a, pages size⟩ rfl (hsound.placed _ ?_) ?_
  · rw [hregions]
    exact List.mem_cons_self
  · rw [← hregions]
    exact hsound.apart

/-- The cutoff of 1 MB, and blocks of the very size only. -/
def usual : Config := ⟨1024 * 1024, false⟩

/-- A region is given back and taken again, beside one in each heap. -/
theorem regions_law_reuse : ∃ tr s, Run (step usual) (Meets usual) .init tr s ∧ Sound tr ∧
    regions tr = [⟨0x100000000, 0x200000⟩, ⟨0x100200000, 0x300000⟩, ⟨0x20000000, 0x1000⟩] := by
  have hexec : (exec (step usual) (Meets usual) .init [.alloc 0x1FFFFF true, .alloc 7 true,
      .alloc 0x300000 true, .free 0x100000000, .free 0x100000000, .alloc 0x200000 true]).any fun r =>
        decide (regions r.1 =
          [⟨0x100000000, 0x200000⟩, ⟨0x100200000, 0x300000⟩, ⟨0x20000000, 0x1000⟩]) := by
    decide +kernel
  obtain ⟨tr, s, hr, hp⟩ := Run.of_exec_any hexec
  exact ⟨tr, s, hr, (regions_law usual hr).1, of_decide_eq_true hp⟩

/-- A block that is freed twice is handed out twice; and sizes that region 3 has no room for
are met at its start, or with a page of the 32-bit heap. -/
theorem regions_meet :
    (¬ ∀ tr s, Run (step usual) anyStep .init tr s → Sound tr) ∧
    (virtualAlloc usual .init (2 ^ 64 - 1) true).2 = heap64Base ∧
    (virtualAlloc usual .init 0x2700000001 true).1.heap.live = [⟨0x20000000, 0x1000⟩] := by
  refine ⟨fun hall => ?_, by decide +kernel, by decide +kernel⟩
  have hexec : (exec (step usual) anyStep .init [.alloc 0x10000 true, .free 0x20000000,
      .free 0x20000000, .alloc 0x10000 true, .alloc 0x10000 true]).any fun r =>
        decide (regions r.1 = [⟨0x20000000, 0x10000⟩, ⟨0x20000000, 0x10000⟩]) := by
    decide +kernel
  obtain ⟨tr, s, hr, hp⟩ := Run.of_exec_any hexec
  have hapart := (hall tr s hr).apart
  rw [of_decide_eq_true hp] at hapart
  revert hapart
  decide

end WineGlass.Regions
