import WineGlass.Lib.Run
import WineGlass.Lib.Spans

/-!
# The guest heap

`wg_guest_alloc` reuses a freed block, first fit, or bumps a pointer that hops
from one region to another and skips the import thunks. `VirtualFree` and
`HeapFree` give a base address only; its size comes from a table of at most
8192 entries, which keeps the entry of a freed block and drops a new one when
it is full. Addresses are 32-bit; `live` is what callers hold, each block as
its request rounded up to 4 KB.
-/

namespace WineGlass.GuestHeap

open Runs Spans

/-- `WG_MAX_ALLOCS` and `WG_MAX_FREE`. -/
def maxAllocs : Nat := 8192
def maxFree : Nat := 8192

/-- `WG_GUEST_HEAP_BASE` and `WG_THUNK_BASE`. -/
def heapBase : Nat := 0x20000000
def thunkBase : Nat := 0xDEAD0000

def region1End : Nat := 0x5F000000
def region2 : Nat := 0xA0000000
def region2End : Nat := 0xFFFF0000
def thunkEnd : Nat := thunkBase + 0x20000

def u32 (x : Nat) : Nat := x % 2 ^ 32

/-- `(x + 0xFFF) & ~0xFFF`. -/
def roundPage (x : Nat) : Nat := u32 (x + 0xFFF) / 0x1000 * 0x1000

/-- `(x + 0xFFFF) & ~0xFFFF`. -/
def roundGranule (x : Nat) : Nat := u32 (x + 0xFFFF) / 0x10000 * 0x10000

/-- `allocSizes` is newest first. -/
structure State where
  heapPtr : Nat
  allocSizes : List (Nat × Nat)
  freeBlocks : List Span
  live : List Span
  deriving Repr

def State.init : State := ⟨heapBase, [], [], []⟩

-- ---------------------------------------------------------------------------
-- Sizes and the free list
-- ---------------------------------------------------------------------------

def trackAlloc (sizes : List (Nat × Nat)) (addr size : Nat) : List (Nat × Nat) :=
  if sizes.length < maxAllocs then (addr, size) :: sizes else sizes

def allocSizeFor (sizes : List (Nat × Nat)) (addr : Nat) : Nat :=
  match sizes.find? fun e => e.1 == addr with
  | some e => e.2
  | none => 0

/-- The effect of `wg_guest_free(addr, 0)` on the free list. -/
def guestFree (s : State) (addr : Nat) : List Span :=
  let size := allocSizeFor s.allocSizes addr
  if addr = 0 then s.freeBlocks
  else if size = 0 then s.freeBlocks
  else if s.freeBlocks.length < maxFree then s.freeBlocks ++ [⟨addr, roundPage size⟩]
  else s.freeBlocks

/-- `wg_free_list_take`: the address taken, 0 when nothing fits. -/
def freeListTake (free : List Span) (alloc : Nat) : Nat × List Span :=
  let take := roundGranule alloc
  match free.findIdx? fun b => decide (take ≤ b.len) with
  | none => (0, free)
  | some i =>
    let b := free.getD i ⟨0, 0⟩
    if 0x10000 ≤ b.len - take then (b.start, free.set i ⟨u32 (b.start + take), b.len - take⟩)
    else (b.start, swapRemove free i)

-- ---------------------------------------------------------------------------
-- Allocation
-- ---------------------------------------------------------------------------

/-- Where the bump pointer goes before `alloc` bytes are taken at it. -/
def hop (p alloc : Nat) : Nat :=
  if region1End < u32 (p + alloc) ∧ p < region2 then region2 else p

def skipThunks (p alloc : Nat) : Nat :=
  if p < thunkEnd ∧ thunkBase < u32 (p + alloc) then thunkEnd else p

def regionEnd (p : Nat) : Nat := if region2 ≤ p then region2End else region1End

/-- `wg_guest_alloc`; `ok` tells whether `calloc` succeeds. -/
def guestAlloc (s : State) (request : Nat) (ok : Bool) : State × Nat :=
  let size := if request = 0 then 1 else request
  if 2 ^ 31 ≤ size ∨ 512 * 1024 * 1024 < size then (s, 0)
  else
    let alloc := roundPage size
    match freeListTake s.freeBlocks alloc with
    | (0, free) =>
      let p := skipThunks (hop s.heapPtr alloc) alloc
      let s := { s with freeBlocks := free, heapPtr := p }
      if regionEnd p < u32 (p + alloc) ∨ u32 (p + alloc) < p then (s, 0)
      else if !ok then (s, 0)
      else
        ({ s with
            heapPtr := roundPage (u32 (p + alloc))
            allocSizes := trackAlloc s.allocSizes p size
            live := ⟨p, alloc⟩ :: s.live }, p)
    | (reuse, free) =>
      ({ s with
          freeBlocks := free
          allocSizes := trackAlloc s.allocSizes reuse size
          live := ⟨reuse, alloc⟩ :: s.live }, reuse)

/-- The pointer moved by `wg_guest_alloc_aligned`; `~(align - 1)` is `-align`. -/
def alignPtr (p align : Nat) : Nat :=
  let aligned := u32 (p + (align - 1)) &&& (2 ^ 32 - align)
  if 0x1000 < align ∧ p ≤ aligned then aligned else p

def guestAllocAligned (s : State) (size align : Nat) (ok : Bool) : State × Nat :=
  guestAlloc { s with heapPtr := alignPtr s.heapPtr align } size ok

-- ---------------------------------------------------------------------------
-- Runs
-- ---------------------------------------------------------------------------

inductive Action
  | alloc (size : Nat) (ok : Bool)
  | allocAligned (size align : Nat) (ok : Bool)
  | free (addr : Nat)
  deriving DecidableEq, Repr

def liveAt (s : State) (addr : Nat) : Option Span := s.live.find? fun b => b.start == addr

/-- Arguments are `uint32_t`. -/
def Action.Fits : Action → Prop
  | .alloc size _ => size < 2 ^ 32
  | .allocAligned size align _ => size < 2 ^ 32 ∧ align < 2 ^ 32
  | .free addr => addr < 2 ^ 32

instance (a : Action) : Decidable a.Fits := by cases a <;> unfold Action.Fits <;> infer_instance

def step (s : State) (a : Action) : Option (State × Nat) :=
  if a.Fits then
    match a with
    | .alloc size ok => some (guestAlloc s size ok)
    | .allocAligned size align ok => some (guestAllocAligned s size align ok)
    | .free addr =>
      some ({ s with
        freeBlocks := guestFree s addr
        live := s.live.eraseP fun b => b.start == addr }, 0)
  else none

/-- The caller's rule: what is freed is a live block, or an address the table
knows no size for. -/
def Owned (s : State) : Action → Prop
  | .free addr => (liveAt s addr).isSome ∨ allocSizeFor s.allocSizes addr = 0
  | _ => True

/-- The size found for a freed block is no larger than the block. -/
def Sized (s : State) : Action → Prop
  | .free addr => ∀ b ∈ liveAt s addr, roundPage (allocSizeFor s.allocSizes addr) ≤ b.len
  | _ => True

/-- A block inside a region, off the thunks. -/
structure InHeap (b : Span) : Prop where
  region : Within b ⟨heapBase, region1End - heapBase⟩ ∨ Within b ⟨region2, region2End - region2⟩
  thunks : Apart b ⟨thunkBase, thunkEnd - thunkBase⟩

-- ---------------------------------------------------------------------------
-- The arithmetic of the bump pointer
-- ---------------------------------------------------------------------------

theorem u32_eq (h : x < 2 ^ 32) : u32 x = x := Nat.mod_eq_of_lt h

theorem bump_page (h : x ≤ region2End) : x ≤ roundPage (u32 x) ∧ roundPage (u32 x) < 2 ^ 32 := by
  unfold region2End at h
  rw [u32_eq (by omega), roundPage, u32_eq (by omega)]
  omega

theorem u32_lt : u32 x < 2 ^ 32 := Nat.mod_lt _ (by decide)

theorem le_roundPage (h : x ≤ 512 * 1024 * 1024) :
    x ≤ roundPage x ∧ roundPage x ≤ 512 * 1024 * 1024 := by
  rw [roundPage, u32_eq (by omega)]
  omega

theorem le_roundGranule (h : x ≤ 512 * 1024 * 1024) : x ≤ roundGranule x := by
  have hu : u32 (x + 0xFFFF) = x + 0xFFFF := u32_eq (by omega)
  have hdiv : (x + 0xFFFF) / 0x10000 * 0x10000 + (x + 0xFFFF) % 0x10000 = x + 0xFFFF :=
    Nat.div_add_mod' _ _
  have hmod : (x + 0xFFFF) % 0x10000 < 0x10000 := Nat.mod_lt _ (by decide)
  rw [roundGranule, hu]
  generalize (x + 0xFFFF) / 0x10000 * 0x10000 = y at hdiv ⊢
  omega

theorem le_alignPtr (hp : p < 2 ^ 32) : p ≤ alignPtr p align ∧ alignPtr p align < 2 ^ 32 := by
  unfold alignPtr
  dsimp only
  split
  · rename_i h
    exact ⟨h.2, Nat.lt_of_le_of_lt Nat.and_le_left u32_lt⟩
  · exact ⟨Nat.le_refl p, hp⟩

theorem InHeap.mono (h : InHeap b) (hw : Within a b) : InHeap a := by
  refine ⟨?_, h.thunks.within hw⟩
  rcases h.region with hr | hr
  · exact .inl (hw.trans hr)
  · exact .inr (hw.trans hr)

theorem InHeap.bounds (h : InHeap b) : heapBase ≤ b.start ∧ b.stop ≤ region2End := by
  rcases h.region with ⟨hl, hu⟩ | ⟨hl, hu⟩
  · exact ⟨hl, Nat.le_trans hu (by decide)⟩
  · exact ⟨Nat.le_trans (by decide) hl, hu⟩

theorem le_hop : p ≤ skipThunks (hop p alloc) alloc := by
  have h : p ≤ hop p alloc := by
    unfold hop
    split <;> omega
  refine Nat.le_trans h ?_
  unfold skipThunks
  split <;> omega

theorem hop_lt (hp : p < 2 ^ 32) : skipThunks (hop p alloc) alloc < 2 ^ 32 := by
  have h : hop p alloc < 2 ^ 32 := by
    unfold hop
    split
    · decide
    · exact hp
  unfold skipThunks
  split
  · decide
  · exact h

/-- A bump that is not refused is inside a region and off the thunks. -/
theorem bump_inHeap (hp : heapBase ≤ p ∧ p < 2 ^ 32) (ha : alloc ≤ 512 * 1024 * 1024)
    (hq : q = skipThunks (hop p alloc) alloc)
    (hfit : ¬(regionEnd q < u32 (q + alloc) ∨ u32 (q + alloc) < q)) :
    InHeap ⟨q, alloc⟩ := by
  have hq32 : q < 2 ^ 32 := hq ▸ hop_lt hp.2
  have hwrap : u32 (q + alloc) = q + alloc := by
    unfold u32 at hfit ⊢
    omega
  rw [hwrap] at hfit
  refine ⟨?_, ?_⟩
  · rcases Nat.lt_or_ge q region2 with hlt | hge
    · have hle : heapBase ≤ q := Nat.le_trans hp.1 (hq ▸ le_hop)
      rw [regionEnd, if_neg (by omega)] at hfit
      refine .inl ⟨hle, ?_⟩
      simp only [Span.stop, heapBase, region1End] at hfit ⊢
      omega
    · rw [regionEnd, if_pos hge] at hfit
      refine .inr ⟨hge, ?_⟩
      simp only [Span.stop, region2, region2End] at hfit ⊢
      omega
  · have hskip : thunkEnd ≤ q ∨ q + alloc ≤ thunkBase := by
      unfold skipThunks at hq
      split at hq
      · exact .inl (Nat.le_of_eq hq.symm)
      · rename_i hno
        rw [← hq, hwrap] at hno
        omega
    rcases hskip with hskip | hskip
    · exact .inr (Nat.le_trans (Nat.le_of_eq (Nat.add_sub_cancel' (Nat.le_add_right _ _))) hskip)
    · exact .inl hskip

-- ---------------------------------------------------------------------------
-- The invariant
-- ---------------------------------------------------------------------------

/-- Blocks are live or free, apart from one another and below the bump pointer. -/
structure Inv (s : State) : Prop where
  apart : AllApart (s.live ++ s.freeBlocks)
  inHeap : ∀ b ∈ s.live ++ s.freeBlocks, InHeap b
  below : ∀ b ∈ s.live ++ s.freeBlocks, b.stop ≤ s.heapPtr
  ptr : heapBase ≤ s.heapPtr ∧ s.heapPtr < 2 ^ 32

theorem init_inv : Inv .init :=
  ⟨.nil, by simp [State.init], by simp [State.init], by decide⟩

theorem Inv.ptr_up (h : Inv s) (hle : s.heapPtr ≤ p) (hlt : p < 2 ^ 32) :
    Inv { s with heapPtr := p } :=
  ⟨h.apart, h.inHeap, fun b hb => Nat.le_trans (h.below b hb) hle,
    Nat.le_trans h.ptr.1 hle, hlt⟩

/-- The blocks of a state with the same bump pointer come from those of `s`. -/
theorem Inv.regroup (h : Inv s) {l : List Span} (hp : s'.heapPtr = s.heapPtr)
    (hperm : l.Perm (s'.live ++ s'.freeBlocks)) (hl : AllApart l)
    (hw : ∀ b ∈ l, ∃ c ∈ s.live ++ s.freeBlocks, Within b c) : Inv s' where
  apart := hl.perm hperm
  inHeap b hb := by
    obtain ⟨c, hc, hbc⟩ := hw b (hperm.mem_iff.2 hb)
    exact (h.inHeap c hc).mono hbc
  below b hb := by
    obtain ⟨c, hc, hbc⟩ := hw b (hperm.mem_iff.2 hb)
    exact hp ▸ Nat.le_trans hbc.2 (h.below c hc)
  ptr := hp ▸ h.ptr

/-- What `wg_free_list_take` takes out of the free list. -/
theorem freeListTake_cases (free : List Span) (alloc : Nat) :
    freeListTake free alloc = (0, free) ∨
    ∃ i, ∃ hi : i < free.length, roundGranule alloc ≤ free[i].len ∧
      (freeListTake free alloc = (free[i].start,
        free.set i ⟨u32 (free[i].start + roundGranule alloc), free[i].len - roundGranule alloc⟩) ∨
      freeListTake free alloc = (free[i].start, swapRemove free i)) := by
  cases hf : free.findIdx? fun b => decide (roundGranule alloc ≤ b.len) with
  | none => exact .inl (by simp only [freeListTake, hf])
  | some i =>
    obtain ⟨hi, hle, -⟩ := List.findIdx?_eq_some_iff_getElem.1 hf
    refine .inr ⟨i, hi, of_decide_eq_true hle, ?_⟩
    simp only [freeListTake, hf, List.getD_eq_getElem?_getD, List.getElem?_eq_getElem hi,
      Option.getD_some]
    split
    · exact .inl rfl
    · exact .inr rfl

/-- What is taken is part of a block of the free list, and so is all that is left of it. -/
theorem take_within (hstop : ∀ b ∈ free, b.stop ≤ region2End) (ha : alloc ≤ 512 * 1024 * 1024)
    (ht : freeListTake free alloc = (a, free')) :
    (a = 0 ∧ free' = free ∨ ∃ c ∈ free, Within ⟨a, alloc⟩ c) ∧ ∀ b ∈ free', ∃ c ∈ free, Within b c := by
  have hround : alloc ≤ roundGranule alloc := le_roundGranule ha
  rcases freeListTake_cases free alloc with h0 | ⟨i, hi, hle, hcase⟩
  · cases h0.symm.trans ht
    exact ⟨.inl ⟨rfl, rfl⟩, fun b hb => ⟨b, hb, .refl b⟩⟩
  obtain ⟨b, hbi⟩ : ∃ b, free[i] = b := ⟨_, rfl⟩
  rw [hbi] at hle hcase
  have hb : b ∈ free := hbi ▸ List.getElem_mem hi
  have hnew : Within ⟨b.start, alloc⟩ b :=
    ⟨Nat.le_refl _, Nat.add_le_add_left (Nat.le_trans hround hle) _⟩
  rcases hcase with hcase | hcase
  · cases hcase.symm.trans ht
    refine ⟨.inr ⟨b, hb, hnew⟩, fun c hc => ?_⟩
    rcases List.mem_or_eq_of_mem_set hc with hc | rfl
    · exact ⟨c, hc, .refl c⟩
    · have hb2 := hstop b hb
      have hsum : u32 (b.start + roundGranule alloc) = b.start + roundGranule alloc := by
        refine u32_eq ?_
        simp only [Span.stop, region2End] at hb2
        omega
      refine ⟨b, hb, ?_⟩
      simp only [Within, Span.stop, hsum]
      omega
  · cases hcase.symm.trans ht
    exact ⟨.inr ⟨b, hb, hnew⟩, fun c hc => ⟨c, (swapRemove_perm hi).subset
      (List.mem_cons_of_mem _ hc), .refl c⟩⟩

/-- A block taken off the free list becomes live, and what is left of it stays free. -/
theorem Inv.take (h : Inv s) (ha : alloc ≤ 512 * 1024 * 1024)
    (ht : freeListTake s.freeBlocks alloc = (a, free)) (ha0 : a ≠ 0) :
    Inv { s with freeBlocks := free, live := ⟨a, alloc⟩ :: s.live } := by
  have hround : alloc ≤ roundGranule alloc := le_roundGranule ha
  rcases freeListTake_cases s.freeBlocks alloc with h0 | ⟨i, hi, hle, hcase⟩
  · rw [h0] at ht
    cases ht
    exact absurd rfl ha0
  obtain ⟨b, hbi⟩ : ∃ b, s.freeBlocks[i] = b := ⟨_, rfl⟩
  rw [hbi] at hle hcase
  have hmem : b ∈ s.live ++ s.freeBlocks :=
    List.mem_append_right _ (hbi ▸ List.getElem_mem hi)
  have hb := (h.inHeap b hmem).bounds
  have hnew : Within ⟨b.start, alloc⟩ b := ⟨Nat.le_refl _, Nat.add_le_add_left (Nat.le_trans hround hle) _⟩
  -- The free list with block `i` first is the family to work on.
  have hrest {l : List Span} (hl : (b :: l).Perm s.freeBlocks) :
      AllApart (b :: (s.live ++ l)) ∧
      ∀ c ∈ s.live ++ l, ∃ d ∈ s.live ++ s.freeBlocks, Within c d := by
    refine ⟨h.apart.perm ?_, fun c hc => ⟨c, ?_, .refl c⟩⟩
    · exact (hl.symm.append_left s.live).trans List.perm_middle
    · rcases List.mem_append.1 hc with hc | hc
      · exact List.mem_append_left _ hc
      · exact List.mem_append_right _ (hl.subset (List.mem_cons_of_mem b hc))
  rcases hcase with hcase | hcase
  all_goals
    rw [hcase] at ht
    obtain ⟨rfl, rfl⟩ := Prod.mk.inj ht
  · -- The block is split: its tail stays free.
    have hsum : u32 (b.start + roundGranule alloc) = b.start + roundGranule alloc := by
      refine u32_eq ?_
      have hb2 := hb.2
      simp only [Span.stop, region2End] at hb2
      omega
    let rest : Span := ⟨u32 (b.start + roundGranule alloc), b.len - roundGranule alloc⟩
    have hrestIn : Within rest b := by
      simp only [rest, Within, Span.stop, hsum]
      omega
    have hapart : Apart ⟨b.start, alloc⟩ rest := by
      refine .inl ?_
      simp only [rest, Span.stop, hsum]
      omega
    obtain ⟨hall, hw⟩ := hrest (hbi ▸ List.getElem_cons_eraseIdx_perm hi)
    refine h.regroup rfl ?_ (hall.split hapart hnew hrestIn) fun c hc => ?_
    · refine List.Perm.cons _ ?_
      exact (List.perm_middle.symm).trans
        ((List.set_perm_cons_eraseIdx hi rest).symm.append_left s.live)
    · rcases List.mem_cons.1 hc with rfl | hc
      · exact ⟨b, hmem, hnew⟩
      rcases List.mem_cons.1 hc with rfl | hc
      · exact ⟨b, hmem, hrestIn⟩
      · exact hw c hc
  · -- The whole block goes; what it has beyond `alloc` is lost.
    obtain ⟨hall, hw⟩ := hrest (hbi ▸ swapRemove_perm hi)
    refine h.regroup rfl (.refl _) (hall.narrow hnew) fun c hc => ?_
    rcases List.mem_cons.1 hc with rfl | hc
    · exact ⟨b, hmem, hnew⟩
    · exact hw c hc

theorem Inv.bump (h : Inv s) (hin : InHeap ⟨q, alloc⟩) (hle : s.heapPtr ≤ q)
    (hp : q + alloc ≤ p) (hlt : p < 2 ^ 32) :
    Inv { s with heapPtr := p, live := ⟨q, alloc⟩ :: s.live } where
  apart := h.apart.beyond fun b hb => Nat.le_trans (h.below b hb) hle
  inHeap b hb := by
    rcases List.mem_cons.1 hb with rfl | hb
    · exact hin
    · exact h.inHeap b hb
  below b hb := by
    rcases List.mem_cons.1 hb with rfl | hb
    · exact hp
    · exact Nat.le_trans (h.below b hb) (by dsimp only; omega)
  ptr := ⟨by have := h.ptr.1; dsimp only; omega, hlt⟩

/-- The size table is not part of the invariant. -/
theorem Inv.track (h : Inv s) (sizes : List (Nat × Nat)) : Inv { s with allocSizes := sizes } :=
  ⟨h.apart, h.inHeap, h.below, h.ptr⟩

theorem guestAlloc_inv (h : Inv s) : Inv (guestAlloc s request ok).1 := by
  unfold guestAlloc
  dsimp only
  generalize (if request = 0 then 1 else request) = size
  split
  · exact h
  rename_i hsize
  obtain ⟨hge, hle⟩ := le_roundPage (x := size) (by omega)
  split
  · rename_i free ht
    obtain rfl : free = s.freeBlocks := by
      rcases freeListTake_cases s.freeBlocks (roundPage size) with h0 | ⟨i, hi, -, hcase⟩
      · exact (Prod.mk.inj (h0.symm.trans ht)).2.symm
      · have hb := (h.inHeap _ (List.mem_append_right _ (List.getElem_mem hi))).bounds.1
        have h0 : s.freeBlocks[i].start = 0 := by
          rcases hcase with hcase | hcase <;> exact (Prod.mk.inj (hcase.symm.trans ht)).1
        rw [h0] at hb
        cases hb
    have hup : Inv { s with heapPtr := skipThunks (hop s.heapPtr (roundPage size)) (roundPage size) } :=
      h.ptr_up le_hop (hop_lt h.ptr.2)
    split
    · exact hup
    rename_i hfit
    split
    · exact hup
    have hin := bump_inHeap h.ptr hle rfl hfit
    obtain ⟨hup, hlt⟩ := bump_page hin.bounds.2
    exact (h.bump hin le_hop hup hlt).track _
  · rename_i reuse free hne ht
    exact (h.take hle ht hne).track _

/-- A request that is met becomes a live block; one that is not adds none. -/
theorem guestAlloc_live (h : guestAlloc s request ok = (s', a)) :
    a = 0 ∧ s'.live = s.live ∨ request ≤ 512 * 1024 * 1024 ∧
      s'.live = ⟨a, roundPage (if request = 0 then 1 else request)⟩ :: s.live := by
  unfold guestAlloc at h
  dsimp only at h
  have hle : request ≤ if request = 0 then 1 else request := by
    split <;> omega
  generalize (if request = 0 then 1 else request) = n at h hle ⊢
  split at h
  · obtain ⟨rfl, rfl⟩ := Prod.mk.inj h
    exact .inl ⟨rfl, rfl⟩
  rename_i hn
  have hsmall : request ≤ 512 * 1024 * 1024 := by
    omega
  split at h
  · split at h
    · obtain ⟨rfl, rfl⟩ := Prod.mk.inj h
      exact .inl ⟨rfl, rfl⟩
    · split at h
      · obtain ⟨rfl, rfl⟩ := Prod.mk.inj h
        exact .inl ⟨rfl, rfl⟩
      · obtain ⟨rfl, rfl⟩ := Prod.mk.inj h
        exact .inr ⟨hsmall, rfl⟩
  · obtain ⟨rfl, rfl⟩ := Prod.mk.inj h
    exact .inr ⟨hsmall, rfl⟩

theorem guestFree_cases (s : State) (addr : Nat) :
    guestFree s addr = s.freeBlocks ∨ allocSizeFor s.allocSizes addr ≠ 0 ∧
      guestFree s addr = s.freeBlocks ++ [⟨addr, roundPage (allocSizeFor s.allocSizes addr)⟩] := by
  unfold guestFree
  dsimp only
  split
  · exact .inl rfl
  split
  · exact .inl rfl
  · rename_i h0
    split
    · exact .inr ⟨h0, rfl⟩
    · exact .inl rfl

/-- The live blocks with the freed one first. -/
theorem liveAt_perm {s : State} (h : liveAt s addr = some b) :
    b.start = addr ∧ s.live.Perm (b :: s.live.eraseP fun b => b.start == addr) := by
  let P (b : Span) : Bool := b.start == addr
  have hb : P b = true := List.find?_some (p := P) h
  obtain ⟨a, l₁, l₂, hno, ha, hl, he⟩ :=
    List.exists_of_eraseP (p := P) (List.mem_of_find?_eq_some h) hb
  have hfind : liveAt s addr = some a := by
    rw [liveAt, hl, List.find?_append, List.find?_eq_none.2 hno, List.find?_cons_of_pos ha]
    rfl
  obtain rfl := Option.some.inj (h.symm.trans hfind)
  refine ⟨eq_of_beq hb, ?_⟩
  rw [he, hl]
  exact List.perm_middle

/-- A freed block goes to the free list with the size found for it. -/
theorem Inv.free (h : Inv s) (ho : Owned s (.free addr)) (hs : Sized s (.free addr)) :
    Inv { s with
      freeBlocks := guestFree s addr
      live := s.live.eraseP fun b => b.start == addr } := by
  cases hl : liveAt s addr with
  | none =>
    have h0 : allocSizeFor s.allocSizes addr = 0 := by
      rcases ho with ho | ho
      · simp [hl] at ho
      · exact ho
    have hfree : guestFree s addr = s.freeBlocks := by
      rcases guestFree_cases s addr with hf | ⟨hne, -⟩
      · exact hf
      · exact absurd h0 hne
    rw [hfree, List.eraseP_of_forall_not (List.find?_eq_none.1 hl)]
    exact h
  | some b =>
    obtain ⟨rfl, hperm⟩ := liveAt_perm hl
    have hall : AllApart (b :: (s.live.eraseP (fun c => c.start == b.start) ++ s.freeBlocks)) :=
      h.apart.perm (hperm.append_right _)
    have hw : ∀ c ∈ s.live.eraseP (fun c => c.start == b.start) ++ s.freeBlocks,
        ∃ d ∈ s.live ++ s.freeBlocks, Within c d := fun c hc =>
      ⟨c, (hperm.append_right _).mem_iff.2 (List.mem_cons_of_mem b hc), .refl c⟩
    rcases guestFree_cases s b.start with hf | ⟨-, hf⟩
    · rw [hf]
      exact h.regroup rfl (.refl _) hall.tail hw
    · rw [hf]
      have hin : Within ⟨b.start, roundPage (allocSizeFor s.allocSizes b.start)⟩ b :=
        ⟨Nat.le_refl _, Nat.add_le_add_left (hs b hl) _⟩
      refine h.regroup rfl ?_ (hall.narrow hin) fun c hc => ?_
      · rw [← List.append_assoc]
        exact (List.perm_append_singleton _ _).symm
      · rcases List.mem_cons.1 hc with rfl | hc
        · exact ⟨b, (hperm.append_right _).mem_iff.2 (List.mem_cons_self ..), hin⟩
        · exact hw c hc

theorem step_inv (h : Inv s) (hok : Owned s a ∧ Sized s a) (hst : step s a = some (s', r)) :
    Inv s' := by
  unfold step at hst
  split at hst
  case isFalse => cases hst
  cases a with
  | alloc size ok =>
    obtain rfl := congrArg Prod.fst (Option.some.inj hst)
    exact guestAlloc_inv h
  | allocAligned size align ok =>
    obtain rfl := congrArg Prod.fst (Option.some.inj hst)
    exact guestAlloc_inv (h.ptr_up (le_alignPtr h.ptr.2).1 (le_alignPtr h.ptr.2).2)
  | free addr =>
    obtain rfl := congrArg Prod.fst (Option.some.inj hst)
    exact h.free hok.1 hok.2

theorem run_inv (h : Run step (fun s a => Owned s a ∧ Sized s a) .init tr s) : Inv s :=
  h.invariant (P := fun _ s => Inv s) init_inv fun hi hok hst => step_inv hi hok hst

-- ---------------------------------------------------------------------------
-- The heap law
-- ---------------------------------------------------------------------------

/-- What callers hold is kept apart, inside the regions and off the thunks. -/
structure Sound (s : State) : Prop where
  apart : AllApart s.live
  inHeap : ∀ b ∈ s.live, InHeap b

/-- In every run of owned frees in which the size found for a freed block is no
larger than the block, the blocks handed out are kept apart. -/
theorem heap_law (h : Run step (fun s a => Owned s a ∧ Sized s a) .init tr s) : Sound s :=
  have hi := run_inv h
  ⟨hi.apart.left, fun b hb => hi.inHeap b (List.mem_append_left _ hb)⟩

instance (s : State) (a : Action) : Decidable (Owned s a) := by
  cases a <;> unfold Owned <;> infer_instance

instance (s : State) (a : Action) : Decidable (Sized s a) := by
  cases a <;> unfold Sized <;> infer_instance

/-- A freed block is split, and both halves are handed out again. -/
theorem heap_law_split :
    ∃ tr s, Run step (fun s a => Owned s a ∧ Sized s a) .init tr s ∧ Sound s ∧
      s.live.map Span.start = [heapBase + 0x10000, heapBase, heapBase + 0x20000] := by
  obtain ⟨tr, s, hr, hl⟩ := Run.of_exec_any
    (show (exec step (fun s a => Owned s a ∧ Sized s a) .init
      [.alloc 0x20000 true, .alloc 1 true, .free heapBase, .alloc 0x10000 true,
        .allocAligned 0x10000 0x10000 true]).any
        (fun r => decide (r.2.live.map Span.start =
          [heapBase + 0x10000, heapBase, heapBase + 0x20000])) = true by decide +kernel)
  exact ⟨tr, s, hr, heap_law hr, of_decide_eq_true hl⟩

-- ---------------------------------------------------------------------------
-- The stale size
-- ---------------------------------------------------------------------------

/-- The first block is live with its size recorded, after `n` one-page blocks. -/
structure Aged (n : Nat) (s : State) : Prop where
  ptr : s.heapPtr = heapBase + 0x20000 + n * 0x1000
  count : s.allocSizes.length = n + 1
  size : allocSizeFor s.allocSizes heapBase = 0x20000
  free : s.freeBlocks = []
  first : liveAt s heapBase = some ⟨heapBase, 0x20000⟩

theorem Aged.next (h : Aged n s) (hn : n < maxAllocs - 1) :
    ∃ s' r, step s (.alloc 1 true) = some (s', r) ∧ Aged (n + 1) s' := by
  have hpage : roundPage 1 = 0x1000 := by decide
  have hptr : s.heapPtr = 0x20020000 + n * 0x1000 := h.ptr
  unfold maxAllocs at hn
  have hsum : u32 (s.heapPtr + 0x1000) = s.heapPtr + 0x1000 := u32_eq (by omega)
  have hhop : skipThunks (hop s.heapPtr 0x1000) 0x1000 = s.heapPtr := by
    have h1 : hop s.heapPtr 0x1000 = s.heapPtr := if_neg (by
      rw [hsum, region1End]
      omega)
    rw [h1, skipThunks, if_neg]
    rw [hsum, thunkBase]
    omega
  have hend : regionEnd s.heapPtr = 0x5F000000 := if_neg (by
    rw [region2]
    omega)
  have hnext : roundPage (s.heapPtr + 0x1000) = s.heapPtr + 0x1000 := by
    rw [roundPage, u32_eq (by omega)]
    omega
  have hne : (s.heapPtr == heapBase) = false := beq_false_of_ne (by
    rw [heapBase]
    omega)
  have htrack : trackAlloc s.allocSizes s.heapPtr 1 = (s.heapPtr, 1) :: s.allocSizes := if_pos (by
    rw [h.count, maxAllocs]
    omega)
  refine ⟨{ s with
    heapPtr := s.heapPtr + 0x1000
    allocSizes := (s.heapPtr, 1) :: s.allocSizes
    live := ⟨s.heapPtr, 0x1000⟩ :: s.live }, s.heapPtr, ?_, ?_, ?_, ?_, h.free, ?_⟩
  · simp only [step, Action.Fits, Nat.reduceLT, Nat.reducePow, ↓reduceIte, guestAlloc, hpage,
      Nat.one_ne_zero, Nat.reduceLeDiff, Nat.reduceMul, or_self, h.free, freeListTake,
      List.findIdx?_nil, hhop, hsum, hend, hnext, htrack, Bool.not_true, Bool.false_eq_true]
    rw [if_neg (by omega)]
  · dsimp only
    rw [h.ptr]
    omega
  · rw [List.length_cons, h.count]
  · rw [allocSizeFor, List.find?_cons_of_neg (by simp only [hne, Bool.false_eq_true,
      not_false_eq_true])]
    exact h.size
  · rw [liveAt, List.find?_cons_of_neg (by simp only [hne, Bool.false_eq_true,
      not_false_eq_true])]
    exact h.first

theorem alloc_owned (s : State) (size : Nat) : Owned s (.alloc size true) := trivial

theorem free_owned {s : State} (addr : Nat) (h : liveAt s addr = some b) : Owned s (.free addr) :=
  .inl (by rw [h]; rfl)

theorem aged_run (hn : n ≤ maxAllocs - 1) : ∃ tr s, Run step Owned .init tr s ∧ Aged n s := by
  induction n with
  | zero =>
    obtain ⟨tr, s, hr, hs⟩ := Run.of_exec_any
      (show (exec step Owned .init [.alloc 0x20000 true]).any (fun r => decide
        (r.2.heapPtr = heapBase + 0x20000 ∧ r.2.allocSizes = [(heapBase, 0x20000)] ∧
          r.2.freeBlocks = [] ∧ r.2.live = [⟨heapBase, 0x20000⟩])) = true by decide +kernel)
    obtain ⟨hp, hz, hf, hl⟩ := of_decide_eq_true hs
    refine ⟨tr, s, hr, hp, ?_, ?_, hf, ?_⟩
    · rw [hz]
      rfl
    · rw [hz]
      rfl
    · rw [liveAt, hl]
      rfl
  | succ n ih =>
    obtain ⟨tr, s, hr, ha⟩ := ih (Nat.le_of_succ_le hn)
    obtain ⟨s', r, hst, ha'⟩ := ha.next hn
    exact ⟨_, s', hr.snoc (alloc_owned s 1) hst, ha'⟩

/-- A block reused while the size table is full keeps the size it had before. -/
theorem reuse_step (hz : 0 < size ∧ size ≤ 512 * 1024 * 1024)
    (ht : freeListTake s.freeBlocks (roundPage size) = (a, free)) (ha : a ≠ 0)
    (hfull : s.allocSizes.length = maxAllocs) : step s (.alloc size true) =
      some ({ s with freeBlocks := free, live := ⟨a, roundPage size⟩ :: s.live }, a) := by
  have htrack : trackAlloc s.allocSizes a size = s.allocSizes := if_neg (by omega)
  have hfits : (Action.alloc size true).Fits := by
    show size < 2 ^ 32
    omega
  obtain ⟨a, rfl⟩ := Nat.exists_eq_succ_of_ne_zero ha
  simp only [step, hfits, ↓reduceIte, guestAlloc, Nat.ne_of_gt hz.1, ht, htrack]
  rw [if_neg (by omega)]

theorem roundPage_page (h : x % 0x1000 = 0) (hx : x ≤ 512 * 1024 * 1024) : roundPage x = x := by
  rw [roundPage, u32_eq (by omega)]
  omega

/-- The first block, freed while the free list is empty, is all there is on it. -/
theorem free_first {s : State} (h : allocSizeFor s.allocSizes heapBase = 0x20000)
    (h0 : s.freeBlocks = []) : step s (.free heapBase) =
      some ({ s with
        freeBlocks := [⟨heapBase, 0x20000⟩]
        live := s.live.eraseP fun b => b.start == heapBase }, 0) := by
  have hfits : (Action.free heapBase).Fits := by decide
  have hfree : guestFree s heapBase = [⟨heapBase, 0x20000⟩] := by
    rcases guestFree_cases s heapBase with hf | ⟨-, hf⟩
    · simp only [guestFree, h, h0] at hf
      exact absurd hf (by decide)
    · rw [hf, h0, h, roundPage_page (by decide) (by decide), List.nil_append]
  simp only [step, hfits, ↓reduceIte, hfree]

/-- Once 8192 sizes were recorded, a block freed, split and freed again goes to
the free list with the size it had before the split: the other half is live,
and is handed out a second time. -/
theorem stale_size_overlaps : ∃ tr s, Run step Owned .init tr s ∧ ¬AllApart s.live := by
  obtain ⟨tr, s, hr, ha⟩ := aged_run (Nat.le_refl (maxAllocs - 1))
  have hfull : s.allocSizes.length = maxAllocs := ha.count
  have hhalf : roundPage 0x10000 = 0x10000 := roundPage_page (by decide) (by decide)
  have hwhole : roundPage 0x20000 = 0x20000 := roundPage_page (by decide) (by decide)
  have htake1 : freeListTake [⟨heapBase, 0x20000⟩] 0x10000 =
      (heapBase, [⟨heapBase + 0x10000, 0x10000⟩]) := by decide +kernel
  have htake2 : freeListTake [⟨heapBase + 0x10000, 0x10000⟩] 0x10000 =
      (heapBase + 0x10000, []) := by decide +kernel
  have htake3 : freeListTake [⟨heapBase, 0x20000⟩] 0x20000 = (heapBase, []) := by decide +kernel
  -- Free the first block, take both halves, free the first half, take the whole.
  have hr1 := hr.snoc (free_owned heapBase ha.first) (free_first ha.size ha.free)
  have hr2 := hr1.snoc (alloc_owned _ 0x10000) (reuse_step (by omega)
    ((congrArg _ hhalf).trans htake1) (by decide) hfull)
  have hr3 := hr2.snoc (alloc_owned _ 0x10000) (reuse_step (by omega)
    ((congrArg _ hhalf).trans htake2) (by decide) hfull)
  have hr4 := hr3.snoc (free_owned heapBase rfl) (free_first ha.size rfl)
  have hr5 := hr4.snoc (alloc_owned _ 0x20000) (reuse_step (by omega)
    ((congrArg _ hwhole).trans htake3) (by decide) hfull)
  refine ⟨_, _, hr5, fun hall => ?_⟩
  have hpair := (List.pairwise_cons.1 hall).1 _ (List.mem_cons_self ..)
  rw [hwhole, hhalf] at hpair
  revert hpair
  decide

end WineGlass.GuestHeap
