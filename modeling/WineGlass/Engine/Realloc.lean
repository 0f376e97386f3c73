import WineGlass.Engine.GuestHeap
import WineGlass.Lib.Fields

/-!
# `realloc`

`realloc` and `HeapReAlloc` allocate anew and copy as many bytes as are asked for, whatever the
size of the old block. Of blink it matters that a read stops at the first page that is not
mapped: the rest of the buffer is what `malloc` gave.
-/

namespace WineGlass.Realloc

open Runs Spans Fields GuestHeap

abbrev Byte := BitVec 8
abbrev U32 := BitVec 32
abbrev U64 := BitVec 64

-- ---------------------------------------------------------------------------
-- The code
-- ---------------------------------------------------------------------------

/-- What the host has for a call: `calloc`, the fast way to fill, `malloc`, and what a buffer
holds before it is written. -/
structure Host where
  calloc : Bool
  fast : Bool
  malloc : Bool
  junk : Nat → Byte

structure Machine where
  heap : GuestHeap.State
  mapped : Nat → Bool
  mem : Nat → Byte

/-- What is cleared for a request. -/
def blockOf (n : Nat) : Nat := roundPage (if n = 0 then 1 else n)

def reuses (s : State) (n : Nat) : Bool := (freeListTake s.freeBlocks (blockOf n)).1 != 0

/-- `wg_guest_alloc`, with what becomes of memory. A block used before is mapped. -/
def Machine.alloc (g : Machine) (e : Host) (n : Nat) : Machine × Nat :=
  let r := guestAlloc g.heap n e.calloc
  let block : Extent := ⟨r.2, blockOf n⟩
  if r.2 = 0 then ({ g with heap := r.1 }, 0)
  else if reuses g.heap n then
    ({ g with heap := r.1, mem := if e.fast || e.calloc then zero g.mem block else g.mem }, r.2)
  else
    ({ heap := r.1
       mapped := fun x => g.mapped x || decide (block.Has x)
       mem := zero g.mem block }, r.2)

/-- Byte `i` of a buffer after `wg_blink_read_mem`. -/
def Machine.fetch (g : Machine) (junk : Nat → Byte) (p i : Nat) : Byte :=
  if (List.range (i + 1)).all fun j => g.mapped (p + j) then g.mem (p + i) else junk i

/-- `n` bytes from `p` to `np`, through a buffer. -/
def Machine.copy (g : Machine) (junk : Nat → Byte) (np p n : Nat) : Machine :=
  { g with mem := fun x => if Extent.Has ⟨np, n⟩ x then g.fetch junk p (x - np) else g.mem x }

/-- The handler of `realloc`, and of `HeapReAlloc`. -/
def Machine.resize (g : Machine) (e : Host) (p n : Nat) : Machine × Nat :=
  let r := g.alloc e n
  if r.2 ≠ 0 ∧ p ≠ 0 ∧ n ≠ 0 ∧ e.malloc then (r.1.copy e.junk r.2 p n, r.2) else r

/-- The call with a guest's arguments, of which `args[]` has the low halves. -/
def Machine.realloc (g : Machine) (e : Host) (p n : U64) : Machine × Nat :=
  g.resize e (p.setWidth 32).toNat (n.setWidth 32).toNat

/-- `alloc` is every call that ends in `wg_guest_alloc`; `other` is whatever else writes or maps
memory. -/
inductive Call
  | alloc (e : Host) (n : U32)
  | virtualAlloc (e : Host) (n : U32)
  | virtualFree (addr : U32)
  | realloc (e : Host) (p n : U64)
  | other (mapped : Nat → Bool) (mem : Nat → Byte)

def Machine.align (g : Machine) : Machine :=
  { g with heap := { g.heap with heapPtr := alignPtr g.heap.heapPtr 0x10000 } }

def step (g : Machine) : Call → Option (Machine × Nat)
  | .alloc e n => some (g.alloc e n.toNat)
  | .virtualAlloc e n => some (g.align.alloc e n.toNat)
  | .virtualFree addr =>
    some ({ g with heap := { g.heap with
      freeBlocks := guestFree g.heap addr.toNat
      live := g.heap.live.eraseP fun b => b.start == addr.toNat } }, 0)
  | .realloc e p n => some (g.realloc e p n)
  | .other mapped mem => some ({ g with mapped := fun x => g.mapped x || mapped x, mem }, 0)

def boot (mapped : Nat → Bool) (mem : Nat → Byte) : Machine := ⟨.init, mapped, mem⟩

-- ---------------------------------------------------------------------------
-- What a call is for
-- ---------------------------------------------------------------------------

/-- A block of `n` bytes with the first `m` of the old one and others behind, and every block
before as it was. -/
structure Resized (g : Machine) (p m n : Nat) (behind : Nat → Byte) (g' : Machine) (np : Nat) :
    Prop where
  block : ∃ b, g'.heap.live = b :: g.heap.live ∧ b.start = np ∧ n ≤ b.len
  bytes : ∀ i < n, g'.mem (np + i) = if i < m then g.mem (p + i) else behind i
  others : ∀ b ∈ g.heap.live, ∀ i < b.len, g'.mem (b.start + i) = g.mem (b.start + i)

/-- A call that fails leaves the blocks and their bytes. -/
structure Kept (g g' : Machine) : Prop where
  live : g'.heap.live = g.heap.live
  mem : g'.mem = g.mem

def Good (g : Machine) (e : Host) (p : U64) (m : Nat) (n : U64) (behind : Nat → Byte) : Prop :=
  if (g.realloc e p n).2 = 0 then Kept g (g.realloc e p n).1
  else Resized g p.toNat m n.toNat behind (g.realloc e p n).1 (g.realloc e p n).2

/-- What a read finds behind the old block once the new one is cleared. -/
def Machine.behind (g : Machine) (e : Host) (p n : U64) (i : Nat) : Byte :=
  (g.alloc e n.toNat).1.fetch e.junk p.toNat i

/-- What is freed is a live block or unknown, and its size is not taken for a larger one. -/
def Proper (g : Machine) : Call → Prop
  | .virtualFree addr => Owned g.heap (.free addr.toNat) ∧ Sized g.heap (.free addr.toNat)
  | _ => True

instance (g : Machine) : DecidablePred (Proper g)
  | .virtualFree _ => inferInstanceAs (Decidable (_ ∧ _))
  | .alloc _ _ | .virtualAlloc _ _ | .realloc _ _ _ | .other _ _ => inferInstanceAs (Decidable True)

-- ---------------------------------------------------------------------------
-- Allocation
-- ---------------------------------------------------------------------------

variable {g g' : Machine} {e : Host} {n : Nat}

theorem alloc_heap (g : Machine) (e : Host) (n : Nat) :
    (g.alloc e n).1.heap = (guestAlloc g.heap n e.calloc).1 := by
  unfold Machine.alloc
  dsimp only
  split
  · rfl
  · split <;> rfl

theorem alloc_addr (g : Machine) (e : Host) (n : Nat) :
    (g.alloc e n).2 = (guestAlloc g.heap n e.calloc).2 := by
  unfold Machine.alloc
  dsimp only
  split
  · rename_i h
    exact h.symm
  · split <;> rfl

/-- Outside of the new block nothing is written, and what was mapped still is. -/
theorem alloc_outside (hx : ¬ Extent.Has ⟨(g.alloc e n).2, blockOf n⟩ x) :
    (g.alloc e n).1.mem x = g.mem x := by
  rw [alloc_addr] at hx
  unfold Machine.alloc
  dsimp only
  split
  · rfl
  · split
    · dsimp only
      split
      · exact zero_not_has _ hx
      · rfl
    · exact zero_not_has _ hx

theorem alloc_refused (h : (g.alloc e n).2 = 0) : (g.alloc e n).1.mem = g.mem := by
  rw [alloc_addr] at h
  unfold Machine.alloc
  dsimp only
  rw [if_pos h]

theorem alloc_mapped (h : g.mapped x = true) : (g.alloc e n).1.mapped x = true := by
  unfold Machine.alloc
  dsimp only
  split
  · exact h
  · split
    · exact h
    · simp [h]

/-- Every block of the heap after an allocation is part of one before, or the new one at the
pointer. -/
theorem guestAlloc_within (h : GuestHeap.Inv s) :
    ∀ b ∈ (guestAlloc s n ok).1.live ++ (guestAlloc s n ok).1.freeBlocks,
      (∃ c ∈ s.live ++ s.freeBlocks, Within b c) ∨
        (guestAlloc s n ok).2 ≠ 0 ∧ reuses s n = false ∧ b = ⟨(guestAlloc s n ok).2, blockOf n⟩ := by
  generalize hg : guestAlloc s n ok = r
  obtain ⟨s', a⟩ := r
  dsimp only
  have hold : ∀ b ∈ s.live ++ s.freeBlocks, (∃ c ∈ s.live ++ s.freeBlocks, Within b c) :=
    fun b hb => ⟨b, hb, .refl b⟩
  have hstop : ∀ b ∈ s.freeBlocks, b.stop ≤ region2End := fun b hb =>
    (h.inHeap b (List.mem_append_right _ hb)).bounds.2
  have hreuses : reuses s n = ((freeListTake s.freeBlocks (blockOf n)).1 != 0) := rfl
  unfold guestAlloc at hg
  dsimp only at hg
  have hblock : blockOf n = roundPage (if n = 0 then 1 else n) := rfl
  generalize (if n = 0 then 1 else n) = size at hg hblock
  split at hg
  · cases hg
    exact fun b hb => .inl (hold b hb)
  rename_i hsize
  obtain ⟨-, hle⟩ := le_roundPage (x := size) (by omega)
  have hrest {free : List Span} {a : Nat}
      (ht : freeListTake s.freeBlocks (roundPage size) = (a, free)) :
      ∀ b ∈ s.live ++ free, ∃ c ∈ s.live ++ s.freeBlocks, Within b c := by
    intro b hb
    rcases List.mem_append.mp hb with hb | hb
    · exact ⟨b, List.mem_append_left _ hb, .refl b⟩
    · obtain ⟨c, hc, hbc⟩ := (take_within hstop hle ht).2 b hb
      exact ⟨c, List.mem_append_right _ hc, hbc⟩
  split at hg
  · rename_i free ht
    split at hg
    · cases hg
      exact fun b hb => .inl (hrest ht b hb)
    split at hg
    · cases hg
      exact fun b hb => .inl (hrest ht b hb)
    cases hg
    rintro b hb
    rcases List.mem_cons.mp hb with rfl | hb
    · refine .inr ⟨?_, ?_, by rw [hblock]⟩
      · have hbase : heapBase ≤ skipThunks (hop s.heapPtr (roundPage size)) (roundPage size) :=
          Nat.le_trans h.ptr.1 le_hop
        unfold heapBase at hbase
        omega
      · rw [hreuses, hblock, ht]
        rfl
    · exact .inl (hrest ht b hb)
  · rename_i reuse free hne ht
    cases hg
    intro b hb
    rcases List.mem_cons.mp hb with rfl | hb
    · obtain ⟨h0, -⟩ | ⟨c, hc, hbc⟩ := (take_within hstop hle ht).1
      · exact absurd h0 hne
      · exact .inl ⟨c, List.mem_append_right _ hc, hbc⟩
    · exact .inl (hrest ht b hb)

-- ---------------------------------------------------------------------------
-- The invariant
-- ---------------------------------------------------------------------------

/-- The blocks are apart and mapped. -/
structure Inv (g : Machine) : Prop where
  heap : GuestHeap.Inv g.heap
  mapped : ∀ b ∈ g.heap.live ++ g.heap.freeBlocks, ∀ i < b.len, g.mapped (b.start + i) = true

theorem boot_inv (mapped : Nat → Bool) (mem : Nat → Byte) : Inv (boot mapped mem) :=
  ⟨init_inv, by simp [boot, State.init]⟩

theorem Inv.within (h : Inv g) (hw : ∃ c ∈ g.heap.live ++ g.heap.freeBlocks, Within b c)
    (hi : i < b.len) : g.mapped (b.start + i) = true := by
  obtain ⟨c, hc, hl, hu⟩ := hw
  have hmap := h.mapped c hc (b.start - c.start + i) (by
    simp only [Span.stop] at hu
    omega)
  rwa [show c.start + (b.start - c.start + i) = b.start + i by omega] at hmap

theorem Inv.alloc (h : Inv g) (e : Host) (n : Nat) : Inv (g.alloc e n).1 where
  heap := by
    rw [alloc_heap]
    exact guestAlloc_inv h.heap
  mapped b hb i hi := by
    rw [alloc_heap] at hb
    rcases guestAlloc_within h.heap b hb with hw | ⟨h0, hnew, rfl⟩
    · exact alloc_mapped (h.within hw hi)
    · unfold Machine.alloc
      dsimp only
      rw [if_neg h0, hnew]
      simp only [Bool.false_eq_true, if_false, Bool.or_eq_true, decide_eq_true_eq]
      exact .inr ⟨Nat.le_add_right _ _, Nat.add_lt_add_left hi _⟩

theorem Inv.align (h : Inv g) : Inv g.align :=
  ⟨h.heap.ptr_up (le_alignPtr h.heap.ptr.2).1 (le_alignPtr h.heap.ptr.2).2, h.mapped⟩

theorem Inv.resize (h : Inv g) (e : Host) (p n : Nat) : Inv (g.resize e p n).1 := by
  unfold Machine.resize
  dsimp only
  split
  · exact ⟨(h.alloc e n).heap, (h.alloc e n).mapped⟩
  · exact h.alloc e n

theorem Inv.free (h : Inv g) (ho : Owned g.heap (.free addr)) (hs : Sized g.heap (.free addr)) :
    Inv { g with heap := { g.heap with
      freeBlocks := guestFree g.heap addr
      live := g.heap.live.eraseP fun b => b.start == addr } } where
  heap := h.heap.free ho hs
  mapped b hb i hi := by
    refine h.within ?_ hi
    rcases List.mem_append.mp hb with hb | hb
    · exact ⟨b, List.mem_append_left _ (List.mem_of_mem_eraseP hb), .refl b⟩
    · rcases guestFree_cases g.heap addr with hf | ⟨hne, hf⟩
      · rw [hf] at hb
        exact ⟨b, List.mem_append_right _ hb, .refl b⟩
      · rw [hf] at hb
        rcases List.mem_append.mp hb with hb | hb
        · exact ⟨b, List.mem_append_right _ hb, .refl b⟩
        · obtain rfl := List.mem_singleton.mp hb
          -- An address with a size is that of a live block.
          cases hl : liveAt g.heap addr with
          | none =>
            rcases ho with ho | ho
            · simp [hl] at ho
            · exact absurd ho hne
          | some c =>
            obtain ⟨rfl, hperm⟩ := liveAt_perm hl
            exact ⟨c, List.mem_append_left _ (hperm.mem_iff.mpr List.mem_cons_self),
              Nat.le_refl _, Nat.add_le_add_left (hs c hl) _⟩

theorem step_inv (h : Inv g) (hok : Proper g c) (hs : step g c = some (g', a)) : Inv g' := by
  cases c with
  | alloc e n =>
    obtain rfl := congrArg Prod.fst (Option.some.inj hs)
    exact h.alloc e n.toNat
  | virtualAlloc e n =>
    obtain rfl := congrArg Prod.fst (Option.some.inj hs)
    exact h.align.alloc e n.toNat
  | virtualFree addr =>
    obtain rfl := congrArg Prod.fst (Option.some.inj hs)
    exact h.free hok.1 hok.2
  | realloc e p n =>
    obtain rfl := congrArg Prod.fst (Option.some.inj hs)
    exact h.resize e _ _
  | other mapped mem =>
    obtain rfl := congrArg Prod.fst (Option.some.inj hs)
    exact ⟨h.heap, fun b hb i hi => by simp [h.mapped b hb i hi]⟩

theorem run_inv (h : Run step Proper (boot mapped mem) tr g) : Inv g :=
  h.invariant (P := fun _ g => Inv g) (boot_inv mapped mem) fun hi hok hs => step_inv hi hok hs

-- ---------------------------------------------------------------------------
-- One call
-- ---------------------------------------------------------------------------

/-- A block of the size asked for is put before the others. -/
theorem alloc_block (h0 : (g.alloc e n).2 ≠ 0) :
    n ≤ blockOf n ∧ blockOf n ≤ 512 * 1024 * 1024 ∧
      (g.alloc e n).1.heap.live = ⟨(g.alloc e n).2, blockOf n⟩ :: g.heap.live := by
  rw [alloc_addr] at h0
  rw [alloc_heap, alloc_addr]
  rcases guestAlloc_live (show guestAlloc g.heap n e.calloc =
    ((guestAlloc g.heap n e.calloc).1, (guestAlloc g.heap n e.calloc).2) from rfl)
    with ⟨hz, -⟩ | ⟨hsmall, hlive⟩
  · exact absurd hz h0
  · obtain ⟨hge, hle⟩ := le_roundPage (x := if n = 0 then 1 else n) (by split <;> omega)
    refine ⟨Nat.le_trans ?_ hge, hle, hlive⟩
    split <;> omega

/-- The new block is no part of an old one. -/
theorem Inv.fresh (h : Inv g) (h0 : (g.alloc e n).2 ≠ 0) (hb : b ∈ g.heap.live) (hi : i < b.len) :
    ¬ Extent.Has ⟨(g.alloc e n).2, blockOf n⟩ (b.start + i) := by
  obtain ⟨-, -, hlive⟩ := alloc_block h0
  have hapart := (h.alloc e n).heap.apart.left
  rw [hlive] at hapart
  have hab := (List.pairwise_cons.mp hapart).1 b hb
  rintro ⟨hl, hu⟩
  unfold Apart Span.stop at hab
  dsimp only at hl hu hab
  omega

/-- The old block is read as it was. -/
theorem Inv.fetch_old (h : Inv g) (h0 : (g.alloc e n).2 ≠ 0) (hb : b ∈ g.heap.live)
    (hi : i < b.len) : (g.alloc e n).1.fetch junk b.start i = g.mem (b.start + i) := by
  unfold Machine.fetch
  rw [if_pos]
  · exact alloc_outside (h.fresh h0 hb hi)
  · rw [List.all_eq_true]
    intro j hj
    have hj : j < i + 1 := List.mem_range.mp hj
    exact alloc_mapped (h.mapped b (List.mem_append_left _ hb) j (by omega))

theorem resize_copies (h0 : (g.alloc e n).2 ≠ 0) (hp : p ≠ 0) (hn : n ≠ 0)
    (hmalloc : e.malloc = true) :
    g.resize e p n = ((g.alloc e n).1.copy e.junk (g.alloc e n).2 p n, (g.alloc e n).2) :=
  if_pos ⟨h0, hp, hn, hmalloc⟩

theorem resize_refused (h : (g.alloc e n).2 = 0) : g.resize e p n = g.alloc e n :=
  if_neg fun hall => hall.1 h

theorem resize_addr : (g.resize e p n).2 = (g.alloc e n).2 := by
  unfold Machine.resize
  dsimp only
  split <;> rfl

/-- A call that is served copies as many bytes as are asked for. -/
theorem Inv.resized (h : Inv g) (h0 : (g.alloc e n).2 ≠ 0) (hb : b ∈ g.heap.live)
    (hm : m ≤ b.len) (hn : n ≠ 0) (hmalloc : e.malloc = true) :
    Resized g b.start m n (fun i => (g.alloc e n).1.fetch e.junk b.start i)
      (g.resize e b.start n).1 (g.alloc e n).2 := by
  have hbase := (h.heap.inHeap b (List.mem_append_left _ hb)).bounds.1
  have hp : b.start ≠ 0 := by
    unfold heapBase at hbase
    omega
  obtain ⟨hle, -, hlive⟩ := alloc_block h0
  rw [resize_copies h0 hp hn hmalloc]
  refine ⟨⟨_, hlive, rfl, hle⟩, fun i hi => ?_, fun c hc i hi => ?_⟩
  · have hin : Extent.Has ⟨(g.alloc e n).2, n⟩ ((g.alloc e n).2 + i) :=
      ⟨Nat.le_add_right _ _, Nat.add_lt_add_left hi _⟩
    unfold Machine.copy
    dsimp only
    rw [if_pos hin, Nat.add_sub_cancel_left]
    split
    · exact h.fetch_old h0 hb (by omega)
    · rfl
  · have hout := h.fresh h0 hc hi
    unfold Machine.copy
    dsimp only
    rw [if_neg]
    · exact alloc_outside hout
    · exact fun hin => hout ⟨hin.1, Nat.lt_of_lt_of_le hin.2 (Nat.add_le_add_left hle _)⟩

/-- A call that is refused changes nothing but the pointer. -/
theorem Inv.kept (h : Inv g) (h0 : (g.alloc e n).2 = 0) : Kept g (g.resize e p n).1 := by
  rw [resize_refused h0]
  refine ⟨?_, alloc_refused h0⟩
  rw [alloc_addr] at h0
  rw [alloc_heap]
  rcases guestAlloc_live (show guestAlloc g.heap n e.calloc =
    ((guestAlloc g.heap n e.calloc).1, (guestAlloc g.heap n e.calloc).2) from rfl)
    with ⟨-, hlive⟩ | ⟨-, hlive⟩
  · exact hlive
  · -- No block is at 0.
    have hinv : GuestHeap.Inv (guestAlloc g.heap n e.calloc).1 := guestAlloc_inv h.heap
    have hin := hinv.inHeap
    rw [hlive] at hin
    have hbase := (hin _ (List.mem_append_left _ List.mem_cons_self)).bounds.1
    rw [h0] at hbase
    exact absurd (show heapBase ≤ 0 from hbase) (by decide)

-- ---------------------------------------------------------------------------
-- The law
-- ---------------------------------------------------------------------------

theorem realloc_law {n : U64} (hrun : Run step Proper (boot mapped mem) tr g)
    (hb : b ∈ g.heap.live) (hp : b.start = p.toNat) (hm : m ≤ b.len) (hn : 0 < n.toNat)
    (hlt : n.toNat < 2 ^ 32) (hmalloc : e.malloc = true) : Good g e p m n (g.behind e p n) := by
  have h := run_inv hrun
  have hstop := (h.heap.inHeap b (List.mem_append_left _ hb)).bounds.2
  have hp32 : (p.setWidth 32).toNat = b.start := by
    rw [BitVec.toNat_setWidth, ← hp]
    refine Nat.mod_eq_of_lt ?_
    simp only [Span.stop, region2End] at hstop
    omega
  have hn32 : (n.setWidth 32).toNat = n.toNat := by
    rw [BitVec.toNat_setWidth]
    exact Nat.mod_eq_of_lt hlt
  unfold Good Machine.realloc Machine.behind
  rw [hp32, hn32, ← hp, resize_addr]
  by_cases h0 : (g.alloc e n.toNat).2 = 0
  · rw [if_pos h0]
    exact h.kept h0
  · rw [if_neg h0]
    exact h.resized h0 hb hm (Nat.ne_of_gt hn) hmalloc

-- ---------------------------------------------------------------------------
-- Two heaps
-- ---------------------------------------------------------------------------

/-- A host that has all there is to have. -/
def rich : Host := ⟨true, true, true, fun _ => 0⟩

def first : U64 := 0x20000000

/-- A block that grows. -/
theorem realloc_law_grows : ∃ tr g, Run step Proper (boot (fun _ => false) fun _ => 0) tr g ∧
    Good g rich first 16 32 (g.behind rich first 32) := by
  have hrun : Run step Proper (boot (fun _ => false) fun _ => 0) [(Call.alloc rich 16, _)] _ :=
    Run.single trivial rfl
  refine ⟨_, _, hrun, realloc_law (b := ⟨heapBase, 0x1000⟩) hrun ?_ rfl (by decide) (by decide)
    (by decide) rfl⟩
  decide +kernel

/-- Two blocks side by side. -/
def neighbours : List Call :=
  [.alloc rich 0x1000, .alloc rich 0x1000, .other (fun _ => false) fun _ => 0xAA]

def grown (g : Machine) : Bool :=
  let r := g.realloc rich first 0x2000
  r.2 != 0 && r.1.mem (r.2 + 0x1000) != 0

theorem neighbours_run : (exec step Proper (boot (fun _ => false) fun _ => 0) neighbours).any
    (fun r => grown r.2) = true := by decide +kernel

/-- The new block has bytes of the old one's neighbour where zeros are expected. -/
theorem realloc_leaks : ∃ tr g, Run step Proper (boot (fun _ => false) fun _ => 0) tr g ∧
    ¬ Good g rich first 0x1000 0x2000 fun _ => 0 := by
  obtain ⟨tr, g, hrun, h⟩ := Run.of_exec_any neighbours_run
  simp only [grown, Bool.and_eq_true, bne_iff_ne, ne_eq] at h
  obtain ⟨h0, hbyte⟩ := h
  refine ⟨tr, g, hrun, fun hgood => ?_⟩
  unfold Good at hgood
  rw [if_neg h0] at hgood
  exact hbyte ((hgood.bytes 0x1000 (by decide)).trans (if_neg (by decide)))

end WineGlass.Realloc
