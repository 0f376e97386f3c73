import WineGlass.Files.Views

/-!
# Sizes of allocations

`malloc`, `calloc`, `operator new`, `HeapAlloc` and the views of `MapViewOfFile` ask
`wg_guest_alloc` for a `uint32_t` of bytes. `step` is the machine of these and of the other
calls that move the heap's pointer or its lists: `GlobalAlloc`, `CommandLineToArgvW`, the load
of another program.
-/

namespace WineGlass.AllocSizes

open Runs Spans GuestHeap FileViews
open FileHandles (U32 U64)

-- ---------------------------------------------------------------------------
-- The code
-- ---------------------------------------------------------------------------

/-- What a guest asks for. The arguments are those of a 64-bit guest; a 32-bit guest's have no
upper half. A view is what the handler makes of the arguments. -/
inductive Request
  | malloc (n : U64)
  | operatorNew (n : U64)
  | heapAlloc (n : U64)
  | calloc (k n : U64)
  | view (last offset : U64) (size : U32)

/-- The size that the handler passes on; `args[]` has the low halves. -/
def Request.size : Request → U32
  | .malloc n | .operatorNew n | .heapAlloc n => n.setWidth 32
  | .calloc k n => k.setWidth 32 * n.setWidth 32
  | .view last offset size => mapSize last offset size

def Request.serve (r : Request) (s : State) (ok : Bool) : State × Nat :=
  match r with
  | .view .. => guestAllocAligned s r.size.toNat 0x10000 ok
  | _ => guestAlloc s r.size.toNat ok

/-- `GlobalAlloc`, which neither reuses a block nor records its size. -/
def globalAlloc (s : State) (request : U32) (ok : Bool) : State × Nat :=
  let size := if request = 0 then 4096 else request.toNat
  if 2 ^ 31 ≤ size ∨ 512 * 1024 * 1024 < size then (s, 0)
  else
    let size := roundPage size
    let p := skipThunks (hop s.heapPtr size) size
    let s := { s with heapPtr := p }
    if regionEnd p < u32 (p + size) ∨ u32 (p + size) < p then (s, 0)
    else if !ok then (s, 0)
    else ({ s with heapPtr := roundPage (u32 (p + size)) }, p)

/-- What `CommandLineToArgvW` takes for a command line of `len` characters. -/
def argvSize (is64bit : Bool) (len : Fin 512) : Nat :=
  roundPage ((if is64bit then 8 else 4) + (len + 1) * 2)

def commandLineToArgv (s : State) (is64bit : Bool) (len : Fin 512) (ok : Bool) : State :=
  if ok then { s with heapPtr := u32 (s.heapPtr + argvSize is64bit len) } else s

/-- `wg_engine_load_pe` forgets the sizes and keeps the free list. -/
def loadPe (s : State) : State := { s with heapPtr := heapBase, allocSizes := [], live := [] }

/-- `other` and `virtualAlloc` are all other callers of `wg_guest_alloc` and of
`wg_guest_alloc_aligned`. -/
inductive Call
  | request (r : Request) (ok : Bool)
  | other (size : U32) (ok : Bool)
  | virtualAlloc (size : U32) (ok : Bool)
  | virtualFree (addr : U32)
  | globalAlloc (size : U32) (ok : Bool)
  | commandLineToArgv (is64bit : Bool) (len : Fin 512) (ok : Bool)
  | loadPe

def step (s : State) : Call → Option (State × Nat)
  | .request r ok => some (r.serve s ok)
  | .other size ok => some (guestAlloc s size.toNat ok)
  | .virtualAlloc size ok => some (guestAllocAligned s size.toNat 0x10000 ok)
  | .virtualFree addr =>
    some ({ s with
      freeBlocks := guestFree s addr.toNat
      live := s.live.eraseP fun b => b.start == addr.toNat }, 0)
  | .globalAlloc size ok => some (globalAlloc s size ok)
  | .commandLineToArgv is64bit len ok => some (commandLineToArgv s is64bit len ok, 0)
  | .loadPe => some (loadPe s, 0)

-- ---------------------------------------------------------------------------
-- What a request is for
-- ---------------------------------------------------------------------------

/-- The bytes asked for, as an integer. -/
def Request.bytes : Request → Nat
  | .malloc n | .operatorNew n | .heapAlloc n => n.toNat
  | .calloc k n => k.toNat * n.toNat
  | .view last offset size => (mapSize last offset size).toNat

/-- The request is refused, or a block of at least its size is handed out, inside a region and
off the thunks. -/
def Serves (r : Request) (s : State) (ok : Bool) : Prop :=
  (r.serve s ok).2 = 0 ∨ ∃ b, (r.serve s ok).1.live = b :: s.live ∧ b.start = (r.serve s ok).2 ∧
    r.bytes ≤ b.len ∧ InHeap b

/-- `CommandLineToArgvW`, which checks no region, does not take the pointer past 4 GB. -/
def Tame (s : State) : Call → Prop
  | .commandLineToArgv is64bit len _ => s.heapPtr + argvSize is64bit len < 2 ^ 32
  | _ => True

/-- The bytes are below 4 GB, or what is left of them in 32 bits is refused. -/
def Request.Fits (r : Request) : Prop :=
  r.bytes < 2 ^ 32 ∨ 512 * 1024 * 1024 < r.bytes % 2 ^ 32

-- ---------------------------------------------------------------------------
-- Sizes
-- ---------------------------------------------------------------------------

theorem Request.size_bytes (r : Request) : r.size.toNat = r.bytes % 2 ^ 32 := by
  cases r with
  | malloc n | operatorNew n | heapAlloc n => exact BitVec.toNat_setWidth 32 n
  | calloc k n =>
    unfold Request.size Request.bytes
    rw [BitVec.toNat_mul, BitVec.toNat_setWidth, BitVec.toNat_setWidth, ← Nat.mul_mod]
  | view last offset size => exact (Nat.mod_eq_of_lt (mapSize last offset size).isLt).symm

/-- A block that `request` is rounded up to. -/
theorem request_le (h : request ≤ 512 * 1024 * 1024) :
    request ≤ roundPage (if request = 0 then 1 else request) := by
  have hround := (le_roundPage (x := if request = 0 then 1 else request) (by split <;> omega)).1
  refine Nat.le_trans ?_ hround
  split <;> omega

-- ---------------------------------------------------------------------------
-- The heap stays in its regions
-- ---------------------------------------------------------------------------

/-- Whatever is freed and however often, what is free or recorded is inside a region. -/
structure Bounded (s : State) : Prop where
  recorded : ∀ e ∈ s.allocSizes, InHeap ⟨e.1, roundPage e.2⟩
  free : ∀ b ∈ s.freeBlocks, InHeap b
  ptr : heapBase ≤ s.heapPtr ∧ s.heapPtr < 2 ^ 32

theorem init_bounded : Bounded .init :=
  ⟨by simp [State.init], by simp [State.init], by decide⟩

theorem Bounded.ptr_up (h : Bounded s) (hle : s.heapPtr ≤ p) (hlt : p < 2 ^ 32) :
    Bounded { s with heapPtr := p } :=
  ⟨h.recorded, h.free, Nat.le_trans h.ptr.1 hle, hlt⟩

theorem Bounded.track (h : Bounded s) (hin : InHeap ⟨a, roundPage size⟩) :
    Bounded { s with allocSizes := trackAlloc s.allocSizes a size } where
  recorded e he := by
    unfold trackAlloc at he
    dsimp only at he
    split at he
    · rcases List.mem_cons.mp he with rfl | he
      · exact hin
      · exact h.recorded e he
    · exact h.recorded e he
  free := h.free
  ptr := h.ptr

theorem allocSizeFor_mem (h : allocSizeFor sizes addr ≠ 0) :
    (addr, allocSizeFor sizes addr) ∈ sizes := by
  unfold allocSizeFor at h ⊢
  cases hfind : sizes.find? fun e => e.1 == addr with
  | none =>
    rw [hfind] at h
    exact absurd rfl h
  | some e =>
    have he : e.1 = addr := by simpa using List.find?_some hfind
    rw [← he]
    exact List.mem_of_find?_eq_some hfind

theorem Bounded.release (h : Bounded s) (addr : Nat) (live : List Span) :
    Bounded { s with freeBlocks := guestFree s addr, live } where
  recorded := h.recorded
  free b hb := by
    rcases guestFree_cases s addr with heq | ⟨hne, heq⟩
    · exact h.free b (heq ▸ hb)
    · rcases List.mem_append.mp (heq ▸ hb : b ∈ s.freeBlocks ++ _) with hb | hb
      · exact h.free b hb
      · obtain rfl := List.mem_singleton.mp hb
        exact h.recorded _ (allocSizeFor_mem hne)
  ptr := h.ptr

/-- A block of the free list, narrowed, and what is left of the list. -/
theorem take_inHeap (hfree : ∀ b ∈ free, InHeap b) (ha : alloc ≤ 512 * 1024 * 1024)
    (ht : freeListTake free alloc = (a, free')) :
    (a ≠ 0 → InHeap ⟨a, alloc⟩) ∧ ∀ b ∈ free', InHeap b := by
  obtain ⟨hnew, hrest⟩ := take_within (fun b hb => (hfree b hb).bounds.2) ha ht
  refine ⟨fun h0 => ?_, fun b hb => ?_⟩
  · obtain ⟨ha0, -⟩ | ⟨c, hc, hw⟩ := hnew
    · exact absurd ha0 h0
    · exact (hfree c hc).mono hw
  · obtain ⟨c, hc, hw⟩ := hrest b hb
    exact (hfree c hc).mono hw

/-- A nonzero answer is a block inside a region. -/
theorem guestAlloc_bounded (h : Bounded s) :
    Bounded (guestAlloc s request ok).1 ∧ ((guestAlloc s request ok).2 ≠ 0 →
      InHeap ⟨(guestAlloc s request ok).2, roundPage (if request = 0 then 1 else request)⟩) := by
  unfold guestAlloc
  dsimp only
  generalize (if request = 0 then 1 else request) = size
  split
  · exact ⟨h, fun h => absurd rfl h⟩
  rename_i hsize
  obtain ⟨hge, hle⟩ := le_roundPage (x := size) (by omega)
  split
  · rename_i free ht
    have hfree := (take_inHeap h.free hle ht).2
    have hup : Bounded { s with
        freeBlocks := free
        heapPtr := skipThunks (hop s.heapPtr (roundPage size)) (roundPage size) } :=
      ⟨h.recorded, hfree, Nat.le_trans h.ptr.1 le_hop, hop_lt h.ptr.2⟩
    split
    · exact ⟨hup, fun h => absurd rfl h⟩
    rename_i hfit
    split
    · exact ⟨hup, fun h => absurd rfl h⟩
    have hin := bump_inHeap h.ptr hle rfl hfit
    obtain ⟨hpage, hlt⟩ := bump_page hin.bounds.2
    have hptr := (hup.track hin).ptr_up (Nat.le_trans (Nat.le_add_right _ _) hpage) hlt
    exact ⟨⟨hptr.recorded, hptr.free, hptr.ptr⟩, fun _ => hin⟩
  · rename_i reuse free hne ht
    obtain ⟨hin, hfree⟩ := take_inHeap h.free hle ht
    have htaken : Bounded { s with freeBlocks := free } := ⟨h.recorded, hfree, h.ptr⟩
    have htrack := htaken.track (hin hne)
    exact ⟨⟨htrack.recorded, htrack.free, htrack.ptr⟩, fun _ => hin hne⟩

theorem globalAlloc_bounded (h : Bounded s) : Bounded (globalAlloc s request ok).1 := by
  unfold globalAlloc
  dsimp only
  generalize (if request = 0 then 4096 else request.toNat) = size
  split
  · exact h
  rename_i hsize
  obtain ⟨hge, hle⟩ := le_roundPage (x := size) (by omega)
  have hup : Bounded { s with heapPtr := skipThunks (hop s.heapPtr (roundPage size)) _ } :=
    h.ptr_up le_hop (hop_lt h.ptr.2)
  split
  · exact hup
  rename_i hfit
  split
  · exact hup
  have hin := bump_inHeap h.ptr hle rfl hfit
  obtain ⟨hpage, hlt⟩ := bump_page hin.bounds.2
  exact hup.ptr_up (Nat.le_trans (Nat.le_add_right _ _) hpage) hlt

theorem align_bounded (h : Bounded s) (align : Nat) :
    Bounded { s with heapPtr := alignPtr s.heapPtr align } :=
  h.ptr_up (le_alignPtr h.ptr.2).1 (le_alignPtr h.ptr.2).2

theorem serve_bounded (h : Bounded s) (r : Request) (ok : Bool) : Bounded (r.serve s ok).1 := by
  cases r with
  | view last offset size => exact (guestAlloc_bounded (align_bounded h 0x10000)).1
  | malloc n | operatorNew n | heapAlloc n | calloc k n => exact (guestAlloc_bounded h).1

theorem step_bounded (h : Bounded s) (hok : Tame s c) (hs : step s c = some (s', a)) :
    Bounded s' := by
  cases c with
  | request r ok =>
    obtain rfl := congrArg Prod.fst (Option.some.inj hs)
    exact serve_bounded h r ok
  | other size ok =>
    obtain rfl := congrArg Prod.fst (Option.some.inj hs)
    exact (guestAlloc_bounded h).1
  | virtualAlloc size ok =>
    obtain rfl := congrArg Prod.fst (Option.some.inj hs)
    exact (guestAlloc_bounded (align_bounded h 0x10000)).1
  | virtualFree addr =>
    obtain rfl := congrArg Prod.fst (Option.some.inj hs)
    exact h.release addr.toNat _
  | globalAlloc size ok =>
    obtain rfl := congrArg Prod.fst (Option.some.inj hs)
    exact globalAlloc_bounded h
  | commandLineToArgv is64bit len ok =>
    obtain rfl := congrArg Prod.fst (Option.some.inj hs)
    unfold commandLineToArgv
    split
    · unfold Tame at hok
      have hu : u32 (s.heapPtr + argvSize is64bit len) = s.heapPtr + argvSize is64bit len :=
        u32_eq hok
      exact h.ptr_up (by omega) u32_lt
    · exact h
  | loadPe =>
    obtain rfl := congrArg Prod.fst (Option.some.inj hs)
    exact ⟨by simp [loadPe], h.free, init_bounded.ptr⟩

theorem run_bounded (h : Run step Tame .init tr s) : Bounded s :=
  h.invariant (P := fun _ s => Bounded s) init_bounded fun hb hok hs => step_bounded hb hok hs

-- ---------------------------------------------------------------------------
-- The law
-- ---------------------------------------------------------------------------

/-- What `wg_guest_alloc` answers for a size. -/
theorem guestAlloc_serves (h : Bounded s) : (guestAlloc s n ok).2 = 0 ∨
    n ≤ 512 * 1024 * 1024 ∧ ∃ b, (guestAlloc s n ok).1.live = b :: s.live ∧
      b.start = (guestAlloc s n ok).2 ∧ n ≤ b.len ∧ b.len ≤ 512 * 1024 * 1024 ∧ InHeap b := by
  rcases guestAlloc_live (show guestAlloc s n ok = ((guestAlloc s n ok).1, (guestAlloc s n ok).2)
    from rfl) with ⟨h0, -⟩ | ⟨hsmall, hlive⟩
  · exact .inl h0
  · by_cases h0 : (guestAlloc s n ok).2 = 0
    · exact .inl h0
    · have hlen := (le_roundPage (x := if n = 0 then 1 else n) (by split <;> omega)).2
      exact .inr ⟨hsmall, _, hlive, rfl, request_le hsmall, hlen, (guestAlloc_bounded h).2 h0⟩

theorem serve_serves (h : Bounded s) (r : Request) (ok : Bool) : (r.serve s ok).2 = 0 ∨
    r.size.toNat ≤ 512 * 1024 * 1024 ∧ ∃ b, (r.serve s ok).1.live = b :: s.live ∧
      b.start = (r.serve s ok).2 ∧ r.size.toNat ≤ b.len ∧ b.len ≤ 512 * 1024 * 1024 ∧
        InHeap b := by
  cases r with
  | view last offset size => exact guestAlloc_serves (align_bounded h 0x10000)
  | malloc n | operatorNew n | heapAlloc n | calloc k n => exact guestAlloc_serves h

/-- The first request of a program is met when it is not too large. -/
theorem init_serves (h : n ≤ 512 * 1024 * 1024) : (guestAlloc .init n true).2 = heapBase := by
  have hle := (le_roundPage (x := if n = 0 then 1 else n) (by split <;> omega)).2
  have hsize : ¬ (2 ^ 31 ≤ (if n = 0 then 1 else n) ∨
      512 * 1024 * 1024 < if n = 0 then 1 else n) := by
    split <;> omega
  unfold guestAlloc
  dsimp only
  rw [if_neg hsize]
  generalize roundPage (if n = 0 then 1 else n) = alloc at hle ⊢
  have hu : u32 (heapBase + alloc) = heapBase + alloc := u32_eq (by unfold heapBase; omega)
  have hhop : hop heapBase alloc = heapBase := if_neg (by
    rw [hu, heapBase, region1End]
    omega)
  have hskip : skipThunks heapBase alloc = heapBase := if_neg (by
    rw [hu, heapBase, thunkBase]
    omega)
  have hend : regionEnd heapBase = region1End := if_neg (by decide)
  have hfit : ¬ (region1End < heapBase + alloc ∨ heapBase + alloc < heapBase) := by
    unfold heapBase region1End
    omega
  simp only [State.init, freeListTake, List.findIdx?_nil, hhop, hskip, hu, hend, hfit, if_false,
    Bool.not_true, Bool.false_eq_true]

theorem allocations_law (r : Request) :
    (∀ tr s, Run step Tame .init tr s → ∀ ok, Serves r s ok) ↔ r.Fits := by
  have hsize := r.size_bytes
  constructor
  · intro hall
    by_contra hfits
    unfold Request.Fits at hfits
    have hsmall : r.size.toNat ≤ 512 * 1024 * 1024 := by omega
    have hserves := hall [] .init .nil true
    have hgot : (r.serve .init true).2 = heapBase := by
      cases r with
      | view last offset size =>
        exact absurd (Or.inl (mapSize last offset size).isLt) hfits
      | malloc n | operatorNew n | heapAlloc n | calloc k n => exact init_serves hsmall
    rcases serve_serves init_bounded r true with h0 | ⟨-, b, hlive, -, -, hlen, -⟩
    · rw [hgot] at h0
      exact absurd h0 (by decide)
    rcases hserves with h0 | ⟨b', hlive', -, hbytes, -⟩
    · rw [hgot] at h0
      exact absurd h0 (by decide)
    obtain ⟨rfl, -⟩ := List.cons.inj (hlive.symm.trans hlive')
    omega
  · intro hfits tr s hrun ok
    rcases serve_serves (run_bounded hrun) r ok with h0 | ⟨hsmall, b, hlive, hstart, hlen, -, hin⟩
    · exact .inl h0
    · unfold Request.Fits at hfits
      exact .inr ⟨b, hlive, hstart, by omega, hin⟩

-- ---------------------------------------------------------------------------
-- Requests that are not served
-- ---------------------------------------------------------------------------

/-- The heap is filled to its end, and the pointer then taken past 4 GB. -/
def wrapped : List Call :=
  [.other 0x20000000 true, .other 0x20000000 true, .other 0x20000000 true, .other 0x1500000 true] ++
    List.replicate 16 (.commandLineToArgv true 0 true) ++ [.other 1 true]

theorem wrapped_runs : (exec step anyStep .init wrapped).any (fun r =>
    decide (((Request.malloc 1).serve r.2 true).2 = 0x1000)) = true := by decide +kernel

theorem not_serves (hlive : (r.serve s ok).1.live = b :: s.live) (h0 : (r.serve s ok).2 ≠ 0)
    (hlen : b.len < r.bytes) : ¬ Serves r s ok := by
  rintro (h | ⟨b', hlive', -, hbytes, -⟩)
  · exact h0 h
  · obtain ⟨rfl, -⟩ := List.cons.inj (hlive.symm.trans hlive')
    omega

/-- One page for more than 4 GB, twice; and a page outside of the regions. -/
theorem allocations_wrong :
    ¬ Serves (.malloc 0x100000001) .init true ∧
      ¬ Serves (.calloc 0x10000 0x10001) .init true ∧
        ∃ tr s, Run step anyStep .init tr s ∧ ¬ Serves (.malloc 1) s true := by
  refine ⟨not_serves (b := ⟨heapBase, 0x1000⟩) (by decide +kernel) (by decide +kernel) (by decide),
    not_serves (b := ⟨heapBase, 0x10000⟩) (by decide +kernel) (by decide +kernel) (by decide), ?_⟩
  obtain ⟨tr, s, hrun, h⟩ := Run.of_exec_any wrapped_runs
  have haddr : ((Request.malloc 1).serve s true).2 = 0x1000 := of_decide_eq_true h
  refine ⟨tr, s, hrun, ?_⟩
  rintro (h0 | ⟨b, -, hstart, -, hin⟩)
  · rw [haddr] at h0
    exact absurd h0 (by decide)
  · have hbase := hin.bounds.1
    rw [hstart, haddr] at hbase
    exact absurd hbase (by decide)

end WineGlass.AllocSizes
