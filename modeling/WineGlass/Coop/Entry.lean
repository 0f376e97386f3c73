import WineGlass.Coop.Slots
import WineGlass.Lib.Bits
import WineGlass.Lib.Fields

/-!
# Thread entry

What the first guest instruction of a new thread finds: the frame and the
registers that `wg_sched_create_thread` or `wg_worker_thread_entry` seed, and
the TEB that `wg_alloc_thread_teb` fills where the creation path asks for one.
Memory is bytes by address; the blocks `wg_guest_alloc` hands out are given,
apart from one another and from the stack.
-/

namespace WineGlass.Coop

open Runs Spans Fields

abbrev Mem := Nat → BitVec 8

/-- `realThread` is `CreateThread` where `wg_spawn_real_thread` succeeds. -/
inductive Path
  | createThread | realThread | beginthreadex | beginthread
  | queueUserWorkItem | submitThreadpoolWork
  deriving DecidableEq, Repr

/-- A creation as the guest asks for it; `wide` tells a 64-bit guest. -/
structure Spawn where
  path : Path
  wide : Bool
  start : U64
  param : U64
  flags : U32

/-- A 32-bit guest has 32-bit arguments. -/
def Spawn.Fits (s : Spawn) : Prop := s.wide = false → s.param.toNat < 2 ^ 32

/-- Handlers take their arguments as `uint32_t`. -/
def Spawn.start32 (s : Spawn) : U32 := s.start.setWidth 32
def Spawn.param32 (s : Spawn) : U32 := s.param.setWidth 32

def Spawn.creationFlags (s : Spawn) : U32 :=
  match s.path with
  | .createThread | .realThread | .beginthreadex => s.flags
  | .beginthread | .queueUserWorkItem | .submitThreadpoolWork => 0

def Path.GivesTeb : Path → Prop
  | .createThread | .realThread | .beginthreadex | .beginthread => True
  | .queueUserWorkItem | .submitThreadpoolWork => False

instance (p : Path) : Decidable p.GivesTeb := by
  cases p <;> unfold Path.GivesTeb <;> infer_instance

/-- The span of the stack that starts at `base`. -/
def stackSpan (base : U32) : Span := ⟨base.toNat, 0x100000⟩

/-- A TEB that some thread runs with: one in the table, or one of `real`. -/
def InUse (e : Engine) (real : List U64) (base : U64) : Prop :=
  base ∈ real ∨ ∃ i, e.state i ≠ .free ∧ (e.threads i).regs.fsBase = base

/-- What `wg_guest_alloc` hands out to `wg_alloc_thread_teb`, 0 where it fails,
and the `tpl` bytes of TLS template at `rawStart`, if the image has any. -/
structure Grants (e : Engine) (real : List U64) where
  teb : U32
  tlsArray : U32
  tlsData : U32
  tpl : Nat
  rawStart : Nat
  hasTls : Bool
  apart : teb ≠ 0 → tlsArray ≠ 0 → AllApart [stackSpan e.nextStackAddr, ⟨teb.toNat, 0x1000⟩,
    ⟨tlsArray.toNat, 0x400⟩, ⟨tlsData.toNat, if tlsData = 0 then 0 else tpl⟩]
  inHeap : teb ≠ 0 → 0x20000000 ≤ teb.toNat ∧ teb.toNat + 0x1000 ≤ 0xFFFF0000
  fresh : teb ≠ 0 → ¬ InUse e real (teb.setWidth 64)

variable {e : Engine} {real : List U64}

-- ---------------------------------------------------------------------------
-- The TEB
-- ---------------------------------------------------------------------------

def pointerSize (wide : Bool) : Nat := if wide then 8 else 4

/-- Offsets of the fields the TEB is read by. -/
def stackBaseOffset (wide : Bool) : Nat := if wide then 0x08 else 0x04
def stackLimitOffset (wide : Bool) : Nat := if wide then 0x10 else 0x08
def clientIdOffset (wide : Bool) : Nat := if wide then 0x48 else 0x24

/-- The fields of a TEB at `teb`, in the order they are written. -/
def tebWrites (wide : Bool) (teb tlsArray stackBase stackLimit tid peb : Nat) :
    List (Extent × Nat) :=
  if wide then
    [(⟨teb + 0x00, 8⟩, 0), (⟨teb + 0x08, 8⟩, stackBase), (⟨teb + 0x10, 8⟩, stackLimit),
      (⟨teb + 0x30, 8⟩, teb), (⟨teb + 0x40, 8⟩, 0x1000), (⟨teb + 0x48, 8⟩, tid),
      (⟨teb + 0x58, 8⟩, tlsArray), (⟨teb + 0x60, 8⟩, peb), (⟨teb + 0x68, 4⟩, 0)]
  else
    [(⟨teb + 0x00, 4⟩, 0xFFFFFFFF), (⟨teb + 0x04, 4⟩, stackBase), (⟨teb + 0x08, 4⟩, stackLimit),
      (⟨teb + 0x18, 4⟩, teb), (⟨teb + 0x20, 4⟩, 0x1000), (⟨teb + 0x24, 4⟩, tid),
      (⟨teb + 0x2C, 4⟩, tlsArray), (⟨teb + 0x30, 4⟩, peb), (⟨teb + 0x34, 4⟩, 0)]

/-- The copy of the TLS template, and slot 0 of the TLS array. -/
def tlsWrites (wide : Bool) (g : Grants e real) (m : Mem) : List (Extent × Nat) :=
  (if g.tlsData ≠ 0 ∧ 0 < g.tpl then
    [(⟨g.tlsData.toNat, g.tpl⟩, get m ⟨g.rawStart, g.tpl⟩)] else []) ++
  if wide || g.hasTls then [(⟨g.tlsArray.toNat, pointerSize wide⟩, g.tlsData.toNat)] else []

def pebOffset (wide : Bool) : Nat := if wide then 0x60 else 0x30

/-- `wg_alloc_thread_teb`; `mainTeb` is 0 where there is no image either. -/
def allocThreadTeb (wide : Bool) (m : Mem) (mainTeb : U32) (g : Grants e real)
    (stackBase stackLimit tid : U32) : U32 × Mem :=
  if mainTeb = 0 ∨ g.teb = 0 ∨ g.tlsArray = 0 then (0, m)
  else
    let peb := get m ⟨mainTeb.toNat + pebOffset wide, pointerSize wide⟩
    let m := setAll m (tebWrites wide g.teb.toNat g.tlsArray.toNat stackBase.toNat
      stackLimit.toNat tid.toNat peb)
    (g.teb, setAll m (tlsWrites wide g m))

-- ---------------------------------------------------------------------------
-- Frames
-- ---------------------------------------------------------------------------

/-- What the first instruction of the thread finds. -/
structure Entry where
  mem : Mem
  machine : Machine
  tid : U32
  stack : Span

/-- `(top - 0x100) & ~0xF`. -/
def frameTop (top : U32) : U32 := (top - 0x100) &&& ~~~0xF

/-- A cooperative thread, as `wg_sched_create_thread` and the handler leave it. -/
def coopEntry (e : Engine) (m : Mem) (mainTeb : U32) (s : Spawn) (g : Grants e real) :
    Option Entry :=
  match e.freeSlot with
  | none => none
  | some i =>
    let base := e.nextStackAddr
    let sp := entrySp base
    let m := set m ⟨base.toNat, 0x100000⟩ 0
    let m := set (set m ⟨sp.toNat, 4⟩ 0) ⟨(sp + 4).toNat, 4⟩ s.param32.toNat
    let r := if s.path.GivesTeb then
        let r := allocThreadTeb s.wide m mainTeb g (base + threadStack) base e.nextId
        (some r.1, r.2)
      else (none, m)
    let t := (create e s.start32 s.param32 s.creationFlags r.1).2.threads i
    some ⟨r.2, restoreRegs t.regs, t.id, ⟨t.stackBase.toNat, t.stackSize.toNat⟩⟩

/-- `wg_spawn_real_thread` and `wg_worker_thread_entry`; `m₀` is a new machine. -/
def realEntry (e : Engine) (m : Mem) (mainTeb : U32) (s : Spawn) (g : Grants e real)
    (m₀ : Machine) : Entry :=
  let base := e.nextStackAddr
  let top := base + threadStack
  let m := set m ⟨base.toNat, 0x100000⟩ 0
  let r := allocThreadTeb s.wide m mainTeb g top base e.nextId
  if s.wide then
    let sp := frameTop top - 8
    ⟨set r.2 ⟨sp.toNat, 8⟩ 0,
      { m₀ with
        weg := (m₀.weg.set 4 (sp.setWidth 64)).set 1 (s.param32.setWidth 64)
        gs := r.1.setWidth 64
        ip := s.start32.setWidth 64 }, e.nextId, stackSpan base⟩
  else
    let sp := frameTop top
    ⟨set (set r.2 ⟨sp.toNat, 4⟩ 0) ⟨(sp + 4).toNat, 4⟩ s.param32.toNat,
      { m₀ with
        weg := (m₀.weg.set 4 (sp.setWidth 64)).set 5 (sp.setWidth 64)
        fs := r.1.setWidth 64
        ip := s.start32.setWidth 64 }, e.nextId, stackSpan base⟩

def entry (e : Engine) (m : Mem) (mainTeb : U32) (s : Spawn) (g : Grants e real)
    (m₀ : Machine) : Option Entry :=
  match s.path with
  | .realThread => some (realEntry e m mainTeb s g m₀)
  | .createThread | .beginthreadex | .beginthread => coopEntry e m mainTeb s g
  | .queueUserWorkItem | .submitThreadpoolWork =>
    if s.start32 = 0 then none else coopEntry e m mainTeb s g

-- ---------------------------------------------------------------------------
-- The contract
-- ---------------------------------------------------------------------------

/-- Where the thread's TEB is. -/
def Entry.base (x : Entry) (wide : Bool) : U64 := if wide then x.machine.gs else x.machine.fs

def Entry.sp (x : Entry) : Nat := x.machine.weg[4].toNat

def Entry.tebField (x : Entry) (wide : Bool) (offset : Nat) : Nat :=
  get x.mem ⟨(x.base wide).toNat + offset, pointerSize wide⟩

structure Contract (e : Engine) (real : List U64) (s : Spawn) (x : Entry) : Prop where
  returnAddress : get x.mem ⟨x.sp, pointerSize s.wide⟩ = 0
  argument : if s.wide then x.machine.weg[1] = s.param
    else get x.mem ⟨x.sp + 4, 4⟩ = s.param.toNat
  aligned : s.wide = true → x.sp % 16 = 8
  teb : x.base s.wide ≠ 0
  own : ¬ InUse e real (x.base s.wide)
  clientId : x.tebField s.wide (clientIdOffset s.wide) = x.tid.toNat
  stackLimit : x.tebField s.wide (stackLimitOffset s.wide) ≤ x.stack.start
  stackBase : x.stack.stop ≤ x.tebField s.wide (stackBaseOffset s.wide)

/-- The path allocates a TEB, of the guest's kind, and what it is given fits. -/
structure Suits (e : Engine) (mainTeb : U32) (s : Spawn) (g : Grants e real) : Prop where
  path : if s.wide then s.path = .realThread else s.path.GivesTeb
  param : s.param.toNat < 2 ^ 32
  teb : mainTeb ≠ 0 ∧ g.teb ≠ 0 ∧ g.tlsArray ≠ 0
  stack : e.nextStackAddr.toNat + 0x100000 < 2 ^ 32

-- ---------------------------------------------------------------------------
-- Fields of blocks
-- ---------------------------------------------------------------------------

def Inside (f : Extent) (a : Span) : Prop := a.start ≤ f.start ∧ f.start + f.width ≤ a.stop

theorem apart_inside (h : Apart a b) (hf : Inside f a) (hg : Inside g b) : Extent.Apart f g := by
  obtain ⟨hf, hf'⟩ := hf
  obtain ⟨hg, hg'⟩ := hg
  rcases h with h | h
  · exact .inl (by omega)
  · exact .inr (by omega)

theorem tebWrites_inside {w : Extent × Nat} (h : w ∈ tebWrites wide teb tlsArray top bottom tid peb) :
    Inside w.1 ⟨teb, 0x1000⟩ := by
  cases wide with
  | true =>
    simp only [tebWrites, ↓reduceIte, List.mem_cons, List.not_mem_nil, or_false] at h
    rcases h with rfl | rfl | rfl | rfl | rfl | rfl | rfl | rfl | rfl
    all_goals exact ⟨Nat.le_add_right .., by simp [Span.stop]⟩
  | false =>
    simp only [tebWrites, Bool.false_eq_true, ↓reduceIte, List.mem_cons, List.not_mem_nil,
      or_false] at h
    rcases h with rfl | rfl | rfl | rfl | rfl | rfl | rfl | rfl | rfl
    all_goals exact ⟨Nat.le_add_right .., by simp [Span.stop]⟩

theorem tebWrites_apart : (tebWrites wide teb tlsArray top bottom tid peb).Pairwise
    fun a b => Extent.Apart a.1 b.1 := by
  -- The fields come in the order of their offsets.
  have hsorted : ((tebWrites wide teb tlsArray top bottom tid peb).map Prod.fst).IsChain
      fun a b => a.start + a.width ≤ b.start := by
    cases wide with
    | true => simp [tebWrites]
    | false => simp [tebWrites]
  have htrans : @Trans Extent Extent Extent (fun a b => a.start + a.width ≤ b.start)
      (fun a b => a.start + a.width ≤ b.start) fun a b => a.start + a.width ≤ b.start :=
    ⟨fun h h' => Nat.le_trans (Nat.le_trans h (Nat.le_add_right ..)) h'⟩
  exact (List.pairwise_map.1 hsorted.pairwise).imp .inl

theorem tlsWrites_inside {g : Grants e real} {w : Extent × Nat} (h : w ∈ tlsWrites wide g m) :
    Inside w.1 ⟨g.tlsArray.toNat, 0x400⟩ ∨
    Inside w.1 ⟨g.tlsData.toNat, if g.tlsData = 0 then 0 else g.tpl⟩ := by
  rcases List.mem_append.1 h with h | h
  · split at h
    · rename_i hd
      obtain rfl := List.mem_singleton.1 h
      rw [if_neg hd.1]
      exact .inr ⟨Nat.le_refl _, Nat.le_refl _⟩
    · cases h
  · split at h
    · obtain rfl := List.mem_singleton.1 h
      refine .inl ⟨Nat.le_refl _, ?_⟩
      cases wide <;> simp [pointerSize, Span.stop]
    · cases h

/-- What a TEB allocated with success holds, and what it leaves alone. -/
structure Filling (wide : Bool) (m : Mem) (g : Grants e real) (top bottom tid : U32)
    (r : U32 × Mem) : Prop where
  teb : r.1 = g.teb
  clientId : get r.2 ⟨g.teb.toNat + clientIdOffset wide, pointerSize wide⟩ = tid.toNat
  stackLimit : get r.2 ⟨g.teb.toNat + stackLimitOffset wide, pointerSize wide⟩ = bottom.toNat
  stackBase : get r.2 ⟨g.teb.toNat + stackBaseOffset wide, pointerSize wide⟩ = top.toNat
  stack (f : Extent) : Inside f (stackSpan e.nextStackAddr) → get r.2 f = get m f

theorem allocThreadTeb_filling (wide : Bool) (m : Mem) {g : Grants e real} (top bottom tid : U32)
    (h : mainTeb ≠ 0 ∧ g.teb ≠ 0 ∧ g.tlsArray ≠ 0) :
    Filling wide m g top bottom tid (allocThreadTeb wide m mainTeb g top bottom tid) := by
  obtain ⟨hmain, hteb, harray⟩ := h
  have hap := g.apart hteb harray
  simp only [AllApart, List.pairwise_cons, List.mem_cons, List.not_mem_nil, or_false,
    forall_eq_or_imp, forall_eq] at hap
  obtain ⟨⟨hst, hsa, hsd⟩, ⟨hta, htd⟩, -⟩ := hap
  have hptr : ∀ x : U32, x.toNat % 256 ^ pointerSize wide = x.toNat := by
    intro x
    have hx := x.isLt
    cases wide <;> simp [pointerSize] <;> omega
  unfold allocThreadTeb
  rw [if_neg (not_or.2 ⟨hmain, not_or.2 ⟨hteb, harray⟩⟩)]
  dsimp only
  generalize get m ⟨mainTeb.toNat + pebOffset wide, pointerSize wide⟩ = peb
  -- The TLS block and array are no part of the TEB, so its fields stay.
  have hfield : ∀ w ∈ tebWrites wide g.teb.toNat g.tlsArray.toNat top.toNat bottom.toNat
      tid.toNat peb, ∀ m', get (setAll (setAll m (tebWrites wide g.teb.toNat g.tlsArray.toNat
        top.toNat bottom.toNat tid.toNat peb)) (tlsWrites wide g m')) w.1 =
      w.2 % 256 ^ w.1.width := by
    intro w hw m'
    refine (get_setAll_apart fun x hx => ?_).trans (get_setAll tebWrites_apart hw)
    rcases tlsWrites_inside hx with hx | hx
    · exact apart_inside hta.symm hx (tebWrites_inside hw)
    · exact apart_inside htd.symm hx (tebWrites_inside hw)
  refine ⟨rfl, ?_, ?_, ?_, fun f hf => ?_⟩
  · refine (hfield (⟨_, _⟩, tid.toNat) ?_ _).trans (hptr tid)
    cases wide <;> simp [tebWrites, clientIdOffset, pointerSize]
  · refine (hfield (⟨_, _⟩, bottom.toNat) ?_ _).trans (hptr bottom)
    cases wide <;> simp [tebWrites, stackLimitOffset, pointerSize]
  · refine (hfield (⟨_, _⟩, top.toNat) ?_ _).trans (hptr top)
    cases wide <;> simp [tebWrites, stackBaseOffset, pointerSize]
  · refine (get_setAll_apart fun x hx => ?_).trans (get_setAll_apart fun x hx => ?_)
    · rcases tlsWrites_inside hx with hx | hx
      · exact apart_inside hsa.symm hx hf
      · exact apart_inside hsd.symm hx hf
    · exact apart_inside hst.symm (tebWrites_inside hx) hf

theorem allocThreadTeb_none {g : Grants e real} (h : ¬(mainTeb ≠ 0 ∧ g.teb ≠ 0 ∧ g.tlsArray ≠ 0)) :
    (allocThreadTeb wide m mainTeb g top bottom tid).1 = 0 := by
  unfold allocThreadTeb
  rw [if_pos]
  by_contra hno
  simp only [not_or] at hno
  exact h hno

-- ---------------------------------------------------------------------------
-- The stack pointer
-- ---------------------------------------------------------------------------

theorem frameTop_toNat (top : U32) :
    (frameTop top).toNat = (2 ^ 32 - 0x100 + top.toNat) % 2 ^ 32 / 16 * 16 := by
  have h := Bits.and_not_lowMask (top - 0x100) 4
  rw [BitVec.toNat_sub] at h
  exact h

theorem frameTop_sub (top : U32) :
    (frameTop top - 8).toNat = (2 ^ 32 - 8 + (frameTop top).toNat) % 2 ^ 32 := by
  rw [BitVec.toNat_sub]
  rfl

theorem frame_aligned (top : U32) : (frameTop top - 8).toNat % 16 = 8 := by
  have h := frameTop_toNat top
  have h' := frameTop_sub top
  omega

theorem top_toNat (base : U32) : (base + threadStack).toNat = (base.toNat + 0x100000) % 2 ^ 32 :=
  BitVec.toNat_add ..

/-- A frame on a stack that ends below `2 ^ 32` is inside it. -/
theorem frame_inside {base : U32} (h : base.toNat + 0x100000 < 2 ^ 32) :
    let sp := frameTop (base + threadStack)
    base.toNat + 8 ≤ sp.toNat ∧ sp.toNat + 8 ≤ base.toNat + 0x100000 ∧
      (sp - 8).toNat = sp.toNat - 8 := by
  have h1 := top_toNat base
  have h2 := frameTop_toNat (base + threadStack)
  have h3 := frameTop_sub (base + threadStack)
  dsimp only
  omega

/-- A frame on a stack that wraps is off the heap. -/
theorem frame_wrapped {base : U32} (h : 2 ^ 32 ≤ base.toNat + 0x100000) :
    (frameTop (base + threadStack) - 8).toNat + 8 ≤ 0x20000000 ∨
    0xFFFF0000 ≤ (frameTop (base + threadStack) - 8).toNat := by
  have hlt := base.isLt
  have h1 := top_toNat base
  have h2 := frameTop_toNat (base + threadStack)
  have h3 := frameTop_sub (base + threadStack)
  omega

theorem frame_apart_teb {g : Grants e real} {f : Extent} (ht : g.teb ≠ 0) (ha : g.tlsArray ≠ 0)
    (hf : Inside f ⟨g.teb.toNat, 0x1000⟩) :
    Extent.Apart ⟨(frameTop (e.nextStackAddr + threadStack) - 8).toNat, 8⟩ f := by
  by_cases h : e.nextStackAddr.toNat + 0x100000 < 2 ^ 32
  · have hap := (List.pairwise_cons.1 (g.apart ht ha)).1 _ List.mem_cons_self
    refine apart_inside hap ?_ hf
    obtain ⟨hlo, hhi, heq⟩ := frame_inside h
    constructor
    · simp only [stackSpan]
      omega
    · simp only [stackSpan, Span.stop]
      omega
  · have hheap := g.inHeap ht
    obtain ⟨hlo, hhi⟩ := hf
    simp only [Span.stop] at hlo hhi
    unfold Extent.Apart
    dsimp only
    rcases frame_wrapped (not_lt.1 h) with hw | hw
    · omega
    · omega

theorem field_inside (wide : Bool) (teb : Nat) :
    Inside ⟨teb + clientIdOffset wide, pointerSize wide⟩ ⟨teb, 0x1000⟩ ∧
    Inside ⟨teb + stackLimitOffset wide, pointerSize wide⟩ ⟨teb, 0x1000⟩ ∧
    Inside ⟨teb + stackBaseOffset wide, pointerSize wide⟩ ⟨teb, 0x1000⟩ := by
  refine ⟨⟨Nat.le_add_right .., ?_⟩, ⟨Nat.le_add_right .., ?_⟩, Nat.le_add_right .., ?_⟩
  all_goals cases wide <;> simp [Span.stop, clientIdOffset, stackLimitOffset, stackBaseOffset,
    pointerSize]

theorem widen_inj {x : U32} : x.setWidth 64 ≠ (0 : U64) ↔ x ≠ 0 := by
  rw [not_iff_not]
  constructor
  · intro h
    have hn := congrArg BitVec.toNat h
    have hx := x.isLt
    apply BitVec.eq_of_toNat_eq
    simp at hn ⊢
    omega
  · rintro rfl
    rfl

theorem narrow_eq {x : U64} : (x.setWidth 32).setWidth 64 = x ↔ x.toNat < 2 ^ 32 := by
  constructor
  · intro h
    rw [← h]
    simp
    omega
  · exact Bits.narrow_lt

/-- A stack that wraps ends above every 32-bit bound. -/
theorem stack_fits {top : U32} (h : (stackSpan base).stop ≤ top.toNat) :
    base.toNat + 0x100000 < 2 ^ 32 := by
  have := top.isLt
  simp only [stackSpan, Span.stop] at h
  omega

theorem widen_toNat (x : U32) : (x.setWidth 64).toNat = x.toNat := by
  have := x.isLt
  simp
  omega

theorem seed_sp (weg : Vector U64 16) (sp v : U64) :
    ((weg.set 4 sp).set 1 v)[4] = sp ∧ ((weg.set 4 sp).set 5 v)[4] = sp := by
  constructor <;> simp

theorem realEntry_wide (m₀ : Machine) (hw : s.wide = true) (hp : s.path = .realThread)
    (g : Grants e real) :
    Contract e real s (realEntry e m mainTeb s g m₀) ↔ Suits e mainTeb s g := by
  let x := realEntry e m mainTeb s g m₀
  change Contract e real s x ↔ _
  obtain ⟨r, hr⟩ : ∃ r, allocThreadTeb true (set m ⟨e.nextStackAddr.toNat, 0x100000⟩ 0) mainTeb g
    (e.nextStackAddr + threadStack) e.nextStackAddr e.nextId = r := ⟨_, rfl⟩
  have hmem : x.mem = set r.2 ⟨(frameTop (e.nextStackAddr + threadStack) - 8).toNat, 8⟩ 0 := by
    simp only [x, realEntry, hw, hr, ↓reduceIte]
  have hsp : x.sp = (frameTop (e.nextStackAddr + threadStack) - 8).toNat := by
    simp only [x, realEntry, hw, ↓reduceIte, Entry.sp, seed_sp]
    exact widen_toNat _
  have hcx : x.machine.weg[1] = s.param32.setWidth 64 := by
    simp only [x, realEntry, hw, ↓reduceIte, Vector.getElem_set_self]
  have hbase : x.base true = r.1.setWidth 64 := by
    simp only [x, realEntry, hw, Entry.base, hr, ↓reduceIte]
  have htid : x.tid = e.nextId := by simp only [x, realEntry, hw, ↓reduceIte]
  have hstack : x.stack = stackSpan e.nextStackAddr := by simp only [x, realEntry, hw, ↓reduceIte]
  by_cases ht : mainTeb ≠ 0 ∧ g.teb ≠ 0 ∧ g.tlsArray ≠ 0
  · have hf := hr ▸ allocThreadTeb_filling true (set m ⟨e.nextStackAddr.toNat, 0x100000⟩ 0)
      (e.nextStackAddr + threadStack) e.nextStackAddr e.nextId ht
    rw [hf.teb] at hbase
    have hbn : (x.base true).toNat = g.teb.toNat := hbase ▸ widen_toNat _
    obtain ⟨hc, hl, hb⟩ := field_inside true g.teb.toNat
    -- The frame is written after the TEB and off it.
    have hclient : x.tebField true (clientIdOffset true) = e.nextId.toNat := by
      rw [Entry.tebField, hbn, hmem, get_set_apart (frame_apart_teb ht.2.1 ht.2.2 hc), hf.clientId]
    have hlimit : x.tebField true (stackLimitOffset true) = e.nextStackAddr.toNat := by
      rw [Entry.tebField, hbn, hmem, get_set_apart (frame_apart_teb ht.2.1 ht.2.2 hl),
        hf.stackLimit]
    have htop : x.tebField true (stackBaseOffset true) =
        (e.nextStackAddr + threadStack).toNat := by
      rw [Entry.tebField, hbn, hmem, get_set_apart (frame_apart_teb ht.2.1 ht.2.2 hb),
        hf.stackBase]
    constructor
    · intro h
      have harg := h.argument
      have hst := h.stackBase
      rw [if_pos hw, hcx] at harg
      rw [hw, htop, hstack] at hst
      exact ⟨by rw [if_pos hw, hp], narrow_eq.1 harg, ht, stack_fits hst⟩
    · intro h
      have htn := top_toNat e.nextStackAddr
      have hfit := h.stack
      refine ⟨?_, ?_, fun _ => hsp ▸ frame_aligned _, ?_, ?_, ?_, ?_, ?_⟩
      all_goals rw [hw]
      · rw [hmem, hsp]
        exact get_set
      · exact hcx.trans (narrow_eq.2 h.param)
      · exact hbase ▸ widen_inj.2 ht.2.1
      · exact hbase ▸ g.fresh ht.2.1
      · rw [hclient, htid]
      · rw [hlimit, hstack]
        exact Nat.le_refl _
      · rw [htop, hstack]
        simp only [stackSpan, Span.stop]
        omega
  · have h0 : r.1 = 0 := hr ▸ allocThreadTeb_none ht
    refine iff_of_false (fun h => h.teb ?_) fun h => ht h.teb
    rw [hw, hbase, h0]
    rfl

/-- The frame of a 32-bit thread, read after it is written. -/
theorem get_frame {sp : U32} {v : U64} (hsp : sp.toNat + 8 < 2 ^ 32) (hv : v.toNat < 2 ^ 32) :
    let m' := set (set m ⟨sp.toNat, 4⟩ 0) ⟨(sp + 4).toNat, 4⟩ (v.setWidth 32 : U32).toNat
    get m' ⟨sp.toNat, 4⟩ = 0 ∧ get m' ⟨sp.toNat + 4, 4⟩ = v.toNat := by
  have hadd : (sp + 4).toNat = sp.toNat + 4 := by
    rw [BitVec.toNat_add]
    exact Nat.mod_eq_of_lt (by simp; omega)
  have hnarrow : (v.setWidth 32 : U32).toNat = v.toNat := by
    rw [BitVec.toNat_setWidth]
    exact Nat.mod_eq_of_lt hv
  dsimp only
  rw [hadd, hnarrow]
  constructor
  · rw [get_set_apart (.inr (Nat.le_refl _)), get_set]
    rfl
  · rw [get_set]
    exact Nat.mod_eq_of_lt hv

/-- Both words of either builder's frame are on a stack that does not wrap. -/
theorem frame_on_stack {base sp : U32} (h : base.toNat + 0x100000 < 2 ^ 32)
    (hsp : sp = frameTop (base + threadStack) ∨ sp = frameTop (base + threadStack) - 8) :
    sp.toNat + 8 < 2 ^ 32 ∧ Inside ⟨sp.toNat, 4⟩ (stackSpan base) ∧
      Inside ⟨(sp + 4).toNat, 4⟩ (stackSpan base) := by
  obtain ⟨hlo, hhi, hsub⟩ := frame_inside h
  have hbounds : base.toNat ≤ sp.toNat ∧ sp.toNat + 8 ≤ base.toNat + 0x100000 := by
    rcases hsp with rfl | rfl <;> omega
  have hadd : (sp + 4).toNat = sp.toNat + 4 := by
    rw [BitVec.toNat_add]
    exact Nat.mod_eq_of_lt (by simp; omega)
  simp only [Inside, stackSpan, Span.stop, hadd]
  omega

/-- What the two builders of a 32-bit frame have in common, where the stack
does not wrap. -/
structure Seeded (s : Spawn) (g : Grants e real) (x : Entry) : Prop where
  base : x.base false = g.teb.setWidth 64
  tid : x.tid = e.nextId
  stack : x.stack = stackSpan e.nextStackAddr
  frame : e.nextStackAddr.toNat + 0x100000 < 2 ^ 32 →
    get x.mem ⟨x.sp, 4⟩ = 0 ∧ get x.mem ⟨x.sp + 4, 4⟩ = s.param.toNat
  clientId : e.nextStackAddr.toNat + 0x100000 < 2 ^ 32 →
    x.tebField false (clientIdOffset false) = e.nextId.toNat
  stackLimit : e.nextStackAddr.toNat + 0x100000 < 2 ^ 32 →
    x.tebField false (stackLimitOffset false) = e.nextStackAddr.toNat
  stackBase : e.nextStackAddr.toNat + 0x100000 < 2 ^ 32 →
    x.tebField false (stackBaseOffset false) = (e.nextStackAddr + threadStack).toNat

theorem Seeded.contract {g : Grants e real} (h : Seeded s g x) (hw : s.wide = false)
    (hs : s.Fits) (hp : s.path.GivesTeb) (ht : mainTeb ≠ 0 ∧ g.teb ≠ 0 ∧ g.tlsArray ≠ 0) :
    Contract e real s x ↔ Suits e mainTeb s g := by
  constructor
  · intro hc
    refine ⟨by simpa [hw] using hp, hs hw, ht, ?_⟩
    -- No 32-bit field bounds a stack that wraps.
    have hst := hc.stackBase
    rw [hw, h.stack] at hst
    have hlt : x.tebField false (stackBaseOffset false) < 2 ^ 32 := get_lt
    simp only [stackSpan, Span.stop] at hst
    omega
  · intro hsuit
    have hfit := hsuit.stack
    have htn := top_toNat e.nextStackAddr
    obtain ⟨hret, harg⟩ := h.frame hfit
    refine ⟨?_, ?_, ?_, ?_, ?_, ?_, ?_, ?_⟩
    all_goals rw [hw]
    · exact hret
    · exact harg
    · nofun
    · exact h.base ▸ widen_inj.2 ht.2.1
    · exact h.base ▸ g.fresh ht.2.1
    · rw [h.clientId hfit, h.tid]
    · rw [h.stackLimit hfit, h.stack]
      exact Nat.le_refl _
    · rw [h.stackBase hfit, h.stack]
      simp only [stackSpan, Span.stop]
      omega

theorem realEntry_narrow (m₀ : Machine) (hw : s.wide = false) (hp : s.path = .realThread)
    (hs : s.Fits) (g : Grants e real) :
    Contract e real s (realEntry e m mainTeb s g m₀) ↔ Suits e mainTeb s g := by
  let x := realEntry e m mainTeb s g m₀
  change Contract e real s x ↔ _
  obtain ⟨r, hr⟩ : ∃ r, allocThreadTeb false (set m ⟨e.nextStackAddr.toNat, 0x100000⟩ 0) mainTeb g
    (e.nextStackAddr + threadStack) e.nextStackAddr e.nextId = r := ⟨_, rfl⟩
  let sp := frameTop (e.nextStackAddr + threadStack)
  have hmem : x.mem = set (set r.2 ⟨sp.toNat, 4⟩ 0) ⟨(sp + 4).toNat, 4⟩ s.param32.toNat := by
    simp only [x, realEntry, hw, hr, sp, Bool.false_eq_true, ↓reduceIte]
  have hsp : x.sp = sp.toNat := by
    simp only [x, realEntry, hw, Bool.false_eq_true, ↓reduceIte, Entry.sp, seed_sp]
    exact widen_toNat _
  have hbase : x.base false = r.1.setWidth 64 := by
    simp only [x, realEntry, hw, Entry.base, hr, Bool.false_eq_true, ↓reduceIte]
  by_cases ht : mainTeb ≠ 0 ∧ g.teb ≠ 0 ∧ g.tlsArray ≠ 0
  · have hf := hr ▸ allocThreadTeb_filling false (set m ⟨e.nextStackAddr.toNat, 0x100000⟩ 0)
      (e.nextStackAddr + threadStack) e.nextStackAddr e.nextId ht
    rw [hf.teb] at hbase
    have hbn : (x.base false).toNat = g.teb.toNat := hbase ▸ widen_toNat _
    obtain ⟨hc, hl, hb⟩ := field_inside false g.teb.toNat
    -- The frame is on the stack, so the TEB's fields stay.
    have hfield : ∀ f, e.nextStackAddr.toNat + 0x100000 < 2 ^ 32 →
        Inside f ⟨g.teb.toNat, 0x1000⟩ → get x.mem f = get r.2 f := by
      intro f hfit hin
      have hap := (List.pairwise_cons.1 (g.apart ht.2.1 ht.2.2)).1 _ List.mem_cons_self
      obtain ⟨-, hret, harg⟩ := frame_on_stack hfit (.inl (Eq.refl sp))
      rw [hmem, get_set_apart (apart_inside hap harg hin),
        get_set_apart (apart_inside hap hret hin)]
    refine Seeded.contract ⟨hbase, ?_, ?_, fun hfit => ?_, fun hfit => ?_, fun hfit => ?_,
      fun hfit => ?_⟩ hw hs (by simp [hp, Path.GivesTeb]) ht
    · simp only [x, realEntry, hw, Bool.false_eq_true, ↓reduceIte]
    · simp only [x, realEntry, hw, Bool.false_eq_true, ↓reduceIte]
    · rw [hsp, hmem]
      exact get_frame (frame_on_stack hfit (.inl (Eq.refl sp))).1 (hs hw)
    · rw [Entry.tebField, hbn, hfield _ hfit hc, hf.clientId]
    · rw [Entry.tebField, hbn, hfield _ hfit hl, hf.stackLimit]
    · rw [Entry.tebField, hbn, hfield _ hfit hb, hf.stackBase]
  · have h0 : r.1 = 0 := hr ▸ allocThreadTeb_none ht
    refine iff_of_false (fun h => h.teb ?_) fun h => ht h.teb
    rw [hw, hbase, h0]
    rfl

-- ---------------------------------------------------------------------------
-- Cooperative threads
-- ---------------------------------------------------------------------------

/-- Memory once the stack is mapped and the frame written on it. -/
def coopFrame (e : Engine) (m : Mem) (s : Spawn) : Mem :=
  set (set (set m ⟨e.nextStackAddr.toNat, 0x100000⟩ 0) ⟨(entrySp e.nextStackAddr).toNat, 4⟩ 0)
    ⟨(entrySp e.nextStackAddr + 4).toNat, 4⟩ s.param32.toNat

/-- The TEB a path asks for, and the memory it leaves. -/
def coopTeb (e : Engine) (m : Mem) (mainTeb : U32) (s : Spawn) (g : Grants e real) :
    Option U32 × Mem :=
  if s.path.GivesTeb then
    let r := allocThreadTeb s.wide (coopFrame e m s) mainTeb g (e.nextStackAddr + threadStack)
      e.nextStackAddr e.nextId
    (some r.1, r.2)
  else (none, coopFrame e m s)

theorem coopEntry_eq (h : Numbered e k) {g : Grants e real}
    (hx : coopEntry e m mainTeb s g = some x) :
    let r := coopTeb e m mainTeb s g
    let t := (e.newThread s.start32 s.param32 s.creationFlags).given r.1
    x = ⟨r.2, restoreRegs t.regs, t.id, ⟨t.stackBase.toNat, t.stackSize.toNat⟩⟩ := by
  unfold coopEntry at hx
  cases hi : e.freeSlot with
  | none => simp [hi] at hx
  | some i =>
    obtain ⟨hk, heq⟩ | ⟨rfl, -⟩ := h.create_eq s.start32 s.param32 s.creationFlags
      (coopTeb e m mainTeb s g).1
    · obtain rfl : ⟨k + 1, hk⟩ = i := Option.some.inj ((h.freeSlot hk).symm.trans hi)
      simp only [hi] at hx
      refine (Option.some.inj hx).symm.trans ?_
      have ht := congrArg (fun r => r.2.threads ⟨k + 1, hk⟩) heq
      rw [enroll_self] at ht
      rw [← ht]
      rfl
    · rw [h.full] at hi
      cases hi

/-- A thread that gets no TEB runs on its creator's. -/
theorem creatorFs_shared {x : Entry} (h : Settled e) (hx : x.base wide = e.creatorFs) :
    x.base wide = 0 ∨ InUse e real (x.base wide) := by
  cases hc : e.current with
  | none => exact .inl (by simp [hx, Engine.creatorFs, hc])
  | some i => exact .inr (.inr ⟨i, h i hc, by simp [hx, Engine.creatorFs, hc]⟩)

theorem coopEntry_law (h : Numbered e k) (hs : s.Fits) (hp : s.path ≠ .realThread)
    (g : Grants e real) (hx : coopEntry e m mainTeb s g = some x) :
    Contract e real s x ↔ Suits e mainTeb s g := by
  have heq := coopEntry_eq h hx
  cases hw : s.wide with
  | true =>
    -- No GS base is ever set.
    have hgs : x.base true = 0 := by
      rw [heq, Entry.base, if_pos rfl]
      unfold Thread.given
      split
      · rfl
      split <;> rfl
    refine iff_of_false (fun hc => hc.teb (hw ▸ hgs)) fun hc => hp ?_
    simpa [hw] using hc.path
  | false =>
    by_cases hteb : s.path.GivesTeb ∧ mainTeb ≠ 0 ∧ g.teb ≠ 0 ∧ g.tlsArray ≠ 0
    · obtain ⟨hgive, ht⟩ := hteb
      obtain ⟨r, hr⟩ : ∃ r, allocThreadTeb false (coopFrame e m s) mainTeb g
        (e.nextStackAddr + threadStack) e.nextStackAddr e.nextId = r := ⟨_, rfl⟩
      have hf := hr ▸ allocThreadTeb_filling false (coopFrame e m s)
        (e.nextStackAddr + threadStack) e.nextStackAddr e.nextId ht
      have hcoop : coopTeb e m mainTeb s g = (some g.teb, r.2) := by
        simp [coopTeb, hgive, hw, hf.teb, hr]
      simp only [hcoop, Thread.given, if_neg ht.2.1] at heq
      have hmem : x.mem = r.2 := by rw [heq]
      have hsp : x.sp = (entrySp e.nextStackAddr).toNat := by
        rw [heq]
        exact widen_toNat _
      have hbase : x.base false = g.teb.setWidth 64 := by
        rw [heq]
        rfl
      have hbn : (x.base false).toNat = g.teb.toNat := hbase ▸ widen_toNat _
      refine Seeded.contract ⟨hbase, ?_, ?_, fun hfit => ?_, fun _ => ?_, fun _ => ?_, fun _ => ?_⟩
        hw hs hgive ht
      · rw [heq]
        rfl
      · rw [heq]
        rfl
      -- The TEB is filled after the frame is written, off the stack.
      · obtain ⟨hlt, hret, harg⟩ := frame_on_stack hfit (.inr (Eq.refl (entrySp e.nextStackAddr)))
        have hadd : (entrySp e.nextStackAddr + 4).toNat = x.sp + 4 := by
          rw [hsp, BitVec.toNat_add]
          exact Nat.mod_eq_of_lt (by simp; omega)
        rw [← hsp] at hlt hret
        rw [hadd] at harg
        rw [hmem, hf.stack _ hret, hf.stack _ harg, hsp]
        exact get_frame (hsp ▸ hlt) (hs hw)
      · rw [Entry.tebField, hbn, hmem]
        exact hf.clientId
      · rw [Entry.tebField, hbn, hmem]
        exact hf.stackLimit
      · rw [Entry.tebField, hbn, hmem]
        exact hf.stackBase
    · have hnone : (coopTeb e m mainTeb s g).1 = none ∨ (coopTeb e m mainTeb s g).1 = some 0 := by
        unfold coopTeb
        split
        · rename_i hgive
          exact .inr (congrArg some (allocThreadTeb_none fun ht => hteb ⟨hgive, ht⟩))
        · exact .inl rfl
      have hfs : x.base false = e.creatorFs := by
        rw [heq]
        rcases hnone with h0 | h0
        all_goals
          rw [h0]
          rfl
      refine iff_of_false (fun hc => ?_) fun hc => hteb ⟨?_, hc.teb⟩
      · rcases creatorFs_shared h.settled hfs with h0 | huse
        · exact hc.teb (hw ▸ h0)
        · exact hc.own (hw ▸ huse)
      · simpa [hw] using hc.path

-- ---------------------------------------------------------------------------
-- Every creation
-- ---------------------------------------------------------------------------

/-- `wg_spawn_real_thread` takes an id and a stack of the scheduler's. -/
def Engine.spawn (e : Engine) : Engine :=
  { e with nextId := e.nextId + 1, nextStackAddr := e.nextStackAddr + (threadStack + 0x1000) }

/-- The engines a program can create a thread in, in either mode. -/
inductive Reached : Engine → Prop
  | load (teb : U32) (m : Machine) : Reached (.load teb m)
  | act {e : Engine} : Reached e → Proper e a → Reached (act e a)
  | spawn {e : Engine} : Reached e → Reached e.spawn

theorem Numbered.act (h : Numbered e k) (hp : Proper e a) : ∃ k', Numbered (act e a) k' := by
  by_cases ha : ∃ start param flags teb, a = .create start param flags teb
  · obtain ⟨start, param, flags, teb, rfl⟩ := ha
    obtain ⟨hk, heq⟩ | ⟨-, heq⟩ := h.create_eq start param flags teb
    · refine ⟨k + 1, ?_⟩
      change Numbered (create e start param flags teb).2 (k + 1)
      rw [heq]
      refine h.enroll hk ?_ (congrArg (·.2.1) (given_identity _ teb))
      rw [given_state]
      rcases newThread_state e start param flags with hs | hs
      all_goals simp [hs]
    · refine ⟨k, ?_⟩
      change Numbered (create e start param flags teb).2 k
      rwa [heq]
  · have hno : ∀ start param flags teb, a ≠ .create start param flags teb := by
      simpa using ha
    exact ⟨k, h.kept (act_kept h.settled hp hno)⟩

theorem Reached.numbered (h : Reached e) : ∃ k, Numbered e k := by
  induction h with
  | load teb m => exact ⟨0, load_numbered teb m⟩
  | act _ hp ih =>
    obtain ⟨k, hk⟩ := ih
    exact hk.act hp
  | spawn _ ih =>
    obtain ⟨k, hk⟩ := ih
    exact ⟨k, hk.lt, hk.free, hk.handle, hk.next, hk.settled⟩

/-- The contract holds of a 32-bit guest's own-TEB paths and of a 64-bit
guest's real threads, and of no other creation. -/
theorem entry_law (hr : Reached e) (hs : s.Fits) (g : Grants e real)
    (hx : entry e m mainTeb s g m₀ = some x) :
    Contract e real s x ↔ Suits e mainTeb s g := by
  obtain ⟨k, hk⟩ := hr.numbered
  unfold entry at hx
  split at hx
  · rename_i hp
    obtain rfl := Option.some.inj hx
    cases hw : s.wide with
    | true => exact realEntry_wide m₀ hw hp g
    | false => exact realEntry_narrow m₀ hw hp hs g
  all_goals rename_i hp
  · exact coopEntry_law hk hs (by simp [hp]) g hx
  · exact coopEntry_law hk hs (by simp [hp]) g hx
  · exact coopEntry_law hk hs (by simp [hp]) g hx
  all_goals split at hx
  · cases hx
  · exact coopEntry_law hk hs (by simp [hp]) g hx
  · cases hx
  · exact coopEntry_law hk hs (by simp [hp]) g hx

/-- The first blocks of the heap after the main TEB, in a program just loaded. -/
def firstGrants : Grants (.load 0x20000000 .zero) [] where
  teb := 0x20002000
  tlsArray := 0x20004000
  tlsData := 0
  tpl := 0
  rawStart := 0
  hasTls := false
  apart _ _ := by decide
  inHeap _ := by decide
  fresh _ := by
    unfold InUse
    decide

theorem entry_law_narrow : ∃ x,
    entry (.load 0x20000000 .zero) (fun _ => 0) 0x20000000
      ⟨.createThread, false, 0x401000, 7, 0⟩ firstGrants .zero = some x ∧
    Contract (.load 0x20000000 .zero) [] ⟨.createThread, false, 0x401000, 7, 0⟩ x := by
  obtain ⟨x, hx⟩ : ∃ x, entry (.load 0x20000000 .zero) (fun _ => 0) 0x20000000
      ⟨.createThread, false, 0x401000, 7, 0⟩ firstGrants .zero = some x :=
    Option.isSome_iff_exists.1 rfl
  refine ⟨x, hx, (entry_law (.load _ _) (fun _ => by decide) firstGrants hx).2 ⟨?_, ?_, ?_, ?_⟩⟩
  all_goals decide

/-- A 64-bit cooperative thread has no TEB, and its return address is built of
its parameter. -/
theorem entry_wide_cooperative : ∃ x,
    entry (.load 0x20000000 .zero) (fun _ => 0) 0x20000000
      ⟨.createThread, true, 0x140001000, 7, 0⟩ firstGrants .zero = some x ∧
    x.machine.gs = 0 ∧ get x.mem ⟨x.sp, 8⟩ = 7 * 2 ^ 32 ∧
    ¬ Contract (.load 0x20000000 .zero) [] ⟨.createThread, true, 0x140001000, 7, 0⟩ x := by
  refine ⟨_, rfl, rfl, ?_, fun h => h.teb rfl⟩
  change get _ ⟨0x600FFEF8, 8⟩ = _
  decide +kernel

end WineGlass.Coop
