import Mathlib.Algebra.Group.Fin.Basic
import Mathlib.Data.List.FinRange
import Mathlib.Logic.Function.Basic
import WineGlass.Lib.Run

/-!
# The cooperative scheduler

`wg_threading.c` and the places of `wg_engine.c` that switch threads: 32 slots,
one of them current, one machine. A switch saves the machine into the slot left
and loads it from the slot entered; the slots are scanned from the one after
the current. Slot 0 is the main thread.
-/

namespace WineGlass.Coop

abbrev U32 := BitVec 32
abbrev U64 := BitVec 64

/-- An index below `WG_MAX_THREADS`. -/
abbrev Slot := Fin 32

/-- `WG_THREAD_STACK`. -/
def threadStack : U32 := 0x100000

/-- `WGThreadState`. -/
inductive ThreadState
  | free | running | ready | waiting | suspended | exited
  deriving DecidableEq, Repr

/-- `WGThreadRegs`. -/
structure Regs where
  gpr : Vector U64 16
  rip : U64
  flags : U64
  fsBase : U64
  gsBase : U64
  deriving DecidableEq

/-- What blink holds of these; its flags are 32 bits wide. -/
structure Machine where
  weg : Vector U64 16
  ip : U64
  flags : U32
  fs : U64
  gs : U64
  deriving DecidableEq

def Regs.zero : Regs := ⟨Vector.replicate 16 0, 0, 0, 0, 0⟩

def Machine.zero : Machine := ⟨Vector.replicate 16 0, 0, 0, 0, 0⟩

/-- `WGThread`. -/
structure Thread where
  state : ThreadState := .free
  id : U32 := 0
  handle : U32 := 0
  stackBase : U32 := 0
  stackSize : U32 := 0
  teb : U32 := 0
  startAddr : U32 := 0
  param : U32 := 0
  exitCode : U32 := 0
  waitHandle : U32 := 0
  regs : Regs := .zero

/-- `WGThreadScheduler`, the machine, and whether the engine is paused. -/
structure Engine where
  threads : Slot → Thread
  current : Option Slot
  count : Nat
  nextId : U32
  nextHandle : U32
  nextStackAddr : U32
  blink : Machine
  paused : Bool

def Engine.set (e : Engine) (i : Slot) (t : Thread) : Engine :=
  { e with threads := Function.update e.threads i t }

def Engine.state (e : Engine) (i : Slot) : ThreadState := (e.threads i).state

/-- `load_pe_blink`: the main thread, with the machine ready to run it. -/
def Engine.load (teb : U32) (blink : Machine) : Engine where
  threads := Function.update (fun _ => {}) 0
    { state := .running, id := 1, handle := 0x7000, exitCode := 259, teb
      regs := { Regs.zero with fsBase := teb.setWidth 64 } }
  current := some 0
  count := 1
  nextId := 0x1000
  nextHandle := 0x7100
  nextStackAddr := 0x60000000
  blink
  paused := false

-- ---------------------------------------------------------------------------
-- Registers
-- ---------------------------------------------------------------------------

def saveRegs (m : Machine) : Regs := ⟨m.weg, m.ip, m.flags.setWidth 64, m.fs, m.gs⟩

def restoreRegs (r : Regs) : Machine := ⟨r.gpr, r.rip, r.flags.setWidth 32, r.fsBase, r.gsBase⟩

@[simp] theorem restore_save (m : Machine) : restoreRegs (saveRegs m) = m := by
  cases m with
  | mk weg ip flags fs gs =>
    have hf : (flags.setWidth 64).setWidth 32 = flags := by
      apply BitVec.eq_of_toNat_eq
      simp
    simp [restoreRegs, saveRegs, hf]

-- ---------------------------------------------------------------------------
-- Creation
-- ---------------------------------------------------------------------------

/-- The first slot with `p`. -/
def firstSlot (p : Slot → Bool) : Option Slot := (List.finRange 32).find? p

def Engine.freeSlot (e : Engine) : Option Slot := firstSlot fun i => e.state i == .free

/-- `wg_sched_find`. -/
def Engine.find (e : Engine) (h : U32) : Option Slot :=
  firstSlot fun i => (e.threads i).handle == h && e.state i != .free

/-- The stack pointer of a fresh frame, under `stack_base + stack_size`. -/
def entrySp (base : U32) : U32 := ((base + threadStack - 0x100) &&& ~~~0xF) - 8

/-- RCX holds the parameter, RSP and RBP the stack pointer. -/
def entryRegs (start param sp : U32) (fs : U64) : Regs where
  gpr := #v[0, param.setWidth 64, 0, 0, sp.setWidth 64, sp.setWidth 64, 0, 0,
    0, 0, 0, 0, 0, 0, 0, 0]
  rip := start.setWidth 64
  flags := 0
  fsBase := fs
  gsBase := 0

/-- The FS base saved for the current thread, which a new thread shares. -/
def Engine.creatorFs (e : Engine) : U64 :=
  match e.current with
  | some i => (e.threads i).regs.fsBase
  | none => 0

def suspendFlag : U32 := 0x4

def Engine.newThread (e : Engine) (start param flags : U32) : Thread where
  state := if flags &&& suspendFlag = 0 then .ready else .suspended
  id := e.nextId
  handle := e.nextHandle
  stackBase := e.nextStackAddr
  stackSize := threadStack
  teb := e.creatorFs.setWidth 32
  startAddr := start
  param
  exitCode := 259
  regs := entryRegs start param (entrySp e.nextStackAddr) e.creatorFs

/-- A thread in a free slot, and the allocators moved on. -/
def Engine.enroll (e : Engine) (i : Slot) (t : Thread) : Engine :=
  { e.set i t with
    count := e.count + 1
    nextId := e.nextId + 1
    nextHandle := e.nextHandle + 1
    nextStackAddr := e.nextStackAddr + (threadStack + 0x1000) }

/-- `wg_sched_create_thread`. -/
def createThread (e : Engine) (start param flags : U32) : U32 × Engine :=
  match e.freeSlot with
  | none => (0, e)
  | some i => (e.nextHandle, e.enroll i (e.newThread start param flags))

def Thread.withTeb (t : Thread) (teb : U32) : Thread :=
  { t with teb, regs := { t.regs with fsBase := teb.setWidth 64 } }

/-- What `CreateThread`, `_beginthreadex` and `_beginthread` do with the result
of `wg_alloc_thread_teb`. -/
def giveTeb (e : Engine) (h teb : U32) : Engine :=
  match e.find h with
  | none => e
  | some i => if teb = 0 then e else e.set i ((e.threads i).withTeb teb)

/-- A creation handler; the thread pool's give no TEB. -/
def create (e : Engine) (start param flags : U32) (teb : Option U32) : U32 × Engine :=
  match createThread e start param flags, teb with
  | r, none => r
  | r, some teb => if r.1 = 0 then r else (r.1, giveTeb r.2 r.1 teb)

-- ---------------------------------------------------------------------------
-- Switching
-- ---------------------------------------------------------------------------

/-- `wg_sched_save_current`. -/
def save (e : Engine) (st : ThreadState) : Engine :=
  match e.current with
  | none => e
  | some i => e.set i { e.threads i with regs := saveRegs e.blink, state := st }

/-- The slots in the order `wg_sched_switch_next` looks at them. -/
def Engine.scan (e : Engine) : List Slot :=
  let start := match e.current with
    | some i => i + 1
    | none => 0
  (List.finRange 32).map (start + ·)

def Engine.nextReady (e : Engine) : Option Slot := e.scan.find? fun i => e.state i == .ready

/-- Slot `i` running on the machine. -/
def Engine.enter (e : Engine) (i : Slot) : Engine :=
  { e.set i { e.threads i with state := .running } with
    current := some i
    blink := restoreRegs (e.threads i).regs }

/-- `wg_sched_switch_next`. -/
def switchNext (e : Engine) : Bool × Engine :=
  match e.nextReady with
  | none => (false, e)
  | some i => (true, e.enter i)

/-- `wg_sched_yield`; without another thread the current one goes on. -/
def yield (e : Engine) (reason : ThreadState) : Bool × Engine :=
  match switchNext (save e reason) with
  | (true, e') => (true, e')
  | (false, e') =>
    match e'.current with
    | some i => (false, e'.enter i)
    | none => (false, e')

def Engine.anyReady (e : Engine) : Bool := (List.finRange 32).any fun i => e.state i == .ready

/-- `wg_sched_other_ready`. -/
def Engine.otherReady (e : Engine) : Bool :=
  (List.finRange 32).any fun i => some i != e.current && e.state i == .ready

/-- `wg_sched_wake`. -/
def wake (e : Engine) (h : U32) : Engine :=
  { e with threads := fun i =>
      if e.state i = .waiting ∧ (e.threads i).waitHandle = h then
        { e.threads i with state := .ready, waitHandle := 0 }
      else e.threads i }

/-- `wg_sched_exit_thread`. -/
def exitThread (e : Engine) (code : U32) : Engine :=
  match e.current with
  | none => e
  | some i =>
    (switchNext { e.set i { e.threads i with state := .exited, exitCode := code } with
      current := none }).2

/-- `cur->wait_handle = h`. -/
def setWait (e : Engine) (h : U32) : Engine :=
  match e.current with
  | none => e
  | some i => e.set i { e.threads i with waitHandle := h }

/-- A blocking wait, once the object is found unsignalled. -/
def waitOn (e : Engine) (h : U32) : Bool × Engine := yield (setWait e h) .waiting

/-- `ResumeThread` on a cooperative thread. -/
def resumeThread (e : Engine) (h : U32) : Engine :=
  match e.find h with
  | none => e
  | some i =>
    if e.state i = .suspended then e.set i { e.threads i with state := .ready } else e

/-- The switch at the end of a slice or of a thunk. -/
def preempt (e : Engine) : Engine := if e.otherReady then (yield e .ready).2 else e

/-- How `wg_engine_tick` begins. -/
def tick (e : Engine) : Engine :=
  if e.paused && e.anyReady then
    match switchNext (save e .waiting) with
    | (true, e') => { e' with paused := false }
    | (false, e') => e'
  else e

-- ---------------------------------------------------------------------------
-- Steps
-- ---------------------------------------------------------------------------

/-- What the engine does with the scheduler; `guest` is the guest running, and
`setWait` a handler writing the current thread's `wait_handle`. -/
inductive Action
  | create (start param flags : U32) (teb : Option U32)
  | save (st : ThreadState)
  | switch
  | yieldReady
  | yieldWaiting
  | wait (h : U32)
  | setWait (h : U32)
  | wake (h : U32)
  | resume (h : U32)
  | exit (code : U32)
  | preempt
  | tick
  | pause (on : Bool)
  | guest (m : Machine)
  deriving DecidableEq

def act (e : Engine) : Action → Engine
  | .create start param flags teb => (create e start param flags teb).2
  | .save st => save e st
  | .switch => (switchNext e).2
  | .yieldReady => (yield e .ready).2
  | .yieldWaiting => (yield e .waiting).2
  | .wait h => (waitOn e h).2
  | .setWait h => setWait e h
  | .wake h => wake e h
  | .resume h => resumeThread e h
  | .exit code => exitThread e code
  | .preempt => preempt e
  | .tick => tick e
  | .pause on => { e with paused := on }
  | .guest m => { e with blink := m }

def step (e : Engine) (a : Action) : Option (Engine × Unit) := some (act e a, ())

-- ---------------------------------------------------------------------------
-- Slots
-- ---------------------------------------------------------------------------

section
variable {e : Engine} {i j : Slot} {t : Thread}

@[simp] theorem set_self : (e.set i t).threads i = t := Function.update_self ..

@[simp] theorem set_ne (h : j ≠ i) : (e.set i t).threads j = e.threads j :=
  Function.update_of_ne h ..

@[simp] theorem set_current : (e.set i t).current = e.current := rfl

@[simp] theorem set_blink : (e.set i t).blink = e.blink := rfl

@[simp] theorem state_set_self : (e.set i t).state i = t.state := congrArg _ set_self

@[simp] theorem state_set_ne (h : j ≠ i) : (e.set i t).state j = e.state j :=
  congrArg _ (set_ne h)

@[simp] theorem enroll_self : (e.enroll i t).threads i = t := set_self

@[simp] theorem enroll_ne (h : j ≠ i) : (e.enroll i t).threads j = e.threads j := set_ne h

theorem firstSlot_some {p : Slot → Bool} (h : firstSlot p = some i) : p i = true :=
  List.find?_some h

theorem firstSlot_none {p : Slot → Bool} : firstSlot p = none ↔ ∀ i, p i = false := by
  simp [firstSlot]

theorem firstSlot_le {p : Slot → Bool} (h : firstSlot p = some i) (hj : p j = true) : i ≤ j := by
  obtain ⟨-, n, hn, hget, hbefore⟩ := List.find?_eq_some_iff_getElem.1 h
  by_contra hlt
  have hlt := Fin.lt_def.1 (not_le.1 hlt)
  have hin : i.val = n := by
    have := congrArg Fin.val hget
    simpa using this.symm
  have hno := hbefore j.val (hin ▸ hlt)
  simp [hj] at hno

theorem mem_scan (j : Slot) : j ∈ e.scan := by
  have h : ∀ s : Slot, j ∈ (List.finRange 32).map (s + ·) := fun s =>
    List.mem_map.2 ⟨j - s, List.mem_finRange _, add_sub_cancel s j⟩
  exact h _

theorem nextReady_some (h : e.nextReady = some i) : e.state i = .ready := by
  simpa using List.find?_some h

theorem nextReady_none (h : e.nextReady = none) (j : Slot) : e.state j ≠ .ready := by
  simpa using List.find?_eq_none.1 h j (mem_scan j)

/-- Whatever the scan order, a switch happens if and only if some thread is ready. -/
theorem switchNext_cases (e : Engine) : (∃ i, e.state i = .ready ∧ switchNext e = (true, e.enter i)) ∨
    (∀ j, e.state j ≠ .ready) ∧ switchNext e = (false, e) := by
  unfold switchNext
  cases h : e.nextReady with
  | none => exact .inr ⟨nextReady_none h, rfl⟩
  | some i => exact .inl ⟨i, nextReady_some h, rfl⟩

theorem save_state (hc : e.current = some i) : (save e st).state i = st := by
  simp [save, hc]

theorem yield_cases (e : Engine) (st : ThreadState) :
    (∃ i, (save e st).state i = .ready ∧ yield e st = (true, (save e st).enter i)) ∨
    (∀ j, (save e st).state j ≠ .ready) ∧
      ((∃ i, e.current = some i ∧ yield e st = (false, (save e st).enter i)) ∨
        e.current = none ∧ yield e st = (false, e)) := by
  unfold yield
  obtain ⟨i, hi, h⟩ | ⟨hno, h⟩ := switchNext_cases (save e st)
  · exact .inl ⟨i, hi, by rw [h]⟩
  refine .inr ⟨hno, ?_⟩
  rw [h]
  unfold save
  cases hc : e.current with
  | none => exact .inr ⟨rfl, by simp [hc]⟩
  | some i => exact .inl ⟨i, rfl, by simp [hc]⟩

end

end WineGlass.Coop
