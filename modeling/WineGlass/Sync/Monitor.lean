import WineGlass.Sync.Table

/-!
# The monitor

Every `wg_sync_*` function runs under `g_lock`, and a waiting one gives the
lock up only inside `pthread_cond_wait` or `pthread_cond_timedwait`. An atomic
step is therefore a call run to its return or to its first wait, or what a
waiting call does from one wait to the next (`resume`, when the wait returns,
which POSIX allows at any time; `expire`, when a timed wait returns
`ETIMEDOUT`). `woken t` records that `g_cond` was broadcast since `t` last
started to wait. `dump_waits` only prints and is left out.
-/

namespace WineGlass.Sync

open CInt

-- ---------------------------------------------------------------------------
-- State
-- ---------------------------------------------------------------------------

/-- An entry of `s_waitq`. -/
structure WaitEntry where
  tid : Nat := 0
  handle : Nat := 0
  active : Bool := false
  deriving DecidableEq, Repr

/-- A handle array `wg_sync_wait_multiple` accepts. -/
abbrev Handles := { handles : List Nat // handles.length ≤ 64 }

/-- Where a thread is: outside, or waiting inside a call with its locals. -/
inductive Call
  | idle
  | waitSingle (h timeout : Nat)
  | waitMultiple (handles : Handles) (waitAll : Bool) (timeout : Nat)
  | cvSleep (cv csMtx timeout : Nat) (saved gen : Int)
  | cvReacquire (csMtx : Nat) (saved : Int) (rv : Nat)
  deriving DecidableEq, Repr

structure State where
  table : Table
  calls : Nat → Call
  woken : Nat → Bool
  waitq : List WaitEntry

/-- What a step shows: the value returned, if a function returned, and what
happened to the objects. -/
structure Label where
  ret : Option Nat
  events : List Event
  deriving DecidableEq, Repr

def State.init : State :=
  { table := Table.init
    calls := fun _ => .idle
    woken := fun _ => false
    waitq := List.replicate 128 {} }

def State.setTable (s : State) (T : Table) : State := { s with table := T }

/-- `pthread_cond_broadcast(&g_cond)`. -/
def State.broadcast (s : State) : State := { s with woken := fun _ => true }

/-- Thread `t` starts to wait inside the call `c`. -/
def State.park (s : State) (t : Nat) (c : Call) : State :=
  { s with calls := Function.update s.calls t c, woken := Function.update s.woken t false }

def State.leave (s : State) (t : Nat) : State :=
  { s with calls := Function.update s.calls t .idle }

-- ---------------------------------------------------------------------------
-- The wait queue of the deadlock probe
-- ---------------------------------------------------------------------------

def wqReuse (tid h : Nat) : List WaitEntry → Option (List WaitEntry)
  | [] => none
  | e :: es =>
    if e.active ∧ e.tid = tid then some ({ e with handle := h } :: es)
    else (wqReuse tid h es).map (e :: ·)

def wqTake (tid h : Nat) : List WaitEntry → List WaitEntry
  | [] => []
  | e :: es => if e.active then e :: wqTake tid h es else ⟨tid, h, true⟩ :: es

/-- `wq_set`. -/
def wqSet (q : List WaitEntry) (tid h : Nat) : List WaitEntry :=
  match wqReuse tid h q with
  | some q' => q'
  | none => wqTake tid h q

/-- `wq_clr`. -/
def wqClr (tid : Nat) : List WaitEntry → List WaitEntry
  | [] => []
  | e :: es => if e.active ∧ e.tid = tid then { e with active := false } :: es else e :: wqClr tid es

-- ---------------------------------------------------------------------------
-- Creation
-- ---------------------------------------------------------------------------

/-- A mutex created owned is held once from the start. -/
def initialHold (o : SyncObj) (id : Nat) : List Event :=
  if o.type = .mutex ∧ o.ownerTid ≠ 0 then [.acquired o.ownerTid id] else []

def createObj (s : State) (ty : ObjType) (set : SyncObj → SyncObj) : State × Label :=
  match s.table.allocObjLocked ty set with
  | none => (s, ⟨some 0, []⟩)
  | some (i, T) =>
    (s.setTable T, ⟨some (T.objs i).handle,
      .created s.table.fresh (T.objs i) :: initialHold (T.objs i) s.table.fresh⟩)

/-- `wg_sync_create_event`. -/
def createEvent (s : State) (manualReset initialSignalled : Bool) : State × Label :=
  createObj s .event fun o => { o with manual := manualReset, signalled := initialSignalled }

/-- `wg_sync_create_mutex`. -/
def createMutex (s : State) (initiallyOwned : Bool) (ownerTid : Nat) : State × Label :=
  createObj s .mutex fun o =>
    if initiallyOwned then { o with ownerTid := ownerTid, recursion := 1 } else o

/-- `wg_sync_create_semaphore`. -/
def createSemaphore (s : State) (initialCount maxCount : Int) : State × Label :=
  createObj s .sem fun o => { o with count := initialCount, max := maxCount }

/-- `wg_sync_create_thread_obj`. -/
def createThreadObj (s : State) (tid : Nat) : State × Label :=
  createObj s .thread fun o => { o with ownerTid := tid, exited := false }

/-- `wg_sync_create_cv`. -/
def createCv (s : State) : State × Label := createObj s .cv fun o => { o with count := 0 }

-- ---------------------------------------------------------------------------
-- Signalling
-- ---------------------------------------------------------------------------

/-- The body the three event operations share: find, check the type, store. -/
def signalEvent (s : State) (h : Nat) (signalled bcast : Bool) (ev : Nat → Event) :
    State × Label :=
  match s.table.findLocked h with
  | none => (s, ⟨some 0, []⟩)
  | some i =>
    if (s.table.objs i).type = .event then
      let s' := s.setTable (s.table.modify i ({ · with signalled := signalled }))
      (if bcast then s'.broadcast else s', ⟨some 1, [ev (s.table.ident i)]⟩)
    else (s, ⟨some 0, []⟩)

/-- `wg_sync_set_event`. -/
def setEvent (s : State) (h : Nat) : State × Label := signalEvent s h true true .set

/-- `wg_sync_reset_event`. -/
def resetEvent (s : State) (h : Nat) : State × Label := signalEvent s h false false .reset

/-- `wg_sync_pulse_event`: set, broadcast and reset in one critical section, so
the object ends unsignalled. -/
def pulseEvent (s : State) (h : Nat) : State × Label := signalEvent s h false true .pulsed

/-- `wg_sync_release_mutex`. -/
def releaseMutex (s : State) (h ownerTid : Nat) : State × Label :=
  match s.table.findLocked h with
  | none => (s, ⟨some 0, []⟩)
  | some i =>
    let o := s.table.objs i
    if o.type = .mutex ∧ o.ownerTid = ownerTid ∧ 0 < o.recursion then
      let ev := [.released ownerTid (s.table.ident i)]
      if o.recursion - 1 = 0 then
        ((s.setTable (s.table.modify i ({ · with recursion := 0, ownerTid := 0 }))).broadcast,
          ⟨some 1, ev⟩)
      else
        (s.setTable (s.table.modify i fun o => { o with recursion := o.recursion - 1 }),
          ⟨some 1, ev⟩)
    else (s, ⟨some 0, []⟩)

/-- The count after a release: added, then clamped when a limit is set. -/
def postCount (o : SyncObj) (n : Int) : Int :=
  let c := cLong (o.count + n)
  if 0 < o.max ∧ o.max < c then o.max else c

/-- `wg_sync_release_semaphore`. -/
def releaseSemaphore (s : State) (h : Nat) (n : Int) : State × Label :=
  match s.table.findLocked h with
  | none => (s, ⟨some 0, []⟩)
  | some i =>
    let o := s.table.objs i
    if o.type = .sem then
      ((s.setTable (s.table.modify i fun o => { o with count := postCount o n })).broadcast,
        ⟨some 1, [.posted (s.table.ident i) o.count n]⟩)
    else (s, ⟨some 0, []⟩)

/-- `wg_sync_thread_exit`. -/
def threadExit (s : State) (h exitCode : Nat) : State × Label :=
  match s.table.findLocked h with
  | none => (s, ⟨some 0, []⟩)
  | some i =>
    let o := s.table.objs i
    if o.type = .thread ∧ o.exited = false then
      ((s.setTable (s.table.modify i ({ · with exited := true, exitCode := exitCode }))).broadcast,
        ⟨some 0, []⟩)
    else (s, ⟨some 0, []⟩)

/-- The next generation of a condition variable. -/
def bumpCount (o : SyncObj) : SyncObj := { o with count := cLong (o.count + 1) }

/-- `wg_sync_cv_wake`; the source ignores its second argument. -/
def cvWake (s : State) (cv : Nat) (_wakeAll : Bool) : State × Label :=
  match s.table.findLocked cv with
  | none => (s, ⟨some 0, []⟩)
  | some i =>
    if (s.table.objs i).type = .cv then
      ((s.setTable (s.table.modify i bumpCount)).broadcast,
        ⟨some 0, [.woke (s.table.ident i)]⟩)
    else (s, ⟨some 0, []⟩)

-- ---------------------------------------------------------------------------
-- Introspection and closing
-- ---------------------------------------------------------------------------

/-- `wg_sync_is_known`. -/
def isKnown (s : State) (h : Nat) : State × Label :=
  (s, ⟨some (if (s.table.findLocked h).isSome then 1 else 0), []⟩)

/-- `wg_sync_thread_exit_code`. -/
def threadExitCode (s : State) (h : Nat) : State × Label :=
  match s.table.findLocked h with
  | none => (s, ⟨some 0, []⟩)
  | some i =>
    let o := s.table.objs i
    (s, ⟨some (if o.type = .thread then o.exitCode else 0), []⟩)

/-- `wg_sync_close`. -/
def close (s : State) (h : Nat) : State × Label :=
  match s.table.findLocked h with
  | none => (s, ⟨some 0, []⟩)
  | some i =>
    ((s.setTable (s.table.release i)).broadcast, ⟨some 1, [.closed (s.table.ident i)]⟩)

-- ---------------------------------------------------------------------------
-- The kicks of the deadlock watchdog
-- ---------------------------------------------------------------------------

/-- Signal the event behind `h`, if it is one that may be kicked. -/
def kickEvent (T : Table) (kickman : Bool) (h : Nat) : Option Nat :=
  match T.findLocked h with
  | none => none
  | some i =>
    let o := T.objs i
    if o.type = .event ∧ (kickman ∨ o.manual = false) ∧ o.signalled = false then some i else none

/-- The loop of `wg_sync_kick_workers` over the wait queue. -/
def kickLoop (kickall kickman : Bool) : List WaitEntry → Table → Table × List Event
  | [], T => (T, [])
  | e :: es, T =>
    if e.active = false ∨ (kickall = false ∧ e.tid = 1) then kickLoop kickall kickman es T
    else
      match kickEvent T kickman e.handle with
      | none => kickLoop kickall kickman es T
      | some i =>
        let r := kickLoop kickall kickman es (T.modify i ({ · with signalled := true }))
        (r.1, .kicked (T.ident i) :: r.2)

/-- The loop of `wg_sync_kick_workers` over the condition variables, `n` slots
from slot `i` on. -/
def kickCvs (T : Table) : Nat → Nat → Table × List Event
  | _, 0 => (T, [])
  | i, n + 1 =>
    if (T.objs i).type = .cv then
      let r := kickCvs (T.modify i bumpCount) (i + 1) n
      (r.1, .woke (T.ident i) :: r.2)
    else kickCvs T (i + 1) n

/-- `wg_sync_kick_workers`; its arguments are the environment switches. -/
def kickWorkers (s : State) (kickall kickman kickcv : Bool) : State × Label :=
  let r := kickLoop kickall kickman s.waitq s.table
  let r' := if kickcv then kickCvs r.1 0 syncMax else (r.1, [])
  let kicked := (r.2 ++ r'.2).length
  let s' := s.setTable r'.1
  (if kicked = 0 then s' else s'.broadcast, ⟨some kicked, r.2 ++ r'.2⟩)

/-- `wg_sync_kick_tid`. -/
def kickTid (s : State) (tid : Nat) : State × Label :=
  if tid = 0 then (s, ⟨some 0, []⟩)
  else
    match s.waitq.find? (fun e => e.active && e.tid == tid) with
    | none => (s, ⟨some 0, []⟩)
    | some e =>
      match kickEvent s.table false e.handle with
      | none => (s, ⟨some 0, []⟩)
      | some i =>
        ((s.setTable (s.table.modify i ({ · with signalled := true }))).broadcast,
          ⟨some 1, [.kicked (s.table.ident i)]⟩)

-- ---------------------------------------------------------------------------
-- Waiting
-- ---------------------------------------------------------------------------

/-- The way out of `wg_sync_wait_single`: `wq_clr` and return. -/
def endSingle (s : State) (t rv : Nat) : State × Label :=
  ({ s.leave t with waitq := wqClr t s.waitq }, ⟨some rv, []⟩)

/-- `acquire_locked` on the slots of `is` in turn, then the return. -/
def take (s : State) (t : Nat) (is : List Nat) (rv : Nat) (out : State → Nat → Nat → State × Label) :
    State × Label :=
  let r := out (s.setTable (s.table.acquireAll t is)) t rv
  (r.1, { r.2 with events := is.map (.acquired t <| s.table.ident ·) })

/-- One pass of the loop of `wg_sync_wait_single`, `i` being the slot of `h`. -/
def waitSinglePass (s : State) (t h timeout i : Nat) : State × Label :=
  if satisfiedLocked (s.table.objs i) t then take s t [i] waitObject0 endSingle
  else if timeout = 0 then endSingle s t waitTimeout
  else (s.park t (.waitSingle h timeout), ⟨none, []⟩)

/-- `wg_sync_wait_single`, up to its return or first wait. -/
def waitSingle (s : State) (t h timeout : Nat) : State × Label :=
  match s.table.findLocked h with
  | none => (s, ⟨some waitFailed, []⟩)
  | some i => waitSinglePass { s with waitq := wqSet s.waitq t h } t h timeout i

/-- From the end of a wait on: the handle is looked up again. -/
def waitSingleResume (s : State) (t h timeout : Nat) : State × Label :=
  match s.table.findLocked h with
  | none => endSingle s t waitFailed
  | some i => waitSinglePass s t h timeout i

/-- `ETIMEDOUT`: the pointer taken before the wait is used once more. -/
def waitSingleExpire (s : State) (t h : Nat) : State × Label :=
  let i := h - syncBase
  if satisfiedLocked (s.table.objs i) t then take s t [i] waitObject0 endSingle
  else endSingle s t waitTimeout

/-- The resolve loop of `wg_sync_wait_multiple`. -/
def resolve (T : Table) : List Nat → Option (List Nat)
  | [] => some []
  | h :: hs =>
    match T.findLocked h with
    | none => none
    | some i => (resolve T hs).map (i :: ·)

/-- The first satisfied slot and its position, counted from `k`. -/
def firstSatisfied (T : Table) (t : Nat) : List Nat → Nat → Option (Nat × Nat)
  | [], _ => none
  | i :: is, k =>
    if satisfiedLocked (T.objs i) t then some (i, k) else firstSatisfied T t is (k + 1)

/-- The scan of `wg_sync_wait_multiple`: the slots this pass acquires and the
code it returns. -/
def scanMultiple (T : Table) (t : Nat) (slots : List Nat) (waitAll : Bool) :
    Option (List Nat × Nat) :=
  if waitAll then
    if slots.all (fun i => satisfiedLocked (T.objs i) t) then some (slots, waitObject0) else none
  else (firstSatisfied T t slots 0).map fun (i, k) => ([i], waitObject0 + k)

def endMultiple (s : State) (t rv : Nat) : State × Label := (s.leave t, ⟨some rv, []⟩)

/-- One pass of the loop of `wg_sync_wait_multiple`. -/
def waitMultiplePass (s : State) (t : Nat) (handles : Handles) (waitAll : Bool) (timeout : Nat) :
    State × Label :=
  match resolve s.table handles.val with
  | none => endMultiple s t waitFailed
  | some slots =>
    match scanMultiple s.table t slots waitAll with
    | some (is, rv) => take s t is rv endMultiple
    | none =>
      if timeout = 0 then endMultiple s t waitTimeout
      else (s.park t (.waitMultiple handles waitAll timeout), ⟨none, []⟩)

/-- `wg_sync_wait_multiple`; a null array is the empty list. -/
def waitMultiple (s : State) (t : Nat) (handles : List Nat) (waitAll : Bool) (timeout : Nat) :
    State × Label :=
  if h : handles.length = 0 ∨ 64 < handles.length then (s, ⟨some waitFailed, []⟩)
  else waitMultiplePass s t ⟨handles, by omega⟩ waitAll timeout

-- ---------------------------------------------------------------------------
-- Condition variables
-- ---------------------------------------------------------------------------

/-- The test of the re-acquire loop of `wg_sync_cv_sleep` and what follows it,
`i` being the slot of the mutex. -/
def cvTake (s : State) (t csMtx i : Nat) (saved : Int) (rv : Nat) : State × Label :=
  let o := s.table.objs i
  if o.ownerTid ≠ 0 ∧ o.ownerTid ≠ t then (s.park t (.cvReacquire csMtx saved rv), ⟨none, []⟩)
  else
    ((s.setTable (s.table.modify i ({ · with ownerTid := t, recursion := saved }))).leave t,
      ⟨some rv, [.reacquired t (s.table.ident i)]⟩)

/-- What follows the sleep loop. The type is checked here and not again. -/
def cvLeave (s : State) (t csMtx : Nat) (saved : Int) (rv : Nat) : State × Label :=
  match s.table.findLocked csMtx with
  | none => (s.leave t, ⟨some rv, []⟩)
  | some i =>
    if (s.table.objs i).type = .mutex then cvTake s t csMtx i saved rv
    else (s.leave t, ⟨some rv, []⟩)

/-- One pass of the sleep loop. -/
def cvSleepPass (s : State) (t cv csMtx timeout : Nat) (saved gen : Int) : State × Label :=
  match s.table.findLocked cv with
  | none => cvLeave s t csMtx saved waitFailed
  | some i =>
    if (s.table.objs i).count ≠ gen then cvLeave s t csMtx saved waitObject0
    else if timeout = 0 then cvLeave s t csMtx saved waitTimeout
    else (s.park t (.cvSleep cv csMtx timeout saved gen), ⟨none, []⟩)

/-- `wg_sync_cv_sleep`, up to its return or first wait. -/
def cvSleep (s : State) (t cv csMtx timeout : Nat) : State × Label :=
  match s.table.findLocked cv, s.table.findLocked csMtx with
  | some c, some m =>
    if (s.table.objs c).type = .cv ∧ (s.table.objs m).type = .mutex then
      let o := s.table.objs m
      let saved := if 0 < o.recursion then o.recursion else 1
      let s' := (s.setTable (s.table.modify m ({ · with ownerTid := 0, recursion := 0 }))).broadcast
      cvSleepPass s' t cv csMtx timeout saved (s.table.objs c).count
    else (s, ⟨some waitFailed, []⟩)
  | _, _ => (s, ⟨some waitFailed, []⟩)

/-- `ETIMEDOUT`: the generation is read through the pointer taken before. -/
def cvSleepExpire (s : State) (t cv csMtx : Nat) (saved gen : Int) : State × Label :=
  let i := cv - syncBase
  if (s.table.objs i).count ≠ gen then cvLeave s t csMtx saved waitObject0
  else cvLeave s t csMtx saved waitTimeout

/-- From the end of a wait for the mutex on. -/
def cvReacquireResume (s : State) (t csMtx : Nat) (saved : Int) (rv : Nat) : State × Label :=
  match s.table.findLocked csMtx with
  | none => (s.leave t, ⟨some rv, []⟩)
  | some i => cvTake s t csMtx i saved rv

-- ---------------------------------------------------------------------------
-- Steps
-- ---------------------------------------------------------------------------

/-- The calls that do not wait. -/
inductive Op
  | createEvent (manualReset initialSignalled : Bool)
  | createMutex (initiallyOwned : Bool)
  | createSemaphore (initialCount maxCount : Int)
  | createThreadObj (tid : Nat)
  | createCv
  | setEvent (h : Nat)
  | resetEvent (h : Nat)
  | pulseEvent (h : Nat)
  | releaseMutex (h : Nat)
  | releaseSemaphore (h : Nat) (n : Int)
  | threadExit (h exitCode : Nat)
  | cvWake (cv : Nat) (wakeAll : Bool)
  | isKnown (h : Nat)
  | threadExitCode (h : Nat)
  | close (h : Nat)
  deriving DecidableEq, Repr

inductive Action
  | call (t : Nat) (op : Op)
  | waitSingle (t h timeout : Nat)
  | waitMultiple (t : Nat) (handles : List Nat) (waitAll : Bool) (timeout : Nat)
  | cvSleep (t cv csMtx timeout : Nat)
  | resume (t : Nat)
  | expire (t : Nat)
  | kickWorkers (kickall kickman kickcv : Bool)
  | kickTid (tid : Nat)
  deriving DecidableEq, Repr

/-- Mutex calls pass the calling thread's id. -/
def runOp (s : State) (t : Nat) : Op → State × Label
  | .createEvent manualReset initialSignalled => createEvent s manualReset initialSignalled
  | .createMutex initiallyOwned => createMutex s initiallyOwned t
  | .createSemaphore initialCount maxCount => createSemaphore s initialCount maxCount
  | .createThreadObj tid => createThreadObj s tid
  | .createCv => createCv s
  | .setEvent h => setEvent s h
  | .resetEvent h => resetEvent s h
  | .pulseEvent h => pulseEvent s h
  | .releaseMutex h => releaseMutex s h t
  | .releaseSemaphore h n => releaseSemaphore s h n
  | .threadExit h exitCode => threadExit s h exitCode
  | .cvWake cv wakeAll => cvWake s cv wakeAll
  | .isKnown h => isKnown s h
  | .threadExitCode h => threadExitCode s h
  | .close h => close s h

/-- A thread outside the module that may call into it. -/
def Free (s : State) (t : Nat) : Prop := t ≠ 0 ∧ s.calls t = .idle

instance : Decidable (Free s t) := inferInstanceAs (Decidable (_ ∧ _))

def step (s : State) : Action → Option (State × Label)
  | .call t op => if Free s t then some (runOp s t op) else none
  | .waitSingle t h timeout => if Free s t then some (waitSingle s t h timeout) else none
  | .waitMultiple t handles waitAll timeout =>
    if Free s t then some (waitMultiple s t handles waitAll timeout) else none
  | .cvSleep t cv csMtx timeout => if Free s t then some (cvSleep s t cv csMtx timeout) else none
  | .resume t =>
    match s.calls t with
    | .idle => none
    | .waitSingle h timeout => some (waitSingleResume s t h timeout)
    | .waitMultiple handles waitAll timeout => some (waitMultiplePass s t handles waitAll timeout)
    | .cvSleep cv csMtx timeout saved gen => some (cvSleepPass s t cv csMtx timeout saved gen)
    | .cvReacquire csMtx saved rv => some (cvReacquireResume s t csMtx saved rv)
  | .expire t =>
    match s.calls t with
    | .waitSingle h timeout =>
      if timeout = syncInfinite then none else some (waitSingleExpire s t h)
    | .waitMultiple _ _ timeout =>
      if timeout = syncInfinite then none else some (endMultiple s t waitTimeout)
    | .cvSleep cv csMtx timeout saved gen =>
      if timeout = syncInfinite then none else some (cvSleepExpire s t cv csMtx saved gen)
    | .idle | .cvReacquire .. => none
  | .kickWorkers kickall kickman kickcv => some (kickWorkers s kickall kickman kickcv)
  | .kickTid tid => some (kickTid s tid)

end WineGlass.Sync
