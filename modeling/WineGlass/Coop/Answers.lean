import WineGlass.Coop.CondVars

/-!
# What the wait handlers answer

`WaitForSingleObject`, its `Ex` form and `WaitForMultipleObjects` in the cooperative mode, with what
they return and with the two fields of a thread that keep a deadline. A handler that has switched
returns nothing: the thread is still at the thunk and calls it again when it runs. The environment
switches are at their defaults, `WG_REAL_TIMEOUTS` apart.
-/

namespace WineGlass.Coop

/-- `wait_timeout` and `wait_start_ms`. -/
structure Stamp where
  timeout : U32
  startMs : U64
  deriving DecidableEq, Repr

structure Desk where
  host : Host
  stamps : Slot → Stamp

/-- What is returned to the guest. -/
abbrev Answer := Option U32

def waitTimeout : U32 := 258

def Desk.withEngine (d : Desk) (e : Engine) : Desk := { d with host := { d.host with engine := e } }

/-- `cur->wait_handle = 0`. -/
def Desk.clear (d : Desk) : Desk := d.withEngine (setWait d.host.engine 0)

def Desk.stamp (d : Desk) (f : Stamp → Stamp) : Desk :=
  match d.host.engine.current with
  | none => d
  | some i => { d with stamps := Function.update d.stamps i (f (d.stamps i)) }

/-- What the current thread waits for, and for how long. -/
def Desk.mark (d : Desk) (h timeout : U32) : Desk :=
  (d.stamp fun st => { st with timeout }).withEngine (setWait d.host.engine h)

/-- Give the processor away for a wait on `h`, which a thread that is alone does not. -/
def Desk.park (d : Desk) (h timeout : U32) : Answer × Desk :=
  let d := d.mark h timeout
  let r := yield d.host.engine (if timeout = infinite then .waiting else .ready)
  (if r.1 then none else some (if timeout = infinite then 0 else waitTimeout), d.withEngine r.2)

/-- The fields say that the current thread has begun this wait. -/
def Desk.begun (d : Desk) (h timeout : U32) (i : Slot) : Bool :=
  (d.host.engine.threads i).waitHandle == h && (d.stamps i).timeout == timeout

/-- A wait that keeps a deadline. -/
def Desk.timed (d : Desk) (timeout : U32) : Bool := d.host.realTimeouts && timeout != infinite

/-- `timed_out`, at the time `now`. -/
def Desk.timedOut (d : Desk) (h timeout : U32) (now : U64) : Bool :=
  d.timed timeout && d.host.engine.current.any fun i =>
    d.begun h timeout i && decide (timeout.setWidth 64 ≤ now - (d.stamps i).startMs)

/-- A wait that has not begun begins. -/
def Desk.begin (d : Desk) (h timeout : U32) (now : U64) : Desk :=
  if d.timed timeout && d.host.engine.current.any (fun i => !d.begun h timeout i) then
    d.stamp fun st => { st with startMs := now }
  else d

def Desk.waitForSingleObject (d : Desk) (h timeout : U32) (now : U64) : Answer × Desk :=
  if d.host.isSignalled h then
    let d := { d with host := consume d.host h }
    (some 0, if d.host.realTimeouts then d.clear else d)
  else if timeout = 0 then
    if d.host.engine.otherReady then
      let r := yield (d.mark h 0).host.engine .ready
      (if r.1 then none else some waitTimeout, (d.mark h 0).withEngine r.2)
    else (some waitTimeout, d)
  else if d.timedOut h timeout now then (some waitTimeout, d.clear)
  else (d.begin h timeout now).park h timeout

def Desk.waitForSingleObjectEx (d : Desk) (h timeout : U32) : Answer × Desk :=
  if d.host.isSignalled h then (some 0, { d with host := consume d.host h })
  else if timeout = 0 then (some waitTimeout, d)
  else d.park h timeout

/-- The handles are an array of 16. -/
def Desk.waitForMultipleObjects (d : Desk) (handles : List U32) (waitAll : Bool) (timeout : U32) :
    Answer × Desk :=
  match handles.take 16 with
  | [] => (some 0, d)
  | h :: hs =>
    let sig := (h :: hs).filter d.host.isSignalled
    let allDone := if waitAll then sig.length == (h :: hs).length else !sig.isEmpty
    if allDone then
      (some (.ofNat 32 ((h :: hs).findIdx d.host.isSignalled)),
        { d with host := if waitAll then (h :: hs).foldl consume d.host
            else (sig.head?.toList).foldl consume d.host })
    else if timeout = 0 then (some waitTimeout, d)
    else d.park h timeout

-- ---------------------------------------------------------------------------
-- The same handlers as before
-- ---------------------------------------------------------------------------

variable {d : Desk} {h timeout : U32} {now : U64}

theorem stamp_host (d : Desk) (f : Stamp → Stamp) : (d.stamp f).host = d.host := by
  unfold Desk.stamp
  split <;> rfl

theorem mark_host (d : Desk) (h timeout : U32) :
    (d.mark h timeout).host = { d.host with engine := setWait d.host.engine h } := by
  rw [Desk.mark, Desk.withEngine, stamp_host]

theorem begin_host (d : Desk) (h timeout : U32) (now : U64) :
    (d.begin h timeout now).host = d.host := by
  unfold Desk.begin
  split
  · exact stamp_host d _
  · rfl

theorem park_host (d : Desk) (h timeout : U32) :
    (d.park h timeout).2.host = { d.host with engine := blockOn d.host.engine h timeout } := by
  simp only [Desk.park, Desk.withEngine, mark_host, blockOn]

theorem waitForSingleObject_host (d : Desk) (h timeout : U32) (now : U64) :
    (d.waitForSingleObject h timeout now).2.host =
      Coop.waitForSingleObject d.host h timeout (d.timedOut h timeout now) := by
  have hlate : (d.host.realTimeouts && timeout != infinite && d.host.engine.current.isSome &&
      d.timedOut h timeout now) = d.timedOut h timeout now := by
    unfold Desk.timedOut Desk.timed
    cases d.host.realTimeouts <;> cases timeout != infinite <;> cases d.host.engine.current <;> rfl
  unfold Desk.waitForSingleObject Coop.waitForSingleObject
  rw [hlate]
  split
  · dsimp only
    split <;> rfl
  · split
    · split
      · simp only [Desk.withEngine, mark_host]
      · rfl
    · split
      · rfl
      · rw [park_host, begin_host]

theorem waitForSingleObjectEx_host (d : Desk) (h timeout : U32) :
    (d.waitForSingleObjectEx h timeout).2.host = Coop.waitForSingleObjectEx d.host h timeout := by
  unfold Desk.waitForSingleObjectEx Coop.waitForSingleObjectEx
  split
  · rfl
  · split
    · rfl
    · exact park_host d h timeout

theorem waitForMultipleObjects_host (d : Desk) (handles : List U32) (waitAll : Bool)
    (timeout : U32) : (d.waitForMultipleObjects handles waitAll timeout).2.host =
      Coop.waitForMultipleObjects d.host handles waitAll timeout := by
  unfold Desk.waitForMultipleObjects Coop.waitForMultipleObjects
  cases handles.take 16 with
  | nil => rfl
  | cons h hs =>
    dsimp only
    generalize (if waitAll then _ else _ : Bool) = allDone
    cases allDone with
    | true => rfl
    | false =>
      simp only [Bool.false_eq_true, if_false]
      split
      · rfl
      · exact park_host d h timeout

end WineGlass.Coop
