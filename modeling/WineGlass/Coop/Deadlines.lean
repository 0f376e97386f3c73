import WineGlass.Coop.Answers

/-!
# Deadlines

A finite wait stays ready and is called again at each dispatch; with `WG_REAL_TIMEOUTS` the fields
of its thread tell `WaitForSingleObject` when it began. Other handlers write the same fields, and
those that end a wait do not all clear them. The clock is what `clock_gettime` has shown last.
`calls` is not in the source: it notes the wait a thread is in, and when it was first called.
-/

namespace WineGlass.Deadlines

open Runs Coop CondVars

inductive Wait
  | single (h timeout : U32)
  | singleEx (h timeout : U32)
  | multiple (handles : List U32) (waitAll : Bool) (timeout : U32)
  deriving DecidableEq

def Wait.timeout : Wait → U32
  | .single _ timeout | .singleEx _ timeout | .multiple _ _ timeout => timeout

structure Pending where
  wait : Wait
  first : U64
  deriving DecidableEq

structure Sys where
  desk : Desk
  clock : U64
  calls : Slot → Option Pending

def Sys.start (d : Desk) (clock : U64) : Sys := ⟨d, clock, fun _ => none⟩

/-- A wait at a time; another handler, which may write the fields of its thread; or what happens to
the engine from outside. -/
inductive Action
  | wait (w : Wait) (now : U64)
  | handler (c : Call) (f : Stamp → Stamp)
  | pause (on : Bool)
  | tick

inductive Event
  | waited (w : Wait) (first now : U64) (answer : Answer)
  | nothing
  deriving DecidableEq

def isWait : Call → Bool
  | .waitSingle .. | .waitSingleEx .. | .waitMultiple .. => true
  | _ => false

/-- A thread in a wait does nothing but wait again. -/
def Pending.allows (p : Pending) : Action → Bool
  | .wait w _ => w == p.wait
  | .handler .. => false
  | .pause _ | .tick => true

/-- A wait that keeps a deadline. -/
def Wait.keeps : Wait → Bool
  | .single _ timeout => timeout != 0 && timeout != infinite
  | _ => false

def Sys.call (s : Sys) : Option Pending := s.desk.host.engine.current.bind s.calls

/-- When the wait of thread `i` was first called. -/
def Sys.since (s : Sys) (i : Slot) (now : U64) : U64 := ((s.calls i).map Pending.first).getD now

def wait (d : Desk) (now : U64) : Wait → Answer × Desk
  | .single h timeout => d.waitForSingleObject h timeout now
  | .singleEx h timeout => d.waitForSingleObjectEx h timeout
  | .multiple handles waitAll timeout => d.waitForMultipleObjects handles waitAll timeout

def Sys.act (s : Sys) : Action → Option (Sys × Event)
  | .wait w now =>
    if now < s.clock then none
    else
      s.desk.host.engine.current.map fun i =>
        let r := wait s.desk now w
        let call := if r.1.isNone then some ⟨w, s.since i now⟩ else none
        (⟨r.2, now, Function.update s.calls i call⟩, .waited w (s.since i now) now r.1)
  | .handler c f =>
    if isWait c then none
    else
      let d := s.desk.stamp f
      some ({ s with desk := { d with host := d.host.call c } }, .nothing)
  | .pause on =>
    some ({ s with desk := { s.desk with host := s.desk.host.call (.pause on) } }, .nothing)
  | .tick => some ({ s with desk := { s.desk with host := s.desk.host.call .tick } }, .nothing)

def Sys.step (s : Sys) (a : Action) : Option (Sys × Event) :=
  if s.call.all fun p => p.allows a then s.act a else none

-- ---------------------------------------------------------------------------
-- Deadlines that are kept
-- ---------------------------------------------------------------------------

def Finite (timeout : U32) : Prop := timeout ≠ 0 ∧ timeout ≠ infinite

instance : Decidable (Finite timeout) := inferInstanceAs (Decidable (_ ∧ _))

/-- Since `first`, `timeout` milliseconds have passed. -/
def Passed (first now : U64) (timeout : U32) : Prop := first.toNat + timeout.toNat ≤ now.toNat

instance : Decidable (Passed first now timeout) := inferInstanceAs (Decidable (_ ≤ _))

/-- A wait times out only when its time has passed, and then at once. -/
def Punctual (timeout : U32) (first now : U64) (r : Answer) : Prop :=
  (r = some waitTimeout → Passed first now timeout) ∧ (Passed first now timeout → r ≠ none)

/-- With real timeouts `WaitForSingleObject` keeps its deadline; without them no finite wait times
out. -/
structure Answered (real : Bool) (w : Wait) (first now : U64) (r : Answer) : Prop where
  kept : real = true → w = .single h t → Finite t → Punctual t first now r
  off : real = false → Finite w.timeout → r ≠ some waitTimeout

def Timely (real : Bool) (tr : List (Action × Event)) : Prop :=
  ∀ w first now r, .waited w first now r ∈ tr.map Prod.snd → Answered real w first now r

/-- A wait that keeps a deadline does not begin in a thread whose fields say that it has begun, and
the engine is not paused in one. -/
def Meets (s : Sys) : Action → Prop
  | .wait (.single h t) _ => s.desk.host.realTimeouts = true → Finite t → s.call = none →
      ∀ i ∈ s.desk.host.engine.current, s.desk.begun h t i = false
  | .tick => s.desk.host.realTimeouts = true → s.desk.host.engine.paused = true →
      s.desk.host.engine.anyReady = true → ∀ p ∈ s.call, p.wait.keeps = false
  | _ => True

instance (s : Sys) (a : Action) : Decidable (Meets s a) := by
  unfold Meets
  split <;> infer_instance

-- ---------------------------------------------------------------------------
-- Calls of other threads
-- ---------------------------------------------------------------------------

section

variable {e e' : Engine} {i j : Slot}

theorem blockOn_rests (x timeout : U32) (h : e.current ≠ some j) :
    Rests j e (blockOn e x timeout) :=
  (setWait_rests x h).trans (yield_rests (by rwa [setWait_current]))

theorem waitStep_rests (h : WaitStep x timeout e e') (hc : e.current ≠ some j) : Rests j e e' := by
  cases h with
  | stay => exact .refl
  | clear => exact setWait_rests 0 hc
  | poll => exact (setWait_rests x hc).trans (yield_rests (by rwa [setWait_current]))
  | block => exact blockOn_rests x timeout hc

theorem threadReturn_rests (h : e.current ≠ some j) : Rests j e (threadReturn e) := by
  unfold threadReturn
  split
  · exact .refl
  · split
    · exact .refl
    · exact (wake_rests e _).trans (exitThread_rests h)

theorem rouse_rests (s : Host) (i : Slot) : Rests j s.engine (rouse s i).engine := by
  unfold rouse
  split
  · exact .refl
  · split
    · exact wake_rests s.engine _
    · exact .refl

theorem backstop_rests (s : Host) : Rests j s.engine (backstop s).engine := by
  unfold backstop
  generalize (List.finRange 32).filter _ = l
  induction l generalizing s with
  | nil => exact .refl
  | cons i l ih => exact (rouse_rests s i).trans (ih (rouse s i))

/-- What the current thread calls leaves the others. -/
theorem call_rests (s : Host) (c : Call) (h : s.engine.current ≠ some j) :
    Rests j s.engine (s.call c).engine := by
  cases c with
  | create start param flags teb => exact create_rests s.engine
  | createEvent x manual initial => exact .refl
  | setEvent x => exact wake_rests s.engine x
  | resetEvent x => exact .refl
  | waitSingle x timeout expired =>
    exact waitStep_rests (waitForSingleObject_step s x timeout expired) h
  | waitSingleEx x timeout => exact waitStep_rests (waitForSingleObjectEx_step s x timeout) h
  | waitMultiple hs waitAll timeout =>
    obtain heq | ⟨x, -, hstep⟩ := waitForMultipleObjects_step s hs waitAll timeout
    · simp only [Host.call, heq]
      exact .refl
    · exact waitStep_rests hstep h
  | waitOther x => exact waitStep_rests (.block : WaitStep x infinite _ _) h
  | sleepOn x => exact waitStep_rests (.poll : WaitStep x 0 _ _) h
  | wakeOther x => exact wake_rests s.engine x
  | resume x => exact resumeThread_rests s.engine x
  | exitThread code => exact exitThread_rests h
  | threadReturn => exact threadReturn_rests h
  | yieldReady => exact yield_rests h
  | preempt => exact preempt_rests s.engine
  | tick => exact tick_rests fun _ _ => h
  | pause on => exact .refl
  | backstop => exact backstop_rests s
  | guest m => exact .refl

end

-- ---------------------------------------------------------------------------
-- The flag
-- ---------------------------------------------------------------------------

theorem consume_real (s : Host) (h : U32) : (consume s h).realTimeouts = s.realTimeouts := by
  unfold consume
  split <;> rfl

theorem consumes_real (l : List U32) (s : Host) :
    (l.foldl consume s).realTimeouts = s.realTimeouts := by
  induction l generalizing s with
  | nil => rfl
  | cons h l ih => exact (ih (consume s h)).trans (consume_real s h)

theorem rouses_real (l : List Slot) (s : Host) :
    (l.foldl rouse s).realTimeouts = s.realTimeouts := by
  induction l generalizing s with
  | nil => rfl
  | cons i l ih =>
    refine (ih (rouse s i)).trans ?_
    unfold rouse
    split
    · rfl
    · split <;> rfl

theorem single_real (s : Host) (h t : U32) (expired : Bool) :
    (waitForSingleObject s h t expired).realTimeouts = s.realTimeouts := by
  unfold waitForSingleObject
  split
  · dsimp only
    split <;> exact consume_real s h
  · split
    · split <;> rfl
    · split <;> rfl

theorem singleEx_real (s : Host) (h t : U32) :
    (waitForSingleObjectEx s h t).realTimeouts = s.realTimeouts := by
  unfold waitForSingleObjectEx
  split
  · exact consume_real s h
  · split <;> rfl

theorem multiple_real (s : Host) (handles : List U32) (waitAll : Bool) (t : U32) :
    (waitForMultipleObjects s handles waitAll t).realTimeouts = s.realTimeouts := by
  unfold waitForMultipleObjects
  cases handles.take 16 with
  | nil => rfl
  | cons h hs =>
    dsimp only
    generalize (if waitAll then _ else _ : Bool) = allDone
    cases allDone with
    | true =>
      simp only [if_true]
      split <;> exact consumes_real _ s
    | false =>
      simp only [Bool.false_eq_true, if_false]
      split <;> rfl

theorem call_real (s : Host) (c : Call) : (s.call c).realTimeouts = s.realTimeouts := by
  cases c with
  | waitSingle h t expired => exact single_real s h t expired
  | waitSingleEx h t => exact singleEx_real s h t
  | waitMultiple handles waitAll t => exact multiple_real s handles waitAll t
  | backstop => exact rouses_real _ s
  | _ => rfl

theorem wait_real (d : Desk) (now : U64) (w : Wait) :
    (wait d now w).2.host.realTimeouts = d.host.realTimeouts := by
  cases w with
  | single h t =>
    rw [wait, waitForSingleObject_host]
    exact single_real d.host h t _
  | singleEx h t =>
    rw [wait, waitForSingleObjectEx_host]
    exact singleEx_real d.host h t
  | multiple handles waitAll t =>
    rw [wait, waitForMultipleObjects_host]
    exact multiple_real d.host handles waitAll t

-- ---------------------------------------------------------------------------
-- One wait
-- ---------------------------------------------------------------------------

variable {d : Desk} {s s' : Sys} {i j : Slot} {h t : U32} {now first : U64} {w : Wait}

theorem stamp_self (hc : d.host.engine.current = some i) (f : Stamp → Stamp) :
    (d.stamp f).stamps i = f (d.stamps i) := by
  simp only [Desk.stamp, hc, Function.update_self]

theorem stamp_other (h : d.host.engine.current ≠ some j) (f : Stamp → Stamp) :
    (d.stamp f).stamps j = d.stamps j := by
  unfold Desk.stamp
  split
  · rfl
  · rename_i i hc
    have hj : j ≠ i := by
      rintro rfl
      exact h hc
    exact Function.update_of_ne hj ..

theorem park_stamps (h : d.host.engine.current ≠ some j) (x t : U32) :
    (d.park x t).2.stamps j = d.stamps j := stamp_other h _

theorem begin_stamps (h : d.host.engine.current ≠ some j) (x t : U32) (now : U64) :
    (d.begin x t now).stamps j = d.stamps j := by
  unfold Desk.begin
  split
  · exact stamp_other h _
  · rfl

theorem wait_stamps (h : d.host.engine.current ≠ some j) (now : U64) (w : Wait) :
    (wait d now w).2.stamps j = d.stamps j := by
  cases w with
  | single x t =>
    rw [wait]
    unfold Desk.waitForSingleObject
    split
    · dsimp only
      split <;> rfl
    · split
      · split
        · exact stamp_other h _
        · rfl
      · split
        · rfl
        · have hb : (d.begin x t now).host.engine.current ≠ some j := by rwa [begin_host]
          exact (park_stamps hb x t).trans (begin_stamps h x t now)
  | singleEx x t =>
    rw [wait]
    unfold Desk.waitForSingleObjectEx
    split
    · rfl
    · split
      · rfl
      · exact park_stamps h x t
  | multiple handles waitAll t =>
    rw [wait]
    unfold Desk.waitForMultipleObjects
    cases handles.take 16 with
    | nil => rfl
    | cons x hs =>
      dsimp only
      generalize (if waitAll then _ else _ : Bool) = allDone
      cases allDone with
      | true => rfl
      | false =>
        simp only [Bool.false_eq_true, if_false]
        split
        · rfl
        · exact park_stamps h x t

/-- What a wait leaves of the other threads. -/
theorem wait_rests (h : d.host.engine.current ≠ some j) (now : U64) (w : Wait) :
    Rests j d.host.engine (wait d now w).2.host.engine := by
  cases w with
  | single x t =>
    rw [wait, waitForSingleObject_host]
    exact waitStep_rests (waitForSingleObject_step d.host x t _) h
  | singleEx x t =>
    rw [wait, waitForSingleObjectEx_host]
    exact waitStep_rests (waitForSingleObjectEx_step d.host x t) h
  | multiple handles waitAll t =>
    rw [wait, waitForMultipleObjects_host]
    obtain heq | ⟨x, -, hstep⟩ := waitForMultipleObjects_step d.host handles waitAll t
    · rw [heq]
      exact .refl
    · exact waitStep_rests hstep h

/-- What a finite wait leaves of its thread when it goes on. -/
theorem park_goes (hc : d.host.engine.current = some i) (ht : t ≠ infinite) :
    (d.park h t).1 = none ∧ Runnable (d.park h t).2.host.engine i ∧
      ((d.park h t).2.host.engine.threads i).waitHandle = h ∧
      (d.park h t).2.stamps i = { d.stamps i with timeout := t } := by
  have hm : (d.mark h t).host.engine = setWait d.host.engine h := by rw [mark_host]
  have hcm : (d.mark h t).host.engine.current = some i := by
    rw [hm]
    exact setWait_current.trans hc
  obtain ⟨hsw, hr, hw⟩ := yield_runs hcm
  have hself : ((setWait d.host.engine h).threads i).waitHandle = h := by simp [setWait, hc]
  simp only [Desk.park, if_neg ht, Desk.withEngine]
  refine ⟨by rw [hsw]; rfl, hr, hw.trans ?_, ?_⟩
  · rw [hm]
    exact hself
  · exact stamp_self hc _

/-- The three ways of a wait that keeps its deadline. -/
theorem single_cases (hc : d.host.engine.current = some i) (hr : d.host.realTimeouts = true)
    (hf : Finite t) (h : U32) (now : U64) :
    let r := d.waitForSingleObject h t now
    let late := d.begun h t i = true ∧ t.setWidth 64 ≤ now - (d.stamps i).startMs
    r.1 = some 0 ∨ r.1 = some waitTimeout ∧ late ∨
      r.1 = none ∧ ¬ late ∧ Runnable r.2.host.engine i ∧
        (r.2.host.engine.threads i).waitHandle = h ∧
        r.2.stamps i = ⟨t, if d.begun h t i then (d.stamps i).startMs else now⟩ := by
  have htimed : d.timed t = true := by
    rw [Desk.timed, hr, Bool.true_and, bne_iff_ne]
    exact hf.2
  have hlate : d.timedOut h t now = true ↔
      d.begun h t i = true ∧ t.setWidth 64 ≤ now - (d.stamps i).startMs := by
    simp only [Desk.timedOut, htimed, hc, Bool.true_and, Option.any_some, Bool.and_eq_true,
      decide_eq_true_iff]
  dsimp only
  unfold Desk.waitForSingleObject
  split
  · exact .inl rfl
  · rw [if_neg hf.1]
    split
    · rename_i hl
      exact .inr (.inl ⟨rfl, hlate.1 hl⟩)
    · rename_i hl
      have hcb : (d.begin h t now).host.engine.current = some i := by rwa [begin_host]
      obtain ⟨h1, h2, h3, h4⟩ := park_goes (h := h) hcb hf.2
      refine .inr (.inr ⟨h1, fun hh => hl (hlate.2 hh), h2, h3, ?_⟩)
      rw [h4]
      simp only [Desk.begin, htimed, hc, Bool.true_and, Option.any_some]
      cases hb : d.begun h t i with
      | true => rfl
      | false =>
        simp only [Bool.not_false, if_true, stamp_self hc, Bool.false_eq_true, if_false]

/-- Without real timeouts a finite wait does not time out. -/
theorem wait_off (hc : d.host.engine.current = some i) (hr : d.host.realTimeouts = false)
    (hf : Finite w.timeout) : (wait d now w).1 ≠ some waitTimeout := by
  cases w with
  | single x t =>
    change Finite t at hf
    rw [wait]
    unfold Desk.waitForSingleObject
    split
    · nofun
    · rw [if_neg hf.1]
      have hno : d.timedOut x t now = false := by rw [Desk.timedOut, Desk.timed, hr]; rfl
      have hcb : (d.begin x t now).host.engine.current = some i := by rwa [begin_host]
      rw [hno, if_neg Bool.false_ne_true, (park_goes hcb hf.2).1]
      nofun
  | singleEx x t =>
    change Finite t at hf
    rw [wait]
    unfold Desk.waitForSingleObjectEx
    split
    · nofun
    · rw [if_neg hf.1, (park_goes hc hf.2).1]
      nofun
  | multiple handles waitAll t =>
    change Finite t at hf
    rw [wait]
    unfold Desk.waitForMultipleObjects
    have hlen : (handles.take 16).length ≤ 16 := List.length_take_le 16 handles
    cases htake : handles.take 16 with
    | nil => nofun
    | cons x hs =>
      rw [htake] at hlen
      dsimp only
      generalize (if waitAll then _ else _ : Bool) = allDone
      cases allDone with
      | true =>
        intro heq
        have hidx : (x :: hs).findIdx d.host.isSignalled ≤ (x :: hs).length :=
          List.findIdx_le_length
        have hval := congrArg BitVec.toNat (Option.some.inj heq)
        simp only [BitVec.toNat_ofNat] at hval
        change _ = 258 at hval
        omega
      | false =>
        simp only [Bool.false_eq_true, if_false]
        rw [if_neg hf.1, (park_goes hc hf.2).1]
        nofun

-- ---------------------------------------------------------------------------
-- Runs
-- ---------------------------------------------------------------------------

/-- The fields of thread `i` say that it waits on `h` since `first`. -/
structure Timed (s : Sys) (i : Slot) (h t : U32) (first : U64) : Prop where
  runs : Runnable s.desk.host.engine i
  handle : (s.desk.host.engine.threads i).waitHandle = h
  stamp : s.desk.stamps i = ⟨t, first⟩
  begun : first ≤ s.clock

structure Inv (real : Bool) (s : Sys) : Prop where
  flag : s.desk.host.realTimeouts = real
  timed : ∀ i h t first, real = true → s.calls i = some ⟨.single h t, first⟩ → Finite t →
    Timed s i h t first

theorem Timed.keep (h : Timed s i x t first) (hr : Rests i s.desk.host.engine s'.desk.host.engine)
    (hst : s'.desk.stamps i = s.desk.stamps i) (hc : s.clock ≤ s'.clock) :
    Timed s' i x t first := by
  obtain ⟨hruns, hw⟩ := hr h.runs
  exact ⟨hruns, hw.trans h.handle, hst.trans h.stamp, BitVec.le_trans h.begun hc⟩

theorem Timed.begun_true (h : Timed s i x t first) : s.desk.begun x t i = true := by
  rw [Desk.begun, h.handle, h.stamp]
  simp

theorem step_act (h : s.step a = some (s', e)) :
    (∀ p, s.call = some p → p.allows a = true) ∧ s.act a = some (s', e) := by
  unfold Sys.step at h
  split at h
  · rename_i hall
    exact ⟨fun p hp => by simpa [hp] using hall, h⟩
  · cases h

theorem passed_iff (hle : first ≤ now) :
    t.setWidth 64 ≤ now - first ↔ Passed first now t := by
  unfold Passed
  have ht := t.isLt
  bv_omega

/-- A wait that keeps its deadline is answered in time, or goes on with its fields right. -/
theorem single_kept (hi : Inv true s) (hc : s.desk.host.engine.current = some i)
    (hnow : s.clock ≤ now) (hf : Finite t)
    (hcall : ∀ p, s.calls i = some p → p.wait = .single h t)
    (hm : s.calls i = none → s.desk.begun h t i = false) :
    let r := s.desk.waitForSingleObject h t now
    Punctual t (s.since i now) now r.1 ∧
      (r.1 = none → ∀ calls, Timed ⟨r.2, now, calls⟩ i h t (s.since i now)) := by
  have hcases := single_cases hc hi.flag hf h now
  have hans : ∀ {r : Answer}, r = some 0 → Punctual t (s.since i now) now r := by
    rintro _ rfl
    exact ⟨nofun, nofun⟩
  dsimp only at hcases ⊢
  generalize s.desk.waitForSingleObject h t now = r at hcases ⊢
  cases hp : s.calls i with
  | none =>
    have hfirst : s.since i now = now := by rw [Sys.since, hp]; rfl
    rw [hm hp] at hcases
    obtain h0 | ⟨-, hlate, -⟩ | ⟨hnone, -, hruns, hw, hst⟩ := hcases
    · refine ⟨hans h0, fun h1 => ?_⟩
      rw [h0] at h1
      cases h1
    · cases hlate
    · rw [hfirst]
      refine ⟨⟨fun h1 => ?_, fun hpass => ?_⟩, fun _ calls => ⟨hruns, hw, hst, BitVec.le_refl _⟩⟩
      · rw [hnone] at h1
        cases h1
      · have ht : t.toNat ≠ 0 := fun h0 => hf.1 (BitVec.eq_of_toNat_eq h0)
        unfold Passed at hpass
        omega
  | some p =>
    obtain ⟨w, first⟩ := p
    obtain rfl : w = .single h t := hcall _ hp
    have hfirst : s.since i now = first := by rw [Sys.since, hp]; rfl
    have htimed := hi.timed _ _ _ _ rfl hp hf
    have hle : first ≤ now := BitVec.le_trans htimed.begun hnow
    rw [htimed.begun_true, htimed.stamp] at hcases
    obtain h0 | ⟨h1, -, hpass⟩ | ⟨hnone, hlate, hruns, hw, hst⟩ := hcases
    · refine ⟨hans h0, fun h1 => ?_⟩
      rw [h0] at h1
      cases h1
    · rw [hfirst]
      refine ⟨⟨fun _ => (passed_iff hle).1 hpass, fun _ => ?_⟩, fun h2 => ?_⟩
      · rw [h1]
        nofun
      · rw [h1] at h2
        cases h2
    · rw [hfirst]
      refine ⟨⟨fun h1 => ?_, fun hpass => ?_⟩, fun _ calls => ⟨hruns, hw, hst, hle⟩⟩
      · rw [hnone] at h1
        cases h1
      · exact absurd ⟨rfl, (passed_iff hle).2 hpass⟩ hlate

theorem wait_kept (hi : Inv real s) (hm : Meets s (.wait w now))
    (hs : s.step (.wait w now) = some (s', e)) : Inv real s' ∧
      ∃ i, e = .waited w (s.since i now) now (wait s.desk now w).1 ∧
        Answered real w (s.since i now) now (wait s.desk now w).1 := by
  obtain ⟨hallow, hact⟩ := step_act hs
  simp only [Sys.act] at hact
  split at hact
  · cases hact
  · rename_i hclock
    have hnow : s.clock ≤ now := BitVec.not_lt.1 hclock
    obtain ⟨i, hc, heq⟩ := Option.map_eq_some_iff.1 hact
    obtain ⟨rfl, rfl⟩ := Prod.mk.inj heq
    have hcalls : s.call = s.calls i := by rw [Sys.call, hc, Option.bind_some]
    have hsingle : ∀ h t, w = .single h t → Finite t → real = true →
        Punctual t (s.since i now) now (wait s.desk now w).1 ∧
          ((wait s.desk now w).1 = none →
            ∀ calls, Timed ⟨(wait s.desk now w).2, now, calls⟩ i h t (s.since i now)) := by
      rintro h t rfl hf rfl
      refine single_kept hi hc hnow hf (fun p hp => ?_) fun hnone => ?_
      · have hw := hallow p (hcalls.trans hp)
        exact (beq_iff_eq.1 hw).symm
      · exact hm hi.flag hf (hcalls.trans hnone) i hc
    refine ⟨⟨(wait_real s.desk now w).trans hi.flag, ?_⟩, i, rfl, ⟨?_, fun hr hf => ?_⟩⟩
    · intro j x t first hr hcall hf
      dsimp only at hcall
      by_cases hj : j = i
      · subst hj
        simp only [Function.update_self] at hcall
        split at hcall
        · rename_i hnone
          obtain ⟨hw, rfl⟩ := Pending.mk.inj (Option.some.inj hcall)
          exact (hsingle x t hw hf hr).2 (Option.isNone_iff_eq_none.1 hnone) _
        · cases hcall
      · simp only [Function.update_of_ne hj] at hcall
        have hcj : s.desk.host.engine.current ≠ some j := by
          rw [hc]
          exact fun he => hj (Option.some.inj he).symm
        exact (hi.timed _ _ _ _ hr hcall hf).keep (wait_rests hcj now w) (wait_stamps hcj now w) hnow
    · intro x t hr hw hf
      exact (hsingle x t hw hf hr).1
    · exact wait_off hc (hi.flag.trans hr) hf

/-- Nothing else that happens gets in the way of a wait. -/
theorem other_kept (hi : Inv real s) (hm : Meets s a) (hs : s.step a = some (s', e))
    (ha : ∀ w now, a ≠ .wait w now) : Inv real s' ∧ e = .nothing := by
  obtain ⟨hallow, hact⟩ := step_act hs
  cases a with
  | wait w now => exact absurd rfl (ha w now)
  | handler c f =>
    simp only [Sys.act] at hact
    split at hact
    · cases hact
    · obtain ⟨rfl, rfl⟩ := Prod.mk.inj (Option.some.inj hact)
      refine ⟨⟨?_, fun j x t first hr hcall hf => ?_⟩, rfl⟩
      · dsimp only
        rw [call_real, stamp_host]
        exact hi.flag
      · have hcj : s.desk.host.engine.current ≠ some j := by
          rintro hcj
          have hno := hallow ⟨.single x t, first⟩ (by rw [Sys.call, hcj]; exact hcall)
          cases hno
        refine (hi.timed _ _ _ _ hr hcall hf).keep ?_ (stamp_other hcj f) (BitVec.le_refl _)
        dsimp only
        rw [stamp_host]
        exact call_rests s.desk.host c hcj
  | pause on =>
    obtain ⟨rfl, rfl⟩ := Prod.mk.inj (Option.some.inj hact)
    refine ⟨⟨hi.flag, fun j x t first hr hcall hf => ?_⟩, rfl⟩
    exact (hi.timed _ _ _ _ hr hcall hf).keep .refl rfl (BitVec.le_refl _)
  | tick =>
    obtain ⟨rfl, rfl⟩ := Prod.mk.inj (Option.some.inj hact)
    refine ⟨⟨hi.flag, fun j x t first hr hcall hf => ?_⟩, rfl⟩
    have hcj : s.desk.host.engine.paused = true → s.desk.host.engine.anyReady = true →
        s.desk.host.engine.current ≠ some j := by
      rintro hp hany hcj
      have hno := hm (hi.flag.trans hr) hp hany ⟨.single x t, first⟩
        (by rw [Sys.call, hcj]; exact hcall)
      rw [Wait.keeps, Bool.and_eq_false_iff, bne_eq_false_iff_eq, bne_eq_false_iff_eq] at hno
      rcases hno with h0 | h0
      · exact hf.1 h0
      · exact hf.2 h0
    exact (hi.timed _ _ _ _ hr hcall hf).keep (tick_rests hcj) rfl (BitVec.le_refl _)

theorem start_inv (d : Desk) (clock : U64) : Inv d.host.realTimeouts (.start d clock) :=
  ⟨rfl, fun _ _ _ _ _ hcall => nomatch hcall⟩

theorem Timely.snoc {tr : List (Action × Event)} (h : Timely real tr)
    (he : ∀ w first now r, e = .waited w first now r → Answered real w first now r) :
    Timely real (tr ++ [(a, e)]) := by
  intro w first now r hmem
  rw [List.map_append, List.mem_append] at hmem
  rcases hmem with hmem | hmem
  · exact h w first now r hmem
  · exact he w first now r (List.mem_singleton.1 hmem).symm

/-- In every history of waits, of any threads on any objects. -/
theorem deadlines_law (d : Desk) (clock : U64) (tr : List (Action × Event)) (s : Sys)
    (h : Run Sys.step Meets (.start d clock) tr s) : Timely d.host.realTimeouts tr := by
  suffices hall : Inv d.host.realTimeouts s ∧ Timely d.host.realTimeouts tr from hall.2
  refine h.invariant (P := fun tr s => Inv d.host.realTimeouts s ∧ Timely d.host.realTimeouts tr)
    ⟨start_inv d clock, nofun⟩ ?_
  rintro tr s a s' e ⟨hi, ht⟩ hm hs
  by_cases ha : ∃ w now, a = .wait w now
  · obtain ⟨w, now, rfl⟩ := ha
    obtain ⟨hi', i, rfl, hans⟩ := wait_kept hi hm hs
    refine ⟨hi', ht.snoc fun w' first' now' r' heq => ?_⟩
    obtain ⟨rfl, rfl, rfl, rfl⟩ := Event.waited.inj heq
    exact hans
  · obtain ⟨hi', rfl⟩ := other_kept hi hm hs fun w now heq => ha ⟨w, now, heq⟩
    exact ⟨hi', ht.snoc nofun⟩

/-- A program with its main thread only, and no event set. -/
def fresh (real : Bool) : Desk := ⟨.load 0x20000000 .zero real, fun _ => ⟨0, 0⟩⟩

/-- Two threads: one waits, the other yields to it. -/
def waitTwice (t : U32) (first now : U64) : List Action :=
  [.handler (.create 0x401000 0 0 none) id, .wait (.single 0x200 t) first, .handler .yieldReady id,
    .wait (.single 0x200 t) now]

theorem deadlines_law_passed : ∃ tr s, Run Sys.step Meets (.start (fresh true) 0) tr s ∧
    Timely true tr ∧ .waited (.single 0x200 250) 1000 1250 (some waitTimeout) ∈ tr.map Prod.snd := by
  have hexec : (exec Sys.step Meets (.start (fresh true) 0) (waitTwice 250 1000 1250)).any
      (fun r => decide (.waited (.single 0x200 250) 1000 1250 (some waitTimeout) ∈
        r.1.map Prod.snd)) = true := by
    decide
  obtain ⟨tr, s, hrun, hmem⟩ := Run.of_exec_any hexec
  exact ⟨tr, s, hrun, deadlines_law (fresh true) 0 tr s hrun, of_decide_eq_true hmem⟩

/-- Without real timeouts the wait goes on. -/
theorem deadline_ignored : ¬ ∀ tr s, Run Sys.step anyStep (.start (fresh false) 0) tr s →
    ∀ w first now r, .waited w first now r ∈ tr.map Prod.snd → Finite w.timeout →
      Punctual w.timeout first now r := by
  intro hall
  have hexec : (exec Sys.step anyStep (.start (fresh false) 0) (waitTwice 250 1000 9000)).any
      (fun r => decide (.waited (.single 0x200 250) 1000 9000 none ∈ r.1.map Prod.snd)) = true := by
    decide
  obtain ⟨tr, s, hrun, hmem⟩ := Run.of_exec_any hexec
  have hp := hall tr s hrun _ _ _ _ (of_decide_eq_true hmem) (by decide)
  exact hp.2 (by decide) rfl

end WineGlass.Deadlines
