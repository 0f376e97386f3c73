import WineGlass.Coop.Answers

/-!
# One wait, three handlers

What `WaitForMultipleObjects` sees, takes and answers at one dispatch, for as many handles as its
array has room for, and how it goes with `WaitForSingleObject` and its `Ex` form on one handle.
-/

namespace WineGlass.WaitPaths

open Coop CondVars

/-- What the wait is for. -/
def Satisfied (s : Host) (handles : List U32) (waitAll : Bool) : Prop :=
  if waitAll then ∀ h ∈ handles, s.isSignalled h = true else ∃ h ∈ handles, s.isSignalled h = true

/-- The handles whose events a satisfied wait takes: all, or the first that is signalled. -/
def taken (s : Host) (handles : List U32) (waitAll : Bool) : List U32 :=
  if waitAll then handles else (handles.find? s.isSignalled).toList

def autoReset (s : Host) (x : U32) : Bool := isEvent x && !s.manual x

/-- A wait that is not satisfied times out, goes on, or is answered for being alone. -/
def pending (e : Engine) (t : U32) : Answer :=
  if t = 0 then some waitTimeout else if t = infinite ∧ e.otherReady = false then some 0 else none

structure Examines (d : Desk) (handles : List U32) (waitAll : Bool) (t : U32)
    (r : Answer × Desk) : Prop where
  answer : Satisfied d.host handles waitAll →
    r.1 = some (.ofNat 32 (handles.findIdx d.host.isSignalled)) ∧ r.2.host.engine = d.host.engine
  takes : Satisfied d.host handles waitAll → ∀ x, r.2.host.signalled x =
    (d.host.signalled x && !(autoReset d.host x && decide (x ∈ taken d.host handles waitAll)))
  goes : ¬ Satisfied d.host handles waitAll →
    r.1 = pending d.host.engine t ∧ r.2.host.signalled = d.host.signalled

/-- The same thread runs on the same machine, and every thread is in the same state. -/
structure SameRun (e e' : Engine) : Prop where
  current : e.current = e'.current
  states (i : Slot) : e.state i = e'.state i
  machine : e.blink = e'.blink

structure SameWait (r r' : Answer × Desk) : Prop where
  answer : r.1 = r'.1
  events : r.2.host.signalled = r'.2.host.signalled
  run : SameRun r.2.host.engine r'.2.host.engine

structure Agrees (d : Desk) (handles : List U32) (waitAll : Bool) (t : U32) (now : U64) : Prop where
  examines : handles ≠ [] → handles.length ≤ 16 →
    Examines d handles waitAll t (d.waitForMultipleObjects handles waitAll t)
  multiple : handles = [h] →
    d.waitForMultipleObjects handles waitAll t = d.waitForSingleObjectEx h t
  single : handles = [h] → d.host.isSignalled h = true ∨
      (t = 0 → d.host.engine.otherReady = false) ∧ d.timedOut h t now = false →
    SameWait (d.waitForSingleObject h t now) (d.waitForSingleObjectEx h t)

-- ---------------------------------------------------------------------------
-- Events taken
-- ---------------------------------------------------------------------------

variable {d : Desk} {handles : List U32} {waitAll : Bool} {h t : U32} {now : U64} {i : Slot}

theorem consume_signalled (s : Host) (h x : U32) : (consume s h).signalled x =
    (s.signalled x && !(autoReset s x && decide (x = h))) := by
  unfold consume autoReset
  by_cases hx : x = h
  · subst hx
    cases ha : isEvent x && !s.manual x with
    | true => simp
    | false => simp
  · split
    · simp [hx]
    · simp [hx]

theorem consume_autoReset (s : Host) (h x : U32) :
    autoReset (consume s h) x = autoReset s x := by
  unfold consume autoReset
  split <;> rfl

theorem consumes_signalled (l : List U32) (s : Host) (x : U32) : (l.foldl consume s).signalled x =
    (s.signalled x && !(autoReset s x && decide (x ∈ l))) := by
  induction l generalizing s with
  | nil => simp
  | cons h l ih =>
    rw [List.foldl_cons, ih, consume_signalled, consume_autoReset]
    cases s.signalled x <;> cases autoReset s x <;> simp

theorem consumes_engine (l : List U32) (s : Host) : (l.foldl consume s).engine = s.engine := by
  induction l generalizing s with
  | nil => rfl
  | cons h l ih =>
    refine (ih (consume s h)).trans ?_
    unfold consume
    split <;> rfl

-- ---------------------------------------------------------------------------
-- Waits that go on
-- ---------------------------------------------------------------------------

/-- A yield that blocks switches exactly when another thread is ready. -/
theorem yield_waiting {e : Engine} (hc : e.current = some i) :
    (yield e .waiting).1 = e.otherReady := by
  have hother : e.otherReady = true ↔ ∃ k, (save e .waiting).state k = .ready := by
    simp only [Engine.otherReady, List.any_eq_true, List.mem_finRange, true_and, Bool.and_eq_true,
      bne_iff_ne, beq_iff_eq, hc]
    refine exists_congr fun k => ?_
    by_cases hk : k = i
    · subst hk
      simp [save_state hc]
    · have hsame : (save e .waiting).threads k = e.threads k :=
        save_thread (by rw [hc]; exact fun he => hk (Option.some.inj he).symm)
      simp [Engine.state, hsame, hk]
  obtain ⟨k, hk, heq⟩ | ⟨hno, ⟨k, -, heq⟩ | ⟨hn, -⟩⟩ := yield_cases e .waiting
  · rw [heq, hother.2 ⟨k, hk⟩]
  · rw [heq, Bool.eq_false_iff.2 fun h => (hother.1 h).elim fun j hj => hno j hj]
  · rw [hc] at hn
    cases hn

theorem setWait_state (e : Engine) (x : U32) (k : Slot) : (setWait e x).state k = e.state k := by
  unfold setWait
  split
  · rfl
  · rename_i i hc
    by_cases hk : k = i
    · subst hk
      exact state_set_self
    · exact state_set_ne hk

theorem setWait_otherReady (e : Engine) (x : U32) : (setWait e x).otherReady = e.otherReady := by
  simp only [Engine.otherReady, setWait_state, setWait_current]

theorem park_pending (hc : d.host.engine.current = some i) (ht : t ≠ 0) :
    (d.park h t).1 = pending d.host.engine t := by
  have hcs : (setWait d.host.engine h).current = some i := setWait_current.trans hc
  simp only [Desk.park, pending, mark_host, if_neg ht]
  by_cases hinf : t = infinite
  · simp only [hinf, if_true, true_and, yield_waiting hcs, setWait_otherReady]
    cases d.host.engine.otherReady <;> rfl
  · simp only [hinf, if_false, false_and, if_true, (yield_runs hcs).1]

theorem park_signalled (d : Desk) (h t : U32) :
    (d.park h t).2.host.signalled = d.host.signalled := by rw [park_host]

-- ---------------------------------------------------------------------------
-- Several handles
-- ---------------------------------------------------------------------------

/-- The two tests of `WaitForMultipleObjects`. -/
theorem satisfied_iff (s : Host) (handles : List U32) (waitAll : Bool) :
    (if waitAll then (handles.filter s.isSignalled).length == handles.length
      else !(handles.filter s.isSignalled).isEmpty) = true ↔ Satisfied s handles waitAll := by
  cases waitAll with
  | true =>
    simp only [if_true, beq_iff_eq, Satisfied]
    exact List.length_filter_eq_length_iff
  | false =>
    simp only [Bool.false_eq_true, if_false, Satisfied, Bool.not_eq_true', List.isEmpty_eq_false_iff,
      ne_eq, List.filter_eq_nil_iff, not_forall, Bool.not_eq_true, Bool.not_eq_false]
    exact ⟨fun ⟨h, hm, hs⟩ => ⟨h, hm, hs⟩, fun ⟨h, hm, hs⟩ => ⟨h, hm, hs⟩⟩

theorem multiple_examines (hc : d.host.engine.current = some i) (hne : handles ≠ [])
    (hlen : handles.length ≤ 16) :
    Examines d handles waitAll t (d.waitForMultipleObjects handles waitAll t) := by
  have htake : handles.take 16 = handles := List.take_of_length_le hlen
  unfold Desk.waitForMultipleObjects
  rw [htake]
  cases handles with
  | nil => exact absurd rfl hne
  | cons h hs =>
    dsimp only
    by_cases hsat : Satisfied d.host (h :: hs) waitAll
    · rw [if_pos ((satisfied_iff d.host (h :: hs) waitAll).2 hsat)]
      refine ⟨fun _ => ⟨rfl, ?_⟩, fun _ x => ?_, fun hno => absurd hsat hno⟩
      · cases waitAll with
        | true => exact consumes_engine (h :: hs) d.host
        | false => exact consumes_engine _ d.host
      · cases waitAll with
        | true => exact consumes_signalled (h :: hs) d.host x
        | false =>
          simp only [Bool.false_eq_true, if_false, List.head?_filter]
          exact consumes_signalled _ d.host x
    · rw [if_neg fun hall => hsat ((satisfied_iff d.host (h :: hs) waitAll).1 hall)]
      refine ⟨fun hyes => absurd hyes hsat, fun hyes => absurd hyes hsat, fun _ => ?_⟩
      by_cases ht : t = 0
      · rw [if_pos ht, pending, if_pos ht]
        exact ⟨rfl, rfl⟩
      · rw [if_neg ht]
        exact ⟨park_pending hc ht, park_signalled d h t⟩

-- ---------------------------------------------------------------------------
-- One handle
-- ---------------------------------------------------------------------------

theorem multiple_one (d : Desk) (h : U32) (waitAll : Bool) (t : U32) :
    d.waitForMultipleObjects [h] waitAll t = d.waitForSingleObjectEx h t := by
  unfold Desk.waitForMultipleObjects Desk.waitForSingleObjectEx
  cases hs : d.host.isSignalled h with
  | true => cases waitAll <;> simp [hs, List.findIdx_cons]
  | false => cases waitAll <;> simp [hs]

theorem begin_park (d : Desk) (h t : U32) (now : U64) :
    SameWait ((d.begin h t now).park h t) (d.park h t) := by
  have hm : ((d.begin h t now).mark h t).host = (d.mark h t).host := by
    rw [mark_host, mark_host, begin_host]
  refine ⟨?_, ?_, ?_⟩
  · simp only [Desk.park, hm]
  · rw [park_signalled, park_signalled, begin_host]
  · rw [park_host, park_host, begin_host]
    exact ⟨rfl, fun _ => rfl, rfl⟩

theorem single_same (h : d.host.isSignalled x = true ∨
    (t = 0 → d.host.engine.otherReady = false) ∧ d.timedOut x t now = false) :
    SameWait (d.waitForSingleObject x t now) (d.waitForSingleObjectEx x t) := by
  unfold Desk.waitForSingleObject Desk.waitForSingleObjectEx
  cases hs : d.host.isSignalled x with
  | true =>
    simp only [if_true]
    split
    · exact ⟨rfl, rfl, setWait_current, setWait_state _ 0, by unfold Desk.clear setWait; split <;> rfl⟩
    · exact ⟨rfl, rfl, rfl, fun _ => rfl, rfl⟩
  | false =>
    obtain ⟨hpoll, hlate⟩ := h.resolve_left (by rw [hs]; nofun)
    simp only [Bool.false_eq_true, if_false]
    by_cases ht : t = 0
    · rw [if_pos ht, if_pos ht, hpoll ht]
      exact ⟨rfl, rfl, rfl, fun _ => rfl, rfl⟩
    · rw [if_neg ht, if_neg ht, hlate]
      exact begin_park d x t now

/-- At every dispatch, in whatever state. -/
theorem wait_paths_law (hc : d.host.engine.current = some i) (handles : List U32)
    (waitAll : Bool) (t : U32) (now : U64) : Agrees d handles waitAll t now where
  examines hne hlen := multiple_examines hc hne hlen
  multiple := by
    rintro h rfl
    exact multiple_one d h waitAll t
  single _ h := single_same h

/-- A program with its main thread only, and no event set. -/
def alone : Desk := ⟨.load 0x20000000 .zero false, fun _ => ⟨0, 0⟩⟩

theorem wait_paths_law_alone : Agrees alone [0x200, 0x201] true 0 0 :=
  wait_paths_law (i := 0) rfl [0x200, 0x201] true 0 0

/-- A thread that is alone waits for good on two events and is told that both are signalled. -/
theorem alone_answered : (alone.waitForMultipleObjects [0x200, 0x201] true infinite).1 = some 0 ∧
    ¬ Satisfied alone.host [0x200, 0x201] true := by
  refine ⟨by decide, fun h => ?_⟩
  have hsig : alone.host.isSignalled 0x200 = false := by decide
  have hyes := h 0x200 (List.mem_cons_self ..)
  rw [hsig] at hyes
  cases hyes

end WineGlass.WaitPaths
