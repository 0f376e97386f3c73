import WineGlass.Coop.Scheduler

/-!
# Waits and wake-ups

The wait handlers of the cooperative mode, with the environment switches at
their defaults. A waiting thread's slot holds one handle, of
`WaitForMultipleObjects` the first. A wake finds waiting threads by that
handle; `SetEvent` and the return of a thread to address 0 wake, `ExitThread`
does not. `waitSet` is not in the source: it notes what a waiting thread
passed to the wait it is in.
-/

namespace WineGlass.Coop

open Runs

def infinite : U32 := 0xFFFFFFFF

/-- `WG_EVENT_BASE` and the `WG_MAX_EVENTS` handles from there on. -/
def eventBase : U32 := 0x200
def maxEvents : U32 := 3584

def isEvent (h : U32) : Bool := decide (eventBase ≤ h) && decide (h < eventBase + maxEvents)

structure Host where
  engine : Engine
  signalled : U32 → Bool
  manual : U32 → Bool
  realTimeouts : Bool
  waitSet : Slot → Option (List U32)

def Host.load (teb : U32) (m : Machine) (realTimeouts : Bool) : Host :=
  ⟨.load teb m, fun _ => false, fun _ => false, realTimeouts, fun _ => none⟩

/-- An event whose flag is up, or the handle of a thread that has exited. -/
def Host.isSignalled (s : Host) (h : U32) : Bool :=
  (isEvent h && s.signalled h) ||
    match s.engine.find h with
    | some i => s.engine.state i == .exited
    | none => false

/-- `wg_event_consume`. -/
def consume (s : Host) (h : U32) : Host :=
  if isEvent h && !s.manual h then { s with signalled := Function.update s.signalled h false }
  else s

def setEvent (s : Host) (h : U32) : Host :=
  { s with
    signalled := if isEvent h then Function.update s.signalled h true else s.signalled
    engine := wake s.engine h }

-- ---------------------------------------------------------------------------
-- Handlers
-- ---------------------------------------------------------------------------

/-- Wait on `h`: for good, or as a poll that stays ready. -/
def blockOn (e : Engine) (h timeout : U32) : Engine :=
  (yield (setWait e h) (if timeout = infinite then .waiting else .ready)).2

/-- `WaitForSingleObject`; `expired` tells whether the clock has reached the
deadline of a wait that began earlier. -/
def waitForSingleObject (s : Host) (h timeout : U32) (expired : Bool) : Host :=
  if s.isSignalled h then
    let s := consume s h
    if s.realTimeouts then { s with engine := setWait s.engine 0 } else s
  else if timeout = 0 then
    if s.engine.otherReady then
      { s with engine := (yield (setWait s.engine h) .ready).2 }
    else s
  else if s.realTimeouts && timeout != infinite && s.engine.current.isSome && expired then
    { s with engine := setWait s.engine 0 }
  else { s with engine := blockOn s.engine h timeout }

def waitForSingleObjectEx (s : Host) (h timeout : U32) : Host :=
  if s.isSignalled h then consume s h
  else if timeout = 0 then s
  else { s with engine := blockOn s.engine h timeout }

/-- `WaitForMultipleObjects` looks at 16 handles at most. -/
def waitForMultipleObjects (s : Host) (handles : List U32) (waitAll : Bool) (timeout : U32) :
    Host :=
  match handles.take 16 with
  | [] => s
  | h :: hs =>
    let sig := (h :: hs).filter s.isSignalled
    let allDone := if waitAll then sig.length == (h :: hs).length else !sig.isEmpty
    if allDone then
      if waitAll then (h :: hs).foldl consume s
      else (sig.head?.toList).foldl consume s
    else if timeout = 0 then s
    else { s with engine := blockOn s.engine h timeout }

theorem rax_lt : 0 < 16 := by decide

/-- Where a thread returns to address 0. -/
def threadReturn (e : Engine) : Engine :=
  match e.current with
  | none => e
  | some i =>
    if (e.threads i).id = 1 then e
    else exitThread (wake e (e.threads i).handle) ((getElem e.blink.weg 0 rax_lt).setWidth 32)

/-- The backstop of `Sleep`, of one slot: the event its thread waits on is set. -/
def rouse (s : Host) (i : Slot) : Host :=
  if s.engine.state i = .free ∨ s.engine.state i = .exited then s
  else if isEvent (s.engine.threads i).waitHandle then setEvent s (s.engine.threads i).waitHandle
  else s

def backstop (s : Host) : Host :=
  ((List.finRange 32).filter fun i => i.val < s.engine.count).foldl rouse s

inductive Call
  | create (start param flags : U32) (teb : Option U32)
  | createEvent (h : U32) (manual initial : Bool)
  | setEvent (h : U32)
  | resetEvent (h : U32)
  | waitSingle (h timeout : U32) (expired : Bool)
  | waitSingleEx (h timeout : U32)
  | waitMultiple (handles : List U32) (waitAll : Bool) (timeout : U32)
  /-- `GetQueuedCompletionStatus` and the like, on an object of their own. -/
  | waitOther (h : U32)
  /-- `SleepConditionVariable`: parked on `h`, ready. -/
  | sleepOn (h : U32)
  | wakeOther (h : U32)
  | resume (h : U32)
  | exitThread (code : U32)
  | threadReturn
  | yieldReady
  | preempt
  | tick
  | pause (on : Bool)
  | backstop
  | guest (m : Machine)

def Host.call (s : Host) : Call → Host
  | .create start param flags teb =>
    { s with engine := (Coop.create s.engine start param flags teb).2 }
  | .createEvent h manual initial =>
    { s with
      signalled := Function.update s.signalled h initial
      manual := Function.update s.manual h manual }
  | .setEvent h => Coop.setEvent s h
  | .resetEvent h => { s with
      signalled := if isEvent h then Function.update s.signalled h false else s.signalled }
  | .waitSingle h timeout expired => waitForSingleObject s h timeout expired
  | .waitSingleEx h timeout => waitForSingleObjectEx s h timeout
  | .waitMultiple handles waitAll timeout => waitForMultipleObjects s handles waitAll timeout
  | .waitOther h => { s with engine := (waitOn s.engine h).2 }
  | .sleepOn h => { s with engine := (yield (setWait s.engine h) .ready).2 }
  | .wakeOther h => { s with engine := wake s.engine h }
  | .resume h => { s with engine := resumeThread s.engine h }
  | .exitThread code => { s with engine := Coop.exitThread s.engine code }
  | .threadReturn => { s with engine := Coop.threadReturn s.engine }
  | .yieldReady => { s with engine := (yield s.engine .ready).2 }
  | .preempt => { s with engine := Coop.preempt s.engine }
  | .tick => { s with engine := Coop.tick s.engine }
  | .pause on => { s with engine := { s.engine with paused := on } }
  | .backstop => Coop.backstop s
  | .guest m => { s with engine := { s.engine with blink := m } }

/-- The wait set of a wait for any of its objects, for as long as it takes. -/
def Call.waitSet : Call → Option (List U32)
  | .waitSingle h timeout _ => if timeout = infinite then some [h] else none
  | .waitSingleEx h timeout => if timeout = infinite then some [h] else none
  | .waitMultiple hs waitAll timeout => if timeout = infinite ∧ waitAll = false then some hs else none
  | _ => none

def Host.note (s : Host) (c : Call) (i : Slot) : Option (List U32) :=
  if (s.call c).engine.state i ≠ .waiting then none
  else if s.engine.current = some i then c.waitSet
  else s.waitSet i

def Host.step (s : Host) (c : Call) : Option (Host × Unit) :=
  some ({ s.call c with waitSet := s.note c }, ())

-- ---------------------------------------------------------------------------
-- The claim
-- ---------------------------------------------------------------------------

/-- The call signals `h`: it sets the event, or ends the thread. -/
def Host.Signals (s : Host) (h : U32) : Call → Prop
  | .setEvent x => isEvent x = true ∧ x = h
  | .exitThread _ => ∃ i, s.engine.current = some i ∧ (s.engine.threads i).handle = h
  | .threadReturn => ∃ i, s.engine.current = some i ∧ (s.engine.threads i).id ≠ 1 ∧
      (s.engine.threads i).handle = h
  | _ => False

/-- Thread `i` waits for any of a set of objects with `h` among them. -/
def Host.AwaitsAny (s : Host) (i : Slot) (h : U32) : Prop := ∃ hs, s.waitSet i = some hs ∧ h ∈ hs

/-- Whoever waits for an object the call signals can run. -/
def Prompt (s : Host) (c : Call) (s' : Host) : Prop :=
  ∀ h i, s.Signals h c → s.AwaitsAny i h →
    s'.engine.state i = .ready ∨ s'.engine.state i = .running

/-- No thread exits by `ExitThread` that another waits for, and what is
signalled otherwise is the first object of every wait it is in. -/
def Meets (s : Host) (c : Call) : Prop :=
  match c with
  | .exitThread _ => ∀ h i, s.Signals h c → ¬ s.AwaitsAny i h
  | c => ∀ h i hs, s.Signals h c → s.waitSet i = some hs → h ∈ hs → hs.head? = some h

-- ---------------------------------------------------------------------------
-- Threads that are not switched
-- ---------------------------------------------------------------------------

/-- The current thread is running. -/
def Busy (e : Engine) : Prop := ∀ i, e.current = some i → e.state i = .running

variable {e : Engine} {i j : Slot}

theorem enter_thread (h : j ≠ i) : (e.enter i).threads j = e.threads j := set_ne h

theorem save_thread (h : e.current ≠ some j) : (save e st).threads j = e.threads j := by
  unfold save
  split
  · rfl
  · rename_i i hc
    exact set_ne fun hji => h (hji ▸ hc)

theorem setWait_thread (h : e.current ≠ some j) : (setWait e x).threads j = e.threads j := by
  unfold setWait
  split
  · rfl
  · rename_i i hc
    exact set_ne fun hji => h (hji ▸ hc)

theorem setWait_current : (setWait e x).current = e.current := by
  unfold setWait
  split <;> rfl

theorem switchNext_thread (h : e.state j ≠ .ready) :
    (switchNext e).2.threads j = e.threads j := by
  obtain ⟨i, hi, heq⟩ | ⟨-, heq⟩ := switchNext_cases e
  · rw [heq]
    exact enter_thread fun hji => h (hji ▸ hi)
  · rw [heq]

theorem yield_thread (h : e.current ≠ some j) (hr : e.state j ≠ .ready) :
    (yield e st).2.threads j = e.threads j := by
  have hs : (save e st).threads j = e.threads j := save_thread h
  obtain ⟨i, hi, heq⟩ | ⟨-, ⟨i, hc, heq⟩ | ⟨-, heq⟩⟩ := yield_cases e st
  · rw [heq]
    refine (enter_thread fun hji => ?_).trans hs
    rw [← hji, Engine.state, hs] at hi
    exact hr hi
  · rw [heq]
    refine (enter_thread fun hji => ?_).trans hs
    exact h (hji ▸ hc)
  · rw [heq]

theorem exitThread_thread (h : e.current ≠ some j) (hr : e.state j ≠ .ready) :
    (exitThread e code).threads j = e.threads j := by
  unfold exitThread
  split
  · rfl
  · rename_i i hc
    have hji : j ≠ i := fun hji => h (hji ▸ hc)
    refine (switchNext_thread ?_).trans (set_ne hji)
    simpa only [Engine.state, Engine.set, Function.update_of_ne hji] using hr

theorem resumeThread_thread (h : e.state j ≠ .suspended) :
    (resumeThread e x).threads j = e.threads j := by
  unfold resumeThread
  split
  · rfl
  split
  · rename_i i _ hs
    exact set_ne fun hji => h (hji ▸ hs)
  · rfl

theorem preempt_thread (h : e.current ≠ some j) (hr : e.state j ≠ .ready) :
    (preempt e).threads j = e.threads j := by
  unfold preempt
  split
  · exact yield_thread h hr
  · rfl

theorem tick_thread (h : e.current ≠ some j) (hr : e.state j ≠ .ready) :
    (tick e).threads j = e.threads j := by
  have hs : (save e .waiting).threads j = e.threads j := save_thread h
  have hn : (switchNext (save e .waiting)).2.threads j = e.threads j := by
    refine (switchNext_thread ?_).trans hs
    rwa [Engine.state, hs]
  unfold tick
  split
  · split
    · rename_i heq
      simpa [heq] using hn
    · rename_i heq
      simpa [heq] using hn
  · rfl

/-- A creation leaves state and wait of other threads. -/
theorem create_thread (h : e.state j ≠ .free) :
    ((create e start param flags teb).2.threads j).state = (e.threads j).state ∧
    ((create e start param flags teb).2.threads j).waitHandle = (e.threads j).waitHandle := by
  have hc : (createThread e start param flags).2.threads j = e.threads j := by
    unfold createThread
    split
    · rfl
    · rename_i i hf
      have hi : e.state i = .free := by simpa using firstSlot_some hf
      exact set_ne fun hji => h (hji ▸ hi)
  have hg : ∀ e x teb, ((giveTeb e x teb).threads j).state = (e.threads j).state ∧
      ((giveTeb e x teb).threads j).waitHandle = (e.threads j).waitHandle := by
    intro e x teb
    unfold giveTeb
    split
    · exact ⟨rfl, rfl⟩
    split
    · exact ⟨rfl, rfl⟩
    · rename_i i _ _
      by_cases hji : j = i
      · subst hji
        simp [Thread.withTeb]
      · simp [hji]
  unfold create
  cases teb with
  | none => simp [hc]
  | some teb =>
    dsimp only
    split
    · simp [hc]
    · have hg := hg (createThread e start param flags).2 (createThread e start param flags).1 teb
      rwa [hc] at hg

-- ---------------------------------------------------------------------------
-- The current thread
-- ---------------------------------------------------------------------------

theorem enter_busy (e : Engine) (i : Slot) : Busy (e.enter i) := by
  intro j hj
  obtain rfl := Option.some.inj hj
  simp [Engine.enter, Engine.state, Engine.set]

theorem switchNext_busy (h : Busy e) : Busy (switchNext e).2 := by
  obtain ⟨i, -, heq⟩ | ⟨-, heq⟩ := switchNext_cases e
  · rw [heq]
    exact enter_busy e i
  · rwa [heq]

theorem yield_busy (e : Engine) (st : ThreadState) : Busy (yield e st).2 := by
  obtain ⟨i, -, heq⟩ | ⟨-, ⟨i, -, heq⟩ | ⟨hc, heq⟩⟩ := yield_cases e st
  · rw [heq]
    exact enter_busy _ i
  · rw [heq]
    exact enter_busy _ i
  · rw [heq]
    intro i hi
    simp [hc] at hi

theorem setWait_busy (h : Busy e) : Busy (setWait e x) := by
  unfold setWait
  split
  · exact h
  · rename_i i hc
    intro j hj
    obtain rfl := Option.some.inj (hc.symm.trans hj)
    simpa [Engine.state] using h i hc

theorem wake_busy (h : Busy e) : Busy (wake e x) := by
  intro i hc
  have hi := h i hc
  unfold wake
  simp [Engine.state] at hi ⊢
  simp [hi]

theorem resumeThread_busy (h : Busy e) : Busy (resumeThread e x) := by
  intro i hc
  unfold resumeThread at hc ⊢
  split at hc
  · exact h i hc
  split at hc
  · rename_i k hf hs
    have hi := h i hc
    have hik : i ≠ k := fun hik => by simp [← hik, hi] at hs
    simpa [hs, hik] using hi
  · rename_i hs
    simpa [hs] using h i hc

theorem exitThread_busy (h : Busy e) : Busy (exitThread e code) := by
  unfold exitThread
  split
  · exact h
  · exact switchNext_busy fun _ hi => by cases hi

theorem preempt_busy (h : Busy e) : Busy (preempt e) := by
  unfold preempt
  split
  · exact yield_busy e .ready
  · exact h

theorem tick_busy (h : Busy e) : Busy (tick e) := by
  unfold tick
  split
  · rename_i hp
    obtain ⟨-, hr⟩ := Bool.and_eq_true_iff.1 hp
    simp only [Engine.anyReady, List.any_eq_true, beq_iff_eq] at hr
    obtain ⟨i, -, hi⟩ := hr
    -- A ready thread is not the current one, so there is one to switch to.
    have hne : e.current ≠ some i := fun hc => by simp [h i hc] at hi
    have hs : (save e .waiting).state i = .ready := by
      rw [Engine.state, save_thread hne]
      exact hi
    obtain ⟨k, -, heq⟩ | ⟨hno, -⟩ := switchNext_cases (save e .waiting)
    · rw [heq]
      exact enter_busy _ k
    · exact absurd hs (hno i)
  · exact h

theorem create_current : (create e start param flags teb).2.current = e.current := by
  have hc : (createThread e start param flags).2.current = e.current := by
    unfold createThread
    split <;> rfl
  have hg : ∀ e x teb, (giveTeb e x teb).current = e.current := by
    intro e x teb
    unfold giveTeb
    split
    · rfl
    split <;> rfl
  unfold create
  cases teb with
  | none => exact hc
  | some teb =>
    dsimp only
    split
    · exact hc
    · exact (hg _ _ _).trans hc

theorem create_busy (h : Busy e) : Busy (create e start param flags teb).2 := by
  intro i hc
  rw [create_current] at hc
  have hi := h i hc
  rw [Engine.state, (create_thread (by simp [hi])).1]
  exact hi

/-- What a wait leaves of the thread that performed it. -/
theorem blockOn_current (hc : e.current = some i)
    (hw : (blockOn e x timeout).state i = .waiting) :
    ((blockOn e x timeout).threads i).waitHandle = x := by
  unfold blockOn at hw ⊢
  generalize (if timeout = infinite then ThreadState.waiting else .ready) = st at hw ⊢
  have hset : (setWait e x).current = some i := setWait_current.trans hc
  have hs : ((save (setWait e x) st).threads i).waitHandle = x := by
    simp [save, setWait, hc]
  obtain ⟨k, -, heq⟩ | ⟨-, ⟨k, -, heq⟩ | ⟨hnone, -⟩⟩ := yield_cases (setWait e x) st
  all_goals try rw [heq] at hw ⊢
  · have hik : i ≠ k := fun hik => by
      simp [hik, Engine.enter, Engine.state, Engine.set] at hw
    rwa [enter_thread hik]
  · have hik : i ≠ k := fun hik => by
      simp [hik, Engine.enter, Engine.state, Engine.set] at hw
    rwa [enter_thread hik]
  · simp [hset] at hnone

theorem yield_current (hc : e.current = some i) (hst : st ≠ .waiting) :
    (yield e st).2.state i ≠ .waiting := by
  have hs : (save e st).state i ≠ .waiting := by rwa [save_state hc]
  have he : ∀ k, ((save e st).enter k).state i ≠ .waiting := by
    intro k
    by_cases hik : i = k
    · simp [hik, Engine.enter, Engine.state, Engine.set]
    · rwa [Engine.state, enter_thread hik]
  obtain ⟨k, -, heq⟩ | ⟨-, ⟨k, -, heq⟩ | ⟨hnone, -⟩⟩ := yield_cases e st
  · rw [heq]
    exact he k
  · rw [heq]
    exact he k
  · simp [hc] at hnone

theorem blockOn_thread (h : e.current ≠ some j) (hr : e.state j ≠ .ready) :
    (blockOn e x timeout).threads j = e.threads j := by
  have hs := setWait_thread h (x := x)
  refine (yield_thread (by rwa [setWait_current]) ?_).trans hs
  rwa [Engine.state, hs]

-- ---------------------------------------------------------------------------
-- Wake-ups
-- ---------------------------------------------------------------------------

/-- Thread `j` is as it was, or can run. -/
def Woken (j : Slot) (e e' : Engine) : Prop :=
  e'.threads j = e.threads j ∨ e'.state j = .ready ∨ e'.state j = .running

theorem wake_hit (hw : e.state j = .waiting) (hx : (e.threads j).waitHandle = x) :
    (wake e x).state j = .ready := by
  simp [wake, Engine.state, hx] at hw ⊢
  simp [hw]

theorem wake_miss (h : e.state j = .waiting → (e.threads j).waitHandle ≠ x) :
    (wake e x).threads j = e.threads j :=
  if_neg fun hw => h hw.1 hw.2

theorem wake_woken (e : Engine) (x : U32) (j : Slot) : Woken j e (wake e x) := by
  by_cases h : e.state j = .waiting ∧ (e.threads j).waitHandle = x
  · exact .inr (.inl (wake_hit h.1 h.2))
  · exact .inl (wake_miss fun hw hx => h ⟨hw, hx⟩)

theorem Woken.trans (h : Woken j e e') (h' : Woken j e' e'')
    (hr : e'.state j = .ready ∨ e'.state j = .running →
      e''.state j = .ready ∨ e''.state j = .running) : Woken j e e'' := by
  rcases h with h | h
  · rcases h' with h' | h'
    · exact .inl (h'.trans h)
    · exact .inr h'
  · exact .inr (hr h)

theorem wake_runs (h : e.state j = .ready ∨ e.state j = .running) :
    (wake e x).state j = .ready ∨ (wake e x).state j = .running := by
  rw [Engine.state, wake_miss fun hw => by simp [hw] at h]
  exact h

theorem exitThread_runs (h : e.current ≠ some j) (hr : e.state j = .ready) :
    (exitThread e code).state j = .ready ∨ (exitThread e code).state j = .running := by
  unfold exitThread
  split
  · exact .inl hr
  · rename_i i hc
    have hji : j ≠ i := fun hji => h (hji ▸ hc)
    obtain ⟨k, -, heq⟩ | ⟨-, heq⟩ := switchNext_cases
      { e.set i { e.threads i with state := .exited, exitCode := code } with current := none }
    · rw [heq]
      by_cases hjk : j = k
      · subst hjk
        right
        simp [Engine.enter, Engine.state, Engine.set]
      · left
        rw [Engine.state, enter_thread hjk]
        simpa only [Engine.state, Engine.set, Function.update_of_ne hji] using hr
    · rw [heq]
      left
      simpa only [Engine.state, Engine.set, Function.update_of_ne hji] using hr

theorem rouse_woken (s : Host) (i j : Slot) : Woken j s.engine (rouse s i).engine := by
  unfold rouse
  split
  · exact .inl rfl
  split
  · exact wake_woken ..
  · exact .inl rfl

theorem rouse_runs (s : Host) (i : Slot) (h : s.engine.state j = .ready ∨ s.engine.state j = .running) :
    (rouse s i).engine.state j = .ready ∨ (rouse s i).engine.state j = .running := by
  unfold rouse
  split
  · exact h
  split
  · exact wake_runs h
  · exact h

theorem rouse_busy (s : Host) (i : Slot) (h : Busy s.engine) : Busy (rouse s i).engine := by
  unfold rouse
  split
  · exact h
  split
  · exact wake_busy h
  · exact h

/-- The backstop wakes threads and does nothing else to them. -/
theorem rouse_all (l : List Slot) (s : Host) (h : Busy s.engine) :
    Busy (l.foldl rouse s).engine ∧ ∀ j, Woken j s.engine (l.foldl rouse s).engine ∧
      (s.engine.state j = .ready ∨ s.engine.state j = .running →
        (l.foldl rouse s).engine.state j = .ready ∨ (l.foldl rouse s).engine.state j = .running) := by
  induction l generalizing s with
  | nil => exact ⟨h, fun j => ⟨.inl rfl, id⟩⟩
  | cons i l ih =>
    obtain ⟨hb, hj⟩ := ih (rouse s i) (rouse_busy s i h)
    refine ⟨hb, fun j => ⟨?_, fun hr => (hj j).2 (rouse_runs s i hr)⟩⟩
    exact (rouse_woken s i j).trans (hj j).1 (hj j).2

theorem threadReturn_cases (e : Engine) :
    (∀ i, e.current = some i → (e.threads i).id = 1) ∧ threadReturn e = e ∨
    ∃ i, e.current = some i ∧ (e.threads i).id ≠ 1 ∧
      threadReturn e = exitThread (wake e (e.threads i).handle) (e.blink.weg[0].setWidth 32) := by
  unfold threadReturn
  split
  · rename_i hc
    exact .inl ⟨fun i hi => by simp [hc] at hi, rfl⟩
  · rename_i i hc
    split
    · rename_i hid
      exact .inl ⟨fun j hj => Option.some.inj (hc.symm.trans hj) ▸ hid, rfl⟩
    · rename_i hid
      exact .inr ⟨i, hc, hid, rfl⟩

theorem threadReturn_woken (h : e.current ≠ some j) (hw : e.state j = .waiting) :
    Woken j e (threadReturn e) := by
  obtain ⟨-, heq⟩ | ⟨i, -, -, heq⟩ := threadReturn_cases e
  · exact .inl (congrArg (·.threads j) heq)
  · rw [heq]
    by_cases hx : (e.threads j).waitHandle = (e.threads i).handle
    · exact .inr (exitThread_runs h (wake_hit hw hx))
    · have hm := wake_miss fun _ => hx
      have hc : (wake e (e.threads i).handle).current ≠ some j := h
      left
      refine (exitThread_thread hc ?_).trans hm
      rw [Engine.state, hm]
      simp only [Engine.state] at hw
      simp [hw]

theorem threadReturn_busy (h : Busy e) : Busy (threadReturn e) := by
  obtain ⟨-, heq⟩ | ⟨i, -, -, heq⟩ := threadReturn_cases e
  · rwa [heq]
  · rw [heq]
    exact exitThread_busy (wake_busy h)

-- ---------------------------------------------------------------------------
-- Calls
-- ---------------------------------------------------------------------------

@[simp] theorem consume_engine (s : Host) (h : U32) : (consume s h).engine = s.engine := by
  unfold consume
  split <;> rfl

@[simp] theorem consume_all_engine (hs : List U32) (s : Host) :
    (hs.foldl consume s).engine = s.engine := by
  induction hs generalizing s with
  | nil => rfl
  | cons h hs ih => simp [ih]

/-- What a wait handler does to the scheduler: nothing, or it writes the wait
handle, or it polls, or it blocks. -/
inductive WaitStep (h timeout : U32) (e : Engine) : Engine → Prop
  | stay : WaitStep h timeout e e
  | clear : WaitStep h timeout e (setWait e 0)
  | poll : WaitStep h timeout e (yield (setWait e h) .ready).2
  | block : WaitStep h timeout e (blockOn e h timeout)

theorem waitForSingleObject_step (s : Host) (h timeout : U32) (expired : Bool) :
    WaitStep h timeout s.engine (waitForSingleObject s h timeout expired).engine := by
  unfold waitForSingleObject
  split
  · dsimp only
    split
    · simpa using WaitStep.clear
    · simpa using WaitStep.stay
  split
  · split
    · exact .poll
    · exact .stay
  split
  · exact .clear
  · exact .block

theorem waitForSingleObjectEx_step (s : Host) (h timeout : U32) :
    WaitStep h timeout s.engine (waitForSingleObjectEx s h timeout).engine := by
  unfold waitForSingleObjectEx
  split
  · simpa using WaitStep.stay
  split
  · exact .stay
  · exact .block

theorem waitForMultipleObjects_step (s : Host) (handles : List U32) (waitAll : Bool)
    (timeout : U32) :
    (waitForMultipleObjects s handles waitAll timeout).engine = s.engine ∨
    ∃ h, handles.head? = some h ∧
      WaitStep h timeout s.engine (waitForMultipleObjects s handles waitAll timeout).engine := by
  unfold waitForMultipleObjects
  split
  · exact .inl rfl
  · rename_i h hs htake
    have hhead : handles.head? = some h := by
      cases handles with
      | nil => simp at htake
      | cons x xs => simpa using congrArg List.head? htake
    refine .inr ⟨h, hhead, ?_⟩
    dsimp only
    split_ifs
    all_goals first
      | exact .stay
      | exact .block
      | exact consume_all_engine _ s ▸ .stay

theorem WaitStep.busy (h : WaitStep x timeout e e') (hb : Busy e) : Busy e' := by
  cases h with
  | stay => exact hb
  | clear => exact setWait_busy hb
  | poll => exact yield_busy _ _
  | block => exact yield_busy _ _

theorem WaitStep.thread (h : WaitStep x timeout e e') (hc : e.current ≠ some j)
    (hw : e.state j = .waiting) : e'.threads j = e.threads j := by
  have hr : e.state j ≠ .ready := by simp [hw]
  cases h with
  | stay => rfl
  | clear => exact setWait_thread hc
  | poll =>
    have hs := setWait_thread hc (x := x)
    refine (yield_thread (by rwa [setWait_current]) ?_).trans hs
    rwa [Engine.state, hs]
  | block => exact blockOn_thread hc hr

/-- The current thread waits after it only if it was blocked, on `x`. -/
theorem WaitStep.current (h : WaitStep x timeout e e') (hb : Busy e) (hc : e.current = some i)
    (hw : e'.state i = .waiting) : (e'.threads i).waitHandle = x := by
  have hi := hb i hc
  cases h with
  | stay => simp [hi] at hw
  | clear =>
    have hi' := setWait_busy hb (x := 0) i (setWait_current.trans hc)
    exact absurd (hi'.symm.trans hw) nofun
  | poll => exact absurd hw (yield_current (setWait_current.trans hc) nofun)
  | block => exact blockOn_current hc hw

theorem call_busy (s : Host) (c : Call) (h : Busy s.engine) : Busy (s.call c).engine := by
  cases c with
  | create start param flags teb => exact create_busy h
  | createEvent x manual initial => exact h
  | setEvent x => exact wake_busy h
  | resetEvent x => exact h
  | waitSingle x timeout expired => exact (waitForSingleObject_step s x timeout expired).busy h
  | waitSingleEx x timeout => exact (waitForSingleObjectEx_step s x timeout).busy h
  | waitMultiple hs waitAll timeout =>
    obtain heq | ⟨x, -, hstep⟩ := waitForMultipleObjects_step s hs waitAll timeout
    · simpa only [Host.call, heq] using h
    · exact hstep.busy h
  | waitOther x => exact yield_busy _ _
  | sleepOn x => exact yield_busy _ _
  | wakeOther x => exact wake_busy h
  | resume x => exact resumeThread_busy h
  | exitThread code => exact exitThread_busy h
  | threadReturn => exact threadReturn_busy h
  | yieldReady => exact yield_busy _ _
  | preempt => exact preempt_busy h
  | tick => exact tick_busy h
  | pause on => exact h
  | backstop => exact (rouse_all _ s h).1
  | guest m => exact h

/-- A thread that waits on after a call names the object it named before. -/
theorem call_waiting (s : Host) (c : Call) (hb : Busy s.engine) (hc : s.engine.current ≠ some j)
    (hw : s.engine.state j = .waiting) (hw' : (s.call c).engine.state j = .waiting) :
    ((s.call c).engine.threads j).waitHandle = (s.engine.threads j).waitHandle := by
  have hr : s.engine.state j ≠ .ready := by simp [hw]
  have hwoken : ∀ e', e'.state j = .waiting → Woken j s.engine e' →
      (e'.threads j).waitHandle = (s.engine.threads j).waitHandle := by
    intro e' he' h
    rcases h with h | h | h
    · rw [h]
    · simp [he'] at h
    · simp [he'] at h
  cases c with
  | create start param flags teb => exact (create_thread (by simp [hw])).2
  | createEvent x manual initial => rfl
  | setEvent x => exact hwoken _ hw' (wake_woken _ _ _)
  | resetEvent x => rfl
  | waitSingle x timeout expired =>
    exact congrArg (·.waitHandle) ((waitForSingleObject_step s x timeout expired).thread hc hw)
  | waitSingleEx x timeout =>
    exact congrArg (·.waitHandle) ((waitForSingleObjectEx_step s x timeout).thread hc hw)
  | waitMultiple hs waitAll timeout =>
    obtain heq | ⟨x, -, hstep⟩ := waitForMultipleObjects_step s hs waitAll timeout
    · simp only [Host.call, heq]
    · exact congrArg (·.waitHandle) (hstep.thread hc hw)
  | waitOther x =>
    have hstep : WaitStep x infinite s.engine (waitOn s.engine x).2 := .block
    exact congrArg (·.waitHandle) (hstep.thread hc hw)
  | sleepOn x =>
    have hstep : WaitStep x 0 s.engine (yield (setWait s.engine x) .ready).2 := .poll
    exact congrArg (·.waitHandle) (hstep.thread hc hw)
  | wakeOther x => exact hwoken _ hw' (wake_woken _ _ _)
  | resume x =>
    have hne : s.engine.state j ≠ .suspended := by simp [hw]
    exact congrArg (·.waitHandle) (resumeThread_thread hne)
  | exitThread code => exact congrArg (·.waitHandle) (exitThread_thread hc hr)
  | threadReturn => exact hwoken _ hw' (threadReturn_woken hc hw)
  | yieldReady => exact congrArg (·.waitHandle) (yield_thread hc hr)
  | preempt => exact congrArg (·.waitHandle) (preempt_thread hc hr)
  | tick => exact congrArg (·.waitHandle) (tick_thread hc hr)
  | pause on => rfl
  | backstop => exact hwoken _ hw' ((rouse_all _ s hb).2 j).1
  | guest m => rfl

/-- A thread that starts to wait names the first object of its wait set. -/
theorem call_blocks (s : Host) (c : Call) (hb : Busy s.engine) (hc : s.engine.current = some i)
    (hw : (s.call c).engine.state i = .waiting) (hs : c.waitSet = some objs) :
    objs.head? = some ((s.call c).engine.threads i).waitHandle := by
  cases c with
  | waitSingle x timeout expired =>
    simp only [Call.waitSet, Option.ite_none_right_eq_some, Option.some.injEq] at hs
    have hx := (waitForSingleObject_step s x timeout expired).current hb hc hw
    simp only [← hs.2, List.head?_cons]
    exact congrArg some hx.symm
  | waitSingleEx x timeout =>
    simp only [Call.waitSet, Option.ite_none_right_eq_some, Option.some.injEq] at hs
    have hx := (waitForSingleObjectEx_step s x timeout).current hb hc hw
    simp only [← hs.2, List.head?_cons]
    exact congrArg some hx.symm
  | waitMultiple handles waitAll timeout =>
    simp only [Call.waitSet, Option.ite_none_right_eq_some, Option.some.injEq] at hs
    obtain heq | ⟨x, hx, hstep⟩ := waitForMultipleObjects_step s handles waitAll timeout
    · simp only [Host.call, heq] at hw
      simp [hb i hc] at hw
    · rw [← hs.2, hx]
      exact congrArg some (hstep.current hb hc hw).symm
  | _ => cases hs

-- ---------------------------------------------------------------------------
-- Runs
-- ---------------------------------------------------------------------------

structure Watched (s : Host) : Prop where
  busy : Busy s.engine
  waiting (i : Slot) (hs : List U32) : s.waitSet i = some hs → s.engine.state i = .waiting
  head (i : Slot) (hs : List U32) : s.waitSet i = some hs →
    hs.head? = some (s.engine.threads i).waitHandle

theorem load_watched : Watched (.load teb m realTimeouts) where
  busy i hi := by
    obtain rfl := Option.some.inj hi
    rfl
  waiting i hs h := by cases h
  head i hs h := by cases h

theorem step_watched (h : Watched s) (hs : s.step c = some (s', x)) : Watched s' := by
  obtain ⟨rfl, -⟩ := Prod.mk.inj (Option.some.inj hs)
  refine ⟨call_busy s c h.busy, fun i objs hset => ?_, fun i objs hset => ?_⟩
  all_goals
    simp only [Host.note] at hset
    split at hset
    · cases hset
    rename_i hw
    rw [not_not] at hw
  · exact hw
  · split at hset
    · rename_i hc
      exact call_blocks s c h.busy hc hw hset
    · rename_i hc
      rw [h.head i objs hset]
      exact congrArg some (call_waiting s c h.busy hc (h.waiting i objs hset) hw).symm

theorem run_watched (h : Run Host.step anyStep (.load teb m realTimeouts) tr s) : Watched s :=
  h.invariant (P := fun _ s => Watched s) load_watched fun hw _ hs => step_watched hw hs

/-- An object a thread waits for is the one its slot names exactly when it is
the first of the wait set. -/
theorem Watched.named (h : Watched s) (hs : s.waitSet i = some objs) :
    (s.engine.threads i).waitHandle = x ↔ objs.head? = some x := by
  rw [h.head i objs hs, Option.some.injEq]

theorem Watched.other (h : Watched s) (hs : s.waitSet i = some objs) :
    s.engine.current ≠ some i := by
  intro hc
  have hi := h.busy i hc
  simp [h.waiting i objs hs] at hi

theorem setEvent_prompt (h : Watched s) :
    Prompt s (.setEvent x) (s.call (.setEvent x)) ↔ Meets s (.setEvent x) := by
  constructor
  · intro hp y i objs hsig hs hm
    by_contra hne
    have hmiss : (wake s.engine x).threads i = s.engine.threads i :=
      wake_miss fun _ hx => hne (hsig.2 ▸ (h.named hs).1 hx)
    have hrun : (wake s.engine x).state i = .ready ∨ (wake s.engine x).state i = .running :=
      hp y i hsig ⟨objs, hs, hm⟩
    rw [Engine.state, hmiss] at hrun
    have hw := h.waiting i objs hs
    simp only [Engine.state] at hw
    simp [hw] at hrun
  · rintro hm y i ⟨hev, rfl⟩ ⟨objs, hs, hmem⟩
    have hx := (h.named hs).2 (hm _ i objs ⟨hev, rfl⟩ hs hmem)
    exact .inl (wake_hit (h.waiting i objs hs) hx)

theorem exitThread_prompt (h : Watched s) :
    Prompt s (.exitThread code) (s.call (.exitThread code)) ↔ Meets s (.exitThread code) := by
  constructor
  · rintro hp y i hsig ⟨objs, hs, hm⟩
    have hw := h.waiting i objs hs
    have hsame : (exitThread s.engine code).threads i = s.engine.threads i :=
      exitThread_thread (h.other hs) (by simp [hw])
    have hrun : (exitThread s.engine code).state i = .ready ∨
        (exitThread s.engine code).state i = .running := hp y i hsig ⟨objs, hs, hm⟩
    simp only [Engine.state] at hw
    simp [Engine.state, hsame, hw] at hrun
  · intro hm y i hsig haw
    exact absurd haw (hm y i hsig)

theorem threadReturn_prompt (h : Watched s) :
    Prompt s .threadReturn (s.call .threadReturn) ↔ Meets s .threadReturn := by
  obtain ⟨hone, -⟩ | ⟨k, hk, hid, heq⟩ := threadReturn_cases s.engine
  · have hno : ∀ y, ¬ s.Signals y .threadReturn := by
      rintro y ⟨i, hi, hid, -⟩
      exact hid (hone i hi)
    exact iff_of_true (fun y i hsig => absurd hsig (hno y)) fun y i objs hsig => absurd hsig (hno y)
  have hsig : ∀ y, s.Signals y .threadReturn → y = (s.engine.threads k).handle := by
    rintro y ⟨i, hi, -, rfl⟩
    rw [Option.some.inj (hi.symm.trans hk)]
  constructor
  · intro hp y i objs hy hs hm
    have hrun : (threadReturn s.engine).state i = .ready ∨
        (threadReturn s.engine).state i = .running := hp y i hy ⟨objs, hs, hm⟩
    obtain rfl := hsig y hy
    have hw := h.waiting i objs hs
    by_contra hne
    have hmiss : (wake s.engine (s.engine.threads k).handle).threads i = s.engine.threads i :=
      wake_miss fun _ hx => hne ((h.named hs).1 hx)
    have hother : (wake s.engine (s.engine.threads k).handle).current ≠ some i := h.other hs
    have hstill : (wake s.engine (s.engine.threads k).handle).state i = .waiting :=
      (congrArg (·.state) hmiss).trans hw
    rw [heq, Engine.state, exitThread_thread hother (by simp [hstill])] at hrun
    simp only [Engine.state] at hstill
    simp [hstill] at hrun
  · rintro hm y i hy ⟨objs, hs, hmem⟩
    obtain rfl := hsig y hy
    have hx := (h.named hs).2 (hm _ i objs hy hs hmem)
    have hother : (wake s.engine (s.engine.threads k).handle).current ≠ some i := h.other hs
    have hready := wake_hit (h.waiting i objs hs) hx
    have hcall : (s.call .threadReturn).engine = _ := heq
    rw [hcall]
    exact exitThread_runs hother hready

/-- In every run a signal releases whoever waits for it exactly when the object
is the first of the wait set, and a thread's end is not by `ExitThread`. -/
theorem waits_law (teb : U32) (m : Machine) (realTimeouts : Bool) (tr : List (Call × Unit))
    (s : Host) (c : Call) (s' : Host) (x : Unit)
    (h : Run Host.step anyStep (.load teb m realTimeouts) tr s) (hs : s.step c = some (s', x)) :
    Prompt s c s' ↔ Meets s c := by
  have hw := run_watched h
  obtain ⟨rfl, -⟩ := Prod.mk.inj (Option.some.inj hs)
  cases c with
  | setEvent y => exact setEvent_prompt hw
  | exitThread code => exact exitThread_prompt hw
  | threadReturn => exact threadReturn_prompt hw
  | _ => exact iff_of_true (fun _ _ hsig => hsig.elim) fun _ _ _ hsig => hsig.elim

/-- The main thread joins a worker that returns. -/
theorem waits_law_join : ∃ tr s s', Run Host.step anyStep (.load 0x20000000 .zero false) tr s ∧
    s.step .threadReturn = some (s', ()) ∧ s.AwaitsAny 0 0x7100 ∧
    (Prompt s .threadReturn s' ↔ Meets s .threadReturn) := by
  have hexec : (exec Host.step anyStep (.load 0x20000000 .zero false) [
      .create 0x401000 7 0 none, .waitSingle 0x7100 infinite false]).any fun r =>
        decide (r.2.waitSet 0 = some [0x7100]) := by decide
  obtain ⟨tr, s, hr, hp⟩ := Run.of_exec_any hexec
  have hwait := of_decide_eq_true hp
  exact ⟨tr, s, _, hr, rfl, ⟨_, hwait, List.mem_cons_self⟩, waits_law _ _ _ _ _ _ _ _ hr rfl⟩

/-- The main thread joins a worker, the worker calls `ExitThread`, and the main
thread waits on. -/
theorem exitThread_joiner_lost : ¬ ∀ tr s c s' x,
    Run Host.step anyStep (.load 0x20000000 .zero false) tr s → s.step c = some (s', x) →
    Prompt s c s' := by
  intro hall
  have hexec : (exec Host.step anyStep (.load 0x20000000 .zero false) [
      .create 0x401000 7 0 none, .waitSingle 0x7100 infinite false]).any fun r =>
        decide (r.2.waitSet 0 = some [0x7100] ∧ r.2.engine.current = some 1 ∧
          (r.2.engine.threads 1).handle = 0x7100 ∧
          (r.2.call (.exitThread 0)).engine.state 0 = .waiting) := by decide
  obtain ⟨tr, s, hr, hp⟩ := Run.of_exec_any hexec
  obtain ⟨hset, hc, hh, hw⟩ := of_decide_eq_true hp
  have hrun := hall tr s (.exitThread 0) _ () hr rfl 0x7100 0 ⟨1, hc, hh⟩
    ⟨_, hset, List.mem_cons_self⟩
  rcases hrun with hrun | hrun
  · exact nomatch hw.symm.trans hrun
  · exact nomatch hw.symm.trans hrun

end WineGlass.Coop
