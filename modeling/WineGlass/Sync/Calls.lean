import WineGlass.Sync.Objects

/-!
# Calls

A call that waits takes several steps. `run_call` carries a property from the
first wait of a call to the step that returns; the rest says what one step of
a waiting thread comes to.
-/

namespace WineGlass.Sync

open Runs

/-- No function of thread `t` returns along the trace. -/
def Trace.Inside (tr : Trace) (t : Nat) : Prop := ∀ x ∈ tr, x.1.thread = some t → x.2.ret = none

instance {tr : Trace} : Decidable (tr.Inside t) :=
  inferInstanceAs (Decidable (∀ x ∈ tr, x.1.thread = some t → x.2.ret = none))

/-- The trace ends where the function thread `t` is in returns `rv`. -/
def Trace.Returns (tr : Trace) (t rv : Nat) : Prop :=
  ∃ tr' a l, tr = tr' ++ [(a, l)] ∧ Trace.Inside tr' t ∧ a.thread = some t ∧ l.ret = some rv

/-- What the first step of a call establishes, if it waits, and every later
step keeps holds for as long as the thread is inside. `Q` also sees the trace
of the call so far. -/
theorem run_inside {Q : Trace → State → Prop} (h : Run step ok s ((a₀, l₀) :: tr) s')
    (ht : a₀.thread = some t) (hin : Trace.Inside ((a₀, l₀) :: tr) t)
    (first : ∀ {s₁}, ok s a₀ → step s a₀ = some (s₁, l₀) → l₀.ret = none → Q [(a₀, l₀)] s₁)
    (keep : ∀ {tr s₁ a l s₂}, Q tr s₁ → ok s₁ a → step s₁ a = some (s₂, l) →
      (a.thread = some t → l.ret = none) → Q (tr ++ [(a, l)]) s₂) :
    Q ((a₀, l₀) :: tr) s' := by
  obtain ⟨m, hok, hs, hrest⟩ := h.cons_inv
  have hq : Trace.Inside tr t → Q ((a₀, l₀) :: tr) s' := by
    refine hrest.invariant (P := fun tr s => Trace.Inside tr t → Q ((a₀, l₀) :: tr) s) ?_ ?_
    · intro _
      exact first hok hs (hin _ List.mem_cons_self ht)
    · intro tr s a s' l ih hok hst hin
      refine keep (ih fun x hx => hin x (by simp [hx])) hok hst ?_
      exact hin (a, l) (by simp)
  exact hq fun x hx => hin x (List.mem_cons_of_mem _ hx)

/-- A call to its return: `Q` holds before the step that returns, unless that
is the first. -/
theorem run_call {Q : Trace → State → Prop} (h : Run step ok s ((a₀, l₀) :: tr) s')
    (ht : a₀.thread = some t) (hr : Trace.Returns ((a₀, l₀) :: tr) t rv)
    (first : ∀ {s₁}, ok s a₀ → step s a₀ = some (s₁, l₀) → l₀.ret = none → Q [(a₀, l₀)] s₁)
    (keep : ∀ {tr s₁ a l s₂}, Q tr s₁ → ok s₁ a → step s₁ a = some (s₂, l) →
      (a.thread = some t → l.ret = none) → Q (tr ++ [(a, l)]) s₂) :
    ∃ tr₁ s₁ a l, (a₀, l₀) :: tr = tr₁ ++ [(a, l)] ∧ ok s₁ a ∧ step s₁ a = some (s', l) ∧
      a.thread = some t ∧ l.ret = some rv ∧ (tr₁ = [] ∧ s₁ = s ∧ a = a₀ ∨ Q tr₁ s₁) := by
  obtain ⟨tr', a, l, he, hin, ha, hl⟩ := hr
  rw [he] at h
  obtain ⟨s₁, hrun, hok, hs⟩ := h.snoc_inv
  refine ⟨tr', s₁, a, l, he, hok, hs, ha, hl, ?_⟩
  cases tr' with
  | nil =>
    obtain ⟨⟨rfl, rfl⟩, -⟩ : (a₀ = a ∧ l₀ = l) ∧ tr = [] := by simpa using he
    exact .inl ⟨rfl, hrun.nil_inv, rfl⟩
  | cons x xs =>
    cases he
    exact .inr (run_inside hrun ht hin first keep)

-- ---------------------------------------------------------------------------
-- One step of a waiting thread
-- ---------------------------------------------------------------------------

/-- A thread inside a call begins no other. -/
theorem step_inside (h : step s a = some r) (ha : a.thread = some t) (hbusy : ¬Free s t) :
    a = .resume t ∨ a = .expire t := by
  cases a with
  | call u | waitSingle u | waitMultiple u | cvSleep u =>
    cases ha
    simp [step, hbusy] at h
  | resume u =>
    cases ha
    exact .inl rfl
  | expire u =>
    cases ha
    exact .inr rfl
  | kickWorkers | kickTid => cases ha

/-- What a step of `wg_sync_wait_single` looking at slot `i` comes to. -/
inductive SinglePass (s : State) (t h timeout i : Nat) : State × Label → Prop
  | taken (hr : r.2 = ⟨some waitObject0, [.acquired t (s.table.ident i)]⟩)
      (hsat : satisfiedLocked (s.table.objs i) t) : SinglePass s t h timeout i r
  | timedOut (hr : r.2 = ⟨some waitTimeout, []⟩) : SinglePass s t h timeout i r
  | parked (hr : r.2 = ⟨none, []⟩) (hc : r.1.calls t = .waitSingle h timeout) :
      SinglePass s t h timeout i r

theorem waitSinglePass_cases (hT : s'.table = s.table) :
    SinglePass s t h timeout i (waitSinglePass s' t h timeout i) := by
  unfold waitSinglePass
  rw [hT]
  split
  · rename_i hsat
    exact .taken (by simp [take, endSingle, hT]) hsat
  · split
    · exact .timedOut rfl
    · exact .parked rfl (park_calls_self _)

theorem waitSingleExpire_cases :
    SinglePass s t h timeout (h - syncBase) (waitSingleExpire s t h) ∧
      (waitSingleExpire s t h).2.ret ≠ none := by
  simp only [waitSingleExpire]
  split
  · rename_i hsat
    exact ⟨.taken rfl hsat, by simp [take, endSingle]⟩
  · exact ⟨.timedOut rfl, by simp [endSingle]⟩

/-- A step of a thread inside `wg_sync_wait_single`. -/
theorem step_waitSingle (h : step s a = some (s', l)) (ha : a.thread = some t)
    (hc : s.calls t = .waitSingle k timeout) :
    (a = .resume t ∧ s.table.findLocked k = none ∧ l = ⟨some waitFailed, []⟩) ∨
    (a = .resume t ∧ ∃ i, s.table.findLocked k = some i ∧ SinglePass s t k timeout i (s', l)) ∨
    (a = .expire t ∧ l.ret ≠ none ∧ SinglePass s t k timeout (k - syncBase) (s', l)) := by
  have hbusy : ¬Free s t := by simp [Free, hc]
  rcases step_inside h ha hbusy with rfl | rfl
  · simp only [step, hc, Option.some.injEq, waitSingleResume] at h
    split at h
    · rename_i hf
      exact .inl ⟨rfl, hf, (congrArg Prod.snd h).symm⟩
    · rename_i i hf
      refine .inr (.inl ⟨rfl, i, hf, ?_⟩)
      rw [← h]
      exact waitSinglePass_cases rfl
  · simp only [step, hc, Option.ite_none_left_eq_some, Option.some.injEq] at h
    obtain ⟨hcases, hret⟩ : SinglePass s t k timeout (k - syncBase) (waitSingleExpire s t k) ∧ _ :=
      waitSingleExpire_cases
    rw [h.2] at hcases hret
    exact .inr (.inr ⟨rfl, hret, hcases⟩)

/-- The first step of a sleep: refused, or one pass of the loop after the
mutex is let go. -/
theorem cvSleep_begin {t cv csMtx timeout c m : Nat} {s : State}
    (hc : s.table.findLocked cv = some c) (hm : s.table.findLocked csMtx = some m) :
    cvSleep s t cv csMtx timeout = (s, ⟨some waitFailed, []⟩) ∨
    (s.table.objs c).type = .cv ∧ (s.table.objs m).type = .mutex ∧ ∃ saved s₁,
      s₁.table = s.table.modify m ({ · with ownerTid := 0, recursion := 0 }) ∧
      cvSleep s t cv csMtx timeout = cvSleepPass s₁ t cv csMtx timeout saved (s.table.objs c).count := by
  simp only [cvSleep, hc, hm]
  split
  · rename_i hty
    exact .inr ⟨hty.1, hty.2, _, _, rfl, rfl⟩
  · exact .inl rfl

/-- What a step of the sleep loop comes to: it leaves with a code, or waits.
Only a thread that timed out misses that its handle is gone. -/
inductive SleepPass (s : State) (t cv csMtx timeout : Nat) (saved gen : Int) (resumed : Prop) :
    State × Label → Prop
  | woken (hg : (s.table.objs (cv - syncBase)).count ≠ gen)
      (hf : resumed → s.table.findLocked cv ≠ none) :
      SleepPass s t cv csMtx timeout saved gen resumed (cvLeave s t csMtx saved waitObject0)
  | closed (hf : s.table.findLocked cv = none) :
      SleepPass s t cv csMtx timeout saved gen resumed (cvLeave s t csMtx saved waitFailed)
  | timedOut (ht : timeout ≠ syncInfinite) (hg : (s.table.objs (cv - syncBase)).count = gen) :
      SleepPass s t cv csMtx timeout saved gen resumed (cvLeave s t csMtx saved waitTimeout)
  | parked (hg : (s.table.objs (cv - syncBase)).count = gen) :
      SleepPass s t cv csMtx timeout saved gen resumed
        (s.park t (.cvSleep cv csMtx timeout saved gen), ⟨none, []⟩)

theorem cvSleepPass_cases : SleepPass s t cv csMtx timeout saved gen resumed
    (cvSleepPass s t cv csMtx timeout saved gen) := by
  unfold cvSleepPass
  split
  · rename_i hf
    exact .closed hf
  · rename_i i hf
    have hi : cv - syncBase = i := by
      rw [(Table.findLocked_eq_some.mp hf).1]
      exact Nat.add_sub_cancel_left syncBase i
    rw [← hi]
    split
    · rename_i hg
      exact .woken hg (by simp [hf])
    · rename_i hg
      rw [not_not] at hg
      split
      · rename_i h0
        exact .timedOut (by rw [h0]; decide) hg
      · exact .parked hg

/-- A step of a thread inside the sleep loop of `wg_sync_cv_sleep`. -/
theorem step_cvSleep (h : step s a = some (s', l)) (ha : a.thread = some t)
    (hc : s.calls t = .cvSleep cv csMtx timeout saved gen) :
    SleepPass s t cv csMtx timeout saved gen (a = .resume t) (s', l) := by
  have hbusy : ¬Free s t := by simp [Free, hc]
  rcases step_inside h ha hbusy with rfl | rfl
  · simp only [step, hc, Option.some.injEq] at h
    rw [← h]
    exact cvSleepPass_cases
  · simp only [step, hc, Option.ite_none_left_eq_some, Option.some.injEq, cvSleepExpire] at h
    obtain ⟨ht, h⟩ := h
    split at h <;> rw [← h]
    · rename_i hg
      exact .woken hg (by simp)
    · rename_i hg
      exact .timedOut ht (not_not.mp hg)

/-- How `wg_sync_cv_sleep` gets its mutex back and returns `rv`. -/
inductive Retake (s : State) (t csMtx : Nat) (saved : Int) (rv : Nat) (r : State × Label) : Prop
  | back (i : Nat) (hi : s.table.findLocked csMtx = some i)
      (hr : r.2 = ⟨some rv, [.reacquired t (s.table.ident i)]⟩)
  | gone (hn : ∀ i, s.table.findLocked csMtx = some i → (s.table.objs i).type ≠ .mutex)
      (hr : r.2 = ⟨some rv, []⟩)
  | parked (hr : r.2 = ⟨none, []⟩) (hc : r.1.calls t = .cvReacquire csMtx saved rv)

theorem cvTake_cases (hi : s.table.findLocked csMtx = some i) :
    Retake s t csMtx saved rv (cvTake s t csMtx i saved rv) := by
  simp only [cvTake]
  split
  · exact .parked rfl (park_calls_self s)
  · exact .back i hi rfl

theorem cvLeave_cases : Retake s t csMtx saved rv (cvLeave s t csMtx saved rv) := by
  unfold cvLeave
  split
  · rename_i hf
    exact .gone (by simp [hf]) rfl
  · rename_i i hf
    split
    · exact cvTake_cases hf
    · rename_i hty
      refine .gone (fun j hj => ?_) rfl
      obtain rfl : i = j := by simpa [hf] using hj
      exact hty

theorem Retake.parks (h : Retake s t csMtx saved rv (s', l)) (hret : l.ret = none) :
    s'.calls t = .cvReacquire csMtx saved rv := by
  cases h with
  | back i _ hr => rw [show l = _ from hr] at hret; cases hret
  | gone _ hr => rw [show l = _ from hr] at hret; cases hret
  | parked _ hc => exact hc

theorem Retake.returns (h : Retake s t csMtx saved rv (s', l)) (hret : l.ret = some rv') :
    rv' = rv := by
  cases h with
  | back i _ hr => rw [show l = _ from hr] at hret; exact (Option.some.inj hret).symm
  | gone _ hr => rw [show l = _ from hr] at hret; exact (Option.some.inj hret).symm
  | parked hr => rw [show l = _ from hr] at hret; cases hret

/-- A step of a thread that has left the sleep loop. -/
theorem step_cvReacquire (h : step s a = some (s', l)) (ha : a.thread = some t)
    (hc : s.calls t = .cvReacquire csMtx saved rv) : Retake s t csMtx saved rv (s', l) := by
  have hbusy : ¬Free s t := by simp [Free, hc]
  rcases step_inside h ha hbusy with rfl | rfl
  · simp only [step, hc, Option.some.injEq, cvReacquireResume] at h
    split at h <;> rw [← h]
    · rename_i hf
      exact .gone (by simp [hf]) rfl
    · rename_i i hf
      exact cvTake_cases hf
  · simp [step, hc] at h

-- ---------------------------------------------------------------------------
-- Threads inside a sleep
-- ---------------------------------------------------------------------------

/-- How a step inside a sleep on the mutex in slot `i` ends: the thread waits
on, or it returns and owns the mutex at the saved depth. -/
def Restored (t csMtx i : Nat) (saved : Int) (r : State × Label) : Prop :=
  r.2.ret = none ∧ (r.1.calls t).sleep = some (csMtx, saved) ∨
  r.2.ret ≠ none ∧ (r.1.table.objs i).ownerTid = t ∧ (r.1.table.objs i).recursion = saved

section
variable {s : State} {t i : Nat}

theorem cvTake_restored : Restored t csMtx i saved (cvTake s t csMtx i saved rv) := by
  simp only [Restored, cvTake]
  split
  · exact .inl ⟨rfl, by simp [Call.sleep]⟩
  · exact .inr ⟨by simp, by simp, by simp⟩

theorem cvLeave_restored (hi : s.table.findLocked csMtx = some i)
    (hty : (s.table.objs i).type = .mutex) :
    Restored t csMtx i saved (cvLeave s t csMtx saved rv) := by
  simp only [cvLeave, hi, hty, ↓reduceIte]
  exact cvTake_restored

/-- However a step of the sleep loop leaves, it is for its mutex. -/
theorem SleepPass.restored (h : SleepPass s t cv csMtx timeout saved gen resumed r)
    (hi : s.table.findLocked csMtx = some i) (hty : (s.table.objs i).type = .mutex) :
    Restored t csMtx i saved r := by
  cases h with
  | woken | closed | timedOut => exact cvLeave_restored hi hty
  | parked => exact .inl ⟨rfl, by simp [Call.sleep]⟩

end

/-- A step of a thread inside a sleep, while its mutex is there. -/
theorem step_sleep (h : step s a = some (s', l)) (ha : a.thread = some t)
    (hs : (s.calls t).sleep = some (csMtx, saved)) (hi : s.table.findLocked csMtx = some i)
    (hty : (s.table.objs i).type = .mutex) : Restored t csMtx i saved (s', l) := by
  cases hc : s.calls t with
  | idle | waitSingle | waitMultiple =>
    rw [hc] at hs
    cases hs
  | cvSleep =>
    rw [hc] at hs
    cases hs
    exact (step_cvSleep h ha hc).restored hi hty
  | cvReacquire =>
    rw [hc] at hs
    cases hs
    have hbusy : ¬Free s t := by simp [Free, hc]
    rcases step_inside h ha hbusy with rfl | rfl
    · simp only [step, hc, Option.some.injEq, cvReacquireResume, hi] at h
      rw [← h]
      exact cvTake_restored
    · simp [step, hc] at h

end WineGlass.Sync
