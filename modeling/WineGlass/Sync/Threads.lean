import WineGlass.Sync.Effects
import WineGlass.Lib.Run

/-!
# Threads inside the monitor

A step moves only the thread it belongs to (`step_calls`), and every run keeps
the object table well formed (`run_sane`). `run_effects` lifts a law of single
effects to whole runs.
-/

namespace WineGlass.Sync

open Runs

/-- The thread whose step this is; the watchdog's steps belong to none. -/
def Action.thread : Action → Option Nat
  | .call t _ | .waitSingle t .. | .waitMultiple t .. | .cvSleep t .. => some t
  | .resume t | .expire t => some t
  | .kickWorkers .. | .kickTid _ => none

abbrev Trace := List (Action × Label)

/-- Everything that happened to the objects along a trace. -/
def Trace.events (tr : Trace) : List Event := tr.flatMap (·.2.events)

@[simp] theorem events_nil : Trace.events [] = [] := rfl

@[simp] theorem events_snoc (tr : Trace) (a : Action) (l : Label) :
    Trace.events (tr ++ [(a, l)]) = tr.events ++ l.events := by
  simp [Trace.events]

-- ---------------------------------------------------------------------------
-- Only the stepping thread moves
-- ---------------------------------------------------------------------------

/-- Thread `u` is where it was, and no wake of it is lost. -/
structure Frame (s s' : State) (u : Nat) : Prop where
  calls : s'.calls u = s.calls u
  woken : s.woken u = true → s'.woken u = true

theorem Frame.refl (s : State) (u : Nat) : Frame s s u := ⟨rfl, id⟩

theorem Frame.trans (h : Frame s₁ s₂ u) (h' : Frame s₂ s₃ u) : Frame s₁ s₃ u :=
  ⟨h'.calls.trans h.calls, fun hw => h'.woken (h.woken hw)⟩

theorem setTable_frame (s : State) (T : Table) (u : Nat) : Frame s (s.setTable T) u := ⟨rfl, id⟩
theorem broadcast_frame (s : State) (u : Nat) : Frame s s.broadcast u := ⟨rfl, fun _ => rfl⟩

theorem park_frame (s : State) (c : Call) (h : u ≠ t) : Frame s (s.park t c) u := by
  refine ⟨?_, fun hw => ?_⟩
  · simp [State.park, h]
  · simpa [State.park, h] using hw

theorem leave_frame (s : State) (h : u ≠ t) : Frame s (s.leave t) u :=
  ⟨by simp [State.leave, h], id⟩

@[simp] theorem park_calls_self (s : State) : (s.park t c).calls t = c := by simp [State.park]
@[simp] theorem leave_calls_self (s : State) : (s.leave t).calls t = .idle := by simp [State.leave]

theorem createObj_frame {set : SyncObj → SyncObj} : Frame s (createObj s ty set).1 u := by
  unfold createObj
  split
  · exact .refl s u
  · exact setTable_frame s _ u

/-- A store, or nothing, or a store and a broadcast. -/
theorem store_frame (h : s' = s ∨ (∃ T, s' = s.setTable T) ∨ ∃ T, s' = (s.setTable T).broadcast) :
    Frame s s' u := by
  rcases h with rfl | ⟨T, rfl⟩ | ⟨T, rfl⟩
  · exact .refl s' u
  · exact setTable_frame s T u
  · exact (setTable_frame s T u).trans (broadcast_frame _ u)

theorem ite_frame [Decidable p] (h₁ : Frame s s₁ u) (h₂ : Frame s s₂ u) :
    Frame s (if p then s₁ else s₂) u := by
  split
  · exact h₁
  · exact h₂

theorem signalEvent_frame : Frame s (signalEvent s h b bcast ev).1 u := by
  refine store_frame ?_
  unfold signalEvent
  split
  · exact .inl rfl
  · split
    · cases bcast
      · exact .inr (.inl ⟨_, rfl⟩)
      · exact .inr (.inr ⟨_, rfl⟩)
    · exact .inl rfl

theorem runOp_frame : Frame s (runOp s t op).1 u := by
  cases op with
  | createEvent | createMutex | createSemaphore | createThreadObj | createCv => exact createObj_frame
  | setEvent | resetEvent | pulseEvent => exact signalEvent_frame
  | releaseMutex =>
    refine store_frame ?_
    simp only [runOp, releaseMutex]
    split
    · exact .inl rfl
    · split
      · split
        · exact .inr (.inr ⟨_, rfl⟩)
        · exact .inr (.inl ⟨_, rfl⟩)
      · exact .inl rfl
  | releaseSemaphore =>
    refine store_frame ?_
    simp only [runOp, releaseSemaphore]
    split
    · exact .inl rfl
    · split
      · exact .inr (.inr ⟨_, rfl⟩)
      · exact .inl rfl
  | threadExit =>
    refine store_frame ?_
    simp only [runOp, threadExit]
    split
    · exact .inl rfl
    · split
      · exact .inr (.inr ⟨_, rfl⟩)
      · exact .inl rfl
  | cvWake =>
    refine store_frame ?_
    simp only [runOp, cvWake]
    split
    · exact .inl rfl
    · split
      · exact .inr (.inr ⟨_, rfl⟩)
      · exact .inl rfl
  | isKnown => exact .refl s u
  | threadExitCode =>
    refine store_frame (.inl ?_)
    simp only [runOp, threadExitCode]
    split <;> rfl
  | close =>
    refine store_frame ?_
    simp only [runOp, close]
    split
    · exact .inl rfl
    · exact .inr (.inr ⟨_, rfl⟩)

section
variable {s : State} {t u : Nat}

theorem endSingle_frame (h : u ≠ t) : Frame s (endSingle s t rv).1 u :=
  ⟨(leave_frame s h).calls, (leave_frame s h).woken⟩

theorem endSingle_calls_self : (endSingle s t rv).1.calls t = .idle := leave_calls_self s

theorem endMultiple_frame (h : u ≠ t) : Frame s (endMultiple s t rv).1 u := leave_frame s h

theorem take_frame {out : State → Nat → Nat → State × Label}
    (hout : ∀ s, Frame s (out s t rv).1 u) : Frame s (take s t is rv out).1 u :=
  (setTable_frame s _ u).trans (hout _)

theorem waitSinglePass_frame (h : u ≠ t) : Frame s (waitSinglePass s t k timeout i).1 u := by
  unfold waitSinglePass
  split
  · exact take_frame fun _ => endSingle_frame h
  · split
    · exact endSingle_frame h
    · exact park_frame s _ h

theorem waitMultiplePass_frame (h : u ≠ t) :
    Frame s (waitMultiplePass s t handles waitAll timeout).1 u := by
  unfold waitMultiplePass
  split
  · exact endMultiple_frame h
  · split
    · exact take_frame fun _ => endMultiple_frame h
    · split
      · exact endMultiple_frame h
      · exact park_frame s _ h

theorem cvTake_frame (h : u ≠ t) : Frame s (cvTake s t csMtx i saved rv).1 u := by
  simp only [cvTake]
  split
  · exact park_frame s _ h
  · exact (setTable_frame s _ u).trans (leave_frame _ h)

theorem cvLeave_frame (h : u ≠ t) : Frame s (cvLeave s t csMtx saved rv).1 u := by
  unfold cvLeave
  split
  · exact leave_frame s h
  · split
    · exact cvTake_frame h
    · exact leave_frame s h

theorem cvSleepPass_frame (h : u ≠ t) :
    Frame s (cvSleepPass s t cv csMtx timeout saved gen).1 u := by
  unfold cvSleepPass
  split
  · exact cvLeave_frame h
  · split
    · exact cvLeave_frame h
    · split
      · exact cvLeave_frame h
      · exact park_frame s _ h

theorem waitSingle_frame (h : u ≠ t) : Frame s (waitSingle s t k timeout).1 u := by
  unfold waitSingle
  split
  · exact .refl s u
  · rename_i i _
    have hf (s₀ : State) : Frame s₀ (waitSinglePass s₀ t k timeout i).1 u := waitSinglePass_frame h
    obtain ⟨hcalls, hwoken⟩ := hf { s with waitq := wqSet s.waitq t k }
    exact ⟨hcalls, hwoken⟩

theorem waitSingleResume_frame (h : u ≠ t) : Frame s (waitSingleResume s t k timeout).1 u := by
  unfold waitSingleResume
  split
  · exact endSingle_frame h
  · exact waitSinglePass_frame h

theorem waitSingleExpire_frame (h : u ≠ t) : Frame s (waitSingleExpire s t k).1 u := by
  simp only [waitSingleExpire]
  split
  · exact take_frame fun _ => endSingle_frame h
  · exact endSingle_frame h

theorem waitMultiple_frame (h : u ≠ t) :
    Frame s (waitMultiple s t handles waitAll timeout).1 u := by
  unfold waitMultiple
  split
  · exact .refl s u
  · exact waitMultiplePass_frame h

theorem cvSleep_frame (h : u ≠ t) : Frame s (cvSleep s t cv csMtx timeout).1 u := by
  unfold cvSleep
  split
  · split
    · exact ((setTable_frame s _ u).trans (broadcast_frame _ u)).trans (cvSleepPass_frame h)
    · exact .refl s u
  · exact .refl s u

theorem cvSleepExpire_frame (h : u ≠ t) : Frame s (cvSleepExpire s t cv csMtx saved gen).1 u := by
  simp only [cvSleepExpire]
  split <;> exact cvLeave_frame h

theorem cvReacquireResume_frame (h : u ≠ t) :
    Frame s (cvReacquireResume s t csMtx saved rv).1 u := by
  unfold cvReacquireResume
  split
  · exact leave_frame s h
  · exact cvTake_frame h

theorem kickWorkers_frame : Frame s (kickWorkers s kickall kickman kickcv).1 u := by
  simp only [kickWorkers]
  exact ite_frame (setTable_frame s _ u) ((setTable_frame s _ u).trans (broadcast_frame _ u))

theorem kickTid_frame : Frame s (kickTid s tid).1 u := by
  refine store_frame ?_
  unfold kickTid
  split
  · exact .inl rfl
  · split
    · exact .inl rfl
    · split
      · exact .inl rfl
      · exact .inr (.inr ⟨_, rfl⟩)

end

theorem fst_of_eq {r : State × Label} (h : r = (s', l)) : s' = r.1 := by rw [h]

theorem step_frame (h : step s a = some (s', l)) (ht : a.thread ≠ some u) : Frame s s' u := by
  cases a with
  | call t op =>
    simp only [step, Option.ite_none_right_eq_some, Option.some.injEq] at h
    rw [fst_of_eq h.2]
    exact runOp_frame
  | waitSingle t k timeout =>
    simp only [step, Option.ite_none_right_eq_some, Option.some.injEq] at h
    rw [fst_of_eq h.2]
    exact waitSingle_frame fun he => ht (he ▸ rfl)
  | waitMultiple t handles waitAll timeout =>
    simp only [step, Option.ite_none_right_eq_some, Option.some.injEq] at h
    rw [fst_of_eq h.2]
    exact waitMultiple_frame fun he => ht (he ▸ rfl)
  | cvSleep t cv csMtx timeout =>
    simp only [step, Option.ite_none_right_eq_some, Option.some.injEq] at h
    rw [fst_of_eq h.2]
    exact cvSleep_frame fun he => ht (he ▸ rfl)
  | resume t =>
    have hne : u ≠ t := fun he => ht (he ▸ rfl)
    simp only [step] at h
    split at h
    · cases h
    · rw [fst_of_eq (Option.some.inj h)]
      exact waitSingleResume_frame hne
    · rw [fst_of_eq (Option.some.inj h)]
      exact waitMultiplePass_frame hne
    · rw [fst_of_eq (Option.some.inj h)]
      exact cvSleepPass_frame hne
    · rw [fst_of_eq (Option.some.inj h)]
      exact cvReacquireResume_frame hne
  | expire t =>
    have hne : u ≠ t := fun he => ht (he ▸ rfl)
    simp only [step] at h
    split at h
    · simp only [Option.ite_none_left_eq_some, Option.some.injEq] at h
      rw [fst_of_eq h.2]
      exact waitSingleExpire_frame hne
    · simp only [Option.ite_none_left_eq_some, Option.some.injEq] at h
      rw [fst_of_eq h.2]
      exact endMultiple_frame hne
    · simp only [Option.ite_none_left_eq_some, Option.some.injEq] at h
      rw [fst_of_eq h.2]
      exact cvSleepExpire_frame hne
    · cases h
    · cases h
  | kickWorkers kickall kickman kickcv =>
    simp only [step, Option.some.injEq] at h
    rw [fst_of_eq h]
    exact kickWorkers_frame
  | kickTid tid =>
    simp only [step, Option.some.injEq] at h
    rw [fst_of_eq h]
    exact kickTid_frame

theorem step_calls (h : step s a = some (s', l)) (ht : a.thread ≠ some u) :
    s'.calls u = s.calls u := (step_frame h ht).calls

/-- A step of a thread is a step of one that exists. -/
theorem step_thread_ne (hz : NoZero s) (h : step s a = some (s', l)) : a.thread ≠ some 0 := by
  intro h0
  cases a with
  | call t op | waitSingle t | waitMultiple t | cvSleep t =>
    cases h0
    simp [step, Free] at h
  | resume t | expire t =>
    cases h0
    have hidle : s.calls 0 = .idle := hz
    simp [step, hidle] at h
  | kickWorkers | kickTid => cases h0

theorem step_noZero (hz : NoZero s) (h : step s a = some (s', l)) : NoZero s' := by
  unfold NoZero
  rw [step_calls h (step_thread_ne hz h)]
  exact hz

-- ---------------------------------------------------------------------------
-- Runs
-- ---------------------------------------------------------------------------

theorem Effect.wf (h : Effect s a C ev C') (hw : C.table.Wf) : C'.table.Wf := by
  cases h with
  | create _ hi _ _ hh => exact hw.put hi hh
  | signal | post | exit | bump =>
    rw [modify_table]
    exact hw.modify fun _ => ⟨rfl, rfl⟩
  | release =>
    refine hw.modify fun o => ?_
    unfold releaseOnce
    split <;> exact ⟨rfl, rfl⟩
  | close => exact hw.release
  | grant => exact hw.acquireAll
  | sleep | wake =>
    rw [setSleep_table, modify_table]
    exact hw.modify fun _ => ⟨rfl, rfl⟩
  | abandon => exact hw

theorem Effects.wf (h : Effects s a C ev C') (hw : C.table.Wf) : C'.table.Wf := by
  induction h with
  | nil => exact hw
  | cons he _ ih => exact ih (he.wf hw)

/-- A state any run reaches. -/
structure Sane (s : State) : Prop where
  noZero : NoZero s
  wf : s.table.Wf

theorem init_sane : Sane .init := ⟨rfl, Table.init_wf⟩

theorem step_sane (hs : Sane s) (h : step s a = some (s', l)) : Sane s' :=
  ⟨step_noZero hs.noZero h, (step_effects hs.noZero h).wf hs.wf⟩

theorem run_sane (h : Run step ok .init tr s) : Sane s :=
  h.invariant (P := fun _ s => Sane s) init_sane fun hs _ hst => step_sane hs hst

/-- What every effect of an action keeps, the action keeps. -/
theorem Effects.invariant {P : List Event → Core → Prop} (h : Effects s a C ev C')
    (hw : C.table.Wf) (h0 : P evs C)
    (keep : ∀ {evs C ev C'}, C.table.Wf → P evs C → Effect s a C ev C' → P (evs ++ ev) C') :
    P (evs ++ ev) C' := by
  induction h generalizing evs with
  | nil => simpa using h0
  | cons e _ ih =>
    rw [← List.append_assoc]
    exact ih (e.wf hw) (keep hw h0 e)

/-- A law of the objects kept by every effect is kept by every run. -/
theorem run_effects {P : List Event → Core → Prop} (h : Run step ok .init tr s)
    (init : P [] State.init.core)
    (keep : ∀ {s a evs C ev C'}, Sane s → ok s a → C.table.Wf → P evs C → Effect s a C ev C' →
      P (evs ++ ev) C') : P (Trace.events tr) s.core := by
  refine (h.invariant (P := fun tr s => Sane s ∧ P (Trace.events tr) s.core)
    ⟨init_sane, init⟩ ?_).2
  intro tr s a s' l hp hok hst
  rw [events_snoc]
  exact ⟨step_sane hp.1 hst, (step_effects hp.1.noZero hst).invariant hp.1.wf hp.2 (keep hp.1 hok)⟩

end WineGlass.Sync
