import WineGlass.Sync.Calls

/-!
# One handle, two waits

`wg_sync_wait_single` against `wg_sync_wait_multiple` on an array of one. Under
one schedule the two go alike step by step, but for an expired timer, after
which only the first tests the object again, and for the deadlock watchdog,
which sees only a thread inside the first.
-/

namespace WineGlass.Sync

open Runs

/-- What a step of thread `u` comes to, but for the wait queue and the broadcasts. -/
def Same (u : Nat) (r r' : State × Label) : Prop :=
  r.1.table = r'.1.table ∧ r.1.calls u = r'.1.calls u ∧ r.2 = r'.2

/-- Two states a step of thread `u` cannot tell apart. -/
structure Like (u : Nat) (x y : State) : Prop where
  table : x.table = y.table
  call : x.calls u = y.calls u

-- ---------------------------------------------------------------------------
-- What a step reads
-- ---------------------------------------------------------------------------

section
variable {x y : State} {u : Nat}

theorem Like.stay (h : Like u x y) (l : Label) : Same u (x, l) (y, l) := ⟨h.table, h.call, rfl⟩

theorem Like.store (h : Like u x y) (T : Table) (l : Label) : Same u (x.setTable T, l) (y.setTable T, l) :=
  ⟨rfl, h.call, rfl⟩

theorem Like.shout (h : Like u x y) (T : Table) (l : Label) :
    Same u ((x.setTable T).broadcast, l) ((y.setTable T).broadcast, l) := ⟨rfl, h.call, rfl⟩

theorem Like.leave (h : Like u x y) (l : Label) : Same u (x.leave u, l) (y.leave u, l) :=
  ⟨h.table, by simp [State.leave], rfl⟩

theorem Like.park (h : Like u x y) (c : Call) (l : Label) : Same u (x.park u c, l) (y.park u c, l) :=
  ⟨h.table, by simp [State.park], rfl⟩

theorem createObj_same (h : Like u x y) (ty : ObjType) (f : SyncObj → SyncObj) :
    Same u (createObj x ty f) (createObj y ty f) := by
  unfold createObj
  rw [h.table]
  split
  · exact h.stay _
  · exact h.store _ _

theorem signalEvent_same (h : Like u x y) : Same u (signalEvent x k b bcast ev) (signalEvent y k b bcast ev) := by
  unfold signalEvent
  rw [h.table]
  split
  · exact h.stay _
  · split
    · cases bcast
      · exact h.store _ _
      · exact h.shout _ _
    · exact h.stay _

theorem releaseMutex_same (h : Like u x y) : Same u (releaseMutex x k t) (releaseMutex y k t) := by
  unfold releaseMutex
  rw [h.table]
  split
  · exact h.stay _
  · dsimp only
    split
    · split
      · exact h.shout _ _
      · exact h.store _ _
    · exact h.stay _

theorem releaseSemaphore_same (h : Like u x y) : Same u (releaseSemaphore x k n) (releaseSemaphore y k n) := by
  unfold releaseSemaphore
  rw [h.table]
  split
  · exact h.stay _
  · dsimp only
    split
    · exact h.shout _ _
    · exact h.stay _

theorem threadExit_same (h : Like u x y) : Same u (threadExit x k code) (threadExit y k code) := by
  unfold threadExit
  rw [h.table]
  split
  · exact h.stay _
  · dsimp only
    split
    · exact h.shout _ _
    · exact h.stay _

theorem cvWake_same (h : Like u x y) (wakeAll : Bool) : Same u (cvWake x k wakeAll) (cvWake y k wakeAll) := by
  unfold cvWake
  rw [h.table]
  split
  · exact h.stay _
  · split
    · exact h.shout _ _
    · exact h.stay _

theorem isKnown_same (h : Like u x y) : Same u (isKnown x k) (isKnown y k) := by
  unfold isKnown
  rw [h.table]
  exact h.stay _

theorem threadExitCode_same (h : Like u x y) : Same u (threadExitCode x k) (threadExitCode y k) := by
  unfold threadExitCode
  rw [h.table]
  split <;> exact h.stay _

theorem close_same (h : Like u x y) : Same u (close x k) (close y k) := by
  unfold close
  rw [h.table]
  split
  · exact h.stay _
  · exact h.shout _ _

theorem runOp_same (h : Like u x y) (op : Op) : Same u (runOp x u op) (runOp y u op) := by
  cases op with
  | createEvent | createMutex | createSemaphore | createThreadObj | createCv => exact createObj_same h _ _
  | setEvent | resetEvent | pulseEvent => exact signalEvent_same h
  | releaseMutex => exact releaseMutex_same h
  | releaseSemaphore => exact releaseSemaphore_same h
  | threadExit => exact threadExit_same h
  | cvWake cv wakeAll => exact cvWake_same h wakeAll
  | isKnown => exact isKnown_same h
  | threadExitCode => exact threadExitCode_same h
  | close => exact close_same h

/-- The way out of a wait that takes objects. -/
theorem take_same {out out' : State → Nat → Nat → State × Label} (hT : x.table = y.table)
    (hout : ∀ T, Same u (out (x.setTable T) u rv) (out' (y.setTable T) u rv)) :
    Same u (take x u is rv out) (take y u is rv out') := by
  unfold take
  rw [hT]
  obtain ⟨h1, h2, h3⟩ := hout (y.table.acquireAll u is)
  exact ⟨h1, h2, congrArg (fun l : Label => { l with events := is.map (.acquired u <| y.table.ident ·) }) h3⟩

theorem endSingle_same (hT : x.table = y.table) : Same u (endSingle x u rv) (endSingle y u rv) :=
  ⟨hT, by simp [endSingle, State.leave], rfl⟩

theorem endMultiple_same (hT : x.table = y.table) : Same u (endMultiple x u rv) (endMultiple y u rv) :=
  ⟨hT, by simp [endMultiple, State.leave], rfl⟩

theorem waitSinglePass_same (hT : x.table = y.table) :
    Same u (waitSinglePass x u k timeout i) (waitSinglePass y u k timeout i) := by
  unfold waitSinglePass
  rw [hT]
  split
  · exact take_same hT fun _ => endSingle_same rfl
  · split
    · exact endSingle_same hT
    · exact ⟨hT, by simp [State.park], rfl⟩

theorem waitSingle_same (h : Like u x y) : Same u (waitSingle x u k timeout) (waitSingle y u k timeout) := by
  unfold waitSingle
  rw [h.table]
  split
  · exact h.stay _
  · exact waitSinglePass_same rfl

theorem waitSingleResume_same (h : Like u x y) :
    Same u (waitSingleResume x u k timeout) (waitSingleResume y u k timeout) := by
  unfold waitSingleResume
  rw [h.table]
  split
  · exact endSingle_same h.table
  · exact waitSinglePass_same h.table

theorem waitSingleExpire_same (h : Like u x y) : Same u (waitSingleExpire x u k) (waitSingleExpire y u k) := by
  unfold waitSingleExpire
  dsimp only
  rw [h.table]
  split
  · exact take_same h.table fun _ => endSingle_same rfl
  · exact endSingle_same h.table

theorem waitMultiplePass_same (h : Like u x y) :
    Same u (waitMultiplePass x u handles waitAll timeout) (waitMultiplePass y u handles waitAll timeout) := by
  unfold waitMultiplePass
  rw [h.table]
  split
  · exact endMultiple_same h.table
  · split
    · exact take_same h.table fun _ => endMultiple_same rfl
    · split
      · exact endMultiple_same h.table
      · exact h.park _ _

theorem waitMultiple_same (h : Like u x y) :
    Same u (waitMultiple x u hs waitAll timeout) (waitMultiple y u hs waitAll timeout) := by
  unfold waitMultiple
  split
  · exact h.stay _
  · exact waitMultiplePass_same h

theorem cvTake_same (h : Like u x y) : Same u (cvTake x u m i saved rv) (cvTake y u m i saved rv) := by
  unfold cvTake
  dsimp only
  rw [h.table]
  split
  · exact h.park _ _
  · exact ⟨rfl, by simp [State.leave], rfl⟩

theorem cvLeave_same (h : Like u x y) : Same u (cvLeave x u m saved rv) (cvLeave y u m saved rv) := by
  unfold cvLeave
  rw [h.table]
  split
  · exact h.leave _
  · split
    · exact cvTake_same h
    · exact h.leave _

theorem cvSleepPass_same (h : Like u x y) :
    Same u (cvSleepPass x u cv m timeout saved gen) (cvSleepPass y u cv m timeout saved gen) := by
  unfold cvSleepPass
  rw [h.table]
  split
  · exact cvLeave_same h
  · split
    · exact cvLeave_same h
    · split
      · exact cvLeave_same h
      · exact h.park _ _

theorem cvSleep_same (h : Like u x y) : Same u (cvSleep x u cv m timeout) (cvSleep y u cv m timeout) := by
  unfold cvSleep
  rw [h.table]
  split
  · split
    · exact cvSleepPass_same ⟨rfl, h.call⟩
    · exact h.stay _
  · exact h.stay _

theorem cvSleepExpire_same (h : Like u x y) :
    Same u (cvSleepExpire x u cv m saved gen) (cvSleepExpire y u cv m saved gen) := by
  unfold cvSleepExpire
  dsimp only
  rw [h.table]
  split <;> exact cvLeave_same h

theorem cvReacquireResume_same (h : Like u x y) :
    Same u (cvReacquireResume x u m saved rv) (cvReacquireResume y u m saved rv) := by
  unfold cvReacquireResume
  rw [h.table]
  split
  · exact h.leave _
  · exact cvTake_same h

theorem step_same (h : Like u x y) (ha : a.thread = some u) : Option.Rel (Same u) (step x a) (step y a) := by
  have hfree : Free x u ↔ Free y u := by
    unfold Free
    rw [h.call]
  have hcall {r r' : State × Label} (hr : Same u r r') :
      Option.Rel (Same u) (if Free x u then some r else none) (if Free y u then some r' else none) := by
    rw [if_congr hfree rfl rfl]
    split
    · exact .some hr
    · exact .none
  cases a with
  | call t op =>
    cases ha
    exact hcall (runOp_same h op)
  | waitSingle t k timeout =>
    cases ha
    exact hcall (waitSingle_same h)
  | waitMultiple t hs waitAll timeout =>
    cases ha
    exact hcall (waitMultiple_same h)
  | cvSleep t cv m timeout =>
    cases ha
    exact hcall (cvSleep_same h)
  | resume t =>
    cases ha
    simp only [step, h.call]
    split
    · exact .none
    · exact .some (waitSingleResume_same h)
    · exact .some (waitMultiplePass_same h)
    · exact .some (cvSleepPass_same h)
    · exact .some (cvReacquireResume_same h)
  | expire t =>
    cases ha
    simp only [step, h.call]
    split
    · split
      · exact .none
      · exact .some (waitSingleExpire_same h)
    · split
      · exact .none
      · exact .some (endMultiple_same h.table)
    · split
      · exact .none
      · exact .some (cvSleepExpire_same h)
    · exact .none
    · exact .none
  | kickWorkers | kickTid => cases ha

end

-- ---------------------------------------------------------------------------
-- The two waits
-- ---------------------------------------------------------------------------

/-- The array of one handle. -/
def one (k : Nat) : Handles := ⟨[k], by simp⟩

/-- Two states that differ only in the wait thread `t` is inside. -/
structure Twins (t k : Nat) (x y : State) : Prop where
  table : x.table = y.table
  others : ∀ u ≠ t, x.calls u = y.calls u
  self : x.calls t = y.calls t ∨ ∃ waitAll timeout,
    x.calls t = .waitSingle k timeout ∧ y.calls t = .waitMultiple (one k) waitAll timeout

/-- What a step does to the objects, and what is seen of it. -/
def outcome (s : State) (a : Action) : Option (Table × Label) := (step s a).map fun r => (r.1.table, r.2)

/-- The timer of the wait does not expire on a signalled object, and the watchdog kicks the
same events in both states. -/
def Even (t k : Nat) (p : State × State) (a : Action) : Prop :=
  (a = .expire t → p.1.calls t ≠ p.2.calls t →
    satisfiedLocked (p.1.table.objs (k - syncBase)) t = false) ∧
  (a.IsKick → outcome p.1 a = outcome p.2 a)

/-- One action, taken in both states. -/
def pairStep (p : State × State) (a : Action) : Option ((State × State) × (Label × Label)) :=
  match step p.1 a, step p.2 a with
  | some r, some r' => some ((r.1, r'.1), (r.2, r'.2))
  | _, _ => none

theorem resolve_one (T : Table) (k : Nat) : resolve T [k] = (T.findLocked k).map fun i => [i] := by
  unfold resolve
  cases T.findLocked k <;> rfl

theorem scan_one (T : Table) (t i : Nat) (waitAll : Bool) : scanMultiple T t [i] waitAll =
    if satisfiedLocked (T.objs i) t then some ([i], waitObject0) else none := by
  unfold scanMultiple firstSatisfied
  cases hs : satisfiedLocked (T.objs i) t <;> cases waitAll <;> simp [hs, firstSatisfied]

/-- A pass of either wait comes to the same, or leaves the thread waiting in each. -/
def PassTwins (t k : Nat) (r r' : State × Label) : Prop :=
  r.1.table = r'.1.table ∧ r.2 = r'.2 ∧ (r.1.calls t = r'.1.calls t ∨ ∃ waitAll timeout,
    r.1.calls t = .waitSingle k timeout ∧ r'.1.calls t = .waitMultiple (one k) waitAll timeout)

theorem pass_twins (hT : x.table = y.table) (hf : y.table.findLocked k = some i) :
    PassTwins t k (waitSinglePass x t k timeout i) (waitMultiplePass y t (one k) waitAll timeout) := by
  have hres : resolve y.table (one k).val = some [i] := by
    show resolve y.table [k] = _
    rw [resolve_one, hf]
    rfl
  unfold waitSinglePass waitMultiplePass
  rw [hres, hT]
  dsimp only
  rw [scan_one]
  split
  · have htake : Same t (take x t [i] waitObject0 endSingle) (take y t [i] waitObject0 endMultiple) :=
      take_same hT fun T => ⟨rfl, by simp [endSingle, endMultiple, State.leave], rfl⟩
    exact ⟨htake.1, htake.2.2, .inl htake.2.1⟩
  · split
    · exact ⟨hT, rfl, .inl (by simp [endSingle, endMultiple, State.leave])⟩
    · exact ⟨hT, rfl, .inr ⟨waitAll, timeout, by simp [State.park], by simp [State.park]⟩⟩

theorem gone_twins (hT : x.table = y.table) (hf : y.table.findLocked k = none) :
    PassTwins t k (endSingle x t waitFailed) (waitMultiplePass y t (one k) waitAll timeout) := by
  have hres : resolve y.table (one k).val = none := by
    show resolve y.table [k] = _
    rw [resolve_one, hf]
    rfl
  unfold waitMultiplePass
  rw [hres]
  exact ⟨hT, rfl, .inl (by simp [endSingle, endMultiple, State.leave])⟩

theorem resume_twins (hT : x.table = y.table) :
    PassTwins t k (waitSingleResume x t k timeout) (waitMultiplePass y t (one k) waitAll timeout) := by
  unfold waitSingleResume
  rw [hT]
  split
  · rename_i hf
    exact gone_twins hT hf
  · rename_i i hf
    exact pass_twins hT hf

theorem expire_twins (hT : x.table = y.table)
    (hsat : satisfiedLocked (x.table.objs (k - syncBase)) t = false) :
    PassTwins t k (waitSingleExpire x t k) (endMultiple y t waitTimeout) := by
  unfold waitSingleExpire
  dsimp only
  rw [if_neg (by rw [hsat]; exact Bool.false_ne_true)]
  exact ⟨hT, rfl, .inl (by simp [endSingle, endMultiple, State.leave])⟩

theorem begin_twins (hT : x.table = y.table) (hidle : x.calls t = .idle) :
    PassTwins t k (waitSingle x t k timeout) (waitMultiple y t [k] waitAll timeout) := by
  have hlen : ¬([k].length = 0 ∨ 64 < [k].length) := by simp
  unfold waitSingle waitMultiple
  rw [dif_neg hlen, hT]
  split
  · rename_i hf
    have hgone : PassTwins t k (endSingle x t waitFailed) (waitMultiplePass y t (one k) waitAll timeout) :=
      gone_twins hT hf
    obtain ⟨h1, h2, h3⟩ := hgone
    have hend : (endSingle x t waitFailed).1.calls t = x.calls t := by
      rw [hidle]
      simp [endSingle, State.leave]
    rw [hend] at h3
    exact ⟨h1, h2, h3⟩
  · rename_i i hf
    exact pass_twins rfl hf

/-- A step of thread `u` in both states, from what it leaves of the table and of the thread. -/
theorem Twins.move (hw : Twins t k x y) (ha : a.thread = some u) (hx : step x a = some r)
    (hy : step y a = some r') (htable : r.1.table = r'.1.table)
    (hself : u ≠ t → r.1.calls u = r'.1.calls u)
    (ht : u = t → r.1.calls t = r'.1.calls t ∨ ∃ waitAll timeout,
      r.1.calls t = .waitSingle k timeout ∧ r'.1.calls t = .waitMultiple (one k) waitAll timeout) :
    Twins t k r.1 r'.1 := by
  have hkeep {v : Nat} (hv : v ≠ u) : r.1.calls v = x.calls v ∧ r'.1.calls v = y.calls v := by
    have hne : a.thread ≠ some v := by
      rw [ha]
      exact fun h => hv (Option.some.inj h).symm
    exact ⟨step_calls hx hne, step_calls hy hne⟩
  refine ⟨htable, fun v hv => ?_, ?_⟩
  · by_cases hvu : v = u
    · subst hvu
      exact hself hv
    · rw [(hkeep hvu).1, (hkeep hvu).2]
      exact hw.others v hv
  · by_cases hut : u = t
    · exact ht hut
    · rw [(hkeep (Ne.symm hut)).1, (hkeep (Ne.symm hut)).2]
      exact hw.self

/-- The steps of two states come to the same. -/
def StepTwins (t k : Nat) : Option (State × Label) → Option (State × Label) → Prop :=
  Option.Rel fun r r' => Twins t k r.1 r'.1 ∧ r.2 = r'.2

theorem kick_twins (hw : Twins t k x y) (ha : a.thread = none) (he : outcome x a = outcome y a) :
    StepTwins t k (step x a) (step y a) := by
  unfold outcome at he
  cases hx : step x a with
  | none =>
    rw [hx, Option.map_none, eq_comm, Option.map_eq_none_iff] at he
    rw [he]
    exact .none
  | some r =>
    rw [hx, Option.map_some, eq_comm, Option.map_eq_some_iff] at he
    obtain ⟨r', hy, heq⟩ := he
    obtain ⟨htable, hl⟩ := Prod.mk.inj heq
    have hcalls (v : Nat) : r.1.calls v = x.calls v ∧ r'.1.calls v = y.calls v := by
      have hne : a.thread ≠ some v := by
        rw [ha]
        nofun
      exact ⟨step_calls hx hne, step_calls hy hne⟩
    rw [hy]
    refine .some ⟨⟨htable.symm, fun v hv => ?_, ?_⟩, hl.symm⟩
    · rw [(hcalls v).1, (hcalls v).2]
      exact hw.others v hv
    · rw [(hcalls t).1, (hcalls t).2]
      exact hw.self

theorem like_twins (hw : Twins t k x y) (h : Like u x y) (ha : a.thread = some u) :
    StepTwins t k (step x a) (step y a) := by
  have hrel := step_same h ha
  cases hx : step x a with
  | none =>
    rw [hx] at hrel
    cases hy : step y a with
    | none => exact .none
    | some r' =>
      rw [hy] at hrel
      cases hrel
  | some r =>
    rw [hx] at hrel
    cases hy : step y a with
    | none =>
      rw [hy] at hrel
      cases hrel
    | some r' =>
      rw [hy] at hrel
      cases hrel with
      | some hsame =>
        refine .some ⟨hw.move ha hx hy hsame.1 (fun _ => hsame.2.1) ?_, hsame.2.2⟩
        rintro rfl
        exact .inl hsame.2.1

theorem pass_step (hw : Twins t k x y) (ha : a.thread = some t) (hx : step x a = some r)
    (hy : step y a = some r') (hp : PassTwins t k r r') : StepTwins t k (step x a) (step y a) := by
  rw [hx, hy]
  exact .some ⟨hw.move ha hx hy hp.1 (fun h => absurd rfl h) fun _ => hp.2.2, hp.2.1⟩

/-- One step keeps the two states twins and shows the same in both. -/
theorem step_twins (hw : Twins t k x y) (he : Even t k (x, y) a) :
    StepTwins t k (step x a) (step y a) := by
  cases ha : a.thread with
  | none =>
    refine kick_twins hw ha (he.2 ?_)
    cases a with
    | kickWorkers | kickTid => trivial
    | _ => cases ha
  | some u =>
    by_cases hut : u = t
    · subst hut
      rcases hw.self with hsame | ⟨waitAll, timeout, hcx, hcy⟩
      · exact like_twins hw ⟨hw.table, hsame⟩ ha
      have hbusy : ¬Free x u ∧ ¬Free y u := by simp [Free, hcx, hcy]
      cases a with
      | call | waitSingle | waitMultiple | cvSleep =>
        cases ha
        simp only [step, hbusy, ↓reduceIte]
        exact .none
      | resume =>
        cases ha
        have hx : step x (.resume u) = some (waitSingleResume x u k timeout) := by simp only [step, hcx]
        have hy : step y (.resume u) = some (waitMultiplePass y u (one k) waitAll timeout) := by
          simp only [step, hcy]
        exact pass_step hw rfl hx hy (resume_twins hw.table)
      | expire =>
        cases ha
        by_cases hinf : timeout = syncInfinite
        · simp only [step, hcx, hcy, hinf, ↓reduceIte]
          exact .none
        · have hne : x.calls u ≠ y.calls u := by
            simp [hcx, hcy]
          refine pass_step hw rfl ?_ ?_ (expire_twins hw.table (he.1 rfl hne))
          · simp only [step, hcx, hinf, ↓reduceIte]
          · simp only [step, hcy, hinf, ↓reduceIte]
      | kickWorkers | kickTid => cases ha
    · exact like_twins hw ⟨hw.table, hw.others u hut⟩ ha

-- ---------------------------------------------------------------------------
-- The law
-- ---------------------------------------------------------------------------

theorem pairStep_some (h : pairStep p a = some (q, l)) :
    step p.1 a = some (q.1, l.1) ∧ step p.2 a = some (q.2, l.2) := by
  unfold pairStep at h
  split at h
  · rename_i r r' hx hy
    obtain ⟨rfl, rfl⟩ := Prod.mk.inj (Option.some.inj h)
    exact ⟨hx, hy⟩
  · cases h

theorem run_twins (h : Run pairStep (Even t k) p tr q) (hw : Twins t k p.1 p.2) :
    Twins t k q.1 q.2 ∧ ∀ e ∈ tr, e.2.1 = e.2.2 := by
  induction h with
  | nil => exact ⟨hw, by simp⟩
  | snoc _ he hst ih =>
    obtain ⟨htw, hsame⟩ := ih
    obtain ⟨hx, hy⟩ := pairStep_some hst
    have hrel := step_twins htw he
    rw [hx, hy] at hrel
    cases hrel with
    | some hr =>
      refine ⟨hr.1, fun e hmem => ?_⟩
      rcases List.mem_append.1 hmem with hmem | hmem
      · exact hsame e hmem
      · rw [List.mem_singleton.1 hmem]
        exact hr.2

/-- Waiting for one handle either way gives the same codes and leaves the same objects, along
every schedule in which no timer of the wait expires on a signalled object and the watchdog
kicks the same events. -/
theorem one_handle_law (hx : step s (.waitSingle t k timeout) = some (x, l))
    (hy : step s (.waitMultiple t [k] waitAll timeout) = some (y, l')) : l = l' ∧
    ∀ tr p, Run pairStep (Even t k) (x, y) tr p → p.1.table = p.2.table ∧ (∀ e ∈ tr, e.2.1 = e.2.2) ∧
      ∀ a, Even t k p a → ((step p.1 a).isSome ↔ (step p.2 a).isSome) := by
  have hcalls {v : Nat} (hv : v ≠ t) : x.calls v = y.calls v := by
    have hne : some t ≠ some v := fun h => hv (Option.some.inj h).symm
    exact (step_calls hx hne).trans (step_calls hy hne).symm
  simp only [step, Option.ite_none_right_eq_some, Option.some.injEq] at hx hy
  obtain ⟨hfree, hx⟩ := hx
  have hbegin : PassTwins t k (waitSingle s t k timeout) (waitMultiple s t [k] waitAll timeout) :=
    begin_twins rfl hfree.2
  rw [hx, hy.2] at hbegin
  refine ⟨hbegin.2.1, fun tr p hrun => ?_⟩
  obtain ⟨htw, hsame⟩ := run_twins hrun ⟨hbegin.1, fun v hv => hcalls hv, hbegin.2.2⟩
  refine ⟨htw.table, hsame, fun a he => ?_⟩
  have hrel := step_twins htw he
  generalize step p.1 a = r, step p.2 a = r' at hrel ⊢
  cases hrel with
  | none => rfl
  | some => exact iff_of_true rfl rfl

-- ---------------------------------------------------------------------------
-- Runs
-- ---------------------------------------------------------------------------

/-- Thread 2 creates an auto-reset event, and thread 1 waits for it in either way. -/
structure EitherWait (s x y : State) (l l' : Label) : Prop where
  run : ∃ tr, Run step anyStep .init tr s
  single : step s (.waitSingle 1 syncBase 5) = some (x, l)
  multiple : step s (.waitMultiple 1 [syncBase] true 5) = some (y, l')

/-- A schedule after that, found by evaluation. -/
theorem either_wait (acts : List Action) (ok : State × State → Action → Prop) [∀ p a, Decidable (ok p a)]
    (P : List (Action × Label × Label) × State × State → Bool)
    (h : (exec step anyStep .init [.call 2 (.createEvent false false)]).any (fun r =>
      (step r.2 (.waitSingle 1 syncBase 5)).any fun x =>
        (step r.2 (.waitMultiple 1 [syncBase] true 5)).any fun y =>
          (exec pairStep ok (x.1, y.1) acts).any P) = true) :
    ∃ s x y l l' tr p, EitherWait s x y l l' ∧ Run pairStep ok (x, y) tr p ∧ P (tr, p) = true := by
  obtain ⟨tr, s, hrun, h⟩ := Run.of_exec_any h
  obtain ⟨⟨x, l⟩, hx, h⟩ := (Option.any_eq_true _ _).1 h
  obtain ⟨⟨y, l'⟩, hy, h⟩ := (Option.any_eq_true _ _).1 h
  obtain ⟨tr', p, hpair, hp⟩ := Run.of_exec_any h
  exact ⟨s, x, y, l, l', tr', p, ⟨⟨tr, hrun⟩, hx, hy⟩, hpair, hp⟩

theorem one_handle_law_set : ∃ s x y l l' tr p, EitherWait s x y l l' ∧
    Run pairStep (Even 1 syncBase) (x, y) tr p ∧ tr.length = 2 ∧ ∀ e ∈ tr, e.2.1 = e.2.2 := by
  obtain ⟨s, x, y, l, l', tr, p, hw, hrun, hp⟩ := either_wait
    [.call 2 (.setEvent syncBase), .resume 1] (fun _ a => a.thread.isSome = true ∧ a ≠ .expire 1)
    (fun r => decide (r.1.length = 2)) (by decide +kernel)
  have heven : Run pairStep (Even 1 syncBase) (x, y) tr p := hrun.mono fun _ a ha => by
    refine ⟨fun he => absurd he ha.2, fun hk => ?_⟩
    cases a with
    | kickWorkers | kickTid => exact absurd ha.1 Bool.false_ne_true
    | _ => cases hk
  exact ⟨s, x, y, l, l', tr, p, hw, heven, of_decide_eq_true hp,
    ((one_handle_law hw.single hw.multiple).2 tr p heven).2.1⟩

/-- The event is set in the instant the timer expires: one wait takes it, the other times out. -/
theorem expired_waits_differ : ¬∀ (s x y : State) (l l' : Label) (t k timeout : Nat) (waitAll : Bool)
    (tr : List (Action × Label × Label)) (p : State × State), (∃ tr, Run step anyStep .init tr s) →
    step s (.waitSingle t k timeout) = some (x, l) → step s (.waitMultiple t [k] waitAll timeout) = some (y, l') →
    Run pairStep anyStep (x, y) tr p → p.1.table = p.2.table ∧ ∀ e ∈ tr, e.2.1 = e.2.2 := by
  intro h
  obtain ⟨s, x, y, l, l', tr, p, hw, hrun, hp⟩ := either_wait
    [.call 2 (.setEvent syncBase), .expire 1] anyStep (fun r => decide (∃ e ∈ r.1, e.2.1 ≠ e.2.2))
    (by decide +kernel)
  obtain ⟨e, he, hne⟩ := of_decide_eq_true hp
  exact hne ((h s x y l l' 1 syncBase 5 true tr p hw.run hw.single hw.multiple hrun).2 e he)

end WineGlass.Sync
