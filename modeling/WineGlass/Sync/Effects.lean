import WineGlass.Sync.Monitor

/-!
# What an atomic step does to the objects

`step_effects` is the one inversion of `step`: whatever an action does, it
does to the objects and to the set of threads asleep on a mutex as a short
sequence of effects, each with its guard and with the part of the action it
comes from. The object laws are proved of effects and never unfold a step.
-/

namespace WineGlass.Sync

open CInt

/-- The objects, and for each thread inside a condition-variable sleep the
mutex handle and the recursion depth it will restore. -/
structure Core where
  table : Table
  sleeps : Nat → Option (Nat × Int)

def Call.sleep : Call → Option (Nat × Int)
  | .cvSleep _ csMtx _ saved _ => some (csMtx, saved)
  | .cvReacquire csMtx saved _ => some (csMtx, saved)
  | _ => none

def State.core (s : State) : Core := ⟨s.table, fun t => (s.calls t).sleep⟩

def Core.setSleep (C : Core) (t : Nat) (x : Option (Nat × Int)) : Core :=
  { C with sleeps := Function.update C.sleeps t x }

def Core.modify (C : Core) (i : Nat) (f : SyncObj → SyncObj) : Core :=
  { C with table := C.table.modify i f }

/-- The slots a wait acquires in this step, read off the state before it. -/
def State.grants (s : State) : Action → List Nat
  | .waitSingle t h _ => single t (s.table.findLocked h)
  | .waitMultiple t handles waitAll _ =>
    if handles.length = 0 ∨ 64 < handles.length then [] else multiple t handles waitAll
  | .resume t =>
    match s.calls t with
    | .waitSingle h _ => single t (s.table.findLocked h)
    | .waitMultiple handles waitAll _ => multiple t handles.val waitAll
    | _ => []
  | .expire t =>
    match s.calls t with
    | .waitSingle h _ => single t (some (h - syncBase))
    | _ => []
  | _ => []
where
  single (t : Nat) : Option Nat → List Nat
    | none => []
    | some i => if satisfiedLocked (s.table.objs i) t then [i] else []
  multiple (t : Nat) (handles : List Nat) (waitAll : Bool) : List Nat :=
    match resolve s.table handles with
    | none => []
    | some slots =>
      match scanMultiple s.table t slots waitAll with
      | none => []
      | some (is, _) => is

def Op.Creates : Op → Prop
  | .createEvent .. | .createMutex .. | .createSemaphore .. | .createThreadObj .. | .createCv => True
  | _ => False

/-- `a` creates an object in slot `i`. -/
def State.Creates (s : State) (a : Action) (i : Nat) : Prop :=
  (∃ t op, a = .call t op ∧ op.Creates) ∧ Table.firstFree s.table.objs 0 syncMax = some i

/-- `a` moves the generation of the condition variable in slot `i` on. -/
def State.Bumps (s : State) (a : Action) (i : Nat) : Prop :=
  (∃ t cv wakeAll, a = .call t (.cvWake cv wakeAll) ∧ s.table.findLocked cv = some i) ∨
  (∃ kickall kickman, a = .kickWorkers kickall kickman true ∧ (s.table.objs i).type = .cv)

def Action.IsKick : Action → Prop
  | .kickWorkers .. | .kickTid _ => True
  | _ => False

/-- One `--o->recursion`, with the owner cleared at zero. -/
def releaseOnce (o : SyncObj) : SyncObj :=
  if o.recursion - 1 = 0 then { o with recursion := 0, ownerTid := 0 }
  else { o with recursion := o.recursion - 1 }

/-- How the signalled flag moves, and what is seen of it. -/
inductive Signals (a : Action) (id : Nat) : Bool → Event → Prop
  | set : Signals a id true (.set id)
  | reset : Signals a id false (.reset id)
  | pulsed : Signals a id false (.pulsed id)
  | kicked : a.IsKick → Signals a id true (.kicked id)

/-- The effects of action `a`, taken in state `s`. -/
inductive Effect (s : State) (a : Action) : Core → List Event → Core → Prop
  | create (ha : s.Creates a i) (hi : i < syncMax) (hfree : (C.table.objs i).type = .free)
      (ht : o.type ≠ .free) (hh : o.handle = syncBase + i)
      (hm : o.type = .mutex → o.ownerTid = 0 ∧ o.recursion = 0 ∨ o.ownerTid ≠ 0 ∧ o.recursion = 1)
      (hs : o.type = .sem → ∃ t, a = .call t (.createSemaphore o.count o.max))
      (hcv : o.type = .cv → o.count = 0) :
      Effect s a C (.created C.table.fresh o :: initialHold o C.table.fresh)
        { C with table := C.table.put i o }
  | signal (hty : (C.table.objs i).type = .event) (hk : Signals a (C.table.ident i) b ev) :
      Effect s a C [ev] (C.modify i ({ · with signalled := b }))
  | release (hty : (C.table.objs i).type = .mutex) (ht : t ≠ 0) (ho : (C.table.objs i).ownerTid = t)
      (hr : 0 < (C.table.objs i).recursion) (hs : C.sleeps t = none) :
      Effect s a C [.released t (C.table.ident i)] (C.modify i releaseOnce)
  | post (ha : a = .call t (.releaseSemaphore h n)) (hc : C.table = s.table)
      (hi : s.table.findLocked h = some i) (hty : (C.table.objs i).type = .sem) :
      Effect s a C [.posted (C.table.ident i) (C.table.objs i).count n]
        (C.modify i fun o => { o with count := postCount o n })
  | exit (hty : (C.table.objs i).type = .thread) :
      Effect s a C [] (C.modify i ({ · with exited := true, exitCode := code }))
  | bump (ha : s.Bumps a i) (hty : (C.table.objs i).type = .cv)
      (hc : (C.table.objs i).count = (s.table.objs i).count) :
      Effect s a C [.woke (C.table.ident i)] (C.modify i bumpCount)
  | close (ha : a = .call t (.close h)) (hc : C = s.core) (hi : s.table.findLocked h = some i) :
      Effect s a C [.closed (C.table.ident i)] { C with table := C.table.release i }
  | grant (hc : C = s.core) (hg : s.grants a = is) (ht : t ≠ 0) (hs : C.sleeps t = none)
      (hsat : ∀ i ∈ is, satisfiedLocked (C.table.objs i) t) :
      Effect s a C (is.map (.acquired t <| C.table.ident ·))
        { C with table := C.table.acquireAll t is }
  | sleep (ha : a = .cvSleep t cv csMtx timeout) (hc : C = s.core) (ht : t ≠ 0)
      (hi : s.table.findLocked csMtx = some i) (hty : (C.table.objs i).type = .mutex)
      (hs : C.sleeps t = none) (hsaved : saved =
        if 0 < (C.table.objs i).recursion then (C.table.objs i).recursion else 1) :
      Effect s a C [] ((C.modify i ({ · with ownerTid := 0, recursion := 0 })).setSleep t
        (some (csMtx, saved)))
  | wake (hs : C.sleeps t = some (csMtx, saved)) (hi : C.table.findLocked csMtx = some i)
      (ho : (C.table.objs i).ownerTid = 0 ∨ (C.table.objs i).ownerTid = t) :
      Effect s a C [.reacquired t (C.table.ident i)]
        ((C.modify i ({ · with ownerTid := t, recursion := saved })).setSleep t none)
  | abandon (hs : C.sleeps t = some (csMtx, saved))
      (hn : ∀ i, C.table.findLocked csMtx = some i → (C.table.objs i).type ≠ .mutex) :
      Effect s a C [] (C.setSleep t none)

inductive Effects (s : State) (a : Action) : Core → List Event → Core → Prop
  | nil : Effects s a C [] C
  | cons : Effect s a C ev C₁ → Effects s a C₁ evs C₂ → Effects s a C (ev ++ evs) C₂

theorem Effects.one (h : Effect s a C ev C') : Effects s a C ev C' := by
  have h' := Effects.cons h .nil
  rwa [List.append_nil] at h'

theorem Effects.append (h : Effects s a C ev C₁) (h' : Effects s a C₁ ev' C₂) :
    Effects s a C (ev ++ ev') C₂ := by
  induction h with
  | nil => exact h'
  | cons he _ ih =>
    rw [List.append_assoc]
    exact .cons he (ih h')

-- ---------------------------------------------------------------------------
-- The core of an updated state
-- ---------------------------------------------------------------------------

@[simp] theorem core_table (s : State) : s.core.table = s.table := rfl
@[simp] theorem core_sleeps (s : State) (t : Nat) : s.core.sleeps t = (s.calls t).sleep := rfl
@[simp] theorem core_broadcast (s : State) : s.broadcast.core = s.core := rfl
@[simp] theorem core_setTable (s : State) (T : Table) :
    (s.setTable T).core = { s.core with table := T } := rfl
@[simp] theorem core_waitq (s : State) : ({ s with waitq := q } : State).core = s.core := rfl
@[simp] theorem setTable_table (s : State) (T : Table) : (s.setTable T).table = T := rfl
@[simp] theorem broadcast_table (s : State) : s.broadcast.table = s.table := rfl
@[simp] theorem leave_table (s : State) : (s.leave t).table = s.table := rfl

@[simp] theorem core_park (s : State) (t : Nat) (c : Call) :
    (s.park t c).core = s.core.setSleep t c.sleep := by
  simp only [State.core, State.park, Core.setSleep, Core.mk.injEq, true_and]
  exact Function.comp_update Call.sleep s.calls t c

@[simp] theorem core_leave (s : State) (t : Nat) : (s.leave t).core = s.core.setSleep t none := by
  simp only [State.core, State.leave, Core.setSleep, Core.mk.injEq, true_and]
  exact Function.comp_update Call.sleep s.calls t .idle

theorem setSleep_same {C : Core} (h : C.sleeps t = x) : C.setSleep t x = C := by
  subst h
  simp [Core.setSleep]

@[simp] theorem setSleep_table (C : Core) : (C.setSleep t x).table = C.table := rfl
@[simp] theorem setSleep_self (C : Core) : (C.setSleep t x).sleeps t = x := by simp [Core.setSleep]
theorem setSleep_ne (C : Core) (h : u ≠ t) : (C.setSleep t x).sleeps u = C.sleeps u := by
  simp [Core.setSleep, h]
@[simp] theorem modify_table (C : Core) : (C.modify i f).table = C.table.modify i f := rfl
@[simp] theorem modify_sleeps (C : Core) : (C.modify i f).sleeps = C.sleeps := rfl

theorem satisfied_live (h : satisfiedLocked o t) : o.type ≠ .free := by
  rintro he
  simp [satisfiedLocked, he] at h

/-- A grant acquires the object in slot `i` once for every time it lists it. -/
theorem count_acquired {T : Table} {is : List Nat} (hw : T.Wf) (hi : (T.objs i).type ≠ .free)
    (his : ∀ j ∈ is, (T.objs j).type ≠ .free) :
    (is.map (Event.acquired t <| T.ident ·)).count (.acquired u (T.ident i)) =
      if u = t then is.count i else 0 := by
  induction is with
  | nil => simp
  | cons j is ih =>
    rw [List.map_cons, List.count_cons, ih fun k hk => his k (by simp [hk]), List.count_cons]
    by_cases hji : j = i
    · by_cases hu : u = t
      · simp [hji, hu]
      · simp [hji, hu, Ne.symm hu]
    · have hne : T.ident j ≠ T.ident i := fun he => hji (hw.identInj (his j (by simp)) hi he)
      simp [hji, hne]

-- ---------------------------------------------------------------------------
-- Calls that do not wait
-- ---------------------------------------------------------------------------

/-- The result of a function, seen as effects of the action. -/
abbrev Does (s : State) (a : Action) (C : Core) (r : State × Label) : Prop :=
  Effects s a C r.2.events r.1.core

theorem Effects.of_eq (he : r = (s', l)) (hd : Does s a C r) : Effects s a C l.events s'.core := by
  subst he
  exact hd

theorem modify_congr {T : Table} {f g : SyncObj → SyncObj} (h : f (T.objs i) = g (T.objs i)) : T.modify i f = T.modify i g := by
  simp [Table.modify, h]

theorem createObj_does {set : SyncObj → SyncObj} (ha : ∃ t op, a = .call t op ∧ op.Creates)
    (hset : Table.Keeps set) (hty : ty ≠ .free)
    (hm : ty = .mutex → ∀ o, o.ownerTid = 0 → o.recursion = 0 →
      (set o).ownerTid = 0 ∧ (set o).recursion = 0 ∨ (set o).ownerTid ≠ 0 ∧ (set o).recursion = 1)
    (hs : ty = .sem → ∀ o : SyncObj, ∃ t, a = .call t (.createSemaphore (set o).count (set o).max))
    (hcv : ty = .cv → ∀ o, (set o).count = 0) :
    Does s a s.core (createObj s ty set) := by
  simp only [Does, createObj, Table.allocObjLocked]
  cases hf : Table.firstFree s.table.objs 0 syncMax with
  | none => exact .nil
  | some i =>
    obtain ⟨-, hi, hfree⟩ := Table.firstFree_some hf
    simp only [Option.map_some, Table.put_self, core_setTable]
    refine .one (.create ⟨ha, hf⟩ (by simpa using hi) hfree ?_ ?_ ?_ ?_ ?_)
    · rwa [(hset _).1]
    · exact (hset _).2
    · intro h
      rw [(hset _).1] at h
      exact hm h _ rfl rfl
    · intro h
      rw [(hset _).1] at h
      exact hs h _
    · intro h
      rw [(hset _).1] at h
      exact hcv h _

theorem signalEvent_does (hk : ∀ id, Signals a id b (ev id)) :
    Does s a s.core (signalEvent s h b bcast ev) := by
  simp only [Does, signalEvent]
  split
  · exact .nil
  · split
    · rename_i hty
      refine .one ?_
      cases bcast <;> exact .signal (C := s.core) hty (hk _)
    · exact .nil

theorem releaseMutex_does (ht : t ≠ 0) (hs : s.core.sleeps t = none) :
    Does s a s.core (releaseMutex s h t) := by
  simp only [Does, releaseMutex]
  split
  · exact .nil
  · split
    · rename_i i _ hg
      obtain ⟨hty, ho, hr⟩ := hg
      have he := Effect.release (s := s) (a := a) (C := s.core) hty ht ho hr hs
      split <;> refine .one ?_
      · rename_i hz
        have hc : s.table.modify i releaseOnce =
            s.table.modify i ({ · with recursion := 0, ownerTid := 0 }) :=
          modify_congr (by simp [releaseOnce, hz])
        simpa [Core.modify, hc] using he
      · rename_i hz
        have hc : s.table.modify i releaseOnce =
            s.table.modify i (fun o => { o with recursion := o.recursion - 1 }) :=
          modify_congr (by simp [releaseOnce, hz])
        simpa [Core.modify, hc] using he
    · exact .nil

theorem releaseSemaphore_does (ha : a = .call t (.releaseSemaphore h n)) :
    Does s a s.core (releaseSemaphore s h n) := by
  simp only [Does, releaseSemaphore]
  split
  · exact .nil
  · rename_i i hi
    split
    · rename_i hty
      exact .one (.post (C := s.core) ha rfl hi hty)
    · exact .nil

theorem threadExit_does : Does s a s.core (threadExit s h code) := by
  simp only [Does, threadExit]
  split
  · exact .nil
  · split
    · rename_i hty
      exact .one (.exit (C := s.core) hty.1)
    · exact .nil

theorem cvWake_does (ha : a = .call t (.cvWake cv wakeAll)) :
    Does s a s.core (cvWake s cv wakeAll) := by
  simp only [Does, cvWake]
  split
  · exact .nil
  · rename_i i hi
    split
    · rename_i hty
      exact .one (.bump (C := s.core) (.inl ⟨t, cv, wakeAll, ha, hi⟩) hty rfl)
    · exact .nil

theorem close_does (ha : a = .call t (.close h)) : Does s a s.core (close s h) := by
  simp only [Does, close]
  split
  · exact .nil
  · rename_i i hi
    exact .one (.close ha rfl hi)

theorem kickEvent_some {T : Table} (h : kickEvent T kickman k = some i) : (T.objs i).type = .event := by
  unfold kickEvent at h
  split at h
  · cases h
  · simp only [Option.ite_none_right_eq_some, Option.some.injEq] at h
    obtain ⟨⟨hty, -⟩, rfl⟩ := h
    exact hty

theorem kickLoop_does (ha : a.IsKick) (kickall kickman : Bool) (q : List WaitEntry) (C : Core) :
    Effects s a C (kickLoop kickall kickman q C.table).2
      { C with table := (kickLoop kickall kickman q C.table).1 } := by
  induction q generalizing C with
  | nil => exact .nil
  | cons e es ih =>
    simp only [kickLoop]
    split
    · exact ih C
    · split
      · exact ih C
      · rename_i i hi
        exact .cons (.signal (kickEvent_some hi) (.kicked ha)) (ih (C.modify i _))

/-- Only events move in the first loop, so each condition variable still has
the generation it had before the step. -/
theorem kickLoop_cv {T : Table} (h : (T.objs j).type = .cv) :
    ((kickLoop kickall kickman q T).1.objs j) = T.objs j := by
  induction q generalizing T with
  | nil => rfl
  | cons e es ih =>
    simp only [kickLoop]
    split
    · exact ih h
    · split
      · exact ih h
      · rename_i i hi
        have hji : j ≠ i := by
          rintro rfl
          have he := kickEvent_some hi
          rw [h] at he
          cases he
        have hj : (T.modify i ({ · with signalled := true })).objs j = T.objs j :=
          Table.modify_ne T hji
        rw [ih (by rw [hj]; exact h), hj]

theorem kickLoop_type {T : Table} : ((kickLoop kickall kickman q T).1.objs j).type = (T.objs j).type := by
  induction q generalizing T with
  | nil => rfl
  | cons e es ih =>
    simp only [kickLoop]
    split
    · exact ih
    · split
      · exact ih
      · have hk : Table.Keeps ({ · with signalled := true }) := fun _ => ⟨rfl, rfl⟩
        rw [ih, hk.modify_type]

theorem kickCvs_does (ha : a = .kickWorkers kickall kickman true) (C : Core) (i n : Nat)
    (hty : ∀ j, i ≤ j → (C.table.objs j).type = .cv →
      C.table.objs j = s.table.objs j) :
    Effects s a C (kickCvs C.table i n).2 { C with table := (kickCvs C.table i n).1 } := by
  induction n generalizing C i with
  | zero => exact .nil
  | succ n ih =>
    simp only [kickCvs]
    split
    · rename_i hcv
      have hs := hty i (Nat.le_refl _) hcv
      refine .cons (.bump (.inr ⟨kickall, kickman, ha, hs ▸ hcv⟩) hcv (by rw [hs]))
        (ih (C.modify i bumpCount) (i + 1) ?_)
      intro j hj hj'
      have hne : j ≠ i := by omega
      rw [modify_table, Table.modify_ne _ hne] at hj' ⊢
      exact hty j (by omega) hj'
    · exact ih C (i + 1) fun j hj => hty j (by omega)

theorem kickWorkers_does (ha : a = .kickWorkers kickall kickman kickcv) :
    Does s a s.core (kickWorkers s kickall kickman kickcv) := by
  have hkick : a.IsKick := by subst ha; trivial
  have hloop := kickLoop_does (s := s) hkick kickall kickman s.waitq s.core
  simp only [Does, kickWorkers]
  cases kickcv with
  | false =>
    simp only [Bool.false_eq_true, ↓reduceIte, List.append_nil]
    split <;> exact hloop
  | true =>
    simp only [↓reduceIte]
    have hcvs := kickCvs_does (s := s) ha
      { s.core with table := (kickLoop kickall kickman s.waitq s.table).1 } 0 syncMax
      (by
        intro j _ hj
        rw [kickLoop_type] at hj
        exact kickLoop_cv hj)
    split <;> exact hloop.append hcvs

theorem kickTid_does (ha : a.IsKick) : Does s a s.core (kickTid s tid) := by
  simp only [Does, kickTid]
  split
  · exact .nil
  · split
    · exact .nil
    · split
      · exact .nil
      · rename_i i hi
        exact .one (.signal (C := s.core) (kickEvent_some hi) (.kicked ha))

theorem runOp_does (hf : Free s t) : Does s (.call t op) s.core (runOp s t op) := by
  obtain ⟨ht, hidle⟩ := hf
  have hs : s.core.sleeps t = none := by simp [hidle, Call.sleep]
  cases op with
  | createEvent =>
    refine createObj_does ⟨t, _, rfl, trivial⟩ (fun _ => ⟨rfl, rfl⟩) ?_ ?_ ?_ ?_ <;> simp
  | createMutex owned =>
    refine createObj_does ⟨t, _, rfl, trivial⟩ ?_ (by simp) ?_ (by simp) (by simp)
    · intro o; split <;> simp
    · intro _ o h1 h2
      cases owned <;> simp [h1, h2, ht]
  | createSemaphore =>
    refine createObj_does ⟨t, _, rfl, trivial⟩ (fun _ => ⟨rfl, rfl⟩) (by simp) (by simp) ?_ (by simp)
    exact fun _ _ => ⟨t, rfl⟩
  | createThreadObj | createCv =>
    refine createObj_does ⟨t, _, rfl, trivial⟩ (fun _ => ⟨rfl, rfl⟩) ?_ ?_ ?_ ?_ <;> simp
  | setEvent => exact signalEvent_does fun _ => .set
  | resetEvent => exact signalEvent_does fun _ => .reset
  | pulseEvent => exact signalEvent_does fun _ => .pulsed
  | releaseMutex => exact releaseMutex_does ht hs
  | releaseSemaphore => exact releaseSemaphore_does rfl
  | threadExit => exact threadExit_does
  | cvWake => exact cvWake_does rfl
  | isKnown => exact .nil
  | threadExitCode =>
    simp only [Does, runOp, threadExitCode]
    split <;> exact .nil
  | close => exact close_does rfl

-- ---------------------------------------------------------------------------
-- Waits
-- ---------------------------------------------------------------------------

@[simp] theorem endSingle_core (s : State) : (endSingle s t rv).1.core = s.core.setSleep t none :=
  core_leave s t

@[simp] theorem endMultiple_core (s : State) :
    (endMultiple s t rv).1.core = s.core.setSleep t none :=
  core_leave s t

section
variable {s s' : State} {a : Action}

/-- A thread outside the sleeps may leave or wait without any effect. -/
theorem still (hc : s'.core = s.core) (hs : s.core.sleeps t = none) :
    Effects s a s.core [] (s'.core.setSleep t none) := by
  rw [hc, setSleep_same hs]
  exact .nil

theorem take_does {out : State → Nat → Nat → State × Label} (hc : s'.core = s.core)
    (hout : ∀ s, (out s t rv).1.core = s.core.setSleep t none) (ht : t ≠ 0)
    (hs : s.core.sleeps t = none) (hg : s.grants a = is)
    (hsat : ∀ i ∈ is, satisfiedLocked (s.table.objs i) t) :
    Does s a s.core (take s' t is rv out) := by
  have htab : s'.table = s.table := congrArg Core.table hc
  simp only [Does, take, hout, core_setTable, hc, htab]
  have hn : ({ s.core with table := s.table.acquireAll t is } : Core).sleeps t = none := hs
  rw [setSleep_same hn]
  exact .one (.grant rfl hg ht hs hsat)

theorem waitSinglePass_does (hc : s'.core = s.core) (ht : t ≠ 0) (hs : s.core.sleeps t = none)
    (hg : s.grants a = State.grants.single s t (some i)) :
    Does s a s.core (waitSinglePass s' t h timeout i) := by
  have htab : s'.table = s.table := congrArg Core.table hc
  simp only [Does, waitSinglePass, htab]
  split
  · rename_i hsat
    refine take_does hc (fun _ => endSingle_core _) ht hs (by simp [hg, State.grants.single, hsat]) ?_
    simpa using hsat
  · split
    · rw [endSingle_core]
      exact still hc hs
    · rw [core_park]
      exact still hc hs

theorem waitSingleResume_does (ht : t ≠ 0) (hs : s.core.sleeps t = none)
    (hg : s.grants a = State.grants.single s t (s.table.findLocked h)) :
    Does s a s.core (waitSingleResume s t h timeout) := by
  simp only [Does, waitSingleResume]
  split
  · rw [endSingle_core]
    exact still rfl hs
  · rename_i i hi
    exact waitSinglePass_does rfl ht hs (hi ▸ hg)

theorem waitSingleExpire_does (ht : t ≠ 0) (hs : s.core.sleeps t = none)
    (hg : s.grants a = State.grants.single s t (some (h - syncBase))) :
    Does s a s.core (waitSingleExpire s t h) := by
  simp only [Does, waitSingleExpire]
  split
  · rename_i hsat
    refine take_does rfl (fun _ => endSingle_core _) ht hs (by simp [hg, State.grants.single, hsat]) ?_
    simpa using hsat
  · rw [endSingle_core]
    exact still rfl hs

theorem firstSatisfied_some (h : firstSatisfied T t is k = some (i, j)) :
    i ∈ is ∧ satisfiedLocked (T.objs i) t := by
  induction is generalizing k with
  | nil => cases h
  | cons x xs ih =>
    simp only [firstSatisfied] at h
    split at h
    · rename_i hsat
      cases h
      exact ⟨List.mem_cons_self, hsat⟩
    · obtain ⟨hm, hsat⟩ := ih h
      exact ⟨List.mem_cons_of_mem _ hm, hsat⟩

/-- A scan acquires only listed slots that are satisfied. -/
theorem scanMultiple_some (h : scanMultiple T t slots waitAll = some (is, rv)) :
    ∀ i ∈ is, i ∈ slots ∧ satisfiedLocked (T.objs i) t := by
  unfold scanMultiple at h
  split at h
  · simp only [Option.ite_none_right_eq_some, List.all_eq_true, Option.some.injEq,
      Prod.mk.injEq] at h
    obtain ⟨hall, rfl, -⟩ := h
    exact fun i hi => ⟨hi, hall i hi⟩
  · simp only [Option.map_eq_some_iff, Prod.exists, Prod.mk.injEq] at h
    obtain ⟨i, k, hf, rfl, -⟩ := h
    intro j hj
    obtain rfl := List.mem_singleton.mp hj
    exact firstSatisfied_some hf

theorem resolve_length (h : resolve T hs = some slots) : slots.length = hs.length := by
  induction hs generalizing slots with
  | nil =>
    cases h
    rfl
  | cons k ks ih =>
    simp only [resolve] at h
    split at h
    · cases h
    · rw [Option.map_eq_some_iff] at h
      obtain ⟨rest, hr, rfl⟩ := h
      rw [List.length_cons, List.length_cons, ih hr]

theorem single_length (s : State) (t : Nat) (o : Option Nat) :
    (State.grants.single s t o).length ≤ 1 := by
  unfold State.grants.single
  split
  · exact Nat.zero_le 1
  · split <;> simp

theorem multiple_length (s : State) (t : Nat) (waitAll : Bool) (hlen : handles.length ≤ 64) :
    (State.grants.multiple s t handles waitAll).length ≤ 64 := by
  unfold State.grants.multiple
  split
  · exact Nat.zero_le 64
  · rename_i slots hr
    split
    · exact Nat.zero_le 64
    · rename_i is rv hscan
      unfold scanMultiple at hscan
      split at hscan
      · simp only [Option.ite_none_right_eq_some, Option.some.injEq, Prod.mk.injEq] at hscan
        obtain ⟨-, rfl, -⟩ := hscan
        rwa [resolve_length hr]
      · simp only [Option.map_eq_some_iff, Prod.exists, Prod.mk.injEq] at hscan
        obtain ⟨i, k, -, rfl, -⟩ := hscan
        exact Nat.le_add_left 1 63

/-- No step acquires more objects than a handle array holds. -/
theorem grants_length (s : State) (a : Action) : (s.grants a).length ≤ 64 := by
  have hone {n : Nat} (h : n ≤ 1) : n ≤ 64 := by omega
  cases a with
  | waitSingle => exact hone (single_length _ _ _)
  | waitMultiple t handles =>
    simp only [State.grants]
    split
    · exact Nat.zero_le 64
    · exact multiple_length _ _ _ (by omega)
  | resume =>
    simp only [State.grants]
    split
    · exact hone (single_length _ _ _)
    · rename_i handles _ _ _
      exact multiple_length _ _ _ handles.2
    · exact Nat.zero_le 64
  | expire =>
    simp only [State.grants]
    split
    · exact hone (single_length _ _ _)
    · exact Nat.zero_le 64
  | _ => exact Nat.zero_le 64

theorem waitMultiplePass_does {handles : Handles} (ht : t ≠ 0) (hs : s.core.sleeps t = none)
    (hg : s.grants a = State.grants.multiple s t handles.val waitAll) :
    Does s a s.core (waitMultiplePass s t handles waitAll timeout) := by
  simp only [Does, waitMultiplePass]
  split
  · rw [endMultiple_core]
    exact still rfl hs
  · rename_i slots hr
    split
    · rename_i is rv hscan
      refine take_does rfl (fun _ => endMultiple_core _) ht hs ?_ fun i hi =>
        (scanMultiple_some hscan i hi).2
      simp [hg, State.grants.multiple, hr, hscan]
    · split
      · rw [endMultiple_core]
        exact still rfl hs
      · rw [core_park]
        exact still rfl hs

-- ---------------------------------------------------------------------------
-- Sleeps
-- ---------------------------------------------------------------------------

theorem setSleep_setSleep (C : Core) : (C.setSleep t x).setSleep t y = C.setSleep t y := by
  simp [Core.setSleep]

theorem setSleep_modify (C : Core) : (C.setSleep t x).modify i f = (C.modify i f).setSleep t x := rfl

theorem cvTake_does (hC : C = s'.core.setSleep t (some (csMtx, saved)))
    (hi : s'.table.findLocked csMtx = some i) : Does s a C (cvTake s' t csMtx i saved rv) := by
  subst hC
  simp only [Does, cvTake]
  split
  · rw [core_park]
    exact .nil
  · rename_i ho
    have hs := setSleep_self s'.core (t := t) (x := some (csMtx, saved))
    have he := Effect.wake (s := s) (a := a) hs hi
      (by simp only [setSleep_table, core_table]; omega)
    rw [setSleep_modify, setSleep_setSleep] at he
    rw [core_leave]
    exact .one he

theorem gone_does (hC : C = s'.core.setSleep t (some (csMtx, saved)))
    (hn : ∀ i, s'.table.findLocked csMtx = some i → (s'.table.objs i).type ≠ .mutex) :
    Effects s a C [] (s'.leave t).core := by
  subst hC
  have hs := setSleep_self s'.core (t := t) (x := some (csMtx, saved))
  have he := Effect.abandon (s := s) (a := a) hs hn
  rw [setSleep_setSleep] at he
  rw [core_leave]
  exact .one he

theorem cvLeave_does (hC : C = s'.core.setSleep t (some (csMtx, saved))) :
    Does s a C (cvLeave s' t csMtx saved rv) := by
  simp only [Does, cvLeave]
  split
  · rename_i hf
    exact gone_does hC (by simp [hf])
  · rename_i i hf
    split
    · exact cvTake_does hC hf
    · rename_i hty
      refine gone_does hC fun j hj => ?_
      rw [hf] at hj
      cases hj
      exact hty

theorem cvSleepPass_does (hC : C = s'.core.setSleep t (some (csMtx, saved))) :
    Does s a C (cvSleepPass s' t cv csMtx timeout saved gen) := by
  simp only [Does, cvSleepPass]
  split
  · exact cvLeave_does hC
  · split
    · exact cvLeave_does hC
    · split
      · exact cvLeave_does hC
      · subst hC
        rw [core_park]
        exact .nil

theorem cvSleepExpire_does (hC : C = s'.core.setSleep t (some (csMtx, saved))) :
    Does s a C (cvSleepExpire s' t cv csMtx saved gen) := by
  simp only [Does, cvSleepExpire]
  split
  · exact cvLeave_does hC
  · exact cvLeave_does hC

theorem cvSleep_does (ha : a = .cvSleep t cv csMtx timeout) (hf : Free s t) :
    Does s a s.core (cvSleep s t cv csMtx timeout) := by
  have hs : s.core.sleeps t = none := by simp [hf.2, Call.sleep]
  simp only [Does, cvSleep]
  split
  · rename_i c m hc hm
    split
    · rename_i hty
      exact .cons (.sleep ha rfl hf.1 hm hty.2 hs rfl) (cvSleepPass_does rfl)
    · exact .nil
  · exact .nil

theorem cvReacquireResume_does (hC : C = s'.core.setSleep t (some (csMtx, saved))) :
    Does s a C (cvReacquireResume s' t csMtx saved rv) := by
  simp only [Does, cvReacquireResume]
  split
  · rename_i hf
    exact gone_does hC (by simp [hf])
  · rename_i i hi
    exact cvTake_does hC hi

end

/-- Thread 0 does not exist, so it never waits. -/
def NoZero (s : State) : Prop := s.calls 0 = .idle

theorem step_effects (hz : NoZero s) (h : step s a = some (s', l)) :
    Effects s a s.core l.events s'.core := by
  have hne {t : Nat} (hc : s.calls t ≠ .idle) : t ≠ 0 := by
    rintro rfl
    exact hc hz
  cases a with
  | call t op =>
    simp only [step, Option.ite_none_right_eq_some, Option.some.injEq] at h
    exact .of_eq h.2 (runOp_does h.1)
  | waitSingle t k timeout =>
    simp only [step, Option.ite_none_right_eq_some, Option.some.injEq, waitSingle] at h
    obtain ⟨hf, he⟩ := h
    have hs : s.core.sleeps t = none := by simp [hf.2, Call.sleep]
    split at he
    · cases he
      exact .nil
    · rename_i i hi
      exact .of_eq he (waitSinglePass_does rfl hf.1 hs (by simp [State.grants, hi]))
  | waitMultiple t handles waitAll timeout =>
    simp only [step, Option.ite_none_right_eq_some, Option.some.injEq, waitMultiple] at h
    obtain ⟨hf, he⟩ := h
    have hs : s.core.sleeps t = none := by simp [hf.2, Call.sleep]
    split at he
    · cases he
      exact .nil
    · rename_i hlen
      exact .of_eq he (waitMultiplePass_does hf.1 hs (by simp only [State.grants, hlen, ↓reduceIte]))
  | cvSleep t cv csMtx timeout =>
    simp only [step, Option.ite_none_right_eq_some, Option.some.injEq] at h
    exact .of_eq h.2 (cvSleep_does rfl h.1)
  | resume t =>
    simp only [step] at h
    split at h
    · cases h
    · rename_i k timeout hc
      exact .of_eq (Option.some.inj h) (waitSingleResume_does (hne (by simp [hc]))
        (by simp [hc, Call.sleep]) (by simp [State.grants, hc]))
    · rename_i handles waitAll timeout hc
      exact .of_eq (Option.some.inj h) (waitMultiplePass_does (hne (by simp [hc]))
        (by simp [hc, Call.sleep]) (by simp [State.grants, hc]))
    · rename_i cv csMtx timeout saved gen hc
      exact .of_eq (Option.some.inj h)
        (cvSleepPass_does (setSleep_same (by simp [hc, Call.sleep])).symm)
    · rename_i csMtx saved rv hc
      exact .of_eq (Option.some.inj h)
        (cvReacquireResume_does (setSleep_same (by simp [hc, Call.sleep])).symm)
  | expire t =>
    simp only [step] at h
    split at h
    · rename_i k timeout hc
      simp only [Option.ite_none_left_eq_some, Option.some.injEq] at h
      exact .of_eq h.2 (waitSingleExpire_does (hne (by simp [hc])) (by simp [hc, Call.sleep])
        (by simp [State.grants, hc]))
    · rename_i handles waitAll timeout hc
      simp only [Option.ite_none_left_eq_some, Option.some.injEq] at h
      have hs : s.core.sleeps t = none := by simp [hc, Call.sleep]
      refine .of_eq h.2 ?_
      show Effects s _ s.core _ _
      rw [endMultiple_core]
      exact still rfl hs
    · rename_i cv csMtx timeout saved gen hc
      simp only [Option.ite_none_left_eq_some, Option.some.injEq] at h
      exact .of_eq h.2 (cvSleepExpire_does (setSleep_same (by simp [hc, Call.sleep])).symm)
    · cases h
    · cases h
  | kickWorkers kickall kickman kickcv => exact .of_eq (Option.some.inj h) (kickWorkers_does rfl)
  | kickTid tid => exact .of_eq (Option.some.inj h) (kickTid_does trivial)

end WineGlass.Sync
