import WineGlass.Coop.Slots

/-!
# Contexts

A ledger beside the engine: for each thread what the machine held when the
thread was last current, or its initial frame, and the object of the blocking
wait it performed since. A thread that is neither running nor exited has the
ledger's machine saved in its slot, and a waiting one waits on the ledger's
object. What breaks this is the paused tick, which parks the current thread as
waiting though it waits on nothing.
-/

namespace WineGlass.Coop

open Runs

structure World where
  engine : Engine
  left : Slot → Machine
  blocked : Slot → Option U32

def World.load (teb : U32) (m : Machine) : World := ⟨.load teb m, fun _ => m, fun _ => none⟩

/-- The frame of a thread just created, else what the thread last left. -/
def World.frames (w : World) (e : Engine) (i : Slot) : Machine :=
  if w.engine.state i = .free ∧ e.state i ≠ .free then restoreRegs (e.threads i).regs
  else w.left i

/-- The object of a wait, noted for the thread that performs it. -/
def World.waits (w : World) (a : Action) (i : Slot) : Option U32 :=
  match a with
  | .wait h => if w.engine.current = some i then some h else w.blocked i
  | _ => w.blocked i

/-- The ledger follows the current thread. -/
def World.note (w : World) (a : Action) (e : Engine) : World where
  engine := e
  left i := if e.current = some i then e.blink else w.frames e i
  blocked i := if e.current = some i then none else w.waits a i

def World.step (w : World) (a : Action) : Option (World × Unit) :=
  some (w.note a (act w.engine a), ())

/-- How the engine uses the scheduler: the guest runs as a running thread, a
save is followed by a switch, and a thread is marked waiting by a wait. And no
tick finds the engine paused with a thread ready, unless no thread is current. -/
def Orderly (w : World) : Action → Prop
  | .guest _ => ∀ i, w.engine.current = some i → w.engine.state i = .running
  | .save st => st ≠ .free ∧ (st = .waiting → w.engine.current = none)
  | .switch => ∀ i, w.engine.current = some i → w.engine.state i ≠ .running
  | .yieldWaiting => w.engine.current = none
  | .tick => w.engine.paused = true → w.engine.anyReady = true → w.engine.current = none
  | _ => True

/-- Whatever becomes or stays current finds the machine it left. -/
def Isolated (w : World) (a : Action) (w' : World) : Prop :=
  (∀ m, a ≠ .guest m) → ∀ i, w'.engine.current = some i → w'.engine.blink = w.left i

/-- Only the current thread is running. -/
def OneRunning (w : World) : Prop :=
  ∀ i, w.engine.state i = .running → w.engine.current = some i

/-- A waiting thread performed a wait, on the object its slot names. -/
def WaitsNamed (w : World) : Prop :=
  ∀ i, w.engine.state i = .waiting → w.blocked i = some (w.engine.threads i).waitHandle

-- ---------------------------------------------------------------------------
-- The ledger
-- ---------------------------------------------------------------------------

/-- A thread that a switch may come back to. -/
def Parked (st : ThreadState) : Prop := st = .ready ∨ st = .waiting ∨ st = .suspended

structure Ledger (e : Engine) (left : Slot → Machine) (blocked : Slot → Option U32) : Prop where
  running (i : Slot) : e.state i = .running → e.current = some i
  waiting (i : Slot) : e.state i = .waiting → blocked i = some (e.threads i).waitHandle
  parked (i : Slot) : Parked (e.state i) → restoreRegs (e.threads i).regs = left i
  current (i : Slot) : e.current = some i → left i = e.blink

/-- No thread is current and waiting. -/
def Awake (e : Engine) : Prop := ∀ i, e.current = some i → e.state i ≠ .waiting

/-- No thread is running. -/
def Quiet (e : Engine) : Prop := ∀ i, e.state i ≠ .running

variable {e : Engine} {left : Slot → Machine} {blocked : Slot → Option U32}

theorem Ledger.write (h : Ledger e left blocked) (hrun : t.state = .running → e.current = some i)
    (hwait : t.state = .waiting → blocked i = some t.waitHandle)
    (hpark : Parked t.state → restoreRegs t.regs = left i) :
    Ledger (e.set i t) left blocked := by
  constructor
  · intro j hj
    by_cases hji : j = i
    · subst hji
      exact hrun (by simpa using hj)
    · exact h.running j (by simpa [hji] using hj)
  · intro j hj
    by_cases hji : j = i
    · subst hji
      simpa using hwait (by simpa using hj)
    · simpa [hji] using h.waiting j (by simpa [hji] using hj)
  · intro j hj
    by_cases hji : j = i
    · subst hji
      simpa using hpark (by simpa using hj)
    · simpa [hji] using h.parked j (by simpa [hji] using hj)
  · exact h.current

/-- Another thread becomes current, or none, with the machine it left. -/
theorem Ledger.turn (h : Ledger e left blocked) (hq : Quiet e)
    (hc : ∀ i, c = some i → left i = m) :
    Ledger { e with current := c, blink := m } left blocked where
  running i hi := absurd hi (hq i)
  waiting := h.waiting
  parked := h.parked
  current := hc

/-- The object a thread waits on matters only while it waits. -/
theorem Ledger.renote (h : Ledger e left blocked)
    (hb : ∀ i, e.state i = .waiting → blocked' i = blocked i) : Ledger e left blocked' where
  running := h.running
  waiting i hi := (hb i hi).trans (h.waiting i hi)
  parked := h.parked
  current := h.current

theorem quiet_write (h : Ledger e left blocked) (hc : e.current = some i) (ht : t.state ≠ .running) :
    Quiet (e.set i t) := by
  intro j
  by_cases hji : j = i
  · subst hji
    simpa using ht
  · rw [state_set_ne hji]
    intro hj
    exact hji (Option.some.inj ((h.running j hj).symm.trans hc))

theorem Ledger.enter (h : Ledger e left blocked) (hq : Quiet e)
    (hi : restoreRegs (e.threads i).regs = left i) : Ledger (e.enter i) left blocked := by
  have ht := h.turn hq (c := some i) (m := restoreRegs (e.threads i).regs) fun j hj => by
    obtain rfl := Option.some.inj hj
    exact hi.symm
  exact ht.write (fun _ => rfl) nofun fun hp => by simp [Parked] at hp

theorem enter_awake (e : Engine) (i : Slot) : Awake (e.enter i) := by
  intro j hj
  obtain rfl := Option.some.inj hj
  simp [Engine.enter, Engine.state, Engine.set]

theorem Awake.write (h : Awake e) (ht : e.current = some i → t.state ≠ .waiting) :
    Awake (e.set i t) := by
  intro j hj
  by_cases hji : j = i
  · subst hji
    simpa using ht hj
  · simpa [hji] using h j hj

/-- The condition under which the current thread may be saved as `st`. -/
def Noted (e : Engine) (blocked : Slot → Option U32) (st : ThreadState) : Prop :=
  st = .waiting → ∀ i, e.current = some i → blocked i = some (e.threads i).waitHandle

theorem Ledger.save (h : Ledger e left blocked) (hst : Noted e blocked st) :
    Ledger (save e st) left blocked := by
  unfold Coop.save
  split
  · exact h
  · rename_i i hc
    refine h.write (fun _ => hc) (fun hw => hst hw i hc) fun _ => ?_
    simp [h.current i hc]

theorem save_quiet (h : Ledger e left blocked) (hst : st ≠ .running) : Quiet (save e st) := by
  unfold Coop.save
  split
  · rename_i hc
    intro i hi
    simp [h.running i hi] at hc
  · rename_i i hc
    exact quiet_write h hc hst

theorem Ledger.switchNext (h : Ledger e left blocked) (hq : Quiet e) :
    Ledger (switchNext e).2 left blocked := by
  obtain ⟨i, hi, heq⟩ | ⟨-, heq⟩ := switchNext_cases e
  · rw [heq]
    exact h.enter hq (h.parked i (.inl hi))
  · rwa [heq]

theorem switchNext_awake (h : Awake e) : Awake (switchNext e).2 := by
  obtain ⟨i, -, heq⟩ | ⟨-, heq⟩ := switchNext_cases e
  · rw [heq]
    exact enter_awake e i
  · rwa [heq]

theorem Ledger.yield (h : Ledger e left blocked) (hp : Parked st) (hst : Noted e blocked st) :
    Ledger (yield e st).2 left blocked ∧ Awake (yield e st).2 := by
  have hs := h.save hst
  have hq : Quiet (Coop.save e st) := save_quiet h fun hr => by simp [hr, Parked] at hp
  obtain ⟨i, hi, heq⟩ | ⟨-, ⟨i, hc, heq⟩ | ⟨hc, heq⟩⟩ := yield_cases e st
  · rw [heq]
    exact ⟨hs.enter hq (hs.parked i (.inl hi)), enter_awake _ i⟩
  · rw [heq]
    have hi : Parked ((Coop.save e st).state i) := by rwa [save_state hc]
    exact ⟨hs.enter hq (hs.parked i hi), enter_awake _ i⟩
  · rw [heq]
    exact ⟨h, fun i hi => by simp [hc] at hi⟩

theorem Ledger.setWait (h : Ledger e left blocked) (ha : Awake e) :
    Ledger (setWait e x) left blocked ∧ Awake (setWait e x) := by
  unfold Coop.setWait
  split
  · exact ⟨h, ha⟩
  · rename_i i hc
    refine ⟨h.write (fun _ => hc) (fun hw => ?_) (h.parked i), ha.write fun _ => ha i hc⟩
    exact absurd hw (ha i hc)

/-- A wait, with its object noted for the thread that performs it. -/
theorem Ledger.waitOn (h : Ledger e left blocked) (ha : Awake e)
    (hsame : ∀ i, e.current ≠ some i → blocked' i = blocked i)
    (hnote : ∀ i, e.current = some i → blocked' i = some x) :
    Ledger (waitOn e x).2 left blocked' ∧ Awake (waitOn e x).2 := by
  have hb : Ledger e left blocked' :=
    h.renote fun i hi => hsame i fun hc => ha i hc hi
  refine (hb.setWait ha).1.yield (.inr (.inl rfl)) fun _ i hc => ?_
  unfold Coop.setWait at hc ⊢
  split at hc
  · rename_i hnone
    simp [hnone] at hc
  · rename_i j hj
    have hij : i = j := Option.some.inj (hc.symm.trans hj)
    simp only [hij, set_self, hnote j hj]

theorem Ledger.wake (h : Ledger e left blocked) (ha : Awake e) :
    Ledger (wake e x) left blocked ∧ Awake (wake e x) := by
  refine ⟨⟨fun i hi => ?_, fun i hi => ?_, fun i hi => ?_, h.current⟩, fun i hc hi => ?_⟩
  all_goals
    have ht := wake_thread e x i
    simp only [Engine.state] at hi ht
    obtain heq | ⟨hw, heq⟩ := ht
  · exact h.running i (by rwa [heq] at hi)
  · simp [heq] at hi
  · rw [heq] at hi ⊢
    exact h.waiting i hi
  · simp [heq] at hi
  · rw [heq] at hi ⊢
    exact h.parked i hi
  · rw [heq]
    exact h.parked i (.inr (.inl hw))
  · exact ha i hc (by rwa [heq] at hi)
  · simp [heq] at hi

theorem Ledger.resumeThread (h : Ledger e left blocked) (ha : Awake e) :
    Ledger (resumeThread e x) left blocked ∧ Awake (resumeThread e x) := by
  unfold Coop.resumeThread
  split
  · exact ⟨h, ha⟩
  split
  · rename_i i _ hs
    refine ⟨h.write nofun nofun fun _ => ?_, ha.write fun _ => nofun⟩
    exact h.parked i (.inr (.inr hs))
  · exact ⟨h, ha⟩

theorem Ledger.exitThread (h : Ledger e left blocked) (ha : Awake e) :
    Ledger (exitThread e code) left blocked ∧ Awake (exitThread e code) := by
  unfold Coop.exitThread
  split
  · exact ⟨h, ha⟩
  · rename_i i hc
    have hx : Ledger (e.set i { e.threads i with state := .exited, exitCode := code })
        left blocked := h.write nofun nofun fun hp => by simp [Parked] at hp
    have hq : Quiet (e.set i { e.threads i with state := .exited, exitCode := code }) :=
      quiet_write h hc nofun
    have hnone : ∀ j, (none : Option Slot) = some j → left j = e.blink := fun _ hj => by cases hj
    exact ⟨(hx.turn hq hnone).switchNext hq, switchNext_awake fun _ hj => by cases hj⟩

theorem Ledger.preempt (h : Ledger e left blocked) (ha : Awake e) :
    Ledger (preempt e) left blocked ∧ Awake (preempt e) := by
  unfold Coop.preempt
  split
  · exact h.yield (.inl rfl) nofun
  · exact ⟨h, ha⟩

theorem Ledger.pause (h : Ledger e left blocked) : Ledger { e with paused := on } left blocked :=
  ⟨h.running, h.waiting, h.parked, h.current⟩

/-- A tick that finds no thread current, or nothing to switch to. -/
theorem Ledger.tick (h : Ledger e left blocked) (ha : Awake e)
    (hc : e.paused = true → e.anyReady = true → e.current = none) :
    Ledger (tick e) left blocked ∧ Awake (tick e) := by
  unfold Coop.tick
  split
  · rename_i hp
    obtain ⟨hp, hr⟩ := Bool.and_eq_true_iff.1 hp
    have hnone := hc hp hr
    have hsave : Coop.save e .waiting = e := by simp [Coop.save, hnone]
    have hq : Quiet e := fun i hi => by simp [h.running i hi] at hnone
    have hl := h.switchNext hq
    have hw := switchNext_awake ha
    rw [hsave]
    split
    · rename_i heq
      rw [heq] at hl hw
      exact ⟨hl.pause, hw⟩
    · rename_i heq
      rw [heq] at hl hw
      exact ⟨hl, hw⟩
  · exact ⟨h, ha⟩

-- ---------------------------------------------------------------------------
-- Steps and runs
-- ---------------------------------------------------------------------------

variable {w w' : World}

theorem frames_kept (h : Kept w.engine e) : w.frames e = w.left := by
  funext i
  refine if_neg fun hi => ?_
  exact hi.2 ((h.free i).2 hi.1)

theorem Ledger.enroll (h : Ledger w.engine w.left w.blocked) (ha : Awake w.engine)
    (hset : Settled w.engine) (hfree : w.engine.state i = .free)
    (ht : t.state = .ready ∨ t.state = .suspended) :
    Ledger (w.engine.enroll i t) (w.frames (w.engine.enroll i t)) w.blocked ∧
      Awake (w.engine.enroll i t) := by
  have hself : (w.engine.enroll i t).threads i = t := Function.update_self ..
  have hne : ∀ j, j ≠ i → (w.engine.enroll i t).threads j = w.engine.threads j :=
    fun j hj => Function.update_of_ne hj ..
  have hcur : w.engine.current ≠ some i := fun hc => hset i hc hfree
  have hf : w.frames (w.engine.enroll i t) i = restoreRegs t.regs := by
    rw [World.frames, if_pos, hself]
    refine ⟨hfree, ?_⟩
    simp only [Engine.state, hself]
    rcases ht with ht | ht <;> simp [ht]
  have hf' : ∀ j, j ≠ i → w.frames (w.engine.enroll i t) j = w.left j := by
    intro j hj
    refine if_neg fun hj' => hj'.2 ?_
    rw [Engine.state, hne j hj]
    exact hj'.1
  have hwt : t.state ≠ .waiting ∧ t.state ≠ .running := by
    rcases ht with ht | ht <;> simp [ht]
  refine ⟨⟨fun j hj => ?_, fun j hj => ?_, fun j hj => ?_, fun j hj => ?_⟩, fun j hj hw => ?_⟩
  all_goals by_cases hji : j = i
  · subst hji
    exact absurd (by simpa [Engine.state, hself] using hj) hwt.2
  · simp only [Engine.state, hne j hji] at hj
    exact h.running j hj
  · subst hji
    exact absurd (by simpa [Engine.state, hself] using hj) hwt.1
  · simp only [Engine.state, hne j hji] at hj ⊢
    exact h.waiting j hj
  · subst hji
    rw [hself, hf]
  · rw [hne j hji, hf' j hji]
    exact h.parked j (by simpa [Engine.state, hne j hji] using hj)
  · subst hji
    exact absurd hj hcur
  · rw [hf' j hji]
    exact h.current j hj
  · subst hji
    exact absurd hj hcur
  · simp only [Engine.state, hne j hji] at hw
    exact ha j hj hw

/-- Every step but the guest's own keeps the ledger, with nothing in it changed
but the new frames and waits. -/
theorem act_ledger (h : Ledger w.engine w.left w.blocked) (ha : Awake w.engine)
    (hf : Filled w.engine k) (ho : Orderly w a) (hg : ∀ m, a ≠ .guest m) :
    Ledger (act w.engine a) (w.frames (act w.engine a)) (w.waits a) ∧
      Awake (act w.engine a) := by
  by_cases hcreate : ∃ start param flags teb, a = .create start param flags teb
  · obtain ⟨start, param, flags, teb, rfl⟩ := hcreate
    simp only [act]
    obtain heq | ⟨i, t, hfree, ht, heq⟩ := hf.create_frame start param flags teb
    · rw [heq, frames_kept (.refl hf.settled)]
      exact ⟨h, ha⟩
    · rw [heq]
      exact h.enroll ha hf.settled hfree ht
  have hno : ∀ start param flags teb, a ≠ .create start param flags teb := by
    simpa using hcreate
  have hp : Proper w.engine a := by
    rintro rfl
    exact ho.1 rfl
  rw [frames_kept (act_kept hf.settled hp hno)]
  cases a with
  | create start param flags teb => exact absurd rfl (hno start param flags teb)
  | save st =>
    have hw : st = .waiting → w.engine.current = none := ho.2
    refine ⟨h.save fun hst i hc => by simp [hw hst] at hc, ?_⟩
    simp only [act, save]
    split
    · exact ha
    · rename_i i hc
      refine ha.write fun _ hst => ?_
      simp [hw hst] at hc
  | switch =>
    have hq : Quiet w.engine := fun i hi => ho i (h.running i hi) hi
    exact ⟨h.switchNext hq, switchNext_awake ha⟩
  | yieldReady => exact h.yield (.inl rfl) fun hst => by cases hst
  | yieldWaiting =>
    have hc : w.engine.current = none := ho
    exact h.yield (.inr (.inl rfl)) fun _ i hi => by simp [hc] at hi
  | wait x => exact h.waitOn ha (fun i hi => if_neg hi) fun i hi => if_pos hi
  | setWait x => exact h.setWait ha
  | wake x => exact h.wake ha
  | resume x => exact h.resumeThread ha
  | exit code => exact h.exitThread ha
  | preempt => exact h.preempt ha
  | tick => exact h.tick ha ho
  | pause on => exact ⟨h.pause, ha⟩
  | guest m => exact absurd rfl (hg m)

/-- The ledger with what is noted of the current thread. -/
theorem Ledger.note (h : Ledger e left (w.waits a)) (ha : Awake e)
    (hl : ∀ i, e.current ≠ some i → left i = w.frames e i) :
    Ledger e (w.note a e).left (w.note a e).blocked := by
  have hleft : left = (w.note a e).left := by
    funext i
    by_cases hc : e.current = some i
    · simp only [World.note, if_pos hc, h.current i hc]
    · simp only [World.note, if_neg hc, hl i hc]
  rw [← hleft]
  exact h.renote fun i hi => if_neg fun hc => ha i hc hi

structure Coherent (w : World) : Prop where
  ledger : Ledger w.engine w.left w.blocked
  awake : Awake w.engine
  filled : ∃ k, Filled w.engine k

theorem load_coherent (teb : U32) (m : Machine) : Coherent (.load teb m) where
  ledger := by
    constructor
    · intro i hi
      by_cases h0 : i = 0
      · exact congrArg some h0.symm
      · simp [World.load, Engine.load, Engine.state, Function.update_of_ne h0] at hi
    all_goals
      intro i hi
      by_cases h0 : i = 0
    · subst h0
      simp [World.load, Engine.load, Engine.state] at hi
    · simp [World.load, Engine.load, Engine.state, Function.update_of_ne h0] at hi
    · subst h0
      simp [World.load, Engine.load, Engine.state, Parked] at hi
    · simp [World.load, Engine.load, Engine.state, Function.update_of_ne h0, Parked] at hi
    · rfl
    · rfl
  awake i hi := by
    obtain rfl := Option.some.inj hi
    simp [World.load, Engine.load, Engine.state]
  filled := ⟨0, load_filled teb m⟩

/-- The guest runs: the machine changes, and with it what its thread leaves. -/
theorem Ledger.guest (h : Ledger e left blocked)
    (hrun : ∀ i, e.current = some i → e.state i = .running) :
    Ledger { e with blink := m } (fun i => if e.current = some i then m else left i) blocked where
  running := h.running
  waiting := h.waiting
  parked i hi := by
    rw [if_neg fun hc => ?_]
    · exact h.parked i hi
    · have hi : Parked (e.state i) := hi
      simp [hrun i hc, Parked] at hi
  current i hi := if_pos hi

theorem step_coherent (h : Coherent w) (ho : Orderly w a) (hs : w.step a = some (w', x)) :
    Coherent w' ∧ Isolated w a w' := by
  obtain ⟨rfl, -⟩ := Prod.mk.inj (Option.some.inj hs)
  obtain ⟨hl, ha, k, hf⟩ := h
  have hp : Proper w.engine a := by
    rintro rfl
    exact ho.1 rfl
  by_cases hg : ∃ m, a = .guest m
  · obtain ⟨m, rfl⟩ := hg
    refine ⟨⟨(hl.guest ho).note ha fun i hi => ?_, ha, hf.act hp⟩, fun hno => absurd rfl (hno m)⟩
    have hi : w.engine.current ≠ some i := hi
    rw [if_neg hi]
    exact (congrFun (frames_kept (act_kept hf.settled hp nofun)) i).symm
  have hg : ∀ m, a ≠ .guest m := by simpa using hg
  obtain ⟨hl', ha'⟩ := act_ledger hl ha hf ho hg
  refine ⟨⟨hl'.note ha' fun _ _ => rfl, ha', hf.act hp⟩, fun _ i hc => ?_⟩
  -- The thread now current was there before, so its frame is not a new one.
  have hframe := hl'.current i hc
  rw [World.frames, if_neg] at hframe
  · exact hframe.symm
  rintro ⟨hfree, -⟩
  by_cases hcreate : ∃ start param flags teb, a = .create start param flags teb
  · obtain ⟨start, param, flags, teb, rfl⟩ := hcreate
    refine hf.settled i ?_ hfree
    obtain heq | ⟨j, t, -, -, heq⟩ := hf.create_frame start param flags teb
    · simpa only [World.note, act, heq] using hc
    · simpa only [World.note, act, heq, Engine.enroll, Engine.set] using hc
  · have hk := act_kept hf.settled hp (by simpa using hcreate)
    exact hk.settled i hc ((hk.free i).2 hfree)

theorem run_coherent (h : Run World.step Orderly (.load teb m) tr w) : Coherent w :=
  h.invariant (P := fun _ w => Coherent w) (load_coherent teb m)
    fun hc ho hs => (step_coherent hc ho hs).1

/-- In an orderly run every thread finds the machine as it left it, the current
thread alone is running, and what waits was put there by its own wait. -/
theorem context_law (teb : U32) (m : Machine) (tr : List (Action × Unit)) (w : World)
    (h : Run World.step Orderly (.load teb m) tr w) :
    OneRunning w ∧ WaitsNamed w ∧
      ∀ a w' x, Orderly w a → w.step a = some (w', x) → Isolated w a w' := by
  have hc := run_coherent h
  exact ⟨hc.ledger.running, hc.ledger.waiting, fun a w' x ho hs => (step_coherent hc ho hs).2⟩

instance (w : World) : (a : Action) → Decidable (Orderly w a)
  | .guest _ => inferInstanceAs (Decidable (∀ i, w.engine.current = some i → _ = _))
  | .save _ => inferInstanceAs (Decidable (_ ∧ (_ → _)))
  | .switch => inferInstanceAs (Decidable (∀ i, w.engine.current = some i → _ ≠ _))
  | .yieldWaiting => inferInstanceAs (Decidable (_ = _))
  | .tick => inferInstanceAs (Decidable (_ → _ → _))
  | .create .. | .yieldReady | .wait _ | .setWait _ | .wake _ | .resume _ | .exit _
  | .preempt | .pause _ => .isTrue trivial

/-- A worker waits, is woken and goes on. -/
theorem context_law_worker : ∃ tr w, Run World.step Orderly (.load 0x20000000 .zero) tr w ∧
    w.engine.current = some 1 ∧ OneRunning w ∧ WaitsNamed w ∧
    ∀ a w' x, Orderly w a → w.step a = some (w', x) → Isolated w a w' := by
  have hexec : (exec World.step Orderly (.load 0x20000000 .zero) [
      .create 0x401000 7 0 (some 0x20004000), .yieldReady, .wait 0x200, .wake 0x200,
      .pause true, .pause false, .preempt, .guest .zero]).any fun r =>
        r.2.engine.current == some 1 := by decide
  obtain ⟨tr, w, hr, hp⟩ := Run.of_exec_any hexec
  exact ⟨tr, w, hr, eq_of_beq hp, context_law _ _ _ _ hr⟩

/-- A tick that finds the engine paused and a worker ready leaves the main
thread waiting on nothing. -/
theorem paused_tick_parks : ¬ ∀ tr w, Run World.step anyStep (.load 0x20000000 .zero) tr w →
    WaitsNamed w := by
  intro hall
  have hexec : (exec World.step anyStep (.load 0x20000000 .zero) [
      .create 0x401000 7 0 (some 0x20004000), .pause true, .tick]).any fun r =>
        decide (r.2.engine.state 0 = .waiting ∧ r.2.blocked 0 = none) := by decide
  obtain ⟨tr, w, hr, hp⟩ := Run.of_exec_any hexec
  obtain ⟨hw, hb⟩ := of_decide_eq_true hp
  exact nomatch hb.symm.trans (hall tr w hr 0 hw)

end WineGlass.Coop
