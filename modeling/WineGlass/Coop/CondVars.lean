import Mathlib.Data.List.Find
import WineGlass.Coop.Waits

/-!
# Cooperative condition variables

`cv_slot` and the handlers over it, with real timeouts on. A sleeper stays ready: each
dispatch runs its call again, which compares the generation of the condition variable with
the one it captured when it began. The handlers see the low half of an address. `naps` is
not in the source: it notes the call each thread is in, and whether its condition variable
was woken since.
-/

namespace WineGlass.CondVars

open Runs Coop

/-- An entry of `s_cvs`. -/
structure Cv where
  ptr : U32
  gen : U32
  deriving DecidableEq, Repr

/-- `WG_MAX_CVS` entries. -/
abbrev Cvs := Fin 64 → Cv

def Cvs.find (t : Cvs) (ptr : U32) : Option (Fin 64) :=
  (List.finRange 64).find? fun k => (t k).ptr == ptr

/-- `cv_slot`; an entry with `ptr` 0 is unused. -/
def cvSlot (t : Cvs) (ptr : U32) : Option (Fin 64) × Cvs :=
  match t.find ptr with
  | some k => (some k, t)
  | none =>
    match t.find 0 with
    | some k => (some k, Function.update t k ⟨ptr, 0⟩)
    | none => (none, t)

/-- `*g = f(*g)`. -/
def Cvs.store (t : Cvs) (f : U32 → U32) : Option (Fin 64) → Cvs
  | none => t
  | some k => Function.update t k { t k with gen := f (t k).gen }

structure Nap where
  cv : U64
  ms : U32
  woken : Bool
  deriving DecidableEq, Repr

/-- What the handlers see of an address. -/
def low (cv : U64) : U32 := cv.setWidth 32

structure Sys where
  engine : Engine
  cvs : Cvs
  waitCvGen : Slot → U32
  naps : Slot → Option Nap

/-- A load keeps the table of the program before. -/
def Sys.load (teb : U32) (m : Machine) (cvs : Cvs) : Sys :=
  ⟨.load teb m, cvs, fun _ => 0, fun _ => none⟩

-- ---------------------------------------------------------------------------
-- Handlers
-- ---------------------------------------------------------------------------

/-- The yield of a sleeper; it is answered when there was no switch. -/
def park (s : Sys) : Bool × Sys :=
  let (sw, e) := yield s.engine .ready
  (!sw, { s with engine := e })

/-- `SleepConditionVariableCS` and `SleepConditionVariableSRW`; true is an answer (it is
always TRUE), and `expired` tells whether `ms` have passed since the call began. -/
def sleepConditionVariable (s : Sys) (ptr ms : U32) (expired : Bool) : Bool × Sys :=
  let (g, cvs) := cvSlot s.cvs ptr
  let s := { s with cvs }
  match s.engine.current with
  | none => park s
  | some i =>
    if (s.engine.threads i).waitHandle = ptr then
      let woken := g.any fun k => (cvs k).gen != s.waitCvGen i
      let timedOut := !woken && ms != infinite && expired
      if woken || timedOut then (true, { s with engine := setWait s.engine 0 }) else park s
    else
      park { s with
        engine := setWait s.engine ptr
        waitCvGen := Function.update s.waitCvGen i ((g.map fun k => (cvs k).gen).getD 0) }

/-- `WakeConditionVariable` and `WakeAllConditionVariable`. -/
def wakeConditionVariable (s : Sys) (ptr : U32) : Sys :=
  let (g, cvs) := cvSlot s.cvs ptr
  { s with cvs := cvs.store (· + 1) g, engine := wake s.engine ptr }

def initializeConditionVariable (s : Sys) (ptr : U32) : Sys :=
  let (g, cvs) := cvSlot s.cvs ptr
  { s with cvs := cvs.store (fun _ => 0) g }

-- ---------------------------------------------------------------------------
-- Steps
-- ---------------------------------------------------------------------------

/-- A handler on a condition variable, or anything else the engine does. -/
inductive CvAction
  | sleep (cv : U64) (ms : U32) (expired : Bool)
  | wake (cv : U64)
  | init (cv : U64)
  | other (a : Action)
  deriving DecidableEq

/-- A thread in the call does nothing but run it again. -/
def Nap.allows (n : Nap) : CvAction → Bool
  | .sleep cv ms _ => cv = n.cv ∧ ms = n.ms
  | .other .preempt | .other .tick | .other (.pause _) | .other (.guest _) => true
  | _ => false

def Sys.nap (s : Sys) : Option Nap := s.engine.current.bind s.naps

/-- The notes on a thread after its call has run. -/
def Sys.fall (s : Sys) (i : Slot) (cv : U64) (ms : U32) (answered : Bool) : Option Nap :=
  if answered then none else some ((s.naps i).getD ⟨cv, ms, false⟩)

def Nap.hear (n : Nap) (cv : U64) : Nap := if n.cv = cv then { n with woken := true } else n

def Sys.act (s : Sys) : CvAction → Option (Sys × Bool)
  | .sleep cv ms expired =>
    match s.engine.current with
    | none => none
    | some i =>
      let (answered, s') := sleepConditionVariable s (low cv) ms expired
      some ({ s' with naps := Function.update s.naps i (s.fall i cv ms answered) }, answered)
  | .wake cv =>
    some ({ wakeConditionVariable s (low cv) with
      naps := fun i => (s.naps i).map fun n => n.hear cv }, false)
  | .init cv => some (initializeConditionVariable s (low cv), false)
  | .other a => some ({ s with engine := Coop.act s.engine a }, false)

/-- The label tells whether a sleeper was answered. -/
def Sys.step (s : Sys) (a : CvAction) : Option (Sys × Bool) :=
  if s.nap.all fun n => n.allows a then s.act a else none

-- ---------------------------------------------------------------------------
-- The claim
-- ---------------------------------------------------------------------------

/-- Its call answers the sleeper when it is dispatched, however long others wait. -/
def Sys.released (s : Sys) (i : Slot) (n : Nap) : Bool :=
  (sleepConditionVariable { s with engine := s.engine.enter i } (low n.cv) n.ms false).1

/-- A woken sleeper is answered when its call runs again, and a wake on another condition
variable releases nobody. -/
structure Lossless (s : Sys) (a : CvAction) (s' : Sys) (answered : Bool) : Prop where
  answers (i : Slot) (n : Nap) (expired : Bool) : a = .sleep n.cv n.ms expired →
    s.engine.current = some i → s.naps i = some n → n.ms = infinite → n.woken = true →
    answered = true
  own (cv : U64) (i : Slot) (n : Nap) : a = .wake cv → s.naps i = some n → n.ms = infinite →
    n.cv ≠ cv → s'.released i n = true → s.released i n = true

/-- Who starts to sleep has an entry or an unused one, under an address whose low half is
not zero. A wake brings no woken sleeper's generation back to the captured one, and finds
no sleeper on another condition variable with the same low half that still rests. Nobody
woken who captured 0 is initialized away, and no paused tick finds a sleeper current. -/
def Meets (s : Sys) : CvAction → Prop
  | .sleep cv ms _ => s.nap = none → ms = infinite →
      low cv ≠ 0 ∧ ∃ k, (s.cvs k).ptr = low cv ∨ (s.cvs k).ptr = 0
  | .wake cv => ∀ i, ∀ n ∈ s.naps i, n.ms = infinite → low n.cv = low cv →
      ∀ k ∈ s.cvs.find (low cv),
        (n.cv = cv ∨ n.woken = true → (s.cvs k).gen + 1 ≠ s.waitCvGen i) ∧
        (n.cv ≠ cv → (s.cvs k).gen ≠ s.waitCvGen i)
  | .init cv => ∀ i, ∀ n ∈ s.naps i, n.ms = infinite → low n.cv = low cv → n.woken = true →
      s.waitCvGen i ≠ 0
  | .other .tick => s.engine.paused = true → s.engine.anyReady = true →
      ∀ n ∈ s.nap, n.ms ≠ infinite
  | .other _ => True

-- ---------------------------------------------------------------------------
-- The table
-- ---------------------------------------------------------------------------

theorem find_ptr {t : Cvs} (h : t.find p = some k) : (t k).ptr = p := by
  simpa using List.find?_some h

theorem find_none {t : Cvs} : t.find p = none ↔ ∀ k, (t k).ptr ≠ p := by
  simp [Cvs.find]

/-- Nobody else's entry moves when a condition variable gets its own. -/
theorem find_slot {t : Cvs} (hp : p ≠ 0) (h : t.find p = some k) (q : U32) :
    (cvSlot t q).2.find p = some k ∧ (cvSlot t q).2 k = t k := by
  unfold cvSlot
  split
  · exact ⟨h, rfl⟩
  rename_i hq
  split
  · rename_i m hm
    have hkm : k ≠ m := by
      rintro rfl
      exact hp ((find_ptr h).symm.trans (find_ptr hm))
    refine ⟨?_, Function.update_of_ne hkm ..⟩
    rw [← h]
    refine List.find?_congr fun j _ => ?_
    by_cases hj : j = m
    · subst hj
      have hqp : q ≠ p := fun hqp => find_none.1 hq k (hqp ▸ find_ptr h)
      have h0p : ¬ 0#32 = p := Ne.symm hp
      simp [hqp, find_ptr hm, h0p]
    · simp [Function.update_of_ne hj]
  · exact ⟨h, rfl⟩

theorem slot_found {t : Cvs} (h : t.find q = some k) : cvSlot t q = (some k, t) := by
  rw [cvSlot, h]

theorem slot_new {t : Cvs} (h : t.find q = none) (h0 : t.find 0 = some k) :
    cvSlot t q = (some k, Function.update t k ⟨q, 0⟩) := by
  rw [cvSlot, h, h0]

theorem slot_none {t : Cvs} (h : t.find q = none) (h0 : t.find 0 = none) :
    cvSlot t q = (none, t) := by
  rw [cvSlot, h, h0]

theorem slot_ptr {t : Cvs} (h : (cvSlot t q).1 = some m) : ((cvSlot t q).2 m).ptr = q := by
  cases hq : t.find q with
  | some k =>
    rw [slot_found hq] at h ⊢
    obtain rfl := Option.some.inj h
    exact find_ptr hq
  | none =>
    cases h0 : t.find 0 with
    | some k =>
      rw [slot_new hq h0] at h ⊢
      obtain rfl := Option.some.inj h
      simp
    | none =>
      rw [slot_none hq h0] at h
      cases h

/-- The entry of a condition variable is the one that is found from then on. -/
theorem slot_find {t : Cvs} (h : (cvSlot t q).1 = some m) : (cvSlot t q).2.find q = some m := by
  cases hq : t.find q with
  | some k =>
    rw [slot_found hq] at h ⊢
    exact hq.trans h
  | none =>
    have hm := slot_ptr h
    cases hfind : (cvSlot t q).2.find q with
    | none => exact absurd hm (find_none.1 hfind m)
    | some j =>
      by_contra hjm
      have hj := find_ptr hfind
      cases h0 : t.find 0 with
      | some k =>
        rw [slot_new hq h0] at h hj
        obtain rfl := Option.some.inj h
        have hold := Function.update_of_ne (fun hjk => hjm (congrArg some hjk)) ⟨q, 0⟩ t
        exact find_none.1 hq j ((congrArg Cv.ptr hold).symm.trans hj)
      | none =>
        rw [slot_none hq h0] at h
        cases h

theorem slot_room {t : Cvs} (h : ∃ k, (t k).ptr = q ∨ (t k).ptr = 0) :
    ∃ m, (cvSlot t q).1 = some m := by
  unfold cvSlot
  split
  · exact ⟨_, rfl⟩
  rename_i hq
  split
  · exact ⟨_, rfl⟩
  rename_i h0
  obtain ⟨k, hk | hk⟩ := h
  · exact absurd hk (find_none.1 hq k)
  · exact absurd hk (find_none.1 h0 k)

@[simp] theorem store_ptr (t : Cvs) (f : U32 → U32) (g : Option (Fin 64)) (k : Fin 64) :
    (t.store f g k).ptr = (t k).ptr := by
  cases g with
  | none => rfl
  | some m =>
    by_cases hk : k = m
    · subst hk
      simp [Cvs.store]
    · simp [Cvs.store, Function.update_of_ne hk]

@[simp] theorem store_find (t : Cvs) (f : U32 → U32) (g : Option (Fin 64)) :
    (t.store f g).find p = t.find p := by
  simp [Cvs.find]

/-- A store goes to the entry of its condition variable alone. -/
theorem store_slot {t : Cvs} (hp : p ≠ 0) (h : t.find p = some k) (f : U32 → U32) (q : U32) :
    ((cvSlot t q).2.store f (cvSlot t q).1 k).gen = if q = p then f (t k).gen else (t k).gen := by
  obtain ⟨-, hsame⟩ := find_slot hp h q
  split
  · rename_i hqp
    subst hqp
    simp [slot_found h, Cvs.store]
  · rename_i hqp
    cases hg : (cvSlot t q).1 with
    | none => simp [Cvs.store, hsame]
    | some m =>
      have hkm : k ≠ m := by
        rintro rfl
        exact hqp ((slot_ptr hg).symm.trans ((congrArg Cv.ptr hsame).trans (find_ptr h)))
      simp [Cvs.store, Function.update_of_ne hkm, hsame]

-- ---------------------------------------------------------------------------
-- Threads that can run
-- ---------------------------------------------------------------------------

def Runnable (e : Engine) (j : Slot) : Prop := e.state j = .ready ∨ e.state j = .running

/-- Thread `j`, if it can run, still can, and its wait handle stays. -/
def Rests (j : Slot) (e e' : Engine) : Prop :=
  Runnable e j → Runnable e' j ∧ (e'.threads j).waitHandle = (e.threads j).waitHandle

section
variable {e e' e'' : Engine} {i j : Slot}

theorem Rests.refl : Rests j e e := fun h => ⟨h, rfl⟩

theorem Rests.trans (h : Rests j e e') (h' : Rests j e' e'') : Rests j e e'' := by
  intro hr
  obtain ⟨hr', hw⟩ := h hr
  obtain ⟨hr'', hw'⟩ := h' hr'
  exact ⟨hr'', hw'.trans hw⟩

theorem rests_of_thread (h : e'.threads j = e.threads j) : Rests j e e' := by
  intro hr
  rw [Runnable, Engine.state, h]
  exact ⟨hr, rfl⟩

theorem enter_rests (e : Engine) (i : Slot) : Rests j e (e.enter i) := by
  intro hr
  by_cases hj : j = i
  · subst hj
    refine ⟨.inr ?_, ?_⟩
    · simp [Engine.enter, Engine.state, Engine.set]
    · simp [Engine.enter, Engine.set]
  · exact rests_of_thread (enter_thread hj) hr

theorem save_runs (hc : e.current = some j) : Runnable (save e .ready) j ∧
    ((save e .ready).threads j).waitHandle = (e.threads j).waitHandle := by
  refine ⟨.inl (save_state hc), ?_⟩
  simp [save, hc]

theorem save_rests (st : ThreadState) (h : e.current ≠ some j) : Rests j e (save e st) :=
  rests_of_thread (save_thread h)

theorem switchNext_rests (e : Engine) : Rests j e (switchNext e).2 := by
  obtain ⟨i, -, heq⟩ | ⟨-, heq⟩ := switchNext_cases e
  · rw [heq]
    exact enter_rests e i
  · rw [heq]
    exact .refl

theorem yield_rests (h : e.current ≠ some j) : Rests j e (yield e st).2 := by
  obtain ⟨i, -, heq⟩ | ⟨-, ⟨i, -, heq⟩ | ⟨-, heq⟩⟩ := yield_cases e st
  · rw [heq]
    exact (save_rests st h).trans (enter_rests _ i)
  · rw [heq]
    exact (save_rests st h).trans (enter_rests _ i)
  · rw [heq]
    exact .refl

/-- A yield that stays ready switches, if only to the thread itself. -/
theorem yield_runs (hc : e.current = some i) : (yield e .ready).1 = true ∧
    Runnable (yield e .ready).2 i ∧
    ((yield e .ready).2.threads i).waitHandle = (e.threads i).waitHandle := by
  obtain ⟨hr, hw⟩ := save_runs hc
  obtain ⟨k, -, heq⟩ | ⟨hno, -⟩ := yield_cases e .ready
  · rw [heq]
    obtain ⟨hr', hw'⟩ := enter_rests (save e .ready) k hr
    exact ⟨rfl, hr', hw'.trans hw⟩
  · exact absurd (save_state hc) (hno i)

theorem setWait_rests (x : U32) (h : e.current ≠ some j) : Rests j e (setWait e x) :=
  rests_of_thread (setWait_thread h)

theorem wake_rests (e : Engine) (x : U32) : Rests j e (wake e x) := by
  intro hr
  refine rests_of_thread (wake_miss fun hw => ?_) hr
  rw [Runnable, hw] at hr
  exact absurd hr (by decide)

theorem resumeThread_rests (e : Engine) (x : U32) : Rests j e (resumeThread e x) := by
  intro hr
  refine rests_of_thread (resumeThread_thread fun hs => ?_) hr
  rw [Runnable, hs] at hr
  exact absurd hr (by decide)

theorem exitThread_rests (h : e.current ≠ some j) : Rests j e (exitThread e code) := by
  unfold exitThread
  split
  · exact .refl
  · rename_i i hc
    have hji : j ≠ i := fun hji => h (hji ▸ hc)
    have hset : Rests j e { e.set i { e.threads i with state := .exited, exitCode := code } with
        current := none } := rests_of_thread (set_ne hji)
    exact hset.trans (switchNext_rests _)

theorem preempt_rests (e : Engine) : Rests j e (preempt e) := by
  unfold preempt
  split
  · by_cases hc : e.current = some j
    · intro _
      exact (yield_runs hc).2
    · exact yield_rests hc
  · exact .refl

theorem tick_rests (h : e.paused = true → e.anyReady = true → e.current ≠ some j) :
    Rests j e (tick e) := by
  unfold tick
  split
  · rename_i hp
    obtain ⟨hp, ha⟩ := Bool.and_eq_true_iff.1 hp
    have hsw := (save_rests .waiting (h hp ha)).trans (switchNext_rests _)
    split
    · rename_i heq
      rw [heq] at hsw
      exact hsw
    · rename_i heq
      rw [heq] at hsw
      exact hsw
  · exact .refl

theorem create_rests (e : Engine) : Rests j e (create e start param flags teb).2 := by
  intro hr
  have hlive : e.state j ≠ .free := by
    rintro hfree
    rw [Runnable, hfree] at hr
    exact absurd hr (by decide)
  refine ⟨?_, (create_thread hlive).2⟩
  rw [Runnable, Engine.state, (create_thread hlive).1]
  exact hr

/-- What the current thread does leaves the others. -/
theorem act_rests (a : Action) (h : e.current ≠ some j) : Rests j e (act e a) := by
  cases a with
  | create start param flags teb => exact create_rests e
  | save st => exact save_rests st h
  | switch => exact switchNext_rests e
  | yieldReady => exact yield_rests h
  | yieldWaiting => exact yield_rests h
  | wait x =>
    have hset : (Coop.setWait e x).current ≠ some j := by rwa [setWait_current]
    exact (setWait_rests x h).trans (yield_rests hset)
  | setWait x => exact setWait_rests x h
  | wake x => exact wake_rests e x
  | resume x => exact resumeThread_rests e x
  | exit code => exact exitThread_rests h
  | preempt => exact preempt_rests e
  | tick => exact tick_rests fun _ _ => h
  | pause on => exact .refl
  | guest m => exact .refl

end

-- ---------------------------------------------------------------------------
-- The sleep handler
-- ---------------------------------------------------------------------------

variable {s s' : Sys} {i j : Slot} {n : Nap}

/-- What a call of the sleep handler by thread `i` leaves. -/
structure Slept (s : Sys) (i : Slot) (ptr : U32) (r : Bool × Sys) : Prop where
  table : r.2.cvs = (cvSlot s.cvs ptr).2
  others (j : Slot) : j ≠ i → Rests j s.engine r.2.engine ∧ r.2.waitCvGen j = s.waitCvGen j
  parked : r.1 = false → Runnable r.2.engine i ∧ (r.2.engine.threads i).waitHandle = ptr ∧
    ((s.engine.threads i).waitHandle = ptr → r.2.waitCvGen i = s.waitCvGen i)

theorem park_eq (hc : s.engine.current = some i) :
    park s = (false, { s with engine := (yield s.engine .ready).2 }) := by
  simp [park, (yield_runs hc).1]

theorem sleep_slept (hc : s.engine.current = some i) (ptr ms : U32) (expired : Bool) :
    Slept s i ptr (sleepConditionVariable s ptr ms expired) := by
  have hother : ∀ j, j ≠ i → s.engine.current ≠ some j := by
    rintro j hj hcj
    exact hj (Option.some.inj (hcj.symm.trans hc))
  unfold sleepConditionVariable
  simp only [hc]
  split
  · rename_i hw
    split
    · exact ⟨rfl, fun j hj => ⟨setWait_rests 0 (hother j hj), rfl⟩, nofun⟩
    · rw [park_eq (s := { s with cvs := (cvSlot s.cvs ptr).2 }) hc]
      obtain ⟨-, hr, hkeep⟩ := yield_runs hc
      exact ⟨rfl, fun j hj => ⟨yield_rests (hother j hj), rfl⟩,
        fun _ => ⟨hr, hkeep.trans hw, fun _ => rfl⟩⟩
  · rename_i hw
    have hset : (setWait s.engine ptr).current = some i := setWait_current.trans hc
    rw [park_eq (i := i) hset]
    obtain ⟨-, hr, hkeep⟩ := yield_runs hset
    have hself : ((setWait s.engine ptr).threads i).waitHandle = ptr := by
      simp [setWait, hc]
    refine ⟨rfl, fun j hj => ⟨?_, Function.update_of_ne hj ..⟩,
      fun _ => ⟨hr, hkeep.trans hself, fun h => absurd h hw⟩⟩
    have hsetj : (setWait s.engine ptr).current ≠ some j := by
      rw [setWait_current]
      exact hother j hj
    exact (setWait_rests ptr (hother j hj)).trans (yield_rests hsetj)

/-- Who began before is answered exactly when the generation has moved. -/
theorem sleep_answer (hc : s.engine.current = some i) (hw : (s.engine.threads i).waitHandle = ptr)
    (hf : s.cvs.find ptr = some k) (expired : Bool) :
    (sleepConditionVariable s ptr infinite expired).1 = ((s.cvs k).gen != s.waitCvGen i) := by
  simp only [sleepConditionVariable, hc, slot_found hf, hw, ↓reduceIte, Option.any_some,
    bne_self_eq_false, Bool.and_false, Bool.false_and, Bool.or_false]
  split
  · rename_i h
    exact h.symm
  · rename_i h
    rw [park_eq (i := i) hc]
    exact (Bool.eq_false_of_not_eq_true h).symm

-- ---------------------------------------------------------------------------
-- Sleepers
-- ---------------------------------------------------------------------------

/-- Thread `i` is in the call: ready or running, under its own handle, with an entry that
has moved on if it was woken. -/
structure Resting (s : Sys) (i : Slot) (n : Nap) : Prop where
  key : low n.cv ≠ 0
  waits : (s.engine.threads i).waitHandle = low n.cv
  runs : Runnable s.engine i
  entry : ∃ k, s.cvs.find (low n.cv) = some k ∧ (n.woken = true → (s.cvs k).gen ≠ s.waitCvGen i)

def Rested (s : Sys) : Prop := ∀ i n, s.naps i = some n → n.ms = infinite → Resting s i n

theorem Resting.released (h : Resting s i n) (hms : n.ms = infinite)
    (hf : s.cvs.find (low n.cv) = some k) : s.released i n = ((s.cvs k).gen != s.waitCvGen i) := by
  have hw : ((s.engine.enter i).threads i).waitHandle = low n.cv :=
    (enter_rests s.engine i h.runs).2.trans h.waits
  rw [Sys.released, hms]
  exact sleep_answer (s := { s with engine := s.engine.enter i }) rfl hw hf false

/-- A step that leaves thread, captured generation and entry leaves a sleeper. -/
theorem Resting.keep (h : Resting s i n) (he : Rests i s.engine s'.engine)
    (hg : s'.waitCvGen i = s.waitCvGen i)
    (ht : ∀ k, s.cvs.find (low n.cv) = some k →
      s'.cvs.find (low n.cv) = some k ∧ (s'.cvs k).gen = (s.cvs k).gen) : Resting s' i n := by
  obtain ⟨k, hk, hwoken⟩ := h.entry
  obtain ⟨hruns, hwait⟩ := he h.runs
  obtain ⟨hfind, hgen⟩ := ht k hk
  refine ⟨h.key, hwait.trans h.waits, hruns, k, hfind, fun hw => ?_⟩
  rw [hgen, hg]
  exact hwoken hw

theorem hear_cv (n : Nap) (cv : U64) : (n.hear cv).cv = n.cv ∧ (n.hear cv).ms = n.ms := by
  unfold Nap.hear
  split <;> exact ⟨rfl, rfl⟩

-- ---------------------------------------------------------------------------
-- Runs
-- ---------------------------------------------------------------------------

theorem step_act (h : s.step a = some (s', x)) :
    (∀ n, s.nap = some n → n.allows a = true) ∧ s.act a = some (s', x) := by
  unfold Sys.step at h
  split at h
  · rename_i hall
    exact ⟨fun n hn => by simpa [hn] using hall, h⟩
  · cases h

theorem nap_current (hc : s.engine.current = some i) : s.nap = s.naps i := by
  rw [Sys.nap, hc, Option.bind_some]

theorem Rested.sleep (h : Rested s) (hm : Meets s (.sleep cv ms expired))
    (hs : s.step (.sleep cv ms expired) = some (s', x)) : Rested s' := by
  obtain ⟨hallow, hact⟩ := step_act hs
  simp only [Sys.act] at hact
  split at hact
  · cases hact
  rename_i i hc
  obtain ⟨rfl, rfl⟩ := Prod.mk.inj (Option.some.inj hact)
  have hslept := sleep_slept hc (low cv) ms expired
  generalize sleepConditionVariable s (low cv) ms expired = r at hslept
  have hentry : ∀ {p k}, p ≠ 0 → s.cvs.find p = some k →
      r.2.cvs.find p = some k ∧ r.2.cvs k = s.cvs k := by
    intro p k hp hk
    rw [hslept.table]
    exact find_slot hp hk (low cv)
  intro j n hn hms
  by_cases hj : j = i
  · subst hj
    simp only [Function.update_self, Sys.fall, Option.ite_none_left_eq_some,
      Bool.not_eq_true] at hn
    obtain ⟨hno, hn⟩ := hn
    obtain ⟨hruns, hwait, hgen⟩ := hslept.parked hno
    cases hold : s.naps j with
    | some m =>
      rw [hold, Option.getD_some] at hn
      obtain rfl := Option.some.inj hn
      -- The call that runs again: nothing it compares has changed.
      have hrest := h j m hold hms
      obtain ⟨hcv, -⟩ : cv = m.cv ∧ ms = m.ms :=
        of_decide_eq_true (hallow m ((nap_current hc).trans hold))
      subst hcv
      obtain ⟨k, hk, hwoken⟩ := hrest.entry
      obtain ⟨hfind, hkeep⟩ := hentry hrest.key hk
      refine ⟨hrest.key, hwait, hruns, k, hfind, fun hw => ?_⟩
      rw [hkeep, hgen hrest.waits]
      exact hwoken hw
    | none =>
      rw [hold, Option.getD_none] at hn
      obtain rfl := Option.some.inj hn
      obtain ⟨hkey, hroom⟩ := hm ((nap_current hc).trans hold) hms
      obtain ⟨k, hk⟩ := slot_room hroom
      refine ⟨hkey, hwait, hruns, k, ?_, nofun⟩
      show r.2.cvs.find (low cv) = some k
      rw [hslept.table]
      exact slot_find hk
  · simp only [Function.update_of_ne hj] at hn
    obtain ⟨hrests, hgen⟩ := hslept.others j hj
    have hrest := h j n hn hms
    refine hrest.keep hrests hgen fun k hk => ?_
    obtain ⟨hfind, hkeep⟩ := hentry hrest.key hk
    exact ⟨hfind, congrArg Cv.gen hkeep⟩

/-- What a handler that stores in its entry leaves. -/
structure Stored (s : Sys) (ptr : U32) (f : U32 → U32) (s' : Sys) : Prop where
  rests (j : Slot) : Rests j s.engine s'.engine
  gens : s'.waitCvGen = s.waitCvGen
  table : s'.cvs = (cvSlot s.cvs ptr).2.store f (cvSlot s.cvs ptr).1

theorem wake_stored (h : s.act (.wake cv) = some (s', x)) : Stored s (low cv) (· + 1) s' ∧
    ∀ i, s'.naps i = (s.naps i).map fun n => n.hear cv := by
  obtain ⟨rfl, -⟩ := Prod.mk.inj (Option.some.inj h)
  exact ⟨⟨fun j => wake_rests _ _, rfl, rfl⟩, fun _ => rfl⟩

theorem init_stored (h : s.act (.init cv) = some (s', x)) :
    Stored s (low cv) (fun _ => 0) s' ∧ s'.naps = s.naps := by
  obtain ⟨rfl, -⟩ := Prod.mk.inj (Option.some.inj h)
  exact ⟨⟨fun j => .refl, rfl, rfl⟩, rfl⟩

/-- It leaves a sleeper if what it stores does. -/
theorem Resting.store (h : Resting s i n) (hst : Stored s ptr f s') {n' : Nap} (hcv : n'.cv = n.cv)
    (hw : ∀ k, s.cvs.find (low n.cv) = some k → n'.woken = true →
      (if ptr = low n.cv then f (s.cvs k).gen else (s.cvs k).gen) ≠ s.waitCvGen i) :
    Resting s' i n' := by
  obtain ⟨k, hk, -⟩ := h.entry
  obtain ⟨hruns, hwait⟩ := hst.rests i h.runs
  rw [← hcv] at hk hw
  have hkey : low n'.cv ≠ 0 := hcv ▸ h.key
  refine ⟨hkey, ?_, hruns, k, ?_, fun hwoken => ?_⟩
  · rw [hwait, h.waits, hcv]
  · rw [hst.table, store_find]
    exact (find_slot hkey hk ptr).1
  · rw [hst.table, store_slot hkey hk, hst.gens]
    exact hw k hk hwoken

theorem Rested.wake (h : Rested s) (hm : Meets s (.wake cv))
    (hs : s.step (.wake cv) = some (s', x)) : Rested s' := by
  obtain ⟨hst, hnaps⟩ := wake_stored (step_act hs).2
  intro i n' hn' hms
  obtain ⟨n, hn, rfl⟩ := Option.map_eq_some_iff.1 ((hnaps i).symm.trans hn')
  obtain ⟨hcv, hsame⟩ := hear_cv n cv
  rw [hsame] at hms
  have hrest := h i n hn hms
  obtain ⟨k, hk, hwoken⟩ := hrest.entry
  refine hrest.store hst hcv fun k' hk' hw => ?_
  obtain rfl := Option.some.inj (hk.symm.trans hk')
  split
  · rename_i hlow
    refine (hm i n hn hms hlow.symm k (hlow ▸ hk)).1 ?_
    unfold Nap.hear at hw
    split at hw
    · rename_i heq
      exact .inl heq
    · exact .inr hw
  · rename_i hlow
    have hne : n.cv ≠ cv := fun heq => hlow (heq ▸ rfl)
    rw [Nap.hear, if_neg hne] at hw
    exact hwoken hw

theorem Rested.init (h : Rested s) (hm : Meets s (.init cv))
    (hs : s.step (.init cv) = some (s', x)) : Rested s' := by
  obtain ⟨hst, hnaps⟩ := init_stored (step_act hs).2
  intro i n hn hms
  rw [hnaps] at hn
  have hrest := h i n hn hms
  obtain ⟨k, hk, hwoken⟩ := hrest.entry
  refine hrest.store hst rfl fun k' hk' hw => ?_
  obtain rfl := Option.some.inj (hk.symm.trans hk')
  split
  · rename_i hlow
    exact (hm i n hn hms hlow.symm hw).symm
  · exact hwoken hw

/-- A thread in its call is left by everything else the engine does. -/
theorem Rested.other (h : Rested s) (hm : Meets s (.other a))
    (hs : s.step (.other a) = some (s', x)) : Rested s' := by
  obtain ⟨hallow, hact⟩ := step_act hs
  obtain ⟨rfl, -⟩ := Prod.mk.inj (Option.some.inj hact)
  intro i n hn hms
  refine (h i n hn hms).keep ?_ rfl fun k hk => ⟨hk, rfl⟩
  by_cases hc : s.engine.current = some i
  · have hnap := (nap_current hc).trans hn
    have ha := hallow n hnap
    cases a with
    | preempt => exact preempt_rests _
    | tick => exact tick_rests fun hp hr => absurd hms (hm hp hr n hnap)
    | pause on => exact .refl
    | guest m => exact .refl
    | _ => cases ha
  · exact act_rests a hc

theorem step_rested (h : Rested s) (hm : Meets s a) (hs : s.step a = some (s', x)) : Rested s' := by
  cases a with
  | sleep cv ms expired => exact h.sleep hm hs
  | wake cv => exact h.wake hm hs
  | init cv => exact h.init hm hs
  | other a => exact h.other hm hs

theorem run_rested (h : Run Sys.step Meets (.load teb m cvs) tr s) : Rested s :=
  h.invariant (P := fun _ s => Rested s) nofun fun hr hm hs => step_rested hr hm hs

-- ---------------------------------------------------------------------------
-- The law
-- ---------------------------------------------------------------------------

theorem Rested.answers (h : Rested s) (hs : s.step (.sleep n.cv n.ms expired) = some (s', x))
    (hc : s.engine.current = some i) (hn : s.naps i = some n) (hms : n.ms = infinite)
    (hw : n.woken = true) : x = true := by
  obtain ⟨-, hact⟩ := step_act hs
  simp only [Sys.act, hc, Option.some.injEq, Prod.mk.injEq] at hact
  obtain ⟨-, rfl⟩ := hact
  have hrest := h i n hn hms
  obtain ⟨k, hk, hwoken⟩ := hrest.entry
  rw [hms, sleep_answer hc hrest.waits hk]
  exact bne_iff_ne.2 (hwoken hw)

theorem Rested.own (h : Rested s) (hm : Meets s (.wake cv))
    (hs : s.step (.wake cv) = some (s', x)) (hn : s.naps i = some n) (hms : n.ms = infinite)
    (hne : n.cv ≠ cv) (hr : s'.released i n = true) : s.released i n = true := by
  have hrest := h i n hn hms
  have h' := h.wake hm hs
  obtain ⟨hst, hnaps⟩ := wake_stored (step_act hs).2
  have hrest' := h' i n (by simp [hnaps, hn, Nap.hear, hne]) hms
  obtain ⟨k, hk, -⟩ := hrest.entry
  rw [hrest.released hms hk]
  obtain hlow | hlow := eq_or_ne (low cv) (low n.cv)
  · exact bne_iff_ne.2 ((hm i n hn hms hlow.symm k (hlow ▸ hk)).2 hne)
  · have hgen := store_slot hrest.key hk (· + 1) (low cv)
    rw [if_neg hlow, ← hst.table] at hgen
    have hk' : s'.cvs.find (low n.cv) = some k := by
      rw [hst.table, store_find]
      exact (find_slot hrest.key hk (low cv)).1
    rw [hrest'.released hms hk', hgen, hst.gens] at hr
    exact hr

/-- In every run whose steps meet the condition no wake is lost. -/
theorem condvars_law (h : Run Sys.step Meets (.load teb m cvs) tr s) (hm : Meets s a)
    (hs : s.step a = some (s', x)) : Lossless s a s' x := by
  have hrest := run_rested h
  constructor
  · rintro i n expired rfl hc hn hms hw
    exact hrest.answers hs hc hn hms hw
  · rintro cv i n rfl hn hms hne hr
    exact hrest.own hm hs hn hms hne hr

instance (s : Sys) (a : CvAction) : Decidable (Meets s a) :=
  match a with
  | .sleep cv ms _ => inferInstanceAs (Decidable (s.nap = none → ms = infinite →
      low cv ≠ 0 ∧ ∃ k, (s.cvs k).ptr = low cv ∨ (s.cvs k).ptr = 0))
  | .wake cv => inferInstanceAs (Decidable (∀ i, ∀ n ∈ s.naps i, n.ms = infinite →
      low n.cv = low cv → ∀ k ∈ s.cvs.find (low cv),
        (n.cv = cv ∨ n.woken = true → (s.cvs k).gen + 1 ≠ s.waitCvGen i) ∧
        (n.cv ≠ cv → (s.cvs k).gen ≠ s.waitCvGen i)))
  | .init cv => inferInstanceAs (Decidable (∀ i, ∀ n ∈ s.naps i, n.ms = infinite →
      low n.cv = low cv → n.woken = true → s.waitCvGen i ≠ 0))
  | .other .tick => inferInstanceAs (Decidable (s.engine.paused = true → s.engine.anyReady = true →
      ∀ n ∈ s.nap, n.ms ≠ infinite))
  | .other (.create ..) | .other (.save _) | .other .switch | .other .yieldReady
  | .other .yieldWaiting | .other (.wait _) | .other (.setWait _) | .other (.wake _)
  | .other (.resume _) | .other (.exit _) | .other .preempt | .other (.pause _)
  | .other (.guest _) => .isTrue trivial

def emptyCvs : Cvs := fun _ => ⟨0, 0⟩

/-- The main thread sleeps, a worker wakes it, and its call is answered. -/
theorem condvars_law_woken : ∃ tr s s',
    Run Sys.step Meets (.load 0x20000000 .zero emptyCvs) tr s ∧
    s.step (.sleep 0x500000 infinite false) = some (s', true) ∧
    Lossless s (.sleep 0x500000 infinite false) s' true := by
  have hexec : (exec Sys.step Meets (.load 0x20000000 .zero emptyCvs) [
      .other (.create 0x401000 7 0 none), .sleep 0x500000 infinite false, .wake 0x500000,
      .other .preempt]).any fun r =>
        (r.2.step (.sleep 0x500000 infinite false)).any (·.2) &&
        decide (Meets r.2 (.sleep 0x500000 infinite false)) := by decide +kernel
  obtain ⟨tr, s, hr, hp⟩ := Run.of_exec_any hexec
  obtain ⟨hp, hm⟩ := Bool.and_eq_true_iff.1 hp
  obtain ⟨⟨s', x⟩, hs, hx⟩ := Option.any_eq_true _ _ |>.1 hp
  obtain rfl : x = true := hx
  exact ⟨tr, s, s', hr, hs, condvars_law hr (of_decide_eq_true hm) hs⟩

/-- The 64 condition variables of the counterexample. -/
def others : List CvAction := (List.range 64).map fun k => .wake (.ofNat 64 (0x600000 + 8 * k))

/-- After 64 other condition variables have an entry, a wake on the next is lost. -/
theorem crowded_out : ¬ ∀ tr s a s' x,
    Run Sys.step anyStep (.load 0x20000000 .zero emptyCvs) tr s → s.step a = some (s', x) →
    Lossless s a s' x := by
  intro hall
  have hexec : (exec Sys.step anyStep (.load 0x20000000 .zero emptyCvs) (others ++ [
      .other (.create 0x401000 7 0 none), .sleep 0x500000 infinite false, .wake 0x500000,
      .other .preempt])).any fun r =>
        decide (r.2.engine.current = some 0 ∧ r.2.naps 0 = some ⟨0x500000, infinite, true⟩) &&
        (r.2.step (.sleep 0x500000 infinite false)).any (!·.2) := by decide +kernel
  obtain ⟨tr, s, hr, hp⟩ := Run.of_exec_any hexec
  obtain ⟨hp, hs⟩ := Bool.and_eq_true_iff.1 hp
  obtain ⟨hc, hn⟩ := of_decide_eq_true hp
  obtain ⟨⟨s', x⟩, hs, hx⟩ := Option.any_eq_true _ _ |>.1 hs
  have hlossless := hall tr s _ s' x hr hs
  have hanswered := hlossless.answers 0 ⟨0x500000, infinite, true⟩ false rfl hc hn rfl rfl
  rw [hanswered] at hx
  exact Bool.false_ne_true hx

end WineGlass.CondVars
