import WineGlass.Sync.Objects

/-!
# Resume gates

A thread created suspended parks on a gate keyed by its handle until
`ResumeThread` signals the handle. The sync table gives handles out again, the
gate table never retires an entry, and both sides look for the first entry of
a handle. Each critical section of the three functions is a step. Only
suspended workers are followed; a creation whose `pthread_create` fails leaves
its gate behind.
-/

namespace WineGlass.ResumeGate

open Runs

def maxResumeGates : Nat := 64

/-- An entry of `s_resume_gates`. -/
structure Gate where
  handle : Nat := 0
  resumed : Bool := false
  used : Bool := false
  deriving DecidableEq, Repr

/-- Where a worker is in `wg_resume_gate_wait`. -/
inductive Place
  | fresh
  | parked (i : Nat)
  | passed
  deriving DecidableEq, Repr

structure Worker where
  handle : Nat
  place : Place
  deriving DecidableEq, Repr

/-- `signals t` is the gate thread `t` found for a handle, between the two
critical sections of `wg_resume_gate_signal`. -/
structure State where
  sync : Sync.State
  gates : Nat → Gate
  workers : Nat → Option Worker
  nextId : Nat
  signals : Nat → Option (Nat × Nat)

def State.init : State := ⟨Sync.State.init, fun _ => {}, fun _ => none, 0x1000, fun _ => none⟩

inductive Event
  | created (w h : Nat)
  | signalled (h : Nat)
  deriving DecidableEq, Repr

-- ---------------------------------------------------------------------------
-- The gate table
-- ---------------------------------------------------------------------------

/-- The lookup of `wg_resume_gate_wait` and `wg_resume_gate_signal`. -/
def lookup (g : Nat → Gate) (h : Nat) : Option Nat :=
  (List.range maxResumeGates).find? fun i => (g i).used && (g i).handle == h

def freeGate (g : Nat → Gate) : Option Nat :=
  (List.range maxResumeGates).find? fun i => !(g i).used

def gateCreate (g : Nat → Gate) (h : Nat) : Nat → Gate :=
  match freeGate g with
  | none => g
  | some i => Function.update g i { handle := h, resumed := false, used := true }

inductive Action
  | sync (a : Sync.Action)
  | spawn (t : Nat) (suspended started : Bool)
  | gateWait (w : Nat)
  | gatePass (w : Nat)
  | signal (t h : Nat)
  | signalSet (t : Nat)
  deriving DecidableEq, Repr

def State.setWorker (s : State) (w : Nat) (x : Worker) : State :=
  { s with workers := Function.update s.workers w (some x) }

/-- `wg_spawn_real_thread`, from `wg_sync_create_thread_obj` on. -/
def spawn (s : State) (sync : Sync.State) (h : Nat) (suspended started : Bool) :
    State × Option Event :=
  let s' := { s with
    sync
    gates := if suspended then gateCreate s.gates h else s.gates
    nextId := s.nextId + 1 }
  if suspended && started then
    (s'.setWorker s.nextId ⟨h, .fresh⟩, some (.created s.nextId h))
  else (s', none)

/-- The first critical section of `wg_resume_gate_wait`. -/
def gateWait (s : State) (w h : Nat) : State :=
  match lookup s.gates h with
  | none => s.setWorker w ⟨h, .passed⟩
  | some i => s.setWorker w ⟨h, .parked i⟩

def step (s : State) : Action → Option (State × Option Event)
  | .sync a => (Sync.step s.sync a).map fun r => ({ s with sync := r.1 }, none)
  | .spawn t suspended started =>
    (Sync.step s.sync (.call t (.createThreadObj s.nextId))).map fun r =>
      spawn s r.1 (r.2.ret.getD 0) suspended started
  | .gateWait w =>
    match s.workers w with
    | some ⟨h, .fresh⟩ => some (gateWait s w h, none)
    | _ => none
  | .gatePass w =>
    match s.workers w with
    | some ⟨h, .parked i⟩ =>
      -- The loop waits again when it was woken without a signal.
      some (if (s.gates i).resumed then s.setWorker w ⟨h, .passed⟩ else s, none)
    | _ => none
  | .signal t h =>
    match s.signals t with
    | some _ => none
    | none =>
      match lookup s.gates h with
      | none => some (s, none)
      | some i => some ({ s with signals := Function.update s.signals t (some (h, i)) }, none)
  | .signalSet t =>
    match s.signals t with
    | none => none
    | some (h, i) =>
      some ({ s with
        gates := Function.update s.gates i { s.gates i with resumed := true }
        signals := Function.update s.signals t none }, some (.signalled h))

/-- Thread `w` is through its gate. -/
def State.Passed (s : State) (w : Nat) : Prop := ∃ h, s.workers w = some ⟨h, .passed⟩

/-- `ResumeThread` was called for handle `h` along the trace. -/
def Signalled (tr : List (Action × Option Event)) (h : Nat) : Prop :=
  ∃ x ∈ tr, x.2 = some (.signalled h)

/-- A gate created now for handle `h` holds its thread: the entry the thread
will find is not resumed, or will be a fresh one. -/
def Ready (g : Nat → Gate) (h : Nat) : Prop :=
  match lookup g h with
  | some i => (g i).resumed = false
  | none => freeGate g ≠ none

-- ---------------------------------------------------------------------------
-- Lookups
-- ---------------------------------------------------------------------------

/-- `i` is the first entry of handle `h`. -/
structure First (g : Nat → Gate) (h i : Nat) : Prop where
  lt : i < maxResumeGates
  used : (g i).used = true
  handle : (g i).handle = h
  least : j < i → (g j).used = true → (g j).handle ≠ h

theorem lookup_some : lookup g h = some i ↔ First g h i := by
  simp only [lookup, List.find?_range_eq_some, Bool.and_eq_true, beq_iff_eq, List.mem_range,
    Bool.not_eq_true', Bool.and_eq_false_imp, beq_eq_false_iff_ne]
  exact ⟨fun ⟨⟨hu, hh⟩, hlt, hl⟩ => ⟨hlt, hu, hh, fun {j} hj hu => hl j hj hu⟩,
    fun hf => ⟨⟨hf.used, hf.handle⟩, hf.lt, fun _ hj hu => hf.least hj hu⟩⟩

theorem First.congr (h : First g k i) (hg : ∀ j ≤ i, (g' j).used = (g j).used ∧
    (g' j).handle = (g j).handle) : First g' k i := by
  refine ⟨h.lt, (hg i (Nat.le_refl i)).1.trans h.used, (hg i (Nat.le_refl i)).2.trans h.handle, ?_⟩
  intro j hj hu
  obtain ⟨h1, h2⟩ := hg j (Nat.le_of_lt hj)
  rw [h2]
  exact h.least hj (h1.symm.trans hu)

theorem freeGate_some (h : freeGate g = some i) :
    i < maxResumeGates ∧ (g i).used = false ∧ ∀ j < i, (g j).used = true := by
  simp only [freeGate, List.find?_range_eq_some, List.mem_range, Bool.not_eq_true',
    Bool.not_not] at h
  exact ⟨h.2.1, h.1, h.2.2⟩

theorem gateCreate_eq (g : Nat → Gate) (k : Nat) :
    freeGate g = none ∧ gateCreate g k = g ∨ ∃ f, freeGate g = some f ∧
      gateCreate g k = Function.update g f { handle := k, resumed := false, used := true } := by
  unfold gateCreate
  split
  · rename_i hf
    exact .inl ⟨hf, rfl⟩
  · rename_i f hf
    exact .inr ⟨f, hf, rfl⟩

-- ---------------------------------------------------------------------------
-- The invariant
-- ---------------------------------------------------------------------------

/-- Gates are used from the front, workers have old ids, and a signal in
flight goes to the first entry of its handle. -/
structure Inv (s : State) : Prop where
  front : (s.gates i).used = true → j < i → (s.gates j).used = true
  old : s.workers w ≠ none → w < s.nextId
  aimed : s.signals t = some (h, i) → First s.gates h i

theorem init_inv : Inv .init := ⟨nofun, fun h => absurd rfl h, nofun⟩

/-- The first entry of a handle stays the first one. -/
theorem First.create (h : First g k i) (hfront : ∀ i j, (g i).used = true → j < i → (g j).used = true)
    (k' : Nat) : First (gateCreate g k') k i ∧ gateCreate g k' i = g i := by
  rcases gateCreate_eq g k' with ⟨-, he⟩ | ⟨f, hf, he⟩ <;> rw [he]
  · exact ⟨h, rfl⟩
  · obtain ⟨-, hfree, -⟩ := freeGate_some hf
    have hfi : i < f := by
      rcases Nat.lt_trichotomy i f with hlt | rfl | hgt
      · exact hlt
      · rw [h.used] at hfree
        cases hfree
      · rw [hfront i f h.used hgt] at hfree
        cases hfree
    refine ⟨h.congr fun j hj => ?_, Function.update_of_ne (Nat.ne_of_lt hfi) _ _⟩
    rw [Function.update_of_ne (by omega)]
    exact ⟨rfl, rfl⟩

/-- A signal does not move entries. -/
theorem First.resume (h : First g k i) (f : Nat) :
    First (Function.update g f { g f with resumed := true }) k i := by
  refine h.congr fun j _ => ?_
  by_cases hj : j = f
  · subst hj
    rw [Function.update_self]
    exact ⟨rfl, rfl⟩
  · rw [Function.update_of_ne hj]
    exact ⟨rfl, rfl⟩

theorem gateCreate_front (hfront : ∀ i j, (g i).used = true → j < i → (g j).used = true)
    (hi : (gateCreate g k i).used = true) (hj : j < i) : (gateCreate g k j).used = true := by
  rcases gateCreate_eq g k with ⟨-, he⟩ | ⟨f, hf, he⟩ <;> rw [he] at hi ⊢
  · exact hfront i j hi hj
  · obtain ⟨-, hfree, hleast⟩ := freeGate_some hf
    by_cases hjf : j = f
    · subst hjf
      rw [Function.update_self]
    · rw [Function.update_of_ne hjf]
      by_cases hif : i = f
      · subst hif
        exact hleast j hj
      · rw [Function.update_of_ne hif] at hi
        exact hfront i j hi hj

theorem setWorker_old (hi : Inv s) (hw : w < s.nextId) (x : Worker) : Inv (s.setWorker w x) := by
  refine ⟨hi.front, fun {u} hu => ?_, hi.aimed⟩
  by_cases huw : u = w
  · exact huw ▸ hw
  · exact hi.old (by simpa [State.setWorker, huw] using hu)

theorem step_inv (hi : Inv s) (h : step s a = some (s', e)) : Inv s' := by
  cases a with
  | sync a =>
    simp only [step, Option.map_eq_some_iff] at h
    obtain ⟨r, -, h⟩ := h
    cases h
    exact ⟨hi.front, hi.old, hi.aimed⟩
  | spawn t suspended started =>
    simp only [step, Option.map_eq_some_iff] at h
    obtain ⟨r, -, h⟩ := h
    have hbase : Inv { s with
        sync := r.1
        gates := if suspended then gateCreate s.gates (r.2.ret.getD 0) else s.gates
        nextId := s.nextId + 1 } := by
      refine ⟨fun {i j} hu hj => ?_, fun hw => Nat.lt_succ_of_lt (hi.old hw), fun {u k i} hs => ?_⟩
      · cases suspended with
        | true => exact gateCreate_front (fun i j => hi.front) hu hj
        | false => exact hi.front hu hj
      · cases suspended with
        | true => exact ((hi.aimed hs).create (fun i j => hi.front) _).1
        | false => exact hi.aimed hs
    unfold spawn at h
    dsimp only at h
    split at h <;> cases h
    · exact setWorker_old hbase (Nat.lt_succ_self _) _
    · exact hbase
  | gateWait w =>
    simp only [step] at h
    split at h
    · rename_i k hw
      have hold := hi.old (w := w) (by simp [hw])
      unfold gateWait at h
      split at h <;> cases h <;> exact setWorker_old hi hold _
    · cases h
  | gatePass w =>
    simp only [step] at h
    split at h
    · rename_i k i hw
      have hold := hi.old (w := w) (by simp [hw])
      split at h <;> cases h
      · exact setWorker_old hi hold _
      · exact hi
    · cases h
  | signal t k =>
    simp only [step] at h
    split at h
    · cases h
    · split at h <;> cases h
      · exact hi
      · rename_i i hl
        refine ⟨hi.front, hi.old, fun {u k' i'} hs => ?_⟩
        obtain ⟨-, hx⟩ | ⟨-, hx⟩ := update_cases hs
        · cases hx
          exact lookup_some.mp hl
        · exact hi.aimed hx
  | signalSet t =>
    simp only [step] at h
    split at h
    · cases h
    · rename_i k f _
      cases h
      refine ⟨fun {i j} hu hj => ?_, hi.old, fun {u k' i'} hs => ?_⟩
      · have hsame (i : Nat) : (Function.update s.gates f { s.gates f with resumed := true } i).used =
            (s.gates i).used := by
          by_cases hif : i = f
          · subst hif
            rw [Function.update_self]
          · rw [Function.update_of_ne hif]
        rw [hsame] at hu ⊢
        exact hi.front hu hj
      · obtain ⟨-, hx⟩ | ⟨-, hx⟩ := update_cases hs
        · cases hx
        · exact (hi.aimed hx).resume f

theorem run_inv (h : Run step ok .init tr s) : Inv s :=
  h.invariant (P := fun _ s => Inv s) init_inv fun hi _ hst => step_inv hi hst

-- ---------------------------------------------------------------------------
-- A held thread
-- ---------------------------------------------------------------------------

/-- Thread `w`, created for handle `k`, is held: its gate is `i`, not resumed. -/
structure Held (s : State) (w k i : Nat) : Prop where
  first : First s.gates k i
  closed : (s.gates i).resumed = false
  place : s.workers w = some ⟨k, .fresh⟩ ∨ s.workers w = some ⟨k, .parked i⟩

theorem Held.not_passed (h : Held s w k i) : ¬s.Passed w := by
  rintro ⟨k', hp⟩
  rcases h.place with hw | hw <;> rw [hw] at hp <;> cases hp

theorem Held.setWorker (h : Held s w k i) (hne : u ≠ w) (x : Worker) :
    Held (s.setWorker u x) w k i := by
  refine ⟨h.first, h.closed, ?_⟩
  have hsame : (s.setWorker u x).workers w = s.workers w := Function.update_of_ne hne.symm _ _
  rw [hsame]
  exact h.place

/-- A held thread stays held until its handle is signalled. -/
theorem Held.step (h : Held s w k i) (hi : Inv s) (hst : step s a = some (s', e)) :
    Held s' w k i ∨ e = some (.signalled k) := by
  cases a with
  | sync a =>
    simp only [ResumeGate.step, Option.map_eq_some_iff] at hst
    obtain ⟨r, -, hst⟩ := hst
    cases hst
    exact .inl ⟨h.first, h.closed, h.place⟩
  | spawn t suspended started =>
    simp only [ResumeGate.step, Option.map_eq_some_iff] at hst
    obtain ⟨r, -, hst⟩ := hst
    have hw : s.nextId ≠ w := by
      rintro rfl
      have hold := hi.old (w := s.nextId) (by rcases h.place with hw | hw <;> simp [hw])
      exact Nat.lt_irrefl _ hold
    have hbase : Held { s with
        sync := r.1
        gates := if suspended then gateCreate s.gates (r.2.ret.getD 0) else s.gates
        nextId := s.nextId + 1 } w k i := by
      cases suspended with
      | true =>
        obtain ⟨hfirst, hsame⟩ := h.first.create (fun i j => hi.front) (r.2.ret.getD 0)
        exact ⟨hfirst, (congrArg Gate.resumed hsame).trans h.closed, h.place⟩
      | false => exact ⟨h.first, h.closed, h.place⟩
    unfold spawn at hst
    dsimp only at hst
    split at hst <;> cases hst
    · exact .inl (hbase.setWorker hw _)
    · exact .inl hbase
  | gateWait u =>
    simp only [ResumeGate.step] at hst
    split at hst
    · rename_i k' hu
      cases hst
      refine .inl ?_
      unfold gateWait
      by_cases huw : u = w
      · subst huw
        obtain rfl : k' = k := by rcases h.place with hw | hw <;> simp_all
        rw [lookup_some.mpr h.first]
        exact ⟨h.first, h.closed, .inr (Function.update_self _ _ _)⟩
      · split <;> exact h.setWorker huw _
    · cases hst
  | gatePass u =>
    simp only [ResumeGate.step] at hst
    split at hst
    · rename_i k' i' hu
      split at hst <;> cases hst
      · rename_i hres
        refine .inl (h.setWorker ?_ _)
        rintro rfl
        obtain rfl : i' = i := by rcases h.place with hw | hw <;> simp_all
        rw [h.closed] at hres
        cases hres
      · exact .inl h
    · cases hst
  | signal t k' =>
    simp only [ResumeGate.step] at hst
    split at hst
    · cases hst
    · split at hst <;> cases hst <;> exact .inl ⟨h.first, h.closed, h.place⟩
  | signalSet t =>
    simp only [ResumeGate.step] at hst
    split at hst
    · cases hst
    · rename_i k' f hs
      cases hst
      by_cases hfi : f = i
      · subst hfi
        obtain rfl : k' = k := (hi.aimed hs).handle.symm.trans h.first.handle
        exact .inr rfl
      · refine .inl ⟨h.first.resume f, ?_, h.place⟩
        show (Function.update s.gates f _ i).resumed = false
        rw [Function.update_of_ne (Ne.symm hfi)]
        exact h.closed

theorem held_run (h : Held s w k i) (hi : Inv s) (hrun : Run step ok s tr s') :
    Inv s' ∧ (Held s' w k i ∨ Signalled tr k) := by
  refine hrun.invariant (P := fun tr s => Inv s ∧ (Held s w k i ∨ Signalled tr k)) ⟨hi, .inl h⟩ ?_
  rintro tr s a s' e ⟨hi, hp⟩ - hst
  refine ⟨step_inv hi hst, ?_⟩
  rcases hp with hp | ⟨x, hx, he⟩
  · rcases hp.step hi hst with hp | rfl
    · exact .inl hp
    · exact .inr ⟨(a, _), by simp, rfl⟩
  · exact .inr ⟨x, List.mem_append_left _ hx, he⟩

-- ---------------------------------------------------------------------------
-- The law
-- ---------------------------------------------------------------------------

theorem spawn_step (hst : step s (.spawn t true true) = some (s₁, some (.created w k))) :
    w = s.nextId ∧ s₁.gates = gateCreate s.gates k ∧ s₁.workers w = some ⟨k, .fresh⟩ := by
  simp only [step, Option.map_eq_some_iff] at hst
  obtain ⟨r, -, hst⟩ := hst
  cases hst
  exact ⟨rfl, rfl, Function.update_self _ _ _⟩

/-- A gate created while `Ready` is found, and closed. -/
theorem Ready.first (h : Ready g k) (hfront : ∀ i j, (g i).used = true → j < i → (g j).used = true) :
    ∃ i, First (gateCreate g k) k i ∧ (gateCreate g k i).resumed = false := by
  unfold Ready at h
  split at h
  · rename_i i hl
    obtain ⟨hfirst, hsame⟩ := (lookup_some.mp hl).create hfront k
    exact ⟨i, hfirst, (congrArg Gate.resumed hsame).trans h⟩
  · rename_i hl
    rcases gateCreate_eq g k with ⟨hf, -⟩ | ⟨f, hf, he⟩
    · exact absurd hf h
    · obtain ⟨hlt, -, -⟩ := freeGate_some hf
      rw [he]
      refine ⟨f, ⟨hlt, ?_, ?_, fun {j} hj hu => ?_⟩, ?_⟩
      · rw [Function.update_self]
      · rw [Function.update_self]
      · rw [Function.update_of_ne (Nat.ne_of_lt hj)] at hu ⊢
        simp only [lookup, List.find?_range_eq_none, Bool.not_eq_true', Bool.and_eq_false_imp,
          beq_eq_false_iff_ne] at hl
        exact hl j (Nat.lt_trans hj hlt) hu
      · rw [Function.update_self]

/-- A thread whose gate was not `Ready` can go through at once. -/
theorem not_ready_passes (hw : s.workers w = some ⟨k, .fresh⟩)
    (hg : s.gates = gateCreate g k) (hn : ¬Ready g k)
    (hfront : ∀ i j, (g i).used = true → j < i → (g j).used = true) :
    ∃ tr s', Run step anyStep s tr s' ∧ s'.Passed w ∧ ¬Signalled tr k := by
  have hwait : step s (.gateWait w) = some (gateWait s w k, none) := by simp [step, hw]
  unfold Ready at hn
  split at hn
  · rename_i i hl
    obtain ⟨hfirst, hsame⟩ := (lookup_some.mp hl).create hfront k
    rw [← hg] at hfirst hsame
    have hgo : gateWait s w k = s.setWorker w ⟨k, .parked i⟩ := by
      simp [gateWait, lookup_some.mpr hfirst]
    have hopen : (s.gates i).resumed = true := by
      rw [hsame]
      simpa using hn
    have hpark : (s.setWorker w ⟨k, .parked i⟩).workers w = some ⟨k, .parked i⟩ :=
      Function.update_self _ _ _
    have hpass : step (s.setWorker w ⟨k, .parked i⟩) (.gatePass w) =
        some ((s.setWorker w ⟨k, .parked i⟩).setWorker w ⟨k, .passed⟩, none) := by
      have hopen' : ((s.setWorker w ⟨k, .parked i⟩).gates i).resumed = true := hopen
      simp only [step, hpark, hopen', ↓reduceIte]
    rw [hgo] at hwait
    refine ⟨_, _, (Run.single trivial hwait).snoc trivial hpass, ⟨k, Function.update_self _ _ _⟩, ?_⟩
    rintro ⟨x, hx, he⟩
    simp only [List.cons_append, List.nil_append, List.mem_cons, List.not_mem_nil, or_false] at hx
    rcases hx with rfl | rfl <;> cases he
  · rename_i hl
    rw [not_not] at hn
    have hsame : s.gates = g := by simp [hg, gateCreate, hn]
    have hgo : gateWait s w k = s.setWorker w ⟨k, .passed⟩ := by simp [gateWait, hsame, hl]
    rw [hgo] at hwait
    refine ⟨_, _, Run.single trivial hwait, ⟨k, Function.update_self _ _ _⟩, ?_⟩
    rintro ⟨x, hx, he⟩
    obtain rfl := List.mem_singleton.mp hx
    cases he

/-- A thread created suspended goes through its gate only after a signal of
its handle, in every continuation, exactly when its gate was created `Ready`. -/
theorem gate_law (h : Run step anyStep .init tr s)
    (hst : step s (.spawn t true true) = some (s₁, some (.created w k))) :
    (∀ rest s₂, Run step anyStep s₁ rest s₂ → s₂.Passed w → Signalled rest k) ↔
      Ready s.gates k := by
  have hi := run_inv h
  have hi₁ := step_inv hi hst
  obtain ⟨-, hg, hw⟩ := spawn_step hst
  refine ⟨fun hall => ?_, fun hready rest s₂ hrun hp => ?_⟩
  · by_contra hn
    obtain ⟨rest, s₂, hrun, hp, hno⟩ := not_ready_passes hw hg hn fun i j => hi.front
    exact hno (hall rest s₂ hrun hp)
  · obtain ⟨i, hfirst, hclosed⟩ := hready.first fun i j => hi.front
    rw [← hg] at hfirst hclosed
    obtain ⟨-, hheld | hsig⟩ := held_run ⟨hfirst, hclosed, .inl hw⟩ hi₁ hrun
    · exact absurd hp hheld.not_passed
    · exact hsig

-- ---------------------------------------------------------------------------
-- Runs
-- ---------------------------------------------------------------------------

instance : DecidablePred (Ready g) := fun k => by
  unfold Ready
  split <;> infer_instance

/-- A first thread is created, resumed, and goes through. -/
theorem gate_law_first : ∃ tr s s₁, Run step anyStep .init tr s ∧
    step s (.spawn 1 true true) = some (s₁, some (.created 0x1000 0x90000)) ∧
    ∀ rest s₂, Run step anyStep s₁ rest s₂ → s₂.Passed 0x1000 → Signalled rest 0x90000 := by
  have hstep : (step .init (.spawn 1 true true)).any (fun r =>
      decide (r.2 = some (.created 0x1000 0x90000))) = true := by decide +kernel
  rw [Option.any_eq_true] at hstep
  obtain ⟨⟨s₁, e⟩, hst, he⟩ := hstep
  obtain rfl := of_decide_eq_true he
  exact ⟨[], .init, s₁, .nil, hst, (gate_law .nil hst).mpr (by decide +kernel)⟩

/-- A thread is created suspended, resumed, exits and is closed; the next one
gets its handle, finds its gate, and goes through with no signal. -/
def recycledHandle : List Action :=
  [.spawn 1 true true, .signal 1 0x90000, .signalSet 1, .gateWait 0x1000, .gatePass 0x1000,
    .sync (.call 0x1000 (.threadExit 0x90000 0)), .sync (.call 1 (.close 0x90000))]

theorem recycled_handle_passes : ∃ tr s s₁ rest s₂, Run step anyStep .init tr s ∧
    step s (.spawn 1 true true) = some (s₁, some (.created 0x1001 0x90000)) ∧
    Run step anyStep s₁ rest s₂ ∧ s₂.Passed 0x1001 ∧ ¬Signalled rest 0x90000 := by
  have hexec : (exec step anyStep .init recycledHandle).any (fun r =>
      (step r.2 (.spawn 1 true true)).any fun q =>
        decide (q.2 = some (.created 0x1001 0x90000) ∧ ¬Ready r.2.gates 0x90000)) = true := by
    decide +kernel
  obtain ⟨tr, s, hr, hp⟩ := Run.of_exec_any hexec
  rw [Option.any_eq_true] at hp
  obtain ⟨⟨s₁, e⟩, hst, he⟩ := hp
  obtain ⟨rfl, hn⟩ := of_decide_eq_true he
  obtain ⟨-, hg, hw⟩ := spawn_step hst
  obtain ⟨rest, s₂, hrun, hpass, hno⟩ :=
    not_ready_passes hw hg hn fun i j => (run_inv hr).front
  exact ⟨tr, s, s₁, rest, s₂, hr, hst, hrun, hpass, hno⟩

end WineGlass.ResumeGate
