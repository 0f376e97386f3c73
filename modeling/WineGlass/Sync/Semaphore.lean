import Mathlib.Algebra.BigOperators.Group.List.Basic
import WineGlass.Sync.Objects

/-!
# Semaphores

The permits of a semaphore are kept account of on the trace: what it was
created with, what each release added and how often it was acquired. A release
beyond the maximum adds what fits and still succeeds (`credit`).
-/

namespace WineGlass.Sync

open CInt Runs

-- ---------------------------------------------------------------------------
-- The account
-- ---------------------------------------------------------------------------

/-- What a release of `n` permits adds to the count `prev`. -/
def credit (max prev n : Int) : Int := if 0 < max ∧ max < prev + n then max - prev else n

def creditOf (n : Nat) (max : Int) : Event → Int
  | .posted m prev k => if m = n then credit max prev k else 0
  | _ => 0

/-- What the releases of object `n` added to its count. -/
def credited (evs : List Event) (n : Nat) (max : Int) : Int := (evs.map (creditOf n max)).sum

/-- How often object `n` was acquired. -/
def acquisitions (evs : List Event) (n : Nat) : Nat := evs.countP (Event.takes n)

@[simp] theorem credited_append (evs ev : List Event) (n : Nat) (max : Int) :
    credited (evs ++ ev) n max = credited evs n max + credited ev n max := by
  simp [credited]

@[simp] theorem acquisitions_append (evs ev : List Event) (n : Nat) :
    acquisitions (evs ++ ev) n = acquisitions evs n + acquisitions ev n := List.countP_append

theorem acquisitions_map {T : Table} {is : List Nat} (hw : T.Wf) (hi : (T.objs i).type ≠ .free)
    (his : ∀ j ∈ is, (T.objs j).type ≠ .free) :
    acquisitions (is.map (Event.acquired t <| T.ident ·)) (T.ident i) = is.count i := by
  induction is with
  | nil => rfl
  | cons j is ih =>
    have hrest := ih fun k hk => his k (List.mem_cons_of_mem j hk)
    have hj := his j List.mem_cons_self
    rw [List.map_cons, acquisitions, List.countP_cons, List.count_cons]
    rw [acquisitions] at hrest
    rw [hrest]
    by_cases hji : j = i
    · simp [Event.takes, hji]
    · have hne : T.ident j ≠ T.ident i := fun he => hji (hw.identInj hj hi he)
      simp [Event.takes, hji, hne]

-- ---------------------------------------------------------------------------
-- What the callers owe
-- ---------------------------------------------------------------------------

def Action.newSemaphore : Action → Option (Int × Int)
  | .call _ (.createSemaphore initialCount maxCount) => some (initialCount, maxCount)
  | _ => none

def Action.releases : Action → Option (Nat × Int)
  | .call _ (.releaseSemaphore h n) => some (h, n)
  | _ => none

/-- Counts stay `long` values: no release takes one out of range. -/
def CountsFit (s : State) (a : Action) : Prop :=
  (∀ p ∈ a.newSemaphore, p.1 ≤ longMax) ∧
  ∀ p ∈ a.releases, ∀ i ∈ s.table.findLocked p.1,
    -longMax - 1 ≤ (s.table.objs i).count + p.2 ∧ (s.table.objs i).count + p.2 ≤ longMax

/-- A semaphore is created within its maximum, no release takes permits, and
no wait lists a semaphore twice. -/
def PermitRules (s : State) (a : Action) : Prop :=
  (∀ p ∈ a.newSemaphore, 0 ≤ p.1 ∧ p.1 ≤ p.2 ∧ 0 < p.2) ∧ (∀ p ∈ a.releases, 0 ≤ p.2) ∧
  ∀ i ∈ s.grants a, (s.table.objs i).type = .sem → (s.grants a).count i ≤ 1

instance : Decidable (CountsFit s a) := inferInstanceAs (Decidable (_ ∧ _))
instance : Decidable (PermitRules s a) := inferInstanceAs (Decidable (_ ∧ _ ∧ _))

-- ---------------------------------------------------------------------------
-- How a count moves
-- ---------------------------------------------------------------------------

/-- What one effect does to the semaphore in slot `i`, with what it adds and
how often it takes. -/
inductive CountMove (s : State) (a : Action) (i : Nat) (o o' : SyncObj) : Int → Nat → Prop
  | still (hc : o'.count = o.count) : CountMove s a i o o' 0 0
  | post (ha : a.releases = some (h, n)) (hi : s.table.findLocked h = some i)
      (ho : o = s.table.objs i) (hc : o'.count = postCount o n) :
      CountMove s a i o o' (credit o.max o.count n) 0
  | grant (ho : o = s.table.objs i) (hi : i ∈ s.grants a) (hpos : 0 < o.count)
      (hc : o' = (acquireLocked · t)^[(s.grants a).count i] o) :
      CountMove s a i o o' 0 ((s.grants a).count i)

/-- The old semaphores after an effect that shows `ev`. -/
structure CountMoves (s : State) (a : Action) (T : Table) (ev : List Event) (T' : Table) : Prop where
  fresh : T'.fresh = T.fresh
  stays : (T'.objs i).type = .sem → Stays T T' i
  moves : (T'.objs i).type = .sem → CountMove s a i (T.objs i) (T'.objs i)
    (credited ev (T.ident i) (T.objs i).max) (acquisitions ev (T.ident i))
  unborn : T.fresh ≤ n → credited ev n m = 0 ∧ acquisitions ev n = 0

theorem quiet_account (he : ∀ e ∈ ev, (∀ n, e.takes n = false) ∧ ∀ m prev n, e ≠ .posted m prev n) :
    credited ev n m = 0 ∧ acquisitions ev n = 0 := by
  induction ev with
  | nil => exact ⟨rfl, rfl⟩
  | cons e es ih =>
    obtain ⟨h1, h2⟩ := ih fun x hx => he x (List.mem_cons_of_mem e hx)
    obtain ⟨h3, h4⟩ := he e List.mem_cons_self
    have h5 : creditOf n m e = 0 := by
      cases e with
      | posted p prev k => exact absurd rfl (h4 p prev k)
      | _ => rfl
    rw [credited] at h1
    rw [acquisitions] at h2
    simp only [credited, acquisitions, List.map_cons, List.sum_cons, List.countP_cons, h1, h2, h5, h3]
    exact ⟨rfl, rfl⟩

theorem CountMoves.quiet (hfresh : T'.fresh = T.fresh)
    (hs : ∀ i, (T'.objs i).type = .sem → Stays T T' i ∧ (T'.objs i).count = (T.objs i).count)
    (he : ∀ e ∈ ev, (∀ n, e.takes n = false) ∧ ∀ m prev n, e ≠ .posted m prev n) :
    CountMoves s a T ev T' := by
  refine ⟨hfresh, fun hi => (hs _ hi).1, fun {i} hi => ?_, fun _ => quiet_account he⟩
  obtain ⟨h1, h2⟩ := quiet_account (n := T.ident i) (m := (T.objs i).max) he
  rw [h1, h2]
  exact .still (hs i hi).2

/-- A store that leaves the counts of semaphores alone. -/
theorem CountMoves.store {C : Core} (hf : Mutates f)
    (hc : (C.table.objs j).type = .sem → (f (C.table.objs j)).count = (C.table.objs j).count)
    (he : ∀ e ∈ ev, (∀ n, e.takes n = false) ∧ ∀ m prev n, e ≠ .posted m prev n) :
    CountMoves s a C.table ev (C.modify j f).table := by
  refine .quiet rfl (fun i hi => ?_) he
  have hst := hf.stays (i := i) (j := j) C.table
  refine ⟨hst, modify_count fun hij => ?_⟩
  subst hij
  exact hc (by rwa [modify_table, hst.type] at hi)

theorem CountMoves.post {C : Core} (hw : C.table.Wf) (hC : C.table = s.table)
    (ha : a.releases = some (h, n)) (hi : s.table.findLocked h = some j)
    (hty : (C.table.objs j).type = .sem) :
    CountMoves s a C.table [.posted (C.table.ident j) (C.table.objs j).count n]
      (C.modify j fun o => { o with count := postCount o n }).table := by
  have hf : Mutates fun o => { o with count := postCount o n } := fun _ => ⟨rfl, rfl, rfl, rfl⟩
  have hsem {i : Nat} (hi' : ((C.modify j fun o => { o with count := postCount o n }).table.objs i).type
      = .sem) : (C.table.objs i).type = .sem := by
    rwa [modify_table, (hf.stays C.table).type] at hi'
  refine ⟨rfl, fun _ => hf.stays C.table, fun {i} hi' => ?_, fun {n m} hm => ?_⟩
  · by_cases hij : i = j
    · subst hij
      have hmove : CountMove s a i (C.table.objs i)
          ((C.modify i fun o => { o with count := postCount o n }).table.objs i) _ 0 :=
        .post ha hi (congrArg (Table.objs · i) hC) (by rw [modify_table, Table.modify_self])
      simpa [credited, creditOf, acquisitions, Event.takes] using hmove
    · have hid : C.table.ident j ≠ C.table.ident i := fun he =>
        hij (hw.identInj (by simp [hsem hi']) (by simp [hty]) he.symm)
      rw [modify_table, Table.modify_ne _ hij]
      simpa [credited, creditOf, acquisitions, Event.takes, hid] using CountMove.still rfl
  · have hlt := hw.identLt (i := j) (by simp [hty])
    have hid : C.table.ident j ≠ n := by omega
    simp [credited, creditOf, acquisitions, Event.takes, hid]

theorem CountMoves.grant (hw : s.table.Wf) (hsat : ∀ i ∈ s.grants a, satisfiedLocked (s.table.objs i) t) :
    CountMoves s a s.table ((s.grants a).map (.acquired t <| s.table.ident ·))
      (s.table.acquireAll t (s.grants a)) := by
  have hlive : ∀ j ∈ s.grants a, (s.table.objs j).type ≠ .free := fun j hj =>
    satisfied_live (hsat j hj)
  have hcredit {n : Nat} {m : Int} :
      credited ((s.grants a).map (Event.acquired t <| s.table.ident ·)) n m = 0 := by
    rw [credited, List.map_map]
    refine List.sum_eq_zero fun x hx => ?_
    obtain ⟨i, -, rfl⟩ := List.mem_map.mp hx
    rfl
  refine ⟨Table.acquireAll_fresh _ _, fun _ => acquireAll_stays s.table, fun {i} hi => ?_,
    fun {n m} hn => ⟨hcredit, ?_⟩⟩
  · have hsem : (s.table.objs i).type = .sem := by rwa [Table.acquireAll_type] at hi
    rw [hcredit, acquisitions_map hw (by simp [hsem]) hlive]
    by_cases hmem : i ∈ s.grants a
    · have hpos : 0 < (s.table.objs i).count := by simpa [satisfiedLocked, hsem] using hsat i hmem
      exact .grant rfl hmem hpos (Table.acquireAll_objs _ _ _)
    · rw [Table.acquireAll_not_mem _ hmem, List.count_eq_zero_of_not_mem hmem]
      exact .still rfl
  · rw [acquisitions, List.countP_eq_zero]
    intro e he
    obtain ⟨j, hj, rfl⟩ := List.mem_map.mp he
    have hlt := hw.identLt (hlive j hj)
    have hid : s.table.ident j ≠ n := by omega
    simp [Event.takes, hid]

/-- An effect creates an object or moves the counts of the old semaphores. -/
theorem Effect.counts (hw : C.table.Wf) (he : Effect s a C ev C') :
    (∃ i o, ev = .created C.table.fresh o :: initialHold o C.table.fresh ∧
      C'.table = C.table.put i o ∧ (o.type = .sem → a.newSemaphore = some (o.count, o.max))) ∨
    CountMoves s a C.table ev C'.table := by
  have hne {j : Nat} {ty : ObjType} {P : Prop} (hj : (C.table.objs j).type = ty) (h1 : ty ≠ .sem) :
      (C.table.objs j).type = .sem → P := fun hs => absurd (hj.symm.trans hs) h1
  cases he with
  | create _ _ _ _ _ _ hs _ =>
    refine .inl ⟨_, _, rfl, rfl, fun hty => ?_⟩
    obtain ⟨t, rfl⟩ := hs hty
    rfl
  | signal hty hk =>
    refine .inr (.store (fun _ => ⟨rfl, rfl, rfl, rfl⟩) (hne hty (by simp)) ?_)
    cases hk <;> simp [Event.takes]
  | release hty => exact .inr (.store mutates_release (hne hty (by simp)) (by simp [Event.takes]))
  | post ha hc hi hty =>
    subst ha
    exact .inr (.post hw hc rfl hi hty)
  | exit hty =>
    exact .inr (.store (fun _ => ⟨rfl, rfl, rfl, rfl⟩) (hne hty (by simp)) (by simp))
  | bump _ hty =>
    exact .inr (.store (fun _ => ⟨rfl, rfl, rfl, rfl⟩) (hne hty (by simp)) (by simp [Event.takes]))
  | close =>
    refine .inr (.quiet rfl (fun i hi => ?_) (by simp [Event.takes]))
    obtain ⟨hij, -⟩ := Table.release_live (T := C.table) (j := i) (by rw [hi]; simp)
    exact ⟨release_stays _ hij, by rw [Table.release_ne _ hij]⟩
  | grant hc hg ht hs hsat =>
    subst hc hg
    exact .inr (.grant hw hsat)
  | sleep =>
    rw [setSleep_table]
    exact .inr (.store (fun _ => ⟨rfl, rfl, rfl, rfl⟩) (fun _ => rfl) (by simp))
  | wake =>
    rw [setSleep_table]
    exact .inr (.store (fun _ => ⟨rfl, rfl, rfl, rfl⟩) (fun _ => rfl) (by simp [Event.takes]))
  | abandon => exact .inr (.quiet rfl (fun i hi => ⟨.refl _ i, rfl⟩) (by simp))

-- ---------------------------------------------------------------------------
-- The account balances
-- ---------------------------------------------------------------------------

theorem postCount_eq (hl : -longMax - 1 ≤ o.count + n) (hu : o.count + n ≤ longMax) :
    postCount o n = o.count + credit o.max o.count n := by
  simp only [postCount, credit, cLong_eq hl hu]
  split <;> omega

theorem acquire_sem_iterate {o : SyncObj} {k : Nat} (hty : o.type = .sem) (h0 : 0 < o.count)
    (hu : o.count ≤ longMax) (hk : k ≤ 64) :
    (acquireLocked · t)^[k] o = { o with count := o.count - k } := by
  induction k with
  | zero => simp
  | succ k ih =>
    rw [Function.iterate_succ_apply', ih (by omega)]
    simp only [acquireLocked, hty, SyncObj.mk.injEq, and_self, true_and, and_true]
    rw [cLong_eq (by unfold longMax; omega) (by omega)]
    omega

theorem CountMove.account (h : CountMove s a i o o' c k) (hok : CountsFit s a) (hty : o.type = .sem)
    (hu : o.count ≤ longMax) : o'.count = o.count + c - k ∧ o'.count ≤ longMax := by
  cases h with
  | still hc =>
    rw [hc]
    exact ⟨by simp, hu⟩
  | post ha hi ho hc =>
    obtain ⟨h1, h2⟩ := hok.2 _ ha i hi
    rw [← ho] at h1 h2
    rw [hc, postCount_eq h1 h2]
    refine ⟨by simp, ?_⟩
    unfold credit
    split <;> omega
  | grant _ _ hpos hc =>
    have hk : (s.grants a).count i ≤ 64 := Nat.le_trans List.count_le_length (grants_length s a)
    rw [hc, acquire_sem_iterate hty hpos hu hk]
    exact ⟨by simp, by dsimp only; omega⟩

structure SemInv (evs : List Event) (T : Table) : Prop where
  account : (T.objs i).type = .sem → ∃ o, .created (T.ident i) o ∈ evs ∧ o.max = (T.objs i).max ∧
    (T.objs i).count = o.count + credited evs (T.ident i) (T.objs i).max - acquisitions evs (T.ident i)
  fits : (T.objs i).type = .sem → (T.objs i).count ≤ longMax
  unborn : T.fresh ≤ n → credited evs n m = 0 ∧ acquisitions evs n = 0

theorem init_sem : SemInv [] Table.init := by
  refine ⟨fun h => ?_, fun h => ?_, fun _ => ⟨rfl, rfl⟩⟩ <;> cases h

theorem SemInv.create (h : SemInv evs T) (hw : T.Wf) (hfits : o.type = .sem → o.count ≤ longMax) :
    SemInv (evs ++ .created T.fresh o :: initialHold o T.fresh) (T.put i o) := by
  have hnew {n : Nat} {m : Int} (hn : n ≠ T.fresh ∨ o.type = .sem) :
      credited (.created T.fresh o :: initialHold o T.fresh) n m = 0 ∧
        acquisitions (.created T.fresh o :: initialHold o T.fresh) n = 0 := by
    unfold initialHold
    rcases hn with hn | hn
    · split <;> simp [credited, creditOf, acquisitions, Event.takes, Ne.symm hn]
    · simp [hn, credited, creditOf, acquisitions, Event.takes]
  refine ⟨fun {j} hj => ?_, fun {j} hj => ?_, fun {n m} hn => ?_⟩
  · by_cases hji : j = i
    · subst hji
      rw [Table.put_self] at hj ⊢
      obtain ⟨h1, h2⟩ := h.unborn (m := o.max) (Nat.le_refl T.fresh)
      obtain ⟨h3, h4⟩ := hnew (n := T.fresh) (m := o.max) (.inr hj)
      refine ⟨o, by simp, rfl, ?_⟩
      rw [Table.put_ident_self, credited_append, acquisitions_append, h1, h2, h3, h4]
      simp
    · rw [Table.put_ne _ hji] at hj ⊢
      rw [Table.put_ident_ne _ hji]
      have hlt := hw.identLt (i := j) (by simp [hj])
      obtain ⟨o', ho, hm, ha⟩ := h.account hj
      obtain ⟨h1, h2⟩ := hnew (m := (T.objs j).max) (.inl (Nat.ne_of_lt hlt))
      refine ⟨o', List.mem_append_left _ ho, hm, ?_⟩
      rw [credited_append, acquisitions_append, h1, h2, ha]
      omega
  · by_cases hji : j = i
    · subst hji
      rw [Table.put_self] at hj ⊢
      exact hfits hj
    · rw [Table.put_ne _ hji] at hj ⊢
      exact h.fits hj
  · rw [Table.put_fresh] at hn
    obtain ⟨h1, h2⟩ := h.unborn (n := n) (m := m) (by omega)
    obtain ⟨h3, h4⟩ := hnew (n := n) (m := m) (.inl (by omega))
    rw [credited_append, acquisitions_append, h1, h2, h3, h4]
    exact ⟨rfl, rfl⟩

theorem SemInv.move (h : SemInv evs T) (hok : CountsFit s a) (hm : CountMoves s a T ev T') :
    SemInv (evs ++ ev) T' := by
  have hone {i : Nat} (hi : (T'.objs i).type = .sem) : (T.objs i).type = .sem ∧
      (T'.objs i).count = (T.objs i).count + credited ev (T.ident i) (T.objs i).max -
        acquisitions ev (T.ident i) ∧ (T'.objs i).count ≤ longMax := by
    have hty : (T.objs i).type = .sem := (hm.stays hi).type ▸ hi
    exact ⟨hty, (hm.moves hi).account hok hty (h.fits hty)⟩
  refine ⟨fun {i} hi => ?_, fun hi => (hone hi).2.2, fun {n x} hn => ?_⟩
  · obtain ⟨hty, hc, -⟩ := hone hi
    obtain ⟨o, ho, hmax, ha⟩ := h.account hty
    have hst := hm.stays hi
    refine ⟨o, ?_, hmax.trans hst.max.symm, ?_⟩
    · rw [hst.ident]
      exact List.mem_append_left _ ho
    · rw [hc, ha, hst.ident, hst.max, credited_append, acquisitions_append]
      omega
  · rw [hm.fresh] at hn
    obtain ⟨h1, h2⟩ := h.unborn (n := n) (m := x) hn
    obtain ⟨h3, h4⟩ := hm.unborn (n := n) (m := x) hn
    rw [credited_append, acquisitions_append, h1, h2, h3, h4]
    exact ⟨rfl, rfl⟩

theorem effect_sem (hok : CountsFit s a) (hw : C.table.Wf) (h : SemInv evs C.table)
    (he : Effect s a C ev C') : SemInv (evs ++ ev) C'.table := by
  rcases he.counts hw with ⟨i, o, rfl, hT, hnew⟩ | hm
  · rw [hT]
    exact h.create hw fun hty => hok.1 _ (hnew hty)
  · exact h.move hok hm

theorem run_sem (h : Run step CountsFit .init tr s) : SemInv (Trace.events tr) s.table :=
  run_effects (P := fun evs C => SemInv evs C.table) h init_sem fun _ hok hw hp he =>
    effect_sem hok hw hp he

-- ---------------------------------------------------------------------------
-- The bounds
-- ---------------------------------------------------------------------------

def Bounded (T : Table) : Prop :=
  ∀ i, (T.objs i).type = .sem →
    0 ≤ (T.objs i).count ∧ (T.objs i).count ≤ (T.objs i).max ∧ 0 < (T.objs i).max

theorem CountMove.bounded (h : CountMove s a i o o' c k) (hok : CountsFit s a)
    (hr : PermitRules s a) (hty : o.type = .sem) (hu : o.count ≤ longMax) (h0 : 0 ≤ o.count)
    (hmax : o.count ≤ o.max) (hpos : 0 < o.max) : 0 ≤ o'.count ∧ o'.count ≤ o.max := by
  obtain ⟨hc, -⟩ := h.account hok hty hu
  cases h with
  | still => omega
  | post ha =>
    have hn := hr.2.1 _ ha
    unfold credit at hc
    split at hc <;> omega
  | grant ho hi hp =>
    have hone := hr.2.2 i hi (ho ▸ hty)
    omega

theorem effect_bounded (hok : CountsFit s a) (hr : PermitRules s a) (hw : C.table.Wf)
    (h : SemInv evs C.table) (hb : Bounded C.table) (he : Effect s a C ev C') : Bounded C'.table := by
  intro i hi
  rcases he.counts hw with ⟨j, o, rfl, hT, hnew⟩ | hm
  · rw [hT] at hi ⊢
    by_cases hij : i = j
    · subst hij
      rw [Table.put_self] at hi ⊢
      exact hr.1 _ (hnew hi)
    · rw [Table.put_ne _ hij] at hi ⊢
      exact hb i hi
  · have hst := hm.stays hi
    have hty : (C.table.objs i).type = .sem := hst.type ▸ hi
    obtain ⟨h0, hmax, hpos⟩ := hb i hty
    obtain ⟨h1, h2⟩ := (hm.moves hi).bounded hok hr hty (h.fits hty) h0 hmax hpos
    rw [hst.max]
    exact ⟨h1, h2, hpos⟩

theorem run_bounded (h : Run step (fun s a => CountsFit s a ∧ PermitRules s a) .init tr s) :
    Bounded s.table := by
  have hboth := run_effects (P := fun evs C => SemInv evs C.table ∧ Bounded C.table) h
    ⟨init_sem, fun i hi => by cases hi⟩
    fun _ hok hw hp he => ⟨effect_sem hok.1 hw hp.1 he, effect_bounded hok.1 hok.2 hw hp.1 hp.2 he⟩
  exact hboth.2

-- ---------------------------------------------------------------------------
-- The law
-- ---------------------------------------------------------------------------

theorem releaseSemaphore_found (hf : Free s t) (hi : s.table.findLocked k = some i)
    (hty : (s.table.objs i).type = .sem) : step s (.call t (.releaseSemaphore k n)) =
      some ((s.setTable (s.table.modify i fun o => { o with count := postCount o n })).broadcast,
        ⟨some 1, [.posted (s.table.ident i) (s.table.objs i).count n]⟩) := by
  simp only [step, hf, runOp, releaseSemaphore, hi, hty, ↓reduceIte]

/-- Along every run permits are conserved, where a release counts for what it
added; a release beyond the maximum fills the semaphore up and succeeds; and
the counts of well-used semaphores stay within their bounds. -/
theorem semaphore_law (h : Run step CountsFit .init tr s) :
    (∀ i, (s.table.objs i).type = .sem → ∃ o, .created (s.table.ident i) o ∈ Trace.events tr ∧
      o.max = (s.table.objs i).max ∧ (s.table.objs i).count =
        o.count + credited (Trace.events tr) (s.table.ident i) o.max -
          acquisitions (Trace.events tr) (s.table.ident i)) ∧
    (∀ t k n i, Free s t → s.table.findLocked k = some i → (s.table.objs i).type = .sem →
      CountsFit s (.call t (.releaseSemaphore k n)) → 0 < (s.table.objs i).max →
      (s.table.objs i).max < (s.table.objs i).count + n →
      ∃ s', step s (.call t (.releaseSemaphore k n)) = some (s', ⟨some 1,
          [.posted (s.table.ident i) (s.table.objs i).count n]⟩) ∧
        (s'.table.objs i).count = (s.table.objs i).max) ∧
    (Run step (fun s a => CountsFit s a ∧ PermitRules s a) .init tr s →
      ∀ i, (s.table.objs i).type = .sem →
        0 ≤ (s.table.objs i).count ∧ (s.table.objs i).count ≤ (s.table.objs i).max) := by
  refine ⟨fun i hi => ?_, ?_, fun hr i hi => ?_⟩
  · obtain ⟨o, ho, hm, ha⟩ := (run_sem h).account hi
    exact ⟨o, ho, hm, by rw [ha, hm]⟩
  · intro t k n i hf hi hty hfits hpos hover
    obtain ⟨hl, hu⟩ := hfits.2 (k, n) rfl i hi
    refine ⟨_, releaseSemaphore_found hf hi hty, ?_⟩
    show ((s.table.modify i fun o => { o with count := postCount o n }).objs i).count = _
    rw [Table.modify_self]
    simp only [postCount_eq hl hu, credit, hpos, hover, and_self, ↓reduceIte]
    omega
  · obtain ⟨h0, hm, -⟩ := run_bounded hr i hi
    exact ⟨h0, hm⟩

-- ---------------------------------------------------------------------------
-- Runs
-- ---------------------------------------------------------------------------

/-- Two threads share three permits; one release is cut to what fits. -/
def sharing : List Action :=
  [.call 1 (.createSemaphore 2 3), .waitSingle 1 syncBase 0, .waitMultiple 2 [syncBase] true 0,
    .waitSingle 1 syncBase 100, .call 2 (.releaseSemaphore syncBase 1), .resume 1,
    .call 2 (.releaseSemaphore syncBase 5)]

theorem semaphore_law_sharing : ∃ tr s o, Run step CountsFit .init tr s ∧
    (s.table.objs 0).count = 3 ∧ .created (s.table.ident 0) o ∈ Trace.events tr ∧
    3 = o.count + credited (Trace.events tr) (s.table.ident 0) o.max -
      acquisitions (Trace.events tr) (s.table.ident 0) := by
  have hexec : (exec step (fun s a => CountsFit s a ∧ PermitRules s a) .init sharing).any (fun r =>
      decide ((r.2.table.objs 0).type = .sem ∧ (r.2.table.objs 0).count = 3)) = true := by
    decide +kernel
  obtain ⟨tr, s, hr, hp⟩ := Run.of_exec_any hexec
  obtain ⟨hty, hc⟩ := of_decide_eq_true hp
  have hfits := hr.mono fun _ _ h => h.1
  obtain ⟨o, ho, -, ha⟩ := (semaphore_law hfits).1 0 hty
  rw [hc] at ha
  exact ⟨tr, s, o, hfits, hc, ho, ha⟩

/-- The count in slot 0 after a run of `as`, and what the last step returned. -/
def countAfter (as : List Action) : Option (Int × Option Nat) :=
  (exec step anyStep .init as).map fun r =>
    ((r.2.table.objs 0).count, (r.1.getLast?.map (·.2.ret)).join)

/-- A release past the maximum succeeds and loses permits; a wait for all of
one semaphore twice takes more than there are; a semaphore can be created
above its maximum, a release can take permits, and a count can wrap. -/
theorem semaphore_strays :
    countAfter [.call 1 (.createSemaphore 1 1), .call 1 (.releaseSemaphore syncBase 1)] =
      some (1, some 1) ∧
    countAfter [.call 1 (.createSemaphore 1 1), .waitMultiple 1 [syncBase, syncBase] true 0] =
      some (-1, some waitObject0) ∧
    countAfter [.call 1 (.createSemaphore 2 1)] = some (2, some syncBase) ∧
    countAfter [.call 1 (.createSemaphore 1 1), .call 1 (.releaseSemaphore syncBase (-2))] =
      some (-1, some 1) ∧
    countAfter [.call 1 (.createSemaphore longMax 0), .call 1 (.releaseSemaphore syncBase 1)] =
      some (-longMax - 1, some 1) := by
  decide +kernel

end WineGlass.Sync
