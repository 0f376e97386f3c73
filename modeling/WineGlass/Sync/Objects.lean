import WineGlass.Sync.Threads

/-!
# Objects between two steps

An object keeps its slot, its handle and what it was created with until it is
closed (`Stays`), a slot found through a handle holds that object or nothing
while nothing is created there (`Spot`), and every object goes back to one
creation (`Origin`).
-/

namespace WineGlass.Sync

open Runs CInt

/-- Some thread acquired object `n`. -/
def Event.takes (n : Nat) : Event → Bool
  | .acquired _ m => m == n
  | _ => false

/-- Slot `i` is not closed by action `a`. -/
def State.Spares (s : State) (a : Action) (i : Nat) : Prop :=
  ∀ t h, a = .call t (.close h) → s.table.findLocked h ≠ some i

/-- The object in slot `i` lives on, with what it was created with. -/
structure Stays (T T' : Table) (i : Nat) : Prop where
  type : (T'.objs i).type = (T.objs i).type
  handle : (T'.objs i).handle = (T.objs i).handle
  manual : (T'.objs i).manual = (T.objs i).manual
  max : (T'.objs i).max = (T.objs i).max
  ident : T'.ident i = T.ident i

theorem Stays.refl (T : Table) (i : Nat) : Stays T T i := ⟨rfl, rfl, rfl, rfl, rfl⟩

theorem Stays.trans (h : Stays T₁ T₂ i) (h' : Stays T₂ T₃ i) : Stays T₁ T₃ i :=
  ⟨h'.type.trans h.type, h'.handle.trans h.handle, h'.manual.trans h.manual, h'.max.trans h.max,
    h'.ident.trans h.ident⟩

/-- A store to fields an object is not created for good with. -/
def Mutates (f : SyncObj → SyncObj) : Prop :=
  ∀ o, (f o).type = o.type ∧ (f o).handle = o.handle ∧ (f o).manual = o.manual ∧ (f o).max = o.max

theorem Mutates.stays {f : SyncObj → SyncObj} (hf : Mutates f) (T : Table) :
    Stays T (T.modify j f) i := by
  by_cases hij : i = j
  · subst hij
    obtain ⟨h1, h2, h3, h4⟩ := hf (T.objs i)
    constructor <;> first | rwa [Table.modify_self] | rfl
  · constructor <;> first | rw [Table.modify_ne _ hij] | rfl

theorem mutates_acquire (t : Nat) : Mutates (acquireLocked · t) := by
  intro o
  cases h : o.type <;> simp only [acquireLocked, h, and_self]
  split <;> simp [h]

theorem mutates_release : Mutates releaseOnce := by
  intro o
  unfold releaseOnce
  split <;> exact ⟨rfl, rfl, rfl, rfl⟩

theorem acquireAll_stays (T : Table) : Stays T (T.acquireAll t is) i := by
  induction is generalizing T with
  | nil => exact .refl T i
  | cons j is ih => exact ((mutates_acquire t).stays T).trans (ih _)

theorem put_stays (T : Table) (h : i ≠ j) : Stays T (T.put j o) i := by
  constructor <;> first | rw [Table.put_ne _ h] | exact Table.put_ident_ne _ h

theorem release_stays (T : Table) (h : i ≠ j) : Stays T (T.release j) i := by
  constructor <;> first | rw [Table.release_ne _ h] | rfl

theorem Effect.stays (h : Effect s a C ev C') (hi : (C.table.objs i).type ≠ .free)
    (ha : s.Spares a i) : Stays C.table C'.table i := by
  cases h with
  | create _ _ hfree =>
    refine put_stays _ ?_
    rintro rfl
    exact hi hfree
  | close hc _ hf =>
    refine release_stays _ ?_
    rintro rfl
    exact ha _ _ hc hf
  | release => exact mutates_release.stays _
  | signal | post | exit | bump =>
    rw [modify_table]
    refine Mutates.stays ?_ _
    exact fun _ => ⟨rfl, rfl, rfl, rfl⟩
  | sleep | wake =>
    rw [setSleep_table, modify_table]
    refine Mutates.stays ?_ _
    exact fun _ => ⟨rfl, rfl, rfl, rfl⟩
  | grant => exact acquireAll_stays _
  | abandon => exact .refl _ _

theorem Effects.stays (h : Effects s a C ev C') (hi : (C.table.objs i).type ≠ .free)
    (ha : s.Spares a i) : Stays C.table C'.table i := by
  induction h with
  | nil => exact .refl _ _
  | cons he _ ih =>
    have hst := he.stays hi ha
    exact hst.trans (ih (by rwa [hst.type]))

theorem Stays.find {T T' : Table} (h : Stays T T' i) (hf : T.findLocked k = some i) :
    T'.findLocked k = some i := by
  rw [Table.findLocked_eq_some] at hf ⊢
  rwa [h.type, h.handle]

theorem step_stays (hs : Sane s) (h : step s a = some (s', l)) (hi : (s.table.objs i).type ≠ .free)
    (ha : s.Spares a i) : Stays s.table s'.table i := (step_effects hs.noZero h).stays hi ha

theorem step_spares (h : step s a = some (s', l)) (hc : .closed (s.table.ident i) ∉ l.events) :
    s.Spares a i := by
  rintro t k rfl hk
  simp only [step, Option.ite_none_right_eq_some, Option.some.injEq, runOp, close, hk] at h
  obtain rfl : _ = l := congrArg Prod.snd h.2
  exact hc List.mem_cons_self

/-- An object stays through a step that does not show it closed. -/
theorem step_open (hs : Sane s) (h : step s a = some (s', l)) (hi : (s.table.objs i).type ≠ .free)
    (hc : .closed (s.table.ident i) ∉ l.events) : Stays s.table s'.table i :=
  step_stays hs h hi (step_spares h hc)

theorem run_open (h : Run step ok s tr s') (hs : Sane s) (hi : (s.table.objs i).type ≠ .free)
    (hc : .closed (s.table.ident i) ∉ Trace.events tr) :
    Sane s' ∧ Stays s.table s'.table i := by
  induction h with
  | nil => exact ⟨hs, .refl _ i⟩
  | snoc _ _ hst ih =>
    rw [events_snoc, List.mem_append, not_or] at hc
    obtain ⟨hs₁, hstay⟩ := ih hc.1
    refine ⟨step_sane hs₁ hst, hstay.trans (step_open hs₁ hst ?_ ?_)⟩
    · rwa [hstay.type]
    · rw [hstay.ident]
      exact hc.2

/-- Slot `i` since the object numbered `n`, of type `ty`, was found there:
the object lives in it until it is closed, and nothing moves in after. -/
structure Spot (evs : List Event) (T : Table) (i n : Nat) (ty : ObjType) : Prop where
  ident : T.ident i = n
  type : (T.objs i).type = if .closed n ∈ evs then .free else ty

theorem Spot.start (T : Table) (hty : (T.objs i).type = ty) : Spot [] T i (T.ident i) ty :=
  ⟨rfl, by simpa using hty⟩

theorem Spot.keep (h : Spot evs T i n ty) (hs : Stays T T' i) (hev : .closed n ∉ ev) :
    Spot (evs ++ ev) T' i n ty := by
  refine ⟨hs.ident.trans h.ident, ?_⟩
  rw [hs.type, h.type]
  simp [hev]

theorem Effect.spot (h : Effect s a C ev C') (hw : C.table.Wf) (ha : ¬ s.Creates a i)
    (hs : Spot evs C.table i n ty) (hty : ty ≠ .free) : Spot (evs ++ ev) C'.table i n ty := by
  cases h with
  | create hc =>
    refine hs.keep (put_stays _ ?_) ?_
    · rintro rfl
      exact ha hc
    · unfold initialHold
      split <;> simp
  | @close _ _ _ j hc _ hf =>
    subst_vars
    have hlive := Table.findLocked_live hf
    by_cases hij : i = j
    · subst hij
      refine ⟨hs.ident, ?_⟩
      have hn : s.table.ident i = n := hs.ident
      simp [Table.release, hn]
    · by_cases hci : Event.closed n ∈ evs
      · refine ⟨hs.ident, ?_⟩
        rw [(release_stays _ hij).type, hs.type]
        simp [hci]
      · refine hs.keep (release_stays _ hij) ?_
        have hti : (s.core.table.objs i).type ≠ .free := by
          rw [hs.type, if_neg hci]
          exact hty
        rw [List.mem_singleton, Event.closed.injEq]
        intro hn
        exact hij (hw.identInj hti hlive (hs.ident.trans hn))
  | release => exact hs.keep (mutates_release.stays _) (by simp)
  | signal _ hk =>
    refine hs.keep ?_ (by cases hk <;> simp)
    rw [modify_table]
    refine Mutates.stays ?_ _
    exact fun _ => ⟨rfl, rfl, rfl, rfl⟩
  | post | exit | bump =>
    refine hs.keep ?_ (by simp)
    rw [modify_table]
    refine Mutates.stays ?_ _
    exact fun _ => ⟨rfl, rfl, rfl, rfl⟩
  | sleep | wake =>
    refine hs.keep ?_ (by simp)
    rw [setSleep_table, modify_table]
    refine Mutates.stays ?_ _
    exact fun _ => ⟨rfl, rfl, rfl, rfl⟩
  | grant => exact hs.keep (acquireAll_stays _) (by simp)
  | abandon => exact hs.keep (.refl _ _) (by simp)

theorem step_spot (hs : Sane s) (h : step s a = some (s', l)) (ha : ¬ s.Creates a i)
    (hsp : Spot evs s.table i n ty) (hty : ty ≠ .free) : Spot (evs ++ l.events) s'.table i n ty :=
  (step_effects hs.noZero h).invariant (P := fun evs C => Spot evs C.table i n ty) hs.wf hsp
    fun hw hp he => he.spot hw ha hp hty

/-- A handle finds the object it was given for, until that is closed. -/
theorem Spot.find (h : Spot evs T i n ty) (hw : T.Wf) (hty : ty ≠ .free) :
    T.findLocked (syncBase + i) = if .closed n ∈ evs then none else some i := by
  split
  · rename_i hc
    cases hf : T.findLocked (syncBase + i) with
    | none => rfl
    | some j =>
      obtain ⟨hj, -, hl, -⟩ := Table.findLocked_eq_some.mp hf
      obtain rfl : i = j := by omega
      rw [h.type, if_pos hc] at hl
      exact absurd rfl hl
  · rename_i hc
    rw [hw.find, h.type, if_neg hc]
    exact hty

theorem Table.modify_count {T : Table} (h : i = j → (f (T.objs i)).count = (T.objs i).count) :
    ((T.modify j f).objs i).count = (T.objs i).count := by
  by_cases hij : i = j
  · subst hij
    rw [Table.modify_self, h rfl]
  · rw [Table.modify_ne _ hij]

theorem modify_count {C : Core} (h : i = j → (f (C.table.objs i)).count = (C.table.objs i).count) :
    ((C.modify j f).table.objs i).count = (C.table.objs i).count := Table.modify_count h

/-- The generation of a condition variable, open or closed, moves only with a
wake, and an action moves it at most once. -/
theorem Effect.generation (h : Effect s a C ev C')
    (hty : (C.table.objs i).type = .cv ∨ (C.table.objs i).type = .free ∧ ¬ s.Creates a i) :
    (C'.table.objs i).count = (C.table.objs i).count ∨
    .woke (C.table.ident i) ∈ ev ∧ s.Bumps a i ∧
      (C.table.objs i).count = (s.table.objs i).count ∧
      (C'.table.objs i).count = cLong ((C.table.objs i).count + 1) := by
  have hnot {j : Nat} {ty : ObjType} (hj : (C.table.objs j).type = ty) (h1 : ty ≠ .cv)
      (h2 : ty ≠ .free) : i ≠ j := by
    rintro rfl
    rw [hj] at hty
    exact hty.elim h1 fun h => h2 h.1
  cases h with
  | create hc _ hfree =>
    refine .inl ?_
    rw [Table.put_ne]
    rintro rfl
    rcases hty with hty | ⟨-, hno⟩
    · rw [hfree] at hty
      cases hty
    · exact hno hc
  | signal | exit => exact .inl (modify_count fun _ => rfl)
  | release =>
    refine .inl (modify_count fun _ => ?_)
    unfold releaseOnce
    split <;> rfl
  | post _ _ _ hj => exact .inl (modify_count fun hij => absurd hij (hnot hj (by simp) (by simp)))
  | @bump j _ hb _ hc =>
    by_cases hij : i = j
    · subst hij
      exact .inr ⟨List.mem_cons_self, hb, hc, by simp [bumpCount]⟩
    · exact .inl (modify_count fun he => absurd he hij)
  | close =>
    refine .inl ?_
    show ((C.modify _ _).table.objs i).count = _
    exact modify_count fun _ => rfl
  | grant _ _ _ _ hsat =>
    refine .inl ?_
    rw [Table.acquireAll_not_mem]
    intro hi
    have h' := hsat i hi
    rcases hty with hty | ⟨hty, -⟩ <;> simp [satisfiedLocked, hty] at h'
  | sleep | wake =>
    rw [setSleep_table]
    exact .inl (modify_count fun _ => rfl)
  | abandon => exact .inl rfl

-- ---------------------------------------------------------------------------
-- Where objects come from
-- ---------------------------------------------------------------------------

/-- An effect puts a new object into a free slot, or leaves the numbering
alone and every object it leaves open as it was created. -/
theorem Effect.new_or_old (h : Effect s a C ev C') :
    (∃ i o, (C.table.objs i).type = .free ∧ o.type ≠ .free ∧
      ev = .created C.table.fresh o :: initialHold o C.table.fresh ∧
      C'.table = C.table.put i o ∧
      (o.type = .cv → o.count = 0)) ∨
    (∀ n o, .created n o ∉ ev) ∧ C'.table.fresh = C.table.fresh ∧
      ∀ i, (C'.table.objs i).type ≠ .free → Stays C.table C'.table i := by
  cases h with
  | create _ _ hfree ht _ _ _ hcv => exact .inl ⟨_, _, hfree, ht, rfl, rfl, hcv⟩
  | signal _ hk =>
    refine .inr ⟨by cases hk <;> simp, rfl, fun i _ => ?_⟩
    rw [modify_table]
    refine Mutates.stays ?_ _
    exact fun _ => ⟨rfl, rfl, rfl, rfl⟩
  | release => exact .inr ⟨by simp, rfl, fun i _ => mutates_release.stays _⟩
  | post | exit | bump =>
    refine .inr ⟨by simp, rfl, fun i _ => ?_⟩
    rw [modify_table]
    refine Mutates.stays ?_ _
    exact fun _ => ⟨rfl, rfl, rfl, rfl⟩
  | close => exact .inr ⟨by simp, rfl, fun i hi => release_stays _ (Table.release_live hi).1⟩
  | grant => exact .inr ⟨by simp, Table.acquireAll_fresh _ _, fun i _ => acquireAll_stays _⟩
  | sleep | wake =>
    refine .inr ⟨by simp, rfl, fun i _ => ?_⟩
    rw [setSleep_table, modify_table]
    refine Mutates.stays ?_ _
    exact fun _ => ⟨rfl, rfl, rfl, rfl⟩
  | abandon => exact .inr ⟨by simp, rfl, fun i _ => .refl _ i⟩

def Event.creates (n : Nat) : Event → Bool
  | .created m _ => m == n
  | _ => false

/-- Every object in use was created once, and as what it is. -/
structure Origin (evs : List Event) (T : Table) : Prop where
  known : (T.objs i).type ≠ .free → ∃ o, .created (T.ident i) o ∈ evs ∧
    o.type = (T.objs i).type ∧ o.manual = (T.objs i).manual ∧ o.max = (T.objs i).max
  old : .created n o ∈ evs → n < T.fresh
  once : .created n o ∈ evs → .created n o' ∈ evs → o = o'
  single (n : Nat) : evs.countP (Event.creates n) ≤ 1

theorem init_origin : Origin [] Table.init := by
  refine ⟨fun h => absurd rfl h, fun h => ?_, fun h => ?_, fun _ => Nat.zero_le 1⟩
  · cases h
  · cases h

theorem mem_initialHold_created : .created n o' ∉ initialHold o m := by
  unfold initialHold
  split <;> simp

theorem countP_creates_new (n : Nat) :
    (Event.created m o :: initialHold o m).countP (Event.creates n) = if m = n then 1 else 0 := by
  unfold initialHold
  by_cases hmn : m = n
  · split <;> simp [Event.creates, hmn]
  · split <;> simp [Event.creates, hmn]

theorem countP_creates_none {ev : List Event} (he : ∀ o, .created n o ∉ ev) : ev.countP (Event.creates n) = 0 := by
  rw [List.countP_eq_zero]
  intro e hmem
  cases e with
  | created m o =>
    simp only [Event.creates, beq_iff_eq]
    rintro rfl
    exact he o hmem
  | _ => simp [Event.creates]

theorem Effect.origin (h : Effect s a C ev C') (ho : Origin evs C.table) :
    Origin (evs ++ ev) C'.table := by
  rcases h.new_or_old with ⟨i, o, hfree, -, rfl, hT, -⟩ | ⟨hev, hfresh, hstay⟩
  · rw [hT]
    have hmem {n : Nat} {o' : SyncObj}
        (hc : .created n o' ∈ evs ++ .created C.table.fresh o :: initialHold o C.table.fresh) :
        .created n o' ∈ evs ∨ n = C.table.fresh ∧ o' = o := by
      rw [List.mem_append, List.mem_cons, Event.created.injEq] at hc
      exact hc.imp_right fun h => h.resolve_right mem_initialHold_created
    refine ⟨?_, fun hc => ?_, fun h₁ h₂ => ?_, fun n => ?_⟩
    · intro j hj
      by_cases hji : j = i
      · subst hji
        exact ⟨o, by simp⟩
      · rw [Table.put_ne _ hji, Table.put_ident_ne _ hji] at *
        obtain ⟨o', hc, hk⟩ := ho.known hj
        exact ⟨o', List.mem_append_left _ hc, hk⟩
    · rcases hmem hc with hc | ⟨rfl, -⟩
      · exact Nat.lt_succ_of_lt (ho.old hc)
      · exact Nat.lt_succ_self _
    · rcases hmem h₁ with h₁' | ⟨hn, rfl⟩ <;> rcases hmem h₂ with h₂' | ⟨hn', rfl⟩
      · exact ho.once h₁' h₂'
      · have hlt := ho.old h₁'
        omega
      · have hlt := ho.old h₂'
        omega
      · rfl
    · rw [List.countP_append, countP_creates_new]
      split
      · rename_i hn
        have hnone : evs.countP (Event.creates n) = 0 := by
          refine countP_creates_none fun o' ho' => ?_
          have hlt := ho.old ho'
          omega
        rw [hnone]
      · exact ho.single n
  · have hmem {n : Nat} {o : SyncObj} (hc : .created n o ∈ evs ++ ev) : .created n o ∈ evs :=
      (List.mem_append.mp hc).resolve_right (hev n o)
    refine ⟨fun {i} hi => ?_, fun hc => ?_, fun h₁ h₂ => ho.once (hmem h₁) (hmem h₂), fun n => ?_⟩
    · have hs := hstay i hi
      obtain ⟨o, hc, h1, h2, h3⟩ := ho.known (hs.type ▸ hi)
      exact ⟨o, List.mem_append_left _ (hs.ident ▸ hc), h1.trans hs.type.symm, h2.trans hs.manual.symm,
        h3.trans hs.max.symm⟩
    · rw [hfresh]
      exact ho.old (hmem hc)
    · rw [List.countP_append, countP_creates_none (hev n)]
      exact ho.single n

theorem run_origin (h : Run step ok .init tr s) : Origin (Trace.events tr) s.table :=
  run_effects (P := fun evs C => Origin evs C.table) h init_origin fun _ _ _ ho he => he.origin ho

end WineGlass.Sync
