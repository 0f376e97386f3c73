import WineGlass.Sync.Objects

/-!
# Auto-reset events

A signal is a token: `wg_sync_set_event` makes at most one, a wait that
succeeds uses it up, and `pending` says whether there is one. One inequality
says tokens are never duplicated, another that only a reset, a pulse or a
close destroys one.
-/

namespace WineGlass.Sync

open Runs

-- ---------------------------------------------------------------------------
-- Tokens
-- ---------------------------------------------------------------------------

/-- A step that used object `n`. -/
def Label.uses (n : Nat) (l : Label) : Bool := l.events.any (Event.takes n)

/-- How many calls used object `n`. -/
def consumers (tr : Trace) (n : Nat) : Nat := tr.countP (·.2.uses n)

def Event.starts (n : Nat) : Event → Bool
  | .created m o => m == n && o.signalled
  | _ => false

/-- The tokens made of event `n`, by its creation and by sets. -/
def signals (evs : List Event) (n : Nat) : Nat := evs.countP (Event.starts n) + evs.count (.set n)

/-- The event numbered `n` is open and signalled. -/
def Lit (T : Table) (n : Nat) : Prop :=
  ∃ i, (T.objs i).type = .event ∧ T.ident i = n ∧ (T.objs i).signalled = true

open Classical in
noncomputable def pending (T : Table) (n : Nat) : Nat := if Lit T n then 1 else 0

/-- Object `n`, where it is open, is an auto-reset event. -/
def AutoEvent (T : Table) (n : Nat) : Prop :=
  ∀ i, (T.objs i).type ≠ .free → T.ident i = n →
    (T.objs i).type = .event ∧ (T.objs i).manual = false

def NoKick (_ : State) (a : Action) : Prop := ¬a.IsKick

/-- Nothing destroys the token of event `n`. -/
def Untouched (evs : List Event) (n : Nat) : Prop :=
  .reset n ∉ evs ∧ .pulsed n ∉ evs ∧ .closed n ∉ evs

@[simp] theorem signals_append (evs ev : List Event) (n : Nat) :
    signals (evs ++ ev) n = signals evs n + signals ev n := by
  simp only [signals, List.countP_append, List.count_append]
  omega

@[simp] theorem consumers_snoc (tr : Trace) (a : Action) (l : Label) (n : Nat) :
    consumers (tr ++ [(a, l)]) n = consumers tr n + (l.uses n).toNat := by
  cases h : l.uses n <;> simp [consumers, h]

theorem pending_lit (h : Lit T n) : pending T n = 1 := if_pos h
theorem pending_unlit (h : ¬Lit T n) : pending T n = 0 := if_neg h

theorem pending_congr (h : Lit T' n ↔ Lit T n) : pending T' n = pending T n := by
  by_cases hl : Lit T n
  · rw [pending_lit hl, pending_lit (h.mpr hl)]
  · rw [pending_unlit hl, pending_unlit fun h' => hl (h.mp h')]

theorem pending_le (T : Table) (n : Nat) : pending T n ≤ 1 := by
  unfold pending
  split <;> decide

/-- An event's token is its signalled flag. -/
theorem lit_iff (hw : T.Wf) (hi : (T.objs i).type = .event) :
    Lit T (T.ident i) ↔ (T.objs i).signalled = true := by
  constructor
  · rintro ⟨j, hj, hid, hs⟩
    obtain rfl := hw.identInj (i := j) (j := i) (by simp [hj]) (by simp [hi]) hid
    exact hs
  · exact fun hs => ⟨i, hi, rfl, hs⟩

theorem lit_modify {f : SyncObj → SyncObj} (hf : Mutates f)
    (hs : (T.objs j).type = .event → T.ident j = n → (f (T.objs j)).signalled = (T.objs j).signalled) :
    Lit (T.modify j f) n ↔ Lit T n := by
  have hone (i : Nat) (hty : (T.objs i).type = .event) (hid : T.ident i = n) :
      ((T.modify j f).objs i).signalled = (T.objs i).signalled := by
    by_cases hij : i = j
    · subst hij
      rw [Table.modify_self, hs hty hid]
    · rw [Table.modify_ne _ hij]
  constructor
  · rintro ⟨i, hty, hid, hsig⟩
    rw [(hf.stays T).type] at hty
    exact ⟨i, hty, hid, by rwa [hone i hty hid] at hsig⟩
  · rintro ⟨i, hty, hid, hsig⟩
    exact ⟨i, by rwa [(hf.stays T).type], hid, by rwa [hone i hty hid]⟩

-- ---------------------------------------------------------------------------
-- What one effect does to a token
-- ---------------------------------------------------------------------------

/-- The balance of event `n` over events `ev`, from table `T` to table `T'`. -/
structure Balance (n : Nat) (T : Table) (ev : List Event) (T' : Table) : Prop where
  atMost : (ev.any (Event.takes n)).toNat + pending T' n ≤ pending T n + signals ev n
  atLeast : Untouched ev n → pending T n ≤ pending T' n + (ev.any (Event.takes n)).toNat

theorem Balance.same (h : Lit T' n ↔ Lit T n)
    (he : ev.any (Event.takes n) = false) : Balance n T ev T' := by
  refine ⟨?_, fun _ => ?_⟩ <;> rw [he, pending_congr h]
  · simp
  · simp

theorem Balance.store {C : Core} (hf : Mutates f) (hs : ∀ o, (f o).signalled = o.signalled)
    (he : ev.any (Event.takes n) = false) : Balance n C.table ev (C.modify j f).table :=
  .same (lit_modify hf fun _ _ => hs _) he

theorem acquire_auto (hty : o.type = .event) (hm : o.manual = false) :
    (acquireLocked o t).signalled = false := by
  simp [acquireLocked, hty, hm]

theorem acquire_auto_iterate (hty : o.type = .event) (hm : o.manual = false) (k : Nat) :
    ((acquireLocked · t)^[k + 1] o).signalled = false := by
  rw [Function.iterate_succ_apply']
  have hkeep : ((acquireLocked · t)^[k] o).type = .event ∧
      ((acquireLocked · t)^[k] o).manual = false := by
    induction k with
    | zero => exact ⟨hty, hm⟩
    | succ k ih =>
      rw [Function.iterate_succ_apply']
      obtain ⟨h1, -, h3, -⟩ := mutates_acquire t ((acquireLocked · t)^[k] o)
      exact ⟨h1.trans ih.1, h3.trans ih.2⟩
  exact acquire_auto hkeep.1 hkeep.2

theorem Balance.grant {T : Table} {is : List Nat} (hw : T.Wf) (hauto : AutoEvent T n)
    (hsat : ∀ i ∈ is, satisfiedLocked (T.objs i) t) :
    Balance n T (is.map (.acquired t <| T.ident ·)) (T.acquireAll t is) := by
  have hlive : ∀ j ∈ is, (T.objs j).type ≠ .free := fun j hj => satisfied_live (hsat j hj)
  by_cases htaken : ∃ i ∈ is, T.ident i = n
  · obtain ⟨i, hi, hid⟩ := htaken
    obtain ⟨hty, hm⟩ := hauto i (hlive i hi) hid
    have hsig : (T.objs i).signalled = true := by simpa [satisfiedLocked, hty] using hsat i hi
    have hany : (is.map (Event.acquired t <| T.ident ·)).any (Event.takes n) = true := by
      simp only [List.any_map, List.any_eq_true]
      exact ⟨i, hi, by simp [Event.takes, hid]⟩
    have hout : ¬Lit (T.acquireAll t is) n := by
      rintro ⟨j, hj, hjd, hs⟩
      rw [Table.acquireAll_type] at hj
      rw [Table.acquireAll_ident] at hjd
      obtain rfl := hw.identInj (i := j) (j := i) (by simp [hj]) (hlive i hi) (hjd.trans hid.symm)
      obtain ⟨k, hk⟩ := Nat.exists_eq_succ_of_ne_zero (Nat.ne_of_gt (List.count_pos_iff.mpr hi))
      rw [Table.acquireAll_objs, hk, acquire_auto_iterate hty hm k] at hs
      cases hs
    have hin : pending T n = 1 := pending_lit ⟨i, hty, hid, hsig⟩
    refine ⟨?_, fun _ => ?_⟩ <;> rw [hany, hin, pending_unlit hout]
    · simp
    · simp
  · refine .same ?_ ?_
    · have hsame {i : Nat} (hid : T.ident i = n) : (T.acquireAll t is).objs i = T.objs i :=
        Table.acquireAll_not_mem _ fun hi => htaken ⟨i, hi, hid⟩
      constructor <;> rintro ⟨i, hty, hid, hs⟩
      · rw [Table.acquireAll_ident] at hid
        rw [hsame hid] at hty hs
        exact ⟨i, hty, hid, hs⟩
      · exact ⟨i, by rwa [hsame hid], by rwa [Table.acquireAll_ident], by rwa [hsame hid]⟩
    · rw [List.any_eq_false]
      intro e he
      obtain ⟨i, hi, rfl⟩ := List.mem_map.mp he
      simp only [Event.takes, beq_iff_eq]
      exact fun hid => htaken ⟨i, hi, hid⟩

theorem Balance.signal {T : Table} (hw : T.Wf) (hk : ¬a.IsKick)
    (hty : (T.objs j).type = .event) (h : Signals a (T.ident j) b e) :
    Balance n T [e] (T.modify j ({ · with signalled := b })) := by
  have hf : Mutates ({ · with signalled := b }) := fun _ => ⟨rfl, rfl, rfl, rfl⟩
  by_cases hid : T.ident j = n
  · subst hid
    have hle := pending_le (T.modify j ({ · with signalled := b })) (T.ident j)
    have hle' := pending_le T (T.ident j)
    have hlit : Lit (T.modify j ({ · with signalled := b })) (T.ident j) ↔ b = true := by
      have hty' : ((T.modify j ({ · with signalled := b })).objs j).type = .event := by
        rwa [(hf.stays T).type]
      have hw' : (T.modify j ({ · with signalled := b })).Wf := by
        refine hw.modify ?_
        exact fun _ => ⟨rfl, rfl⟩
      have hiff := lit_iff hw' hty'
      rw [Table.modify_self] at hiff
      exact hiff
    cases h with
    | set =>
      refine ⟨?_, fun _ => ?_⟩
      · simp [Event.takes, signals, Event.starts]
        omega
      · rw [pending_lit (hlit.mpr rfl)]
        omega
    | reset | pulsed =>
      refine ⟨?_, fun hu => absurd hu (by simp [Untouched])⟩
      rw [pending_unlit fun hl => Bool.false_ne_true (hlit.mp hl)]
      simp [Event.takes]
    | kicked ha => exact absurd ha hk
  · refine .same (lit_modify hf fun _ hjd => absurd hjd hid) ?_
    cases h <;> simp [Event.takes]

theorem Balance.create {T : Table} (hw : T.Wf) (hfree : (T.objs i).type = .free)
    (hauto : n = T.fresh → o.type = .event) :
    Balance n T (.created T.fresh o :: initialHold o T.fresh) (T.put i o) := by
  have hold {m : Nat} (hm : m ≠ T.fresh) : Lit (T.put i o) m ↔ Lit T m := by
    constructor <;> rintro ⟨j, hty, hid, hs⟩
    · by_cases hji : j = i
      · subst hji
        rw [Table.put_ident_self] at hid
        exact absurd hid.symm hm
      · rw [Table.put_ne _ hji] at hty hs
        rw [Table.put_ident_ne _ hji] at hid
        exact ⟨j, hty, hid, hs⟩
    · have hji : j ≠ i := by
        rintro rfl
        rw [hfree] at hty
        cases hty
      exact ⟨j, by rwa [Table.put_ne _ hji], by rwa [Table.put_ident_ne _ hji],
        by rwa [Table.put_ne _ hji]⟩
  by_cases hn : n = T.fresh
  · subst hn
    have hty := hauto rfl
    have hno : ¬Lit T T.fresh := by
      rintro ⟨j, hj, hid, -⟩
      have hlt := hw.identLt (i := j) (by simp [hj])
      omega
    have hlit : Lit (T.put i o) T.fresh → o.signalled = true := by
      rintro ⟨j, hj, hid, hs⟩
      by_cases hji : j = i
      · subst hji
        rwa [Table.put_self] at hs
      · rw [Table.put_ne _ hji] at hj
        rw [Table.put_ident_ne _ hji] at hid
        have hlt := hw.identLt (i := j) (by simp [hj])
        omega
    rw [show initialHold o T.fresh = [] by simp [initialHold, hty]]
    refine ⟨?_, fun _ => by rw [pending_unlit hno]; exact Nat.zero_le _⟩
    have hle := pending_le (T.put i o) T.fresh
    cases hs : o.signalled with
    | true =>
      simp [Event.takes, signals, Event.starts, hs]
      omega
    | false =>
      rw [pending_unlit fun hl => by simp [hs] at hlit; exact hlit hl]
      simp [Event.takes]
  · refine .same (hold hn) ?_
    unfold initialHold
    split <;> simp [Event.takes, Ne.symm hn]

theorem Balance.close (T : Table) (i : Nat) :
    Balance n T [.closed (T.ident i)] (T.release i) := by
  have hout : Lit (T.release i) n → Lit T n := by
    rintro ⟨j, hty, hid, hs⟩
    obtain ⟨hji, -⟩ := Table.release_live (T := T) (i := i) (j := j) (by simp [hty])
    rw [Table.release_ne _ hji] at hty hs
    exact ⟨j, hty, hid, hs⟩
  refine ⟨?_, fun hu => ?_⟩
  · have hmono : pending (T.release i) n ≤ pending T n := by
      by_cases hl : Lit (T.release i) n
      · rw [pending_lit hl, pending_lit (hout hl)]
      · rw [pending_unlit hl]
        exact Nat.zero_le _
    simp [Event.takes]
    omega
  · have hid : T.ident i ≠ n := by
      rintro rfl
      exact hu.2.2 List.mem_cons_self
    rw [pending_congr ⟨hout, ?_⟩]
    · exact Nat.le_add_right _ _
    · rintro ⟨j, hty, hjd, hs⟩
      have hji : j ≠ i := by
        rintro rfl
        exact hid hjd
      exact ⟨j, by rwa [Table.release_ne _ hji], hjd, by rwa [Table.release_ne _ hji]⟩

theorem Effect.balance (hw : C.table.Wf) (hk : ¬a.IsKick) (hauto : AutoEvent C.table n)
    (hnew : ∀ o, .created n o ∈ ev → o.type = .event) (he : Effect s a C ev C') :
    Balance n C.table ev C'.table := by
  cases he with
  | create _ _ hfree =>
    refine .create hw hfree fun hn => ?_
    subst hn
    exact hnew _ List.mem_cons_self
  | signal hty h =>
    rw [modify_table]
    exact .signal hw hk hty h
  | release =>
    refine .store mutates_release (fun o => ?_) (by simp [Event.takes])
    unfold releaseOnce
    split <;> rfl
  | post => exact .store (fun _ => ⟨rfl, rfl, rfl, rfl⟩) (fun _ => rfl) (by simp [Event.takes])
  | exit => exact .store (fun _ => ⟨rfl, rfl, rfl, rfl⟩) (fun _ => rfl) (by simp)
  | bump => exact .store (fun _ => ⟨rfl, rfl, rfl, rfl⟩) (fun _ => rfl) (by simp [Event.takes])
  | close => exact .close _ _
  | grant hc _ _ _ hsat => exact .grant hw hauto hsat
  | sleep =>
    rw [setSleep_table]
    exact .store (fun _ => ⟨rfl, rfl, rfl, rfl⟩) (fun _ => rfl) (by simp)
  | wake =>
    rw [setSleep_table]
    exact .store (fun _ => ⟨rfl, rfl, rfl, rfl⟩) (fun _ => rfl) (by simp [Event.takes])
  | abandon => exact .same Iff.rfl (by simp)

-- ---------------------------------------------------------------------------
-- What a run does to a token
-- ---------------------------------------------------------------------------

theorem Balance.trans (h : Balance n T ev T₁) (h' : Balance n T₁ ev' T₂) :
    Balance n T (ev ++ ev') T₂ := by
  have h1 := h.atMost
  have h2 := h'.atMost
  refine ⟨?_, fun hu => ?_⟩
  · rw [List.any_append, signals_append]
    cases hx : ev.any (Event.takes n) <;> cases hy : ev'.any (Event.takes n) <;>
      simp [hx, hy] at h1 h2 ⊢ <;> omega
  · have hu1 : Untouched ev n ∧ Untouched ev' n := by
      simp only [Untouched, List.mem_append, not_or] at hu ⊢
      tauto
    have h3 := h.atLeast hu1.1
    have h4 := h'.atLeast hu1.2
    have hle := pending_le T n
    rw [List.any_append]
    cases hx : ev.any (Event.takes n) <;> cases hy : ev'.any (Event.takes n) <;>
      simp [hx, hy] at h3 h4 ⊢ <;> omega

/-- The events say object `n` is an auto-reset event. -/
def CreatedAuto (evs : List Event) (n : Nat) : Prop :=
  ∀ o, .created n o ∈ evs → o.type = .event ∧ o.manual = false

theorem CreatedAuto.left (h : CreatedAuto (evs ++ ev) n) : CreatedAuto evs n :=
  fun o ho => h o (List.mem_append_left _ ho)

theorem Origin.auto (ho : Origin evs T) (h : CreatedAuto evs n) : AutoEvent T n := by
  rintro i hi rfl
  obtain ⟨o, hc, hty, hm, -⟩ := ho.known hi
  obtain ⟨h1, h2⟩ := h o hc
  exact ⟨hty ▸ h1, hm ▸ h2⟩

theorem Effects.balance (h : Effects s a C ev C') (hk : ¬a.IsKick) (hw : C.table.Wf)
    (ho : Origin evs C.table) (hauto : CreatedAuto (evs ++ ev) n) :
    Balance n C.table ev C'.table := by
  induction h generalizing evs with
  | nil => exact .same Iff.rfl rfl
  | @cons _ ev₁ _ _ _ e _ ih =>
    rw [← List.append_assoc] at hauto
    have hone := e.balance hw hk (ho.auto hauto.left.left)
      fun o hc => (hauto.left o (List.mem_append_right _ hc)).1
    exact hone.trans (ih (e.wf hw) (e.origin ho) hauto)

theorem Effects.origin (h : Effects s a C ev C') (ho : Origin evs C.table) :
    Origin (evs ++ ev) C'.table := by
  induction h generalizing evs with
  | nil => simpa using ho
  | cons e _ ih =>
    rw [← List.append_assoc]
    exact ih (e.origin ho)

/-- The balance of event `n` over a trace. -/
structure Ledger (n : Nat) (T : Table) (tr : Trace) (T' : Table) : Prop where
  atMost : consumers tr n + pending T' n ≤ pending T n + signals (Trace.events tr) n
  atLeast : Untouched (Trace.events tr) n → pending T n ≤ pending T' n + consumers tr n

theorem Ledger.snoc (h : Ledger n T tr T₁) (hb : Balance n T₁ l.events T₂) :
    Ledger n T (tr ++ [(a, l)]) T₂ := by
  have h1 := h.atMost
  have h2 := hb.atMost
  refine ⟨?_, fun hu => ?_⟩
  · rw [consumers_snoc, events_snoc, signals_append]
    unfold Label.uses
    omega
  · rw [events_snoc] at hu
    have hu1 : Untouched (Trace.events tr) n ∧ Untouched l.events n := by
      simp only [Untouched, List.mem_append, not_or] at hu ⊢
      tauto
    have h3 := h.atLeast hu1.1
    have h4 := hb.atLeast hu1.2
    rw [consumers_snoc]
    unfold Label.uses
    omega

theorem run_ledger (h : Run step NoKick s tr s') (hs : Sane s) (ho : Origin evs s.table)
    (hauto : CreatedAuto (evs ++ Trace.events tr) n) :
    Sane s' ∧ Origin (evs ++ Trace.events tr) s'.table ∧ Ledger n s.table tr s'.table := by
  induction h with
  | nil =>
    refine ⟨hs, by simpa using ho, ?_, fun _ => Nat.le_add_right _ _⟩
    simp [consumers]
  | snoc _ hok hst ih =>
    rw [events_snoc, ← List.append_assoc] at hauto ⊢
    obtain ⟨hs₁, ho₁, hl⟩ := ih hauto.left
    have he := step_effects hs₁.noZero hst
    exact ⟨step_sane hs₁ hst, he.origin ho₁, hl.snoc (he.balance hok hs₁.wf ho₁ hauto)⟩

theorem signals_created (ho : Origin evs T) (hc : .created n o ∈ evs) :
    signals evs n ≤ o.signalled.toNat + evs.count (.set n) := by
  have hstarts : evs.countP (Event.starts n) ≤ o.signalled.toNat := by
    cases hs : o.signalled with
    | true =>
      refine Nat.le_trans (List.countP_mono_left fun e _ he => ?_) (ho.single n)
      cases e with
      | created m o' => simp [Event.starts] at he; simp [Event.creates, he.1]
      | _ => cases he
    | false =>
      rw [List.countP_eq_zero.mpr]
      · exact Nat.zero_le _
      · intro e he hst
        cases e with
        | created m o' =>
          simp only [Event.starts, Bool.and_eq_true, beq_iff_eq] at hst
          obtain ⟨rfl, hst⟩ := hst
          rw [ho.once he hc, hs] at hst
          cases hst
        | _ => cases hst
  unfold signals
  omega

/-- An object is not created again. -/
theorem signals_later (ho : Origin (evs ++ ev) T) (hc : .created n o ∈ evs) :
    signals ev n = ev.count (.set n) := by
  have hone : 0 < evs.countP (Event.creates n) :=
    List.countP_pos_iff.mpr ⟨_, hc, by simp [Event.creates]⟩
  have hle := ho.single n
  rw [List.countP_append] at hle
  have hzero : ev.countP (Event.starts n) ≤ ev.countP (Event.creates n) := by
    refine List.countP_mono_left fun e _ he => ?_
    cases e with
    | created m o' => simp [Event.starts] at he; simp [Event.creates, he.1]
    | _ => cases he
  unfold signals
  omega

-- ---------------------------------------------------------------------------
-- The law
-- ---------------------------------------------------------------------------

theorem setEvent_lit (hi : s.table.findLocked k = some i) (hty : (s.table.objs i).type = .event)
    (h : step s (.call t (.setEvent k)) = some (s', l)) : Lit s'.table (s.table.ident i) := by
  simp only [step, Option.ite_none_right_eq_some, Option.some.injEq, runOp, setEvent, signalEvent,
    hi, hty, ↓reduceIte] at h
  rw [fst_of_eq h.2]
  refine ⟨i, ?_, rfl, ?_⟩
  · simpa using hty
  · simp

/-- Along every run without kicks, an auto-reset event wakes at most as many
calls as it was signalled, and after a set its signal is there until it is
used, exactly once, unless it is taken back. -/
theorem auto_event_law (h : Run step NoKick .init tr s) :
    (∀ n o, .created n o ∈ Trace.events tr → o.type = .event → o.manual = false →
      consumers tr n ≤ o.signalled.toNat + (Trace.events tr).count (.set n)) ∧
    (∀ t k i s₁ l rest s₂, s.table.findLocked k = some i → (s.table.objs i).type = .event →
      (s.table.objs i).manual = false → step s (.call t (.setEvent k)) = some (s₁, l) →
      Run step NoKick s₁ rest s₂ → Untouched (Trace.events rest) (s.table.ident i) →
      (consumers rest (s.table.ident i) = 0 → (s₂.table.objs i).signalled = true) ∧
      (.set (s.table.ident i) ∉ Trace.events rest →
        consumers rest (s.table.ident i) + (s₂.table.objs i).signalled.toNat = 1)) := by
  refine ⟨fun n o hc hty hm => ?_, ?_⟩
  · have ho := run_origin h
    have hauto : CreatedAuto ([] ++ Trace.events tr) n := fun o' ho' => by
      rw [← ho.once hc ho']
      exact ⟨hty, hm⟩
    obtain ⟨-, -, hl⟩ := run_ledger h init_sane init_origin hauto
    have hinit : pending State.init.table n = 0 := pending_unlit (by rintro ⟨i, hi, -⟩; cases hi)
    have h1 := hl.atMost
    have h2 := signals_created ho hc
    omega
  · intro t k i s₁ l rest s₂ hi hty hm hst hrest hu
    have hset : Run step NoKick s [(.call t (.setEvent k), l)] s₁ := .single id hst
    have ho := run_origin h
    have hs₁ := step_sane (run_sane h) hst
    have hkeep : Stays s.table s₁.table i :=
      step_stays (run_sane h) hst (by simp [hty]) (by rintro _ _ ⟨⟩)
    obtain ⟨o, hc, hoty, hom, -⟩ := ho.known (i := i) (by simp [hty])
    have ho₁ : Origin (Trace.events tr ++ l.events) s₁.table :=
      (step_effects (run_sane h).noZero hst).origin ho
    obtain ⟨hs₂, hstay⟩ := run_open hrest hs₁ (by rw [hkeep.type, hty]; simp)
      (by rw [hkeep.ident]; exact hu.2.2)
    have hfinal : Origin (Trace.events tr ++ l.events ++ Trace.events rest) s₂.table := by
      simpa [Trace.events] using run_origin (h.append (hset.append hrest))
    have hauto : CreatedAuto (Trace.events tr ++ l.events ++ Trace.events rest) (s.table.ident i) := by
      intro o' ho'
      have hc' := List.mem_append_left (Trace.events rest) (List.mem_append_left l.events hc)
      rw [← hfinal.once hc' ho', hoty, hom]
      exact ⟨hty, hm⟩
    obtain ⟨-, -, hl⟩ := run_ledger hrest hs₁ ho₁ hauto
    have hone : pending s₁.table (s.table.ident i) = 1 := pending_lit (setEvent_lit hi hty hst)
    have hflag : pending s₂.table (s.table.ident i) = (s₂.table.objs i).signalled.toNat := by
      have hiff := lit_iff (i := i) hs₂.wf (by rw [hstay.type, hkeep.type, hty])
      rw [hstay.ident, hkeep.ident] at hiff
      cases hs : (s₂.table.objs i).signalled with
      | true => exact pending_lit (hiff.mpr hs)
      | false => exact pending_unlit fun hlit => by rw [hiff.mp hlit] at hs; cases hs
    have h1 := hl.atMost
    have h2 := hl.atLeast hu
    rw [hone, hflag] at h1 h2
    refine ⟨fun h0 => ?_, fun hno => ?_⟩
    · cases hs : (s₂.table.objs i).signalled with
      | true => rfl
      | false => simp [hs, h0] at h2
    · rw [signals_later hfinal (List.mem_append_left _ hc), List.count_eq_zero_of_not_mem hno] at h1
      omega

-- ---------------------------------------------------------------------------
-- A run
-- ---------------------------------------------------------------------------

/-- Three waiters, one created signal and one set: two of them are woken. -/
def crowd : List Action :=
  [.call 1 (.createEvent false true), .waitSingle 1 syncBase syncInfinite,
    .waitSingle 2 syncBase syncInfinite, .waitMultiple 3 [syncBase] true syncInfinite,
    .call 1 (.setEvent syncBase), .resume 3, .resume 2]

theorem auto_event_law_crowd : ∃ tr s, Run step NoKick .init tr s ∧ consumers tr 0 = 2 ∧
    consumers tr 0 ≤ 1 + (Trace.events tr).count (.set 0) := by
  have hexec : (exec step (fun _ a => a.thread.isSome = true) .init crowd).any (fun r =>
      decide (.created 0 { type := .event, handle := syncBase, signalled := true } ∈ Trace.events r.1 ∧
        consumers r.1 0 = 2)) = true := by decide +kernel
  obtain ⟨tr, s, hr, hp⟩ := Run.of_exec_any hexec
  obtain ⟨hc, h2⟩ := of_decide_eq_true hp
  have hrun : Run step NoKick .init tr s := by
    refine hr.mono fun _ a ha hk => ?_
    cases a with
    | kickWorkers | kickTid => exact Bool.false_ne_true ha
    | _ => exact hk
  exact ⟨tr, s, hrun, h2, (auto_event_law hrun).1 0 _ hc rfl rfl⟩

end WineGlass.Sync
