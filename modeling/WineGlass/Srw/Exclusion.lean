import WineGlass.Srw.Lock

/-!
# Mutual exclusion of SRW locks

Each entry counts exactly the holds on the pointers it serves (`Inv`), so a
pointer held exclusively is held by one thread. The entry shared by the
pointers past the table's end counts unrelated holds together, and
`srw_law` says exactly when that makes a thread wait for itself.
-/

namespace WineGlass.Srw

open CInt Runs

/-- What a waiting thread waits for. -/
def Phase.wants : Phase → Option (Mode × Nat)
  | .idle => none
  | .contended m p | .waiting m p _ => some (m, p)

/-- The thread, mode and pointer of an acquire that action `a` goes on with. -/
def State.asks (s : State) : Action → Option (Nat × Mode × Nat)
  | .acquire t m p | .tryAcquire t m p => some (t, m, p)
  | .resume t => (s.phases t).wants.map fun (m, p) => (t, m, p)
  | .release .. => none

/-- A thread releases only what it holds, and no counter runs out of `int`. -/
def Disciplined (s : State) (a : Action) : Prop :=
  (∀ t m p, a = .release t m p → ⟨t, p, m⟩ ∈ s.holds) ∧
  ∀ t m p e, s.asks a = some (t, m, p) → locate s.table p = some e → Fits m (s.table.get e)

/-- The holds entry `e` serves. -/
def State.on (s : State) (e : Entry) : List Hold :=
  s.holds.filter fun h => locate s.table h.ptr = some e

/-- Thread `t` waits for entry `e`, which is not its own. -/
structure Blocked (T : Table) (t : Nat) (m : Mode) (p : Nat) (e : Entry) : Prop where
  tid : t ≠ 0
  located : locate T p = some e
  other : m = .exclusive → (T.get e).writerTid ≠ t

structure Inv (s : State) : Prop where
  wf : s.table.Wf
  located : h ∈ s.holds → ∃ e, locate s.table h.ptr = some e
  agrees (e : Entry) : Agrees (s.table.get e) (s.on e)
  contended : s.phases t = .contended m p → ∃ e, Blocked s.table t m p e
  waiting : s.phases t = .waiting m p e → Blocked s.table t m p e

theorem init_inv : Inv .init := by
  refine ⟨Table.init_wf, nofun, fun e => ?_, nofun, nofun⟩
  cases e <;> exact .empty rfl rfl rfl

theorem mem_on {s : State} : h ∈ s.on e ↔ h ∈ s.holds ∧ locate s.table h.ptr = some e := by
  simp [State.on]

-- ---------------------------------------------------------------------------
-- What a step does
-- ---------------------------------------------------------------------------

/-- A step of a thread: a lookup, then the entry taken, refused, waited for or
released. -/
inductive Did (s : State) (a : Action) : State → Outcome → Prop
  | took (hl : Looked s.table p e T) (hq : s.asks a = some (t, m, p)) (ht : t ≠ 0)
      (hph : s.phases t = .idle ∨ (s.phases t).wants = some (m, p)) (hv : Taken (T.get e) t m v) :
      Did s a ⟨T.set e v, Function.update s.phases t .idle, ⟨t, p, m⟩ :: s.holds⟩ .granted
  | refused (hl : Looked s.table p e T) (hph : s.phases t = .idle) :
      Did s a ⟨T, Function.update s.phases t .idle, s.holds⟩ .refused
  | blocked (hl : Looked s.table p e T) (hb : Blocked T t m p e)
      (hph : s.phases t = .idle ∨ (s.phases t).wants = some (m, p))
      (hto : ph = .contended m p ∨ ph = .waiting m p e) :
      Did s a ⟨T, Function.update s.phases t ph, s.holds⟩ .blocked
  | released (hl : Looked s.table p e T) (ha : a = .release t m p) (hph : s.phases t = .idle) :
      Did s a ⟨T.set e (releaseEntry m (T.get e) t), s.phases, s.holds.erase ⟨t, p, m⟩⟩ .released

theorem looked_self (hT : T.Wf) (h : locate T p = some e) : Looked T p e T :=
  ⟨hT, h, id, .inl rfl⟩

/-- A lookup moves no entry a pointer has. -/
theorem Looked.get (hl : Looked T p e T') (hq : locate T q = some e') : T'.get e' = T.get e' := by
  rcases hl.change with rfl | ⟨-, -, -, hother, hfresh⟩
  · rfl
  · refine hother e' ?_
    rintro rfl
    exact hfresh q hq

theorem Blocked.look (hb : Blocked T t m p e) (hl : Looked T p' e' T') : Blocked T' t m p e :=
  ⟨hb.tid, hl.keeps hb.located, fun hm => by rw [hl.get hb.located]; exact hb.other hm⟩

/-- An exclusive acquire that does not get the entry finds another's. -/
theorem acquireEntry_none (h : acquireEntry m s t = none) (hm : m = .exclusive) :
    s.writerTid ≠ t := by
  subst hm
  rintro rfl
  simp [acquireEntry, acquireExclusive] at h

theorem step_did (hi : Inv s) (h : step s a = some (s', o)) : Did s a s' o := by
  have hlook (p : Nat) : ∃ e T, srwFor s.table p = some (e, T) ∧ Looked s.table p e T :=
    srwFor_spec hi.wf p
  cases a with
  | acquire t m p =>
    obtain ⟨e, T, hf, hl⟩ := hlook p
    simp only [step, hf, Option.map_some, Option.ite_none_right_eq_some, Option.some.injEq,
      State.settle] at h
    obtain ⟨hfree, h⟩ := h
    split at h <;> cases h
    · rename_i hv
      exact .took hl rfl hfree.1 (.inl hfree.2) (acquireEntry_taken hv)
    · rename_i hv
      exact .blocked hl ⟨hfree.1, hl.here, acquireEntry_none hv⟩ (.inl hfree.2) (.inl rfl)
  | tryAcquire t m p =>
    obtain ⟨e, T, hf, hl⟩ := hlook p
    simp only [step, hf, Option.map_some, Option.ite_none_right_eq_some, Option.some.injEq,
      State.settle] at h
    obtain ⟨hfree, h⟩ := h
    split at h <;> cases h
    · rename_i hv
      exact .took hl rfl hfree.1 (.inl hfree.2) (tryEntry_taken hv)
    · exact .refused hl hfree.2
  | resume t =>
    simp only [step, State.settle] at h
    split at h
    · cases h
    · rename_i m p hph
      obtain ⟨e, T, hf, hl⟩ := hlook p
      obtain ⟨e', hb⟩ := hi.contended hph
      obtain rfl : e' = e := Option.some.inj ((hl.keeps hb.located).symm.trans hl.here)
      simp only [hf, Option.map_some, Option.some.injEq] at h
      have hw : (s.phases t).wants = some (m, p) := by rw [hph]; rfl
      have hq : s.asks (.resume t) = some (t, m, p) := by simp [State.asks, hw]
      split at h <;> cases h
      · rename_i hv
        exact .took hl hq hb.tid (.inr hw) (awaitEntry_taken hv (hb.look hl).other)
      · exact .blocked hl (hb.look hl) (.inr hw) (.inr rfl)
    · rename_i m p e hph
      have hb := hi.waiting hph
      have hl := looked_self hi.wf hb.located
      have hw : (s.phases t).wants = some (m, p) := by rw [hph]; rfl
      have hq : s.asks (.resume t) = some (t, m, p) := by simp [State.asks, hw]
      rw [Option.some.injEq] at h
      split at h <;> cases h
      · rename_i hv
        exact .took hl hq hb.tid (.inr hw) (awaitEntry_taken hv hb.other)
      · exact .blocked hl hb (.inr hw) (.inr rfl)
  | release t m p =>
    obtain ⟨e, T, hf, hl⟩ := hlook p
    simp only [step, hf, Option.map_some, Option.ite_none_right_eq_some, Option.some.injEq] at h
    obtain ⟨hfree, h⟩ := h
    cases h
    exact .released hl rfl hfree.2

-- ---------------------------------------------------------------------------
-- The invariant
-- ---------------------------------------------------------------------------

theorem Inv.look (hi : Inv s) (hl : Looked s.table p e T) : Inv { s with table := T } := by
  have hsame {h : Hold} (hh : h ∈ s.holds) : locate T h.ptr = locate s.table h.ptr := by
    obtain ⟨e', he'⟩ := hi.located hh
    rw [he', hl.keeps he']
  have hon (e' : Entry) : ({ s with table := T } : State).on e' = s.on e' :=
    List.filter_congr fun h hh => by rw [hsame hh]
  refine ⟨hl.wf, fun hh => ?_, fun e' => ?_, fun hp => ?_, fun hp => (hi.waiting hp).look hl⟩
  · obtain ⟨e', he'⟩ := hi.located hh
    exact ⟨e', hl.keeps he'⟩
  · rw [hon]
    rcases hl.change with rfl | ⟨-, -, hget, hother, hfresh⟩
    · exact hi.agrees e'
    · by_cases he : e' = e
      · subst he
        have hnil : s.on e' = [] := by
          rw [List.eq_nil_iff_forall_not_mem]
          exact fun h hh => hfresh _ (mem_on.mp hh).2
        rw [hnil]
        exact .empty (congrArg WGSrw.readers hget) (congrArg WGSrw.writerTid hget)
          (congrArg WGSrw.writerRec hget)
      · have hget' : ({ s with table := T } : State).table.get e' = s.table.get e' := hother e' he
        rw [hget']
        exact hi.agrees e'
  · obtain ⟨e', hb⟩ := hi.contended hp
    exact ⟨e', hb.look hl⟩

/-- A store to an entry whose writer does not become a thread that waits. -/
theorem Blocked.store (hb : Blocked T t m p e) (hv : v.ptr = (T.get e').ptr)
    (hw : v.writerTid = (T.get e').writerTid ∨ v.writerTid ≠ t) :
    Blocked (T.set e' v) t m p e := by
  refine ⟨hb.tid, (locate_set hv p).trans hb.located, fun hm => ?_⟩
  by_cases he : e = e'
  · subst he
    rw [set_get]
    rcases hw with hw | hw
    · rw [hw]
      exact hb.other hm
    · exact hw
  · rw [set_get_ne he]
    exact hb.other hm

theorem Taken.writer (h : Taken s t m v) : v.writerTid = s.writerTid ∨ v.writerTid = t := by
  cases h with
  | shared | again => exact .inl rfl
  | fresh => exact .inr rfl

theorem Inv.take (hi : Inv s) (hp : locate s.table p = some e) (ht : t ≠ 0)
    (hv : Taken (s.table.get e) t m v) (hf : Fits m (s.table.get e)) :
    Inv ⟨s.table.set e v, Function.update s.phases t .idle, ⟨t, p, m⟩ :: s.holds⟩ := by
  have hptr := hv.ptr
  have hw {u : Nat} (hu : u ≠ t) : v.writerTid = (s.table.get e).writerTid ∨ v.writerTid ≠ u :=
    hv.writer.imp_right fun h => by rw [h]; exact hu.symm
  refine ⟨hi.wf.set hptr, fun hh => ?_, fun e' => ?_, fun hph => ?_, fun hph => ?_⟩
  · simp only [locate_set hptr]
    rcases List.mem_cons.mp hh with rfl | hh
    · exact ⟨e, hp⟩
    · exact hi.located hh
  · simp only [State.on, locate_set hptr, List.filter_cons, hp]
    by_cases he : e' = e
    · subst he
      simp only [decide_true, ↓reduceIte, set_get]
      exact (hi.agrees e').take ht hv hf
    · have hne : ¬(some e = some e') := fun h => he (Option.some.inj h).symm
      simp only [hne, decide_false, Bool.false_eq_true, ↓reduceIte]
      rw [set_get_ne he]
      exact hi.agrees e'
  · obtain ⟨-, hph⟩ | ⟨hu, hph⟩ := update_cases hph
    · cases hph
    · obtain ⟨e', hb⟩ := hi.contended hph
      exact ⟨e', hb.store hptr (hw hu)⟩
  · obtain ⟨-, hph⟩ | ⟨hu, hph⟩ := update_cases hph
    · cases hph
    · exact (hi.waiting hph).store hptr (hw hu)

theorem Inv.phase (hi : Inv s) (hb : ph = .idle ∨
      ∃ m p e, Blocked s.table t m p e ∧ (ph = .contended m p ∨ ph = .waiting m p e)) :
    Inv { s with phases := Function.update s.phases t ph } := by
  refine ⟨hi.wf, hi.located, hi.agrees, fun hph => ?_, fun hph => ?_⟩
  · obtain ⟨rfl, rfl⟩ | ⟨-, hph⟩ := update_cases hph
    · obtain ⟨⟨⟩⟩ | ⟨m, p, e, hb, hm | hm⟩ := hb <;> cases hm
      exact ⟨e, hb⟩
    · exact hi.contended hph
  · obtain ⟨rfl, rfl⟩ | ⟨-, hph⟩ := update_cases hph
    · obtain ⟨⟨⟩⟩ | ⟨m, p, e, hb, hm | hm⟩ := hb <;> cases hm
      exact hb
    · exact hi.waiting hph

theorem releaseEntry_ptr (m : Mode) (s : WGSrw) (t : Nat) : (releaseEntry m s t).ptr = s.ptr := by
  cases m with
  | shared =>
    simp only [releaseEntry, releaseShared]
    split <;> rfl
  | exclusive =>
    simp only [releaseEntry, releaseExclusive]
    split
    · split <;> rfl
    · rfl

theorem releaseEntry_writer (m : Mode) (s : WGSrw) (t : Nat) :
    (releaseEntry m s t).writerTid = s.writerTid ∨ (releaseEntry m s t).writerTid = 0 := by
  cases m with
  | shared =>
    simp only [releaseEntry, releaseShared]
    split <;> exact .inl rfl
  | exclusive =>
    simp only [releaseEntry, releaseExclusive]
    split
    · split
      · exact .inr rfl
      · exact .inl rfl
    · exact .inl rfl

theorem Inv.release (hi : Inv s) (hp : locate s.table p = some e) (hh : ⟨t, p, m⟩ ∈ s.holds) :
    Inv ⟨s.table.set e (releaseEntry m (s.table.get e) t), s.phases, s.holds.erase ⟨t, p, m⟩⟩ := by
  have hptr := releaseEntry_ptr m (s.table.get e) t
  have hw {u : Nat} (hu : u ≠ 0) :
      (releaseEntry m (s.table.get e) t).writerTid = (s.table.get e).writerTid ∨
      (releaseEntry m (s.table.get e) t).writerTid ≠ u :=
    (releaseEntry_writer m _ t).imp_right fun h => by rw [h]; exact hu.symm
  refine ⟨hi.wf.set hptr, fun hx => ?_, fun e' => ?_, fun hph => ?_, fun hph => ?_⟩
  · rw [locate_set hptr]
    exact hi.located (List.mem_of_mem_erase hx)
  · have hperm := (List.perm_cons_erase hh).filter fun h => decide (locate s.table h.ptr = some e')
    simp only [List.filter_cons, hp] at hperm
    simp only [State.on, locate_set hptr]
    by_cases he : e' = e
    · subst he
      simp only [decide_true, ↓reduceIte] at hperm
      rw [set_get]
      exact ((hi.agrees e').perm hperm).release
    · have hne : ¬(some e = some e') := fun h => he (Option.some.inj h).symm
      simp only [hne, decide_false, Bool.false_eq_true, ↓reduceIte] at hperm
      rw [set_get_ne he]
      exact (hi.agrees e').perm hperm
  · obtain ⟨e', hb⟩ := hi.contended hph
    exact ⟨e', hb.store hptr (hw hb.tid)⟩
  · have hb := hi.waiting hph
    exact hb.store hptr (hw hb.tid)

/-- A fresh entry has room. -/
theorem Looked.fits (hl : Looked T p e T')
    (hf : ∀ e, locate T p = some e → Fits m (T.get e)) : Fits m (T'.get e) := by
  rcases hl.change with rfl | ⟨-, -, hget, -⟩
  · exact hf e hl.here
  · rw [hget]
    cases m <;> exact (by decide : (0 : Int) < intMax)

theorem step_inv (hi : Inv s) (hok : Disciplined s a) (h : step s a = some (s', o)) : Inv s' := by
  cases step_did hi h with
  | took hl hq ht _ hv =>
    exact (hi.look hl).take hl.here ht hv (hl.fits fun e he => hok.2 _ _ _ e hq he)
  | refused hl => exact (hi.look hl).phase (.inl rfl)
  | blocked hl hb _ hto => exact (hi.look hl).phase (.inr ⟨_, _, _, hb, hto⟩)
  | released hl ha => exact (hi.look hl).release hl.here (hok.1 _ _ _ ha)

theorem run_inv (h : Run step Disciplined .init tr s) : Inv s :=
  h.invariant (P := fun _ s => Inv s) init_inv fun hi hok hst => step_inv hi hok hst

-- ---------------------------------------------------------------------------
-- When an acquire is granted
-- ---------------------------------------------------------------------------

/-- Action `a` is thread `t` acquiring `p`, from the start or from a wait on. -/
def State.Acquiring (s : State) (a : Action) (t : Nat) (m : Mode) (p : Nat) : Prop :=
  a = .acquire t m p ∧ Free s t ∨ a = .resume t ∧ (s.phases t).wants = some (m, p)

/-- A hold of another thread that conflicts, on the entry that serves `p`. -/
def State.InWay (s : State) (t : Nat) (m : Mode) (p : Nat) (h : Hold) : Prop :=
  h.tid ≠ t ∧ (m = .exclusive ∨ h.mode = .exclusive) ∧
    ∃ e, locate s.table p = some e ∧ locate s.table h.ptr = some e

/-- Thread `t` wants exclusively a pointer past the table's end, while it holds
another one shared and does not have the entry they share as its writer. -/
def State.SelfBlocked (s : State) (t : Nat) (m : Mode) (p : Nat) : Prop :=
  m = .exclusive ∧ locate s.table p = some .overflow ∧ s.table.overflow.writerTid ≠ t ∧
    ∃ h ∈ s.holds, h.tid = t ∧ h.mode = .shared ∧ locate s.table h.ptr = some .overflow

theorem settle_granted {s : State} {v : Option WGSrw} :
    (∃ s', some (s.settle T t m p e v ph .blocked) = some (s', .granted)) ↔ v.isSome := by
  cases v <;> simp [State.settle]

/-- The test an acquire makes, on the entry its lookup gives. -/
theorem acquiring_open (hi : Inv s) (ha : s.Acquiring a t m p) :
    ∃ e T, Looked s.table p e T ∧ ((∃ s', step s a = some (s', .granted)) ↔ Open m (T.get e) t) := by
  obtain ⟨e, T, hf, hl⟩ := srwFor_spec hi.wf p
  rcases ha with ⟨rfl, hfree⟩ | ⟨rfl, hw⟩
  · refine ⟨e, T, hl, ?_⟩
    simp only [step, hfree, ↓reduceIte, hf, Option.map_some]
    rw [settle_granted, acquireEntry_isSome]
  · cases hph : s.phases t with
    | idle =>
      rw [hph] at hw
      cases hw
    | contended m' p' =>
      rw [hph] at hw
      cases hw
      refine ⟨e, T, hl, ?_⟩
      obtain ⟨e', hb⟩ := hi.contended hph
      have hb' := hb.look hl
      obtain rfl : e' = e := Option.some.inj (hb'.located.symm.trans hl.here)
      simp only [step, hph, hf, Option.map_some]
      rw [settle_granted, awaitEntry_isSome ((hi.look hl).agrees e') hb'.other]
    | waiting m' p' e' =>
      rw [hph] at hw
      cases hw
      have hb := hi.waiting hph
      refine ⟨e', s.table, looked_self hi.wf hb.located, ?_⟩
      simp only [step, hph]
      rw [settle_granted, awaitEntry_isSome (hi.agrees e') hb.other]

/-- A hold on the entry a lookup gives was on it before. -/
theorem Looked.shared (hl : Looked T p e T') (hq : locate T q = some e') (he : locate T' q = some e) :
    T' = T ∧ locate T q = some e := by
  obtain rfl : e' = e := Option.some.inj ((hl.keeps hq).symm.trans he)
  rcases hl.change with rfl | ⟨-, -, -, -, hfresh⟩
  · exact ⟨rfl, hq⟩
  · exact absurd hq (hfresh q)

/-- With nobody holding `p` and no other thread in the way, an acquire of `p`
is granted at once, unless the caller waits for itself. -/
theorem granted_iff (hi : Inv s) (ha : s.Acquiring a t m p) (hnobody : ∀ h ∈ s.holds, h.ptr ≠ p)
    (hway : ∀ h ∈ s.holds, ¬s.InWay t m p h) :
    (∃ s', step s a = some (s', .granted)) ↔ ¬s.SelfBlocked t m p := by
  obtain ⟨e, T, hl, hiff⟩ := acquiring_open hi ha
  have hshared {h : Hold} (hh : h ∈ ({ s with table := T } : State).on e) :
      h ∈ s.holds ∧ T = s.table ∧ locate s.table h.ptr = some e := by
    obtain ⟨hmem, he⟩ := mem_on.mp hh
    obtain ⟨e', he'⟩ := hi.located hmem
    exact ⟨hmem, hl.shared he' he⟩
  rw [hiff, ((hi.look hl).agrees e).open_iff, not_iff_not]
  · constructor
    · rintro ⟨rfl, hw, h, hh, htid, hm⟩
      obtain ⟨hmem, rfl, hloc⟩ := hshared hh
      obtain rfl := locate_inj hi.wf hloc hl.here (hnobody h hmem)
      exact ⟨rfl, hl.here, hw, h, hmem, htid, hm, hloc⟩
    · rintro ⟨rfl, hp, hw, h, hmem, htid, hm, hloc⟩
      obtain rfl : e = .overflow := Option.some.inj (hl.here.symm.trans (hl.keeps hp))
      refine ⟨rfl, ?_, h, mem_on.mpr ⟨hmem, hl.keeps hloc⟩, htid, hm⟩
      show (T.get .overflow).writerTid ≠ t
      rw [hl.get hp]
      exact hw
  · intro h hh hne
    obtain ⟨hmem, rfl, hloc⟩ := hshared hh
    have hno := hway h hmem
    simp only [State.InWay, not_and] at hno
    have hmode : ¬(m = .exclusive ∨ h.mode = .exclusive) := fun hm =>
      hno hne hm ⟨e, hl.here, hloc⟩
    rw [not_or] at hmode
    constructor
    · cases m with
      | shared => rfl
      | exclusive => exact absurd rfl hmode.1
    · cases hm : h.mode with
      | shared => rfl
      | exclusive => exact absurd hm hmode.2

/-- A pointer held exclusively is held by one thread. -/
theorem Inv.exclusive (hi : Inv s) (hx : x ∈ s.holds) (hy : y ∈ s.holds) (hp : x.ptr = y.ptr)
    (hm : x.mode = .exclusive) : x.tid = y.tid := by
  obtain ⟨e, he⟩ := hi.located hx
  have hxe : x ∈ s.on e := mem_on.mpr ⟨hx, he⟩
  have hye : y ∈ s.on e := mem_on.mpr ⟨hy, hp ▸ he⟩
  obtain ⟨hne, hw⟩ := (hi.agrees e).writer hxe hm
  rw [← hw, ← ((hi.agrees e).written hne).2 y hye]

/-- In every run nobody holds a pointer that another thread holds exclusively;
and an acquire of a pointer nobody holds, with no other thread in the way, is
granted at once, except that a thread may wait for its own shared hold of
another pointer past the table's end. -/
theorem srw_law (h : Run step Disciplined .init tr s) :
    (∀ t u p m, t ≠ u → ⟨t, p, .exclusive⟩ ∈ s.holds → ⟨u, p, m⟩ ∉ s.holds) ∧
    ∀ a t m p, s.Acquiring a t m p → (∀ h ∈ s.holds, h.ptr ≠ p) →
      (∀ h ∈ s.holds, ¬s.InWay t m p h) →
      ((∃ s', step s a = some (s', .granted)) ↔ ¬s.SelfBlocked t m p) := by
  have hi := run_inv h
  refine ⟨fun t u p m hne hx hy => ?_, fun a t m p ha => granted_iff hi ha⟩
  exact hne (hi.exclusive hx hy rfl rfl)

end WineGlass.Srw
