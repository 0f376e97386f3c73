import WineGlass.Srw.Exclusion

/-!
# The entry past the table's end

Pointers first seen when the table is full share one entry. A thread that
waits there for a hold of its own waits for good (`stuck_run`): only it could
release the hold.
-/

namespace WineGlass.Srw

open CInt Runs

-- ---------------------------------------------------------------------------
-- Waiting for oneself
-- ---------------------------------------------------------------------------

/-- Thread `t` waits for `p`, and shares its entry with a hold of its own. -/
structure Stuck (s : State) (t p : Nat) : Prop where
  waits : (s.phases t).wants = some (.exclusive, p)
  located : locate s.table p = some .overflow
  holds : ∃ h ∈ s.holds, h.tid = t ∧ h.mode = .shared ∧ locate s.table h.ptr = some .overflow

theorem Stuck.not_idle (h : Stuck s t p) : s.phases t ≠ .idle := by
  intro hidle
  have hw := h.waits
  rw [hidle] at hw
  cases hw

theorem Stuck.blocked (h : Stuck s t p) (hi : Inv s) : Blocked s.table t .exclusive p .overflow := by
  have hw := h.waits
  cases hph : s.phases t with
  | idle => exact absurd hph h.not_idle
  | contended m q =>
    rw [hph] at hw
    cases hw
    obtain ⟨e, hb⟩ := hi.contended hph
    obtain rfl : e = .overflow := Option.some.inj (hb.located.symm.trans h.located)
    exact hb
  | waiting m q e =>
    rw [hph] at hw
    cases hw
    have hb := hi.waiting hph
    obtain rfl : e = .overflow := Option.some.inj (hb.located.symm.trans h.located)
    exact hb

/-- The caller's own hold keeps the entry closed. -/
theorem Stuck.closed (h : Stuck s t p) (hi : Inv s) (hl : Looked s.table p e T) :
    ¬Taken (T.get e) t .exclusive v := by
  obtain ⟨x, hx, -, hm, hloc⟩ := h.holds
  obtain rfl : e = .overflow := Option.some.inj (hl.here.symm.trans (hl.keeps h.located))
  rw [hl.get h.located]
  intro hv
  cases hv with
  | again hw => exact (h.blocked hi).other rfl hw
  | fresh hr =>
    have hpos := holdsIn_pos (mem_on.mpr ⟨hx, hloc⟩)
    have hcount := (hi.agrees .overflow).readers
    rw [hm] at hpos
    omega

theorem Stuck.step (h : Stuck s t p) (hi : Inv s) (hst : Srw.step s a = some (s', o)) :
    Stuck s' t p := by
  obtain ⟨x, hx, hxt, hm, hloc⟩ := h.holds
  have hother {u : Nat} (hidle : s.phases u = .idle) : u ≠ t := by
    rintro rfl
    exact h.not_idle hidle
  cases step_did hi hst with
  | @took q e T u m v hl hq _ hph hv =>
    have hut : u ≠ t := by
      rintro rfl
      rcases hph with hidle | hw
      · exact h.not_idle hidle
      · obtain ⟨rfl, rfl⟩ : m = .exclusive ∧ q = p := by
          rw [h.waits] at hw
          cases hw
          exact ⟨rfl, rfl⟩
        exact h.closed hi hl hv
    refine ⟨?_, ?_, x, List.mem_cons_of_mem _ hx, hxt, hm, ?_⟩
    · show (Function.update s.phases u .idle t).wants = _
      rw [Function.update_of_ne hut.symm]
      exact h.waits
    · exact (locate_set hv.ptr p).trans (hl.keeps h.located)
    · exact (locate_set hv.ptr x.ptr).trans (hl.keeps hloc)
  | @refused q e T u hl hidle =>
    refine ⟨?_, hl.keeps h.located, x, hx, hxt, hm, hl.keeps hloc⟩
    show (Function.update s.phases u .idle t).wants = _
    rw [Function.update_of_ne (hother hidle).symm]
    exact h.waits
  | @blocked q e T u m ph hl _ hph hto =>
    refine ⟨?_, hl.keeps h.located, x, hx, hxt, hm, hl.keeps hloc⟩
    show (Function.update s.phases u ph t).wants = _
    by_cases hut : u = t
    · subst hut
      rw [Function.update_self]
      rcases hph with hidle | hw
      · exact absurd hidle h.not_idle
      · rw [h.waits] at hw
        cases hw
        rcases hto with rfl | rfl <;> rfl
    · rw [Function.update_of_ne (Ne.symm hut)]
      exact h.waits
  | @released q e T u m hl ha hidle =>
    have hptr := releaseEntry_ptr m (T.get e) u
    refine ⟨h.waits, (locate_set hptr p).trans (hl.keeps h.located), x, ?_, hxt, hm,
      (locate_set hptr x.ptr).trans (hl.keeps hloc)⟩
    refine (List.mem_erase_of_ne ?_).mpr hx
    rintro rfl
    exact hother hidle hxt

theorem stuck_run (h : Stuck s t p) (hi : Inv s) (hrun : Run step Disciplined s tr s') :
    Stuck s' t p := by
  refine (hrun.invariant (P := fun _ s => Inv s ∧ Stuck s t p) ⟨hi, h⟩ ?_).2
  intro _ _ _ _ _ hp hok hst
  exact ⟨step_inv hp.1 hok hst, hp.2.step hp.1 hst⟩

-- ---------------------------------------------------------------------------
-- A full table
-- ---------------------------------------------------------------------------

/-- Nobody is inside, nothing is held, and the table knows pointers `0` to
`n - 1`. -/
structure Filled (s : State) (n : Nat) : Prop where
  inv : Inv s
  count : s.table.count = n
  ptrs : i < n → (s.table.get (.slot i)).ptr = i
  holds : s.holds = []
  idle : s.phases t = .idle

theorem Filled.locate (h : Filled s n) (hp : n ≤ p) :
    locate s.table p = if n < maxSrw then none else some .overflow := by
  rw [← h.count]
  refine locate_absent h.inv.wf fun i hi => ?_
  rw [h.count] at hi
  have hptr : (s.table.srw i).ptr = i := h.ptrs hi
  omega

/-- A shared acquire by thread 1, of any pointer. -/
theorem Filled.acquire (h : Filled s n) (p : Nat) : ∃ e T v,
    Looked s.table p e T ∧ Disciplined s (.acquire 1 .shared p) ∧ v.ptr = (T.get e).ptr ∧
      step s (.acquire 1 .shared p) =
        some (⟨T.set e v, Function.update s.phases 1 .idle, [⟨1, p, .shared⟩]⟩, .granted) := by
  have hfree : Free s 1 := ⟨Nat.one_ne_zero, h.idle⟩
  obtain ⟨s₁, hst⟩ : ∃ s₁, step s (.acquire 1 .shared p) = some (s₁, .granted) := by
    rw [granted_iff h.inv (.inl ⟨rfl, hfree⟩) (by simp [h.holds]) (by simp [h.holds])]
    rintro ⟨⟨⟩, -⟩
  cases step_did h.inv hst with
  | @took q e T u m v hl hq _ _ hv =>
    cases hq
    refine ⟨e, T, v, hl, ⟨nofun, fun t m q e' hq he' => ?_⟩, hv.ptr, h.holds ▸ hst⟩
    cases hq
    have hagrees := h.inv.agrees e'
    rw [show s.on e' = [] by simp [State.on, h.holds]] at hagrees
    show (s.table.get e').readers < intMax
    rw [hagrees.readers]
    decide

theorem release_step (hfree : Free s t) (hp : Srw.locate s.table p = some e) :
    step s (.release t m p) = some (⟨s.table.set e (releaseEntry m (s.table.get e) t), s.phases,
      s.holds.erase ⟨t, p, m⟩⟩, .released) := by
  simp only [step, hfree, ↓reduceIte, srwFor_located hp, Option.map_some]

theorem Filled.next (h : Filled s n) (hn : n < maxSrw) :
    ∃ tr s', Run step Disciplined s tr s' ∧ Filled s' (n + 1) := by
  obtain ⟨e, T, v, hl, hok, hptr, hst⟩ := h.acquire n
  have hnone := h.locate (Nat.le_refl n)
  rw [if_pos hn] at hnone
  obtain ⟨rfl, hcount, hget, hother⟩ : e = .slot n ∧ T.count = n + 1 ∧ T.get e = { ptr := n } ∧
      ∀ e', e' ≠ e → T.get e' = s.table.get e' := by
    rcases hl.change with rfl | ⟨he, hc, hg, ho, -⟩
    · have hhere := hl.here
      rw [hnone] at hhere
      cases hhere
    · rw [h.count] at he hc
      exact ⟨he, hc, hg, ho⟩
  have hhere : Srw.locate (T.set (.slot n) v) n = some (.slot n) := by
    rw [locate_set hptr]
    exact hl.here
  have hi₁ := step_inv h.inv hok hst
  generalize hs₁ : (⟨T.set (.slot n) v, Function.update s.phases 1 .idle,
    [⟨1, n, .shared⟩]⟩ : State) = s₁ at hst hi₁
  have hidle (t : Nat) : s₁.phases t = .idle := by
    subst hs₁
    by_cases ht : t = 1
    · subst ht
      exact Function.update_self 1 Phase.idle s.phases
    · exact (Function.update_of_ne ht Phase.idle s.phases).trans h.idle
  have hfree : Free s₁ 1 := ⟨Nat.one_ne_zero, hidle 1⟩
  have hok₁ : Disciplined s₁ (.release 1 .shared n) := by
    refine ⟨fun t m p he => ?_, nofun⟩
    cases he
    rw [← hs₁]
    exact List.mem_cons_self
  have hloc : Srw.locate s₁.table n = some (.slot n) := by
    rw [← hs₁]
    exact hhere
  have hst₁ := release_step (m := .shared) hfree hloc
  refine ⟨_, _, (Run.single hok hst).snoc hok₁ hst₁, step_inv hi₁ hok₁ hst₁, ?_, fun {i} hi => ?_,
    ?_, fun {t} => hidle t⟩
  · rw [set_count, ← hs₁]
    exact (set_count _ _ _).trans hcount
  · subst hs₁
    by_cases hin : i = n
    · subst hin
      rw [set_get, releaseEntry_ptr, set_get, hptr, hget]
    · have hne : Entry.slot i ≠ .slot n := fun he => hin (Entry.slot.inj he)
      rw [set_get_ne hne, set_get_ne hne, hother _ hne]
      exact h.ptrs (by omega)
  · rw [← hs₁]
    exact List.erase_cons_head _ _

theorem fill (hn : n ≤ maxSrw) : ∃ tr s, Run step Disciplined .init tr s ∧ Filled s n := by
  induction n with
  | zero => exact ⟨[], .init, .nil, init_inv, rfl, nofun, rfl, rfl⟩
  | succ n ih =>
    obtain ⟨tr, s, hr, hs⟩ := ih (by omega)
    obtain ⟨tr', s', hr', hs'⟩ := hs.next (by omega)
    exact ⟨tr ++ tr', s', hr.append hr', hs'⟩

/-- An acquire that is not granted waits, and changes no hold. -/
theorem acquire_waits (hi : Inv s) (hfree : Free s t)
    (hno : ¬∃ s', step s (.acquire t m p) = some (s', .granted)) :
    ∃ T e, Looked s.table p e T ∧ step s (.acquire t m p) =
      some (⟨T, Function.update s.phases t (.contended m p), s.holds⟩, .blocked) := by
  obtain ⟨e, T, hf, hl⟩ := srwFor_spec hi.wf p
  refine ⟨T, e, hl, ?_⟩
  simp only [step, hfree, ↓reduceIte, hf, Option.map_some, State.settle] at hno ⊢
  split
  · rename_i hv
    simp [hv] at hno
  · rfl

/-- The table is full and thread 1 holds one pointer, shared. It acquires
another one exclusively, which nobody holds, and never gets it. -/
theorem overflow_self_deadlock : ∃ tr s s' p q, Run step Disciplined .init tr s ∧
    s.holds = [⟨1, p, .shared⟩] ∧ p ≠ q ∧
    step s (.acquire 1 .exclusive q) = some (s', .blocked) ∧
    ∀ tr' s'', Run step Disciplined s' tr' s'' → s''.phases 1 ≠ .idle := by
  obtain ⟨tr, s, hr, hs⟩ := fill (Nat.le_refl maxSrw)
  have hover {p : Nat} (hp : maxSrw ≤ p) : locate s.table p = some .overflow := by
    rw [hs.locate hp, if_neg (Nat.lt_irrefl _)]
  obtain ⟨e, T, v, hl, hok, hptr, hst⟩ := hs.acquire maxSrw
  generalize hs₁ : (⟨T.set e v, Function.update s.phases 1 .idle,
    [⟨1, maxSrw, .shared⟩]⟩ : State) = s₁ at hst
  have hr₁ := hr.snoc hok hst
  have hi₁ := run_inv hr₁
  have hover₁ {p : Nat} (hp : maxSrw ≤ p) : locate s₁.table p = some .overflow := by
    rw [← hs₁]
    exact (locate_set hptr p).trans (hl.keeps (hover hp))
  have hholds : s₁.holds = [⟨1, maxSrw, .shared⟩] := by rw [← hs₁]
  have hidle : s₁.phases 1 = .idle := by
    rw [← hs₁]
    exact Function.update_self 1 Phase.idle s.phases
  have hfree : Free s₁ 1 := ⟨Nat.one_ne_zero, hidle⟩
  have hself : s₁.SelfBlocked 1 .exclusive (maxSrw + 1) := by
    refine ⟨rfl, hover₁ (Nat.le_succ _), fun hw => ?_, ⟨1, maxSrw, .shared⟩, by simp [hholds], rfl, rfl,
      hover₁ (Nat.le_refl _)⟩
    obtain ⟨x, hx, hm, -⟩ := (hi₁.agrees .overflow).held (by
      show s₁.table.overflow.writerTid ≠ 0
      rw [hw]
      exact Nat.one_ne_zero)
    obtain ⟨hmem, -⟩ := mem_on.mp hx
    rw [hholds, List.mem_singleton] at hmem
    rw [hmem] at hm
    cases hm
  have hno : ¬∃ s', step s₁ (.acquire 1 .exclusive (maxSrw + 1)) = some (s', .granted) := by
    rw [granted_iff hi₁ (.inl ⟨rfl, hfree⟩) (by simp [hholds]) (by simp [hholds, State.InWay]), not_not]
    exact hself
  obtain ⟨T', e', hl', hst'⟩ := acquire_waits hi₁ hfree hno
  have hok' : Disciplined s₁ (.acquire 1 .exclusive (maxSrw + 1)) := by
    refine ⟨by simp, fun t m q e'' hq he'' => ?_⟩
    cases hq
    obtain rfl : e'' = .overflow := Option.some.inj (he''.symm.trans (hover₁ (Nat.le_succ _)))
    have hcount := (hi₁.agrees .overflow).writerRec
    have hzero : holdsIn .exclusive (s₁.on .overflow) = 0 := by
      refine List.countP_eq_zero.mpr fun x hx => ?_
      obtain ⟨hmem, -⟩ := mem_on.mp hx
      rw [hholds, List.mem_singleton] at hmem
      simp [hmem]
    rw [hzero] at hcount
    show (s₁.table.get .overflow).writerRec < intMax
    rw [hcount]
    decide
  have hi' := step_inv hi₁ hok' hst'
  refine ⟨_, s₁, _, maxSrw, maxSrw + 1, hr₁, hholds, Nat.ne_of_lt (Nat.lt_succ_self _), hst', ?_⟩
  intro tr' s'' hrun
  have hstuck : Stuck ⟨T', Function.update s₁.phases 1 (.contended .exclusive (maxSrw + 1)),
      s₁.holds⟩ 1 (maxSrw + 1) := by
    have hwants : (Function.update s₁.phases 1 (.contended .exclusive (maxSrw + 1)) 1).wants =
        some (.exclusive, maxSrw + 1) := by
      rw [Function.update_self]
      rfl
    refine ⟨hwants, hl'.keeps (hover₁ (Nat.le_succ _)),
      ⟨1, maxSrw, .shared⟩, by simp [hholds], rfl, rfl, hl'.keeps (hover₁ (Nat.le_refl _))⟩
  exact (stuck_run hstuck hi' hrun).not_idle

-- ---------------------------------------------------------------------------
-- A run
-- ---------------------------------------------------------------------------

/-- `Disciplined`, as a check. -/
def checks (s : State) (a : Action) : Bool :=
  match a with
  | .release t m p => decide (⟨t, p, m⟩ ∈ s.holds)
  | a => match s.asks a with
    | none => true
    | some (_, m, p) => match locate s.table p with
      | none => true
      | some e => decide (Fits m (s.table.get e))

theorem checks_ok (h : checks s a = true) : Disciplined s a := by
  unfold checks at h
  split at h
  · refine ⟨fun _ _ _ he => ?_, nofun⟩
    cases he
    exact of_decide_eq_true h
  · rename_i hne
    refine ⟨fun t m p he => absurd he (hne t m p), fun t m p e hq he => ?_⟩
    simp only [hq, he, decide_eq_true_eq] at h
    exact h

/-- A reader waits for the writer, gets the lock when it is released, and then
keeps a try to write out. -/
def handover : List Action :=
  [.acquire 1 .exclusive 4096, .tryAcquire 2 .shared 4096, .acquire 2 .shared 4096, .resume 2,
    .release 1 .exclusive 4096, .resume 2, .tryAcquire 1 .exclusive 4096, .tryAcquire 1 .exclusive 8192]

theorem srw_law_handover : ∃ tr s, Run step Disciplined .init tr s ∧
    ⟨1, 8192, .exclusive⟩ ∈ s.holds ∧ ∀ u m, 1 ≠ u → ⟨u, 8192, m⟩ ∉ s.holds := by
  have hexec : (exec step (fun s a => checks s a = true) .init handover).any (fun r =>
      decide (⟨1, 8192, .exclusive⟩ ∈ r.2.holds ∧ r.1.map (·.2) = [.granted, .refused, .blocked,
        .blocked, .released, .granted, .refused, .granted])) = true := by decide +kernel
  obtain ⟨tr, s, hr, hp⟩ := Run.of_exec_any hexec
  have hheld := (of_decide_eq_true hp).1
  exact ⟨tr, s, hr.mono fun _ _ => checks_ok, hheld, fun u m hu =>
    (srw_law (hr.mono fun _ _ => checks_ok)).1 1 u 8192 m hu hheld⟩

end WineGlass.Srw
