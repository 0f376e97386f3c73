import WineGlass.Sync.Calls

/-!
# Condition variables

A sleeper captures the generation in the critical section that gives its mutex
up, a wake moves the generation on and broadcasts, and the sleep loop compares
the two. `CvSleeping` is what holds of a thread in that loop at any moment: the
generation never falls behind the captured one, and once a wake has come it is
ahead for good.
-/

namespace WineGlass.Sync

open Runs CInt

/-- The condition variable thread `t` sleeps on is not closed under it, and
its generation does not run out of `long`. -/
def CvOk (t : Nat) (s : State) (a : Action) : Prop :=
  ∀ cv csMtx timeout saved gen, s.calls t = .cvSleep cv csMtx timeout saved gen →
    (∀ u, a ≠ .call u (.close cv)) ∧
    ∀ i, s.table.findLocked cv = some i → s.Bumps a i → (s.table.objs i).count < longMax

/-- A call of `wg_sync_cv_wake` on `cv`. -/
def Action.Wakes (cv : Nat) (a : Action) : Prop := ∃ u wakeAll, a = .call u (.cvWake cv wakeAll)

def Trace.Wakes (cv : Nat) (tr : Trace) : Prop := ∃ x ∈ tr, x.1.Wakes cv

-- ---------------------------------------------------------------------------
-- Generations
-- ---------------------------------------------------------------------------

/-- Every generation is a `long`. -/
def GenerationsLong (T : Table) : Prop :=
  ∀ i, (T.objs i).type = .cv → -longMax - 1 ≤ (T.objs i).count

theorem Effect.generationsLong (h : Effect s a C ev C') (hC : GenerationsLong C.table) :
    GenerationsLong C'.table := by
  intro i hi
  by_cases hcv : (C.table.objs i).type = .cv
  · rcases h.generation (.inl hcv) with hsame | ⟨-, -, -, hnext⟩
    · rw [hsame]
      exact hC i hcv
    · rw [hnext]
      exact le_cLong
  · rcases h.new_or_old with ⟨j, o, -, -, -, hT, h0⟩ | ⟨-, -, hstay⟩
    · rw [hT] at hi ⊢
      by_cases hij : i = j
      · subst hij
        rw [Table.put_self] at hi ⊢
        rw [h0 hi]
        decide
      · rw [Table.put_ne _ hij] at hi
        exact absurd hi hcv
    · rw [(hstay i (by rw [hi]; simp)).type] at hi
      exact absurd hi hcv

theorem run_generationsLong (h : Run step ok .init tr s) : GenerationsLong s.table :=
  run_effects (P := fun _ C => GenerationsLong C.table) h (fun _ hi => by cases hi)
    fun _ _ _ hC he => he.generationsLong hC

/-- While a condition variable is open its generation does not go back. -/
theorem step_generation (hs : Sane s) (h : step s a = some (s', l))
    (hty : (s.table.objs i).type = .cv) (hlow : -longMax - 1 ≤ (s.table.objs i).count)
    (hb : s.Bumps a i → (s.table.objs i).count < longMax) (ha : s.Spares a i) :
    (s.table.objs i).count ≤ (s'.table.objs i).count := by
  let P (_ : List Event) (C : Core) : Prop :=
    (C.table.objs i).type = .cv ∧ (s.table.objs i).count ≤ (C.table.objs i).count
  have h0 : P [] s.core := ⟨hty, Int.le_refl _⟩
  have hinv : P ([] ++ l.events) s'.core := by
    refine (step_effects hs.noZero h).invariant hs.wf h0 ?_
    intro evs C ev C' _ hp he
    obtain ⟨hcv, hle⟩ := hp
    have hlive : (C.table.objs i).type ≠ .free := by simp [hcv]
    refine ⟨(he.stays hlive ha).type.trans hcv, ?_⟩
    rcases he.generation (.inl hcv) with hsame | ⟨-, hbump, hfrom, hnext⟩
    · rwa [hsame]
    · have hlt := hb hbump
      rw [hnext, hfrom, cLong_eq (by omega) (by omega)]
      omega
  exact hinv.2

theorem cvWake_step (hf : s.table.findLocked cv = some i) (hty : (s.table.objs i).type = .cv)
    (h : step s (.call u (.cvWake cv wakeAll)) = some (s', l)) :
    (s'.table.objs i).count = cLong ((s.table.objs i).count + 1) ∧ ∀ t, s'.woken t = true := by
  simp only [step, runOp, cvWake, hf, hty, ↓reduceIte, Option.ite_none_right_eq_some,
    Option.some.injEq] at h
  rw [fst_of_eq h.2]
  exact ⟨by simp [bumpCount], fun _ => rfl⟩

-- ---------------------------------------------------------------------------
-- A thread in the sleep loop
-- ---------------------------------------------------------------------------

/-- Thread `t` sleeps on the condition variable in slot `c`, `tr` since its
call. -/
structure CvSleeping (t cv c csMtx : Nat) (saved gen : Int) (tr : Trace) (s : State) : Prop where
  call : s.calls t = .cvSleep cv csMtx syncInfinite saved gen
  found : s.table.findLocked cv = some c
  type : (s.table.objs c).type = .cv
  low : -longMax - 1 ≤ (s.table.objs c).count
  behind : gen ≤ (s.table.objs c).count
  woken : tr.Wakes cv → gen < (s.table.objs c).count ∧ s.woken t = true
  still (r₁ r₂ : Trace) : tr = r₁ ++ r₂ → r₁.Wakes cv → ∀ x ∈ r₂, x.1.thread ≠ some t

/-- A thread inside its sleep: in the loop, or out of it with the code for a
wake. -/
def InSleep (t cv c csMtx : Nat) (tr : Trace) (s : State) : Prop :=
  (∃ saved gen, CvSleeping t cv c csMtx saved gen tr s) ∨
  ∃ saved, s.calls t = .cvReacquire csMtx saved waitObject0

theorem Trace.Wakes.snoc {tr : Trace} (h : Trace.Wakes cv (tr ++ [(a, l)])) :
    tr.Wakes cv ∨ a.Wakes cv := by
  obtain ⟨x, hx, hw⟩ := h
  rcases List.mem_append.mp hx with hx | hx
  · exact .inl ⟨x, hx, hw⟩
  · obtain rfl := List.mem_singleton.mp hx
    exact .inr hw

theorem Trace.Wakes.left (h : Trace.Wakes cv r₁) (r₂ : Trace) : Trace.Wakes cv (r₁ ++ r₂) := by
  obtain ⟨x, hx, hw⟩ := h
  exact ⟨x, List.mem_append_left r₂ hx, hw⟩

/-- One more step keeps the order of wakes and the sleeper's own steps, if it
is another thread's or no wake came yet. -/
theorem still_snoc {tr : Trace}
    (h : ∀ r₁ r₂ : Trace, tr = r₁ ++ r₂ → r₁.Wakes cv → ∀ x ∈ r₂, x.1.thread ≠ some t)
    (ha : tr.Wakes cv → a.thread ≠ some t) (r₁ r₂ : Trace) (he : tr ++ [(a, l)] = r₁ ++ r₂)
    (hw : r₁.Wakes cv) : ∀ x ∈ r₂, x.1.thread ≠ some t := by
  induction r₂ using List.reverseRecOn with
  | nil => exact nofun
  | append_singleton r₂ y =>
    rw [← List.append_assoc] at he
    obtain ⟨rfl, hy⟩ := List.append_inj' he rfl
    obtain rfl := List.singleton_inj.mp hy
    intro x hx
    rcases List.mem_append.mp hx with hx | hx
    · exact h r₁ r₂ rfl hw x hx
    · obtain rfl := List.mem_singleton.mp hx
      exact ha (hw.left r₂)

theorem CvSleeping.other (h : CvSleeping t cv c csMtx saved gen tr s) (hs : Sane s) (hok : CvOk t s a)
    (hst : step s a = some (s', l)) (ha : a.thread ≠ some t) :
    CvSleeping t cv c csMtx saved gen (tr ++ [(a, l)]) s' := by
  obtain ⟨hopen, hlong⟩ := hok _ _ _ _ _ h.call
  have hspare : s.Spares a c := by
    rintro u k rfl hk
    refine hopen u ?_
    rw [(Table.findLocked_eq_some.mp hk).1, (Table.findLocked_eq_some.mp h.found).1]
  have hstay := step_stays hs hst (i := c) (by simp [h.type]) hspare
  have hup := step_generation hs hst h.type h.low (hlong c h.found) hspare
  have hf := step_frame hst ha
  refine ⟨hf.calls.trans h.call, hstay.find h.found, hstay.type.trans h.type,
    Int.le_trans h.low hup, Int.le_trans h.behind hup, fun hw => ?_, still_snoc h.still fun _ => ha⟩
  rcases hw.snoc with hw | ⟨u, wakeAll, rfl⟩
  · obtain ⟨hlt, hwoken⟩ := h.woken hw
    exact ⟨Int.lt_of_lt_of_le hlt hup, hf.woken hwoken⟩
  · obtain ⟨hcount, hwoken⟩ := cvWake_step h.found h.type hst
    have hlt := hlong c h.found (.inl ⟨u, cv, wakeAll, rfl, h.found⟩)
    have hlow := h.low
    have hle := h.behind
    rw [cLong_eq (by omega) (by omega)] at hcount
    exact ⟨by omega, hwoken t⟩

/-- A step of the sleeper itself: it leaves for the wake, or nothing woke it
and it waits again. -/
theorem CvSleeping.self (h : CvSleeping t cv c csMtx saved gen tr s)
    (hst : step s a = some (s', l)) (ha : a.thread = some t) :
    Retake s t csMtx saved waitObject0 (s', l) ∨
    l.ret = none ∧ CvSleeping t cv c csMtx saved gen (tr ++ [(a, l)]) s' := by
  have hi : cv - syncBase = c := by
    rw [(Table.findLocked_eq_some.mp h.found).1]
    exact Nat.add_sub_cancel_left syncBase c
  have hpass := step_cvSleep hst ha h.call
  generalize hr : (s', l) = r at hpass ⊢
  cases hpass with
  | woken => exact .inl cvLeave_cases
  | closed hf =>
    rw [h.found] at hf
    cases hf
  | timedOut ht => exact absurd rfl ht
  | parked hg =>
    cases hr
    rw [hi] at hg
    have hno : ¬tr.Wakes cv := fun hw => by
      have hlt := (h.woken hw).1
      omega
    refine .inr ⟨rfl, park_calls_self s, h.found, h.type, h.low, h.behind, fun hw => ?_,
      still_snoc h.still fun hw => absurd hw hno⟩
    rcases hw.snoc with hw | ⟨u, wakeAll, rfl⟩
    · exact absurd hw hno
    · have hidle : s.calls u = .idle := by
        simp only [step, Option.ite_none_right_eq_some] at hst
        exact hst.1.2
      cases ha
      rw [h.call] at hidle
      cases hidle

theorem InSleep.keep (h : InSleep t cv c csMtx tr s) (hs : Sane s) (hok : CvOk t s a)
    (hst : step s a = some (s', l)) (hin : a.thread = some t → l.ret = none) :
    InSleep t cv c csMtx (tr ++ [(a, l)]) s' := by
  by_cases ha : a.thread = some t
  · rcases h with ⟨saved, gen, h⟩ | ⟨saved, hc⟩
    · rcases h.self hst ha with hleave | ⟨-, h'⟩
      · exact .inr ⟨saved, hleave.parks (hin ha)⟩
      · exact .inl ⟨saved, gen, h'⟩
    · exact .inr ⟨saved, (step_cvReacquire hst ha hc).parks (hin ha)⟩
  · rcases h with ⟨saved, gen, h⟩ | ⟨saved, hc⟩
    · exact .inl ⟨saved, gen, h.other hs hok hst ha⟩
    · exact .inr ⟨saved, (step_calls hst ha).trans hc⟩

theorem InSleep.end (h : InSleep t cv c csMtx tr s) (hst : step s a = some (s', l))
    (ha : a.thread = some t) (hret : l.ret = some rv) : rv = waitObject0 := by
  rcases h with ⟨saved, gen, h⟩ | ⟨saved, hc⟩
  · rcases h.self hst ha with hleave | ⟨hnone, -⟩
    · exact hleave.returns hret
    · rw [hnone] at hret
      cases hret
  · exact (step_cvReacquire hst ha hc).returns hret

-- ---------------------------------------------------------------------------
-- The law
-- ---------------------------------------------------------------------------

/-- The first step of a sleep waits: the generation is the one just captured. -/
theorem cvSleeping_first (hc : s.table.findLocked cv = some c) (hcv : (s.table.objs c).type = .cv)
    (hm : s.table.findLocked csMtx = some m) (hmx : (s.table.objs m).type = .mutex)
    (hlow : -longMax - 1 ≤ (s.table.objs c).count)
    (hst : step s (.cvSleep t cv csMtx syncInfinite) = some (s₁, l)) :
    l.ret = none ∧
      ∃ saved gen, CvSleeping t cv c csMtx saved gen [(.cvSleep t cv csMtx syncInfinite, l)] s₁ := by
  have hcm : c ≠ m := by
    rintro rfl
    rw [hcv] at hmx
    cases hmx
  have hf : Table.Keeps ({ · with ownerTid := 0, recursion := 0 }) := fun _ => ⟨rfl, rfl⟩
  have hfind := (hf.modify_find s.table (i := m) (h := cv)).trans hc
  have hobj := Table.modify_ne s.table (f := ({ · with ownerTid := 0, recursion := 0 })) hcm
  simp only [step, Option.ite_none_right_eq_some, Option.some.injEq, cvSleep, hc, hm, hcv, hmx,
    and_self, ↓reduceIte, cvSleepPass, broadcast_table, setTable_table, hfind, hobj, ne_eq,
    not_true_eq_false] at hst
  obtain ⟨-, hst⟩ := hst
  rw [if_neg (by decide)] at hst
  obtain ⟨rfl, rfl⟩ := Prod.mk.inj hst
  have hno : ¬Trace.Wakes cv [(.cvSleep t cv csMtx syncInfinite, ⟨none, []⟩)] := by
    rintro ⟨x, hx, u, wakeAll, hw⟩
    obtain rfl := List.mem_singleton.mp hx
    cases hw
  refine ⟨rfl, _, _, park_calls_self _, hfind, hobj ▸ hcv, ?_, ?_, fun hw => absurd hw hno, ?_⟩
  · exact hobj ▸ hlow
  · exact hobj ▸ Int.le_refl _
  · intro r₁ r₂ he hw
    exact absurd (he ▸ hw.left r₂) hno

/-- No wake-up is lost. A thread inside a sleep without a timeout, after a
wake of its condition variable, has left the sleep loop with `WG_WAIT_OBJECT_0`,
or has not run since the wake and leaves with it as soon as it does, which the
broadcast lets it; and the sleep returns nothing else. -/
theorem cv_wake_law (h : Run step anyStep .init tr s)
    (hc : s.table.findLocked cv = some c) (hcv : (s.table.objs c).type = .cv)
    (hm : s.table.findLocked csMtx = some m) (hmx : (s.table.objs m).type = .mutex)
    (hrun : Run step (CvOk t) s ((.cvSleep t cv csMtx syncInfinite, l) :: rest) s') :
    (∀ r₁ x r₂, rest = r₁ ++ x :: r₂ → x.1.Wakes cv →
      Trace.Inside ((.cvSleep t cv csMtx syncInfinite, l) :: rest) t →
      ∃ saved, s'.calls t = .cvReacquire csMtx saved waitObject0 ∨
        ∃ gen, s'.calls t = .cvSleep cv csMtx syncInfinite saved gen ∧ s'.woken t = true ∧
          step s' (.resume t) = some (cvLeave s' t csMtx saved waitObject0) ∧
          ∀ y ∈ r₂, y.1.thread ≠ some t) ∧
    ∀ rv, Trace.Returns ((.cvSleep t cv csMtx syncInfinite, l) :: rest) t rv → rv = waitObject0 := by
  let Inside (tr : Trace) (s : State) : Prop := Sane s ∧ InSleep t cv c csMtx tr s
  have first {s₁ : State} (_ : CvOk t s (.cvSleep t cv csMtx syncInfinite))
      (hst : step s (.cvSleep t cv csMtx syncInfinite) = some (s₁, l)) (_ : l.ret = none) :
      Inside [(.cvSleep t cv csMtx syncInfinite, l)] s₁ :=
    ⟨step_sane (run_sane h) hst,
      .inl (cvSleeping_first hc hcv hm hmx (run_generationsLong h c hcv) hst).2⟩
  have keep {tr : Trace} {s₁ : State} {a : Action} {l : Label} {s₂ : State}
      (hq : Inside tr s₁) (hok : CvOk t s₁ a)
      (hst : step s₁ a = some (s₂, l)) (hin : a.thread = some t → l.ret = none) :
      Inside (tr ++ [(a, l)]) s₂ :=
    ⟨step_sane hq.1 hst, hq.2.keep hq.1 hok hst hin⟩
  refine ⟨fun r₁ x r₂ hr hx hin => ?_, fun rv hret => ?_⟩
  · obtain ⟨-, hq⟩ := run_inside (Q := Inside) hrun rfl hin first keep
    rcases hq with ⟨saved, gen, hq⟩ | ⟨saved, hcall⟩
    · have hwakes : Trace.Wakes cv ((.cvSleep t cv csMtx syncInfinite, l) :: rest) :=
        ⟨x, by simp [hr], hx⟩
      obtain ⟨hlt, hwoken⟩ := hq.woken hwakes
      refine ⟨saved, .inr ⟨gen, hq.call, hwoken, ?_, ?_⟩⟩
      · have hne : (s'.table.objs c).count ≠ gen := by omega
        simp only [step, hq.call, cvSleepPass, hq.found, ne_eq, hne, not_false_eq_true, ↓reduceIte]
      · refine hq.still ((.cvSleep t cv csMtx syncInfinite, l) :: (r₁ ++ [x])) r₂ (by simp [hr]) ?_
        exact ⟨x, by simp, hx⟩
    · exact ⟨saved, .inl hcall⟩
  · obtain ⟨tr₁, s₁, a, l', -, -, hst, ha, hl, ⟨-, rfl, rfl⟩ | ⟨-, hq⟩⟩ :=
      run_call (Q := Inside) hrun rfl hret first keep
    · rw [(cvSleeping_first hc hcv hm hmx (run_generationsLong h c hcv) hst).1] at hl
      cases hl
    · exact hq.end hst ha hl

-- ---------------------------------------------------------------------------
-- Runs
-- ---------------------------------------------------------------------------

/-- Thread 1 owns a mutex, in slot 0; the condition variable is in slot 1. -/
def meeting : List Action := [.call 1 (.createMutex true), .call 1 .createCv]

def meetingSleep : Action := .cvSleep 1 (syncBase + 1) syncBase syncInfinite

/-- The steps a sleeper on the condition variable in slot 1 may see. -/
def Calm (s : State) (a : Action) : Prop :=
  (a = meetingSleep ∨ a = .resume 1 ∨ a = .call 2 (.cvWake (syncBase + 1) false)) ∧
    (s.table.objs 1).count < longMax

instance : Decidable (Calm s a) := inferInstanceAs (Decidable (_ ∧ _))

theorem Calm.cvOk (h : Calm s a) : CvOk 1 s a := by
  intro cv csMtx timeout saved gen _
  obtain ⟨rfl | rfl | rfl, hlt⟩ := h
  · refine ⟨nofun, fun i _ hb => ?_⟩
    obtain ⟨_, _, _, hb, -⟩ | ⟨_, _, hb, -⟩ := hb <;> cases hb
  · refine ⟨nofun, fun i _ hb => ?_⟩
    obtain ⟨_, _, _, hb, -⟩ | ⟨_, _, hb, -⟩ := hb <;> cases hb
  · refine ⟨nofun, fun i _ hb => ?_⟩
    obtain ⟨_, _, _, hb, hi⟩ | ⟨_, _, hb, -⟩ := hb <;> cases hb
    obtain rfl : 1 = i := by
      have hsum := (Table.findLocked_eq_some.mp hi).1
      omega
    exact hlt

/-- What thread 1 goes through: a spurious wake-up, which parks it again, and
the wake. -/
def spurious : Trace := [(meetingSleep, ⟨none, []⟩), (.resume 1, ⟨none, []⟩),
  (.call 2 (.cvWake (syncBase + 1) false), ⟨some 0, [.woke 1]⟩),
  (.resume 1, ⟨some waitObject0, [.reacquired 1 0]⟩)]

theorem cv_wake_law_spurious : ∃ tr s s', Run step anyStep .init tr s ∧
    Run step (CvOk 1) s spurious s' ∧ (∃ x ∈ spurious, x.1.Wakes (syncBase + 1)) ∧
    ∃ rv, Trace.Returns spurious 1 rv ∧ rv = waitObject0 := by
  have hexec : (exec step anyStep .init meeting).any (fun r =>
      decide (r.2.table.findLocked (syncBase + 1) = some 1 ∧ (r.2.table.objs 1).type = .cv ∧
        r.2.table.findLocked syncBase = some 0 ∧ (r.2.table.objs 0).type = .mutex) &&
      (exec step Calm r.2 [meetingSleep, .resume 1, .call 2 (.cvWake (syncBase + 1) false),
        .resume 1]).any fun r' =>
        decide (r'.1 = spurious)) = true := by decide +kernel
  obtain ⟨tr, s, hr, hp⟩ := Run.of_exec_any hexec
  obtain ⟨hs, hp⟩ := Bool.and_eq_true_iff.mp hp
  obtain ⟨hc, hcv, hm, hmx⟩ := of_decide_eq_true hs
  obtain ⟨tr', s', hr', hp'⟩ := Run.of_exec_any hp
  obtain rfl := of_decide_eq_true hp'
  have hrun := hr'.mono fun _ _ => Calm.cvOk
  have hret : Trace.Returns spurious 1 waitObject0 := by
    refine ⟨spurious.dropLast, .resume 1, ⟨some waitObject0, [.reacquired 1 0]⟩, rfl, ?_, rfl, rfl⟩
    decide
  have hwake : ∃ x ∈ spurious, x.1.Wakes (syncBase + 1) :=
    ⟨(.call 2 (.cvWake (syncBase + 1) false), ⟨some 0, [.woke 1]⟩), by decide, 2, false, rfl⟩
  exact ⟨tr, s, s', hr, hrun, hwake, _, hret, (cv_wake_law hr hc hcv hm hmx hrun).2 _ hret⟩

/-- A sleeper that owned its mutex is woken, and before it gets to run the
condition variable is closed: it returns `WG_WAIT_FAILED`. -/
theorem closed_cv_fails_sleep : ∃ tr s rest s', Run step anyStep .init tr s ∧
    s.table.findLocked (syncBase + 1) = some 1 ∧ (s.table.objs 1).type = .cv ∧
    s.table.findLocked syncBase = some 0 ∧ (s.table.objs 0).type = .mutex ∧
    (s.table.objs 0).ownerTid = 1 ∧
    Run step anyStep s ((meetingSleep, ⟨none, []⟩) :: rest) s' ∧
    (∃ x ∈ rest, x.1.Wakes (syncBase + 1)) ∧
    Trace.Returns ((meetingSleep, ⟨none, []⟩) :: rest) 1 waitFailed := by
  have hexec : (exec step anyStep .init meeting).any (fun r =>
      decide (r.2.table.findLocked (syncBase + 1) = some 1 ∧ (r.2.table.objs 1).type = .cv ∧
        r.2.table.findLocked syncBase = some 0 ∧ (r.2.table.objs 0).type = .mutex ∧
        (r.2.table.objs 0).ownerTid = 1) &&
      (exec step anyStep r.2 [meetingSleep, .call 2 (.cvWake (syncBase + 1) false),
        .call 2 (.close (syncBase + 1)), .resume 1]).any fun r' =>
        decide (r'.1 = [(meetingSleep, ⟨none, []⟩),
          (.call 2 (.cvWake (syncBase + 1) false), ⟨some 0, [.woke 1]⟩),
          (.call 2 (.close (syncBase + 1)), ⟨some 1, [.closed 1]⟩),
          (.resume 1, ⟨some waitFailed, [.reacquired 1 0]⟩)])) = true := by decide +kernel
  obtain ⟨tr, s, hr, hp⟩ := Run.of_exec_any hexec
  obtain ⟨hs, hp⟩ := Bool.and_eq_true_iff.mp hp
  obtain ⟨hc, hcv, hm, hmx, ho⟩ := of_decide_eq_true hs
  obtain ⟨tr', s', hr', hp'⟩ := Run.of_exec_any hp
  obtain rfl := of_decide_eq_true hp'
  exact ⟨tr, s, _, s', hr, hc, hcv, hm, hmx, ho, hr', ⟨_, List.mem_cons_self, 2, false, rfl⟩,
    _ :: _ :: [_], _, _, rfl, by decide, rfl, rfl⟩

end WineGlass.Sync
