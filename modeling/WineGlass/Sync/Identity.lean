import WineGlass.Sync.Calls

/-!
# The object a wait is about

A handle names a slot, and a slot can be closed and used again while a thread
waits. Where that does not happen under a waiting thread, a wait that
succeeds got the object its handle named when the call was made.
-/

namespace WineGlass.Sync

open CInt Runs

-- ---------------------------------------------------------------------------
-- The condition
-- ---------------------------------------------------------------------------

/-- Thread `t` waits inside a call that still has a handle of slot `i`. -/
def State.Names (s : State) (t i : Nat) : Prop :=
  match s.calls t with
  | .waitSingle h _ => h = syncBase + i
  | .cvSleep cv csMtx .. => cv = syncBase + i ∨ csMtx = syncBase + i
  | .cvReacquire csMtx .. => csMtx = syncBase + i
  | _ => False

/-- The action creates an object under a handle a waiting thread still has. -/
def Reuses (s : State) (a : Action) : Prop := ∃ t i, s.Creates a i ∧ s.Names t i

/-- A thread that was woken goes on after its mutex was closed. -/
def StrandsWoken (s : State) (a : Action) : Prop :=
  ∃ t, a.thread = some t ∧
    match s.calls t with
    | .cvSleep cv csMtx _ _ gen => (s.table.objs (cv - syncBase)).count ≠ gen ∧
        (a = .resume t → s.table.findLocked cv ≠ none) ∧ s.table.findLocked csMtx = none
    | .cvReacquire csMtx _ rv => rv = waitObject0 ∧ s.table.findLocked csMtx = none
    | _ => False

def IdentityOk (s : State) (a : Action) : Prop := ¬ Reuses s a ∧ ¬ StrandsWoken s a

theorem step_named_spot (hs : Sane s) (hok : IdentityOk s a) (h : step s a = some (s', l))
    (hn : s.Names t i) (hsp : Spot evs s.table i n ty) (hty : ty ≠ .free) :
    Spot (evs ++ l.events) s'.table i n ty :=
  step_spot hs h (fun hc => hok.1 ⟨t, i, hc, hn⟩) hsp hty

-- ---------------------------------------------------------------------------
-- wg_sync_wait_single
-- ---------------------------------------------------------------------------

/-- A thread inside a wait for the object numbered `n`, `evs` since the call. -/
structure Waiting (t i timeout n : Nat) (ty : ObjType) (evs : List Event) (s : State) : Prop where
  sane : Sane s
  call : s.calls t = .waitSingle (syncBase + i) timeout
  spot : Spot evs s.table i n ty

theorem Waiting.keep (h : Waiting t i timeout n ty evs s) (hty : ty ≠ .free) (hok : IdentityOk s a)
    (hst : step s a = some (s', l)) (hin : a.thread = some t → l.ret = none) :
    Waiting t i timeout n ty (evs ++ l.events) s' := by
  have hn : s.Names t i := by simp [State.Names, h.call]
  refine ⟨step_sane h.sane hst, ?_, step_named_spot h.sane hok hst hn h.spot hty⟩
  by_cases ha : a.thread = some t
  · have hnone := hin ha
    have hpass {j : Nat} (hp : SinglePass s t (syncBase + i) timeout j (s', l)) :
        s'.calls t = .waitSingle (syncBase + i) timeout := by
      cases hp with
      | taken hr => rw [show l = _ from hr] at hnone; cases hnone
      | timedOut hr => rw [show l = _ from hr] at hnone; cases hnone
      | parked _ hc => exact hc
    rcases step_waitSingle hst ha h.call with ⟨-, -, rfl⟩ | ⟨-, j, -, hp⟩ | ⟨-, hret, -⟩
    · cases hnone
    · exact hpass hp
    · exact absurd hnone hret
  · rw [step_calls hst ha]
    exact h.call

/-- How a wait for the object numbered `n` returned, `evs` before its last step. -/
structure SingleEnd (t n rv : Nat) (evs : List Event) (a : Action) (l : Label) : Prop where
  taken : rv = waitObject0 → l.events = [.acquired t n]
  closed : .closed n ∈ evs → rv = waitFailed ∨ a = .expire t ∧ rv = waitTimeout

theorem SinglePass.end (h : SinglePass s t k timeout i (s', l)) (hret : l.ret = some rv)
    (hn : s.table.ident i = n) (hc : .closed n ∈ evs → (s.table.objs i).type = .free ∧ a = .expire t) :
    SingleEnd t n rv evs a l := by
  cases h with
  | taken hr hsat =>
    refine ⟨fun _ => ?_, fun hcl => ?_⟩
    · show l.events = _
      rw [show l = _ from hr, ← hn]
    · exact absurd (hc hcl).1 (satisfied_live hsat)
  | timedOut hr =>
    obtain rfl : l = _ := hr
    obtain rfl : waitTimeout = rv := Option.some.inj hret
    exact ⟨fun h => absurd h (by decide), fun hcl => .inr ⟨(hc hcl).2, rfl⟩⟩
  | parked hr =>
    obtain rfl : l = _ := hr
    cases hret

theorem Waiting.end (h : Waiting t i timeout n ty evs s) (hty : ty ≠ .free)
    (hst : step s a = some (s', l)) (ha : a.thread = some t) (hret : l.ret = some rv) :
    SingleEnd t n rv evs a l := by
  have hfind := h.spot.find h.sane.wf hty
  rcases step_waitSingle hst ha h.call with ⟨-, -, rfl⟩ | ⟨-, j, hf, hp⟩ | ⟨rfl, -, hp⟩
  · obtain rfl : waitFailed = rv := Option.some.inj hret
    exact ⟨fun h => absurd h (by decide), fun _ => .inl rfl⟩
  · rw [hfind] at hf
    split at hf
    · cases hf
    · rename_i hcl
      cases hf
      exact hp.end hret h.spot.ident fun hc => absurd hc hcl
  · rw [Nat.add_sub_cancel_left] at hp
    refine hp.end hret h.spot.ident fun hc => ⟨?_, rfl⟩
    rw [h.spot.type, if_pos hc]

theorem wait_single_end (hrun : Run step IdentityOk .init tr s)
    (hi : s.table.findLocked k = some i)
    (hcall : Run step IdentityOk s ((.waitSingle t k timeout, l) :: rest) s')
    (hret : Trace.Returns ((.waitSingle t k timeout, l) :: rest) t rv) :
    ∃ tr₁ a l', (.waitSingle t k timeout, l) :: rest = tr₁ ++ [(a, l')] ∧ l'.ret = some rv ∧
      SingleEnd t (s.table.ident i) rv (Trace.events tr₁) a l' := by
  have hsane := run_sane hrun
  have hlive := Table.findLocked_live hi
  obtain rfl := (Table.findLocked_eq_some.mp hi).1
  have hbegin {s₁ : State} {l : Label} (hst : step s (.waitSingle t (syncBase + i) timeout) = some (s₁, l)) :
      SinglePass s t (syncBase + i) timeout i (s₁, l) := by
    simp only [step, Option.ite_none_right_eq_some, Option.some.injEq, waitSingle, hi] at hst
    rw [← hst.2]
    exact waitSinglePass_cases rfl
  obtain ⟨tr₁, s₁, a, l', htr, hok, hst, ha, hl, hcase⟩ := run_call
    (Q := fun tr s₁ => Waiting t i timeout (s.table.ident i) (s.table.objs i).type (Trace.events tr) s₁)
    hcall rfl hret
    (by
      intro s₁ hok hst hnone
      refine ⟨step_sane hsane hst, ?_, ?_⟩
      · cases hbegin hst with
        | taken hr => rw [show l = _ from hr] at hnone; cases hnone
        | timedOut hr => rw [show l = _ from hr] at hnone; cases hnone
        | parked _ hc => exact hc
      · have hnc : ¬ s.Creates (.waitSingle t (syncBase + i) timeout) i := by
          rintro ⟨⟨_, _, h, -⟩, -⟩
          cases h
        simpa [Trace.events] using step_spot hsane hst hnc (Spot.start s.table rfl) hlive)
    (by
      intro tr s₁ a l s₂ hq hok hst hin
      rw [events_snoc]
      exact hq.keep hlive hok hst hin)
  refine ⟨tr₁, a, l', htr, hl, ?_⟩
  rcases hcase with ⟨rfl, rfl, rfl⟩ | hq
  · exact (hbegin hst).end hl rfl (by simp)
  · exact hq.end hlive hst ha hl

-- ---------------------------------------------------------------------------
-- wg_sync_cv_sleep
-- ---------------------------------------------------------------------------

/-- The spot of a condition variable whose generation was `gen` at the call. -/
structure CvSpot (evs : List Event) (T : Table) (i n : Nat) (gen : Int) : Prop
    extends Spot evs T i n .cv where
  unmoved : .woke n ∉ evs → (T.objs i).count = gen

/-- As the sleep loop looks at it, by its handle. -/
theorem CvSpot.unmoved_handle (h : CvSpot evs T i n gen) (hn : .woke n ∉ evs) :
    (T.objs (syncBase + i - syncBase)).count = gen := by
  rw [Nat.add_sub_cancel_left]
  exact h.unmoved hn

theorem CvSpot.open_or_closed (h : CvSpot evs T i n gen) :
    (T.objs i).type = .cv ∨ (T.objs i).type = .free := by
  rw [h.type]
  split
  · exact .inr rfl
  · exact .inl rfl

theorem step_cvSpot (hs : Sane s) (h : step s a = some (s', l)) (ha : ¬ s.Creates a i)
    (hsp : CvSpot evs s.table i n gen) : CvSpot (evs ++ l.events) s'.table i n gen := by
  refine (step_effects hs.noZero h).invariant (P := fun evs C => CvSpot evs C.table i n gen) hs.wf hsp ?_
  intro evs C ev C' hw hp he
  refine ⟨he.spot hw ha hp.toSpot (by simp), fun hw' => ?_⟩
  rw [List.mem_append, not_or] at hw'
  rcases he.generation (hp.open_or_closed.imp_right (⟨·, ha⟩)) with hsame | ⟨hwoke, -⟩
  · exact hsame.trans (hp.unmoved hw'.1)
  · rw [hp.ident] at hwoke
    exact absurd hwoke hw'.2

/-- A code of `wg_sync_cv_sleep` and what has to have happened for it. -/
def CodeOf (nc : Nat) (evs : List Event) (rv : Nat) : Prop :=
  rv = waitObject0 ∧ .woke nc ∈ evs ∨ rv = waitFailed ∨ rv = waitTimeout

/-- A thread inside a sleep on the condition variable numbered `nc` with the
mutex numbered `nm`, `evs` since the call. -/
structure Asleep (t c m timeout nc nm : Nat) (evs : List Event) (s : State) : Prop where
  sane : Sane s
  mutex : Spot evs s.table m nm .mutex
  phase : (∃ saved gen, s.calls t = .cvSleep (syncBase + c) (syncBase + m) timeout saved gen ∧
      CvSpot evs s.table c nc gen) ∨
    ∃ saved rv, s.calls t = .cvReacquire (syncBase + m) saved rv ∧ CodeOf nc evs rv

/-- How a sleep returned, `evs` before its last step. -/
structure SleepEnd (t nc nm rv : Nat) (evs : List Event) (l : Label) : Prop where
  woken : rv = waitObject0 → .woke nc ∈ evs ∧ l.events = [.reacquired t nm]
  closedCv : .closed nc ∈ evs → .woke nc ∉ evs → rv = waitFailed ∨ rv = waitTimeout
  closedMutex : .closed nm ∈ evs → rv = waitFailed ∨ rv = waitTimeout

theorem CodeOf.mono (h : CodeOf nc evs rv) : CodeOf nc (evs ++ ev) rv :=
  h.imp_left fun ⟨h1, h2⟩ => ⟨h1, List.mem_append_left ev h2⟩

theorem SleepPass.left (h : SleepPass s t cv csMtx timeout saved gen resumed r)
    (hw : .woke nc ∉ evs → (s.table.objs (cv - syncBase)).count = gen) :
    (∃ rv, r = cvLeave s t csMtx saved rv ∧ CodeOf nc evs rv ∧
      (rv = waitObject0 → (s.table.objs (cv - syncBase)).count ≠ gen ∧
        (resumed → s.table.findLocked cv ≠ none))) ∨
    r = (s.park t (.cvSleep cv csMtx timeout saved gen), ⟨none, []⟩) := by
  cases h with
  | woken hg hf =>
    refine .inl ⟨_, rfl, .inl ⟨rfl, ?_⟩, fun _ => ⟨hg, hf⟩⟩
    by_contra hn
    exact hg (hw hn)
  | closed => exact .inl ⟨_, rfl, .inr (.inl rfl), fun h => absurd h (by decide)⟩
  | timedOut => exact .inl ⟨_, rfl, .inr (.inr rfl), fun h => absurd h (by decide)⟩
  | parked => exact .inr rfl

theorem Retake.end (h : Retake s t (syncBase + m) saved rv (s', l)) (hret : l.ret = some rv')
    (hw : s.table.Wf) (hsp : Spot evs s.table m nm .mutex) (hcode : CodeOf nc evs rv)
    (hmtx : rv = waitObject0 → s.table.findLocked (syncBase + m) ≠ none) :
    SleepEnd t nc nm rv' evs l := by
  have hfind := hsp.find hw (by simp)
  have hopen (h0 : rv = waitObject0) : .closed nm ∉ evs := by
    intro hc
    exact hmtx h0 (by rw [hfind, if_pos hc])
  have hdone (hrv : rv = rv') (hev : rv = waitObject0 → l.events = [.reacquired t nm]) :
      SleepEnd t nc nm rv' evs l := by
    subst hrv
    rcases hcode with ⟨h0, hwk⟩ | hcode
    · exact ⟨fun _ => ⟨hwk, hev h0⟩, fun _ hn => absurd hwk hn, fun hc => absurd hc (hopen h0)⟩
    · refine ⟨fun h0 => ?_, fun _ _ => hcode, fun _ => hcode⟩
      rw [h0] at hcode
      rcases hcode with h | h <;> cases h
  cases h with
  | back i hi hr =>
    obtain rfl : l = _ := hr
    refine hdone (Option.some.inj hret) fun _ => ?_
    rw [hfind] at hi
    split at hi
    · cases hi
    · cases hi
      rw [hsp.ident]
  | gone hn hr =>
    obtain rfl : l = _ := hr
    refine hdone (Option.some.inj hret) fun h0 => ?_
    rw [if_neg (hopen h0)] at hfind
    refine absurd ?_ (hn m hfind)
    rw [hsp.type, if_neg (hopen h0)]
  | parked hr =>
    obtain rfl : l = _ := hr
    cases hret

theorem Asleep.keep (h : Asleep t c m timeout nc nm evs s) (hok : IdentityOk s a)
    (hst : step s a = some (s', l)) (hin : a.thread = some t → l.ret = none) :
    Asleep t c m timeout nc nm (evs ++ l.events) s' := by
  have hm : s.Names t m := by
    rcases h.phase with ⟨_, _, hc, -⟩ | ⟨_, _, hc, -⟩ <;> simp [State.Names, hc]
  refine ⟨step_sane h.sane hst, step_named_spot h.sane hok hst hm h.mutex (by simp), ?_⟩
  rcases h.phase with ⟨saved, gen, hc, hcv⟩ | ⟨saved, rv, hc, hcode⟩
  · have hcv' : CvSpot (evs ++ l.events) s'.table c nc gen :=
      step_cvSpot h.sane hst (fun hcr => hok.1 ⟨t, c, hcr, by simp [State.Names, hc]⟩) hcv
    by_cases ha : a.thread = some t
    · rcases (step_cvSleep hst ha hc).left hcv.unmoved_handle with ⟨rv, hr, hcode, -⟩ | hr
      · have hret : Retake s t (syncBase + m) saved rv (s', l) := hr ▸ cvLeave_cases
        exact .inr ⟨saved, rv, hret.parks (hin ha), hcode.mono⟩
      · obtain ⟨rfl, -⟩ := Prod.mk.inj hr
        exact .inl ⟨saved, gen, park_calls_self s, hcv'⟩
    · rw [step_calls hst ha]
      exact .inl ⟨saved, gen, hc, hcv'⟩
  · refine .inr ⟨saved, rv, ?_, hcode.mono⟩
    by_cases ha : a.thread = some t
    · exact (step_cvReacquire hst ha hc).parks (hin ha)
    · rw [step_calls hst ha]
      exact hc

theorem Asleep.end (h : Asleep t c m timeout nc nm evs s) (hok : IdentityOk s a)
    (hst : step s a = some (s', l)) (ha : a.thread = some t) (hret : l.ret = some rv) :
    SleepEnd t nc nm rv evs l := by
  rcases h.phase with ⟨saved, gen, hc, hcv⟩ | ⟨saved, rv', hc, hcode⟩
  · rcases (step_cvSleep hst ha hc).left hcv.unmoved_handle with ⟨rv', hr, hcode, hwoken⟩ | hr
    · have hret' : Retake s t (syncBase + m) saved rv' (s', l) := hr ▸ cvLeave_cases
      refine hret'.end hret h.sane.wf h.mutex hcode fun h0 hnone => ?_
      obtain ⟨hg, hf⟩ := hwoken h0
      refine hok.2 ⟨t, ha, ?_⟩
      simp only [hc]
      exact ⟨hg, hf, hnone⟩
    · obtain ⟨-, rfl⟩ := Prod.mk.inj hr
      cases hret
  · refine (step_cvReacquire hst ha hc).end hret h.sane.wf h.mutex hcode fun h0 hnone => ?_
    refine hok.2 ⟨t, ha, ?_⟩
    simp only [hc]
    exact ⟨h0, hnone⟩

theorem sleep_first (hc : s.table.findLocked (syncBase + c) = some c)
    (hm : s.table.findLocked (syncBase + m) = some m)
    (hst : step s (.cvSleep t (syncBase + c) (syncBase + m) timeout) = some (s₁, l)) :
    l = ⟨some waitFailed, []⟩ ∨ (s.table.objs c).type = .cv ∧ (s.table.objs m).type = .mutex ∧
      ((∃ saved, s₁.calls t = .cvSleep (syncBase + c) (syncBase + m) timeout saved
          (s.table.objs c).count ∧ l = ⟨none, []⟩) ∨
        ∃ s₂ saved rv, s₂.table = s.table.modify m ({ · with ownerTid := 0, recursion := 0 }) ∧
          Retake s₂ t (syncBase + m) saved rv (s₁, l) ∧ (rv = waitFailed ∨ rv = waitTimeout)) := by
  simp only [step, Option.ite_none_right_eq_some, Option.some.injEq] at hst
  obtain ⟨-, hst⟩ := hst
  obtain he | ⟨hcv, hmx, saved, s₂, ht, he⟩ :
      cvSleep s t (syncBase + c) (syncBase + m) timeout = _ ∨ _ := cvSleep_begin hc hm
  · rw [he] at hst
    exact .inl (congrArg Prod.snd hst).symm
  · refine .inr ⟨hcv, hmx, ?_⟩
    have hgen : (s₂.table.objs (syncBase + c - syncBase)).count = (s.table.objs c).count := by
      rw [Nat.add_sub_cancel_left, ht]
      exact Table.modify_count fun _ => rfl
    rw [he] at hst
    have hpass : SleepPass s₂ t (syncBase + c) (syncBase + m) timeout saved (s.table.objs c).count False
        (cvSleepPass s₂ t (syncBase + c) (syncBase + m) timeout saved (s.table.objs c).count) :=
      cvSleepPass_cases
    have hw : .woke 0 ∉ ([] : List Event) → _ := fun _ => hgen
    rcases hpass.left hw with ⟨rv, hr, hcode, hwoken⟩ | hr
    · rw [hr] at hst
      refine .inr ⟨s₂, saved, rv, ht, hst ▸ cvLeave_cases, ?_⟩
      rcases hcode with ⟨h0, -⟩ | hcode
      · exact absurd hgen (hwoken h0).1
      · exact hcode
    · rw [hr] at hst
      obtain ⟨rfl, rfl⟩ := Prod.mk.inj hst
      exact .inl ⟨saved, park_calls_self s₂, rfl⟩

theorem cv_sleep_end (hrun : Run step IdentityOk .init tr s)
    (hc : s.table.findLocked cv = some c) (hm : s.table.findLocked csMtx = some m)
    (hcall : Run step IdentityOk s ((.cvSleep t cv csMtx timeout, l) :: rest) s')
    (hret : Trace.Returns ((.cvSleep t cv csMtx timeout, l) :: rest) t rv) :
    ∃ tr₁ a l', (.cvSleep t cv csMtx timeout, l) :: rest = tr₁ ++ [(a, l')] ∧ l'.ret = some rv ∧
      SleepEnd t (s.table.ident c) (s.table.ident m) rv (Trace.events tr₁) l' := by
  have hsane := run_sane hrun
  obtain rfl := (Table.findLocked_eq_some.mp hc).1
  obtain rfl := (Table.findLocked_eq_some.mp hm).1
  have hnc (i : Nat) : ¬ s.Creates (.cvSleep t (syncBase + c) (syncBase + m) timeout) i := by
    rintro ⟨⟨_, _, h, -⟩, -⟩
    cases h
  obtain ⟨tr₁, s₁, a, l', htr, hok, hst, ha, hl, hcase⟩ := run_call
    (Q := fun tr s₁ => Asleep t c m timeout (s.table.ident c) (s.table.ident m) (Trace.events tr) s₁)
    hcall rfl hret
    (by
      intro s₁ hok hst hnone
      have hspot {i : Nat} {ty : ObjType} (hty : (s.table.objs i).type = ty) (hne : ty ≠ .free) :
          Spot l.events s₁.table i (s.table.ident i) ty := by
        simpa using step_spot hsane hst (hnc i) (Spot.start s.table hty) hne
      have hev : Trace.events [(Action.cvSleep t (syncBase + c) (syncBase + m) timeout, l)] = l.events := by
        simp [Trace.events]
      rw [hev]
      rcases sleep_first hc hm hst with rfl | ⟨hcv, hmx, ⟨saved, hcall, -⟩ | ⟨s₂, saved, rv', -, hr, hcode⟩⟩
      · cases hnone
      · refine ⟨step_sane hsane hst, hspot hmx (by simp), .inl ⟨saved, _, hcall, ?_⟩⟩
        have hstart : CvSpot [] s.table c (s.table.ident c) (s.table.objs c).count :=
          ⟨Spot.start s.table hcv, fun _ => rfl⟩
        simpa using step_cvSpot hsane hst (hnc c) hstart
      · exact ⟨step_sane hsane hst, hspot hmx (by simp), .inr ⟨saved, rv', hr.parks hnone, .inr hcode⟩⟩)
    (by
      intro tr s₁ a l s₂ hq hok hst hin
      rw [events_snoc]
      exact hq.keep hok hst hin)
  refine ⟨tr₁, a, l', htr, hl, ?_⟩
  rcases hcase with ⟨rfl, rfl, rfl⟩ | hq
  · rcases sleep_first hc hm hst with rfl | ⟨-, hmx, ⟨saved, -, rfl⟩ | ⟨s₂, saved, rv', ht, hr, hcode⟩⟩
    · obtain rfl : waitFailed = rv := Option.some.inj hl
      exact ⟨fun h => absurd h (by decide), fun _ _ => .inl rfl, fun _ => .inl rfl⟩
    · cases hl
    · have hf : Table.Keeps ({ · with ownerTid := 0, recursion := 0 }) := fun _ => ⟨rfl, rfl⟩
      have hw : s₂.table.Wf := by
        rw [ht]
        exact hsane.wf.modify hf
      have hsp : Spot [] s₂.table m (s₁.table.ident m) .mutex := by
        refine ⟨by rw [ht]; rfl, ?_⟩
        rw [ht, hf.modify_type, hmx]
        simp
      refine hr.end hl hw hsp (.inr hcode) fun h0 => ?_
      rw [h0] at hcode
      rcases hcode with h | h <;> cases h
  · exact hq.end hok hst ha hl

-- ---------------------------------------------------------------------------
-- The law
-- ---------------------------------------------------------------------------

/-- A wait that succeeds got the object its handle named at the call, a sleep
that succeeds was woken by its condition variable and has its mutex back, and
neither succeeds on an object closed before that. -/
theorem identity_law (hrun : Run step IdentityOk .init tr s) :
    (∀ t k timeout i l rest s' rv, s.table.findLocked k = some i →
      Run step IdentityOk s ((.waitSingle t k timeout, l) :: rest) s' →
      Trace.Returns ((.waitSingle t k timeout, l) :: rest) t rv →
      ∃ tr₁ a l', (.waitSingle t k timeout, l) :: rest = tr₁ ++ [(a, l')] ∧ l'.ret = some rv ∧
        SingleEnd t (s.table.ident i) rv (Trace.events tr₁) a l') ∧
    (∀ t cv csMtx timeout c m l rest s' rv, s.table.findLocked cv = some c →
      s.table.findLocked csMtx = some m →
      Run step IdentityOk s ((.cvSleep t cv csMtx timeout, l) :: rest) s' →
      Trace.Returns ((.cvSleep t cv csMtx timeout, l) :: rest) t rv →
      ∃ tr₁ a l', (.cvSleep t cv csMtx timeout, l) :: rest = tr₁ ++ [(a, l')] ∧ l'.ret = some rv ∧
        SleepEnd t (s.table.ident c) (s.table.ident m) rv (Trace.events tr₁) l') := by
  refine ⟨?_, ?_⟩
  · intro t k timeout i l rest s' rv hi hcall hret
    exact wait_single_end hrun hi hcall hret
  · intro t cv csMtx timeout c m l rest s' rv hc hm hcall hret
    exact cv_sleep_end hrun hc hm hcall hret

-- ---------------------------------------------------------------------------
-- Runs
-- ---------------------------------------------------------------------------

/-- Enough for `IdentityOk` in the run below, and can be evaluated. -/
def identityChecks (s : State) (a : Action) : Bool :=
  (match a with
    | .call _ (.setEvent _) | .waitSingle .. | .resume _ => true
    | _ => false) &&
  a.thread.all fun t => (s.calls t).sleep.isNone

theorem identityChecks_ok (s : State) (a : Action) (h : identityChecks s a = true) :
    IdentityOk s a := by
  obtain ⟨hact, hsleep⟩ := Bool.and_eq_true_iff.mp h
  constructor
  · rintro ⟨t, i, ⟨⟨u, op, rfl, hop⟩, -⟩, -⟩
    cases op with
    | setEvent => cases hop
    | _ => cases hact
  · rintro ⟨t, ha, hs⟩
    rw [ha, Option.all_some] at hsleep
    cases hc : s.calls t with
    | cvSleep | cvReacquire =>
      rw [hc] at hsleep
      cases hsleep
    | _ =>
      rw [hc] at hs
      exact hs

theorem create_first_ok : IdentityOk .init a := by
  constructor
  · rintro ⟨t, i, -, hn⟩
    exact hn
  · rintro ⟨t, -, hs⟩
    exact hs

/-- Thread 1 waits for an event that thread 2 sets. -/
def signalled : Trace :=
  [(.waitSingle 1 syncBase syncInfinite, ⟨none, []⟩), (.call 2 (.setEvent syncBase), ⟨some 1, [.set 0]⟩),
    (.resume 1, ⟨some waitObject0, [.acquired 1 0]⟩)]

theorem identity_law_signalled : ∃ tr₁ a l', signalled = tr₁ ++ [(a, l')] ∧ l'.ret = some waitObject0 ∧
    SingleEnd 1 0 waitObject0 (Trace.events tr₁) a l' := by
  obtain ⟨s, l, hs, hexec⟩ : ∃ s l, step .init (.call 2 (.createEvent false false)) = some (s, l) ∧
      (exec step (fun s a => identityChecks s a = true) s
        [.waitSingle 1 syncBase syncInfinite, .call 2 (.setEvent syncBase), .resume 1]).any
          (fun r => decide (r.1 = signalled ∧ s.table.findLocked syncBase = some 0 ∧
            s.table.ident 0 = 0)) = true := ⟨_, _, rfl, by decide +kernel⟩
  obtain ⟨tr, s', hr, hp⟩ := Run.of_exec_any hexec
  obtain ⟨rfl, hf, hid⟩ := of_decide_eq_true hp
  have hcreate : Run step IdentityOk .init _ s := .single create_first_ok hs
  have hret : Trace.Returns signalled 1 waitObject0 := by
    refine ⟨signalled.dropLast, .resume 1, ⟨some waitObject0, [.acquired 1 0]⟩, rfl, ?_, rfl, rfl⟩
    show ∀ x ∈ signalled.dropLast, x.1.thread = some 1 → x.2.ret = none
    decide
  have hwait := (identity_law hcreate).1 1 syncBase syncInfinite 0 _ _ s' waitObject0 hf
    (hr.mono identityChecks_ok) hret
  rw [hid] at hwait
  exact hwait

/-- Under thread 1 waiting for an event, thread 2 closes the event and creates
another, which gets the same handle. -/
def recycled : Trace :=
  [(.waitSingle 1 syncBase syncInfinite, ⟨none, []⟩),
    (.call 2 (.close syncBase), ⟨some 1, [.closed 0]⟩),
    (.call 2 (.createEvent false true), ⟨some syncBase,
      [.created 1 { type := .event, handle := syncBase, signalled := true }]⟩),
    (.resume 1, ⟨some waitObject0, [.acquired 1 1]⟩)]

/-- The wait succeeds on the other event, though its own was closed. -/
theorem wait_takes_recycled : ∃ tr s s', Run step anyStep .init tr s ∧
    s.table.findLocked syncBase = some 0 ∧ s.table.ident 0 = 0 ∧
    Run step anyStep s recycled s' ∧ Trace.Returns recycled 1 waitObject0 ∧
    .closed 0 ∈ Trace.events recycled ∧ .acquired 1 0 ∉ Trace.events recycled := by
  obtain ⟨s, l, hs, hexec⟩ : ∃ s l, step .init (.call 2 (.createEvent false false)) = some (s, l) ∧
      (exec step anyStep s [.waitSingle 1 syncBase syncInfinite, .call 2 (.close syncBase),
        .call 2 (.createEvent false true), .resume 1]).any
          (fun r => decide (r.1 = recycled ∧ s.table.findLocked syncBase = some 0 ∧
            s.table.ident 0 = 0)) = true := ⟨_, _, rfl, by decide +kernel⟩
  obtain ⟨tr, s', hr, hp⟩ := Run.of_exec_any hexec
  obtain ⟨rfl, hf, hid⟩ := of_decide_eq_true hp
  refine ⟨_, s, s', .single trivial hs, hf, hid, hr, ?_, by decide, by decide⟩
  refine ⟨recycled.dropLast, .resume 1, ⟨some waitObject0, [.acquired 1 1]⟩, rfl, ?_, rfl, rfl⟩
  show ∀ x ∈ recycled.dropLast, x.1.thread = some 1 → x.2.ret = none
  decide

end WineGlass.Sync
