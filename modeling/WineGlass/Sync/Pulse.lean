import WineGlass.Sync.Calls

/-!
# Pulses

`wg_sync_pulse_event` sets, broadcasts and resets in one critical section. A
waiter tests the event after the section, so it never sees it signalled: a
pulse releases nobody.
-/

namespace WineGlass.Sync

open Runs

/-- Thread `t` waits for the handle inside `wg_sync_wait_single`. -/
def Parked (s : State) (k t : Nat) : Prop := ∃ timeout, s.calls t = .waitSingle k timeout

/-- The function thread `t` is in returns `WAIT_OBJECT_0` somewhere along the trace. -/
def Trace.Released (tr : Trace) (t : Nat) : Prop :=
  ∃ pre post, tr = pre ++ post ∧ Trace.Returns pre t waitObject0

/-- No set, kick or close of object `n`; another reset or pulse changes nothing. -/
def Alone (evs : List Event) (n : Nat) : Prop := .set n ∉ evs ∧ .kicked n ∉ evs ∧ .closed n ∉ evs

/-- What a pulse is for: the waiters of a manual-reset event, or one of an auto-reset event,
return, and the event is not signalled. -/
def PulseReleases (s : State) (k i : Nat) (tr : Trace) (s' : State) : Prop :=
  (if (s.table.objs i).manual then ∀ t, Parked s k t → tr.Released t
    else ∃ t, Parked s k t ∧ tr.Released t ∧ ∀ u, Parked s k u → tr.Released u → u = t) ∧
  (s'.table.objs i).signalled = false

-- ---------------------------------------------------------------------------
-- An event nobody sets
-- ---------------------------------------------------------------------------

theorem acquire_dark (h : o.signalled = false) (t : Nat) : (acquireLocked o t).signalled = false := by
  cases ho : o.type with
  | event =>
    simp only [acquireLocked, ho]
    split
    · exact h
    · rfl
  | _ => simp [acquireLocked, ho, h]

theorem acquireAll_dark {T : Table} (h : (T.objs i).signalled = false) (t : Nat) (is : List Nat) :
    ((T.acquireAll t is).objs i).signalled = false := by
  induction is generalizing T with
  | nil => exact h
  | cons j is ih =>
    refine ih ?_
    by_cases hij : i = j
    · subst hij
      rw [Table.modify_self]
      exact acquire_dark h t
    · rwa [Table.modify_ne _ hij]

theorem modify_dark {C : Core} (hf : ∀ o, (f o).signalled = o.signalled)
    (h : (C.table.objs i).signalled = false) : ((C.modify j f).table.objs i).signalled = false := by
  rw [modify_table]
  by_cases hij : i = j
  · subst hij
    rw [Table.modify_self, hf, h]
  · rwa [Table.modify_ne _ hij]

theorem Effect.dark (he : Effect s a C ev C') (hi : (C.table.objs i).type = .event)
    (hset : .set (C.table.ident i) ∉ ev) (hkick : .kicked (C.table.ident i) ∉ ev)
    (hdark : (C.table.objs i).signalled = false) : (C'.table.objs i).signalled = false := by
  cases he with
  | create _ _ hfree =>
    rw [Table.put_ne]
    · exact hdark
    · rintro rfl
      rw [hfree] at hi
      cases hi
  | signal _ hk =>
    rename_i b ev j hty
    rw [modify_table]
    by_cases hij : i = j
    · subst hij
      rw [Table.modify_self]
      cases hk with
      | set => exact absurd List.mem_cons_self hset
      | kicked => exact absurd List.mem_cons_self hkick
      | reset => rfl
      | pulsed => rfl
    · rwa [Table.modify_ne _ hij]
  | release =>
    refine modify_dark (fun o => ?_) hdark
    unfold releaseOnce
    split <;> rfl
  | post | exit | bump => exact modify_dark (fun _ => rfl) hdark
  | close =>
    show ((C.modify _ _).table.objs i).signalled = false
    exact modify_dark (fun _ => rfl) hdark
  | grant => exact acquireAll_dark hdark _ _
  | sleep | wake =>
    rw [setSleep_table]
    exact modify_dark (fun _ => rfl) hdark
  | abandon => exact hdark

theorem Effects.dark (h : Effects s a C ev C') (ha : s.Spares a i) (hi : (C.table.objs i).type = .event)
    (hset : .set (C.table.ident i) ∉ ev) (hkick : .kicked (C.table.ident i) ∉ ev)
    (hdark : (C.table.objs i).signalled = false) : (C'.table.objs i).signalled = false := by
  induction h with
  | nil => exact hdark
  | cons he _ ih =>
    rw [List.mem_append, not_or] at hset hkick
    have hst := he.stays (by simp [hi]) ha
    refine ih (hst.type.trans hi) ?_ ?_ (he.dark hi hset.1 hkick.1 hdark)
    · rw [hst.ident]
      exact hset.2
    · rw [hst.ident]
      exact hkick.2

theorem Alone.left (h : Alone (evs ++ ev) n) : Alone evs n :=
  h.imp (fun h => fun hm => h (List.mem_append_left _ hm)) fun h =>
    h.imp (fun h => fun hm => h (List.mem_append_left _ hm)) fun h => fun hm => h (List.mem_append_left _ hm)

theorem Alone.right (h : Alone (evs ++ ev) n) : Alone ev n :=
  h.imp (fun h => fun hm => h (List.mem_append_right _ hm)) fun h =>
    h.imp (fun h => fun hm => h (List.mem_append_right _ hm)) fun h => fun hm => h (List.mem_append_right _ hm)

/-- The event in slot `i`, open and not signalled. -/
structure Dark (T : Table) (i n : Nat) : Prop where
  type : (T.objs i).type = .event
  ident : T.ident i = n
  dark : (T.objs i).signalled = false

theorem step_dark (hs : Sane s) (h : step s a = some (s', l)) (hd : Dark s.table i n)
    (ha : Alone l.events n) : Dark s'.table i n := by
  have hi : (s.table.objs i).type ≠ .free := by simp [hd.type]
  obtain ⟨hset, hkick, hclose⟩ := ha
  rw [← hd.ident] at hset hkick hclose
  have hstay := step_open hs h hi hclose
  exact ⟨hstay.type.trans hd.type, hstay.ident.trans hd.ident,
    (step_effects hs.noZero h).dark (step_spares h hclose) hd.type hset hkick hd.dark⟩

theorem run_dark (h : Run step ok s tr s') (hs : Sane s) (hd : Dark s.table i n)
    (ha : Alone (Trace.events tr) n) : Sane s' ∧ Dark s'.table i n := by
  induction h with
  | nil => exact ⟨hs, hd⟩
  | snoc _ _ hst ih =>
    rw [events_snoc] at ha
    obtain ⟨hs₁, hd₁⟩ := ih ha.left
    exact ⟨step_sane hs₁ hst, step_dark hs₁ hst hd₁ ha.right⟩

theorem events_append (tr tr' : Trace) : Trace.events (tr ++ tr') = tr.events ++ tr'.events := List.flatMap_append

theorem Trace.Released.split {tr : Trace} (h : tr.Released t) (hr : Run step ok s tr s') :
    ∃ tr₁ a l post m m', tr = tr₁ ++ [(a, l)] ++ post ∧ Run step ok s tr₁ m ∧ step m a = some (m', l) ∧
      Trace.Inside tr₁ t ∧ a.thread = some t ∧ l.ret = some waitObject0 := by
  obtain ⟨pre, post, rfl, tr₁, a, l, rfl, hin, ha, hl⟩ := h
  obtain ⟨m', hpre, -⟩ := hr.split
  obtain ⟨m, h1, -, hst⟩ := hpre.snoc_inv
  exact ⟨tr₁, a, l, post, m, m', rfl, h1, hst, hin, ha, hl⟩

-- ---------------------------------------------------------------------------
-- A waiter
-- ---------------------------------------------------------------------------

theorem Dark.find (hd : Dark T i n) (hw : T.Wf) : T.findLocked (syncBase + i) = some i :=
  hw.find.2 (by rw [hd.type]; nofun)

/-- A step of a waiter on an event that is not signalled returns no `WAIT_OBJECT_0`, and one
that does not return waits on. -/
theorem dark_step (h : step s a = some (s', l)) (ha : a.thread = some t)
    (hc : s.calls t = .waitSingle (syncBase + i) timeout) (hw : s.table.Wf) (hd : Dark s.table i n) :
    l.ret ≠ some waitObject0 ∧ (l.ret = none → s'.calls t = .waitSingle (syncBase + i) timeout) := by
  have hfind := hd.find hw
  have hpass (hp : SinglePass s t (syncBase + i) timeout i (s', l)) : l.ret ≠ some waitObject0 ∧
      (l.ret = none → s'.calls t = .waitSingle (syncBase + i) timeout) := by
    cases hp with
    | taken _ hsat => simp [satisfiedLocked, hd.type, hd.dark] at hsat
    | timedOut hr =>
      rw [show l = _ from hr]
      exact ⟨by decide, by simp⟩
    | parked hr hcall =>
      rw [show l = _ from hr]
      exact ⟨by simp, fun _ => hcall⟩
  rcases step_waitSingle h ha hc with ⟨-, hnone, -⟩ | ⟨-, j, hj, hp⟩ | ⟨-, -, hp⟩
  · rw [hfind] at hnone
    cases hnone
  · obtain rfl := Option.some.inj (hfind.symm.trans hj)
    exact hpass hp
  · rw [Nat.add_sub_cancel_left] at hp
    exact hpass hp

theorem run_waits (h : Run step ok s tr s') (hs : Sane s) (hd : Dark s.table i n)
    (ha : Alone (Trace.events tr) n) (hc : s.calls t = .waitSingle (syncBase + i) timeout)
    (hin : Trace.Inside tr t) : s'.calls t = .waitSingle (syncBase + i) timeout := by
  induction h with
  | nil => exact hc
  | @snoc _ _ a _ _ hrun _ hst ih =>
    rw [events_snoc] at ha
    obtain ⟨hs₁, hd₁⟩ := run_dark hrun hs hd ha.left
    have hcall := ih ha.left fun x hx => hin x (List.mem_append_left _ hx)
    by_cases ht : a.thread = some t
    · exact (dark_step hst ht hcall hs₁.wf hd₁).2 (hin _ (List.mem_append_right _ List.mem_cons_self) ht)
    · rw [step_calls hst ht]
      exact hcall

/-- Nobody who waits for an event that nobody sets is released. -/
theorem dark_unreleased (h : Run step ok s tr s') (hs : Sane s) (hd : Dark s.table i n)
    (ha : Alone (Trace.events tr) n) (hc : s.calls t = .waitSingle (syncBase + i) timeout) :
    ¬Trace.Released tr t := by
  intro hr
  obtain ⟨tr₁, a, l, post, m, m', rfl, hrun, hst, hin, hthread, hret⟩ := Trace.Released.split hr h
  rw [events_append, events_append] at ha
  have ha₁ := ha.left.left
  obtain ⟨hs₁, hd₁⟩ := run_dark hrun hs hd ha₁
  exact (dark_step hst hthread (run_waits hrun hs hd ha₁ hc hin) hs₁.wf hd₁).1 hret

-- ---------------------------------------------------------------------------
-- The law
-- ---------------------------------------------------------------------------

theorem pulse_dark (hs : Sane s) (hf : s.table.findLocked k = some i) (hty : (s.table.objs i).type = .event)
    (h : step s (.call t (.pulseEvent k)) = some (s', l)) :
    Free s t ∧ Sane s' ∧ Dark s'.table i (s.table.ident i) := by
  have hsane := step_sane hs h
  simp only [step, Option.ite_none_right_eq_some, Option.some.injEq, runOp, pulseEvent, signalEvent, hf, hty,
    ↓reduceIte] at h
  obtain ⟨hfree, h⟩ := h
  have htable : s'.table = s.table.modify i ({ · with signalled := false }) := by rw [fst_of_eq h]; rfl
  refine ⟨hfree, hsane, ?_⟩
  rw [htable]
  exact ⟨by rw [Table.modify_self]; exact hty, rfl, by rw [Table.modify_self]⟩

theorem pulse_unheard (hs : Sane s) (hf : s.table.findLocked k = some i)
    (hty : (s.table.objs i).type = .event) (hst : step s (.call t (.pulseEvent k)) = some (s₁, l))
    (hrest : Run step ok s₁ rest s₂) (ha : Alone (Trace.events rest) (s.table.ident i))
    (hp : Parked s k u) : ¬Trace.Released rest u := by
  obtain ⟨timeout, hc⟩ := hp
  obtain ⟨hfree, hs₁, hd⟩ := pulse_dark hs hf hty hst
  have hne : Action.thread (.call t (.pulseEvent k)) ≠ some u := by
    intro he
    rw [Option.some.inj he] at hfree
    rw [hfree.2] at hc
    cases hc
  rw [← step_calls hst hne, (Table.findLocked_eq_some.1 hf).1] at hc
  exact dark_unreleased hrest hs₁ hd ha hc

/-- No pulse releases a waiter, in any state and any continuation; the event is left unsignalled. -/
theorem pulse_law (h : Run step ok .init tr s) (hf : s.table.findLocked k = some i)
    (hty : (s.table.objs i).type = .event) (hp : Parked s k u)
    (hst : step s (.call t (.pulseEvent k)) = some (s₁, l)) (hrest : Run step ok s₁ rest s₂)
    (ha : Alone (Trace.events rest) (s.table.ident i)) :
    ¬PulseReleases s k i rest s₂ ∧ (∀ v, Parked s k v → ¬Trace.Released rest v) ∧
      (s₂.table.objs i).signalled = false := by
  have hs := run_sane h
  have hnone (v : Nat) (hv : Parked s k v) := pulse_unheard hs hf hty hst hrest ha hv
  obtain ⟨-, hs₁, hd⟩ := pulse_dark hs hf hty hst
  refine ⟨?_, hnone, (run_dark hrest hs₁ hd ha).2.dark⟩
  rintro ⟨hrel, -⟩
  split at hrel
  · exact hnone u hp (hrel u hp)
  · obtain ⟨v, hv, hr, -⟩ := hrel
    exact hnone v hv hr

-- ---------------------------------------------------------------------------
-- A run
-- ---------------------------------------------------------------------------

theorem run_idle (h : Run step ok .init tr s) (hno : ∀ x ∈ tr, x.1.thread ≠ some t) : s.calls t = .idle := by
  induction h with
  | nil => rfl
  | snoc _ _ hst ih =>
    rw [step_calls hst (hno _ (List.mem_append_right _ List.mem_cons_self))]
    exact ih fun x hx => hno x (List.mem_append_left _ hx)

/-- A pulse of event 0 by thread 2, with thread 1 waiting for it and running after. -/
structure PulseOfTwo (tr : Trace) (s s₁ : State) (l : Label) (rest : Trace) (s₂ : State) : Prop where
  run : Run step anyStep .init tr s
  find : s.table.findLocked syncBase = some 0
  event : (s.table.objs 0).type = .event
  waits : s.calls 1 = .waitSingle syncBase syncInfinite
  one : ∀ x ∈ tr, x.1.thread = some 1
  pulse : step s (.call 2 (.pulseEvent syncBase)) = some (s₁, l)
  after : Run step anyStep s₁ rest s₂
  alone : Alone (Trace.events rest) (s.table.ident 0)
  ran : ∃ x ∈ rest, x.1.thread = some 1

instance : Decidable (Alone evs n) := inferInstanceAs (Decidable (_ ∧ _ ∧ _))

theorem pulseOfTwo : ∃ tr s s₁ l rest s₂, PulseOfTwo tr s s₁ l rest s₂ := by
  have hexec : (exec step anyStep .init [.call 1 (.createEvent true false),
      .waitSingle 1 syncBase syncInfinite]).any (fun r =>
        decide (r.2.table.findLocked syncBase = some 0 ∧ (r.2.table.objs 0).type = .event ∧
          r.2.calls 1 = .waitSingle syncBase syncInfinite ∧ ∀ x ∈ r.1, x.1.thread = some 1) &&
        (step r.2 (.call 2 (.pulseEvent syncBase))).any fun r' =>
          (exec step anyStep r'.1 [.resume 1]).any fun r'' =>
            decide (Alone (Trace.events r''.1) (r.2.table.ident 0) ∧ ∃ x ∈ r''.1, x.1.thread = some 1)) =
      true := by decide +kernel
  obtain ⟨tr, s, hrun, hp⟩ := Run.of_exec_any hexec
  rw [Bool.and_eq_true, Option.any_eq_true] at hp
  obtain ⟨hfacts, ⟨s₁, l⟩, hpulse, hafter⟩ := hp
  obtain ⟨hfind, hevent, hwaits, hone⟩ := of_decide_eq_true hfacts
  obtain ⟨rest, s₂, hrest, hlast⟩ := Run.of_exec_any hafter
  obtain ⟨halone, hran⟩ := of_decide_eq_true hlast
  exact ⟨tr, s, s₁, l, rest, s₂, hrun, hfind, hevent, hwaits, hone, hpulse, hrest, halone, hran⟩

theorem pulse_law_two : ∃ tr s s₁ l rest s₂, PulseOfTwo tr s s₁ l rest s₂ ∧
    ¬PulseReleases s syncBase 0 rest s₂ := by
  obtain ⟨tr, s, s₁, l, rest, s₂, h⟩ := pulseOfTwo
  exact ⟨tr, s, s₁, l, rest, s₂, h,
    (pulse_law h.run h.find h.event ⟨_, h.waits⟩ h.pulse h.after h.alone).1⟩

/-- The waiter of a manual-reset event runs after the pulse, and waits on. -/
theorem pulse_missed : ¬∀ (tr : Trace) (s s₁ s₂ : State) (k i t : Nat) (l : Label) (rest : Trace),
    Run step anyStep .init tr s → s.table.findLocked k = some i → (s.table.objs i).type = .event →
    (∃ u, Parked s k u) → step s (.call t (.pulseEvent k)) = some (s₁, l) →
    Run step anyStep s₁ rest s₂ → Alone (Trace.events rest) (s.table.ident i) →
    (∀ u, Parked s k u → ∃ x ∈ rest, x.1.thread = some u) → PulseReleases s k i rest s₂ := by
  intro hclaim
  obtain ⟨tr, s, s₁, l, rest, s₂, h⟩ := pulseOfTwo
  have hparked : Parked s syncBase 1 := ⟨_, h.waits⟩
  have honly (u : Nat) (hu : Parked s syncBase u) : u = 1 := by
    by_contra hne
    obtain ⟨timeout, hc⟩ := hu
    rw [run_idle h.run fun x hx he => hne (Option.some.inj (he.symm.trans (h.one x hx)))] at hc
    cases hc
  have hrel := hclaim tr s s₁ s₂ syncBase 0 2 l rest h.run h.find h.event ⟨1, hparked⟩ h.pulse h.after h.alone
    fun u hu => honly u hu ▸ h.ran
  have hnone (u : Nat) (hu : Parked s syncBase u) :=
    pulse_unheard (run_sane h.run) h.find h.event h.pulse h.after h.alone hu
  obtain ⟨hrel, -⟩ := hrel
  split at hrel
  · exact hnone 1 hparked (hrel 1 hparked)
  · obtain ⟨u, hu, hr, -⟩ := hrel
    exact hnone u hu hr

end WineGlass.Sync
