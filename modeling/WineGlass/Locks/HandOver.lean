import WineGlass.Locks.Directed

/-!
# Handing the directed lock over

Whom the lock goes to: the thread that `wg_dir_set_prefer` named, or whoever's timer expires while
nobody has it. And what a thread that ends while the lock is pinned to it leaves behind.
-/

namespace WineGlass.Directed

open Runs

variable {c : Config} {l : List Thread} {s : State}

-- ---------------------------------------------------------------------------
-- The hand-over
-- ---------------------------------------------------------------------------

/-- No timer expires, and nobody asks for another thread. -/
def Patient (s : State) : Action → Prop
  | .wake _ timedOut => timedOut = false
  | .setPrefer _ _ => False
  | a => Nested s a

def Phase.expired : Phase → Bool
  | .awake timedOut _ => timedOut
  | _ => false

/-- `p` is to have the lock next, and no timer has expired that has not been looked at. -/
structure Preferred (p : Tid) (s : State) : Prop where
  prefer : s.prefer = p
  pending : ∀ t, (s.phase t).expired = false

theorem Preferred.update (hi : Preferred p s) (phase : s'.phase = Function.update s.phase t ph)
    (prefer : s'.prefer = s.prefer) (h : ph.expired = false) : Preferred p s' where
  prefer := prefer.trans hi.prefer
  pending u := by
    rw [phase]
    by_cases hu : u = t
    · subst hu
      rw [Function.update_self, h]
    · rw [Function.update_of_ne hu, hi.pending]

theorem Preferred.same (hi : Preferred p s) (prefer : s'.prefer = s.prefer)
    (phase : s'.phase = s.phase) : Preferred p s' where
  prefer := prefer.trans hi.prefer
  pending := by
    rw [phase]
    exact hi.pending

theorem Preferred.free (hi : Preferred p s) (hp : p ≠ 0) (h : Free c s t) : c.tid t = p := by
  rcases h.2 with hz | ht
  · exact absurd (hi.prefer.symm.trans hz) hp
  · exact ht.symm.trans hi.prefer

/-- The preferred thread takes the lock, or the preference stands. -/
def Hands (c : Config) (p : Tid) (s' : State) (e : List Event) : Prop :=
  (e.filterMap Event.acquirer = [] ∧ Preferred p s') ∨
    ∃ t, e.filterMap Event.acquirer = [t] ∧ c.tid t = p

theorem dirLock_hands (hi : Preferred p s) (hp : p ≠ 0) (h : dirLock c s t ends = some (s', e)) :
    Hands c p s' e := by
  unfold dirLock at h
  split at h
  · split at h
    · cases h
    · obtain ⟨rfl, rfl⟩ := Prod.mk.inj (Option.some.inj h)
      cases ends <;> exact .inl ⟨rfl, hi.update rfl rfl rfl⟩
  · split at h
    · rename_i hfree
      obtain ⟨rfl, rfl⟩ := Prod.mk.inj (Option.some.inj h)
      exact .inr ⟨t, rfl, hi.free hp hfree⟩
    · obtain ⟨rfl, rfl⟩ := Prod.mk.inj (Option.some.inj h)
      exact .inl ⟨rfl, hi.update rfl rfl rfl⟩

theorem retry_hands (hi : Preferred p s) (hp : p ≠ 0) (c : Config) (t : Thread) (ends : Bool) :
    Hands c p (retry c s t false ends).1 (retry c s t false ends).2 := by
  have hdrop : dropPrefer c s t false = s := if_neg nofun
  rw [retry, hdrop]
  split
  · rename_i hfree
    exact .inr ⟨t, rfl, hi.free hp hfree⟩
  · exact .inl ⟨rfl, hi.update rfl rfl rfl⟩

theorem Phase.broadcast_expired (ph : Phase) (h : ph.expired = false) :
    ph.broadcast.expired = false := by
  cases ph with
  | awake timedOut ends => exact h
  | _ => rfl

theorem dirUnlock_hands (hi : Preferred p s) (c : Config) (t : Thread) :
    (dirUnlock c s t).2.filterMap Event.acquirer = [] ∧ Preferred p (dirUnlock c s t).1 := by
  unfold dirUnlock
  simp only
  split
  · split
    · exact ⟨rfl, hi.same rfl rfl⟩
    · exact ⟨rfl, hi.prefer, fun u => (s.phase u).broadcast_expired (hi.pending u)⟩
  · exact ⟨rfl, hi.same rfl rfl⟩

theorem step_hands (hi : Preferred p s) (hp : p ≠ 0) (hok : Patient s a)
    (h : step c s a = some (s', e)) : Hands c p s' e := by
  cases a with
  | lock t =>
    simp only [step, Option.ite_none_right_eq_some] at h
    exact dirLock_hands hi hp h.2
  | wake t timedOut =>
    obtain rfl : timedOut = false := hok
    simp only [step] at h
    split at h
    · obtain ⟨rfl, rfl⟩ := Prod.mk.inj (Option.some.inj h)
      exact .inl ⟨rfl, hi.update rfl rfl rfl⟩
    · cases h
  | retry t =>
    simp only [step] at h
    split at h
    · rename_i timedOut ends hphase
      cases timedOut with
      | false =>
        have hhands := retry_hands hi hp c t ends
        rw [Option.some.inj h] at hhands
        exact hhands
      | true =>
        have hpending := hi.pending t
        rw [hphase] at hpending
        cases hpending
    · cases h
  | unlock t =>
    simp only [step, Option.ite_none_right_eq_some, Option.some.injEq] at h
    have hhands := dirUnlock_hands hi c t
    rw [h.2] at hhands
    exact .inl hhands
  | setPrefer t x => cases hok
  | blockBegin t =>
    simp only [step, Option.ite_none_right_eq_some, Option.some.injEq] at h
    obtain ⟨rfl, rfl⟩ := Prod.mk.inj h.2
    have hcounted : Preferred p { s with
      blocking := Function.update s.blocking t (s.blocking t + 1)
      mainBlocked := if c.tid t = 1 then true else s.mainBlocked
      tidBlocked := if c.tid t < maxTid then Function.update s.tidBlocked (c.tid t) true
        else s.tidBlocked } := hi.same rfl rfl
    obtain ⟨hnone, hkept⟩ := dirUnlock_hands hcounted c t
    exact .inl ⟨hnone, hkept.update rfl rfl rfl⟩
  | blockEnd t =>
    simp only [step, Option.ite_none_right_eq_some, blockEnd] at h
    have hcleared : Preferred p { s with
      mainBlocked := if c.tid t = 1 then false else s.mainBlocked } := hi.same rfl rfl
    exact dirLock_hands hcleared hp h.2
  | enter t | leave t | spin t window =>
    simp only [step, Option.ite_none_right_eq_some, Option.some.injEq, Prod.mk.injEq] at h
    obtain ⟨-, rfl, rfl⟩ := h
    exact .inl ⟨rfl, hi.same rfl rfl⟩
  | exit t =>
    simp only [step, Option.ite_none_right_eq_some, Option.some.injEq, Prod.mk.injEq] at h
    obtain ⟨-, rfl, rfl⟩ := h
    exact .inl ⟨rfl, hi.update rfl rfl rfl⟩

theorem acquirers_snoc (tr : List (Action × List Event)) (a : Action) (e : List Event) :
    acquirers (tr ++ [(a, e)]) = acquirers tr ++ e.filterMap Event.acquirer := by
  rw [acquirers, events_snoc, List.filterMap_append]
  rfl

theorem dropPrefer_free (ho : s.owned = false) : Free c (dropPrefer c s t true) t := by
  unfold dropPrefer
  split
  · exact ⟨ho, .inl rfl⟩
  · rename_i hkept
    refine ⟨ho, ?_⟩
    by_contra hne
    rw [not_or] at hne
    exact hkept ⟨rfl, ho, hne⟩

theorem dropPrefer_depth (c : Config) (s : State) (t : Thread) (timedOut : Bool) :
    (dropPrefer c s t timedOut).depth = s.depth := by
  unfold dropPrefer
  split <;> rfl

theorem acquire_prefer (h : Free c s t) :
    (acquire c { s with waiters := n } t ends).prefer = 0 := by
  have hzero : (if s.prefer = c.tid t then 0 else s.prefer) = 0 := by
    split
    · rfl
    · rename_i hne
      exact h.2.resolve_right hne
  cases ends <;> exact hzero

/-- The lock goes to the thread that was asked for, whoever else contends for it, or else to one
whose timer expires while nobody has it: a preference cannot stop the lock. -/
structure HandsOver (c : Config) (s : State) : Prop where
  next : Preferred p s → p ≠ 0 → Run (step c) Patient s tr s' → acquirers tr = t :: rest →
    c.tid t = p
  expires : s.owned = false → s.phase t = .asleep ends →
    ∃ s', Run (step c) anyStep s [(.wake t true, []), (.retry t, [.acquired t])] s' ∧
      s'.phase t = .running ∧ s'.depth t = s.depth t + 1 ∧ s'.prefer = 0

theorem hand_over (c : Config) (s : State) : HandsOver c s where
  next := by
    intro p tr s' t rest hi hp h htr
    have hall : (acquirers tr = [] ∧ Preferred p s') ∨
        ∃ t rest, acquirers tr = t :: rest ∧ c.tid t = p := by
      refine h.invariant (P := fun tr s => (acquirers tr = [] ∧ Preferred p s) ∨
        ∃ t rest, acquirers tr = t :: rest ∧ c.tid t = p) (.inl ⟨rfl, hi⟩) ?_
      rintro tr s a s' e (⟨hnone, hkept⟩ | ⟨t, rest, hsome, ht⟩) hok hs
      · rw [acquirers_snoc, hnone, List.nil_append]
        rcases step_hands hkept hp hok hs with hstays | ⟨t, hgot, ht⟩
        · exact .inl hstays
        · exact .inr ⟨t, [], hgot, ht⟩
      · rw [acquirers_snoc, hsome]
        exact .inr ⟨t, _, rfl, ht⟩
    rcases hall with ⟨hnone, -⟩ | ⟨u, rest', hsome, hu⟩
    · rw [hnone] at htr
      cases htr
    · rw [htr] at hsome
      rw [(List.cons.inj hsome).1]
      exact hu
  expires := by
    intro t ends ho hphase
    have hwake : step c s (.wake t true) =
        some ({ s with phase := Function.update s.phase t (.awake true ends) }, []) := by
      simp only [step, hphase]
    generalize hs : ({ s with phase := Function.update s.phase t (.awake true ends) } : State) = s₁
      at hwake
    have hawake : s₁.phase t = .awake true ends := by rw [← hs]; exact Function.update_self ..
    have hdepth : s₁.depth t = s.depth t := by rw [← hs]
    have hfree : Free c (dropPrefer c s₁ t true) t := dropPrefer_free (by rw [← hs]; exact ho)
    have hretry : step c s₁ (.retry t) = some (acquire c { dropPrefer c s₁ t true with
        waiters := (dropPrefer c s₁ t true).waiters - 1 } t ends, [.acquired t]) := by
      simp only [step, hawake, retry, if_pos hfree]
    refine ⟨_, .cons trivial hwake (.single trivial hretry), ?_, ?_, acquire_prefer hfree⟩
    · cases ends <;> exact Function.update_self ..
    · rw [← hdepth, ← dropPrefer_depth c s₁ t true]
      cases ends <;> exact Function.update_self ..

-- ---------------------------------------------------------------------------
-- Exits
-- ---------------------------------------------------------------------------

/-- The lock is kept for a thread that is no more. -/
def Abandoned (s : State) : Prop := s.owned ∧ s.phase s.owner = .exited

instance : Decidable (Abandoned s) := inferInstanceAs (Decidable (_ ∧ _))

/-- What a step leaves to a thread that does not take it. -/
structure Beside (s s' : State) (u : Thread) : Prop where
  phase : s'.phase u = s.phase u ∨ s'.phase u = (s.phase u).broadcast
  depth : s'.depth u = s.depth u

/-- Threads do not end while the lock is kept for them. -/
def Leaves (s : State) : Action → Prop
  | .exit t => s.depth t = 0 ∧ ¬ (s.owned ∧ s.owner = t)
  | a => Nested s a

theorem Leaves.nested (h : Leaves s a) : Nested s a := by
  cases a with
  | exit t => exact h.1
  | _ => exact h

end WineGlass.Directed
