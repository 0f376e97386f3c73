/-!
# Triples of a step function

A partial step function, run a given number of times, and total triples about
such runs. `Triple.loop` is the rule for a loop that counts a variant down.
-/

namespace Triples

section
variable {σ : Type u} {step : σ → Option σ}

/-- The state `n` steps on. -/
def steps (step : σ → Option σ) : Nat → σ → Option σ
  | 0, s => some s
  | n + 1, s => (step s).bind (steps step n)

/-- From every state of `P`, `n` steps go to a state of `Q`. -/
def Triple (step : σ → Option σ) (P : σ → Prop) (n : Nat) (Q : σ → Prop) : Prop :=
  ∀ s, P s → ∃ s', steps step n s = some s' ∧ Q s'

theorem steps_one (step : σ → Option σ) (s : σ) : steps step 1 s = step s := by
  simp [steps]

theorem steps_add (step : σ → Option σ) (a b : Nat) (s : σ) :
    steps step (a + b) s = (steps step a s).bind (steps step b) := by
  induction a generalizing s with
  | zero => rw [Nat.zero_add]; rfl
  | succ a ih =>
    rw [Nat.succ_add, steps, steps, Option.bind_assoc]
    exact congrArg _ (funext ih)

theorem steps_left (h : steps step (a + b) s = some s') : ∃ s₁, steps step a s = some s₁ := by
  rw [steps_add] at h
  obtain ⟨s₁, h₁, -⟩ := Option.bind_eq_some_iff.1 h
  exact ⟨s₁, h₁⟩

/-- A relation that every step extends holds over a run. -/
theorem steps_run {s s' : σ} {R : Nat → σ → σ → Prop} (hrefl : ∀ s, R 0 s s)
    (hstep : ∀ n s s₁ s', step s = some s₁ → R n s₁ s' → R (n + 1) s s')
    (h : steps step n s = some s') : R n s s' := by
  induction n generalizing s with
  | zero =>
    obtain rfl := Option.some.inj h
    exact hrefl s
  | succ n ih =>
    obtain ⟨s₁, h₁, hrest⟩ := Option.bind_eq_some_iff.1 h
    exact hstep n s s₁ s' h₁ (ih hrest)

-- ---------------------------------------------------------------------------
-- Rules
-- ---------------------------------------------------------------------------

theorem Triple.one (h : ∀ s, P s → ∃ s', step s = some s' ∧ Q s') : Triple step P 1 Q := by
  intro s hs
  rw [steps_one]
  exact h s hs

theorem Triple.seq (h : Triple step P a Q) (h' : Triple step Q b R) :
    Triple step P (a + b) R := by
  intro s hs
  obtain ⟨s₁, h₁, hq⟩ := h s hs
  obtain ⟨s₂, h₂, hr⟩ := h' s₁ hq
  refine ⟨s₂, ?_, hr⟩
  rw [steps_add, h₁]
  exact h₂

/-- A loop of `k` steps a turn, whose turns count the variant down to 0. -/
theorem Triple.loop {I : Nat → σ → Prop} (h : ∀ n, Triple step (I (n + 1)) k (I n)) :
    Triple step (I n) (n * k) (I 0) := by
  induction n with
  | zero =>
    intro s hs
    rw [Nat.zero_mul]
    exact ⟨s, rfl, hs⟩
  | succ n ih =>
    rw [Nat.succ_mul, Nat.add_comm (n * k)]
    exact (h n).seq ih

end

end Triples
