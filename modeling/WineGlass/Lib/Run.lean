import Mathlib.Algebra.Ring.Int.Defs
import Mathlib.Algebra.Ring.Nat
import Mathlib.Data.List.Induction
import Mathlib.Logic.Function.Basic

/-!
# Runs of a labelled machine

A machine is a partial step function: from a state an action either is not
enabled (`none`) or gives the next state and a label, what an observer sees
of the step. `Run step ok s tr s'` is a finite run from `s` to `s'` with
trace `tr`, newest entry last, in which every action meets `ok` in the state
it is taken from. `Run.invariant` is the induction every safety result uses.
-/

namespace Runs

inductive Run (step : σ → α → Option (σ × ε)) (ok : σ → α → Prop) :
    σ → List (α × ε) → σ → Prop
  | nil : Run step ok s [] s
  | snoc : Run step ok s₀ tr s → ok s a → step s a = some (s', e) →
      Run step ok s₀ (tr ++ [(a, e)]) s'

/-- The condition of a run nobody restricts. -/
def anyStep (_ : σ) (_ : α) : Prop := True

instance (s : σ) (a : α) : Decidable (anyStep s a) := inferInstanceAs (Decidable True)

variable {step : σ → α → Option (σ × ε)} {ok ok' : σ → α → Prop}

/-- What holds at the start and is kept by every step holds all along. -/
theorem Run.invariant {P : List (α × ε) → σ → Prop} (h : Run step ok s₀ tr s) (init : P [] s₀)
    (keep : ∀ {tr s a s' e}, P tr s → ok s a → step s a = some (s', e) → P (tr ++ [(a, e)]) s') :
    P tr s := by
  induction h with
  | nil => exact init
  | snoc _ hok hs ih => exact keep ih hok hs

theorem Run.mono (hw : ∀ s a, ok s a → ok' s a) (h : Run step ok s₀ tr s) :
    Run step ok' s₀ tr s := by
  induction h with
  | nil => exact .nil
  | snoc _ hok hs ih => exact .snoc ih (hw _ _ hok) hs

theorem Run.single (hok : ok s a) (hs : step s a = some (s', e)) : Run step ok s [(a, e)] s' :=
  .snoc .nil hok hs

theorem Run.append (h : Run step ok s₀ tr s) (h' : Run step ok s tr' s') :
    Run step ok s₀ (tr ++ tr') s' := by
  induction h' with
  | nil => simpa using h
  | snoc _ hok hs ih =>
    rw [← List.append_assoc]
    exact .snoc ih hok hs

theorem Run.cons (hok : ok s a) (hs : step s a = some (s', e)) (h : Run step ok s' tr s'') :
    Run step ok s ((a, e) :: tr) s'' := (Run.single hok hs).append h

theorem Run.nil_inv (h : Run step ok s [] s') : s' = s := by
  generalize ht : [] = tr at h
  cases h with
  | nil => rfl
  | snoc => simp at ht

theorem Run.snoc_inv (h : Run step ok s₀ (tr ++ [(a, e)]) s') :
    ∃ s, Run step ok s₀ tr s ∧ ok s a ∧ step s a = some (s', e) := by
  generalize ht : tr ++ [(a, e)] = tr' at h
  cases h with
  | nil => simp at ht
  | snoc h hok hs =>
    obtain ⟨rfl, he⟩ := List.append_inj' ht rfl
    cases he
    exact ⟨_, h, hok, hs⟩

theorem Run.split (h : Run step ok s₀ (tr ++ tr') s') :
    ∃ s, Run step ok s₀ tr s ∧ Run step ok s tr' s' := by
  induction tr' using List.reverseRecOn generalizing s' with
  | nil => exact ⟨s', by simpa using h, .nil⟩
  | append_singleton tr' x ih =>
    rw [← List.append_assoc] at h
    obtain ⟨s, hr, hok, hs⟩ := h.snoc_inv
    obtain ⟨m, h1, h2⟩ := ih hr
    exact ⟨m, h1, .snoc h2 hok hs⟩

theorem Run.cons_inv (h : Run step ok s ((a, e) :: tr) s'') :
    ∃ s', ok s a ∧ step s a = some (s', e) ∧ Run step ok s' tr s'' := by
  rw [← List.singleton_append] at h
  obtain ⟨m, h1, h2⟩ := h.split
  rw [← List.nil_append [(a, e)]] at h1
  obtain ⟨s₁, h0, hok, hs⟩ := h1.snoc_inv
  obtain rfl := h0.nil_inv
  exact ⟨m, hok, hs, h2⟩

/-- Run a list of actions, stopping when one is refused. -/
def exec (step : σ → α → Option (σ × ε)) (ok : σ → α → Prop) [∀ s a, Decidable (ok s a)] :
    σ → List α → Option (List (α × ε) × σ)
  | s, [] => some ([], s)
  | s, a :: as =>
    if ok s a then
      match step s a with
      | none => none
      | some (s', e) =>
        match exec step ok s' as with
        | none => none
        | some (tr, s'') => some ((a, e) :: tr, s'')
    else none

theorem Run.of_exec [∀ s a, Decidable (ok s a)] (h : exec step ok s as = some (tr, s')) :
    Run step ok s tr s' := by
  induction as generalizing s tr with
  | nil =>
    simp only [exec, Option.some.injEq, Prod.mk.injEq] at h
    obtain ⟨rfl, rfl⟩ := h
    exact .nil
  | cons a as ih =>
    simp only [exec] at h
    split at h
    · rename_i hok
      split at h
      · cases h
      · rename_i s₁ e hs
        split at h
        · cases h
        · rename_i tr' s₂ ht
          simp only [Option.some.injEq, Prod.mk.injEq] at h
          obtain ⟨rfl, rfl⟩ := h
          exact .cons hok hs (ih ht)
    · cases h

/-- A run found by evaluation, with what was evaluated of it. -/
theorem Run.of_exec_any [∀ s a, Decidable (ok s a)] {P : List (α × ε) × σ → Bool}
    (h : (exec step ok s as).any P = true) : ∃ tr s', Run step ok s tr s' ∧ P (tr, s') = true := by
  rw [Option.any_eq_true] at h
  obtain ⟨⟨tr, s'⟩, hr, hp⟩ := h
  exact ⟨tr, s', .of_exec hr, hp⟩

/-- A value read after the update of one component is the new one, or that of
another component. -/
theorem update_cases {β : Type} {f : Nat → β} {t u : Nat} {x y : β}
    (h : Function.update f t x u = y) :
    u = t ∧ x = y ∨ u ≠ t ∧ f u = y := by
  by_cases hu : u = t
  · subst hu
    rw [Function.update_self] at h
    exact .inl ⟨rfl, h⟩
  · rw [Function.update_of_ne hu] at h
    exact .inr ⟨hu, h⟩

end Runs
