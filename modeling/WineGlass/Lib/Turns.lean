import Mathlib.Data.Nat.Notation

/-!
# Loops turn by turn

A loop over a state ends where `done` holds; a turn yields something and the
next state, or faults. A loop whose turns all lower a measure ends; one that
reaches a state whose turn leads back to it does not.
-/

namespace Turns

section
variable (done : σ → Prop) (turn : σ → Option (α × σ))

inductive Reaches (s : σ) : σ → Prop
  | start : Reaches s s
  | next (h : Reaches s t) (hd : ¬ done t) (ht : turn t = some (a, u)) : Reaches s u

variable [DecidablePred done]

/-- `none` when the turns run out, else what the turns yielded, or their fault. -/
def run : (turns : Nat) → σ → Option (Option (List α))
  | 0, _ => none
  | n + 1, s =>
    if done s then some (some [])
    else
      match turn s with
      | none => some none
      | some (a, t) => (run n t).map fun r => r.map fun as => a :: as

/-- The loop comes to its end or to a fault. -/
def Ends (s : σ) : Prop := ∃ n, (run done turn n s).isSome

end

variable {done : σ → Prop} {turn : σ → Option (α × σ)}

theorem Reaches.head (hd : ¬ done s) (ht : turn s = some (a, t)) (h : Reaches done turn t u) :
    Reaches done turn s u := by
  induction h with
  | start => exact .next .start hd ht
  | next _ hd' ht' ih => exact .next ih hd' ht'

variable [DecidablePred done]

theorem run_next (hd : ¬ done s) (ht : turn s = some (a, t)) :
    (run done turn (n + 1) s).isSome ↔ (run done turn n t).isSome := by
  rw [run, if_neg hd, ht, Option.isSome_map]

theorem ends_next (hd : ¬ done s) (ht : turn s = some (a, t)) :
    Ends done turn s ↔ Ends done turn t := by
  constructor
  · rintro ⟨n, hn⟩
    cases n with
    | zero => cases hn
    | succ n => exact ⟨n, (run_next hd ht).1 hn⟩
  · rintro ⟨n, hn⟩
    exact ⟨n + 1, (run_next hd ht).2 hn⟩

theorem ends_of_reaches (h : Reaches done turn s t) (he : Ends done turn s) :
    Ends done turn t := by
  induction h with
  | start => exact he
  | next _ hd ht ih => exact (ends_next hd ht).1 ih

/-- A loop whose reachable turns lower a measure ends. -/
theorem ends_of_measure (μ : σ → Nat)
    (h : ∀ t, Reaches done turn s t → ¬ done t → ∀ a u, turn t = some (a, u) → μ u < μ t) :
    Ends done turn s := by
  induction hm : μ s using Nat.strongRecOn generalizing s with
  | ind m ih =>
    by_cases hd : done s
    · exact ⟨1, by rw [run, if_pos hd]; rfl⟩
    · cases ht : turn s with
      | none => exact ⟨1, by rw [run, if_neg hd, ht]; rfl⟩
      | some r =>
        obtain ⟨a, t⟩ := r
        refine (ends_next hd ht).2 (ih (μ t) (hm ▸ h s .start hd a t ht) ?_ rfl)
        exact fun u hu => h u (hu.head hd ht)

/-- A turn that leads back to its state is taken for ever. -/
theorem not_ends_of_stuck (hd : ¬ done s) (ht : turn s = some (a, s)) : ¬ Ends done turn s := by
  rintro ⟨n, hn⟩
  induction n with
  | zero => cases hn
  | succ n ih => exact ih ((run_next hd ht).1 hn)

end Turns
