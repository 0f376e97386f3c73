import Mathlib.Order.Basic

/-!
# Walks along an index

Computations in `Option` step by step, and in loops: a loop looks at index `k`,
`k + 1`, … for as long as `goes` holds of the one it has just looked at.
`Walks ok goes k` says that `ok` holds of every index it reaches; a loop that is
`ok` or fails at each index succeeds exactly then.
-/

namespace Walk

/-- When what follows a step succeeds or not whatever the step has found. -/
theorem bind_isSome {x : Option β} {f : β → Option α} (h : ∀ a, x = some a → ((f a).isSome ↔ P)) :
    (x.bind f).isSome ↔ x.isSome ∧ P := by
  cases x with
  | none => simp
  | some a => simpa using h a rfl

theorem bind_isSome_some {x : Option β} {f : β → Option α} (h : (x.bind f).isSome) :
    ∃ a, x = some a ∧ (f a).isSome := by
  cases x with
  | none => cases h
  | some a => exact ⟨a, rfl, h⟩

/-- When a test decides between stopping and going on. -/
theorem ite_isSome [Decidable c] {x : Option α} :
    (if c then some a else x).isSome ↔ ¬ c → x.isSome := by
  split <;> rename_i h <;> simp [h]

/-- From `k` on, every index is `ok` that is reached by going on. -/
def Walks (ok goes : Nat → Prop) (k : Nat) : Prop :=
  ∀ j, k ≤ j → (∀ i, k ≤ i → i < j → goes i) → ok j

theorem walks_iff : Walks ok goes k ↔ ok k ∧ (goes k → Walks ok goes (k + 1)) := by
  constructor
  · intro h
    refine ⟨h k (Nat.le_refl k) fun i hk hi => absurd hi (Nat.not_lt_of_ge hk),
      fun hg j hj hgoes => ?_⟩
    refine h j (Nat.le_of_succ_le hj) fun i hk hi => ?_
    rcases Nat.eq_or_lt_of_le hk with rfl | hk
    · exact hg
    · exact hgoes i hk hi
  · rintro ⟨hok, hnext⟩ j hj hgoes
    rcases Nat.eq_or_lt_of_le hj with rfl | hj
    · exact hok
    · exact hnext (hgoes k (Nat.le_refl k) hj) j hj fun i hk hi => hgoes i (Nat.le_of_succ_le hk) hi

theorem walks_of_not_goes (h : ¬ goes k) : Walks ok goes k ↔ ok k :=
  walks_iff.trans (and_iff_left fun hg => absurd hg h)

/-- The rule for loops: it is enough to say what one turn does, and what the last one. -/
theorem loop_iff {f : Nat → Nat → Prop}
    (turn : ∀ left k, k + (left + 1) = n →
      (f (left + 1) k ↔ ok k ∧ (goes k → f left (k + 1))))
    (last : f 0 n ↔ Walks ok goes n) (hk : k + left = n) :
    f left k ↔ Walks ok goes k := by
  induction left generalizing k with
  | zero =>
    obtain rfl : k = n := hk
    exact last
  | succ left ih =>
    have hrest : f left (k + 1) ↔ Walks ok goes (k + 1) := ih (by omega)
    rw [turn left k hk, hrest, ← walks_iff]

-- ---------------------------------------------------------------------------
-- Searches
-- ---------------------------------------------------------------------------

/-- A loop whose turns fail, go on or return, at index `k` with `left` to go. -/
def search (turn : Nat → Option (Option α)) : (left k : Nat) → Option (Option α)
  | 0, _ => some none
  | left + 1, k => (turn k).bind fun r =>
    match r with
    | some a => some (some a)
    | none => search turn left (k + 1)

/-- A search succeeds when each turn it comes to does. -/
theorem search_iff {turn : Nat → Option (Option α)} {ok goes : Nat → Prop} (hok : ∀ i, (turn i).isSome ↔ ok i)
    (hgoes : ∀ i r, turn i = some r → (r = none ↔ goes i)) :
    (search turn n 0).isSome ↔ Walks (fun i => i < n → ok i) goes 0 := by
  refine loop_iff (f := fun left i => (search turn left i).isSome) (fun left i hi => ?_) ?_
    (Nat.zero_add n)
  · have hlt : i < n := by omega
    rw [search, forall_prop_of_true hlt, ← hok i]
    refine bind_isSome fun r hr => ?_
    have hnone := hgoes i r hr
    cases r with
    | none => exact ⟨fun h _ => h, fun h => h (hnone.1 rfl)⟩
    | some a => exact iff_of_true rfl fun hg => nomatch hnone.2 hg
  · exact iff_of_true rfl fun i hi _ hlt => absurd hlt (Nat.not_lt_of_ge hi)

/-- What a search comes to: nothing anywhere, or the first thing there is. -/
theorem search_some {turn : Nat → Option (Option α)} (h : search turn left k = some r) :
    (r = none ∧ ∀ i, k ≤ i → i < k + left → turn i = some none) ∨
      ∃ a i, r = some a ∧ k ≤ i ∧ i < k + left ∧ turn i = some (some a) ∧
        ∀ i', k ≤ i' → i' < i → turn i' = some none := by
  induction left generalizing k with
  | zero =>
    obtain rfl := Option.some.inj h
    exact .inl ⟨rfl, fun i hk hi => absurd hi (Nat.not_lt_of_ge hk)⟩
  | succ left ih =>
    rw [search] at h
    obtain ⟨r', hturn, h⟩ := Option.bind_eq_some_iff.1 h
    cases r' with
    | some a =>
      obtain rfl := Option.some.inj h
      exact .inr ⟨a, k, rfl, Nat.le_refl k, by omega, hturn,
        fun i' hk hi => absurd hi (Nat.not_lt_of_ge hk)⟩
    | none =>
      -- Turn `k` goes on, and so does each that the rest of the loop has come past.
      have hpast : ∀ {P : Nat → Prop}, P k → (∀ i, k + 1 ≤ i → P i) → ∀ i, k ≤ i → P i := by
        intro P hk hrest i hi
        rcases Nat.eq_or_lt_of_le hi with rfl | hi
        · exact hk
        · exact hrest i hi
      rcases ih h with ⟨hr, hall⟩ | ⟨a, i, hr, hi, hlt, hat, hall⟩
      · exact .inl ⟨hr, hpast (fun _ => hturn) fun i hi hlt => hall i hi (by omega)⟩
      · exact .inr ⟨a, i, hr, by omega, by omega, hat, hpast (fun _ => hturn) hall⟩

end Walk
