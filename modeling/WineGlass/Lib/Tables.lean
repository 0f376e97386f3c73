import Mathlib.Data.List.Basic

/-!
# Tables searched from the front

A table is a list, its entries found by a test. `revise` changes the first entry
that passes.
-/

namespace Tables

def revise (p : α → Bool) (f : α → α) : List α → List α
  | [] => []
  | a :: l => if p a then f a :: l else a :: revise p f l

variable {p q : α → Bool} {f g : α → α} {l : List α}

@[simp] theorem length_revise : (revise p f l).length = l.length := by
  induction l with
  | nil => rfl
  | cons a l ih =>
    unfold revise
    split <;> simp [ih]

theorem revise_none (h : l.find? p = none) : revise p f l = l := by
  induction l with
  | nil => rfl
  | cons a l ih =>
    rw [List.find?_cons] at h
    unfold revise
    cases hp : p a with
    | true => simp [hp] at h
    | false =>
      rw [hp] at h
      simp [ih h]

theorem find?_revise (h : l.find? p = some a) (hp : p (f a) = true) :
    (revise p f l).find? p = some (f a) := by
  induction l with
  | nil => cases h
  | cons b l ih =>
    rw [List.find?_cons] at h
    unfold revise
    cases hb : p b with
    | true =>
      obtain rfl : b = a := by simpa [hb] using h
      simp [hp]
    | false =>
      rw [hb] at h
      simp [hb, ih h]

/-- What is found by another test, when no entry that changes passes it, before or after. -/
theorem find?_revise_other (hq : ∀ a, p a = true → q a = false ∧ q (f a) = false) :
    (revise p f l).find? q = l.find? q := by
  induction l with
  | nil => rfl
  | cons a l ih =>
    unfold revise
    cases hp : p a with
    | true => simp [hq a hp]
    | false => simp [List.find?_cons, ih]

/-- An entry that is not where it was is the one that changed. -/
theorem mem_revise (h : b ∈ revise p f l) : b ∈ l ∨ ∃ a ∈ l, p a = true ∧ b = f a := by
  induction l with
  | nil => cases h
  | cons a l ih =>
    unfold revise at h
    cases hp : p a with
    | true =>
      rcases List.mem_cons.mp (by simpa [hp] using h) with rfl | h
      · exact .inr ⟨a, List.mem_cons_self, hp, rfl⟩
      · exact .inl (List.mem_cons_of_mem a h)
    | false =>
      rcases List.mem_cons.mp (by simpa [hp] using h) with rfl | h
      · exact .inl List.mem_cons_self
      · rcases ih h with h | ⟨c, hc, hpc, rfl⟩
        · exact .inl (List.mem_cons_of_mem a h)
        · exact .inr ⟨c, List.mem_cons_of_mem a hc, hpc, rfl⟩

theorem find?_revise_none (h : l.find? q = none) (hf : ∀ a, q (f a) = true → q a = true) :
    (revise p f l).find? q = none := by
  rw [List.find?_eq_none] at h ⊢
  intro b hb hq
  rcases mem_revise hb with hb | ⟨a, ha, -, rfl⟩
  · exact h b hb hq
  · exact h a ha (hf a hq)

/-- The entry that changes is the only one to pass another test afterwards. -/
theorem find?_revise_new (hp : l.find? p = some a) (hq : l.find? q = none)
    (hnew : q (f a) = true) : (revise p f l).find? q = some (f a) := by
  induction l with
  | nil => cases hp
  | cons b l ih =>
    rw [List.find?_cons] at hp hq
    unfold revise
    cases hqb : q b with
    | true => simp [hqb] at hq
    | false =>
      rw [hqb] at hq
      cases hpb : p b with
      | true =>
        obtain rfl : b = a := by simpa [hpb] using hp
        simp [hnew]
      | false =>
        rw [hpb] at hp
        simp [hqb, ih hp hq]

theorem revise_id (hf : ∀ a, f a = a) : revise p f l = l := by
  induction l with
  | nil => rfl
  | cons a l ih => simp [revise, hf, ih]

/-- Two changes of what is found are one. -/
theorem revise_revise (hg : ∀ a, p a = true → p (g a) = true) :
    revise p f (revise p g l) = revise p (fun a => f (g a)) l := by
  induction l with
  | nil => rfl
  | cons a l ih =>
    cases hp : p a with
    | true => simp [revise, hp, hg a hp]
    | false => simp [revise, hp, ih]

-- ---------------------------------------------------------------------------
-- Entries that are alone
-- ---------------------------------------------------------------------------

/-- At most one entry passes. -/
def Once (p : α → Bool) (l : List α) : Prop := l.countP p ≤ 1

theorem Once.revise (hl : Once q l) (hf : ∀ a, p a = true → q (f a) = true → q a = true) :
    Once q (revise p f l) := by
  refine Nat.le_trans ?_ hl
  clear hl
  induction l with
  | nil => exact Nat.le_refl 0
  | cons a l ih =>
    unfold Tables.revise
    cases hp : p a with
    | true =>
      have ha := hf a hp
      simp only [if_true, List.countP_cons]
      cases hq : q (f a) with
      | true => simp [ha hq]
      | false => simp
    | false =>
      simp only [Bool.false_eq_true, if_false, List.countP_cons]
      exact Nat.add_le_add_right ih _

/-- No entry passed before one was changed. -/
theorem Once.new (hq : l.find? q = none) : Once q (Tables.revise p f l) := by
  unfold Once
  induction l with
  | nil => exact Nat.zero_le 1
  | cons a l ih =>
    have hl : l.countP q = 0 := by
      rw [List.countP_eq_zero]
      exact fun b hb => List.find?_eq_none.mp hq b (List.mem_cons_of_mem a hb)
    have ha : ¬ q a = true := List.find?_eq_none.mp hq a List.mem_cons_self
    unfold Tables.revise
    cases hp : p a with
    | true =>
      simp only [if_true, List.countP_cons, hl]
      split <;> simp
    | false =>
      rw [List.find?_cons, Bool.not_eq_true _ |>.mp ha] at hq
      simpa [List.countP_cons, ha] using ih hq

/-- The one entry that passed does not any more. -/
theorem Once.gone (hl : Once p l) (hf : ∀ a, p (f a) = false) :
    (Tables.revise p f l).find? p = none := by
  induction l with
  | nil => rfl
  | cons a l ih =>
    unfold Once at hl
    rw [List.countP_cons] at hl
    unfold Tables.revise
    cases hp : p a with
    | true =>
      have hrest : l.countP p = 0 := by simpa [hp] using hl
      rw [List.countP_eq_zero] at hrest
      simpa [hf a, List.find?_eq_none] using hrest
    | false =>
      have hrest : Once p l := by simpa [Once, hp] using hl
      simp [hp, ih hrest]

end Tables
