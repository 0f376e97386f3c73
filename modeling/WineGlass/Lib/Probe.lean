import Mathlib.Data.Finset.Card
import Mathlib.Logic.Function.Basic

/-!
# Linear probing

A table of `n` slots, each empty or holding a key. `find` walks from a key's
home slot, around the table, to the key or to the first empty slot. Keys are
only added, each in the slot where `find` stopped for it; then every key stays
where `find` finds it (`Placed`), and what was found once is found again.
-/

namespace Probe

variable {κ : Type} {n fuel h r : Nat} {slot slot' : Nat → Option κ} {k : κ}

/-- The first `j` slots of the walk from `h` hold other keys. -/
def Passes (n : Nat) (slot : Nat → Option κ) (k : κ) (h j : Nat) : Prop :=
  ∀ i < j, ∃ k', slot ((h + i) % n) = some k' ∧ k' ≠ k

def Stops (slot : Nat → Option κ) (k : κ) (r : Nat) : Prop := slot r = none ∨ slot r = some k

theorem Passes.cons (hh : h < n) (h0 : slot h = some k') (hne : k' ≠ k)
    (hp : Passes n slot k ((h + 1) % n) j) : Passes n slot k h (j + 1) := by
  intro i hi
  cases i with
  | zero => exact ⟨k', by rwa [Nat.add_zero, Nat.mod_eq_of_lt hh], hne⟩
  | succ i =>
    obtain ⟨k₁, h1, h2⟩ := hp i (by omega)
    refine ⟨k₁, ?_, h2⟩
    rwa [Nat.mod_add_mod, Nat.add_right_comm, Nat.add_assoc] at h1

/-- With fewer indices than slots there is an empty slot. -/
theorem exists_empty {index : Nat → Nat} {m : Nat} (hm : m < n)
    (hlt : ∀ i, slot i ≠ none → index i < m)
    (hinj : ∀ i j, slot i ≠ none → slot j ≠ none → index i = index j → i = j) :
    ∃ e < n, slot e = none := by
  by_contra hno
  have hfull (i : Nat) (hi : i < n) : slot i ≠ none := fun h0 => hno ⟨i, hi, h0⟩
  have hmap : Set.MapsTo index (Finset.range n) (Finset.range m) := by
    intro i hi
    rw [Finset.mem_coe, Finset.mem_range] at hi ⊢
    exact hlt i (hfull i hi)
  obtain ⟨i, hi, j, hj, hne, he⟩ :=
    Finset.exists_ne_map_eq_of_card_lt_of_maps_to (by simpa using hm) hmap
  rw [Finset.mem_range] at hi hj
  exact hne (hinj i j (hfull i hi) (hfull j hj) he)

variable [DecidableEq κ]

def find (n : Nat) (slot : Nat → Option κ) (k : κ) : Nat → Nat → Option Nat
  | _, 0 => none
  | h, fuel + 1 =>
    match slot h with
    | none => some h
    | some k' => if k' = k then some h else find n slot k ((h + 1) % n) fuel

/-- Where a walk ends: past other keys only, at the key or an empty slot. -/
theorem find_some (hh : h < n) (hf : find n slot k h fuel = some r) :
    Stops slot k r ∧ ∃ j < fuel, r = (h + j) % n ∧ Passes n slot k h j := by
  induction fuel generalizing h with
  | zero => cases hf
  | succ fuel ih =>
    have hself : h = (h + 0) % n := (Nat.mod_eq_of_lt hh).symm
    simp only [find] at hf
    split at hf
    · rename_i h0
      obtain rfl := Option.some.inj hf
      exact ⟨.inl h0, 0, Nat.succ_pos fuel, hself, nofun⟩
    · rename_i k' h0
      split at hf
      · rename_i hk
        obtain rfl := Option.some.inj hf
        exact ⟨.inr (hk ▸ h0), 0, Nat.succ_pos fuel, hself, nofun⟩
      · rename_i hne
        obtain ⟨hstop, j, hj, hr, hp⟩ := ih (Nat.mod_lt _ (by omega)) hf
        refine ⟨hstop, j + 1, by omega, ?_, .cons hh h0 hne hp⟩
        rw [hr, Nat.mod_add_mod, Nat.add_right_comm, Nat.add_assoc]

theorem find_of_passes (hh : h < n) (hj : j < fuel) (hp : Passes n slot k h j)
    (hs : Stops slot k ((h + j) % n)) : find n slot k h fuel = some ((h + j) % n) := by
  induction fuel generalizing h j with
  | zero => cases hj
  | succ fuel ih =>
    cases j with
    | zero =>
      have hself : (h + 0) % n = h := Nat.mod_eq_of_lt hh
      rw [hself] at hs ⊢
      rcases hs with h0 | h0 <;> simp [find, h0]
    | succ j =>
      obtain ⟨k', h0, hne⟩ := hp 0 (Nat.succ_pos j)
      rw [Nat.add_zero, Nat.mod_eq_of_lt hh] at h0
      have hshift (i : Nat) : ((h + 1) % n + i) % n = (h + (i + 1)) % n := by
        rw [Nat.mod_add_mod, Nat.add_right_comm, Nat.add_assoc]
      simp only [find, h0, hne, ↓reduceIte]
      rw [← hshift j] at hs ⊢
      refine ih (Nat.mod_lt _ (by omega)) (by omega) (fun i hi => ?_) hs
      rw [hshift]
      exact hp (i + 1) (by omega)

/-- A walk around the whole table ends, if a slot is empty. -/
theorem find_isSome (hh : h < n) (he : e < n) (h0 : slot e = none) :
    ∃ r, find n slot k h n = some r := by
  by_contra hno
  rw [not_exists] at hno
  have hpass (j : Nat) (hj : j ≤ n) : Passes n slot k h j := by
    induction j with
    | zero => exact nofun
    | succ j ih =>
      intro i hi
      by_cases hij : i = j
      · subst hij
        cases hs : slot ((h + i) % n) with
        | none => exact absurd (find_of_passes hh hj (ih (by omega)) (.inl hs)) (hno _)
        | some k' =>
          refine ⟨k', rfl, ?_⟩
          rintro rfl
          exact hno _ (find_of_passes hh hj (ih (by omega)) (.inr hs))
      · exact ih (by omega) i (by omega)
  have hreach : ∃ i < n, (h + i) % n = e := by
    rcases Nat.lt_or_ge e h with hlt | hge
    · refine ⟨e + n - h, by omega, ?_⟩
      rw [show h + (e + n - h) = e + n by omega, Nat.add_mod_right, Nat.mod_eq_of_lt he]
    · exact ⟨e - h, by omega, by rw [Nat.add_sub_cancel' hge, Nat.mod_eq_of_lt he]⟩
  obtain ⟨i, hi, rfl⟩ := hreach
  obtain ⟨k', hs, -⟩ := hpass n (Nat.le_refl n) i hi
  rw [h0] at hs
  cases hs

/-- A walk takes the same way in a table with more keys, if the slot it ended
at still stops it. -/
theorem find_grow (hh : h < n) (hg : ∀ i, slot i ≠ none → slot' i = slot i)
    (hf : find n slot k h fuel = some r) (hs : Stops slot' k r) :
    find n slot' k h fuel = some r := by
  obtain ⟨-, j, hj, rfl, hp⟩ := find_some hh hf
  refine find_of_passes hh hj (fun i hi => ?_) hs
  obtain ⟨k', h0, hne⟩ := hp i hi
  exact ⟨k', by rw [hg _ (by simp [h0]), h0], hne⟩

/-- Every key is found, where it is. -/
def Placed (n : Nat) (home : κ → Nat) (slot : Nat → Option κ) : Prop :=
  ∀ r k, slot r = some k → find n slot k (home k) n = some r

theorem Placed.insert (hh : ∀ k, home k < n) (hp : Placed n home slot)
    (hf : find n slot k (home k) n = some r) (h0 : slot r = none) :
    Placed n home (Function.update slot r (some k)) := by
  have hg (i : Nat) (hi : slot i ≠ none) : Function.update slot r (some k) i = slot i := by
    refine Function.update_of_ne ?_ _ _
    rintro rfl
    exact hi h0
  intro r' k' hs
  by_cases hr : r' = r
  · subst hr
    obtain rfl : k = k' := by simpa using hs
    exact find_grow (hh k) hg hf (.inr hs)
  · have hold := hs
    rw [Function.update_of_ne hr] at hold
    exact find_grow (hh k') hg (hp r' k' hold) (.inr hs)

end Probe
