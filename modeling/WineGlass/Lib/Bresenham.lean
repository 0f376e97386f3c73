import Mathlib.Data.Int.GCD
import Mathlib.Data.Int.ModEq
import Mathlib.Data.Nat.ModEq
import Mathlib.Tactic.Ring
import Mathlib.Tactic.Linarith

/-!
# Lines by an error term

A line goes `a` pixels along one axis and `b ≤ a` along the other. Each turn
moves along the first axis, and along the second when the error term has fallen
below `b`. The term starts at `a / 2`, loses `b` a turn and gains `a` with every
move along the second axis; it is what the second axis is behind the ideal line.
-/

namespace Bresenham

/-- The error term before turn `j`. -/
def err (a b : Nat) : Nat → Nat
  | 0 => a / 2
  | j + 1 => if err a b j < b then err a b j + a - b else err a b j - b

/-- The moves along the second axis in the first `j` turns. -/
def side (a b : Nat) : Nat → Nat
  | 0 => 0
  | j + 1 => side a b j + if err a b j < b then 1 else 0

/-- The largest value below `b` of the error term. -/
def crest (a b : Nat) : Nat := b - Nat.gcd a b + a / 2 % Nat.gcd a b

theorem err_step : err a b (j + 1) = if err a b j < b then err a b j + a - b else err a b j - b :=
  rfl

theorem side_step : side a b (j + 1) = side a b j + if err a b j < b then 1 else 0 := rfl

theorem crest_lt (ha : 0 < a) (hpos : 0 < b) : crest a b < b := by
  have hg : 0 < Nat.gcd a b := Nat.gcd_pos_of_pos_left b ha
  have hle : Nat.gcd a b ≤ b := Nat.le_of_dvd hpos (Nat.gcd_dvd_right a b)
  have hmod : a / 2 % Nat.gcd a b < Nat.gcd a b := Nat.mod_lt _ hg
  unfold crest
  omega

-- ---------------------------------------------------------------------------
-- The error term
-- ---------------------------------------------------------------------------

section

variable {a b : Nat} (ha : 0 < a) (hb : b ≤ a)

include ha hb

theorem err_lt (j : Nat) : err a b j < a := by
  induction j with
  | zero => exact Nat.div_lt_self ha (by decide)
  | succ j ih =>
    rw [err_step]
    split <;> omega

theorem balance (j : Nat) : err a b j + j * b = a / 2 + side a b j * a := by
  induction j with
  | zero => simp [err, side]
  | succ j ih =>
    have hlt := err_lt ha hb j
    rw [err_step, side_step]
    split
    · rw [Nat.add_mul, Nat.add_mul]
      omega
    · rw [Nat.add_mul]
      simp only [Nat.add_zero]
      omega

/-- After `a` turns both axes have arrived. -/
theorem side_end : side a b a = b := by
  have hlt := err_lt ha hb a
  have hbal := balance ha hb a
  have hhalf : a / 2 < a := Nat.div_lt_self ha (by decide)
  rw [Nat.mul_comm a b] at hbal
  rcases Nat.lt_trichotomy (side a b a) b with h | h | h
  · have hle : (side a b a + 1) * a ≤ b * a := Nat.mul_le_mul_right a h
    rw [Nat.add_mul] at hle
    omega
  · exact h
  · have hle : (b + 1) * a ≤ side a b a * a := Nat.mul_le_mul_right a h
    rw [Nat.add_mul] at hle
    omega

/-- The second axis is at most half a pixel from where the ideal line is. -/
theorem side_near (j : Nat) : 2 * |(side a b j : Int) * a - j * b| ≤ a := by
  have hlt := err_lt ha hb j
  have hbal : (err a b j + j * b : Int) = (a / 2 : Nat) + side a b j * a := by
    exact_mod_cast balance ha hb j
  rcases abs_cases ((side a b j : Int) * a - j * b) with ⟨h, -⟩ | ⟨h, -⟩ <;> rw [h] <;> omega

theorem side_le (hj : j ≤ a) : side a b j ≤ b := by
  have hmono : ∀ k, side a b j ≤ side a b (j + k) := by
    intro k
    induction k with
    | zero => exact Nat.le_refl _
    | succ k ih => exact Nat.le_trans ih (Nat.le_add_right _ _)
  calc side a b j ≤ side a b (j + (a - j)) := hmono _
    _ = side a b a := by rw [Nat.add_sub_cancel' hj]
    _ = b := side_end ha hb

-- ---------------------------------------------------------------------------
-- Which values it takes
-- ---------------------------------------------------------------------------

theorem err_modEq (j : Nat) : (err a b j : Int) ≡ (a / 2 : Nat) - j * b [ZMOD a] := by
  have hbal : (err a b j + j * b : Int) = (a / 2 : Nat) + side a b j * a := by
    exact_mod_cast balance ha hb j
  have heq : (err a b j : Int) = (a / 2 : Nat) - j * b + a * side a b j := by linarith
  rw [heq]
  exact Int.modEq_add_fac_self

theorem err_mod_gcd (j : Nat) : err a b j % Nat.gcd a b = a / 2 % Nat.gcd a b := by
  have hbal := balance ha hb j
  have hl : (err a b j + j * b) % Nat.gcd a b = err a b j % Nat.gcd a b :=
    Nat.ModEq.symm (Nat.left_modEq_add_iff.mpr (Dvd.dvd.mul_left (Nat.gcd_dvd_right a b) j))
  have hr : (a / 2 + side a b j * a) % Nat.gcd a b = a / 2 % Nat.gcd a b :=
    Nat.ModEq.symm
      (Nat.left_modEq_add_iff.mpr (Dvd.dvd.mul_left (Nat.gcd_dvd_left a b) (side a b j)))
  rw [← hl, hbal, hr]

/-- It takes every value that the common divisor of the two lengths allows. -/
theorem err_reaches (he : e < a) (hmod : e % Nat.gcd a b = a / 2 % Nat.gcd a b) :
    ∃ j < a, err a b j = e := by
  have hdvd : (Nat.gcd a b : Int) ∣ (a / 2 : Nat) - e :=
    (Int.natCast_modEq_iff.mpr hmod).dvd
  -- some number of turns gets there, and `a` turns more or less make no difference
  obtain ⟨c, hc⟩ := hdvd
  let y : Int := Nat.gcdB a b * c
  have hbez : ((a / 2 : Nat) : Int) - e = a * (Nat.gcdA a b * c) + b * y := by
    rw [hc, Nat.gcd_eq_gcd_ab]
    ring
  have hpos : (0 : Int) < a := by exact_mod_cast ha
  obtain ⟨j, hj⟩ := Int.eq_ofNat_of_zero_le (Int.emod_nonneg y (Int.ne_of_gt hpos))
  have hja : (j : Int) < a := hj ▸ Int.emod_lt_of_pos y hpos
  refine ⟨j, by exact_mod_cast hja, ?_⟩
  have hy : (j : Int) ≡ y [ZMOD a] := hj ▸ Int.mod_modEq y a
  have hmodEq : (err a b j : Int) ≡ e [ZMOD a] :=
    calc (err a b j : Int) ≡ (a / 2 : Nat) - j * b [ZMOD a] := err_modEq ha hb j
      _ ≡ (a / 2 : Nat) - y * b [ZMOD a] := (hy.mul_right _).sub_left _
      _ = e + a * (Nat.gcdA a b * c) := by linarith
      _ ≡ e [ZMOD a] := Int.modEq_add_fac_self
  have hnat : err a b j ≡ e [MOD a] := Int.natCast_modEq_iff.mp hmodEq
  exact hnat.eq_of_lt_of_lt (err_lt ha hb j) he

/-- The error term gets as high as `crest` below `b`, and no higher. -/
theorem err_le_crest (hlt : err a b j < b) : err a b j ≤ crest a b := by
  have hg : 0 < Nat.gcd a b := Nat.gcd_pos_of_pos_left b ha
  obtain ⟨q, hq⟩ := Nat.gcd_dvd_right a b
  have hmod := err_mod_gcd ha hb j
  have hdiv := Nat.div_add_mod (err a b j) (Nat.gcd a b)
  unfold crest
  generalize Nat.gcd a b = g at hq hmod hdiv hg ⊢
  have hbelow : err a b j / g < q := by
    rw [Nat.div_lt_iff_lt_mul hg, Nat.mul_comm, ← hq]
    exact hlt
  have hmul : g * (err a b j / g) + g ≤ b :=
    calc g * (err a b j / g) + g = g * (err a b j / g + 1) := (Nat.mul_succ ..).symm
      _ ≤ g * q := Nat.mul_le_mul_left g hbelow
      _ = b := hq.symm
  omega

theorem err_crest (hpos : 0 < b) : ∃ j < a, err a b j = crest a b := by
  refine err_reaches ha hb (Nat.lt_of_lt_of_le (crest_lt ha hpos) hb) ?_
  have hle : Nat.gcd a b ≤ b := Nat.le_of_dvd hpos (Nat.gcd_dvd_right a b)
  obtain ⟨q, hq⟩ := Nat.dvd_sub (Nat.gcd_dvd_right a b) (Nat.dvd_refl (Nat.gcd a b))
  unfold crest
  rw [hq, Nat.mul_add_mod, Nat.mod_mod]

end

end Bresenham
