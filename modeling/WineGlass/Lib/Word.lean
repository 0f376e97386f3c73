import Mathlib.Algebra.Order.Ring.Nat
import Mathlib.Data.Nat.ModEq
import Mathlib.Tactic.Ring

/-!
# Little-endian words

`word f n` is the number whose `n` bytes, lowest first, are `f 0` to
`f (n - 1)`; `byteAt v i` is byte `i` of `v`. Up to the width the two are
inverse.
-/

namespace Word

def word (f : Nat → BitVec 8) : Nat → Nat
  | 0 => 0
  | n + 1 => (f 0).toNat + 256 * word (fun i => f (i + 1)) n

def byteAt (v i : Nat) : BitVec 8 := BitVec.ofNat 8 (v / 256 ^ i)

theorem word_congr (h : ∀ i < n, f i = g i) : word f n = word g n := by
  induction n generalizing f g with
  | zero => rfl
  | succ n ih =>
    rw [word, word, h 0 (Nat.succ_pos n), ih fun i hi => h (i + 1) (Nat.succ_lt_succ hi)]

theorem word_lt : word f n < 256 ^ n := by
  induction n generalizing f with
  | zero => exact Nat.one_pos
  | succ n ih =>
    have h0 := (f 0).isLt
    have hn := ih (f := fun i => f (i + 1))
    rw [word, pow_succ]
    omega

theorem word_add : word f (a + b) = word f a + 256 ^ a * word (fun i => f (a + i)) b := by
  induction a generalizing f with
  | zero => simp [word]
  | succ a ih =>
    have hrest : word f (a + 1 + b) = (f 0).toNat + 256 * word (fun i => f (i + 1)) (a + b) := by
      rw [Nat.add_right_comm]
      rfl
    have htail : (fun i => f (a + i + 1)) = fun i => f (a + 1 + i) :=
      funext fun i => by rw [Nat.add_right_comm]
    rw [hrest, ih, htail, word, pow_succ']
    ring

theorem byteAt_succ : byteAt v (i + 1) = byteAt (v / 256) i := by
  rw [byteAt, byteAt, pow_succ', Nat.div_div_eq_div_mul]

theorem word_byteAt : word (byteAt v) n = v % 256 ^ n := by
  induction n generalizing v with
  | zero => rw [pow_zero, Nat.mod_one, word]
  | succ n ih =>
    have h0 : (byteAt v 0).toNat = v % 256 := by simp [byteAt]
    rw [word, h0, word_congr fun i _ => byteAt_succ, ih, pow_succ', Nat.mod_mul]

theorem byteAt_word (h : i < n) : byteAt (word f n) i = f i := by
  induction n generalizing f i with
  | zero => cases h
  | succ n ih =>
    have h0 := (f 0).isLt
    cases i with
    | zero =>
      apply BitVec.eq_of_toNat_eq
      simp only [byteAt, word, pow_zero, Nat.div_one, BitVec.toNat_ofNat]
      omega
    | succ i =>
      have hdiv : ((f 0).toNat + 256 * word (fun i => f (i + 1)) n) / 256 =
          word (fun i => f (i + 1)) n := by omega
      rw [byteAt_succ, word, hdiv, ih (Nat.lt_of_succ_lt_succ h)]

/-- The low bytes of a number are those of its low part. -/
theorem byteAt_mod (h : i < n) : byteAt (v % 256 ^ n) i = byteAt v i := by
  rw [← word_byteAt, byteAt_word h]

theorem byteAt_of_lt (h : v < 256 ^ i) : byteAt v i = 0 := by
  rw [byteAt, Nat.div_eq_of_lt h]
  rfl

theorem byteAt_ne (b : BitVec 8) (k : Nat) : ∃ v, byteAt v k ≠ b := by
  refine ⟨256 ^ k * (b + 1).toNat, ?_⟩
  rw [byteAt, Nat.mul_div_cancel_left _ (Nat.pow_pos (by decide)), BitVec.ofNat_toNat,
    BitVec.setWidth_eq]
  simp

end Word
