import Mathlib.Data.Int.Basic
import Mathlib.Tactic.Ring

/-!
# Numbers in wider words

A number of `n` bits held in a word of `w`: masks, the top bit, differences and
the signed order, in terms of the narrow number alone.
-/

namespace Bits

variable {w n : Nat}

/-- The lowest `n` bits. -/
def lowMask (w n : Nat) : BitVec w := (1#w <<< n) - 1#w

theorem toNat_lowMask (h : n < w) : (lowMask w n).toNat = 2 ^ n - 1 := by
  have hn : 2 ^ n < 2 ^ w := Nat.pow_lt_pow_right (by decide) h
  have hone : (1#w).toNat = 1 := by
    rw [BitVec.toNat_ofNat, Nat.mod_eq_of_lt (Nat.one_lt_two_pow (by omega))]
  have hshift : (1#w <<< n).toNat = 2 ^ n := by
    rw [BitVec.toNat_shiftLeft, hone, Nat.shiftLeft_eq, Nat.one_mul, Nat.mod_eq_of_lt hn]
  have hle : 1#w ≤ 1#w <<< n := by
    rw [BitVec.le_def, hshift, hone]
    exact Nat.one_le_two_pow
  rw [lowMask, BitVec.toNat_sub_of_le hle, hshift, hone]

theorem and_lowMask (v : BitVec w) (h : n < w) :
    v &&& lowMask w n = (v.setWidth n).setWidth w := by
  apply BitVec.eq_of_toNat_eq
  have hlt : v.toNat % 2 ^ n < 2 ^ w :=
    Nat.lt_of_lt_of_le (Nat.mod_lt _ (Nat.two_pow_pos n)) (Nat.pow_le_pow_right (by decide) (Nat.le_of_lt h))
  rw [BitVec.toNat_and, toNat_lowMask h, Nat.and_two_pow_sub_one_eq_mod, BitVec.toNat_setWidth,
    BitVec.toNat_setWidth, Nat.mod_eq_of_lt hlt]

theorem getLsbD_lowMask (h : n < w) (i : Nat) : (lowMask w n).getLsbD i = decide (i < n) := by
  rw [BitVec.getLsbD, toNat_lowMask h, Nat.testBit_two_pow_sub_one]

/-- Filling a word with the sign of the number in its lowest bits. -/
theorem or_not_lowMask (v : BitVec w) (h : n < w) (hs : (v.setWidth n).msb = true) :
    v ||| ~~~lowMask w n = (v.setWidth n).signExtend w := by
  apply BitVec.eq_of_getLsbD_eq
  intro i hi
  rw [BitVec.getLsbD_or, BitVec.getLsbD_not, getLsbD_lowMask h, BitVec.getLsbD_signExtend, hs,
    decide_eq_true hi, BitVec.getLsbD_setWidth]
  by_cases hin : i < n <;> simp [hin]

/-- The lowest bits of a word put over those of another. -/
theorem merge_lowMask (old v : BitVec w) (h : n < w) :
    ((old &&& ~~~lowMask w n) ||| (v &&& lowMask w n)).setWidth n = v.setWidth n := by
  apply BitVec.eq_of_getLsbD_eq
  intro i hi
  simp only [BitVec.getLsbD_setWidth, BitVec.getLsbD_or, BitVec.getLsbD_and, BitVec.getLsbD_not,
    getLsbD_lowMask h, decide_eq_true hi, Bool.not_true, Bool.and_false, Bool.and_true, Bool.false_or]

/-- Clearing the lowest `n` bits rounds down. -/
theorem and_not_lowMask (v : BitVec w) (n : Nat) :
    (v &&& ~~~((BitVec.allOnes n).setWidth w)).toNat = v.toNat / 2 ^ n * 2 ^ n := by
  have hs : v &&& ~~~((BitVec.allOnes n).setWidth w) = v >>> n <<< n := by
    ext i hi
    by_cases hin : i < n
    · simp [hin]
    · have hsum : n + (i - n) = i := by omega
      simp [hin, hi, hsum, ← BitVec.getLsbD_eq_getElem]
  rw [hs, BitVec.toNat_shiftLeft, BitVec.toNat_ushiftRight, Nat.shiftRight_eq_div_pow,
    Nat.shiftLeft_eq]
  exact Nat.mod_eq_of_lt (Nat.lt_of_le_of_lt (Nat.div_mul_le_self _ _) v.isLt)

theorem and_bit_ne_zero (v : BitVec w) (h : i < w) :
    (v &&& 1#w <<< i != 0) = v.getLsbD i := by
  rw [← BitVec.twoPow_eq, BitVec.and_twoPow]
  cases hv : v.getLsbD i with
  | false => simp
  | true =>
    have hne : BitVec.twoPow w i ≠ 0#w := by
      intro h0
      have hbit := congrArg (fun x : BitVec w => x.getLsbD i) h0
      simp [h] at hbit
    simpa using hne

/-- Bits above those of another word are added to it. -/
theorem toNat_or_shift {x y : BitVec w} (hx : x.toNat < 2 ^ i) (hy : y.toNat * 2 ^ i < 2 ^ w) :
    (x ||| y <<< i).toNat = x.toNat + y.toNat * 2 ^ i := by
  rw [BitVec.toNat_or, BitVec.toNat_shiftLeft, Nat.shiftLeft_eq, Nat.mod_eq_of_lt hy, Nat.or_comm,
    ← Nat.shiftLeft_eq, ← Nat.shiftLeft_add_eq_or_of_lt hx, Nat.shiftLeft_eq, Nat.add_comm]

/-- The top bit of the number a word holds. -/
theorem getLsbD_widen (a : BitVec n) (hn : 0 < n) (h : n ≤ w) :
    (a.setWidth w).getLsbD (n - 1) = a.msb := by
  rw [BitVec.getLsbD_setWidth, BitVec.msb_eq_getLsbD_last, decide_eq_true (by omega), Bool.true_and]

theorem narrow_lt {v : BitVec w} (h : v.toNat < 2 ^ n) : (v.setWidth n).setWidth w = v := by
  apply BitVec.eq_of_toNat_eq
  rw [BitVec.toNat_setWidth, BitVec.toNat_setWidth, Nat.mod_eq_of_lt h, Nat.mod_eq_of_lt v.isLt]

theorem narrow_sub (a b : BitVec n) (h : n ≤ w) :
    (a.setWidth w - b.setWidth w).setWidth n = a - b := by
  rw [BitVec.sub_eq_add_neg, BitVec.setWidth_add _ _ h, BitVec.setWidth_neg_of_le h,
    BitVec.setWidth_setWidth_of_le _ h, BitVec.setWidth_setWidth_of_le _ h, BitVec.setWidth_eq,
    BitVec.setWidth_eq, BitVec.sub_eq_add_neg]

/-- The sign of a difference and its overflow give the signed order. -/
theorem msb_sub_bne (a b : BitVec n) : ((a - b).msb != a.ssubOverflow b) = a.slt b := by
  cases ho : a.ssubOverflow b with
  | false =>
    have hd := BitVec.toInt_sub_of_not_ssubOverflow (x := a) (y := b) (by simp [ho])
    rw [BitVec.msb_eq_toInt, hd, BitVec.slt, Bool.bne_false]
    exact decide_eq_decide.2 (by omega)
  | true =>
    rw [BitVec.ssubOverflow_eq] at ho
    simp only [Bool.or_eq_true, Bool.and_eq_true, Bool.not_eq_true', BitVec.msb_eq_toInt,
      decide_eq_true_eq, decide_eq_false_iff_not] at ho
    rw [BitVec.msb_eq_toInt, BitVec.slt, Bool.bne_true, ← decide_not]
    exact decide_eq_decide.2 (by omega)

theorem ssubOverflow_xor (a b : BitVec n) :
    a.ssubOverflow b = ((a.msb ^^ b.msb) && (a.msb ^^ (a - b).msb)) := by
  rw [BitVec.ssubOverflow_eq]
  cases a.msb <;> cases b.msb <;> cases (a - b).msb <;> rfl

theorem saddOverflow_xor (a b : BitVec n) :
    a.saddOverflow b = ((a.msb ^^ (a + b).msb) && (b.msb ^^ (a + b).msb)) := by
  rw [BitVec.saddOverflow_eq]
  cases a.msb <;> cases b.msb <;> cases (a + b).msb <;> rfl

/-- Where a sum differs from the sum without carries, there is a carry. -/
theorem xor_add (a b : BitVec w) (h : i < w) :
    (a ^^^ b ^^^ (a + b)).getLsbD i = decide (2 ^ i ≤ a.toNat % 2 ^ i + b.toNat % 2 ^ i) := by
  have hcarry : BitVec.carry i a b false = decide (2 ^ i ≤ a.toNat % 2 ^ i + b.toNat % 2 ^ i) := rfl
  rw [BitVec.getLsbD_xor, BitVec.getLsbD_xor, BitVec.getLsbD_add h, hcarry]
  cases a.getLsbD i <;> cases b.getLsbD i <;> simp

/-- And where a difference does, there is a borrow. -/
theorem xor_sub (a b : BitVec w) (h : i < w) :
    (a ^^^ b ^^^ (a - b)).getLsbD i = decide (a.toNat % 2 ^ i < b.toNat % 2 ^ i) := by
  have hsum : a - b + b = a := BitVec.sub_add_cancel a b
  have hxor := xor_add (a - b) b h
  rw [hsum, BitVec.xor_assoc, BitVec.xor_comm, BitVec.xor_comm b] at hxor
  rw [hxor]
  have hmod : ((a - b).toNat % 2 ^ i + b.toNat % 2 ^ i) % 2 ^ i = a.toNat % 2 ^ i := by
    have hdvd : 2 ^ i ∣ 2 ^ w := Nat.pow_dvd_pow 2 (Nat.le_of_lt h)
    have hadd := congrArg BitVec.toNat hsum
    rw [BitVec.toNat_add] at hadd
    rw [← Nat.add_mod, ← hadd, Nat.mod_mod_of_dvd _ hdvd]
  have hd := Nat.mod_lt (a - b).toNat (Nat.two_pow_pos i)
  have hb := Nat.mod_lt b.toNat (Nat.two_pow_pos i)
  refine decide_eq_decide.2 ?_
  generalize (a - b).toNat % 2 ^ i = d at *
  rcases Nat.lt_or_ge (d + b.toNat % 2 ^ i) (2 ^ i) with hlt | hge
  · rw [Nat.mod_eq_of_lt hlt] at hmod
    omega
  · rw [Nat.mod_eq_sub_mod hge, Nat.mod_eq_of_lt (by omega)] at hmod
    omega

theorem widen_msb (a : BitVec n) (h : n < w) : (a.setWidth w).msb = false := by
  rw [BitVec.msb_setWidth, BitVec.getLsbD_of_ge a (w - 1) (by omega), Bool.and_false]

theorem widen_toInt (a : BitVec n) (h : n < w) : (a.setWidth w).toInt = a.toNat := by
  rw [BitVec.toInt_eq_toNat_of_msb (widen_msb a h), BitVec.toNat_setWidth,
    Nat.mod_eq_of_lt (Nat.lt_of_lt_of_le a.isLt (Nat.pow_le_pow_right (by decide) (Nat.le_of_lt h)))]

-- ---------------------------------------------------------------------------
-- Exact products
-- ---------------------------------------------------------------------------

theorem setWidth_ofInt (x : Int) (h : n ≤ w) : (BitVec.ofInt w x).setWidth n = BitVec.ofInt n x := by
  apply BitVec.eq_of_toInt_eq
  have hdvd : 2 ^ n ∣ 2 ^ w := Nat.pow_dvd_pow 2 h
  rw [BitVec.toInt_setWidth, BitVec.toInt_ofInt, BitVec.toNat_ofInt, Int.toNat_of_nonneg
    (Int.emod_nonneg _ (Int.natCast_ne_zero.2 (Nat.two_pow_pos w).ne')), Int.bmod_def, Int.bmod_def,
    Int.emod_emod_of_dvd _ (Int.natCast_dvd_natCast.2 hdvd)]

theorem ofInt_pow_mul (x : Int) : BitVec.ofInt w (2 ^ w * x) = 0#w := by
  apply BitVec.eq_of_toInt_eq
  have hpos := Int.natCast_pos.2 (Nat.two_pow_pos w)
  have hmod : 2 ^ w * x % ((2 ^ w : Nat) : Int) = 0 := by simp
  rw [BitVec.toInt_ofInt, BitVec.toInt_zero, Int.bmod_def, hmod, if_pos (by omega)]

/-- The high half of a product that is off by `e` in its high half, and beyond. -/
theorem ofInt_high (p e k : Int) : BitVec.ofInt w ((p + 2 ^ w * e + 2 ^ w * 2 ^ w * k) / 2 ^ w) =
    BitVec.ofInt w (p / 2 ^ w) + BitVec.ofInt w e := by
  have hpos : (2 : Int) ^ w ≠ 0 := pow_ne_zero w two_ne_zero
  have hsum : p + 2 ^ w * e + 2 ^ w * 2 ^ w * k = p + 2 ^ w * (e + 2 ^ w * k) := by ring
  rw [hsum, Int.add_mul_ediv_left _ _ hpos, BitVec.ofInt_add, BitVec.ofInt_add, ofInt_pow_mul,
    BitVec.add_zero]

theorem ofInt_low (p e : Int) : BitVec.ofInt w (p + 2 ^ w * e) = BitVec.ofInt w p := by
  rw [BitVec.ofInt_add, ofInt_pow_mul, BitVec.add_zero]

/-- A product whose factors are off above `n` bits, the first one in two places. -/
theorem product_halves (x y : BitVec w) {a b h t j : Int} (ha : a = x.toInt + 2 ^ w * h + 2 ^ w * 2 ^ w * j)
    (hb : b = y.toInt + 2 ^ w * t) :
    BitVec.ofInt w (a * b) = BitVec.ofInt w (x.toInt * y.toInt) ∧
      (BitVec.ofInt w (a * b / 2 ^ w) = BitVec.ofInt w (x.toInt * y.toInt / 2 ^ w) ↔
        BitVec.ofInt w h * y + BitVec.ofInt w t * x = 0#w) := by
  have hprod : a * b = x.toInt * y.toInt + 2 ^ w * (h * y.toInt + t * x.toInt) +
      2 ^ w * 2 ^ w * (h * t + j * b) := by
    rw [ha, hb]
    ring
  constructor
  · rw [hprod, Int.mul_assoc, Int.add_assoc, ← Int.mul_add, ofInt_low]
  · rw [hprod, ofInt_high, BitVec.add_right_eq_self, BitVec.ofInt_add, BitVec.ofInt_mul, BitVec.ofInt_mul,
      BitVec.ofInt_toInt, BitVec.ofInt_toInt]

end Bits
