import Mathlib.Data.Int.Basic
import Mathlib.Logic.Function.Iterate

/-!
# Shifts, one place at a time

A shift by a count is that many shifts by one place, each of which leaves a bit
behind: the last one is the carry.
-/

namespace Bits

inductive Shift
  | left | right | signed
  deriving DecidableEq

variable {w : Nat}

/-- One place: the number, and the bit that leaves it. -/
def Shift.once : Shift → BitVec w × Bool → BitVec w × Bool
  | .left, (v, _) => (v <<< 1, v.msb)
  | .right, (v, _) => (v >>> 1, v.getLsbD 0)
  | .signed, (v, _) => (v.sshiftRight 1, v.getLsbD 0)

/-- `k` places, from a number and a carry. -/
def Shift.run (s : Shift) (k : Nat) (x : BitVec w × Bool) : BitVec w × Bool := s.once^[k] x

theorem Shift.run_succ (s : Shift) (k : Nat) (x : BitVec w × Bool) :
    s.run (k + 1) x = s.once (s.run k x) := Function.iterate_succ_apply' _ _ _

/-- With the bit that leaves it, a shifted number tells what it was. -/
theorem Shift.once_inj (s : Shift) (x y : BitVec w × Bool) : s.once x = s.once y ↔ x.1 = y.1 := by
  obtain ⟨v, c⟩ := x
  obtain ⟨u, d⟩ := y
  refine ⟨fun h => ?_, fun h : v = u => ?_⟩
  · apply BitVec.eq_of_getLsbD_eq
    intro i hi
    have hbit (j : Nat) := congrArg (fun x => x.1.getLsbD j) h
    have hout := congrArg Prod.snd h
    cases s with
    | left =>
      have hmsb : v.msb = u.msb := hout
      have hnext : (v <<< 1).getLsbD (i + 1) = (u <<< 1).getLsbD (i + 1) := hbit (i + 1)
      by_cases hlast : i + 1 < w
      · simpa [BitVec.getLsbD_shiftLeft, hlast, BitVec.getLsbD_eq_getElem hi] using hnext
      · rw [BitVec.msb_eq_getLsbD_last, BitVec.msb_eq_getLsbD_last] at hmsb
        rwa [show i = w - 1 by omega]
    | right =>
      have hprev : (v >>> 1).getLsbD (i - 1) = (u >>> 1).getLsbD (i - 1) := hbit (i - 1)
      rcases Nat.eq_zero_or_pos i with rfl | hpos
      · exact hout
      · rwa [BitVec.getLsbD_ushiftRight, BitVec.getLsbD_ushiftRight, Nat.add_sub_cancel' hpos] at hprev
    | signed =>
      have hprev : (v.sshiftRight 1).getLsbD (i - 1) = (u.sshiftRight 1).getLsbD (i - 1) := hbit (i - 1)
      rcases Nat.eq_zero_or_pos i with rfl | hpos
      · exact hout
      · rw [BitVec.getLsbD_sshiftRight, BitVec.getLsbD_sshiftRight, Nat.add_sub_cancel' hpos] at hprev
        simpa [hi, show ¬w ≤ i - 1 by omega] using hprev
  · subst h
    cases s <;> rfl

theorem left_run (v : BitVec w) (cf : Bool) (k : Nat) : Shift.left.run k (v, cf) =
    (v <<< k, if k = 0 then cf else decide (k ≤ w) && v.getLsbD (w - k)) := by
  induction k with
  | zero => simp [Shift.run]
  | succ k ih =>
    rw [Shift.run_succ, ih, if_neg (Nat.succ_ne_zero k)]
    refine Prod.ext (BitVec.shiftLeft_add ..).symm ?_
    show (v <<< k).msb = _
    rw [BitVec.msb_eq_getLsbD_last, BitVec.getLsbD_shiftLeft]
    by_cases hk : k + 1 ≤ w
    · have hindex : w - 1 - k = w - (k + 1) := by omega
      simp [hk, hindex, show w - 1 < w by omega, show ¬w - 1 < k by omega]
    · simp [hk]
      omega

theorem right_run (v : BitVec w) (cf : Bool) (k : Nat) : Shift.right.run k (v, cf) =
    (v >>> k, if k = 0 then cf else v.getLsbD (k - 1)) := by
  induction k with
  | zero => simp [Shift.run]
  | succ k ih =>
    rw [Shift.run_succ, ih, if_neg (Nat.succ_ne_zero k)]
    refine Prod.ext (BitVec.shiftRight_add ..).symm ?_
    show (v >>> k).getLsbD 0 = _
    rw [BitVec.getLsbD_ushiftRight, Nat.add_zero, Nat.add_sub_cancel]

theorem signed_run (v : BitVec w) (cf : Bool) (k : Nat) : Shift.signed.run k (v, cf) =
    (v.sshiftRight k, if k = 0 then cf else (v.sshiftRight (k - 1)).getLsbD 0) := by
  induction k with
  | zero => simp [Shift.run]
  | succ k ih =>
    rw [Shift.run_succ, ih, if_neg (Nat.succ_ne_zero k)]
    exact Prod.ext (BitVec.sshiftRight_add ..).symm rfl

/-- With no sign, no difference. -/
theorem signed_run_eq {v : BitVec w} (h : v.msb = false) (cf : Bool) (k : Nat) :
    Shift.signed.run k (v, cf) = Shift.right.run k (v, cf) := by
  rw [signed_run, right_run, BitVec.sshiftRight_eq_of_msb_false h, BitVec.sshiftRight_eq_of_msb_false h,
    BitVec.getLsbD_ushiftRight, Nat.add_zero]

theorem sshiftRight_low (hw : 0 < w) (v : BitVec w) (k : Nat) :
    (v.sshiftRight k).getLsbD 0 = if k < w then v.getLsbD k else v.msb := by
  rw [BitVec.getLsbD_sshiftRight, decide_eq_false (by omega), Bool.not_false, Bool.true_and, Nat.add_zero]

/-- What stands before the last place. -/
theorem run_last (s : Shift) {k : Nat} (hk : 0 < k) (v t : BitVec w) (cf : Bool) :
    s.run k (v, cf) = s.once (t, cf) ↔ (s.run (k - 1) (v, cf)).1 = t := by
  obtain ⟨j, rfl⟩ : ∃ j, k = j + 1 := ⟨k - 1, by omega⟩
  rw [Shift.run_succ, Nat.add_sub_cancel, s.once_inj]

theorem left_last {k : Nat} (hk : 0 < k) (v : BitVec w) (cf : Bool) :
    Shift.left.run k (v, cf) = (0#w, false) ↔ v <<< (k - 1) = 0#w := by
  have hzero : (0#w, false) = Shift.left.once (0#w, cf) := by simp [Shift.once]
  rw [hzero, run_last _ hk, left_run]

theorem right_last {k : Nat} (hk : 0 < k) (v : BitVec w) (cf : Bool) :
    Shift.right.run k (v, cf) = (0#w, false) ↔ v >>> (k - 1) = 0#w := by
  have hzero : (0#w, false) = Shift.right.once (0#w, cf) := by simp [Shift.once]
  rw [hzero, run_last _ hk, right_run]

theorem signed_last {k : Nat} (hk : 0 < k) (hw : 1 < w) (v : BitVec w) (cf : Bool) :
    Shift.signed.run k (v, cf) = (BitVec.allOnes w, false) ↔ v.sshiftRight (k - 1) = BitVec.allOnes w <<< 1 := by
  have hones : (BitVec.allOnes w, false) = Shift.signed.once (BitVec.allOnes w <<< 1, cf) := by
    have hmsb : (BitVec.allOnes w <<< 1).msb = true := by
      rw [BitVec.msb_eq_getLsbD_last, BitVec.getLsbD_shiftLeft, BitVec.getLsbD_allOnes]
      simp
      omega
    refine Prod.ext (BitVec.eq_of_getLsbD_eq fun i hi => ?_) ?_
    · show (BitVec.allOnes w).getLsbD i = ((BitVec.allOnes w <<< 1).sshiftRight 1).getLsbD i
      rw [BitVec.getLsbD_sshiftRight, hmsb, BitVec.getLsbD_shiftLeft, BitVec.getLsbD_allOnes,
        BitVec.getLsbD_allOnes]
      simp [hi]
    · simp [Shift.once]
  rw [hones, run_last _ hk, signed_run]

theorem sshiftRight_high {v : BitVec w} (h : v.msb = true) (hk : w ≤ k) :
    v.sshiftRight k = BitVec.allOnes w := by
  apply BitVec.eq_of_getLsbD_eq
  intro i hi
  rw [BitVec.getLsbD_sshiftRight, BitVec.getLsbD_allOnes]
  simp [h, hi, show ¬k + i < w by omega]

/-- A narrow number, widened, shifted and narrowed again. -/
theorem narrow_shiftLeft (v : BitVec n) (h : n ≤ w) (k : Nat) :
    ((v.setWidth w) <<< k).setWidth n = v <<< k := by
  apply BitVec.eq_of_getLsbD_eq
  intro i hi
  simp only [BitVec.getLsbD_setWidth, BitVec.getLsbD_shiftLeft, decide_eq_true hi,
    decide_eq_true (show i < w by omega), decide_eq_true (show i - k < w by omega), Bool.true_and]

theorem narrow_ushiftRight (v : BitVec n) (h : n ≤ w) (k : Nat) :
    ((v.setWidth w) >>> k).setWidth n = v >>> k := by
  apply BitVec.eq_of_getLsbD_eq
  intro i hi
  rw [BitVec.getLsbD_setWidth, BitVec.getLsbD_ushiftRight, BitVec.getLsbD_setWidth,
    BitVec.getLsbD_ushiftRight, decide_eq_true hi, Bool.true_and]
  by_cases hki : k + i < w
  · rw [decide_eq_true hki, Bool.true_and]
  · rw [decide_eq_false hki, Bool.false_and, BitVec.getLsbD_of_ge _ _ (by omega)]

theorem narrow_sshiftRight (v : BitVec n) (h : n ≤ w) (k : Nat) :
    ((v.signExtend w).sshiftRight k).setWidth n = v.sshiftRight k := by
  apply BitVec.eq_of_getLsbD_eq
  intro i hi
  have hiw : i < w := Nat.lt_of_lt_of_le hi h
  have hsign : (v.signExtend w).msb = v.msb := by
    rw [BitVec.msb_signExtend, decide_eq_true (by omega : 0 < w), Bool.true_and]
    rcases Nat.lt_or_ge n w with hlt | hge
    · rw [if_neg (by omega)]
    · rw [if_pos hge, BitVec.msb, Nat.sub_eq_zero_of_le h]
  rw [BitVec.getLsbD_setWidth, BitVec.getLsbD_sshiftRight, BitVec.getLsbD_sshiftRight,
    BitVec.getLsbD_signExtend, hsign, decide_eq_true hi, decide_eq_false (by omega : ¬w ≤ i),
    decide_eq_false (by omega : ¬n ≤ i)]
  by_cases hki : k + i < n
  · simp [hki, show k + i < w by omega]
  · by_cases hkw : k + i < w <;> simp [hki, hkw]

end Bits
