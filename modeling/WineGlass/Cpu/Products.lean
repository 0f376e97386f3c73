import WineGlass.Cpu.Operands
import WineGlass.Cpu.Shapes
import WineGlass.Cpu.Step

/-!
# Signed products

What IMUL leaves of the exact product of its factors. RAX is not cut to the
operand's width before it is multiplied, a byte is not sign-extended and its
product does not stay in AX, and at 64 bits a negative factor is shifted by 64.
-/

namespace WineGlass.X86

open Bits Memory

/-- RAX and the operand, or two operands. -/
def factors (m : Machine) (i : Instruction) : Option (Word64 × Word64) :=
  if i.numOperands = 1 then do return (m.cpu.gpr rax, ← readOperand m i.op0)
  else if i.numOperands = 2 then do return (← readOperand m i.op0, ← readOperand m i.op1)
  else do return (← readOperand m i.op1, ← readOperand m i.op2)

/-- AL, AX, EAX or RAX, or the first operand. -/
def lowHalf (i : Instruction) (w : Nat) (m : Machine) : BitVec w :=
  (m.cpu.gpr (if i.numOperands = 1 then rax else i.op0.regIndex)).setWidth w

/-- AH, DX, EDX or RDX. -/
def highHalf (w : Nat) (m : Machine) : BitVec w :=
  if w = 8 then (m.cpu.gpr rax >>> 8).setWidth w else (m.cpu.gpr rdx).setWidth w

/-- The step leaves the exact product of two numbers. -/
def Multiplies (m : Machine) (a b : BitVec w) : Prop :=
  ∃ m', execOne m = some (.ok, m') ∧
    lowHalf (insnAt m) w m' = BitVec.ofInt w (a.toInt * b.toInt) ∧
    ((insnAt m).numOperands = 1 → highHalf w m' = BitVec.ofInt w (a.toInt * b.toInt / 2 ^ w))

/-- The high byte of a product of bytes does not show that AX and an unsigned byte are multiplied. -/
def ByteFits (a b : Word64) : Prop :=
  let al := a.setWidth 8
  let ah := (a >>> 8).setWidth 8
  let y := b.setWidth 8
  (if al.msb then ah + 1 else ah) * y + (if y.msb then al else 0) = 0#8

/-- Nor the high half of a wider one what stands in RAX above a positive factor. -/
def WideFits (w : Nat) (a b : Word64) : Prop :=
  a.getLsbD (w - 1) = true ∨ (a >>> w).setWidth w * b.setWidth w = 0#w

def ProductFits (i : Instruction) (a b : Word64) : Prop :=
  if i.numOperands = 1 then
    (i.opSize = 8 → a.msb = false ∧ b.msb = false) ∧
      if i.op0.size = 1 then ByteFits a b else i.opSize < 8 → WideFits (i.opSize * 8) a b
  else i.opSize = 8 → a.msb = false ∧ b.msb = false ∧ a.toNat * b.toNat < 2 ^ 63

instance (a b : Word64) : Decidable (ByteFits a b) := inferInstanceAs (Decidable (_ = _))

instance (w : Nat) (a b : Word64) : Decidable (WideFits w a b) := inferInstanceAs (Decidable (_ ∨ _))

instance (i : Instruction) (a b : Word64) : Decidable (ProductFits i a b) := by
  unfold ProductFits
  infer_instance

-- ---------------------------------------------------------------------------
-- The factors
-- ---------------------------------------------------------------------------

theorem factors_one (hn : i.numOperands = 1) (hf : factors m i = some (a, b)) :
    a = m.cpu.gpr rax ∧ readOperand m i.op0 = some b := by
  rw [factors, if_pos hn] at hf
  obtain ⟨y, hy, hf⟩ := Option.bind_eq_some_iff.1 hf
  obtain ⟨rfl, rfl⟩ := Prod.mk.inj (Option.some.inj hf)
  exact ⟨rfl, hy⟩

theorem factors_two (hn : i.numOperands = 2) (hf : factors m i = some (a, b)) :
    readOperand m i.op0 = some a ∧ readOperand m i.op1 = some b := by
  rw [factors, if_neg (by omega), if_pos hn] at hf
  obtain ⟨x, hx, hf⟩ := Option.bind_eq_some_iff.1 hf
  obtain ⟨y, hy, hf⟩ := Option.bind_eq_some_iff.1 hf
  obtain ⟨rfl, rfl⟩ := Prod.mk.inj (Option.some.inj hf)
  exact ⟨hx, hy⟩

theorem factors_three (hn : i.numOperands = 3) (hf : factors m i = some (a, b)) :
    readOperand m i.op1 = some a ∧ readOperand m i.op2 = some b := by
  rw [factors, if_neg (by omega), if_neg (by omega)] at hf
  obtain ⟨x, hx, hf⟩ := Option.bind_eq_some_iff.1 hf
  obtain ⟨y, hy, hf⟩ := Option.bind_eq_some_iff.1 hf
  obtain ⟨rfl, rfl⟩ := Prod.mk.inj (Option.some.inj hf)
  exact ⟨hx, hy⟩

/-- RAX and RDX after the one-operand form. -/
def oneResult (m : Machine) (n : Nat) (r : Int) : Machine :=
  (m.setReg rax (BitVec.ofInt 64 r &&& maskFor n)).setReg rdx
    (BitVec.ofInt 64 (r / 2 ^ (n * 8)) &&& maskFor n)

theorem execImul_one (hn : i.numOperands = 1) (hf : factors m i = some (a, b)) :
    execImul m i = (signExtend a i.opSize).bind fun x => (signExtend b i.opSize).map fun y =>
      oneResult m i.opSize (x.toInt * y.toInt) := by
  obtain ⟨rfl, hb⟩ := factors_one hn hf
  rw [execImul, if_pos hn, hb]
  cases signExtend (m.cpu.gpr rax) i.opSize with
  | none => rfl
  | some x => cases h : signExtend b i.opSize <;> simp [h, oneResult]

theorem execImul_more (hn : i.numOperands = 2 ∨ i.numOperands = 3) (hf : factors m i = some (a, b)) :
    execImul m i = (signExtend a i.opSize).bind fun x => (signExtend b i.opSize).bind fun y =>
      (mulS64 x y).bind fun r => writeOperand m i.op0 r := by
  rcases hn with hn | hn
  · obtain ⟨ha, hb⟩ := factors_two hn hf
    rw [execImul, if_neg (by omega), if_pos hn, ha, hb]
    rfl
  · obtain ⟨ha, hb⟩ := factors_three hn hf
    rw [execImul, if_neg (by omega), if_neg (by omega), ha, hb]
    rfl

-- ---------------------------------------------------------------------------
-- What the one-operand form leaves
-- ---------------------------------------------------------------------------

theorem oneResult_rax (m : Machine) (n : Nat) (r : Int) :
    (oneResult m n r).cpu.gpr rax = BitVec.ofInt 64 r &&& maskFor n := by
  simp only [oneResult, Machine.setReg, State.setReg,
    Function.update_of_ne (show rax ≠ rdx by decide), Function.update_self]

theorem oneResult_rdx (m : Machine) (n : Nat) (r : Int) :
    (oneResult m n r).cpu.gpr rdx = BitVec.ofInt 64 (r / 2 ^ (n * 8)) &&& maskFor n := by
  simp only [oneResult, Machine.setReg, State.setReg, Function.update_self]

theorem masked_low (r : Int) (hw : w ≤ n * 8) (hn : n * 8 ≤ 64) :
    (BitVec.ofInt 64 r &&& maskFor n).setWidth w = BitVec.ofInt w r := by
  rw [and_maskFor _ hn, BitVec.setWidth_setWidth_of_le _ (by omega), BitVec.setWidth_setWidth_of_le _ hw,
    setWidth_ofInt r (by omega)]

/-- The second byte of a product of two bytes or more. -/
theorem masked_second (r : Int) (h2 : 2 ≤ n) (hn : n * 8 ≤ 64) :
    ((BitVec.ofInt 64 r &&& maskFor n) >>> 8).setWidth 8 = BitVec.ofInt 8 (r / 2 ^ 8) := by
  have hlow : ((BitVec.ofInt 64 r &&& maskFor n) >>> 8).setWidth 8 =
      (((BitVec.ofInt 64 r &&& maskFor n).setWidth 16) >>> 8).setWidth 8 := by
    apply BitVec.eq_of_getLsbD_eq
    intro i hi
    simp only [BitVec.getLsbD_setWidth, BitVec.getLsbD_ushiftRight, decide_eq_true hi,
      decide_eq_true (show 8 + i < 16 by omega), Bool.true_and]
  rw [hlow, masked_low r (by omega) hn]
  apply BitVec.eq_of_toNat_eq
  rw [BitVec.toNat_setWidth, BitVec.toNat_ushiftRight, BitVec.toNat_ofInt, BitVec.toNat_ofInt,
    Nat.shiftRight_eq_div_pow]
  omega

-- ---------------------------------------------------------------------------
-- Sign extension of the factors
-- ---------------------------------------------------------------------------

/-- Extending leaves the lowest bits. -/
theorem signExtend_low (h0 : 0 < n * 8) (hn : n * 8 < 64) (a : Word64) :
    ∃ x, signExtend a n = some x ∧ x.setWidth (n * 8) = a.setWidth (n * 8) ∧
      (a.getLsbD (n * 8 - 1) = true → x.toInt = (a.setWidth (n * 8)).toInt) ∧
      (a.getLsbD (n * 8 - 1) = false → x = a) := by
  have hmsb : (a.setWidth (n * 8)).msb = a.getLsbD (n * 8 - 1) := by
    rw [BitVec.msb_setWidth, decide_eq_true h0, Bool.true_and]
  refine ⟨_, signExtend_narrow a h0 hn, ?_, fun hs => ?_, fun hs => ?_⟩
  · split
    · apply BitVec.eq_of_getLsbD_eq
      intro i hi
      rw [BitVec.getLsbD_setWidth, BitVec.getLsbD_signExtend, if_pos hi]
      simp [hi, show i < 64 by omega]
    · rfl
  · rw [if_pos (hmsb.trans hs)]
    exact BitVec.toInt_signExtend_of_le (Nat.le_of_lt hn)
  · rw [if_neg (by rw [hmsb, hs]; exact Bool.false_ne_true)]

theorem signExtend_byte (h2 : IntSize n) (hn : n ≠ 1) (hb : b.toNat < 256) : signExtend b n = some b := by
  have hpow : 256 ≤ 2 ^ (n * 8 - 1) := by
    rcases h2 with rfl | rfl | rfl | rfl
    · exact absurd rfl hn
    all_goals decide
  have hbit : b.getLsbD (n * 8 - 1) = false := Nat.testBit_lt_two_pow (Nat.lt_of_lt_of_le hb hpow)
  rcases Nat.lt_or_ge (n * 8) 64 with hlt | hge
  · obtain ⟨x, hx, -, -, hsame⟩ := signExtend_low h2.pos hlt b
    rw [hx, hsame hbit]
  · obtain rfl : n = 8 := by
      have := h2.le
      omega
    rw [signExtend_eight, BitVec.msb_eq_getLsbD_last, hbit, if_neg Bool.false_ne_true]

/-- A positive factor and what stands above it. -/
theorem above_positive (a : Word64) (hw : 2 * w ≤ 64) (hs : a.getLsbD (w - 1) = false) (h0 : 0 < w) :
    ∃ j, a.toInt = (a.setWidth w).toInt + 2 ^ w * ((a.toNat / 2 ^ w : Nat) : Int) + 2 ^ w * 2 ^ w * j := by
  have hmsb : (a.setWidth w).msb = false := by
    rw [BitVec.msb_setWidth, hs, Bool.and_false]
  have hdiv : (a.toNat : Int) = (a.toNat % 2 ^ w : Nat) + 2 ^ w * (a.toNat / 2 ^ w : Nat) := by
    exact_mod_cast (Nat.mod_add_div a.toNat (2 ^ w)).symm
  have hpow : (2 : Int) ^ 64 = 2 ^ w * 2 ^ w * 2 ^ (64 - 2 * w) := by
    rw [← pow_add, ← pow_add]
    congr 1
    omega
  rw [BitVec.toInt_eq_toNat_of_msb hmsb, BitVec.toNat_setWidth, BitVec.toInt_eq_msb_cond, ← hdiv]
  cases a.msb with
  | true => exact ⟨-2 ^ (64 - 2 * w), by rw [if_pos rfl, Nat.cast_pow, Nat.cast_ofNat, hpow]; ring⟩
  | false => exact ⟨0, by rw [if_neg Bool.false_ne_true, Int.mul_zero, Int.add_zero]⟩

/-- The byte of a factor, the one above it and the rest. -/
theorem above_byte (x a : Word64) (h : x.setWidth 16 = a.setWidth 16) :
    ∃ j, x.toInt = (a.setWidth 8).toInt +
      2 ^ 8 * (((if (a.setWidth 8).msb then ((a >>> 8).setWidth 8).toNat + 1
        else ((a >>> 8).setWidth 8).toNat) : Nat) : Int) + 2 ^ 8 * 2 ^ 8 * j := by
  have hlow : x.toNat % 65536 = a.toNat % 65536 := by
    have hv := congrArg BitVec.toNat h
    rwa [BitVec.toNat_setWidth, BitVec.toNat_setWidth] at hv
  have hx : x.toInt % 65536 = a.toNat % 65536 := by
    rw [BitVec.toInt_eq_msb_cond]
    split <;> omega
  refine ⟨(x.toInt - a.toNat % 65536) / 65536, ?_⟩
  rw [BitVec.toInt_eq_msb_cond (a.setWidth 8), BitVec.toNat_setWidth, BitVec.toNat_setWidth,
    BitVec.toNat_ushiftRight, Nat.shiftRight_eq_div_pow]
  cases (a.setWidth 8).msb with
  | true =>
    simp only [if_true, Nat.cast_add]
    omega
  | false =>
    simp only [Bool.false_eq_true, if_false]
    omega

-- ---------------------------------------------------------------------------
-- The law
-- ---------------------------------------------------------------------------

theorem multiplies_some {a b : BitVec w} (hx : execOne m = some (.ok, m')) : Multiplies m a b ↔
    lowHalf (insnAt m) w m' = BitVec.ofInt w (a.toInt * b.toInt) ∧
      ((insnAt m).numOperands = 1 → highHalf w m' = BitVec.ofInt w (a.toInt * b.toInt / 2 ^ w)) := by
  constructor
  · rintro ⟨m1, hm1, h⟩
    obtain ⟨-, rfl⟩ := Prod.mk.inj (Option.some.inj (hx.symm.trans hm1))
    exact h
  · exact fun h => ⟨m', hx, h⟩

theorem multiplies_none {a b : BitVec w} (hx : execOne m = none) : ¬Multiplies m a b := by
  rintro ⟨m1, hm1, -⟩
  cases hx.symm.trans hm1

theorem imul_is (hover : (decode (codeAt m)).2.overread = false) (hop : (insnAt m).opcode = .imul) :
    execOne m = (execImul m.count (insnAt m)).map fun m1 => (.ok, m1.setRip (nextRip m)) :=
  step_is hover hop nofun (by rw [exec, hop])

section
variable {m : Machine} {a b : Word64}

/-- The one-operand form is right where the product it forms has the exact halves. -/
theorem one_step {A B : BitVec (z * 8)} (hover : (decode (codeAt m)).2.overread = false)
    (hop : (insnAt m).opcode = .imul) (hn : (insnAt m).numOperands = 1)
    (hf : factors m (insnAt m) = some (a, b)) (hs : (insnAt m).opSize = n) (h2 : 2 ≤ n)
    (h8 : n * 8 ≤ 64) (hz : z = 1 ∨ z = n) (hx : signExtend a n = some x) (hy : signExtend b n = some y) :
    Multiplies m A B ↔
      BitVec.ofInt (z * 8) (x.toInt * y.toInt) = BitVec.ofInt (z * 8) (A.toInt * B.toInt) ∧
      BitVec.ofInt (z * 8) (x.toInt * y.toInt / 2 ^ (z * 8)) =
        BitVec.ofInt (z * 8) (A.toInt * B.toInt / 2 ^ (z * 8)) := by
  have hexec := execImul_one (m := m.count) hn hf
  rw [hs, hx, Option.bind_some, hy, Option.map_some] at hexec
  have hstep := imul_is hover hop
  rw [hexec, Option.map_some] at hstep
  rw [multiplies_some hstep]
  have hlow : lowHalf (insnAt m) (z * 8)
      ((oneResult m.count n (x.toInt * y.toInt)).setRip (nextRip m)) =
        BitVec.ofInt (z * 8) (x.toInt * y.toInt) := by
    rw [lowHalf, if_pos hn]
    exact (congrArg _ (oneResult_rax m.count n _)).trans (masked_low _ (by omega) h8)
  have hhigh : highHalf (z * 8) ((oneResult m.count n (x.toInt * y.toInt)).setRip (nextRip m)) =
      BitVec.ofInt (z * 8) (x.toInt * y.toInt / 2 ^ (z * 8)) := by
    rcases hz with rfl | rfl
    · exact (congrArg (fun v : Word64 => (v >>> 8).setWidth 8) (oneResult_rax m.count n _)).trans
        (masked_second _ h2 h8)
    · rw [highHalf, if_neg (by omega)]
      exact (congrArg _ (oneResult_rdx m.count _ _)).trans (masked_low _ (Nat.le_refl _) h8)
  rw [hlow, hhigh]
  exact and_congr_right fun _ => ⟨fun h => h hn, fun h _ => h⟩

/-- A byte operand, whatever the operand size. -/
theorem byte_product (hover : (decode (codeAt m)).2.overread = false)
    (hop : (insnAt m).opcode = .imul) (hn : (insnAt m).numOperands = 1)
    (hf : factors m (insnAt m) = some (a, b)) (hs : (insnAt m).opSize = n) (h2 : 2 ≤ n)
    (hi : IntSize n) (hb : b.toNat < 256) (hx : signExtend a n = some x)
    (hlow : x.setWidth 16 = a.setWidth 16) :
    Multiplies m (a.setWidth (1 * 8)) (b.setWidth (1 * 8)) ↔ ByteFits a b := by
  have hy := signExtend_byte hi (by omega) hb
  rw [one_step hover hop hn hf hs h2 hi.le (.inl rfl) hx hy]
  obtain ⟨j, hj⟩ := above_byte x a hlow
  have hbyte : b.toInt = (b.setWidth 8).toInt +
      2 ^ 8 * (if (b.setWidth 8).msb then 1 else 0 : Int) := by
    have hpos : b.msb = false := by
      rw [BitVec.msb_eq_false_iff_two_mul_lt]
      omega
    rw [BitVec.toInt_eq_toNat_of_msb hpos, BitVec.toInt_eq_msb_cond (b.setWidth 8), BitVec.toNat_setWidth,
      Nat.mod_eq_of_lt hb]
    cases (b.setWidth 8).msb <;> simp
  obtain ⟨hl, hh⟩ := product_halves (a.setWidth 8) (b.setWidth 8) hj hbyte
  refine (and_iff_right hl).trans (hh.trans ?_)
  rw [ByteFits, BitVec.ofInt_natCast]
  have hah : BitVec.ofNat 8 (if (a.setWidth 8).msb then ((a >>> 8).setWidth 8).toNat + 1
      else ((a >>> 8).setWidth 8).toNat) =
        if (a.setWidth 8).msb then (a >>> 8).setWidth 8 + 1 else (a >>> 8).setWidth 8 := by
    cases (a.setWidth 8).msb with
    | true => exact (BitVec.ofNat_add ..).trans (by rw [BitVec.ofNat_toNat, BitVec.setWidth_eq]; rfl)
    | false => exact (BitVec.ofNat_toNat ..).trans (BitVec.setWidth_eq _)
  have hal : BitVec.ofInt 8 (if (b.setWidth 8).msb then 1 else 0 : Int) * a.setWidth 8 =
      if (b.setWidth 8).msb then a.setWidth 8 else 0 := by
    cases (b.setWidth 8).msb with
    | true => exact BitVec.one_mul _
    | false => exact BitVec.zero_mul
  rw [hah, hal]

/-- An operand as wide as the product is formed at, below 64 bits. -/
theorem wide_product (hover : (decode (codeAt m)).2.overread = false)
    (hop : (insnAt m).opcode = .imul) (hn : (insnAt m).numOperands = 1)
    (hf : factors m (insnAt m) = some (a, b)) (hs : (insnAt m).opSize = n) (h2 : 2 ≤ n)
    (h4 : n ≤ 4) (hb : b = (b.setWidth (n * 8)).setWidth 64) :
    Multiplies m (a.setWidth (n * 8)) (b.setWidth (n * 8)) ↔ WideFits (n * 8) a b := by
  obtain ⟨x, hx, -, hneg, hpos⟩ := signExtend_low (n := n) (by omega) (by omega) a
  have hy := signExtend_holds (b.setWidth (n * 8)) (by omega) (by omega)
  rw [← hb] at hy
  have hyInt : ((b.setWidth (n * 8)).signExtend 64).toInt = (b.setWidth (n * 8)).toInt + 2 ^ (n * 8) * 0 := by
    rw [BitVec.toInt_signExtend_of_le (by omega), Int.mul_zero, Int.add_zero]
  rw [one_step hover hop hn hf hs h2 (by omega) (.inr rfl) hx hy]
  unfold WideFits
  cases hsign : a.getLsbD (n * 8 - 1) with
  | true =>
    have hxInt : x.toInt = (a.setWidth (n * 8)).toInt + 2 ^ (n * 8) * 0 + 2 ^ (n * 8) * 2 ^ (n * 8) * 0 := by
      rw [hneg hsign, Int.mul_zero, Int.mul_zero, Int.add_zero, Int.add_zero]
    obtain ⟨hl, hh⟩ := product_halves _ _ hxInt hyInt
    exact iff_of_true ⟨hl, hh.2 (by simp)⟩ (.inl rfl)
  | false =>
    obtain ⟨j, hj⟩ := above_positive a (w := n * 8) (by omega) hsign (by omega)
    rw [← hpos hsign] at hj
    obtain ⟨hl, hh⟩ := product_halves _ _ hj hyInt
    rw [hpos hsign] at hh hl ⊢
    have hup : BitVec.ofInt (n * 8) ((a.toNat / 2 ^ (n * 8) : Nat) : Int) = (a >>> (n * 8)).setWidth (n * 8) := by
      apply BitVec.eq_of_toNat_eq
      rw [BitVec.ofInt_natCast, BitVec.toNat_ofNat, BitVec.toNat_setWidth, BitVec.toNat_ushiftRight,
        Nat.shiftRight_eq_div_pow]
    rw [hup] at hh
    refine (and_iff_right hl).trans (hh.trans ?_)
    simp

/-- Two operands below 64 bits, whose product fits in 64. -/
theorem mulS64_narrow (x y : BitVec w) (h : w ≤ 32) :
    mulS64 (x.signExtend 64) (y.signExtend 64) = some (BitVec.ofInt 64 (x.toInt * y.toInt)) := by
  have hbound (v : BitVec w) : v.toInt.natAbs ≤ 2 ^ 31 := by
    have hpow : (2 : Nat) ^ w ≤ 2 ^ 32 := Nat.pow_le_pow_right (by decide) h
    have hle := v.le_two_mul_toInt
    have hlt := v.two_mul_toInt_lt
    have hcast : ((2 ^ w : Nat) : Int) ≤ 2 ^ 32 := by exact_mod_cast hpow
    rw [Nat.cast_pow, Nat.cast_ofNat] at hcast
    omega
  have hprod : (x.toInt * y.toInt).natAbs ≤ 2 ^ 31 * 2 ^ 31 := by
    rw [Int.natAbs_mul]
    exact Nat.mul_le_mul (hbound x) (hbound y)
  unfold mulS64
  dsimp only
  rw [BitVec.toInt_signExtend_of_le (by omega), BitVec.toInt_signExtend_of_le (by omega), if_pos (by omega)]

/-- The forms with a destination register. -/
theorem more_step (hover : (decode (codeAt m)).2.overread = false)
    (hop : (insnAt m).opcode = .imul) (hn : (insnAt m).numOperands = 2 ∨ (insnAt m).numOperands = 3)
    (hf : factors m (insnAt m) = some (a, b)) (hreg : (insnAt m).op0.type = .reg)
    (hs : (insnAt m).op0.size = n) (hi : IntSize n) (hsize : (insnAt m).opSize = n)
    (hr : ((signExtend a n).bind fun x => (signExtend b n).bind fun y => mulS64 x y) = some r)
    (A B : BitVec (n * 8)) : Multiplies m A B ↔ r.setWidth (n * 8) = BitVec.ofInt (n * 8) (A.toInt * B.toInt) := by
  have hn1 : (insnAt m).numOperands ≠ 1 := by omega
  obtain ⟨x, hx, hr⟩ := Option.bind_eq_some_iff.1 hr
  obtain ⟨y, hy, hr⟩ := Option.bind_eq_some_iff.1 hr
  have hexec := execImul_more (m := m.count) hn hf
  rw [hsize, hx, Option.bind_some, hy, Option.bind_some, hr, Option.bind_some] at hexec
  simp only [writeOperand, hreg] at hexec
  have hstep := imul_is hover hop
  rw [hexec, Option.map_some] at hstep
  rw [multiplies_some hstep, lowHalf, if_neg hn1]
  have hlow (old : Word64) : (merge (insnAt m).op0.size old r).setWidth (n * 8) = r.setWidth (n * 8) := by
    rw [hs]
    exact merge_low old r hi
  simp only [Machine.setRip, Machine.setReg, State.setReg, Function.update_self, hlow]
  exact and_iff_left fun h => absurd h hn1

theorem more_none (hover : (decode (codeAt m)).2.overread = false)
    (hop : (insnAt m).opcode = .imul) (hn : (insnAt m).numOperands = 2 ∨ (insnAt m).numOperands = 3)
    (hf : factors m (insnAt m) = some (a, b)) (hsize : (insnAt m).opSize = n)
    (hr : ((signExtend a n).bind fun x => (signExtend b n).bind fun y => mulS64 x y) = none) :
    execOne m = none := by
  have hexec := execImul_more (m := m.count) hn hf
  rw [hsize] at hexec
  rw [imul_is hover hop, hexec]
  cases hx : signExtend a n with
  | none => rfl
  | some x =>
    rw [hx, Option.bind_some] at hr
    cases hy : signExtend b n with
    | none => simp [hy]
    | some y =>
      rw [hy, Option.bind_some] at hr
      simp [hy, hr]

theorem more_product (hover : (decode (codeAt m)).2.overread = false)
    (hop : (insnAt m).opcode = .imul) (hn : (insnAt m).numOperands = 2 ∨ (insnAt m).numOperands = 3)
    (hf : factors m (insnAt m) = some (a, b)) (hreg : (insnAt m).op0.type = .reg)
    (hs : (insnAt m).op0.size = n) (hi : IntSize n) (h2 : 2 ≤ n) (hsize : (insnAt m).opSize = n)
    (ha : a = (a.setWidth (n * 8)).setWidth 64) (hb : b = (b.setWidth (n * 8)).setWidth 64) :
    Multiplies m (a.setWidth (n * 8)) (b.setWidth (n * 8)) ↔
      (n = 8 → a.msb = false ∧ b.msb = false ∧ a.toNat * b.toNat < 2 ^ 63) := by
  rcases Nat.lt_or_ge n 8 with hlt | hge
  · have hx := signExtend_holds (a.setWidth (n * 8)) hi.pos (by omega)
    have hy := signExtend_holds (b.setWidth (n * 8)) hi.pos (by omega)
    rw [← ha] at hx
    rw [← hb] at hy
    have h4 : n * 8 ≤ 32 := by
      rcases hi with rfl | rfl | rfl | rfl <;> omega
    have hr := mulS64_narrow (a.setWidth (n * 8)) (b.setWidth (n * 8)) h4
    rw [more_step hover hop hn hf hreg hs hi hsize (by rw [hx, Option.bind_some, hy, Option.bind_some, hr])]
    exact iff_of_true (setWidth_ofInt _ hi.le) fun h => absurd h (by omega)
  · obtain rfl : n = 8 := by
      have := hi.le
      omega
    rw [forall_prop_of_true rfl]
    cases hma : a.msb with
    | true =>
      have hnone := more_none hover hop hn hf hsize (by rw [signExtend_eight, hma, if_pos rfl]; rfl)
      exact iff_of_false (multiplies_none hnone) fun h => Bool.noConfusion h.1
    | false =>
      cases hmb : b.msb with
      | true =>
        have hnone := more_none hover hop hn hf hsize (by
          rw [signExtend_eight, hma, if_neg Bool.false_ne_true, Option.bind_some, signExtend_eight, hmb,
            if_pos rfl]
          rfl)
        exact iff_of_false (multiplies_none hnone) fun h => Bool.noConfusion h.2.1
      | false =>
        have hab : a.toInt * b.toInt = (a.toNat * b.toNat : Nat) := by
          rw [BitVec.toInt_eq_toNat_of_msb hma, BitVec.toInt_eq_toNat_of_msb hmb, Nat.cast_mul]
        have hmul : mulS64 a b = if a.toNat * b.toNat < 2 ^ 63 then some (BitVec.ofInt 64 (a.toInt * b.toInt))
            else none := by
          unfold mulS64
          dsimp only
          rw [hab]
          exact if_congr (by omega) rfl rfl
        have hbind : ((signExtend a 8).bind fun x => (signExtend b 8).bind fun y => mulS64 x y) =
            mulS64 a b := by
          rw [signExtend_eight, hma, if_neg Bool.false_ne_true, Option.bind_some, signExtend_eight, hmb,
            if_neg Bool.false_ne_true, Option.bind_some]
        by_cases hlt : a.toNat * b.toNat < 2 ^ 63
        · rw [more_step hover hop hn hf hreg hs hi hsize (hbind.trans (hmul.trans (if_pos hlt)))]
          have hsame (v : Word64) : v.setWidth (8 * 8) = v := BitVec.setWidth_eq v
          rw [hsame (BitVec.ofInt 64 _), hsame a, hsame b]
          exact iff_of_true rfl ⟨rfl, rfl, hlt⟩
        · have hnone := more_none hover hop hn hf hsize (hbind.trans (hmul.trans (if_neg hlt)))
          exact iff_of_false (multiplies_none hnone) fun h => hlt h.2.2

theorem one_none (hover : (decode (codeAt m)).2.overread = false) (hop : (insnAt m).opcode = .imul)
    (hn : (insnAt m).numOperands = 1) (hf : factors m (insnAt m) = some (a, b))
    (hsize : (insnAt m).opSize = 8) (h : ¬(a.msb = false ∧ b.msb = false)) : execOne m = none := by
  have hexec := execImul_one (m := m.count) hn hf
  rw [hsize, signExtend_eight, signExtend_eight] at hexec
  rw [imul_is hover hop, hexec]
  cases hma : a.msb with
  | true => rfl
  | false =>
    have hmb : b.msb = true := by simpa [hma] using h
    rw [hmb]
    rfl

theorem one_product (hover : (decode (codeAt m)).2.overread = false) (hop : (insnAt m).opcode = .imul)
    (hn : (insnAt m).numOperands = 1) (hf : factors m (insnAt m) = some (a, b))
    (hi : (insnAt m).opSize = 2 ∨ (insnAt m).opSize = 4 ∨ (insnAt m).opSize = 8)
    (hz : z = 1 ∨ z = (insnAt m).opSize) (hb : b = (b.setWidth (z * 8)).setWidth 64) :
    Multiplies m (a.setWidth (z * 8)) (b.setWidth (z * 8)) ↔
      ((insnAt m).opSize = 8 → a.msb = false ∧ b.msb = false) ∧
        if z = 1 then ByteFits a b
        else (insnAt m).opSize < 8 → WideFits ((insnAt m).opSize * 8) a b := by
  have h2 : 2 ≤ (insnAt m).opSize := by omega
  have hint : IntSize (insnAt m).opSize := .inr hi
  by_cases hfail : (insnAt m).opSize = 8 ∧ ¬(a.msb = false ∧ b.msb = false)
  · refine iff_of_false (multiplies_none (one_none hover hop hn hf hfail.1 hfail.2)) ?_
    exact fun h => hfail.2 (h.1 hfail.1)
  have hok : (insnAt m).opSize = 8 → a.msb = false ∧ b.msb = false := fun h => by
    by_contra hno
    exact hfail ⟨h, hno⟩
  rw [and_iff_right hok]
  rcases Nat.lt_or_ge (insnAt m).opSize 8 with hlt | hge
  · obtain ⟨x, hx, hlow, -, -⟩ := signExtend_low (n := (insnAt m).opSize) (by omega) (by omega) a
    rcases hz with rfl | rfl
    · rw [if_pos rfl]
      refine byte_product hover hop hn hf rfl h2 hint ?_ hx ?_
      · rw [hb, BitVec.toNat_setWidth_of_le (by decide)]
        exact BitVec.isLt _
      · have h16 := congrArg (BitVec.setWidth 16) hlow
        rwa [BitVec.setWidth_setWidth_of_le _ (by omega), BitVec.setWidth_setWidth_of_le _ (by omega)] at h16
    · rw [if_neg (by omega), forall_prop_of_true hlt]
      exact wide_product hover hop hn hf rfl h2 (by omega) hb
  · have h8 : (insnAt m).opSize = 8 := by omega
    obtain ⟨hma, hmb⟩ := hok h8
    have hx : signExtend a 8 = some a := by rw [signExtend_eight, hma, if_neg Bool.false_ne_true]
    have hy : signExtend b 8 = some b := by rw [signExtend_eight, hmb, if_neg Bool.false_ne_true]
    rcases hz with rfl | rfl
    · rw [if_pos rfl]
      refine byte_product hover hop hn hf h8 (by decide) (.inr (.inr (.inr rfl))) ?_ hx rfl
      rw [hb, BitVec.toNat_setWidth_of_le (by decide)]
      exact BitVec.isLt _
    · rw [if_neg (by omega)]
      rw [h8] at hb ⊢
      have hsame (v : Word64) : v.setWidth (8 * 8) = v := BitVec.setWidth_eq v
      rw [one_step (n := 8) hover hop hn hf h8 (by decide) (by decide) (.inr rfl) hx hy, hsame, hsame]
      exact iff_of_true ⟨rfl, rfl⟩ fun h => absurd h (by decide)

end

/-- IMUL leaves the exact product of its factors exactly when these fit what it does with them. -/
theorem imul_law (hover : (decode (codeAt m)).2.overread = false) (hop : (insnAt m).opcode = .imul)
    (hf : factors m (insnAt m) = some (a, b)) :
    Multiplies m (a.setWidth ((insnAt m).op0.size * 8)) (b.setWidth ((insnAt m).op0.size * 8)) ↔
      ProductFits (insnAt m) a b := by
  have hi := insn_opSize hop nofun
  obtain ⟨srcs, low, md, hmd, hshape⟩ := insn_shape hop nofun
  unfold ProductFits
  rcases hshape.imul hop with ⟨hn, hz⟩ | ⟨hn, hreg, hs, hs1⟩ | ⟨hn, hreg, hs, hs1, hs2⟩
  · obtain ⟨-, hb⟩ := factors_one hn hf
    rw [if_pos hn]
    exact one_product hover hop hn hf hi hz (read_eq hb)
  · obtain ⟨ha, hb⟩ := factors_two hn hf
    have ha' := read_eq ha
    have hb' := read_eq hb
    rw [hs] at ha' ⊢
    rw [hs1] at hb'
    rw [if_neg (by omega)]
    exact more_product hover hop (.inl hn) hf (hreg ▸ hmd) hs (.inr hi) (by omega) rfl ha' hb'
  · obtain ⟨ha, hb⟩ := factors_three hn hf
    have ha' := read_eq ha
    have hb' := read_eq hb
    rw [hs1] at ha'
    rw [hs2] at hb'
    rw [hs, if_neg (by omega)]
    exact more_product hover hop (.inr hn) hf (hreg ▸ hmd) hs (.inr hi) (by omega) rfl ha' hb'

/-- `imul ebx, ecx`. -/
def imulCode : List Byte := [0x0F, 0xAF, 0xD9]

theorem imul_law_small : Multiplies (.of imulCode fun r => BitVec.ofNat 64 r)
    ((3 : Word64).setWidth ((insnAt (.of imulCode fun r => BitVec.ofNat 64 r)).op0.size * 8))
    ((1 : Word64).setWidth ((insnAt (.of imulCode fun r => BitVec.ofNat 64 r)).op0.size * 8)) :=
  (imul_law (by decide) (by decide) (by decide +kernel)).2 (by decide +kernel)

/-- `imul rbx, rcx`, with -1 in RCX. -/
def imulMinus : Machine := .of [0x48, 0x0F, 0xAF, 0xD9] fun r => if r = rcx then BitVec.allOnes 64 else 3

/-- A negative factor at 64 bits: a shift by 64. -/
theorem imul_shift_out : ¬∀ (m : Machine) (a b : Word64), (decode (codeAt m)).2.overread = false →
    (insnAt m).opcode = .imul → factors m (insnAt m) = some (a, b) →
    Multiplies m (a.setWidth ((insnAt m).op0.size * 8)) (b.setWidth ((insnAt m).op0.size * 8)) := by
  intro h
  have hnone : execOne imulMinus = none := more_none (a := 3) (b := BitVec.allOnes 64) (n := 8)
    (by decide) (by decide) (.inl (by decide)) (by decide +kernel) (by decide) (by decide +kernel)
  exact multiplies_none hnone (h imulMinus 3 (BitVec.allOnes 64) (by decide) (by decide) (by decide +kernel))

end WineGlass.X86
