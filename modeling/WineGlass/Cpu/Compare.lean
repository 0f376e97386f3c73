import Mathlib.Tactic.IntervalCases
import WineGlass.Cpu.Step
import WineGlass.Lib.Bits

/-!
# Comparisons

What the sixteen conditions say of two numbers, and what they say after a CMP.
The flags are right for numbers of the width they are computed at. CMP computes
them at the operand size, also when it compares bytes, and zero-extended bytes
have other signs than the bytes.
-/

namespace WineGlass.X86

open Bits Memory

/-- The even conditions; each odd one is the opposite of the one before it. -/
def evenCondition (n : Nat) (a b : BitVec w) : Prop :=
  match n with
  | 0 => a.toInt - b.toInt < -2 ^ (w - 1) ∨ 2 ^ (w - 1) ≤ a.toInt - b.toInt
  | 1 => a.toNat < b.toNat
  | 2 => a = b
  | 3 => a.toNat ≤ b.toNat
  | 4 => (a - b).toInt < 0
  | 5 => ((List.range 8).countP fun i => (a - b).getLsbD i) % 2 = 0
  | 6 => a.toInt < b.toInt
  | _ => a.toInt ≤ b.toInt

/-- What condition `cc` says of two numbers. -/
def Condition (cc : Nat) (a b : BitVec w) : Prop :=
  if cc % 2 = 0 then evenCondition (cc % 16 / 2) a b else ¬evenCondition (cc % 16 / 2) a b

instance (n : Nat) (a b : BitVec w) : Decidable (evenCondition n a b) := by
  unfold evenCondition
  split <;> infer_instance

instance (cc : Nat) (a b : BitVec w) : Decidable (Condition cc a b) :=
  inferInstanceAs (Decidable (ite ..))

-- ---------------------------------------------------------------------------
-- Flags at a width
-- ---------------------------------------------------------------------------

theorem and_maskForBits (v : Word64) (h : w ≤ 64) :
    v &&& maskForBits w = (v.setWidth w).setWidth 64 := by
  unfold maskForBits
  split
  · obtain rfl : w = 64 := by omega
    rw [BitVec.and_allOnes, BitVec.setWidth_eq, BitVec.setWidth_eq]
  · exact and_lowMask v (by omega)

theorem parity_eq (v : BitVec 8) :
    parity v = decide (((List.range 8).countP fun i => v.getLsbD i) % 2 = 0) := by
  revert v
  decide +kernel

theorem narrowed_zero (r : BitVec w) (h : w ≤ 64) : (r.setWidth 64 == 0) = decide (r = 0) := by
  rw [Bool.eq_iff_iff, beq_iff_eq, decide_eq_true_iff]
  constructor
  · intro h0
    have hr := congrArg (BitVec.setWidth w) h0
    rw [BitVec.setWidth_setWidth_of_le _ h, BitVec.setWidth_eq] at hr
    exact hr.trans (BitVec.setWidth_zero ..)
  · rintro rfl
    exact BitVec.setWidth_zero ..

theorem narrowed_parity (r : BitVec w) : parity ((r.setWidth 64).setWidth 8) =
    decide (((List.range 8).countP fun i => r.getLsbD i) % 2 = 0) := by
  have hlow (i : Nat) (hi : i ∈ List.range 8) :
      ((r.setWidth 64).setWidth 8).getLsbD i = r.getLsbD i := by
    have hi := List.mem_range.1 hi
    rw [BitVec.getLsbD_setWidth, BitVec.getLsbD_setWidth, decide_eq_true hi,
      decide_eq_true (show i < 64 by omega), Bool.true_and, Bool.true_and]
  rw [parity_eq, List.countP_congr fun i hi => by rw [hlow i hi]]

theorem not_flag {f : Bool} {p : Prop} (h : f = true ↔ p) : (!f) = true ↔ ¬p := by
  rw [Bool.not_eq_true', ← Bool.not_eq_true, h]

section
variable {w : Nat} {a b : BitVec w}

/-- The flags of a subtraction of numbers as wide as they are computed at. -/
theorem SubFlags.narrow (hf : SubFlags rflags (a.setWidth 64) (b.setWidth 64)
    (a.setWidth 64 - b.setWidth 64) w) (hw : 0 < w) (h : w ≤ 64) :
    getFlag rflags flagCF = decide (a.toNat < b.toNat) ∧
      getFlag rflags flagZF = decide (a = b) ∧
      getFlag rflags flagSF = (a - b).msb ∧
      getFlag rflags flagOF = a.ssubOverflow b ∧
      getFlag rflags flagPF =
        decide (((List.range 8).countP fun i => (a - b).getLsbD i) % 2 = 0) := by
  have hbit : w - 1 < 64 := by omega
  have hsub := narrow_sub a b h
  have hres := and_maskForBits (a.setWidth 64 - b.setWidth 64) h
  rw [hsub] at hres
  refine ⟨?_, ?_, ?_, ?_, ?_⟩
  · simp only [hf.cf, BitVec.lt_def, BitVec.toNat_setWidth_of_le h]
  · rw [hf.zf, hres, narrowed_zero _ h]
    exact decide_eq_decide.2 (BitVec.sub_eq_iff_eq_add.trans (by rw [BitVec.ofNat_eq_ofNat, BitVec.zero_add]))
  · rw [hf.sf, hres, signBit, and_bit_ne_zero _ hbit, getLsbD_widen _ hw h]
  · have hdiff : (a.setWidth 64 - b.setWidth 64).getLsbD (w - 1) = (a - b).msb := by
      rw [← hsub, BitVec.msb_setWidth, decide_eq_true hw, Bool.true_and]
    rw [hf.of, signBit, and_bit_ne_zero _ hbit, BitVec.getLsbD_and, BitVec.getLsbD_xor,
      BitVec.getLsbD_xor, getLsbD_widen a hw h, getLsbD_widen b hw h, hdiff, ssubOverflow_xor]
  · rw [hf.pf, hres, narrowed_parity]

/-- The conditions after a subtraction of numbers as wide as the flags. -/
theorem SubFlags.condition (hf : SubFlags rflags (a.setWidth 64) (b.setWidth 64)
    (a.setWidth 64 - b.setWidth 64) w) (hw : 0 < w) (h : w ≤ 64) (cc : Nat) :
    evalCondition rflags cc = true ↔ Condition cc a b := by
  obtain ⟨hcf, hzf, hsf, hof, hpf⟩ := hf.narrow hw h
  have hlt : (getFlag rflags flagSF != getFlag rflags flagOF) = true ↔ a.toInt < b.toInt := by
    rw [hsf, hof, msb_sub_bne, BitVec.slt_iff_toInt_lt]
  have heq : getFlag rflags flagZF = true ↔ a = b := by rw [hzf, decide_eq_true_iff]
  have hover : getFlag rflags flagOF = true ↔ evenCondition 0 a b := by
    rw [hof, BitVec.ssubOverflow, Bool.or_eq_true, decide_eq_true_iff, decide_eq_true_iff, or_comm]
    rfl
  have hbelow : getFlag rflags flagCF = true ↔ evenCondition 1 a b := by
    rw [hcf, decide_eq_true_iff]
    rfl
  have hbe : (getFlag rflags flagCF || getFlag rflags flagZF) = true ↔ evenCondition 3 a b := by
    rw [Bool.or_eq_true, hbelow, heq, ← BitVec.toNat_inj]
    exact Nat.le_iff_lt_or_eq.symm
  have hsign : getFlag rflags flagSF = true ↔ evenCondition 4 a b := by
    rw [hsf, BitVec.msb_eq_toInt, decide_eq_true_iff]
    rfl
  have hparity : getFlag rflags flagPF = true ↔ evenCondition 5 a b := by
    rw [hpf, decide_eq_true_iff]
    rfl
  have hle : (getFlag rflags flagZF || getFlag rflags flagSF != getFlag rflags flagOF) = true ↔
      evenCondition 7 a b := by
    rw [Bool.or_eq_true, hlt, heq, ← BitVec.toInt_inj]
    exact (Int.le_iff_lt_or_eq.trans or_comm).symm
  have habove : (!getFlag rflags flagCF && !getFlag rflags flagZF) = true ↔ ¬evenCondition 3 a b := by
    rw [← Bool.not_or]
    exact not_flag hbe
  have hge : (getFlag rflags flagSF == getFlag rflags flagOF) = true ↔ ¬evenCondition 6 a b := by
    rw [← Bool.not_not (_ == _)]
    exact not_flag hlt
  have hgt : (!getFlag rflags flagZF && getFlag rflags flagSF == getFlag rflags flagOF) = true ↔
      ¬evenCondition 7 a b := by
    rw [← Bool.not_not (_ == _), ← Bool.not_or]
    exact not_flag hle
  have hmod : cc % 2 = cc % 16 % 2 := by omega
  have hcc : cc % 16 < 16 := Nat.mod_lt _ (by decide)
  unfold evalCondition Condition
  rw [hmod]
  generalize cc % 16 = k at hcc ⊢
  interval_cases k
  · exact hover
  · exact not_flag hover
  · exact hbelow
  · exact not_flag hbelow
  · exact heq
  · exact not_flag heq
  · exact hbe
  · exact habove
  · exact hsign
  · exact not_flag hsign
  · exact hparity
  · exact not_flag hparity
  · exact hlt
  · exact hge
  · exact hle
  · exact hgt

end

-- ---------------------------------------------------------------------------
-- Zero-extended numbers
-- ---------------------------------------------------------------------------

section
variable {w n : Nat} {a b : BitVec w}

theorem condition_odd {a b : BitVec w} {a' b' : BitVec n}
    (h : ∀ k, evenCondition k a b ↔ evenCondition k a' b') (cc : Nat) :
    Condition cc a b ↔ Condition cc a' b' := by
  unfold Condition
  split
  · exact h _
  · exact not_congr (h _)

/-- Zero-extended numbers compare as the numbers do exactly when these have the
same sign. -/
theorem condition_widen (h8 : 8 ≤ w) (h : w < n) :
    (∀ cc, Condition cc (a.setWidth n) (b.setWidth n) ↔ Condition cc a b) ↔ a.msb = b.msb := by
  have ha := widen_toInt a h
  have hb := widen_toInt b h
  constructor
  · intro hall
    have hlt : evenCondition 6 (a.setWidth n) (b.setWidth n) ↔ evenCondition 6 a b := hall 12
    have hlt : a.toNat < b.toNat ↔ a.toInt < b.toInt := by
      have hsigned : (a.setWidth n).toInt < (b.setWidth n).toInt ↔ a.toInt < b.toInt := hlt
      rwa [ha, hb, Int.ofNat_lt] at hsigned
    by_contra hne
    have hult := BitVec.slt_eq_not_ult_of_msb_neq hne
    rw [BitVec.slt, BitVec.ult, ← decide_not] at hult
    have hiff := decide_eq_decide.1 hult
    omega
  · intro hmsb
    have hdiff : a.toInt - b.toInt = (a.toNat : Int) - b.toNat := by
      rw [BitVec.toInt_eq_msb_cond, BitVec.toInt_eq_msb_cond, hmsb]
      split <;> omega
    have hover : a.ssubOverflow b = false := by rw [ssubOverflow_xor, hmsb, Bool.xor_self, Bool.false_and]
    have hover' : (a.setWidth n).ssubOverflow (b.setWidth n) = false := by
      rw [ssubOverflow_xor, widen_msb a h, widen_msb b h]
      rfl
    have hsub := BitVec.toInt_sub_of_not_ssubOverflow (Bool.eq_false_iff.1 hover)
    have hsub' := BitVec.toInt_sub_of_not_ssubOverflow (Bool.eq_false_iff.1 hover')
    refine condition_odd fun k => ?_
    match k with
    | 0 =>
      rw [BitVec.ssubOverflow, Bool.or_eq_false_iff, decide_eq_false_iff_not,
        decide_eq_false_iff_not] at hover hover'
      exact iff_of_false (fun h => h.elim hover'.2 hover'.1) fun h => h.elim hover.2 hover.1
    | 1 => simp only [evenCondition, BitVec.toNat_setWidth_of_le (Nat.le_of_lt h)]
    | 2 => simp only [evenCondition, ← BitVec.toNat_inj, BitVec.toNat_setWidth_of_le (Nat.le_of_lt h)]
    | 3 => simp only [evenCondition, BitVec.toNat_setWidth_of_le (Nat.le_of_lt h)]
    | 4 => simp only [evenCondition, hsub, hsub', ha, hb, hdiff]
    | 5 =>
      have hlow (i : Nat) (hi : i ∈ List.range 8) :
          (a.setWidth n - b.setWidth n).getLsbD i = (a - b).getLsbD i := by
        have hi := List.mem_range.1 hi
        rw [← narrow_sub a b (Nat.le_of_lt h), BitVec.getLsbD_setWidth,
          decide_eq_true (show i < w by omega), Bool.true_and]
      simp only [evenCondition]
      rw [List.countP_congr fun i hi => by rw [hlow i hi]]
    | 6 =>
      simp only [evenCondition, ha, hb]
      omega
    | _ + 7 =>
      simp only [evenCondition, ha, hb]
      omega

end

-- ---------------------------------------------------------------------------
-- Operands
-- ---------------------------------------------------------------------------

/-- The operand holds a number. -/
def Holds (m : Machine) (op : Operand) (a : BitVec w) : Prop :=
  readOperand m op = some (a.setWidth 64)

theorem wideRead_lt (h : wideRead n mem addr = some x) : x < 256 ^ n := by
  unfold wideRead at h
  split at h
  · obtain rfl := Option.some.inj h
    exact Nat.pow_pos (by decide)
  · unfold loadBytes at h
    split at h
    · obtain rfl := Option.some.inj h
      exact Word.word_lt
    · cases h

theorem readMem_lt (h : readMem mem size addr = some v) : v.toNat < 2 ^ (size * 8) := by
  have hwide {n x : Nat} (hx : wideRead n mem addr = some x) (hn : n ≤ 8) :
      (BitVec.ofNat 64 x).toNat < 2 ^ (n * 8) := by
    rw [Nat.mul_comm, Nat.pow_mul]
    exact Nat.lt_of_le_of_lt (Nat.mod_le ..) (wideRead_lt hx)
  unfold readMem at h
  split at h
  · obtain rfl := Option.some.inj h
    rw [BitVec.toNat_setWidth_of_le (by decide)]
    exact (readU8 mem addr).isLt
  · obtain ⟨x, hx, rfl⟩ := Option.map_eq_some_iff.1 h
    exact hwide hx (by decide)
  · obtain ⟨x, hx, rfl⟩ := Option.map_eq_some_iff.1 h
    exact hwide hx (by decide)
  · obtain ⟨x, hx, rfl⟩ := Option.map_eq_some_iff.1 h
    exact hwide hx (by decide)
  · obtain rfl := Option.some.inj h
    exact Nat.two_pow_pos _

theorem maskFor_eq (bytes : Nat) : maskFor bytes = maskForBits (bytes * 8) := by
  unfold maskFor maskForBits
  congr 1
  exact propext (by omega)

theorem and_maskFor_lt (v : Word64) (size : Nat) : (v &&& maskFor size).toNat < 2 ^ (size * 8) := by
  rcases Nat.le_total (size * 8) 64 with h | h
  · rw [maskFor_eq, and_maskForBits v h, BitVec.toNat_setWidth_of_le h]
    exact BitVec.isLt _
  · exact Nat.lt_of_lt_of_le (BitVec.isLt _) (Nat.pow_le_pow_right (by decide) h)

/-- An operand that can be read holds a number of its size. -/
theorem readOperand_holds (h : readOperand m op = some v) :
    Holds m op (v.setWidth (op.size * 8)) := by
  have hlt : v.toNat < 2 ^ (op.size * 8) := by
    unfold readOperand at h
    split at h
    · obtain rfl := Option.some.inj h
      exact and_maskFor_lt ..
    · obtain rfl := Option.some.inj h
      exact and_maskFor_lt ..
    · obtain rfl := Option.some.inj h
      exact and_maskFor_lt ..
    · exact readMem_lt h
    · obtain rfl := Option.some.inj h
      exact Nat.two_pow_pos _
  rw [Holds, h, narrow_lt hlt]

-- ---------------------------------------------------------------------------
-- The law
-- ---------------------------------------------------------------------------

theorem execCmp_flags (h : execCmp m i = some m') (heq : i.op1.size = i.op0.size)
    (ha : Holds m i.op0 a) (hb : Holds m i.op1 b) : SubFlags m'.cpu.rflags (a.setWidth 64)
      (b.setWidth 64) (a.setWidth 64 - b.setWidth 64) (i.opSize * 8) := by
  have hpair : readPair m i = some (a.setWidth 64, b.setWidth 64) := readPair_same ha hb heq
  rw [execCmp, hpair] at h
  obtain rfl := Option.some.inj h
  exact updateFlagsSub_flags ..

/-- After a CMP the conditions agree with the numbers compared exactly when these
are wider than a byte or have the same sign. -/
theorem cmp_law {a b : BitVec ((insnAt m).op0.size * 8)} (hx : execOne m = some (res, m'))
    (hop : (insnAt m).opcode = .cmp) (ha : Holds m (insnAt m).op0 a)
    (hb : Holds m (insnAt m).op1 b) :
    res = .ok ∧ ((∀ cc, evalCondition m'.cpu.rflags cc = true ↔ Condition cc a b) ↔
      (insnAt m).op0.size ≠ 1 ∨ a.msb = b.msb) := by
  obtain ⟨heq, hsize, hop8⟩ := paired_sizes hop rfl
  obtain ⟨m1, hm1, rfl, rfl⟩ := step_goes hx hop nofun (f := fun m i => execCmp m i)
    (by rw [exec, hop])
  have hflags := execCmp_flags hm1 heq ha hb
  refine ⟨rfl, ?_⟩
  rcases hsize with h1 | hfull
  · have hw : (insnAt m).op0.size * 8 < (insnAt m).opSize * 8 := by omega
    have hwide (v : BitVec ((insnAt m).op0.size * 8)) :
        v.setWidth 64 = (v.setWidth ((insnAt m).opSize * 8)).setWidth 64 :=
      (BitVec.setWidth_setWidth (by omega)).symm
    rw [hwide a, hwide b] at hflags
    have hcond := hflags.condition (by omega) (by omega)
    have hflag (cc : Nat) : evalCondition (m1.setRip (nextRip m)).cpu.rflags cc = true ↔
        Condition cc (a.setWidth ((insnAt m).opSize * 8)) (b.setWidth ((insnAt m).opSize * 8)) :=
      hcond cc
    have hsign := condition_widen (a := a) (b := b) (by omega) hw
    simp only [hflag, hsign, h1, ne_eq, not_true, false_or]
  · rw [← hfull] at hflags
    refine iff_of_true (hflags.condition (by omega) (by omega)) (.inl (by omega))

/-- `cmp rax, rbx` with 1 and 2. -/
def cmpWords : Machine := .of [0x48, 0x39, 0xD8] fun r => if r = rax then 1 else if r = rbx then 2 else 0

theorem cmp_law_words : ∃ m', execOne cmpWords = some (.ok, m') ∧
    evalCondition m'.cpu.rflags 0xC = true := by
  have ha : Holds cmpWords (insnAt cmpWords).op0 (1 : BitVec 64) := rfl
  have hb : Holds cmpWords (insnAt cmpWords).op1 (2 : BitVec 64) := rfl
  have hless : Condition 0xC (1 : BitVec 64) 2 := by decide
  obtain ⟨-, hlaw⟩ := cmp_law (m := cmpWords) rfl (by decide) ha hb
  exact ⟨_, rfl, (hlaw.2 (.inl (by decide)) 0xC).2 hless⟩

/-- `cmp al, bl` with 0x80 and 1. -/
def cmpBytes : Machine := .of [0x38, 0xD8] fun r => if r = rax then 0x80 else if r = rbx then 1 else 0

/-- As a signed byte 0x80 is below 1, but it is not found below. -/
theorem signed_byte_order :
    ∃ m', execOne cmpBytes = some (.ok, m') ∧ (insnAt cmpBytes).opcode = .cmp ∧
      (insnAt cmpBytes).op0.size = 1 ∧ Holds cmpBytes (insnAt cmpBytes).op0 (0x80 : BitVec 8) ∧
      Holds cmpBytes (insnAt cmpBytes).op1 (1 : BitVec 8) ∧
      Condition 0xC (0x80 : BitVec 8) 1 ∧ evalCondition m'.cpu.rflags 0xC = false :=
  ⟨_, rfl, by decide, by decide, rfl, rfl, by decide, by decide⟩

end WineGlass.X86
