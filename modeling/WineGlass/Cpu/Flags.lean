import WineGlass.Cpu.Compare

/-!
# The status flags of sums and differences

What ADD and SUB are to leave in `rflags`, of numbers of any width. The carry of
a sum is read off the 64-bit result, which has none left at 64 bits.
-/

namespace WineGlass.X86

open Bits

/-- The bits of CF, PF, AF, ZF, SF and OF. -/
def statusBits : List Nat := [0, 2, 4, 6, 7, 11]

/-- A number of `bits` bits, as a signed one. -/
def signed (bits n : Nat) : Int := (n : Int).bmod (2 ^ bits)

/-- `new` has the flags of an operation: `value` is its exact result on
unsigned numbers and `signedValue` on signed ones. -/
structure Flagged (bits : Nat) (value signedValue : Int) (carry aux : Prop) (old new : Word64) : Prop where
  cf : getFlag new flagCF = true ↔ carry
  zf : getFlag new flagZF = true ↔ value % 2 ^ bits = 0
  sf : getFlag new flagSF = true ↔ 2 ^ (bits - 1) ≤ value % 2 ^ bits
  pf : getFlag new flagPF = true ↔
    ((List.range 8).countP fun i => (value % 2 ^ bits).toNat.testBit i) % 2 = 0
  of : getFlag new flagOF = true ↔ signedValue < -2 ^ (bits - 1) ∨ 2 ^ (bits - 1) ≤ signedValue
  af : getFlag new flagAF = true ↔ aux
  rest : ∀ i, i ∉ statusBits → new.getLsbD i = old.getLsbD i

/-- The flags of `a + b`. -/
def SumFlags (rflags a b : Word64) (bits : Nat) : Prop :=
  Flagged bits (a.toNat + b.toNat) (signed bits a.toNat + signed bits b.toNat)
    (2 ^ bits ≤ a.toNat + b.toNat) (16 ≤ a.toNat % 16 + b.toNat % 16) rflags
    (updateFlagsAdd rflags a b (a + b) bits)

/-- The flags of `a - b`. -/
def DifferenceFlags (rflags a b : Word64) (bits : Nat) : Prop :=
  Flagged bits (a.toNat - b.toNat) (signed bits a.toNat - signed bits b.toNat)
    (a.toNat < b.toNat) (a.toNat % 16 < b.toNat % 16) rflags
    (updateFlagsSub rflags a b (a - b) bits)

-- ---------------------------------------------------------------------------
-- Six flags at once
-- ---------------------------------------------------------------------------

/-- The order in which both functions set the flags. -/
def setStatus (rflags : Word64) (cf zf sf of af pf : Bool) : Word64 :=
  setFlag (setFlag (setFlag (setFlag (setFlag (setFlag rflags flagCF cf) flagZF zf) flagSF sf)
    flagOF of) flagAF af) flagPF pf

theorem setFlag_other (rflags : Word64) (val : Bool) (h : flag.getLsbD i = false) :
    (setFlag rflags flag val).getLsbD i = rflags.getLsbD i := by
  unfold setFlag
  cases val with
  | true => rw [if_pos rfl, BitVec.getLsbD_or, h, Bool.or_false]
  | false =>
    rw [if_neg Bool.false_ne_true, BitVec.getLsbD_and, BitVec.getLsbD_not, h]
    by_cases hi : i < 64
    · simp [hi]
    · simp [BitVec.getLsbD_of_ge _ _ (Nat.not_lt.1 hi)]

theorem bit_other (h : i ≠ k) : BitVec.getLsbD (1#64 <<< k) i = false := by
  simp only [BitVec.getLsbD_shiftLeft, BitVec.getLsbD_one, Bool.and_eq_false_iff, decide_eq_false_iff_not]
  by_cases hk : i < k
  · simp [hk]
  · exact .inr (.inr (by omega))

theorem setStatus_rest (rflags : Word64) (cf zf sf of af pf : Bool) (h : i ∉ statusBits) :
    (setStatus rflags cf zf sf of af pf).getLsbD i = rflags.getLsbD i := by
  simp only [statusBits, List.mem_cons, List.not_mem_nil, or_false, not_or] at h
  obtain ⟨h0, h2, h4, h6, h7, h11⟩ := h
  unfold setStatus
  exact (setFlag_other _ _ (bit_other h2)).trans <| (setFlag_other _ _ (bit_other h4)).trans <|
    (setFlag_other _ _ (bit_other h11)).trans <| (setFlag_other _ _ (bit_other h7)).trans <|
    (setFlag_other _ _ (bit_other h6)).trans (setFlag_other _ _ (bit_other h0))

/-- The flags that both functions take from a result `r` of `w` bits. -/
structure Results (w : Nat) (r : BitVec w) (cf of af : Bool) (old new : Word64) : Prop where
  cf : getFlag new flagCF = cf
  zf : getFlag new flagZF = decide (r = 0)
  sf : getFlag new flagSF = r.msb
  pf : getFlag new flagPF = decide (((List.range 8).countP fun i => r.getLsbD i) % 2 = 0)
  of : getFlag new flagOF = of
  af : getFlag new flagAF = af
  rest : ∀ i, i ∉ statusBits → new.getLsbD i = old.getLsbD i

section
variable {w : Nat}

/-- What six flags set from one 64-bit result say of its lowest `w` bits. -/
theorem setStatus_results (rflags : Word64) (r : Word64) (cf of af : Bool) (h0 : 0 < w) (h : w ≤ 64) :
    Results w (r.setWidth w) cf of af rflags
      (setStatus rflags cf (r &&& maskForBits w == 0) (r &&& maskForBits w &&& signBit w != 0) of af
        (parity ((r &&& maskForBits w).setWidth 8))) := by
  rw [and_maskForBits r h, narrowed_zero _ h, signBit, and_bit_ne_zero _ (show w - 1 < 64 by omega),
    getLsbD_widen _ h0 h, narrowed_parity]
  constructor
  case rest => exact fun i hi => setStatus_rest _ _ _ _ _ _ _ hi
  all_goals simp (disch := decide) only [setStatus, getFlag_setFlag_ne, getFlag_setFlag]

end

/-- The flags of a result that is the exact one, truncated. -/
theorem flagged_iff {r : BitVec bits} {value : Int} (h : Results bits r cf of af old new)
    (hr : value % 2 ^ bits = r.toNat) (hof : of = true ↔ signedValue < -2 ^ (bits - 1) ∨ 2 ^ (bits - 1) ≤ signedValue)
    (haf : af = true ↔ aux) : Flagged bits value signedValue carry aux old new ↔ (cf = true ↔ carry) := by
  constructor
  · intro hf
    exact h.cf ▸ hf.cf
  · intro hcf
    constructor
    case cf => exact h.cf ▸ hcf
    case zf =>
      rw [h.zf, hr, decide_eq_true_iff, BitVec.toNat_eq]
      exact Int.natCast_eq_zero.symm
    case sf =>
      rw [h.sf, hr, BitVec.msb_eq_decide, decide_eq_true_iff]
      exact Nat.cast_le.symm
    case pf =>
      rw [h.pf, hr, decide_eq_true_iff]
      rfl
    case of => exact h.of ▸ hof
    case af => exact h.af ▸ haf
    case rest => exact h.rest

theorem signed_eq (a : Word64) (ha : a.toNat < 2 ^ bits) :
    (a.setWidth bits).toInt = signed bits a.toNat := by
  rw [BitVec.toInt_eq_toNat_bmod, BitVec.toNat_setWidth, Nat.mod_eq_of_lt ha]
  rfl

-- ---------------------------------------------------------------------------
-- Sums and differences
-- ---------------------------------------------------------------------------

/-- Masking the top bit out of a product of differences. -/
theorem and_signBit (v : Word64) (h0 : 0 < w) (h : w ≤ 64) :
    (v &&& signBit w != 0) = (v.setWidth w).msb := by
  rw [signBit, and_bit_ne_zero _ (show w - 1 < 64 by omega), BitVec.msb_setWidth, decide_eq_true h0,
    Bool.true_and]

theorem sum_results (rflags a b : Word64) (h0 : 0 < w) (h : w ≤ 64) :
    Results w ((a + b).setWidth w) (decide (maskForBits w < a + b))
      ((a.setWidth w).saddOverflow (b.setWidth w)) (decide (16 ≤ a.toNat % 16 + b.toNat % 16)) rflags
      (updateFlagsAdd rflags a b (a + b) w) := by
  have haf : ((a ^^^ b ^^^ (a + b)) &&& 0x10 != 0) = decide (16 ≤ a.toNat % 16 + b.toNat % 16) :=
    (and_bit_ne_zero _ (show 4 < 64 by decide)).trans (xor_add a b (by decide))
  have hof : ((a ^^^ (a + b)) &&& (b ^^^ (a + b)) &&& signBit w != 0) =
      (a.setWidth w).saddOverflow (b.setWidth w) := by
    rw [and_signBit _ h0 h, saddOverflow_xor, ← BitVec.setWidth_add _ _ h, BitVec.setWidth_and,
      BitVec.msb_and, BitVec.setWidth_xor, BitVec.msb_xor, BitVec.setWidth_xor, BitVec.msb_xor]
  rw [← haf, ← hof]
  exact setStatus_results rflags (a + b) _ _ _ h0 h

theorem difference_results (rflags a b : Word64) (h0 : 0 < w) (h : w ≤ 64) :
    Results w ((a - b).setWidth w) (decide (a < b)) ((a.setWidth w).ssubOverflow (b.setWidth w))
      (decide (a.toNat % 16 < b.toNat % 16)) rflags (updateFlagsSub rflags a b (a - b) w) := by
  have haf : ((a ^^^ b ^^^ (a - b)) &&& 0x10 != 0) = decide (a.toNat % 16 < b.toNat % 16) :=
    (and_bit_ne_zero _ (show 4 < 64 by decide)).trans (xor_sub a b (by decide))
  have hsub : a.setWidth w - b.setWidth w = (a - b).setWidth w := by
    rw [BitVec.sub_eq_add_neg, BitVec.sub_eq_add_neg, BitVec.setWidth_add _ _ h,
      BitVec.setWidth_neg_of_le h]
  have hof : ((a ^^^ b) &&& (a ^^^ (a - b)) &&& signBit w != 0) =
      (a.setWidth w).ssubOverflow (b.setWidth w) := by
    rw [and_signBit _ h0 h, ssubOverflow_xor, hsub, BitVec.setWidth_and, BitVec.msb_and,
      BitVec.setWidth_xor, BitVec.msb_xor, BitVec.setWidth_xor, BitVec.msb_xor]
  rw [← haf, ← hof]
  exact setStatus_results rflags (a - b) _ _ _ h0 h

section
variable {bits : Nat} {a b : Word64}

theorem toNat_maskForBits (h : bits ≤ 64) : (maskForBits bits).toNat = 2 ^ bits - 1 := by
  unfold maskForBits
  split
  · obtain rfl : bits = 64 := by omega
    exact BitVec.toNat_allOnes
  · exact toNat_lowMask (by omega)

/-- The carry out of fewer than 64 bits is seen. -/
theorem carry_iff (h : bits ≤ 64) (ha : a.toNat < 2 ^ bits) (hb : b.toNat < 2 ^ bits) :
    (decide (maskForBits bits < a + b) = true ↔ 2 ^ bits ≤ a.toNat + b.toNat) ↔
      (bits = 64 → a.toNat + b.toNat < 2 ^ 64) := by
  rw [decide_eq_true_iff, BitVec.lt_def, toNat_maskForBits h]
  have hsum := (a + b).isLt
  rcases Nat.lt_or_ge bits 64 with hlt | hge
  · have hpow : 2 ^ bits ≤ 2 ^ 63 := Nat.pow_le_pow_right (by decide) (by omega)
    have hpos := Nat.two_pow_pos bits
    rw [BitVec.toNat_add, Nat.mod_eq_of_lt (by omega)]
    exact iff_of_true (by omega) (by omega)
  · obtain rfl : bits = 64 := by omega
    exact ⟨fun hiff _ => by omega, fun hn => by have := hn rfl; omega⟩

theorem sumFlags_iff (rflags : Word64) (h0 : 0 < bits) (h : bits ≤ 64) (ha : a.toNat < 2 ^ bits)
    (hb : b.toNat < 2 ^ bits) :
    SumFlags rflags a b bits ↔ (bits = 64 → a.toNat + b.toNat < 2 ^ 64) := by
  refine (flagged_iff (sum_results rflags a b h0 h) ?_ ?_ decide_eq_true_iff).trans (carry_iff h ha hb)
  · have hdvd : 2 ^ bits ∣ 2 ^ 64 := Nat.pow_dvd_pow 2 h
    rw [BitVec.toNat_setWidth, BitVec.toNat_add, Nat.mod_mod_of_dvd _ hdvd]
    norm_cast
  · rw [BitVec.saddOverflow, signed_eq a ha, signed_eq b hb, Bool.or_eq_true, decide_eq_true_iff,
      decide_eq_true_iff, or_comm]

theorem differenceFlags (rflags : Word64) (h0 : 0 < bits) (h : bits ≤ 64) (ha : a.toNat < 2 ^ bits)
    (hb : b.toNat < 2 ^ bits) : DifferenceFlags rflags a b bits := by
  refine (flagged_iff (difference_results rflags a b h0 h) ?_ ?_ decide_eq_true_iff).2
    (decide_eq_true_iff.trans BitVec.lt_def)
  · have hsub : (a - b).setWidth bits = a.setWidth bits - b.setWidth bits := by
      rw [BitVec.sub_eq_add_neg, BitVec.sub_eq_add_neg, BitVec.setWidth_add _ _ h,
        BitVec.setWidth_neg_of_le h]
    rw [hsub, BitVec.toNat_sub, BitVec.toNat_setWidth, BitVec.toNat_setWidth, Nat.mod_eq_of_lt ha,
      Nat.mod_eq_of_lt hb]
    have hcast : ((2 ^ bits - b.toNat + a.toNat : Nat) : Int) = (a.toNat - b.toNat) + 2 ^ bits := by
      rw [Nat.cast_add, Nat.cast_sub (Nat.le_of_lt hb), Nat.cast_pow, Nat.cast_ofNat]
      omega
    rw [Int.natCast_emod, hcast, Nat.cast_pow, Nat.cast_ofNat, Int.add_emod_right]
  · rw [BitVec.ssubOverflow, signed_eq a ha, signed_eq b hb, Bool.or_eq_true, decide_eq_true_iff,
      decide_eq_true_iff, or_comm]

end

/-- A difference gets its flags at every width; a sum gets them exactly when it is narrower
than 64 bits, or does not carry out of 64. -/
theorem arith_flags_law (rflags a b : Word64) (bits : Nat) (h : bits ∈ [8, 16, 32, 64])
    (ha : a.toNat < 2 ^ bits) (hb : b.toNat < 2 ^ bits) :
    SumFlags rflags a b bits ∧ DifferenceFlags rflags a b bits ↔
      (bits = 64 → a.toNat + b.toNat < 2 ^ 64) := by
  have hrange : 0 < bits ∧ bits ≤ 64 := by
    simp only [List.mem_cons, List.not_mem_nil, or_false] at h
    omega
  obtain ⟨h0, h64⟩ := hrange
  rw [and_iff_left (differenceFlags rflags h0 h64 ha hb), sumFlags_iff rflags h0 h64 ha hb]

theorem arith_flags_law_byte :
    SumFlags 0x202 0xF0 0x10 8 ∧ DifferenceFlags 0x202 0xF0 0x10 8 :=
  (arith_flags_law 0x202 0xF0 0x10 8 (by decide) (by decide) (by decide)).2 nofun

/-- The greatest number and one, at 64 bits: the carry is lost. -/
theorem sum_carry_lost : ¬ ∀ (rflags a b : Word64) (bits : Nat), bits ∈ [8, 16, 32, 64] →
    a.toNat < 2 ^ bits → b.toNat < 2 ^ bits →
    SumFlags rflags a b bits ∧ DifferenceFlags rflags a b bits := by
  intro h
  have hsum := (h 0x202 0xFFFFFFFFFFFFFFFF 1 64 (by decide) (by decide) (by decide)).1
  exact absurd (hsum.cf.2 (by decide)) (by decide)

end WineGlass.X86
