import WineGlass.Cpu.Compare
import WineGlass.Cpu.Shapes
import WineGlass.Cpu.Step
import WineGlass.Memory.Wide

/-!
# Operands and their widths

What an operand holds after a write, and what `sign_extend` makes of a number of
its width: at 64 bits a negative one has no defined result.
-/

namespace WineGlass.X86

open Bits Memory

/-- A register, or mapped memory. -/
def Placed (m : Machine) (op : Operand) : Prop :=
  op.type = .reg ∨ op.type = .mem ∧ ∃ p, resolve m.mem (computeAddr m.cpu op) = some p

/-- The sizes of integer operands. -/
def IntSize (n : Nat) : Prop := n = 1 ∨ n = 2 ∨ n = 4 ∨ n = 8

theorem IntSize.le (h : IntSize n) : n * 8 ≤ 64 := by
  unfold IntSize at h
  omega

theorem IntSize.pos (h : IntSize n) : 0 < n * 8 := by
  unfold IntSize at h
  omega

theorem narrow_widen (x : BitVec w) (h : w ≤ 64) : (x.setWidth 64).setWidth w = x := by
  rw [BitVec.setWidth_setWidth_of_le _ h, BitVec.setWidth_eq]

-- ---------------------------------------------------------------------------
-- The instruction of a step
-- ---------------------------------------------------------------------------

theorem insn_shape (hop : (insnAt m).opcode = op) (h : op ≠ .unknown) : ∃ srcs low md,
    md.reg.type = .reg ∧ Shape srcs low (insnAt m).opSize md (insnAt m) := known_shape (known hop h)

theorem insn_opSize (hop : (insnAt m).opcode = op) (h : op ≠ .unknown) :
    (insnAt m).opSize = 2 ∨ (insnAt m).opSize = 4 ∨ (insnAt m).opSize = 8 := known_opSize (known hop h)

/-- What is read of an operand is a number of its size. -/
theorem read_eq (h : readOperand m op = some v) : v = (v.setWidth (op.size * 8)).setWidth 64 :=
  Option.some.inj (h.symm.trans (readOperand_holds h))

-- ---------------------------------------------------------------------------
-- Reading back
-- ---------------------------------------------------------------------------

theorem and_maskFor (v : Word64) (h : n * 8 ≤ 64) :
    v &&& maskFor n = (v.setWidth (n * 8)).setWidth 64 := by
  rw [maskFor_eq, and_maskForBits v h]

theorem merge_low (old v : Word64) (h : IntSize n) :
    (merge n old v).setWidth (n * 8) = v.setWidth (n * 8) := by
  rcases h with rfl | rfl | rfl | rfl
  · exact merge_lowMask old v (by decide)
  · exact merge_lowMask old v (by decide)
  · have hmask : v &&& 0xFFFFFFFF = (v.setWidth 32).setWidth 64 := and_lowMask v (n := 32) (by decide)
    have hmerge : merge 4 old v = v &&& 0xFFFFFFFF := rfl
    rw [hmerge, hmask]
    exact narrow_widen _ (by decide)
  · rfl

theorem wide_back (h : Memory.resolve mem addr = some p)
    (hr : (wideRead n mem addr).isSome) (v : Word64) :
    ∃ mem', wideWrite n mem addr (v.setWidth (n * 8)).toNat = some mem' ∧
      (wideRead n mem' addr).map (BitVec.ofNat 64) = some ((v.setWidth (n * 8)).setWidth 64) := by
  have hfits : mem.fits p n = true := by
    simp only [wideRead, h, loadBytes] at hr
    split at hr
    · assumption
    · cases hr
  have hw : wideWrite n mem addr (v.setWidth (n * 8)).toNat =
      some (putBytes mem p (bytesOf n (v.setWidth (n * 8)).toNat)) := by
    simp only [wideWrite, h, storeBytes, hfits, ↓reduceIte]
  refine ⟨_, hw, ?_⟩
  have hlt : (v.setWidth (n * 8)).toNat < 256 ^ n := by
    rw [show 256 = 2 ^ 8 by decide, ← Nat.pow_mul, Nat.mul_comm]
    exact BitVec.isLt _
  rw [wideRead_wideWrite h hw, Nat.mod_eq_of_lt hlt, Option.map_some]
  congr 1
  apply BitVec.eq_of_toNat_eq
  rw [BitVec.toNat_ofNat]
  exact (BitVec.toNat_setWidth ..).symm

theorem mem_back (h : Memory.resolve mem addr = some p) (hn : IntSize n)
    (hr : readMem mem n addr = some a) (v : Word64) :
    ∃ mem', writeMem mem n addr v = some mem' ∧
      readMem mem' n addr = some ((v.setWidth (n * 8)).setWidth 64) := by
  have hsome {k : Nat} (hx : (wideRead k mem addr).map (BitVec.ofNat 64) = some a) :
      (wideRead k mem addr).isSome := by
    obtain ⟨y, hy, -⟩ := Option.map_eq_some_iff.1 hx
    rw [hy]
    rfl
  rcases hn with rfl | rfl | rfl | rfl
  · obtain ⟨-, r, hreg, -, -⟩ := resolve_some.1 h
    refine ⟨_, rfl, ?_⟩
    simp only [readMem, readU8, writeU8, h, put_resolve]
    rw [put_get_self mem p _ (List.getElem?_eq_some_iff.1 hreg).1]
  · exact wide_back h (hsome hr) v
  · exact wide_back h (hsome hr) v
  · obtain ⟨mem', hw, hback⟩ := wide_back (n := 8) h (hsome hr) v
    rw [show 8 * 8 = 64 from rfl, BitVec.setWidth_eq] at hw hback
    exact ⟨mem', hw, by rw [show 8 * 8 = 64 from rfl, BitVec.setWidth_eq]; exact hback⟩

/-- An operand that can be read can be written, and holds the lowest bits of what is written. -/
theorem Placed.write (h : Placed m op) (hn : IntSize op.size) (hr : readOperand m op = some a)
    (v : Word64) : ∃ m1, writeOperand m op v = some m1 ∧
      readOperand m1 op = some ((v.setWidth (op.size * 8)).setWidth 64) ∧
      m1.cpu.rflags = m.cpu.rflags := by
  rcases h with hreg | ⟨hmem, p, hp⟩
  · refine ⟨m.setReg op.regIndex (merge op.size (m.cpu.gpr op.regIndex) v),
      by simp only [writeOperand, hreg], ?_, rfl⟩
    simp only [readOperand, hreg, Machine.setReg, State.setReg, Function.update_self]
    rw [and_maskFor _ hn.le, merge_low _ _ hn]
  · simp only [readOperand, hmem] at hr
    obtain ⟨mem', hw, hback⟩ := mem_back hp hn hr v
    refine ⟨{ m with mem := mem' }, by simp only [writeOperand, hmem, hw, Option.map_some], ?_, rfl⟩
    simp only [readOperand, hmem]
    exact hback

-- ---------------------------------------------------------------------------
-- Sign extension
-- ---------------------------------------------------------------------------

/-- Below 64 bits the sign fills the word; with no sign the word stays as it is. -/
theorem signExtend_narrow (v : Word64) (h0 : 0 < n * 8) (h : n * 8 < 64) : signExtend v n =
    some (if (v.setWidth (n * 8)).msb then (v.setWidth (n * 8)).signExtend 64 else v) := by
  have hsign := and_bit_ne_zero v (show n * 8 - 1 < 64 by omega)
  have hmsb : (v.setWidth (n * 8)).msb = v.getLsbD (n * 8 - 1) := by
    rw [BitVec.msb_setWidth, decide_eq_true h0, Bool.true_and]
  have hrange : ¬(n * 8 = 0 ∨ 64 < n * 8) := by omega
  unfold signExtend
  dsimp only
  rw [if_neg hrange, hmsb, ← hsign]
  by_cases hs : v &&& 1#64 <<< (n * 8 - 1) = 0
  · rw [if_neg (by simpa using hs), if_neg (by simpa using hs)]
  · have hset : (v.setWidth (n * 8)).msb = true := by
      rw [hmsb, ← hsign]
      simpa using hs
    rw [if_pos hs, if_neg (Nat.ne_of_lt h), if_pos (by simpa using hs)]
    exact congrArg some (or_not_lowMask v h hset)

/-- The number an operand holds. -/
theorem signExtend_holds (x : BitVec (n * 8)) (h0 : 0 < n * 8) (h : n * 8 < 64) :
    signExtend (x.setWidth 64) n = some (x.signExtend 64) := by
  rw [signExtend_narrow _ h0 h, narrow_widen x (Nat.le_of_lt h)]
  split
  · rfl
  · rename_i hs
    rw [BitVec.signExtend_eq_setWidth_of_msb_false (Bool.eq_false_iff.2 hs)]

/-- At 64 bits a negative number is shifted by its width. -/
theorem signExtend_eight (v : Word64) : signExtend v 8 = if v.msb then none else some v := by
  have hsign := and_bit_ne_zero v (show 63 < 64 by decide)
  unfold signExtend
  dsimp only
  rw [if_neg (by decide), BitVec.msb_eq_getLsbD_last, ← hsign]
  by_cases hs : v &&& 1#64 <<< 63 = 0
  · rw [if_neg (by simpa using hs), if_neg (by simpa using hs)]
  · rw [if_pos (by simpa using hs), if_pos rfl, if_pos (by simpa using hs)]

end WineGlass.X86
