import Mathlib.Data.List.Forall2
import WineGlass.Cpu.Compare
import WineGlass.Cpu.Shapes
import WineGlass.Cpu.ZeroExtend

/-!
# Byte registers

Which byte of which register an 8-bit register operand names. The decoder keeps
the encoded number and the interpreter takes the lowest byte of the register of
that number, with or without a REX prefix.
-/

namespace WineGlass.X86

open Bits

/-- A byte of a register: its lowest one, or the one above. -/
structure ByteReg where
  index : Nat
  high : Bool
  deriving DecidableEq

/-- What the encoded number `n` names: AH, CH, DH and BH are 4 to 7 with no REX. -/
def byteReg (rex : Bool) (n : Nat) : ByteReg :=
  if rex = false ∧ 4 ≤ n ∧ n < 8 then ⟨n - 4, true⟩ else ⟨n, false⟩

def ByteReg.shift (r : ByteReg) : Nat := if r.high then 8 else 0

def ByteReg.get (r : ByteReg) (cpu : State) : BitVec 8 := (cpu.gpr r.index >>> r.shift).setWidth 8

/-- The other bits of the register are kept. -/
def ByteReg.put (r : ByteReg) (m : Machine) (b : BitVec 8) : Machine :=
  m.setReg r.index ((m.cpu.gpr r.index &&& ~~~((0xFF : Word64) <<< r.shift)) ||| b.setWidth 64 <<< r.shift)

/-- The 8-bit register operands of an instruction. -/
def byteRegs (i : Instruction) : List Operand :=
  [i.op0, i.op1, i.op2].filter fun op => op.type = .reg ∧ op.size = 1

/-- The opcodes with byte forms. -/
def Opcode.hasByteForm : Opcode → Bool
  | .mov | .add | .or | .adc | .sbb | .and | .sub | .xor | .cmp | .test | .not | .neg
  | .inc | .dec | .shl | .shr | .sar | .rol | .ror | .imul | .mul | .div | .idiv | .setcc => true
  | _ => false

/-- An instruction on bytes. -/
def ByteForm (i : Instruction) : Prop := i.opcode.hasByteForm = true ∧ i.op0.size = 1

/-- The operand stands for the register of the encoded number, read or written. -/
def Names (rex : Bool) (op : Operand) (n : Nat) : Prop :=
  (∀ m, readOperand m op = some (((byteReg rex n).get m.cpu).setWidth 64)) ∧
    ∀ m v, writeOperand m op v = some ((byteReg rex n).put m (v.setWidth 8))

/-- The 8-bit register operands of the decoded instruction are those its bytes encode, and RSP, RBP,
RSI and RDI are out of reach with no REX. -/
structure ByteRegisters (s : Code) : Prop where
  operands : List.Forall₂ (Names (prefixes s).rexPresent) (byteRegs (decode s).1) (encodedRegs s)
  untouched : (prefixes s).rexPresent = false → ByteForm (decode s).1 → ∀ m res m', codeAt m = s →
    execOne m = some (res, m') → ∀ r, 4 ≤ r → r < 8 → m'.cpu.gpr r = m.cpu.gpr r

-- ---------------------------------------------------------------------------
-- Operands
-- ---------------------------------------------------------------------------

theorem maskFor_one (v : Word64) : v &&& maskFor 1 = (v.setWidth 8).setWidth 64 :=
  and_lowMask v (by decide)

/-- The interpreter reads the lowest byte. -/
theorem read_low (hop : op ∈ byteRegs i) (m : Machine) :
    readOperand m op = some ((ByteReg.get ⟨op.regIndex, false⟩ m.cpu).setWidth 64) := by
  obtain ⟨-, hop⟩ := List.mem_filter.1 hop
  obtain ⟨hreg, hsize⟩ := of_decide_eq_true hop
  simp only [readOperand, hreg, hsize, maskFor_one]
  rfl

theorem write_low (hop : op ∈ byteRegs i) (m : Machine) (v : Word64) :
    writeOperand m op v = some (ByteReg.put ⟨op.regIndex, false⟩ m (v.setWidth 8)) := by
  obtain ⟨-, hop⟩ := List.mem_filter.1 hop
  obtain ⟨hreg, hsize⟩ := of_decide_eq_true hop
  simp only [writeOperand, hreg, hsize, merge, maskFor_one, ByteReg.put, ByteReg.shift,
    Bool.false_eq_true, ↓reduceIte, BitVec.shiftLeft_zero]
  rfl

theorem byteReg_low (h : ¬(rex = false ∧ 4 ≤ n ∧ n < 8)) : byteReg rex n = ⟨n, false⟩ := if_neg h

/-- A machine with 1 in register `n` alone. -/
def oneIn (n : Nat) : Machine where
  cpu := ⟨Function.update (fun _ => 0) n 1, 0, 0, fun _ => (0, 0), 0⟩
  mem := ⟨[]⟩

/-- Reading tells the two bytes apart. -/
theorem read_tells (h4 : 4 ≤ n) : ByteReg.get ⟨n, false⟩ (oneIn n).cpu ≠
    ByteReg.get ⟨n - 4, true⟩ (oneIn n).cpu := by
  have hne : n - 4 ≠ n := by omega
  simp only [ByteReg.get, oneIn, Function.update_self, Function.update_of_ne hne]
  exact (by decide : (1#64 >>> 0).setWidth 8 ≠ (0#64 >>> 8).setWidth 8)

-- ---------------------------------------------------------------------------
-- Steps
-- ---------------------------------------------------------------------------

/-- Only the register of a byte operand is written. -/
theorem writeOperand_frame (h : writeOperand m op v = some m') (hr : op.type = .reg → r ≠ op.regIndex) :
    m'.cpu.gpr r = m.cpu.gpr r := by
  rcases writeOperand_cases h with ⟨hreg, rfl⟩ | ⟨-, mem, -, rfl⟩ | ⟨-, -, rfl⟩
  · exact Function.update_of_ne (hr hreg) ..
  · rfl
  · rfl

theorem WritesFirst.frame (h : WritesFirst m i m') (hr : i.op0.type = .reg → r ≠ i.op0.regIndex) :
    m'.cpu.gpr r = m.cpu.gpr r := by
  obtain ⟨v, m1, hw, hg⟩ := h
  exact (congrFun hg r).trans (writeOperand_frame hw hr)

theorem execImul_frame (h : execImul m i = some m') (h4 : 4 ≤ r)
    (hr : i.op0.type = .reg → r ≠ i.op0.regIndex) : m'.cpu.gpr r = m.cpu.gpr r := by
  by_cases hn : i.numOperands = 1
  · unfold execImul at h
    rw [if_pos hn] at h
    obtain ⟨a, -, h⟩ := Option.bind_eq_some_iff.1 h
    obtain ⟨v, -, h⟩ := Option.bind_eq_some_iff.1 h
    obtain ⟨b, -, h⟩ := Option.bind_eq_some_iff.1 h
    obtain rfl := Option.some.inj h
    have hax : r ≠ rax := by
      unfold rax
      omega
    have hdx : r ≠ rdx := by
      unfold rdx
      omega
    exact (Function.update_of_ne hdx ..).trans (Function.update_of_ne hax ..)
  · exact (execImul_writes h hn).frame hr

/-- An instruction on bytes writes one register, or RAX and RDX. -/
theorem byteForm_frame (hf : ByteForm (insnAt m)) (hx : execOne m = some (res, m')) (h4 : 4 ≤ r)
    (hr : (insnAt m).op0.type = .reg → r ≠ (insnAt m).op0.regIndex) :
    m'.cpu.gpr r = m.cpu.gpr r := by
  obtain ⟨hbyte, -⟩ := hf
  have hgo {f : Machine → Instruction → Option Machine} (hknown : (insnAt m).opcode ≠ .unknown)
      (hcase : exec m.count (insnAt m) (nextRip m) = (f m.count (insnAt m)).map (.next (nextRip m)))
      (hw : ∀ m1, f m.count (insnAt m) = some m1 → m1.cpu.gpr r = m.cpu.gpr r) :
      m'.cpu.gpr r = m.cpu.gpr r := by
    obtain ⟨m1, hm1, -, rfl⟩ := step_goes hx rfl hknown hcase
    exact hw m1 hm1
  cases hop : (insnAt m).opcode with
  | mov => exact hgo (by simp [hop]) (by rw [exec, hop]) fun _ h => (execMov_writes h).frame hr
  | add | sub | and | or | xor =>
    exact hgo (by simp [hop]) (by rw [exec, hop]) fun _ h => (execAlu_writes h).frame hr
  | not => exact hgo (by simp [hop]) (by rw [exec, hop]) fun _ h => (execNot_writes h).frame hr
  | neg => exact hgo (by simp [hop]) (by rw [exec, hop]) fun _ h => (execNeg_writes h).frame hr
  | inc | dec =>
    exact hgo (by simp [hop]) (by rw [exec, hop]) fun _ h => (execStep_writes h).frame hr
  | shl | shr | sar =>
    refine hgo (by simp [hop]) (by rw [exec, hop]) fun _ h => ?_
    rcases execShift_cases h with ⟨-, rfl⟩ | ⟨-, hw⟩
    · rfl
    · exact hw.frame hr
  | imul =>
    exact hgo (f := execImul) (by simp [hop]) (by rw [exec, hop]) fun _ h =>
      execImul_frame (m := m.count) h h4 hr
  | setcc =>
    exact hgo (f := execSetcc) (by simp [hop]) (by rw [exec, hop]) fun _ h =>
      writeOperand_frame (m := m.count) h hr
  | cmp =>
    refine hgo (f := execCmp) (by simp [hop]) (by rw [exec, hop]) fun _ h => ?_
    obtain ⟨p, -, h⟩ := Option.bind_eq_some_iff.1 h
    obtain rfl := Option.some.inj h
    rfl
  | test =>
    refine hgo (f := execTest) (by simp [hop]) (by rw [exec, hop]) fun _ h => ?_
    obtain ⟨a, -, h⟩ := Option.bind_eq_some_iff.1 h
    obtain ⟨b, -, h⟩ := Option.bind_eq_some_iff.1 h
    obtain rfl := Option.some.inj h
    rfl
  | adc | sbb | rol | ror | mul | div | idiv =>
    refine hgo (f := fun m _ => some m) (by simp [hop]) (by rw [exec, hop]) fun _ h => ?_
    obtain rfl := Option.some.inj h
    rfl
  | _ =>
    rw [hop] at hbyte
    cases hbyte

theorem byteNos_eq (i : Instruction) : byteNos i = (byteRegs i).map (·.regIndex) := by
  have hno (l : List Operand) : l.filterMap byteNo =
      (l.filter fun op => op.type = .reg ∧ op.size = 1).map (·.regIndex) := by
    induction l with
    | nil => rfl
    | cons op l ih =>
      by_cases hop : op.type = .reg ∧ op.size = 1
      · simp [byteNo, hop, ih]
      · simp [byteNo, hop, ih]
  exact hno [i.op0, i.op1, i.op2]

/-- An 8-bit register operand is the one of its own number unless that is 4 to 7 with no REX. -/
theorem names_iff (hop : op ∈ byteRegs i) : Names rex op op.regIndex ↔
    rex = true ∨ ¬(4 ≤ op.regIndex ∧ op.regIndex < 8) := by
  constructor
  · rintro ⟨hread, -⟩
    by_contra hno
    rw [not_or, not_not, Bool.not_eq_true] at hno
    obtain ⟨hrex, h4, h8⟩ := hno
    have hone := hread (oneIn op.regIndex)
    rw [read_low hop, hrex, byteReg, if_pos ⟨rfl, h4, h8⟩] at hone
    have hsame := congrArg (BitVec.setWidth 8) (Option.some.inj hone)
    rw [BitVec.setWidth_setWidth_of_le _ (by decide), BitVec.setWidth_setWidth_of_le _ (by decide),
      BitVec.setWidth_eq, BitVec.setWidth_eq] at hsame
    exact read_tells h4 hsame
  · intro h
    have hlow : byteReg rex op.regIndex = ⟨op.regIndex, false⟩ := by
      refine byteReg_low ?_
      rintro ⟨hrex, hrange⟩
      rcases h with h | h
      · exact Bool.noConfusion (hrex.symm.trans h)
      · exact h hrange
    unfold Names
    rw [hlow]
    exact ⟨read_low hop, write_low hop⟩

theorem operands_iff (s : Code) :
    List.Forall₂ (Names (prefixes s).rexPresent) (byteRegs (decode s).1) (encodedRegs s) ↔
      (prefixes s).rexPresent = true ∨ ∀ n ∈ encodedRegs s, ¬(4 ≤ n ∧ n < 8) := by
  rw [← decode_bytes, byteNos_eq, List.forall₂_map_right_iff, List.forall₂_same, List.forall_mem_map]
  constructor
  · intro h
    by_cases hrex : (prefixes s).rexPresent = true
    · exact .inl hrex
    · exact .inr fun op hop => ((names_iff hop).1 (h op hop)).resolve_left hrex
  · intro h op hop
    exact (names_iff hop).2 (h.imp_right fun h => h op hop)

/-- The 8-bit register operands are the encoded ones exactly when there is a REX prefix or none of
them is encoded as 4 to 7. -/
theorem byte_register_law (s : Code) : ByteRegisters s ↔
    (prefixes s).rexPresent = true ∨ ∀ n ∈ encodedRegs s, ¬(4 ≤ n ∧ n < 8) := by
  refine ⟨fun h => (operands_iff s).1 h.operands, fun h => ⟨(operands_iff s).2 h, ?_⟩⟩
  rintro hrex hf m res m' rfl hx r h4 h8
  refine byteForm_frame hf hx h4 fun hreg => ?_
  rintro rfl
  have hmem : (insnAt m).op0 ∈ byteRegs (insnAt m) :=
    List.mem_filter.2 ⟨List.mem_cons_self, decide_eq_true ⟨hreg, hf.2⟩⟩
  have hno : (insnAt m).op0.regIndex ∈ encodedRegs (codeAt m) := by
    rw [← decode_bytes, byteNos_eq]
    exact List.mem_map_of_mem hmem
  rcases h with h | h
  · exact Bool.noConfusion (hrex.symm.trans h)
  · exact h _ hno ⟨h4, h8⟩

/-- `mov ah, bl`. -/
def movAh : Code := .of [0x88, 0xDC] 0x1000

/-- BL goes to SPL. -/
theorem ah_is_spl : ¬∀ s : Code, ByteRegisters s := by
  intro h
  rcases (operands_iff movAh).1 (h movAh).operands with hrex | hlow
  · exact absurd hrex (by decide)
  · exact absurd (hlow 4 (by decide)) (by decide)

end WineGlass.X86
