import Mathlib.Data.Nat.Bitwise
import WineGlass.Cpu.Decode

/-!
# Instruction forms

The opcode map of the opcodes the decoder knows: whether a ModRM byte follows,
and which immediate. `Reads` ties the decoder's cases to it, `decodeOpcode_reads`
and `decodeTwoByte_reads` all of them.
-/

namespace WineGlass.X86

/-- The immediate of a form: a byte, zero- or sign-extended, a word, one as wide
as the operand (up to 32 bits, or 64 for `iv`), a branch offset. -/
inductive Imm
  | none | ub | sb | uw | iz | iv | jb | jz
  deriving DecidableEq, Repr

/-- `imm` is the immediate, given the reg field of the ModRM byte. -/
structure Form where
  modrm : Bool
  imm : Nat → Imm

def Form.plain : Form := ⟨false, fun _ => .none⟩
def Form.only (i : Imm) : Form := ⟨false, fun _ => i⟩
def Form.rm : Form := ⟨true, fun _ => .none⟩
def Form.rmImm (i : Imm) : Form := ⟨true, fun _ => i⟩

/-- Group F6/F7, where TEST has an immediate. -/
def Form.test (i : Imm) : Form := ⟨true, fun reg => if reg < 2 then i else .none⟩

def form2 (op2 : Nat) : Form :=
  if 0x80 ≤ op2 ∧ op2 ≤ 0x8F then .only .jz
  else if 0x90 ≤ op2 ∧ op2 ≤ 0x9F then .rm
  else if 0x40 ≤ op2 ∧ op2 ≤ 0x4F then .rm
  else if op2 = 0xB6 ∨ op2 = 0xB7 then .rm
  else if op2 = 0xBE ∨ op2 = 0xBF then .rm
  else if op2 = 0xAF then .rm
  else if op2 = 0xA2 then .plain
  else if op2 = 0x31 then .plain
  else if op2 = 0x05 then .plain
  else if op2 = 0xBC then .rm
  else if op2 = 0xBD then .rm
  else if 0xC8 ≤ op2 ∧ op2 ≤ 0xCF then .plain
  else if op2 = 0x1F then .rm
  else if op2 = 0x10 ∨ op2 = 0x11 then .rm
  else if op2 = 0x28 ∨ op2 = 0x29 then .rm
  else if op2 = 0x57 then .rm
  else .plain

def form1 (opcode : Nat) : Form :=
  if opcode = 0x90 then .plain
  else if opcode = 0x88 ∨ opcode = 0x89 then .rm
  else if opcode = 0x8A ∨ opcode = 0x8B then .rm
  else if 0xB0 ≤ opcode ∧ opcode ≤ 0xB7 then .only .ub
  else if 0xB8 ≤ opcode ∧ opcode ≤ 0xBF then .only .iv
  else if opcode = 0xC6 then .rmImm .sb
  else if opcode = 0xC7 then .rmImm .iz
  else if opcode = 0x80 ∨ opcode = 0x82 then .rmImm .sb
  else if opcode = 0x83 then .rmImm .sb
  else if opcode = 0x81 then .rmImm .iz
  else if opcode < 0x40 ∧ opcode % 8 < 2 then .rm
  else if opcode < 0x40 ∧ opcode % 8 < 4 then .rm
  else if opcode < 0x40 ∧ opcode % 8 = 4 then .only .sb
  else if opcode < 0x40 ∧ opcode % 8 = 5 then .only .iz
  else if opcode = 0x84 ∨ opcode = 0x85 then .rm
  else if opcode = 0xA8 then .only .ub
  else if opcode = 0xA9 then .only .iz
  else if 0x50 ≤ opcode ∧ opcode ≤ 0x57 then .plain
  else if 0x58 ≤ opcode ∧ opcode ≤ 0x5F then .plain
  else if opcode = 0x6A then .only .sb
  else if opcode = 0x68 then .only .iz
  else if opcode = 0x8D then .rm
  else if 0x70 ≤ opcode ∧ opcode ≤ 0x7F then .only .jb
  else if opcode = 0xEB then .only .jb
  else if opcode = 0xE9 then .only .jz
  else if opcode = 0xE8 then .only .jz
  else if opcode = 0xC3 then .plain
  else if opcode = 0xC2 then .only .uw
  else if opcode = 0xC9 then .plain
  else if opcode = 0xFF then .rm
  else if opcode = 0xF6 then .test .ub
  else if opcode = 0xF7 then .test .iz
  else if opcode = 0xC0 ∨ opcode = 0xC1 then .rmImm .ub
  else if opcode = 0xD0 ∨ opcode = 0xD1 then .rm
  else if opcode = 0xD2 ∨ opcode = 0xD3 then .rm
  else if 0x91 ≤ opcode ∧ opcode ≤ 0x97 then .plain
  else if opcode = 0x98 then .plain
  else if opcode = 0x99 then .plain
  else if opcode = 0xCD then .only .ub
  else if opcode = 0xCC then .plain
  else if opcode = 0xF4 then .plain
  else if opcode = 0xF8 then .plain
  else if opcode = 0xF9 then .plain
  else if opcode = 0xF5 then .plain
  else if opcode = 0xFC then .plain
  else if opcode = 0xFD then .plain
  else if opcode = 0xA4 then .plain
  else if opcode = 0xA5 then .plain
  else if opcode = 0xAA then .plain
  else if opcode = 0xAB then .plain
  else if opcode = 0x69 then .rmImm .iz
  else if opcode = 0x6B then .rmImm .sb
  else .plain

-- ---------------------------------------------------------------------------
-- What the cases read
-- ---------------------------------------------------------------------------

def Imm.fetch (s : Code) (w : Bool) : Imm → StateM Ctx (BitVec 64)
  | .none => pure 0
  | .ub => imm8 s
  | .sb | .jb => simm8 s
  | .uw => imm16 s
  | .iz | .jz => simm32 s
  | .iv => movImm s w

/-- What a ModRM byte decodes to, at an operand size. -/
structure ModRm.Ok (m : ModRm) (size : Nat) : Prop where
  rm : m.rm.size = size
  reg : m.reg.size = size
  base : m.reg.memBase = 0

/-- An operand that, if RIP-relative, is the one of the ModRM byte. -/
def FromRm (m : ModRm) (o : Operand) : Prop :=
  o.memBase = -2 → m.rm.memBase = -2 ∧ o.memDisp = m.rm.memDisp

/-- The opcodes with two operands of one size. -/
def Opcode.paired : Opcode → Bool
  | .add | .or | .adc | .sbb | .and | .sub | .xor | .cmp | .xchg => true
  | _ => false

/-- An instruction built at operand size `size` with the operands of `m`. -/
structure Built (size : Nat) (m : ModRm) (i : Instruction) : Prop where
  from0 : FromRm m i.op0
  from1 : FromRm m i.op1
  from2 : FromRm m i.op2
  opSize : i.opSize = size
  paired : i.opcode.paired = true → i.op1.size = i.op0.size ∧ (i.op0.size = 1 ∨ i.op0.size = size)

/-- A case of the decoder reads what its form says, and builds the instruction
from that alone. -/
inductive Reads (w : Bool) (P : ModRm → Instruction → Prop) :
    Form → (Code → StateM Ctx Instruction) → Prop
  | plain {i : Instruction} (h : ∀ m, P m i) : Reads w P .plain fun _ => pure i
  | only (i : Imm) {f : BitVec 64 → Instruction} (h : ∀ m v, P m (f v)) :
      Reads w P (.only i) fun s => i.fetch s w >>= fun v => pure (f v)
  | jump (i : Imm) {out : Instruction} {op : Opcode} (h : ∀ m v, P m (out.one op (relOp v))) :
      Reads w P (.only i) fun s => jump s (i.fetch s w) out op
  | rm (size : Nat) {f : ModRm → Instruction} (h : ∀ m, m.Ok size → P m (f m)) :
      Reads w P .rm fun s => decodeModrm s size >>= fun m => pure (f m)
  | rmImm (size : Nat) (i : Imm) {f : ModRm → BitVec 64 → Instruction}
      (h : ∀ m v, m.Ok size → P m (f m v)) :
      Reads w P (.rmImm i) fun s =>
        decodeModrm s size >>= fun m => i.fetch s w >>= fun v => pure (f m v)
  | test (size : Nat) (i : Imm) {f : ModRm → BitVec 64 → Instruction} {g : ModRm → Instruction}
      (h : ∀ m v, m.Ok size → P m (f m v)) (h' : ∀ m, m.Ok size → P m (g m)) :
      Reads w P (.test i) fun s => decodeModrm s size >>= fun m =>
        if m.reg.regIndex % 8 < 2 then i.fetch s w >>= fun v => pure (f m v) else pure (g m)

theorem Reads.ite {c : Prop} [Decidable c] {F F' : Form} {m m' : Code → StateM Ctx Instruction}
    (h : c → Reads w P F m) (h' : ¬c → Reads w P F' m') :
    Reads w P (if c then F else F') fun s => if c then m s else m' s := by
  split
  · exact h ‹c›
  · exact h' ‹¬c›

theorem Reads.pick {c : Prop} [Decidable c] {m m' : Code → StateM Ctx Instruction}
    (h : Reads w P F m) (h' : Reads w P F m') : Reads w P F fun s => if c then m s else m' s := by
  split
  · exact h
  · exact h'

-- ---------------------------------------------------------------------------
-- What the cases build
-- ---------------------------------------------------------------------------

/-- An instruction with no operands yet. -/
structure Blank (size : Nat) (out : Instruction) : Prop where
  op0 : out.op0 = {}
  op1 : out.op1 = {}
  op2 : out.op2 = {}
  opSize : out.opSize = size

theorem fromRm_new {o : Operand} (h : o.memBase = 0) : FromRm m o := by
  intro h2
  rw [h] at h2
  cases h2

theorem fromRm_rm (m : ModRm) : FromRm m m.rm := fun h => ⟨h, rfl⟩

theorem ModRm.Ok.fromReg {m : ModRm} (h : m.Ok size) : FromRm m m.reg := fromRm_new h.base

theorem Blank.plain (h : Blank size out) (hop : op.paired = false) : Built size m { out with opcode := op } where
  from0 := fromRm_new (by rw [h.op0])
  from1 := fromRm_new (by rw [h.op1])
  from2 := fromRm_new (by rw [h.op2])
  opSize := h.opSize
  paired hc := Bool.noConfusion (hop.symm.trans hc)

theorem Blank.one (h : Blank size out) (hop : op.paired = false) (ha : FromRm m a) :
    Built size m (out.one op a) where
  from0 := ha
  from1 := fromRm_new (by rw [Instruction.one, h.op1])
  from2 := fromRm_new (by rw [Instruction.one, h.op2])
  opSize := h.opSize
  paired hc := Bool.noConfusion (hop.symm.trans hc)

theorem Blank.two (h : Blank size out) (ha : FromRm m a) (hb : FromRm m b)
    (hc : op.paired = true → b.size = a.size ∧ (a.size = 1 ∨ a.size = size)) :
    Built size m (out.two op a b) where
  from0 := ha
  from1 := hb
  from2 := fromRm_new (by rw [Instruction.two, h.op2])
  opSize := h.opSize
  paired := hc

theorem Blank.condition (h : Blank size out) (n : Nat) : Blank size { out with condition := n } :=
  ⟨h.op0, h.op1, h.op2, h.opSize⟩

theorem Blank.nop (h : Blank size out) (ha : FromRm m a) :
    Built size m { out with opcode := .nop, op0 := a } where
  from0 := ha
  from1 := fromRm_new (by rw [h.op1])
  from2 := fromRm_new (by rw [h.op2])
  opSize := h.opSize
  paired := nofun

theorem Blank.three (h : Blank size out) (ha : FromRm m a) (hb : FromRm m b) (hc : FromRm m c) :
    Built size m { out with opcode := .imul, op0 := a, op1 := b, op2 := c, numOperands := 3 } :=
  ⟨ha, hb, hc, h.opSize, nofun⟩

theorem Blank.groupFF (h : Blank size out) (m : ModRm) : Built size m (groupFF out m) := by
  unfold X86.groupFF
  split <;> exact h.one rfl fun h => ⟨h, rfl⟩

theorem unaryOps_unpaired (n : Nat) : (unaryOps n).paired = false := by
  unfold unaryOps
  split <;> rfl

theorem shiftOps_unpaired (n : Nat) : (shiftOps n).paired = false := by
  unfold shiftOps
  split <;> rfl

theorem Blank.shift (h : Blank size out) (n : Nat) (m : ModRm) (hb : FromRm m b) :
    Built size m (out.two (shiftOps n) m.rm b) :=
  h.two (fromRm_rm m) hb fun hc => Bool.noConfusion ((shiftOps_unpaired n).symm.trans hc)

theorem Blank.rmImm (h : Blank size out) (hm : m.Ok z) (hz : z = 1 ∨ z = size) (op : Opcode)
    (v : BitVec 64) : Built size m (out.two op m.rm (immOp v z)) :=
  h.two (fromRm_rm m) (fromRm_new rfl) fun _ => by
    rw [hm.rm]
    exact ⟨rfl, hz⟩

theorem Blank.regImm (h : Blank size out) (hz : z = 1 ∨ z = size) (op : Opcode) (r : Nat)
    (v : BitVec 64) : Built size m (out.two op (regOp r z) (immOp v z)) :=
  h.two (fromRm_new rfl) (fromRm_new rfl) fun _ => ⟨rfl, hz⟩

theorem byteOr {c : Prop} [Decidable c] {q : Prop} :
    (if c then 1 else size) = 1 ∨ (if c then 1 else size) = size ∨ q := by
  split
  · exact .inl rfl
  · exact .inr (.inl rfl)

theorem Blank.first (h : Blank size out) (op : Opcode) (hz : z = 1 ∨ z = size ∨ op.paired = false) :
    Reads w (Built size) .rm fun s => modrmFirst s z out op :=
  .rm z fun m hm => h.two (fromRm_rm m) hm.fromReg fun hc => by
    rw [hm.rm, hm.reg]
    exact ⟨rfl, hz.imp_right fun hz => hz.resolve_right fun hne => Bool.noConfusion (hne.symm.trans hc)⟩

theorem Blank.second (h : Blank size out) (op : Opcode) (hz : z = 1 ∨ z = size ∨ op.paired = false) :
    Reads w (Built size) .rm fun s => modrmSecond s z out op :=
  .rm z fun m hm => h.two hm.fromReg (fromRm_rm m) fun hc => by
    rw [hm.rm, hm.reg]
    exact ⟨rfl, hz.imp_right fun hz => hz.resolve_right fun hne => Bool.noConfusion (hne.symm.trans hc)⟩

theorem Blank.extend (h : Blank size out) (hop : op.paired = false) :
    Reads w (Built size) .rm fun s => modrmExtend s src size out op :=
  .rm src fun m hm => h.two (fromRm_new hm.base) (fromRm_rm m) fun hc => Bool.noConfusion (hop.symm.trans hc)

theorem decodeTwoByte_reads (h : Blank size out) (p : Ctx) (op2 : Nat) :
    Reads w (Built size) (form2 op2) fun s => decodeTwoByte s p op2 size out :=
  .ite (fun _ => .jump .jz fun _ _ => (h.condition _).one rfl (fromRm_new rfl)) fun _ =>
  .ite (fun _ => .rm 1 fun m _ => (h.condition _).one rfl (fromRm_rm m)) fun _ =>
  .ite (fun _ => (h.condition _).second .cmovcc (.inr (.inl rfl))) fun _ =>
  .ite (fun _ => h.extend rfl) fun _ =>
  .ite (fun _ => h.extend rfl) fun _ =>
  .ite (fun _ => h.second .imul (.inr (.inl rfl))) fun _ =>
  .ite (fun _ => .plain fun _ => h.plain rfl) fun _ =>
  .ite (fun _ => .plain fun _ => h.plain rfl) fun _ =>
  .ite (fun _ => .plain fun _ => h.plain rfl) fun _ =>
  .ite (fun _ => h.second .bsf (.inr (.inl rfl))) fun _ =>
  .ite (fun _ => h.second .bsr (.inr (.inl rfl))) fun _ =>
  .ite (fun _ => .plain fun _ => h.one rfl (fromRm_new rfl)) fun _ =>
  .ite (fun _ => .rm size fun m _ => h.nop (fromRm_rm m)) fun _ =>
  .ite (fun _ => .pick (h.second .movups (.inr (.inr rfl))) (h.first .movups (.inr (.inr rfl)))) fun _ =>
  .ite (fun _ => .pick (h.second .movaps (.inr (.inr rfl))) (h.first .movaps (.inr (.inr rfl)))) fun _ =>
  .ite (fun _ => h.second .xorps (.inr (.inr rfl))) fun _ =>
  .plain fun _ => h.plain rfl

/-- Every case of the switch but the two-byte escape. -/
theorem decodeOpcode_reads (h : Blank size out) (p : Ctx) (opcode : Nat) (h0F : opcode ≠ 0x0F) :
    Reads p.rexW (Built size) (form1 opcode) fun s => decodeOpcode s p opcode size out :=
  .ite (fun _ => .pick (.plain fun _ => h.plain rfl)
    (.plain fun _ => h.two (fromRm_new rfl) (fromRm_new rfl) fun _ => ⟨rfl, .inr rfl⟩)) fun _ =>
  .ite (fun _ => h.first .mov byteOr) fun _ =>
  .ite (fun _ => h.second .mov byteOr) fun _ =>
  .ite (fun _ => .only .ub fun _ _ => h.regImm (.inl rfl) ..) fun _ =>
  .ite (fun _ => .only .iv fun _ _ => h.two (fromRm_new rfl) (fromRm_new rfl) nofun) fun _ =>
  .ite (fun _ => .rmImm 1 .sb fun _ _ hm => h.rmImm hm (.inl rfl) ..) fun _ =>
  .ite (fun _ => .rmImm size .iz fun _ _ hm => h.rmImm hm (.inr rfl) ..) fun _ =>
  .ite (fun _ => .rmImm 1 .sb fun _ _ hm => h.rmImm hm (.inl rfl) ..) fun _ =>
  .ite (fun _ => .rmImm size .sb fun _ _ hm => h.rmImm hm (.inr rfl) ..) fun _ =>
  .ite (fun _ => .rmImm size .iz fun _ _ hm => h.rmImm hm (.inr rfl) ..) fun _ =>
  .ite (fun _ => h.first _ byteOr) fun _ =>
  .ite (fun _ => h.second _ byteOr) fun _ =>
  .ite (fun _ => .only .sb fun _ _ => h.regImm (.inl rfl) ..) fun _ =>
  .ite (fun _ => .only .iz fun _ _ => h.regImm (.inr rfl) ..) fun _ =>
  .ite (fun _ => h.first .test byteOr) fun _ =>
  .ite (fun _ => .only .ub fun _ _ => h.regImm (.inl rfl) ..) fun _ =>
  .ite (fun _ => .only .iz fun _ _ => h.regImm (.inr rfl) ..) fun _ =>
  .ite (fun _ => .plain fun _ => h.one rfl (fromRm_new rfl)) fun _ =>
  .ite (fun _ => .plain fun _ => h.one rfl (fromRm_new rfl)) fun _ =>
  .ite (fun _ => .only .sb fun _ _ => h.one rfl (fromRm_new rfl)) fun _ =>
  .ite (fun _ => .only .iz fun _ _ => h.one rfl (fromRm_new rfl)) fun _ =>
  .ite (fun _ => h.second .lea (.inr (.inl rfl))) fun _ =>
  .ite (fun _ => .jump .jb fun _ _ => (h.condition _).one rfl (fromRm_new rfl)) fun _ =>
  .ite (fun _ => .jump .jb fun _ _ => h.one rfl (fromRm_new rfl)) fun _ =>
  .ite (fun _ => .jump .jz fun _ _ => h.one rfl (fromRm_new rfl)) fun _ =>
  .ite (fun _ => .jump .jz fun _ _ => h.one rfl (fromRm_new rfl)) fun _ =>
  .ite (fun _ => .plain fun _ => h.plain rfl) fun _ =>
  .ite (fun _ => .only .uw fun _ _ => h.one rfl (fromRm_new rfl)) fun _ =>
  .ite (fun _ => .plain fun _ => h.plain rfl) fun _ =>
  .ite (fun _ => .rm size fun m _ => h.groupFF m) fun _ =>
  .ite (fun _ => .test 1 .ub (fun _ _ hm => h.rmImm hm (.inl rfl) ..)
    fun m _ => h.one (unaryOps_unpaired _) (fromRm_rm m)) fun _ =>
  .ite (fun _ => .test size .iz (fun _ _ hm => h.rmImm hm (.inr rfl) ..)
    fun m _ => h.one (unaryOps_unpaired _) (fromRm_rm m)) fun _ =>
  .ite (fun _ => .rmImm _ .ub fun m _ _ => h.shift _ m (fromRm_new rfl)) fun _ =>
  .ite (fun _ => .rm _ fun m _ => h.shift _ m (fromRm_new rfl)) fun _ =>
  .ite (fun _ => .rm _ fun m _ => h.shift _ m (fromRm_new rfl)) fun _ =>
  .ite (fun _ => .plain fun _ =>
    h.two (fromRm_new rfl) (fromRm_new rfl) fun _ => ⟨rfl, .inr rfl⟩) fun _ =>
  .ite (fun _ => .plain fun _ => h.plain (by split <;> [rfl; split <;> rfl])) fun _ =>
  .ite (fun _ => .plain fun _ => h.plain (by split <;> rfl)) fun _ =>
  .ite (fun _ => .only .ub fun _ _ => h.one rfl (fromRm_new rfl)) fun _ =>
  .ite (fun _ => .plain fun _ => h.one rfl (fromRm_new rfl)) fun _ =>
  .ite (fun _ => .plain fun _ => h.plain rfl) fun _ =>
  .ite (fun _ => .plain fun _ => h.plain rfl) fun _ =>
  .ite (fun _ => .plain fun _ => h.plain rfl) fun _ =>
  .ite (fun _ => .plain fun _ => h.plain rfl) fun _ =>
  .ite (fun _ => .plain fun _ => h.plain rfl) fun _ =>
  .ite (fun _ => .plain fun _ => h.plain rfl) fun _ =>
  .ite (fun _ => .plain fun _ => h.plain rfl) fun _ =>
  .ite (fun _ => .plain fun _ => h.plain (by split <;> [rfl; split <;> rfl])) fun _ =>
  .ite (fun _ => .plain fun _ => h.plain rfl) fun _ =>
  .ite (fun _ => .plain fun _ => h.plain (by split <;> [rfl; split <;> rfl])) fun _ =>
  .ite (fun _ => .rmImm size .iz fun m _ hm => h.three hm.fromReg (fromRm_rm m) (fromRm_new rfl))
    fun _ =>
  .ite (fun _ => .rmImm size .sb fun m _ hm => h.three hm.fromReg (fromRm_rm m) (fromRm_new rfl))
    fun _ => by
  rw [show (fun s => if opcode = 0x0F then (fetch8 s >>= fun op2 => decodeTwoByte s p op2.toNat size out)
    else pure { out with opcode := .unknown }) = fun _ => pure { out with opcode := .unknown } from
      funext fun s => if_neg h0F]
  exact .plain fun _ => h.plain rfl

end WineGlass.X86
