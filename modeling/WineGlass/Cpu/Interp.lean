import WineGlass.Cpu.Decode
import WineGlass.Cpu.State
import WineGlass.Memory.Space

/-!
# The interpreter

`wg_x86_exec_one`, case by case. What C leaves undefined is `none`: a wide
access that leaves a region's buffer, a decoder that reads past the 16 bytes of
code, a shift by the width or more, a signed product that overflows.
-/

namespace WineGlass.X86

open Memory Word

inductive Result
  | ok | halt | syscall | error
  deriving DecidableEq, Repr

/-- The CPU and the memory space it runs in. -/
structure Machine where
  cpu : State
  mem : Space

def State.setReg (s : State) (r : Nat) (v : Word64) : State :=
  { s with gpr := Function.update s.gpr r v }

def Machine.setReg (m : Machine) (r : Nat) (v : Word64) : Machine :=
  { m with cpu := m.cpu.setReg r v }

def Machine.setFlags (m : Machine) (rflags : Word64) : Machine :=
  { m with cpu := { m.cpu with rflags } }

def Machine.setRip (m : Machine) (rip : Word64) : Machine := { m with cpu := { m.cpu with rip } }

-- ---------------------------------------------------------------------------
-- Operands
-- ---------------------------------------------------------------------------

def maskFor (bytes : Nat) : Word64 := if 8 ≤ bytes then BitVec.allOnes 64 else (1#64 <<< (bytes * 8)) - 1

/-- `sign_extend`: the value is not masked first. -/
def signExtend (val : Word64) (bytes : Nat) : Option Word64 :=
  let bits := bytes * 8
  if bits = 0 ∨ 64 < bits then none
  else if val &&& (1#64 <<< (bits - 1)) ≠ 0 then
    if bits = 64 then none else some (val ||| ~~~((1#64 <<< bits) - 1))
  else some val

/-- The address of a memory operand. -/
def computeAddr (cpu : State) (op : Operand) : Word64 :=
  if op.memBase = -2 then op.memDisp
  else
    (if 0 ≤ op.memBase then cpu.gpr op.memBase.toNat else 0) +
      (if 0 ≤ op.memIndex then cpu.gpr op.memIndex.toNat * BitVec.ofNat 64 op.memScale else 0) +
      op.memDisp

def computeEa (cpu : State) (op : Operand) : Word64 :=
  if op.type = .mem then computeAddr cpu op else 0

def readMem (mem : Space) (size : Nat) (addr : Word64) : Option Word64 :=
  match size with
  | 1 => some ((readU8 mem addr).setWidth 64)
  | 2 => (readU16 mem addr).map (BitVec.ofNat 64)
  | 4 => (readU32 mem addr).map (BitVec.ofNat 64)
  | 8 => (readU64 mem addr).map (BitVec.ofNat 64)
  | _ => some 0

def readOperand (m : Machine) (op : Operand) : Option Word64 :=
  match op.type with
  | .reg => some (m.cpu.gpr op.regIndex &&& maskFor op.size)
  | .imm | .rel => some (op.imm &&& maskFor op.size)
  | .mem => readMem m.mem op.size (computeAddr m.cpu op)
  | .none => some 0

/-- What a register holds after a write of `size` bytes. -/
def merge (size : Nat) (old val : Word64) : Word64 :=
  if size = 4 then val &&& 0xFFFFFFFF
  else if size < 4 then (old &&& ~~~maskFor size) ||| (val &&& maskFor size)
  else val

def writeMem (mem : Space) (size : Nat) (addr val : Word64) : Option Space :=
  match size with
  | 1 => some (writeU8 mem addr (val.setWidth 8))
  | 2 => writeU16 mem addr (val.setWidth 16).toNat
  | 4 => writeU32 mem addr (val.setWidth 32).toNat
  | 8 => writeU64 mem addr val.toNat
  | _ => some mem

def writeOperand (m : Machine) (op : Operand) (val : Word64) : Option Machine :=
  match op.type with
  | .reg => some (m.setReg op.regIndex (merge op.size (m.cpu.gpr op.regIndex) val))
  | .mem => (writeMem m.mem op.size (computeAddr m.cpu op) val).map fun mem => { m with mem }
  | _ => some m

def push64 (m : Machine) (val : Word64) : Option Machine :=
  let m := m.setReg rsp (m.cpu.gpr rsp - 8)
  (writeU64 m.mem (m.cpu.gpr rsp) val.toNat).map fun mem => { m with mem }

def pop64 (m : Machine) : Option (Word64 × Machine) := do
  let val ← readU64 m.mem (m.cpu.gpr rsp)
  return (BitVec.ofNat 64 val, m.setReg rsp (m.cpu.gpr rsp + 8))

-- ---------------------------------------------------------------------------
-- The switch
-- ---------------------------------------------------------------------------

/-- A case ends with a `break`, or returns. -/
inductive Outcome
  | next (rip : Word64) (m : Machine)
  | stop (r : Result) (m : Machine)

/-- The two operands, the second sign-extended to a wider first. -/
def readPair (m : Machine) (i : Instruction) : Option (Word64 × Word64) := do
  let a ← readOperand m i.op0
  let b ← readOperand m i.op1
  if i.op1.size < i.op0.size then return (a, ← signExtend b i.op1.size) else return (a, b)

/-- ADD, SUB, AND, OR and XOR. -/
def execAlu (f : Word64 → Word64 → Word64)
    (flags : Word64 → Word64 → Word64 → Word64 → Nat → Word64) (m : Machine) (i : Instruction) :
    Option Machine := do
  let (a, b) ← readPair m i
  let r := f a b
  let m ← writeOperand m i.op0 r
  return m.setFlags (flags m.cpu.rflags a b r (i.opSize * 8))

def execCmp (m : Machine) (i : Instruction) : Option Machine := do
  let (a, b) ← readPair m i
  return m.setFlags (updateFlagsSub m.cpu.rflags a b (a - b) (i.opSize * 8))

def execTest (m : Machine) (i : Instruction) : Option Machine := do
  let a ← readOperand m i.op0
  let b ← readOperand m i.op1
  return m.setFlags (updateFlagsLogic m.cpu.rflags (a &&& b) (i.opSize * 8))

/-- The value of the second operand goes to the first. -/
def execMov (m : Machine) (i : Instruction) : Option Machine := do
  let val ← readOperand m i.op1
  writeOperand m i.op0 val

def execMovsx (m : Machine) (i : Instruction) : Option Machine := do
  let val ← readOperand m i.op1
  let sval ← signExtend val i.op1.size
  writeOperand m i.op0 sval

def execXchg (m : Machine) (i : Instruction) : Option Machine := do
  let a ← readOperand m i.op0
  let b ← readOperand m i.op1
  let m ← writeOperand m i.op0 b
  writeOperand m i.op1 a

def execNot (m : Machine) (i : Instruction) : Option Machine := do
  let val ← readOperand m i.op0
  writeOperand m i.op0 (~~~val)

def execNeg (m : Machine) (i : Instruction) : Option Machine := do
  let val ← readOperand m i.op0
  let r := ~~~val + 1
  let m ← writeOperand m i.op0 r
  return m.setFlags (updateFlagsSub m.cpu.rflags 0 val r (i.opSize * 8))

/-- INC and DEC, which keep CF. -/
def execStep (f : Word64 → Word64 → Word64)
    (flags : Word64 → Word64 → Word64 → Word64 → Nat → Word64) (m : Machine) (i : Instruction) :
    Option Machine := do
  let val ← readOperand m i.op0
  let r := f val 1
  let m ← writeOperand m i.op0 r
  let rflags := flags m.cpu.rflags val 1 r (i.opSize * 8)
  return m.setFlags (setFlag rflags flagCF (getFlag m.cpu.rflags flagCF))

/-- The bits a shift moves, in the source's mask. -/
def shiftCount (m : Machine) (i : Instruction) : Option Nat := do
  let count ← readOperand m i.op1
  return (count &&& 0x3F).toNat

/-- SHL, SHR and SAR: `f` gives the result and the bit that goes to CF. -/
def execShift (f : Word64 → Nat → Nat → Option (Word64 × Bool)) (m : Machine) (i : Instruction) :
    Option Machine := do
  let val ← readOperand m i.op0
  let count ← shiftCount m i
  if count = 0 then return m
  else
    let (r, cf) ← f val count i.opSize
    let m ← writeOperand m i.op0 r
    return m.setFlags (setFlag (updateFlagsLogic m.cpu.rflags r (i.opSize * 8)) flagCF cf)

/-- `val >> (bits - count)`, in unsigned arithmetic. -/
def shl (val : Word64) (count opSize : Nat) : Option (Word64 × Bool) :=
  if opSize * 8 < count then none
  else some (val <<< count, val.getLsbD (opSize * 8 - count))

def shr (val : Word64) (count opSize : Nat) : Option (Word64 × Bool) :=
  some ((val &&& maskFor opSize) >>> count, val.getLsbD (count - 1))

def sar (val : Word64) (count opSize : Nat) : Option (Word64 × Bool) := do
  let sval ← signExtend val opSize
  return (sval.sshiftRight count, val.getLsbD (count - 1))

def mulS64 (a b : Word64) : Option Word64 :=
  let r := a.toInt * b.toInt
  if -2 ^ 63 ≤ r ∧ r < 2 ^ 63 then some (BitVec.ofInt 64 r) else none

def execImul (m : Machine) (i : Instruction) : Option Machine :=
  if i.numOperands = 1 then do
    let a ← signExtend (m.cpu.gpr rax) i.opSize
    let b ← signExtend (← readOperand m i.op0) i.opSize
    let r := a.toInt * b.toInt
    let m := m.setReg rax (BitVec.ofInt 64 r &&& maskFor i.opSize)
    return m.setReg rdx (BitVec.ofInt 64 (r / 2 ^ (i.opSize * 8)) &&& maskFor i.opSize)
  else if i.numOperands = 2 then do
    let a ← signExtend (← readOperand m i.op0) i.opSize
    let b ← signExtend (← readOperand m i.op1) i.opSize
    writeOperand m i.op0 (← mulS64 a b)
  else do
    let b ← signExtend (← readOperand m i.op1) i.opSize
    let imm ← signExtend (← readOperand m i.op2) i.opSize
    writeOperand m i.op0 (← mulS64 b imm)

def branchTarget (m : Machine) (op : Operand) : Option Word64 :=
  if op.type = .rel then some op.imm else readOperand m op

def isThunk (rip : Word64) : Bool := decide (0xDEAD0000 ≤ rip) && decide (rip < 0xDEAF0000)

def execCall (m : Machine) (i : Instruction) (next : Word64) : Option Outcome := do
  let m ← push64 m next
  let rip ← branchTarget m i.op0
  if isThunk rip then
    let (rip, m) ← pop64 m
    return .stop .syscall (m.setRip rip)
  else return .next rip m

def execRet (m : Machine) (i : Instruction) : Option Outcome := do
  let (rip, m) ← pop64 m
  let m := if 0 < i.numOperands then m.setReg rsp (m.cpu.gpr rsp + i.op0.imm) else m
  if rip = 0 then return .stop .halt (m.setRip rip) else return .next rip m

def execLeave (m : Machine) : Option Machine := do
  let (val, m) ← pop64 (m.setReg rsp (m.cpu.gpr rbp))
  return m.setReg rbp val

def execCmov (m : Machine) (i : Instruction) : Option Machine :=
  if evalCondition m.cpu.rflags i.condition then execMov m i else some m

def execSetcc (m : Machine) (i : Instruction) : Option Machine :=
  writeOperand m i.op0 (if evalCondition m.cpu.rflags i.condition then 1 else 0)

/-- The upper half of a register is kept. -/
def setLow (old : Word64) (low : BitVec 32) : Word64 :=
  (old &&& ~~~(0xFFFFFFFF : Word64)) ||| low.setWidth 64

def execCdq (m : Machine) : Machine :=
  m.setReg rdx (setLow (m.cpu.gpr rdx)
    (if (m.cpu.gpr rax).getLsbD 31 then 0xFFFFFFFF else 0))

def execCqo (m : Machine) : Machine :=
  m.setReg rdx (if (m.cpu.gpr rax).msb then BitVec.allOnes 64 else 0)

def execCdqe (m : Machine) : Machine :=
  m.setReg rax (((m.cpu.gpr rax).setWidth 32).signExtend 64)

def execCwde (m : Machine) : Machine :=
  m.setReg rax (setLow (m.cpu.gpr rax) (((m.cpu.gpr rax).setWidth 16).signExtend 32))

/-- `__builtin_bswap` of `n` bytes. -/
def bswap (n : Nat) (val : Word64) : Word64 :=
  BitVec.ofNat 64 (word (fun i => byteAt val.toNat (n - 1 - i)) n)

def execBswap (m : Machine) (i : Instruction) : Machine :=
  m.setReg i.op0.regIndex (bswap (if i.opSize = 8 then 8 else 4) (m.cpu.gpr i.op0.regIndex))

/-- RAX, RBX, RCX and RDX, as CPUID gives them. -/
def execCpuid (m : Machine) : Machine :=
  let set (a b c d : Word64) := (((m.setReg rax a).setReg rbx b).setReg rcx c).setReg rdx d
  match ((m.cpu.gpr rax).setWidth 32).toNat with
  | 0 => set 0x16 0x656E6957 0x00007373 0x73616C47
  | 1 => set 0x000906EA 0x00100800 0x7FFAFBBF 0xBFEBFBFF
  | _ => set 0 0 0 0

def execXorps (m : Machine) (i : Instruction) : Machine :=
  if i.op1.type = .reg then
    let dst := m.cpu.xmm i.op0.regIndex
    let src := m.cpu.xmm i.op1.regIndex
    { m with cpu := { m.cpu with
        xmm := Function.update m.cpu.xmm i.op0.regIndex (dst.1 ^^^ src.1, dst.2 ^^^ src.2) } }
  else m

/-- The switch; `next` is the address behind the instruction. -/
def exec (m : Machine) (i : Instruction) (next : Word64) : Option Outcome :=
  let go (m : Option Machine) : Option Outcome := m.map (.next next)
  match i.opcode with
  | .nop => go (some m)
  | .mov | .movzx => go (execMov m i)
  | .movsx => go (execMovsx m i)
  | .lea => go (writeOperand m i.op0 (computeEa m.cpu i.op1))
  | .xchg => go (execXchg m i)
  | .push => go (do push64 m (← readOperand m i.op0))
  | .pop => go (do
      let (val, m) ← pop64 m
      writeOperand m i.op0 val)
  | .add => go (execAlu (· + ·) updateFlagsAdd m i)
  | .sub => go (execAlu (· - ·) updateFlagsSub m i)
  | .and => go (execAlu (· &&& ·) (fun fl _ _ r bits => updateFlagsLogic fl r bits) m i)
  | .or => go (execAlu (· ||| ·) (fun fl _ _ r bits => updateFlagsLogic fl r bits) m i)
  | .xor => go (execAlu (· ^^^ ·) (fun fl _ _ r bits => updateFlagsLogic fl r bits) m i)
  | .cmp => go (execCmp m i)
  | .not => go (execNot m i)
  | .neg => go (execNeg m i)
  | .inc => go (execStep (· + ·) updateFlagsAdd m i)
  | .dec => go (execStep (· - ·) updateFlagsSub m i)
  | .test => go (execTest m i)
  | .shl => go (execShift shl m i)
  | .shr => go (execShift shr m i)
  | .sar => go (execShift sar m i)
  | .imul => go (execImul m i)
  | .jmp => do return .next (← branchTarget m i.op0) m
  | .jcc => some (.next (if evalCondition m.cpu.rflags i.condition then i.op0.imm else next) m)
  | .call => execCall m i next
  | .ret => execRet m i
  | .leave => go (execLeave m)
  | .cmovcc => go (execCmov m i)
  | .setcc => go (execSetcc m i)
  | .cdq => go (some (execCdq m))
  | .cqo => go (some (execCqo m))
  | .cdqe => go (some (execCdqe m))
  | .cwde => go (some (execCwde m))
  | .bswap => go (some (execBswap m i))
  | .cpuid => go (some (execCpuid m))
  | .xorps => go (some (execXorps m i))
  | .clc => go (some (m.setFlags (setFlag m.cpu.rflags flagCF false)))
  | .stc => go (some (m.setFlags (setFlag m.cpu.rflags flagCF true)))
  | .cmc => go (some (m.setFlags (setFlag m.cpu.rflags flagCF (!getFlag m.cpu.rflags flagCF))))
  | .cld => go (some (m.setFlags (setFlag m.cpu.rflags flagDF false)))
  | .std => go (some (m.setFlags (setFlag m.cpu.rflags flagDF true)))
  | .hlt => some (.stop .halt (m.setRip next))
  | .syscall | .int => some (.stop .syscall (m.setRip next))
  | .unknown => some (.stop .error m)
  -- Unimplemented: a warning, and on to the next instruction.
  | .adc | .sbb | .rol | .ror | .mul | .idiv | .div | .cbw | .movsb | .movsw | .movsdStr | .movsq
  | .stosb | .stosw | .stosd | .stosq | .rdtsc | .bsf | .bsr | .movaps | .movups => go (some m)

/-- The 16 bytes of code at `rip`. -/
def codeAt (m : Machine) : Code :=
  ⟨fun i => readU8 m.mem (m.cpu.rip + BitVec.ofNat 64 i), 16, m.cpu.rip⟩

def insnAt (m : Machine) : Instruction := (decode (codeAt m)).1

def Machine.count (m : Machine) : Machine :=
  { m with cpu := { m.cpu with instructionCount := m.cpu.instructionCount + 1 } }

def Outcome.finish : Outcome → Result × Machine
  | .next rip m => (.ok, m.setRip rip)
  | .stop r m => (r, m)

def execOne (m : Machine) : Option (Result × Machine) :=
  let d := decode (codeAt m)
  if d.2.overread then none
  else if d.1.length = 0 then some (.error, m)
  else (exec m.count d.1 (m.cpu.rip + BitVec.ofNat 64 d.1.length)).map Outcome.finish

/-- A machine that runs the given code at 0x1000, in a region of one page. -/
def Machine.of (code : List X86.Byte) (gpr : Nat → Word64) : Machine where
  cpu := ⟨gpr, 0x1000, 0x202, fun _ => (0, 0), 0⟩
  mem := ⟨[⟨0x1000, 4096, 7, fun i => code.getD i 0⟩]⟩

end WineGlass.X86
