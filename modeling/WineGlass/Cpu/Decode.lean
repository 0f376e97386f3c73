/-!
# The x86-64 decoder

`wg_x86_decode`, case by case. The cursor of the source is `Ctx.pos`; the fetch
helpers give zero and consume nothing when the bytes run out, and the ModRM
byte is peeked at with no check, which `overread` records. `bytes` goes on past
`maxLen`, as memory does.
-/

namespace WineGlass.X86

abbrev Byte := BitVec 8

/-- `WGOpcode`, as far as the decoder gives it out. -/
inductive Opcode
  | unknown | nop
  | mov | movzx | movsx | lea | xchg
  | push | pop
  | add | sub | adc | sbb
  | and | or | xor | not | neg
  | inc | dec
  | cmp | test
  | shl | shr | sar | rol | ror
  | imul | mul | idiv | div
  | jmp | jcc | call | ret
  | cmovcc | setcc
  | cqo | cdq | cbw | cwde | cdqe
  | movsb | movsw | movsdStr | movsq
  | stosb | stosw | stosd | stosq
  | leave
  | int | syscall | hlt
  | cpuid | rdtsc
  | bswap | bsf | bsr
  | movaps | movups | xorps
  | clc | stc | cmc | cld | std
  deriving DecidableEq, Repr

inductive OperandType
  | none | reg | mem | imm | rel
  deriving DecidableEq, Repr

/-- `memBase` and `memIndex` are -1 for none; `memBase` is -2 for RIP-relative. -/
structure Operand where
  type : OperandType := .none
  size : Nat := 0
  regIndex : Nat := 0
  memBase : Int := 0
  memIndex : Int := 0
  memScale : Nat := 0
  memDisp : BitVec 64 := 0
  memSeg : Int := 0
  imm : BitVec 64 := 0
  deriving DecidableEq, Repr

structure Instruction where
  opcode : Opcode := .unknown
  length : Nat := 0
  op0 : Operand := {}
  op1 : Operand := {}
  op2 : Operand := {}
  numOperands : Nat := 0
  opSize : Nat := 0
  addrSize : Nat := 0
  hasLock : Bool := false
  hasRep : Bool := false
  hasRepne : Bool := false
  segmentOverride : Int := 0
  condition : Nat := 0
  deriving DecidableEq, Repr

/-- The arguments of `wg_x86_decode`. -/
structure Code where
  bytes : Nat → Byte
  maxLen : Nat
  rip : BitVec 64

/-- A buffer of the given bytes. -/
def Code.of (l : List Byte) (rip : BitVec 64) : Code := ⟨fun i => l.getD i 0, l.length, rip⟩

/-- `DecodeCtx`, with `pos` for `ptr - start`. -/
structure Ctx where
  pos : Nat := 0
  rexPresent : Bool := false
  rexW : Bool := false
  rexR : Nat := 0
  rexX : Nat := 0
  rexB : Nat := 0
  has66 : Bool := false
  has67 : Bool := false
  hasF2 : Bool := false
  hasF3 : Bool := false
  hasLock : Bool := false
  segOverride : Int := -1
  overread : Bool := false
  deriving DecidableEq, Repr

def modrmMod (b : Byte) : Nat := b.toNat / 64
def modrmReg (b : Byte) : Nat := b.toNat / 8 % 8
def modrmRm (b : Byte) : Nat := b.toNat % 8
def sibScale (b : Byte) : Nat := b.toNat / 64
def sibIndex (b : Byte) : Nat := b.toNat / 8 % 8
def sibBase (b : Byte) : Nat := b.toNat % 8

-- ---------------------------------------------------------------------------
-- Fetching
-- ---------------------------------------------------------------------------

def fetch8 (s : Code) : StateM Ctx Byte := fun c =>
  if s.maxLen ≤ c.pos then (0, c) else (s.bytes c.pos, { c with pos := c.pos + 1 })

def fetch16 (s : Code) : StateM Ctx (BitVec 16) := fun c =>
  if c.pos + 2 ≤ s.maxLen then
    (s.bytes (c.pos + 1) ++ s.bytes c.pos, { c with pos := c.pos + 2 })
  else (0, c)

def fetch32 (s : Code) : StateM Ctx (BitVec 32) := fun c =>
  if c.pos + 4 ≤ s.maxLen then
    (s.bytes (c.pos + 3) ++ s.bytes (c.pos + 2) ++ s.bytes (c.pos + 1) ++ s.bytes c.pos,
      { c with pos := c.pos + 4 })
  else (0, c)

def fetch64 (s : Code) : StateM Ctx (BitVec 64) := do
  let lo ← fetch32 s
  let hi ← fetch32 s
  return hi ++ lo

/-- `fetch8`, zero-extended. -/
def imm8 (s : Code) : StateM Ctx (BitVec 64) := do return (← fetch8 s).setWidth 64

/-- `(int8_t)fetch8`. -/
def simm8 (s : Code) : StateM Ctx (BitVec 64) := do return (← fetch8 s).signExtend 64

def imm16 (s : Code) : StateM Ctx (BitVec 64) := do return (← fetch16 s).setWidth 64

/-- `fetch_simm32`. -/
def simm32 (s : Code) : StateM Ctx (BitVec 64) := do return (← fetch32 s).signExtend 64

/-- The immediate of `MOV r, imm`. -/
def movImm (s : Code) (w : Bool) : StateM Ctx (BitVec 64) := if w then fetch64 s else simm32 s

/-- `rip + (c->ptr - c->start) + rel`. -/
def target (s : Code) (c : Ctx) (rel : BitVec 64) : BitVec 64 :=
  s.rip + BitVec.ofNat 64 c.pos + rel

def effectiveOpSize (c : Ctx) : Nat := if c.rexW then 8 else if c.has66 then 2 else 4

-- ---------------------------------------------------------------------------
-- ModRM
-- ---------------------------------------------------------------------------

/-- Index 4 is none. -/
def withIndex (op : Operand) (index scale : Nat) : Operand :=
  if index ≠ 4 then { op with memIndex := index, memScale := scale } else op

/-- The SIB byte and the displacement that replaces its base. -/
def decodeSib (s : Code) (mod : Nat) (op : Operand) : StateM Ctx Operand := do
  let sib ← fetch8 s
  let c ← get
  let base := sibBase sib ||| c.rexB <<< 3
  let index := sibIndex sib ||| c.rexX <<< 3
  let op := withIndex op index (1 <<< sibScale sib)
  if mod = 0 ∧ sibBase sib = 5 then
    let disp ← simm32 s
    return { op with memDisp := disp }
  else return { op with memBase := base }

/-- The base of a memory operand. -/
def decodeBase (s : Code) (modrm : Byte) (op : Operand) : StateM Ctx Operand := do
  if modrmRm modrm = 4 then decodeSib s (modrmMod modrm) op
  else if modrmMod modrm = 0 ∧ modrmRm modrm = 5 then
    let disp ← simm32 s
    let c ← get
    return { op with memBase := -2, memDisp := target s c disp }
  else
    let c ← get
    return { op with memBase := (modrmRm modrm ||| c.rexB <<< 3 : Nat) }

def decodeDisp (s : Code) (mod : Nat) (op : Operand) : StateM Ctx Operand := do
  if mod = 1 then
    let disp ← simm8 s
    return { op with memDisp := disp }
  else if mod = 2 then
    let disp ← simm32 s
    return { op with memDisp := disp }
  else return op

/-- A memory operand with nothing filled in. -/
def memOp (c : Ctx) (op : Operand) : Operand :=
  { op with
    type := .mem, memBase := -1, memIndex := -1, memScale := 1, memDisp := 0
    memSeg := c.segOverride }

/-- `decode_modrm_mem`, after its ModRM byte. -/
def decodeRm (s : Code) (modrm : Byte) (op : Operand) : StateM Ctx Operand := do
  let c ← get
  if modrmMod modrm = 3 then
    return { op with type := .reg, regIndex := modrmRm modrm ||| c.rexB <<< 3 }
  else
    let op ← decodeBase s modrm (memOp c op)
    decodeDisp s (modrmMod modrm) op

def decodeModrmMem (s : Code) (op : Operand) : StateM Ctx Operand := do
  let modrm ← fetch8 s
  decodeRm s modrm op

/-- `*c->ptr`, with no check that a byte is left. -/
def peek (s : Code) : StateM Ctx Byte := fun c =>
  (s.bytes c.pos, { c with overread := c.overread || decide (s.maxLen ≤ c.pos) })

/-- What `decode_modrm` fills in. -/
structure ModRm where
  rm : Operand
  reg : Operand

def decodeModrm (s : Code) (size : Nat) : StateM Ctx ModRm := do
  let modrm ← peek s
  let c ← get
  let reg := modrmReg modrm ||| c.rexR <<< 3
  let rm ← decodeModrmMem s { size }
  return { rm, reg := { type := .reg, regIndex := reg, size } }

-- ---------------------------------------------------------------------------
-- The opcode maps
-- ---------------------------------------------------------------------------

def regOp (reg size : Nat) : Operand := { type := .reg, regIndex := reg, size }
def immOp (imm : BitVec 64) (size : Nat) : Operand := { type := .imm, imm, size }
def relOp (imm : BitVec 64) : Operand := { type := .rel, imm, size := 8 }

/-- `ops[]` of the ALU groups. -/
def aluOps : Nat → Opcode
  | 0 => .add | 1 => .or | 2 => .adc | 3 => .sbb | 4 => .and | 5 => .sub | 6 => .xor | _ => .cmp

def shiftOps : Nat → Opcode
  | 0 => .rol | 1 => .ror | 2 => .unknown | 3 => .unknown
  | 4 => .shl | 5 => .shr | 6 => .shl | _ => .sar

/-- An instruction of an opcode and two operands. -/
def Instruction.two (out : Instruction) (opcode : Opcode) (a b : Operand) : Instruction :=
  { out with opcode, op0 := a, op1 := b, numOperands := 2 }

def Instruction.one (out : Instruction) (opcode : Opcode) (a : Operand) : Instruction :=
  { out with opcode, op0 := a, numOperands := 1 }

/-- `r/m` is the first operand, or the second. -/
def modrmFirst (s : Code) (size : Nat) (out : Instruction) (opcode : Opcode) :
    StateM Ctx Instruction := do
  let m ← decodeModrm s size
  return out.two opcode m.rm m.reg

def modrmSecond (s : Code) (size : Nat) (out : Instruction) (opcode : Opcode) :
    StateM Ctx Instruction := do
  let m ← decodeModrm s size
  return out.two opcode m.reg m.rm

def groupFF (out : Instruction) (m : ModRm) : Instruction :=
  match m.reg.regIndex % 8 with
  | 0 => out.one .inc m.rm
  | 1 => out.one .dec m.rm
  | 2 => out.one .call { m.rm with size := 8 }
  | 4 => out.one .jmp { m.rm with size := 8 }
  | 6 => out.one .push { m.rm with size := 8 }
  | _ => out.one .unknown m.rm

/-- Group F6/F7 but TEST. -/
def unaryOps : Nat → Opcode
  | 2 => .not | 3 => .neg | 4 => .mul | 5 => .imul | 6 => .div | _ => .idiv

/-- `MOVZX` and `MOVSX`: the register is as wide as the instruction. -/
def modrmExtend (s : Code) (src size : Nat) (out : Instruction) (opcode : Opcode) :
    StateM Ctx Instruction := do
  let m ← decodeModrm s src
  return out.two opcode { m.reg with size } m.rm

def jump (s : Code) (rel : StateM Ctx (BitVec 64)) (out : Instruction) (opcode : Opcode) :
    StateM Ctx Instruction := do
  let rel ← rel
  let c ← get
  return out.one opcode (relOp (target s c rel))

/-- The two-byte opcodes, `p` being the prefix state and `size` the operand size. -/
def decodeTwoByte (s : Code) (p : Ctx) (op2 size : Nat) (out : Instruction) :
    StateM Ctx Instruction :=
  if 0x80 ≤ op2 ∧ op2 ≤ 0x8F then jump s (simm32 s) { out with condition := op2 - 0x80 } .jcc
  else if 0x90 ≤ op2 ∧ op2 ≤ 0x9F then do
    let m ← decodeModrm s 1
    return { out with condition := op2 - 0x90 }.one .setcc m.rm
  else if 0x40 ≤ op2 ∧ op2 ≤ 0x4F then
    modrmSecond s size { out with condition := op2 - 0x40 } .cmovcc
  else if op2 = 0xB6 ∨ op2 = 0xB7 then
    modrmExtend s (if op2 = 0xB6 then 1 else 2) size out .movzx
  else if op2 = 0xBE ∨ op2 = 0xBF then
    modrmExtend s (if op2 = 0xBE then 1 else 2) size out .movsx
  else if op2 = 0xAF then modrmSecond s size out .imul
  else if op2 = 0xA2 then return { out with opcode := .cpuid }
  else if op2 = 0x31 then return { out with opcode := .rdtsc }
  else if op2 = 0x05 then return { out with opcode := .syscall }
  else if op2 = 0xBC then modrmSecond s size out .bsf
  else if op2 = 0xBD then modrmSecond s size out .bsr
  else if 0xC8 ≤ op2 ∧ op2 ≤ 0xCF then
    return out.one .bswap (regOp ((op2 - 0xC8) ||| p.rexB <<< 3) size)
  else if op2 = 0x1F then do
    let m ← decodeModrm s size
    return { out with opcode := .nop, op0 := m.rm }
  else if op2 = 0x10 ∨ op2 = 0x11 then
    if op2 = 0x10 then modrmSecond s 16 out .movups else modrmFirst s 16 out .movups
  else if op2 = 0x28 ∨ op2 = 0x29 then
    if op2 = 0x28 then modrmSecond s 16 out .movaps else modrmFirst s 16 out .movaps
  else if op2 = 0x57 then modrmSecond s 16 out .xorps
  else return { out with opcode := .unknown }

/-- The switch on the first opcode byte. -/
def decodeOpcode (s : Code) (p : Ctx) (opcode size : Nat) (out : Instruction) :
    StateM Ctx Instruction :=
  if opcode = 0x90 then
    if !p.rexPresent then return { out with opcode := .nop }
    else return out.two .xchg (regOp p.rexB size) (regOp 0 size)
  else if opcode = 0x88 ∨ opcode = 0x89 then
    modrmFirst s (if opcode = 0x88 then 1 else size) out .mov
  else if opcode = 0x8A ∨ opcode = 0x8B then
    modrmSecond s (if opcode = 0x8A then 1 else size) out .mov
  else if 0xB0 ≤ opcode ∧ opcode ≤ 0xB7 then do
    let imm ← imm8 s
    return out.two .mov (regOp ((opcode - 0xB0) ||| p.rexB <<< 3) 1) (immOp imm 1)
  else if 0xB8 ≤ opcode ∧ opcode ≤ 0xBF then do
    let imm ← movImm s p.rexW
    return out.two .mov (regOp ((opcode - 0xB8) ||| p.rexB <<< 3) size)
      (immOp imm (if p.rexW then 8 else size))
  else if opcode = 0xC6 then do
    let m ← decodeModrm s 1
    let imm ← simm8 s
    return out.two .mov m.rm (immOp imm 1)
  else if opcode = 0xC7 then do
    let m ← decodeModrm s size
    let imm ← simm32 s
    return out.two .mov m.rm (immOp imm size)
  else if opcode = 0x80 ∨ opcode = 0x82 then do
    let m ← decodeModrm s 1
    let imm ← simm8 s
    return out.two (aluOps (m.reg.regIndex % 8)) m.rm (immOp imm 1)
  else if opcode = 0x83 then do
    let m ← decodeModrm s size
    let imm ← simm8 s
    return out.two (aluOps (m.reg.regIndex % 8)) m.rm (immOp imm size)
  else if opcode = 0x81 then do
    let m ← decodeModrm s size
    let imm ← simm32 s
    return out.two (aluOps (m.reg.regIndex % 8)) m.rm (immOp imm size)
  else if opcode < 0x40 ∧ opcode % 8 < 2 then
    modrmFirst s (if opcode % 8 = 0 then 1 else size) out (aluOps (opcode / 8))
  else if opcode < 0x40 ∧ opcode % 8 < 4 then
    modrmSecond s (if opcode % 8 = 2 then 1 else size) out (aluOps (opcode / 8))
  else if opcode < 0x40 ∧ opcode % 8 = 4 then do
    let imm ← simm8 s
    return out.two (aluOps (opcode / 8)) (regOp 0 1) (immOp imm 1)
  else if opcode < 0x40 ∧ opcode % 8 = 5 then do
    let imm ← simm32 s
    return out.two (aluOps (opcode / 8)) (regOp 0 size) (immOp imm size)
  else if opcode = 0x84 ∨ opcode = 0x85 then
    modrmFirst s (if opcode = 0x84 then 1 else size) out .test
  else if opcode = 0xA8 then do
    let imm ← imm8 s
    return out.two .test (regOp 0 1) (immOp imm 1)
  else if opcode = 0xA9 then do
    let imm ← simm32 s
    return out.two .test (regOp 0 size) (immOp imm size)
  else if 0x50 ≤ opcode ∧ opcode ≤ 0x57 then
    return out.one .push (regOp ((opcode - 0x50) ||| p.rexB <<< 3) 8)
  else if 0x58 ≤ opcode ∧ opcode ≤ 0x5F then
    return out.one .pop (regOp ((opcode - 0x58) ||| p.rexB <<< 3) 8)
  else if opcode = 0x6A then do
    let imm ← simm8 s
    return out.one .push (immOp imm 8)
  else if opcode = 0x68 then do
    let imm ← simm32 s
    return out.one .push (immOp imm 8)
  else if opcode = 0x8D then modrmSecond s size out .lea
  else if 0x70 ≤ opcode ∧ opcode ≤ 0x7F then
    jump s (simm8 s) { out with condition := opcode - 0x70 } .jcc
  else if opcode = 0xEB then jump s (simm8 s) out .jmp
  else if opcode = 0xE9 then jump s (simm32 s) out .jmp
  else if opcode = 0xE8 then jump s (simm32 s) out .call
  else if opcode = 0xC3 then return { out with opcode := .ret }
  else if opcode = 0xC2 then do
    let imm ← imm16 s
    return out.one .ret (immOp imm 2)
  else if opcode = 0xC9 then return { out with opcode := .leave }
  else if opcode = 0xFF then do
    let m ← decodeModrm s size
    return groupFF out m
  else if opcode = 0xF6 then do
    let m ← decodeModrm s 1
    if m.reg.regIndex % 8 < 2 then
      let imm ← imm8 s
      return out.two .test m.rm (immOp imm 1)
    else return out.one (unaryOps (m.reg.regIndex % 8)) m.rm
  else if opcode = 0xF7 then do
    let m ← decodeModrm s size
    if m.reg.regIndex % 8 < 2 then
      let imm ← simm32 s
      return out.two .test m.rm (immOp imm size)
    else return out.one (unaryOps (m.reg.regIndex % 8)) m.rm
  else if opcode = 0xC0 ∨ opcode = 0xC1 then do
    let m ← decodeModrm s (if opcode = 0xC0 then 1 else size)
    let imm ← imm8 s
    return out.two (shiftOps (m.reg.regIndex % 8)) m.rm (immOp imm 1)
  else if opcode = 0xD0 ∨ opcode = 0xD1 then do
    let m ← decodeModrm s (if opcode = 0xD0 then 1 else size)
    return out.two (shiftOps (m.reg.regIndex % 8)) m.rm (immOp 1 1)
  else if opcode = 0xD2 ∨ opcode = 0xD3 then do
    let m ← decodeModrm s (if opcode = 0xD2 then 1 else size)
    return out.two (shiftOps (m.reg.regIndex % 8)) m.rm (regOp 1 1)
  else if 0x91 ≤ opcode ∧ opcode ≤ 0x97 then
    return out.two .xchg (regOp ((opcode - 0x90) ||| p.rexB <<< 3) size) (regOp 0 size)
  else if opcode = 0x98 then
    return { out with opcode := if p.rexW then .cdqe else if p.has66 then .cbw else .cwde }
  else if opcode = 0x99 then return { out with opcode := if p.rexW then .cqo else .cdq }
  else if opcode = 0xCD then do
    let imm ← imm8 s
    return out.one .int (immOp imm 1)
  else if opcode = 0xCC then return out.one .int (immOp 3 1)
  else if opcode = 0xF4 then return { out with opcode := .hlt }
  else if opcode = 0xF8 then return { out with opcode := .clc }
  else if opcode = 0xF9 then return { out with opcode := .stc }
  else if opcode = 0xF5 then return { out with opcode := .cmc }
  else if opcode = 0xFC then return { out with opcode := .cld }
  else if opcode = 0xFD then return { out with opcode := .std }
  else if opcode = 0xA4 then return { out with opcode := .movsb }
  else if opcode = 0xA5 then
    return { out with opcode := if p.rexW then .movsq else if p.has66 then .movsw else .movsdStr }
  else if opcode = 0xAA then return { out with opcode := .stosb }
  else if opcode = 0xAB then
    return { out with opcode := if p.rexW then .stosq else if p.has66 then .stosw else .stosd }
  else if opcode = 0x69 then do
    let m ← decodeModrm s size
    let imm ← simm32 s
    return { out with
      opcode := .imul, op0 := m.reg, op1 := m.rm, op2 := immOp imm size, numOperands := 3 }
  else if opcode = 0x6B then do
    let m ← decodeModrm s size
    let imm ← simm8 s
    return { out with
      opcode := .imul, op0 := m.reg, op1 := m.rm, op2 := immOp imm size, numOperands := 3 }
  else if opcode = 0x0F then do
    let op2 ← fetch8 s
    decodeTwoByte s p op2.toNat size out
  else return { out with opcode := .unknown }

-- ---------------------------------------------------------------------------
-- Prefixes and the decoder
-- ---------------------------------------------------------------------------

/-- What a prefix byte does to the context; `none` for any other byte. -/
def prefixByte (c : Ctx) (b : Nat) : Option Ctx :=
  if b = 0xF0 then some { c with hasLock := true }
  else if b = 0xF2 then some { c with hasF2 := true }
  else if b = 0xF3 then some { c with hasF3 := true }
  else if b = 0x66 then some { c with has66 := true }
  else if b = 0x67 then some { c with has67 := true }
  else if b = 0x26 then some { c with segOverride := 0 }
  else if b = 0x2E then some { c with segOverride := 1 }
  else if b = 0x36 then some { c with segOverride := 2 }
  else if b = 0x3E then some { c with segOverride := 3 }
  else if b = 0x64 then some { c with segOverride := 4 }
  else if b = 0x65 then some { c with segOverride := 5 }
  else if 0x40 ≤ b ∧ b ≤ 0x4F then
    some { c with
      rexPresent := true, rexW := b / 8 % 2 = 1, rexR := b / 4 % 2, rexX := b / 2 % 2, rexB := b % 2 }
  else none

/-- The prefix loop, for at most `fuel` more bytes. -/
def parsePrefixes (s : Code) : Nat → Ctx → Ctx
  | 0, c => c
  | fuel + 1, c =>
    if c.pos < s.maxLen then
      match prefixByte c (s.bytes c.pos).toNat with
      | some c' => parsePrefixes s fuel { c' with pos := c.pos + 1 }
      | none => c
    else c

/-- The context after the prefixes. -/
def prefixes (s : Code) : Ctx := parsePrefixes s s.maxLen {}

/-- The instruction before its opcode is read. -/
def header (c : Ctx) : Instruction :=
  { hasLock := c.hasLock, hasRep := c.hasF3, hasRepne := c.hasF2
    segmentOverride := c.segOverride, addrSize := if c.has67 then 4 else 8 }

/-- `wg_x86_decode`: the instruction, whose `length` is what is returned, and
the context left behind. -/
def decode (s : Code) : Instruction × Ctx :=
  if s.maxLen = 0 then ({ segmentOverride := -1 }, {})
  else
    let p := prefixes s
    if s.maxLen ≤ p.pos then (header p, p)
    else
      let size := effectiveOpSize p
      let r := (do
        let opcode ← fetch8 s
        decodeOpcode s p opcode.toNat size { header p with opSize := size }) p
      ({ r.1 with length := r.2.pos }, r.2)

end WineGlass.X86
