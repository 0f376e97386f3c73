import WineGlass.Graphics.Tokens
import WineGlass.Lib.Turns
import WineGlass.Pe.Image

/-!
# Translating a shader: what is read

The container lookup and the token loop of `wg_dxbc_to_msl`. Each turn decodes
one instruction; the text emitted for it depends on nothing else and is left
out. The end of an instruction is the one it declares, whatever its operands
take.
-/

namespace WineGlass.Dxbc

open Pe (Buffer)

-- ---------------------------------------------------------------------------
-- Instructions
-- ---------------------------------------------------------------------------

/-- The opcodes with a case of their own. -/
inductive Op
  | add | and | break | breakc | continue | discard | div | dp2 | dp3 | dp4 | else | endif
  | endloop | eq | exp | ftoi | ftou | frc | ge | iadd | if | itof | log | loop | lt | ineg
  | ishl | ishr | imul | mad | min | max | mov | movc | mul | ne | not | or | ret | roundNe
  | roundNi | roundPi | roundZ | rsq | sample | sampleL | sqrt | sincos | ushr | utof | xor
  | case | default | derivRtx | derivRty | endswitch | ieq | ige | ilt | imax | imin | ine | ld
  | resinfo | sampleC | sampleCLz | sampleB | switch | dclResource | dclCb | dclSampler
  | dclInput | dclInputSiv | dclInputPs | dclInputPsSiv | dclOutput | dclOutputSiv | dclTemps
  | dclGlobalflags
  deriving DecidableEq, Repr

def Op.ofCode : Nat → Option Op
  | 0 => some .add | 1 => some .and | 2 => some .break | 3 => some .breakc
  | 7 => some .continue | 13 => some .discard | 14 => some .div | 15 => some .dp2
  | 16 => some .dp3 | 17 => some .dp4 | 18 => some .else | 21 => some .endif
  | 22 => some .endloop | 24 => some .eq | 25 => some .exp | 27 => some .ftoi
  | 28 => some .ftou | 26 => some .frc | 29 => some .ge | 30 => some .iadd | 31 => some .if
  | 43 => some .itof | 47 => some .log | 48 => some .loop | 49 => some .lt | 40 => some .ineg
  | 41 => some .ishl | 42 => some .ishr | 38 => some .imul | 50 => some .mad | 51 => some .min
  | 52 => some .max | 54 => some .mov | 55 => some .movc | 56 => some .mul | 57 => some .ne
  | 59 => some .not | 60 => some .or | 62 => some .ret | 64 => some .roundNe
  | 65 => some .roundNi | 66 => some .roundPi | 67 => some .roundZ | 68 => some .rsq
  | 69 => some .sample | 72 => some .sampleL | 75 => some .sqrt | 77 => some .sincos
  | 85 => some .ushr | 86 => some .utof | 87 => some .xor | 6 => some .case
  | 10 => some .default | 11 => some .derivRtx | 12 => some .derivRty | 23 => some .endswitch
  | 32 => some .ieq | 33 => some .ige | 34 => some .ilt | 36 => some .imax | 37 => some .imin
  | 39 => some .ine | 45 => some .ld | 61 => some .resinfo | 70 => some .sampleC
  | 71 => some .sampleCLz | 74 => some .sampleB | 76 => some .switch | 88 => some .dclResource
  | 89 => some .dclCb | 90 => some .dclSampler | 95 => some .dclInput
  | 97 => some .dclInputSiv | 98 => some .dclInputPs | 100 => some .dclInputPsSiv
  | 101 => some .dclOutput | 103 => some .dclOutputSiv | 104 => some .dclTemps
  | 106 => some .dclGlobalflags | _ => none

/-- How many times the case of an opcode calls `read_operand`. -/
def Op.operands : Op → Nat
  | .dclCb | .dclSampler | .dclResource | .dclInput | .dclInputPs | .dclInputSiv
  | .dclInputPsSiv | .dclOutput | .dclOutputSiv | .switch | .case | .if | .breakc | .discard => 1
  | .mov | .frc | .exp | .log | .rsq | .sqrt | .roundNe | .roundNi | .roundPi | .roundZ
  | .derivRtx | .derivRty | .ineg | .not | .ftoi | .ftou | .itof | .utof => 2
  | .add | .mul | .div | .min | .max | .dp2 | .dp3 | .dp4 | .eq | .ge | .lt | .ne | .iadd
  | .ishl | .ishr | .ushr | .and | .or | .xor | .sincos | .imin | .imax | .ieq | .ige | .ilt
  | .ine | .ld | .resinfo => 3
  | .mad | .movc | .sample | .imul => 4
  | .sampleL | .sampleB | .sampleC | .sampleCLz => 5
  | .break | .continue | .else | .endif | .endloop | .loop | .ret | .default | .endswitch
  | .dclTemps | .dclGlobalflags => 0

/-- The cases that look at one dword more, behind the operands. -/
def Op.trailing : Op → Bool
  | .dclTemps | .dclInputSiv | .dclInputPsSiv | .dclOutputSiv => true
  | _ => false

def opcode (tok : U32) : U32 := tok &&& 0x7ff
def ilen (tok : U32) : U32 := bits tok 24 0x7f

def customData : U32 := 53

def operandCount (tok : U32) : Nat := ((Op.ofCode (opcode tok).toNat).map Op.operands).getD 0

def hasTrailing (tok : U32) : Bool := ((Op.ofCode (opcode tok).toNat).map Op.trailing).getD false

/-- What one turn of the loop has decoded. -/
structure Insn where
  token : U32
  operands : List Operand
  trailing : Option U32
  deriving DecidableEq, Repr

-- Operands are read from a memory of their own, which for the code is the same one.
section
variable (m ops : Memory) (stop : Nat)

/-- `next`: the declared length, a dword of its own for CUSTOMDATA. -/
def next (p : Nat) : Option Nat :=
  (m.dword p).bind fun tok =>
    if opcode tok = customData ∧ p + 4 < stop then
      (m.dword (p + 4)).map fun n => p + 4 * n.toNat
    else some (p + 4 * if ilen tok = 0 then 1 else (ilen tok).toNat)

def readOperands : (n : Nat) → Nat → Option (List Operand × Nat)
  | 0, p => some ([], p)
  | n + 1, p =>
    (readOperand ops p).bind fun (o, q) =>
    (readOperands n q).map fun (os, r) => (o :: os, r)

/-- The instruction at `p`. -/
def readInsn (p : Nat) : Option Insn :=
  (m.dword p).bind fun tok =>
  (readOperands ops (operandCount tok) (p + 4)).bind fun (operands, q) =>
    if hasTrailing tok then (m.dword q).map fun v => ⟨tok, operands, some v⟩
    else some ⟨tok, operands, none⟩

/-- One turn of the token loop. -/
def turn (p : Nat) : Option (Insn × Nat) :=
  (next m stop p).bind fun q => (readInsn m ops p).map fun insn => (insn, q)

end

-- ---------------------------------------------------------------------------
-- The container
-- ---------------------------------------------------------------------------

def fourcc (a b c d : Char) : U32 :=
  BitVec.ofNat 32 (a.toNat + 256 * b.toNat + 65536 * c.toNat + 16777216 * d.toNat)

section
variable (m : Memory) (size : U32)

/-- `wg_dxbc_is_dxbc`, of a pointer that is not NULL. -/
def isDxbc : Option Bool :=
  if size < 4 then some false else (m.dword 0).map fun magic => magic == fourcc 'D' 'X' 'B' 'C'

/-- The loop of `find_chunk` at entry `i`. -/
def scanChunks (tag : U32) : (left i : Nat) → Option (Option (Nat × U32))
  | 0, _ => some none
  | left + 1, i =>
    (m.dword (32 + 4 * i)).bind fun off =>
      if size < off + 8 then scanChunks tag left (i + 1)
      else
        (m.dword off.toNat).bind fun ctag =>
        (m.dword (off.toNat + 4)).bind fun csize =>
          if ctag = tag then some (some (off.toNat + 8, csize)) else scanChunks tag left (i + 1)

/-- `find_chunk`: where the data of a chunk stands, and its size. -/
def findChunk (tag : U32) : Option (Option (Nat × U32)) :=
  if size < 32 then some none
  else
    (m.dword 28).bind fun chunkCount =>
      if size < 32 + chunkCount * 4 then some none
      else scanChunks m size tag chunkCount.toNat 0

/-- The token stream of a blob: its chunk, and `c.p` and `c.end` before the loop. -/
structure Program where
  chunk : Nat
  chunkSize : U32
  isPixel : Bool
  start : Nat
  stop : Nat
  deriving DecidableEq, Repr

/-- The SHEX chunk, or else the SHDR chunk. -/
def findShader : Option (Option (Nat × U32)) :=
  (findChunk m size (fourcc 'S' 'H' 'E' 'X')).bind fun sh =>
    match sh with
    | some found => some (some found)
    | none => findChunk m size (fourcc 'S' 'H' 'D' 'R')

/-- The two dwords before the tokens; a length of 0 leaves that of the chunk. -/
def readHeader (sh : Nat) (shsz : U32) : Option Program :=
  (m.dword sh).bind fun ver =>
  (m.dword (sh + 4)).bind fun len =>
    some {
      chunk := sh, chunkSize := shsz
      isPixel := bits ver 16 0xffff == 0
      start := sh + 8
      stop := sh + 4 * (if len ≠ 0 then len.toNat else shsz.toNat / 4) }

/-- `wg_dxbc_to_msl` up to the token loop; nothing when it returns NULL. -/
def program : Option (Option Program) :=
  (isDxbc m size).bind fun ok =>
    if !ok then some none
    else
      (findShader m size).bind fun sh =>
        match sh with
        | none => some none
        | some (sh, shsz) => (readHeader m sh shsz).map some

end

/-- A blob alone: nothing is mapped behind its `size` bytes. -/
def blob (d : Buffer) : Memory where
  dword a := d.load32 a
  limit := d.size
  mapped a ha := by
    rw [Buffer.load32, Buffer.load, if_neg (by omega), Option.map_none]

end WineGlass.Dxbc
