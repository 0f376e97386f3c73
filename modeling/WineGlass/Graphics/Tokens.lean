import Mathlib.Data.Nat.Notation

/-!
# Shader tokens

The token stream of `wg_dxbc.c`: dwords at byte offsets from the blob, opcodes,
and `read_operand`. The memory may go on behind the blob; where it ends, a read
faults (`none`).
-/

namespace WineGlass.Dxbc

abbrev U32 := BitVec 32

/-- The dwords that can be read, by byte offset. -/
structure Memory where
  dword : Nat → Option U32
  limit : Nat
  mapped : ∀ a, limit ≤ a → dword a = none

-- ---------------------------------------------------------------------------
-- Operands
-- ---------------------------------------------------------------------------

/-- The operand types with tokens of their own kind behind them. -/
def otImm32 : U32 := 4
def otImm64 : U32 := 5

/-- `(tok >> lo) & mask`. -/
def bits (tok : U32) (lo : Nat) (mask : U32) : U32 := (tok >>> lo) &&& mask

def operandType (tok : U32) : U32 := bits tok 12 0xff
def numComp (tok : U32) : U32 := bits tok 0 0x3
def selMode (tok : U32) : U32 := bits tok 2 0x3
def indexDim (tok : U32) : Nat := (bits tok 20 0x3).toNat

/-- How index `d` is represented. -/
def rep (tok : U32) (d : Nat) : Nat := (bits tok (22 + d * 3) 0x7).toNat

/-- One dimension's `idx`, with `rel_str` where it is relative. -/
structure Index where
  idx : U32
  rel : Option String
  deriving DecidableEq, Repr

/-- `Operand`; immediates are kept as their bits. -/
structure Operand where
  type : U32
  numComp : U32
  selMode : U32
  mask : U32
  sw : List U32
  sel1 : U32
  index : List Index
  imm : List U32
  modifier : U32
  deriving DecidableEq, Repr

/-- What the operand token itself says. -/
def ofToken (tok modifier : U32) : Operand :=
  let wide := numComp tok = 2
  { type := operandType tok, numComp := numComp tok, selMode := selMode tok
    mask := if wide ∧ selMode tok = 0 then bits tok 4 0xf else 0
    sw :=
      if wide ∧ selMode tok = 1 then (List.range 4).map fun i => bits tok (4 + i * 2) 0x3
      else [0, 0, 0, 0]
    sel1 := if wide ∧ selMode tok ≠ 0 ∧ selMode tok ≠ 1 then bits tok 4 0x3 else 0
    index := [], imm := [], modifier }

/-- `"int(r%d.%c)"` of the first index and the first swizzle letter. -/
def relStr (o : Operand) : String :=
  "int(r" ++ toString ((o.index.map Index.idx).headD 0).toInt ++ "." ++
    (["x", "y", "z", "w"].getD (o.sw.headD 0).toNat "x") ++ ")"

/-- The extended tokens that follow `tok`: the last modifier among them. -/
def readExtensions (m : Memory) : (fuel : Nat) → (tok modifier : U32) → Nat → Option (U32 × Nat)
  | 0, _, _, _ => none
  | fuel + 1, tok, modifier, p =>
    if tok.msb then
      (m.dword p).bind fun ext =>
        readExtensions m fuel ext (if ext &&& 0x3 = 1 then bits ext 6 0xff else modifier) (p + 4)
    else some (modifier, p)

def readDwords (m : Memory) : (n : Nat) → Nat → Option (List U32)
  | 0, _ => some []
  | n + 1, p => (m.dword p).bind fun u => (readDwords m n (p + 4)).map fun us => u :: us

/-- How many dwords an immediate takes, each of `w`. -/
def immCount (tok : U32) (w : Nat) : Nat := if numComp tok = 2 then 4 * w else w

section
variable (read : Nat → Option (Operand × Nat)) (m : Memory)

/-- One turn of the index loop; `read` reads a nested operand. -/
def readIndex (r p : Nat) : Option (Index × Nat) :=
  if r = 0 then (m.dword p).map fun v => (⟨v, none⟩, p + 4)
  else if r = 1 then (m.dword p).map fun v => (⟨v, none⟩, p + 8)
  else if r = 2 then (read p).map fun (o, q) => (⟨0, some (relStr o)⟩, q)
  else if r = 3 then
    (m.dword p).bind fun v => (read (p + 4)).map fun (o, q) => (⟨v, some (relStr o)⟩, q)
  else some (⟨0, none⟩, p)

/-- The index loop at dimension `d` with `left` to go. -/
def readIndices (tok : U32) : (left d p : Nat) → Option (List Index × Nat)
  | 0, _, p => some ([], p)
  | left + 1, d, p =>
    (readIndex read m (rep tok d) p).bind fun (i, q) =>
    (readIndices tok left (d + 1) q).map fun (is, q) => (i :: is, q)

/-- The body of `read_operand`. -/
def operandBody (p : Nat) : Option (Operand × Nat) :=
  (m.dword p).bind fun tok =>
  (readExtensions m (m.limit + 1) tok 0 (p + 4)).bind fun (modifier, q) =>
    if operandType tok = otImm32 then
      (readDwords m (immCount tok 1) q).map fun imm =>
        ({ ofToken tok modifier with imm }, q + 4 * immCount tok 1)
    else if operandType tok = otImm64 then some (ofToken tok modifier, q + 4 * immCount tok 2)
    else
      (readIndices read m tok (indexDim tok) 0 q).map fun (index, q) =>
        ({ ofToken tok modifier with index }, q)

end

/-- `read_operand` with operands nested `fuel` deep. -/
def readOperandIn (m : Memory) : (fuel : Nat) → Nat → Option (Operand × Nat)
  | 0, _ => none
  | fuel + 1, p => operandBody (readOperandIn m fuel) m p

/-- `read_operand` at `p`: a memory has no room for deeper nesting. -/
def readOperand (m : Memory) (p : Nat) : Option (Operand × Nat) :=
  readOperandIn m (m.limit + 1) p

end WineGlass.Dxbc
