import WineGlass.Graphics.Emit

/-!
# Two meanings of an integer instruction

Registers hold 32-bit patterns. `Stmt.exec` is what Metal makes of an emitted
assignment, `Instr.dx` what Shader Model 4 and 5 say the instruction does; both
for the moves, the integer operations and the integer comparisons. What Metal
computes in floating point is the device's.
-/

namespace WineGlass.Dxbc

/-- The registers that instructions write. -/
inductive Slot
  | temp (n : Int) | output (n : Int)
  deriving DecidableEq

abbrev Regs := Slot → Nat → U32

/-- What a shader only reads; a constant buffer by bank, index and component. -/
structure Env where
  input : Int → Nat → U32
  cb : Int → Int → Nat → U32

/-- Floating point on the device: `saturate(x)`, `x != y` and `int(x)`. -/
structure Device where
  saturate : U32 → U32
  ne : U32 → U32 → Bool
  toInt : U32 → Int

/-- The signs of a float: negation and absolute value keep all other bits. -/
def flip (x : U32) : U32 := x ^^^ 0x80000000
def absolute (x : U32) : U32 := x &&& 0x7fffffff

/-- The pattern of 1.0. -/
def oneBits : U32 := 0x3f800000

def Regs.write (regs : Regs) (s : Option Slot) (ps : List Nat) (f : Nat → U32) : Regs :=
  fun t c => if s = some t ∧ c ∈ ps then f c else regs t c

-- ---------------------------------------------------------------------------
-- Metal
-- ---------------------------------------------------------------------------

/-- A scalar or vector; an `int` and a `uint` are their patterns too. -/
inductive Val
  | num (t : Ty) (xs : List U32)
  | bools (bs : List Bool)
  deriving DecidableEq

/-- A shift is by its amount mod 32, of an `int` to the right arithmetic. -/
def BinOp.arith : Ty → BinOp → Option (U32 → U32 → U32)
  | .int, .add | .uint, .add => some fun a b => a + b
  | .int, .mul | .uint, .mul => some fun a b => a * b
  | .int, .and | .uint, .and => some fun a b => a &&& b
  | .int, .or | .uint, .or => some fun a b => a ||| b
  | .int, .xor | .uint, .xor => some fun a b => a ^^^ b
  | .int, .shl | .uint, .shl => some fun a b => a <<< (b.toNat % 32)
  | .int, .shr => some fun a b => a.sshiftRight (b.toNat % 32)
  | .uint, .shr => some fun a b => a >>> (b.toNat % 32)
  | _, _ => none

def BinOp.test (D : Device) : Ty → BinOp → Option (U32 → U32 → Bool)
  | .int, .eq | .uint, .eq => some fun a b => a == b
  | .int, .ne | .uint, .ne => some fun a b => a != b
  | .int, .lt => some fun a b => a.slt b
  | .int, .ge => some fun a b => !a.slt b
  | .uint, .lt => some fun a b => a.ult b
  | .uint, .ge => some fun a b => !a.ult b
  | .float, .ne => some D.ne
  | _, _ => none

def Val.binary (D : Device) (o : BinOp) : Val → Val → Option Val
  | .num t xs, .num u ys =>
    if t = u ∧ xs.length = ys.length then
      match o.arith t with
      | some f => some (.num t (List.zipWith f xs ys))
      | none => (o.test D t).map fun f => .bools (List.zipWith f xs ys)
    else none
  | _, _ => none

/-- `select(a, b, c)`: `b` where `c` holds. -/
def Val.select : Val → Val → Val → Option Val
  | .num t xs, .num u ys, .bools bs =>
    if t = u ∧ xs.length = ys.length ∧ xs.length = bs.length then
      some (.num t (List.zipWith (fun p b => if b then p.2 else p.1) (xs.zip ys) bs))
    else none
  | _, _, _ => none

def Fn2.int : Fn2 → Option (U32 → U32 → U32)
  | .min => some fun a b => if a.slt b then a else b
  | .max => some fun a b => if a.slt b then b else a
  | .dot => none

section
variable (D : Device) (env : Env) (regs : Regs)

def Base.read : Base → Nat → U32
  | .temp n => regs (.temp n)
  | .input n => env.input n
  | .output n => regs (.output n)
  | .cb bank idx => env.cb bank idx
  | .cbRel bank reg comp => env.cb bank (D.toInt (regs (.temp reg) comp))
  | .zero => fun _ => 0

def Base.slot : Base → Option Slot
  | .temp n => some (.temp n)
  | .output n => some (.output n)
  | _ => none

/-- `none` for what integer instructions do not print. -/
@[simp] def Expr.eval : Expr → Option Val
  | .reg b comps => some (.num .float (comps.map (b.read D env regs)))
  | .neg e =>
    match e.eval with
    | some (.num .float xs) => some (.num .float (xs.map flip))
    | _ => none
  | .abs e =>
    match e.eval with
    | some (.num .float xs) => some (.num .float (xs.map absolute))
    | _ => none
  | .minus e =>
    match e.eval with
    | some (.num .int xs) => some (.num .int (xs.map fun x => -x))
    | _ => none
  | .compl e =>
    match e.eval with
    | some (.num .uint xs) => some (.num .uint (xs.map fun x => ~~~x))
    | _ => none
  | .splat n one => some (.num .float (List.replicate n (if one then oneBits else 0)))
  | .asType t n e =>
    match e.eval with
    | some (.num _ xs) => if xs.length = n then some (.num t xs) else none
    | _ => none
  | .fn2 f a b =>
    match a.eval, b.eval, f.int with
    | some (.num .int xs), some (.num .int ys), some g =>
      if xs.length = ys.length then some (.num .int (List.zipWith g xs ys)) else none
    | _, _, _ => none
  | .binary o a b => a.eval.bind fun x => b.eval.bind fun y => x.binary D o y
  | .select a b c =>
    a.eval.bind fun x => b.eval.bind fun y => c.eval.bind fun z => x.select y z
  | _ => none

/-- An assignment gives each component of the mask its own; other statements are not printed. -/
def Stmt.exec : Stmt → Option Regs
  | .assign d mask sat rhs =>
    match rhs.eval D env regs, d.slot with
    | some (.num .float xs), some s =>
      if xs.length = mask.length then
        let ys := if sat then xs.map D.saturate else xs
        some fun t c => if s = t then ((mask.zip ys).lookup c).getD (regs t c) else regs t c
      else none
    | _, _ => none
  | _ => none

end

/-- The statements of a straight-line body, to the first `return`. -/
def runMsl (D : Device) (env : Env) : List Stmt → Regs → Option Regs
  | [], regs => some regs
  | s :: ss, regs =>
    if s = retLine then some regs else (s.exec D env regs).bind (runMsl D env ss)

-- ---------------------------------------------------------------------------
-- Shader Model 4 and 5
-- ---------------------------------------------------------------------------

/-- The component of a source, or of an operand it is relative to, for that of the destination. -/
def Operand.select (o : Operand) (p : Nat) : Nat := if o.selMode = 1 then o.comp p else o.sel1.toNat

def Arg.slot (a : Arg) : Option Slot :=
  if a.op.type = otTemp then some (.temp a.op.number)
  else if a.op.type = otOutput then some (.output a.op.number)
  else none

/-- The integer operations of two sources. -/
def Op.alu : Op → Option (U32 → U32 → U32)
  | .iadd => some fun a b => a + b
  | .and => some fun a b => a &&& b
  | .or => some fun a b => a ||| b
  | .xor => some fun a b => a ^^^ b
  | .ishl => some fun a b => a <<< (b.toNat % 32)
  | .ishr => some fun a b => a.sshiftRight (b.toNat % 32)
  | .ushr => some fun a b => a >>> (b.toNat % 32)
  | .imin => some fun a b => if a.slt b then a else b
  | .imax => some fun a b => if a.slt b then b else a
  | _ => none

def Op.compare : Op → Option (U32 → U32 → Bool)
  | .ieq => some fun a b => a == b
  | .ine => some fun a b => a != b
  | .ilt => some fun a b => a.slt b
  | .ige => some fun a b => !a.slt b
  | _ => none

def Op.alu1 : Op → Option (U32 → U32)
  | .ineg => some fun a => -a
  | .not => some fun a => ~~~a
  | _ => none

/-- The high half of the signed product. -/
def mulHigh (a b : U32) : U32 := BitVec.ofInt 32 (a.toInt * b.toInt / 2 ^ 32)

section
variable (D : Device) (env : Env) (regs : Regs)

/-- An index, with the register that it is relative to added. -/
def Arg.address (a : Arg) (d : Nat) : U32 :=
  match a.rel d with
  | some o => a.op.idx d + regs (.temp o.number) (o.select 0)
  | none => a.op.idx d

def Arg.read (a : Arg) (p : Nat) : U32 :=
  if a.op.type = otTemp then regs (.temp a.op.number) (a.op.select p)
  else if a.op.type = otInput then env.input (a.address regs 0).toInt (a.op.select p)
  else if a.op.type = otCbuffer then
    env.cb a.op.number (a.address regs 1).toInt (a.op.select p)
  else 0

/-- A source of an integer instruction: the modifier negates it as an integer. -/
def Arg.int (a : Arg) (p : Nat) : U32 :=
  if a.op.modifier = 1 then -a.read env regs p else a.read env regs p

def floatModified (modifier x : U32) : U32 :=
  if modifier = 1 then flip x
  else if modifier = 2 then absolute x
  else if modifier = 3 then flip (absolute x)
  else x

/-- A source of a move: the modifier takes it for a float. -/
def Arg.float (a : Arg) (p : Nat) : U32 := floatModified a.op.modifier (a.read env regs p)

def saturated (sat : Bool) (x : U32) : U32 := if sat then D.saturate x else x

/-- A true comparison gives all ones; MOVC looks at every bit of its condition. -/
def Op.dx (sat : Bool) : Op → List Arg → Regs
  | .mov, [od, oa] => regs.write od.slot (dest od) fun p => saturated D sat (oa.float env regs p)
  | .movc, [od, oa, ob, oc] =>
    regs.write od.slot (dest od) fun p =>
      saturated D sat
        (if oa.int env regs p ≠ 0 then ob.float env regs p else oc.float env regs p)
  | .imul, [ohi, olo, oa, ob] =>
    (regs.write ohi.slot (dest ohi) fun p =>
        mulHigh (oa.int env regs p) (ob.int env regs p)).write olo.slot (dest olo) fun p =>
      oa.int env regs p * ob.int env regs p
  | op, [od, oa] =>
    match op.alu1 with
    | some f => regs.write od.slot (dest od) fun p => f (oa.int env regs p)
    | none => regs
  | op, [od, oa, ob] =>
    match op.alu, op.compare with
    | some f, _ => regs.write od.slot (dest od) fun p => f (oa.int env regs p) (ob.int env regs p)
    | none, some f =>
      regs.write od.slot (dest od) fun p =>
        if f (oa.int env regs p) (ob.int env regs p) then BitVec.allOnes 32 else 0
    | none, none => regs
  | _, _ => regs

def Instr.dx (i : Instr) : Regs :=
  match i.op with
  | some op => op.dx D env regs (i.token.getLsbD 13) i.args
  | none => regs

end

/-- The instructions of a straight-line shader, to the first RET. -/
def runDx (D : Device) (env : Env) : List Instr → Regs → Regs
  | [], regs => regs
  | i :: is, regs => if i.op = some .ret then regs else runDx D env is (i.dx D env regs)

end WineGlass.Dxbc
