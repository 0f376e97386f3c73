import WineGlass.Graphics.Msl
import WineGlass.Lib.CInt

/-!
# Emitting MSL

The switch of `wg_dxbc_to_msl` on decoded instructions, and the assembly of the
source around the body. A case prints statements and passes operands through
`operand_base`, which marks their registers in `Ctx`; the declarations of the
shader mark registers too, and the prologue is printed from the marks.
-/

namespace WineGlass.Dxbc

open CInt

def otTemp : U32 := 0
def otInput : U32 := 1
def otOutput : U32 := 2
def otCbuffer : U32 := 8
def otNull : U32 := 13

-- ---------------------------------------------------------------------------
-- Operands
-- ---------------------------------------------------------------------------

/-- `idx[d]`, 0 where there is no such dimension. -/
def Operand.idx (o : Operand) (d : Nat) : U32 := (o.index.map Index.idx).getD d 0

/-- `idx[0]`, as `%d` prints it. -/
def Operand.number (o : Operand) : Int := (o.idx 0).toInt

/-- `sw[i]`. -/
def Operand.comp (o : Operand) (i : Nat) : Nat := (o.sw.getD i 0).toNat

/-- The operand that index `d` is relative to, where it is. -/
def Arg.rel (a : Arg) (d : Nat) : Option Operand := a.refs[d]?.bind Ref.rel

def operandBase (a : Arg) : Base :=
  if a.op.type = otTemp then .temp a.op.number
  else if a.op.type = otInput then .input a.op.number
  else if a.op.type = otOutput then .output a.op.number
  else if a.op.type = otCbuffer then
    match a.rel 1 with
    | some o => .cbRel a.op.number o.number (o.comp 0)
    | none => .cb a.op.number (a.op.idx 1).toInt
  else .zero

/-- The components that a source gives for the destination's `pos`. -/
def sourceComps (o : Operand) (pos : List Nat) : List Nat :=
  if o.numComp = 2 ∧ o.selMode = 1 then pos.map o.comp
  else if o.numComp = 2 ∧ o.selMode = 2 then pos.map fun _ => o.sel1.toNat
  else if o.numComp = 1 then [0]
  else pos

def immNumbers (o : Operand) (pos : List Nat) : List U32 :=
  if pos.length ≤ 1 then [o.imm.getD 0 0]
  else pos.map fun p => o.imm.getD (if o.imm.length = 1 then 0 else p) 0

def modified (modifier : U32) (e : Expr) : Expr :=
  if modifier = 1 then .neg e
  else if modifier = 2 then .abs e
  else if modifier = 3 then .neg (.abs e)
  else e

def srcStr (a : Arg) (pos : List Nat) : Expr :=
  modified a.op.modifier
    (if a.op.type = otImm32 then .imm (immNumbers a.op pos)
    else .reg (operandBase a) (sourceComps a.op pos))

-- ---------------------------------------------------------------------------
-- The cases
-- ---------------------------------------------------------------------------

/-- What a case prints, and the operands it passes through `operand_base`. -/
structure Code where
  based : List Arg := []
  stmts : List Stmt := []

def dest (a : Arg) : List Nat := positions a.op.mask

def assign (od : Arg) (sat : Bool) (rhs : Expr) : Stmt := .assign (operandBase od) (dest od) sat rhs

/-- Cases with one, two or three sources for each component of the destination. -/
def unary (sat : Bool) (rhs : Nat → Expr → Expr) (od oa : Arg) : Code where
  based := [od, oa]
  stmts := [assign od sat (rhs (dest od).length (srcStr oa (dest od)))]

def binary (sat : Bool) (rhs : Nat → Expr → Expr → Expr) (od oa ob : Arg) : Code where
  based := [od, oa, ob]
  stmts :=
    [assign od sat (rhs (dest od).length (srcStr oa (dest od)) (srcStr ob (dest od)))]

def ternary (sat : Bool) (rhs : Nat → Expr → Expr → Expr → Expr) (od oa ob oc : Arg) : Code where
  based := [od, oa, ob, oc]
  stmts :=
    [assign od sat
      (rhs (dest od).length (srcStr oa (dest od)) (srcStr ob (dest od)) (srcStr oc (dest od)))]

def dotCase (sat : Bool) (n : Nat) (od oa ob : Arg) : Code where
  based := [od, oa, ob]
  stmts := [assign od sat (.fn2 .dot (srcStr oa (List.range n)) (srcStr ob (List.range n)))]

def movcRhs (n : Nat) (s0 s1 s2 : Expr) : Expr := .select s2 s1 (.binary .ne s0 (.splat n false))

/-- `as_type<float>(as_type<t>(s0) op as_type<t>(s1))`. -/
def bitwise (t : Ty) (o : BinOp) (n : Nat) (s0 s1 : Expr) : Expr :=
  .asType .float n (.binary o (.asType t n s0) (.asType t n s1))

def chosen (n : Nat) (cond : Expr) : Expr := .select (.splat n false) (.splat n true) cond

def floatCompare (o : BinOp) (n : Nat) (s0 s1 : Expr) : Expr := chosen n (.binary o s0 s1)

def intCompare (o : BinOp) (n : Nat) (s0 s1 : Expr) : Expr :=
  chosen n (.binary o (.asType .int n s0) (.asType .int n s1))

def intMinMax (f : Fn2) (n : Nat) (s0 s1 : Expr) : Expr :=
  .asType .float n (.fn2 f (.asType .int n s0) (.asType .int n s1))

def imulCase (_ohi olo oa ob : Arg) : Code :=
  if olo.op.type = otNull then {} else binary false (bitwise .int .mul) olo oa ob

def sincosHalf (f : Fn) (od osrc : Arg) : Code :=
  if od.op.type = otNull then {} else unary false (fun _ e => .fn f e) od osrc

def sincosCase (osin ocos osrc : Arg) : Code where
  based := (sincosHalf .sin osin osrc).based ++ (sincosHalf .cos ocos osrc).based
  stmts := (sincosHalf .sin osin osrc).stmts ++ (sincosHalf .cos ocos osrc).stmts

def sampleCase (od oc ores osmp : Arg) : Code where
  based := [od, oc]
  stmts := [assign od false
    (.member (.sample ores.op.number osmp.op.number (srcStr oc [0, 1])) (dest od))]

def sampleBCase (od oc ores osmp ob : Arg) : Code where
  based := [od, oc, ob]
  stmts := [assign od false
    (.member (.sampleBias ores.op.number osmp.op.number (srcStr oc [0, 1]) (srcStr ob [0]))
      (dest od))]

def sampleCCase (od oc ores osmp oref : Arg) : Code where
  based := [od, oc, oref]
  stmts := [assign od false
    (.sampleCompare ores.op.number osmp.op.number (srcStr oc [0, 1]) (srcStr oref [0]))]

def ldCase (od oaddr ores : Arg) : Code where
  based := [od, oaddr, oaddr]
  stmts := [assign od false
    (.member
      (.read ores.op.number (.convert .uint 2 (.asType .int 2 (srcStr oaddr [0, 1])))
        (.asType .uint 1 (srcStr oaddr [2])))
      (dest od))]

def resinfoCase (od _omip ores : Arg) : Code where
  based := [od]
  stmts := [assign od false (.member (.dimensions ores.op.number) (dest od))]

def testCase (nonzero : Bool) (tail : String) (o : Arg) : Code where
  based := [o]
  stmts := [.test (srcStr o [0]) nonzero tail]

def switchCase (o : Arg) : Code where
  based := [o]
  stmts := [.switch (.asType .int 1 (srcStr o [0]))]

def caseLabel (o : Arg) : Code where
  stmts := [.line ("  case " ++ toString (o.op.imm.getD 0 0).toInt ++ ":\n")]

def line (s : String) : Code where
  stmts := [.line s]

def with1 (f : Arg → Code) : List Arg → Code
  | [a] => f a
  | _ => {}

def with2 (f : Arg → Arg → Code) : List Arg → Code
  | [a, b] => f a b
  | _ => {}

def with3 (f : Arg → Arg → Arg → Code) : List Arg → Code
  | [a, b, c] => f a b c
  | _ => {}

def with4 (f : Arg → Arg → Arg → Arg → Code) : List Arg → Code
  | [a, b, c, d] => f a b c d
  | _ => {}

def with5 (f : Arg → Arg → Arg → Arg → Arg → Code) : List Arg → Code
  | [a, b, c, d, e] => f a b c d e
  | _ => {}

/-- The case of an opcode; `sat` and `nz` are bits 13 and 18 of its token. -/
def Op.code (sat nz : Bool) : Op → List Arg → Code
  | .mov => with2 (unary sat fun _ e => e)
  | .frc => with2 (unary sat fun _ e => .fn .fract e)
  | .exp => with2 (unary sat fun _ e => .fn .exp2 e)
  | .log => with2 (unary sat fun _ e => .fn .log2 e)
  | .rsq => with2 (unary sat fun _ e => .fn .rsqrt e)
  | .sqrt => with2 (unary sat fun _ e => .fn .sqrt e)
  | .roundNe => with2 (unary sat fun _ e => .fn .rint e)
  | .roundNi => with2 (unary sat fun _ e => .fn .floor e)
  | .roundPi => with2 (unary sat fun _ e => .fn .ceil e)
  | .roundZ => with2 (unary sat fun _ e => .fn .trunc e)
  | .derivRtx => with2 (unary sat fun _ e => .fn .dfdx e)
  | .derivRty => with2 (unary sat fun _ e => .fn .dfdy e)
  | .add => with3 (binary sat fun _ => .binary .add)
  | .mul => with3 (binary sat fun _ => .binary .mul)
  | .div => with3 (binary sat fun _ => .binary .div)
  | .min => with3 (binary sat fun _ => .fn2 .min)
  | .max => with3 (binary sat fun _ => .fn2 .max)
  | .mad => with4 (ternary sat fun _ => .fma)
  | .movc => with4 (ternary sat movcRhs)
  | .dp2 => with3 (dotCase sat 2)
  | .dp3 => with3 (dotCase sat 3)
  | .dp4 => with3 (dotCase sat 4)
  | .sample => with4 sampleCase
  | .sampleL => with5 fun od oc ores osmp _ => sampleCase od oc ores osmp
  | .eq => with3 (binary false (floatCompare .eq))
  | .ge => with3 (binary false (floatCompare .ge))
  | .lt => with3 (binary false (floatCompare .lt))
  | .ne => with3 (binary false (floatCompare .ne))
  | .iadd => with3 (binary false (bitwise .int .add))
  | .ishl => with3 (binary false (bitwise .int .shl))
  | .ishr => with3 (binary false (bitwise .int .shr))
  | .ushr => with3 (binary false (bitwise .uint .shr))
  | .and => with3 (binary false (bitwise .uint .and))
  | .or => with3 (binary false (bitwise .uint .or))
  | .xor => with3 (binary false (bitwise .uint .xor))
  | .ineg => with2 (unary false fun n e => .asType .float n (.minus (.asType .int n e)))
  | .not => with2 (unary false fun n e => .asType .float n (.compl (.asType .uint n e)))
  | .imul => with4 imulCase
  | .ftoi => with2 (unary false fun n e => .asType .float n (.convert .int n e))
  | .ftou => with2 (unary false fun n e => .asType .float n (.convert .uint n e))
  | .itof => with2 (unary false fun n e => .convert .float n (.asType .int n e))
  | .utof => with2 (unary false fun n e => .convert .float n (.asType .uint n e))
  | .sincos => with3 sincosCase
  | .imin => with3 (binary false (intMinMax .min))
  | .imax => with3 (binary false (intMinMax .max))
  | .ieq => with3 (binary false (intCompare .eq))
  | .ige => with3 (binary false (intCompare .ge))
  | .ilt => with3 (binary false (intCompare .lt))
  | .ine => with3 (binary false (intCompare .ne))
  | .ld => with3 ldCase
  | .sampleB => with5 sampleBCase
  | .sampleC | .sampleCLz => with5 sampleCCase
  | .resinfo => with3 resinfoCase
  | .switch => with1 switchCase
  | .case => with1 caseLabel
  | .if => with1 (testCase nz " \x7b\n")
  | .breakc => with1 (testCase nz " break;\n")
  | .discard => with1 (testCase nz " discard_fragment();\n")
  | .default => fun _ => line "  default:\n"
  | .endswitch | .endif | .endloop => fun _ => line "  \x7d\n"
  | .else => fun _ => line "  \x7d else \x7b\n"
  | .loop => fun _ => line "  while (true) \x7b\n"
  | .break => fun _ => line "  break;\n"
  | .continue => fun _ => line "  continue;\n"
  | .ret => fun _ => { stmts := [retLine] }
  | .dclTemps | .dclGlobalflags | .dclCb | .dclSampler | .dclResource | .dclInput | .dclInputPs
  | .dclInputSiv | .dclInputPsSiv | .dclOutput | .dclOutputSiv => fun _ => {}

def Instr.code (i : Instr) : Code :=
  match i.op with
  | some op => op.code (i.token.getLsbD 13) (i.token.getLsbD 18) i.args
  | none => line ("  // unhandled opcode " ++ toString (opcode i.token).toNat ++ "\n")

-- ---------------------------------------------------------------------------
-- The marks
-- ---------------------------------------------------------------------------

structure Ctx where
  ntemps : Int
  inUsed : U32
  outUsed : U32
  cbUsed : U32
  resUsed : U32
  sampUsed : U32
  depthRes : U32
  outPosReg : Int
  inSivPos : Int → Bool

/-- The array has 8 entries; `behind` is what is read past it. -/
def Ctx.init (behind : Int → Bool) : Ctx where
  ntemps := 0
  inUsed := 0
  outUsed := 0
  cbUsed := 0
  resUsed := 0
  sampUsed := 0
  depthRes := 0
  outPosReg := -1
  inSivPos n := if n < 8 then false else behind n

/-- `if (n < limit) used |= 1u << n`. -/
def mark (limit : Int) (n used : U32) : U32 :=
  if n.toInt < limit then used ||| (1 : U32) <<< n.toNat else used

/-- The marks of `operand_base`. -/
def Ctx.base (c : Ctx) (a : Arg) : Ctx :=
  let n := a.op.idx 0
  if a.op.type = otTemp then
    { c with ntemps := if c.ntemps < cInt (n.toInt + 1) then cInt (n.toInt + 1) else c.ntemps }
  else if a.op.type = otInput then { c with inUsed := mark 32 n c.inUsed }
  else if a.op.type = otOutput then { c with outUsed := mark 32 n c.outUsed }
  else if a.op.type = otCbuffer then { c with cbUsed := mark 32 n c.cbUsed }
  else c

/-- `idx[0]` of the operand at `k`. -/
def Instr.idx (i : Instr) (k : Nat) : U32 := (i.args[k]?.map fun a => a.op.idx 0).getD 0

/-- The value that is looked at behind the operands. -/
def Instr.sv (i : Instr) : U32 := i.trailing.getD 0

/-- What the cases do to the marks beside `operand_base`. -/
def Ctx.declare (c : Ctx) (i : Instr) : Ctx :=
  let n := i.idx 0
  match i.op with
  | some .dclTemps => { c with ntemps := i.sv.toInt }
  | some .dclCb => { c with cbUsed := mark 32 n c.cbUsed }
  | some .dclSampler => { c with sampUsed := mark 32 n c.sampUsed }
  | some .dclResource => { c with resUsed := mark 32 n c.resUsed }
  | some .dclInput | some .dclInputPs => { c with inUsed := mark 32 n c.inUsed }
  | some .dclInputSiv | some .dclInputPsSiv =>
    { c with
      inSivPos := fun k => if n.toInt < 8 ∧ i.sv = 1 ∧ k = n.toInt then true else c.inSivPos k
      inUsed := mark 32 n c.inUsed }
  | some .dclOutput => { c with outUsed := mark 32 n c.outUsed }
  | some .dclOutputSiv =>
    { c with
      outPosReg := if i.sv = 1 then n.toInt else c.outPosReg
      outUsed := mark 32 n c.outUsed }
  | some .sampleC | some .sampleCLz => { c with depthRes := mark 16 (i.idx 2) c.depthRes }
  | _ => c

def Ctx.step (c : Ctx) (i : Instr) : Ctx := i.code.based.foldl Ctx.base (c.declare i)

-- ---------------------------------------------------------------------------
-- Assembly
-- ---------------------------------------------------------------------------

def marked (n : Nat) (used : U32) : List Nat := (List.range n).filter fun i => used.getLsbD i

def field (i : Ident) (attr : String) : List Piece :=
  [.text "  float4 ", .decl i, .text (" [[" ++ attr ++ "]];\n")]

def numbered (attr : String) (n : Nat) : String := attr ++ "(" ++ toString n ++ ")"

def struct (name : String) (fields : List Piece) : List Piece :=
  .text ("struct " ++ name ++ " \x7b\n") :: fields ++ [.text "\x7d;\n"]

def inputFields (c : Ctx) (isPixel : Bool) : List Piece :=
  (marked 32 c.inUsed).flatMap fun (i : Nat) => field (.input i)
    (if !isPixel then numbered "attribute" i
    else if c.inSivPos i then "position" else "user(locn" ++ toString i ++ ")")

def outputFields (c : Ctx) (isPixel : Bool) : List Piece :=
  if isPixel then (marked 8 c.outUsed).flatMap fun (i : Nat) => field (.output i) (numbered "color" i)
  else
    (marked 32 c.outUsed).flatMap fun (i : Nat) => field (.output i)
      (if i = c.outPosReg then "position" else "user(locn" ++ toString i ++ ")")

def structs (c : Ctx) (isPixel : Bool) : List Piece :=
  (if c.inUsed = 0 then []
    else struct (if isPixel then "WGPSIn" else "WGVSIn") (inputFields c isPixel)) ++
  struct (if isPixel then "WGPSOut" else "WGVSOut") (outputFields c isPixel)

def param (type : String) (i : Ident) (attr : String) : List Piece :=
  [.text (type ++ " "), .decl i, .text (" [[" ++ attr ++ "]]")]

def params (c : Ctx) (isPixel : Bool) : List (List Piece) :=
  (if c.inUsed = 0 then []
    else [[.text ((if isPixel then "WGPSIn" else "WGVSIn") ++ " in [[stage_in]]")]]) ++
  ((marked 32 c.cbUsed).map fun (i : Nat) =>
    param "constant float4*" (.cb i) (numbered "buffer" (16 + i))) ++
  ((marked 16 c.resUsed).map fun (i : Nat) =>
    param (if c.depthRes.getLsbD i then "depth2d<float>" else "texture2d<float>") (.texture i)
      (numbered "texture" i)) ++
  ((marked 16 c.sampUsed).map fun (i : Nat) => param "sampler" (.sampler i) (numbered "sampler" i))

/-- The parameters with `", "` between them. -/
def commaPieces : List (List Piece) → List Piece
  | [] => []
  | [ps] => ps
  | ps :: rest => ps ++ .text ", " :: commaPieces rest

def registers (ntemps : Int) : List Piece :=
  (List.range ntemps.toNat).flatMap fun (i : Nat) =>
    [.text "  float4 ", .decl (.temp i), .text " = float4(0.0);\n"]

/-- What is printed before the body. -/
def prologue (c : Ctx) (isPixel : Bool) : List Piece :=
  .text "#include <metal_stdlib>\nusing namespace metal;\n" :: structs c isPixel ++
  .text (if isPixel then "fragment WGPSOut wg_ps_main(" else "vertex WGVSOut wg_vs_main(") ::
    commaPieces (params c isPixel) ++
  .text ") \x7b\n" :: registers c.ntemps ++
  [.text (if isPixel then "  WGPSOut out = \x7b\x7d;\n" else "  WGVSOut out = \x7b\x7d;\n")]

def stmtsOf (is : List Instr) : List Stmt := is.flatMap fun i => i.code.stmts

/-- `wg_dxbc_to_msl` of the instructions that its loop decodes. -/
def toMsl (behind : Int → Bool) (isPixel : Bool) (is : List Instr) : List Piece :=
  prologue (is.foldl Ctx.step (.init behind)) isPixel ++ body (stmtsOf is) ++
    (if retLine ∈ stmtsOf is then [] else [.text "  return out;\n"]) ++ [.text "\x7d\n"]

def Shader.msl (s : Shader m size) (behind : Int → Bool) : List Piece :=
  toMsl behind s.prog.isPixel s.is

end WineGlass.Dxbc
