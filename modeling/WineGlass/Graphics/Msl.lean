import WineGlass.Graphics.Operands

/-!
# The emitted text

What `wg_dxbc_to_msl` prints into the body, as the expressions and statements
that its format strings are filled in with, and the text they come to: pieces
that keep apart the identifiers of registers, resources and samplers.
-/

namespace WineGlass.Dxbc

-- ---------------------------------------------------------------------------
-- Pieces of text
-- ---------------------------------------------------------------------------

/-- `rN`, `in.vN`, `out.oN`, `cbN`, `tN` and `sN`; a number is printed by `%d`. -/
inductive Ident
  | temp (n : Int) | input (n : Int) | output (n : Int) | cb (n : Int) | texture (n : Int)
  | sampler (n : Int)
  deriving DecidableEq, Repr

/-- What an identifier is called where it is declared. -/
def Ident.name : Ident → String
  | .temp n => "r" ++ toString n
  | .input n => "v" ++ toString n
  | .output n => "o" ++ toString n
  | .cb n => "cb" ++ toString n
  | .texture n => "t" ++ toString n
  | .sampler n => "s" ++ toString n

def Ident.path : Ident → String
  | .input _ => "in."
  | .output _ => "out."
  | _ => ""

/-- A number is a float's `%g`. -/
inductive Piece
  | text (s : String)
  | number (bits : U32)
  | use (i : Ident)
  | decl (i : Ident)
  deriving DecidableEq, Repr

/-- `g` is `printf`'s `%g`. -/
def Piece.string (g : U32 → String) : Piece → String
  | .text s => s
  | .number bits => g bits
  | .use i => i.path ++ i.name
  | .decl i => i.name

def Piece.used : Piece → Option Ident
  | .use i => some i
  | _ => none

def Piece.declared : Piece → Option Ident
  | .decl i => some i
  | _ => none

def uses (ps : List Piece) : List Ident := ps.filterMap Piece.used
def decls (ps : List Piece) : List Ident := ps.filterMap Piece.declared

@[simp] theorem uses_nil : uses [] = [] := rfl
@[simp] theorem uses_text : uses (.text s :: ps) = uses ps := rfl
@[simp] theorem uses_number : uses (.number b :: ps) = uses ps := rfl
@[simp] theorem uses_use : uses (.use i :: ps) = i :: uses ps := rfl
@[simp] theorem uses_decl : uses (.decl i :: ps) = uses ps := rfl
@[simp] theorem uses_append : uses (ps ++ qs) = uses ps ++ uses qs := List.filterMap_append ..

@[simp] theorem decls_nil : decls [] = [] := rfl
@[simp] theorem decls_text : decls (.text s :: ps) = decls ps := rfl
@[simp] theorem decls_number : decls (.number b :: ps) = decls ps := rfl
@[simp] theorem decls_use : decls (.use i :: ps) = decls ps := rfl
@[simp] theorem decls_decl : decls (.decl i :: ps) = i :: decls ps := rfl
@[simp] theorem decls_append : decls (ps ++ qs) = decls ps ++ decls qs := List.filterMap_append ..

-- ---------------------------------------------------------------------------
-- Expressions
-- ---------------------------------------------------------------------------

/-- One of `swz`. -/
def letter (c : Nat) : String := ["x", "y", "z", "w"].getD c "x"

def swizzle (cs : List Nat) : String := "." ++ String.join (cs.map letter)

/-- `mask_to_str`: nothing for no component. -/
def maskStr (cs : List Nat) : String := if cs = [] then "" else swizzle cs

/-- The components of a write mask. -/
def positions (mask : U32) : List Nat := (List.range 4).filter fun i => mask.getLsbD i

inductive Ty
  | float | int | uint
  deriving DecidableEq, Repr

/-- `ftype`, `itype` and `utype`. -/
def Ty.name (t : Ty) (n : Nat) : String :=
  (match t with | .float => "float" | .int => "int" | .uint => "uint") ++
    if n ≤ 1 then "" else if n = 2 then "2" else if n = 3 then "3" else "4"

inductive Fn
  | fract | exp2 | log2 | rsqrt | sqrt | rint | floor | ceil | trunc | dfdx | dfdy | sin | cos
  deriving DecidableEq, Repr

def Fn.name : Fn → String
  | .fract => "fract" | .exp2 => "exp2" | .log2 => "log2" | .rsqrt => "rsqrt" | .sqrt => "sqrt"
  | .rint => "rint" | .floor => "floor" | .ceil => "ceil" | .trunc => "trunc" | .dfdx => "dfdx"
  | .dfdy => "dfdy" | .sin => "sin" | .cos => "cos"

inductive Fn2
  | min | max | dot
  deriving DecidableEq, Repr

def Fn2.name : Fn2 → String
  | .min => "min" | .max => "max" | .dot => "dot"

inductive BinOp
  | add | mul | div | eq | ne | lt | ge | and | or | xor | shl | shr
  deriving DecidableEq, Repr

def BinOp.name : BinOp → String
  | .add => "+" | .mul => "*" | .div => "/" | .eq => "==" | .ne => "!=" | .lt => "<" | .ge => ">="
  | .and => "&" | .or => "|" | .xor => "^" | .shl => "<<" | .shr => ">>"

/-- The text of `operand_base`; a relative constant buffer has `int(rN.c)` as its index. -/
inductive Base
  | temp (n : Int) | input (n : Int) | output (n : Int)
  | cb (bank idx : Int) | cbRel (bank reg : Int) (comp : Nat) | zero
  deriving DecidableEq, Repr

def Base.pieces : Base → List Piece
  | .temp n => [.use (.temp n)]
  | .input n => [.use (.input n)]
  | .output n => [.use (.output n)]
  | .cb bank idx => [.use (.cb bank), .text ("[" ++ toString idx ++ "]")]
  | .cbRel bank reg comp =>
    [.use (.cb bank), .text "[int(", .use (.temp reg), .text ("." ++ letter comp ++ ")]")]
  | .zero => [.text "float4(0.0)"]

inductive Expr
  | imm (ns : List U32)
  | reg (b : Base) (comps : List Nat)
  | neg (e : Expr)
  | abs (e : Expr)
  | minus (e : Expr)
  | compl (e : Expr)
  | splat (n : Nat) (one : Bool)
  | asType (t : Ty) (n : Nat) (e : Expr)
  | convert (t : Ty) (n : Nat) (e : Expr)
  | fn (f : Fn) (e : Expr)
  | fn2 (f : Fn2) (a b : Expr)
  | binary (o : BinOp) (a b : Expr)
  | fma (a b c : Expr)
  | select (a b c : Expr)
  | sample (t s : Int) (coord : Expr)
  | sampleBias (t s : Int) (coord bias : Expr)
  | sampleCompare (t s : Int) (coord ref : Expr)
  | read (t : Int) (coord lod : Expr)
  | dimensions (t : Int)
  | member (e : Expr) (comps : List Nat)
  deriving DecidableEq, Repr

def commaNumbers : List U32 → List Piece
  | [] => []
  | [n] => [.number n]
  | n :: ns => .number n :: .text "," :: commaNumbers ns

def Expr.pieces : Expr → List Piece
  | .imm ns => .text (Ty.float.name ns.length ++ "(") :: commaNumbers ns ++ [.text ")"]
  | .reg b comps => b.pieces ++ [.text (swizzle comps)]
  | .neg e => .text "(-" :: e.pieces ++ [.text ")"]
  | .abs e => .text "abs(" :: e.pieces ++ [.text ")"]
  | .minus e => .text "-" :: e.pieces
  | .compl e => .text "~" :: e.pieces
  | .splat n one => [.text (Ty.float.name n ++ if one then "(1.0)" else "(0.0)")]
  | .asType t n e => .text ("as_type<" ++ t.name n ++ ">(") :: e.pieces ++ [.text ")"]
  | .convert t n e => .text (t.name n ++ "(") :: e.pieces ++ [.text ")"]
  | .fn f e => .text (f.name ++ "(") :: e.pieces ++ [.text ")"]
  | .fn2 f a b => .text (f.name ++ "(") :: a.pieces ++ .text ", " :: b.pieces ++ [.text ")"]
  | .binary o a b => a.pieces ++ .text (" " ++ o.name ++ " ") :: b.pieces
  | .fma a b c =>
    .text "fma(" :: a.pieces ++ .text ", " :: b.pieces ++ .text ", " :: c.pieces ++ [.text ")"]
  | .select a b c =>
    .text "select(" :: a.pieces ++ .text ", " :: b.pieces ++ .text ", " :: c.pieces ++ [.text ")"]
  | .sample t s coord =>
    .use (.texture t) :: .text ".sample(" :: .use (.sampler s) :: .text ", " :: coord.pieces ++
      [.text ")"]
  | .sampleBias t s coord bias =>
    .use (.texture t) :: .text ".sample(" :: .use (.sampler s) :: .text ", " :: coord.pieces ++
      .text ", bias(" :: bias.pieces ++ [.text "))"]
  | .sampleCompare t s coord ref =>
    .use (.texture t) :: .text ".sample_compare(" :: .use (.sampler s) :: .text ", " ::
      coord.pieces ++ .text ", " :: ref.pieces ++ [.text ")"]
  | .read t coord lod =>
    .use (.texture t) :: .text ".read(" :: coord.pieces ++ .text ", " :: lod.pieces ++ [.text ")"]
  | .dimensions t =>
    [.text "float4(float(", .use (.texture t), .text ".get_width()), float(", .use (.texture t),
      .text ".get_height()), 0.0, float(", .use (.texture t), .text ".get_num_mip_levels()))"]
  | .member e comps => e.pieces ++ [.text (maskStr comps)]

-- ---------------------------------------------------------------------------
-- Statements
-- ---------------------------------------------------------------------------

/-- `test` compares with 0.0 and ends in `tail`; `line` names nothing. -/
inductive Stmt
  | assign (d : Base) (mask : List Nat) (sat : Bool) (rhs : Expr)
  | switch (e : Expr)
  | test (e : Expr) (nonzero : Bool) (tail : String)
  | line (s : String)
  deriving DecidableEq, Repr

/-- `return out`, which `strstr` finds. -/
def retLine : Stmt := .line "  return out;\n"

def Stmt.pieces : Stmt → List Piece
  | .assign d mask sat rhs =>
    .text "  " :: d.pieces ++ .text (maskStr mask ++ if sat then " = saturate(" else " = ") ::
      rhs.pieces ++ [.text (if sat then ");\n" else ";\n")]
  | .switch e => .text "  switch (" :: e.pieces ++ [.text ") \x7b\n"]
  | .test e nonzero tail =>
    .text "  if (" :: e.pieces ++ [.text ((if nonzero then " != 0.0)" else " == 0.0)") ++ tail)]
  | .line s => [.text s]

def body (stmts : List Stmt) : List Piece := stmts.flatMap Stmt.pieces

end WineGlass.Dxbc
