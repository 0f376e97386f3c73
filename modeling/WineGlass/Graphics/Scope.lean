import WineGlass.Graphics.Emit
import Mathlib.Data.List.Nodup

/-!
# What the body names is declared

The prologue declares what the marks say at the end: inputs, outputs and
constant buffers that are named directly mark themselves; resources and samplers
are marked by their declarations alone, and a register inside a relative index by
nothing; DCL_TEMPS takes the count of temps back to its own.
-/

namespace WineGlass.Dxbc

open CInt

-- ---------------------------------------------------------------------------
-- The identifiers of an instruction
-- ---------------------------------------------------------------------------

def Base.idents : Base → List Ident
  | .temp n => [.temp n]
  | .input n => [.input n]
  | .output n => [.output n]
  | .cb bank _ => [.cb bank]
  | .cbRel bank reg _ => [.cb bank, .temp reg]
  | .zero => []

@[simp] def Expr.idents : Expr → List Ident
  | .imm _ | .splat _ _ => []
  | .reg b _ => b.idents
  | .neg e | .abs e | .minus e | .compl e | .asType _ _ e | .convert _ _ e | .fn _ e
  | .member e _ => e.idents
  | .fn2 _ a b | .binary _ a b => a.idents ++ b.idents
  | .fma a b c | .select a b c => a.idents ++ (b.idents ++ c.idents)
  | .sample t s coord => .texture t :: .sampler s :: coord.idents
  | .sampleBias t s coord e | .sampleCompare t s coord e =>
    .texture t :: .sampler s :: (coord.idents ++ e.idents)
  | .read t coord lod => .texture t :: (coord.idents ++ lod.idents)
  | .dimensions t => [.texture t, .texture t, .texture t]

def Stmt.idents : Stmt → List Ident
  | .assign d _ _ rhs => d.idents ++ rhs.idents
  | .switch e | .test e _ _ => e.idents
  | .line _ => []

def Arg.named (a : Arg) : List Ident := (operandBase a).idents

/-- `idx[0]` of the operand at `k`. -/
def numberAt (args : List Arg) (k : Nat) : Int := (args[k]?.map fun a => a.op.number).getD 0

/-- The texture and the sampler of an instruction that has them. -/
def Op.resources : Op → List Arg → List Ident
  | .sample, args | .sampleL, args | .sampleB, args | .sampleC, args | .sampleCLz, args =>
    [.texture (numberAt args 2), .sampler (numberAt args 3)]
  | .ld, args | .resinfo, args => [.texture (numberAt args 2)]
  | _, _ => []

/-- What an instruction names: its operands, and its texture and sampler. -/
def Instr.named (i : Instr) : List Ident :=
  i.code.based.flatMap Arg.named ++ (i.op.map fun op => op.resources i.args).getD []

/-- The statements of a case name its operands, and beside them `rs`. -/
def Code.Names (c : Code) (rs : List Ident) : Prop :=
  ∀ id, id ∈ c.stmts.flatMap Stmt.idents ↔ id ∈ c.based.flatMap Arg.named ++ rs

theorem uses_numbers : uses (commaNumbers ns) = [] := by
  induction ns with
  | nil => rfl
  | cons n ns ih =>
    cases ns with
    | nil => rfl
    | cons m ns => exact ih

@[simp] theorem uses_base (b : Base) : uses b.pieces = b.idents := by cases b <;> rfl

@[simp] theorem uses_expr (e : Expr) : uses e.pieces = e.idents := by
  induction e with
  | imm ns => simp [Expr.pieces, uses_numbers]
  | _ => simp_all [Expr.pieces]

@[simp] theorem uses_stmt (s : Stmt) : uses s.pieces = s.idents := by
  cases s <;> simp [Stmt.pieces, Stmt.idents]

theorem uses_body : uses (body stmts) = stmts.flatMap Stmt.idents := by
  induction stmts with
  | nil => rfl
  | cons s stmts ih =>
    rw [body, List.flatMap_cons, uses_append, uses_stmt, List.flatMap_cons]
    exact congrArg _ ih

theorem modified_idents : (modified modifier e).idents = e.idents := by
  unfold modified
  split
  · rfl
  split
  · rfl
  split <;> rfl

@[simp] theorem srcStr_idents : (srcStr a pos).idents = a.named := by
  rw [srcStr, modified_idents]
  split
  · rename_i h
    have hz : operandBase a = .zero := by
      unfold operandBase
      simp only [h, otImm32, otTemp, otInput, otOutput, otCbuffer]
      rfl
    rw [Arg.named, hz]
    rfl
  · rfl

@[simp] theorem assign_idents : (assign od sat rhs).idents = od.named ++ rhs.idents := rfl

/-- The operands that an instruction's case reads are there. -/
def Instr.Full (i : Instr) : Prop := ∀ op, i.op = some op → i.args.length = op.operands

theorem empty_names : Code.Names {} [] := fun _ => Iff.rfl

theorem line_names : (line s).Names [] := fun _ => Iff.rfl

theorem unary_names (h : ∀ n e, (rhs n e).idents = e.idents) :
    (unary sat rhs od oa).Names [] := by
  intro id
  simp [unary, h]

theorem binary_names (h : ∀ n e f, (rhs n e f).idents = e.idents ++ f.idents) :
    (binary sat rhs od oa ob).Names [] := by
  intro id
  simp [binary, h]

theorem movc_names : (ternary sat movcRhs od oa ob oc).Names [] := by
  intro id
  simp only [ternary, movcRhs, Expr.idents, srcStr_idents, assign_idents, List.flatMap_cons,
    List.flatMap_nil, List.append_nil, List.mem_append]
  tauto

section
variable {P : Code → List Arg → Prop}

theorem with1_all (h : ∀ a, P (f a) [a]) :
    (args : List Arg) → args.length = 1 → P (with1 f args) args
  | [a], _ => h a

theorem with2_all (h : ∀ a b, P (f a b) [a, b]) :
    (args : List Arg) → args.length = 2 → P (with2 f args) args
  | [a, b], _ => h a b

theorem with3_all (h : ∀ a b c, P (f a b c) [a, b, c]) :
    (args : List Arg) → args.length = 3 → P (with3 f args) args
  | [a, b, c], _ => h a b c

theorem with4_all (h : ∀ a b c d, P (f a b c d) [a, b, c, d]) :
    (args : List Arg) → args.length = 4 → P (with4 f args) args
  | [a, b, c, d], _ => h a b c d

theorem with5_all (h : ∀ a b c d e, P (f a b c d e) [a, b, c, d, e]) :
    (args : List Arg) → args.length = 5 → P (with5 f args) args
  | [a, b, c, d, e], _ => h a b c d e

end

theorem sincosHalf_names : (sincosHalf f od osrc).Names [] := by
  unfold sincosHalf
  split
  · exact empty_names
  · exact unary_names fun _ _ => rfl

theorem Code.Names.append {c d : Code} (hc : c.Names []) (hd : d.Names []) :
    Code.Names ⟨c.based ++ d.based, c.stmts ++ d.stmts⟩ [] := by
  intro id
  have hc := hc id
  have hd := hd id
  simp only [List.append_nil] at hc hd
  simp only [List.flatMap_append, List.append_nil, List.mem_append, hc, hd]

theorem imulCase_names : (imulCase ohi olo oa ob).Names [] := by
  unfold imulCase
  split
  · exact empty_names
  · exact binary_names fun _ _ _ => rfl

theorem dotCase_names : (dotCase sat n od oa ob).Names [] := by
  intro id
  simp [dotCase]

theorem mad_names : (ternary sat (fun _ => .fma) od oa ob oc).Names [] := by
  intro id
  simp [ternary]

theorem sampleCase_names :
    (sampleCase od oc ores osmp).Names [.texture ores.op.number, .sampler osmp.op.number] := by
  intro id
  simp [sampleCase]
  tauto

theorem sampleBCase_names : (sampleBCase od oc ores osmp ob).Names
    [.texture ores.op.number, .sampler osmp.op.number] := by
  intro id
  simp only [sampleBCase, List.flatMap_cons, List.flatMap_nil, assign_idents, Expr.idents,
    srcStr_idents, List.append_nil, List.mem_append, List.mem_cons, List.not_mem_nil, or_false]
  tauto

theorem sampleCCase_names : (sampleCCase od oc ores osmp oref).Names
    [.texture ores.op.number, .sampler osmp.op.number] := by
  intro id
  simp only [sampleCCase, List.flatMap_cons, List.flatMap_nil, assign_idents, Expr.idents,
    srcStr_idents, List.append_nil, List.mem_append, List.mem_cons, List.not_mem_nil, or_false]
  tauto

theorem ldCase_names : (ldCase od oaddr ores).Names [.texture ores.op.number] := by
  intro id
  simp [ldCase]
  tauto

theorem resinfoCase_names : (resinfoCase od omip ores).Names [.texture ores.op.number] := by
  intro id
  simp [resinfoCase]

theorem switchCase_names : (switchCase o).Names [] := by
  intro id
  simp [switchCase, Stmt.idents]

theorem testCase_names : (testCase nz tail o).Names [] := by
  intro id
  simp [testCase, Stmt.idents]

theorem code_names (op : Op) (h : args.length = op.operands) :
    (op.code sat nz args).Names (op.resources args) := by
  cases op
  case mov | frc | exp | log | rsq | sqrt | roundNe | roundNi | roundPi | roundZ | derivRtx
    | derivRty | ineg | not | ftoi | ftou | itof | utof =>
    refine with2_all (P := fun c _ => c.Names []) (fun _ _ => ?_) _ h
    exact unary_names fun _ _ => rfl
  case add | mul | div | min | max | eq | ge | lt | ne | iadd | ishl | ishr | ushr | and | or | xor
    | imin | imax | ieq | ige | ilt | ine =>
    refine with3_all (P := fun c _ => c.Names []) (fun _ _ _ => ?_) _ h
    exact binary_names fun _ _ _ => rfl
  case dp2 | dp3 | dp4 =>
    exact with3_all (P := fun c _ => c.Names []) (fun _ _ _ => dotCase_names) _ h
  case mad => exact with4_all (P := fun c _ => c.Names []) (fun _ _ _ _ => mad_names) _ h
  case movc => exact with4_all (P := fun c _ => c.Names []) (fun _ _ _ _ => movc_names) _ h
  case imul => exact with4_all (P := fun c _ => c.Names []) (fun _ _ _ _ => imulCase_names) _ h
  case sincos =>
    exact with3_all (P := fun c _ => c.Names [])
      (fun _ _ _ => sincosHalf_names.append sincosHalf_names) _ h
  case sample =>
    exact with4_all (P := fun c as => c.Names (Op.resources .sample as))
      (fun _ _ _ _ => sampleCase_names) _ h
  case sampleL =>
    exact with5_all (P := fun c as => c.Names (Op.resources .sample as))
      (fun _ _ _ _ _ => sampleCase_names) _ h
  case sampleB =>
    exact with5_all (P := fun c as => c.Names (Op.resources .sample as))
      (fun _ _ _ _ _ => sampleBCase_names) _ h
  case sampleC | sampleCLz =>
    exact with5_all (P := fun c as => c.Names (Op.resources .sample as))
      (fun _ _ _ _ _ => sampleCCase_names) _ h
  case ld =>
    exact with3_all (P := fun c as => c.Names (Op.resources .ld as)) (fun _ _ _ => ldCase_names) _ h
  case resinfo =>
    exact with3_all (P := fun c as => c.Names (Op.resources .ld as))
      (fun _ _ _ => resinfoCase_names) _ h
  case switch => exact with1_all (P := fun c _ => c.Names []) (fun _ => switchCase_names) _ h
  case «if» | breakc | discard =>
    exact with1_all (P := fun c _ => c.Names []) (fun _ => testCase_names) _ h
  case case => exact with1_all (P := fun c _ => c.Names []) (fun _ => line_names) _ h
  case ret | default | endswitch | endif | endloop | «else» | loop | «break» | «continue» =>
    exact line_names
  all_goals exact empty_names

-- ---------------------------------------------------------------------------
-- The masks
-- ---------------------------------------------------------------------------

/-- The registers that a mask stands for. -/
inductive Kind
  | input | output | cb | texture | sampler
  deriving DecidableEq

def Kind.ident : Kind → Int → Ident
  | .input => .input
  | .output => .output
  | .cb => .cb
  | .texture => .texture
  | .sampler => .sampler

def Ctx.used (c : Ctx) : Kind → U32
  | .input => c.inUsed
  | .output => c.outUsed
  | .cb => c.cbUsed
  | .texture => c.resUsed
  | .sampler => c.sampUsed

/-- The type of the operands that `operand_base` marks in a mask. -/
def Kind.type : Kind → Option U32
  | .input => some otInput
  | .output => some otOutput
  | .cb => some otCbuffer
  | _ => none

/-- The mask that a declaration marks. -/
def Op.declares : Op → Option Kind
  | .dclInput | .dclInputPs | .dclInputSiv | .dclInputPsSiv => some .input
  | .dclOutput | .dclOutputSiv => some .output
  | .dclCb => some .cb
  | .dclResource => some .texture
  | .dclSampler => some .sampler
  | _ => none

def Instr.declares (i : Instr) : Option Kind := i.op.bind Op.declares

/-- The numbers that an instruction marks. -/
def Instr.marks (i : Instr) (κ : Kind) : List U32 :=
  (if i.declares = some κ then [i.idx 0] else []) ++
    (i.code.based.filter fun a => κ.type = some a.op.type).map fun a => a.op.idx 0

theorem mark_getLsbD : (mark 32 n used).getLsbD k ↔
    used.getLsbD k ∨ n.toInt < 32 ∧ k < 32 ∧ n.toNat = k := by
  unfold mark
  split
  · rename_i h
    rw [BitVec.getLsbD_or, Bool.or_eq_true]
    refine or_congr_right ?_
    change (BitVec.twoPow 32 n.toNat).getLsbD k = true ↔ _
    rw [BitVec.getLsbD_twoPow]
    simp [h]
    omega
  · rename_i h
    simp [h]

theorem base_used (c : Ctx) (a : Arg) (κ : Kind) : (c.base a).used κ =
    if κ.type = some a.op.type then mark 32 (a.op.idx 0) (c.used κ) else c.used κ := by
  unfold Ctx.base
  dsimp only
  split
  · rename_i h
    rw [h]
    cases κ <;> rfl
  split
  · rename_i h
    rw [h]
    cases κ <;> rfl
  split
  · rename_i h
    rw [h]
    cases κ <;> rfl
  split
  · rename_i h
    rw [h]
    cases κ <;> rfl
  · rename_i hi ho hc
    refine (if_neg fun h => ?_).symm
    cases κ
    case input => exact hi (Option.some.inj h).symm
    case output => exact ho (Option.some.inj h).symm
    case cb => exact hc (Option.some.inj h).symm
    all_goals cases h

theorem declare_used (c : Ctx) (i : Instr) (κ : Kind) : (c.declare i).used κ =
    if i.declares = some κ then mark 32 (i.idx 0) (c.used κ) else c.used κ := by
  unfold Ctx.declare Instr.declares
  cases hop : i.op with
  | none => rfl
  | some op =>
    cases op
    case dclInput | dclInputPs | dclInputSiv | dclInputPsSiv | dclOutput | dclOutputSiv | dclCb
      | dclResource | dclSampler => cases κ <;> rfl
    all_goals rfl

theorem foldl_mark_getLsbD (ns : List U32) (used : U32) : (ns.foldl (fun u n => mark 32 n u) used).getLsbD k ↔
    used.getLsbD k ∨ k < 32 ∧ ∃ n ∈ ns, n.toInt < 32 ∧ n.toNat = k := by
  induction ns generalizing used with
  | nil => simp
  | cons n ns ih =>
    rw [List.foldl_cons, ih, mark_getLsbD, and_left_comm, or_assoc, ← and_or_left]
    simp only [List.mem_cons, exists_eq_or_imp]

theorem foldl_base_used (κ : Kind) (as : List Arg) (c : Ctx) : (as.foldl Ctx.base c).used κ =
    ((as.filter fun a => κ.type = some a.op.type).map fun a => a.op.idx 0).foldl
      (fun u n => mark 32 n u) (c.used κ) := by
  induction as generalizing c with
  | nil => rfl
  | cons a as ih =>
    rw [List.foldl_cons, ih, base_used, List.filter_cons]
    by_cases h : κ.type = some a.op.type <;> simp [h]

theorem step_used (c : Ctx) (i : Instr) (κ : Kind) : (c.step i).used κ =
    (i.marks κ).foldl (fun u n => mark 32 n u) (c.used κ) := by
  rw [Ctx.step, foldl_base_used, declare_used, Instr.marks, List.foldl_append]
  split <;> rfl

theorem run_used (κ : Kind) (is : List Instr) (c : Ctx) :
    ((is.foldl Ctx.step c).used κ).getLsbD k ↔
      (c.used κ).getLsbD k ∨ k < 32 ∧ ∃ i ∈ is, ∃ n ∈ i.marks κ, n.toInt < 32 ∧ n.toNat = k := by
  induction is generalizing c with
  | nil => simp
  | cons i is ih =>
    rw [List.foldl_cons, ih, step_used, foldl_mark_getLsbD]
    simp only [List.mem_cons, exists_eq_or_imp, and_or_left, or_assoc]

-- ---------------------------------------------------------------------------
-- The temps
-- ---------------------------------------------------------------------------

/-- An operand that is looked at as a number of its own: an `int` holds it and the next. -/
def Arg.Numbered (a : Arg) : Prop :=
  0 ≤ a.op.number ∧ a.op.number < intMax ∧ ∀ o, a.rel 1 = some o → 0 ≤ o.number

/-- A DCL_TEMPS that counts `n`, or a temp from `n` on that is named directly. -/
def Instr.Provides (i : Instr) (n : Int) : Prop :=
  i.op = some .dclTemps ∧ n < i.sv.toInt ∨
    ∃ a ∈ i.code.based, a.op.type = otTemp ∧ n ≤ a.op.number

/-- One of the instructions provides `n`, and no DCL_TEMPS comes behind it. -/
def Provided (n : Int) : List Instr → Prop
  | [] => False
  | i :: is => Provided n is ∨ i.Provides n ∧ ∀ j ∈ is, j.op ≠ some .dclTemps

theorem base_ntemps (c : Ctx) (ha : a.Numbered) : n < (c.base a).ntemps ↔
    n < c.ntemps ∨ a.op.type = otTemp ∧ n ≤ a.op.number := by
  obtain ⟨h0, hmax, -⟩ := ha
  have hc : cInt ((a.op.idx 0).toInt + 1) = a.op.number + 1 :=
    cInt_eq (by unfold Operand.number intMax at *; omega) (by unfold Operand.number at *; omega)
  unfold Ctx.base
  dsimp only
  rw [hc]
  split
  · rename_i h
    rw [h]
    dsimp only
    split
    · simp only [true_and]
      omega
    · simp only [true_and]
      omega
  · rename_i h
    have hs : ∀ d : Ctx, d.ntemps = c.ntemps →
        (n < d.ntemps ↔ n < c.ntemps ∨ a.op.type = otTemp ∧ n ≤ a.op.number) := by
      intro d hd
      simp [hd, h]
    split
    · exact hs _ rfl
    split
    · exact hs _ rfl
    split <;> exact hs _ rfl

theorem foldl_base_ntemps (as : List Arg) (c : Ctx) (h : ∀ a ∈ as, a.Numbered) :
    n < (as.foldl Ctx.base c).ntemps ↔
      n < c.ntemps ∨ ∃ a ∈ as, a.op.type = otTemp ∧ n ≤ a.op.number := by
  induction as generalizing c with
  | nil => simp
  | cons a as ih =>
    rw [List.foldl_cons, ih _ fun a ha => h a (List.mem_cons_of_mem _ ha),
      base_ntemps c (h a List.mem_cons_self)]
    simp only [List.mem_cons, exists_eq_or_imp, or_assoc]

theorem declare_ntemps (c : Ctx) (i : Instr) : (c.declare i).ntemps =
    if i.op = some .dclTemps then i.sv.toInt else c.ntemps := by
  unfold Ctx.declare
  cases hop : i.op with
  | none => rfl
  | some op => cases op <;> rfl

theorem step_ntemps (c : Ctx) (h : ∀ a ∈ i.code.based, a.Numbered) :
    n < (c.step i).ntemps ↔ i.Provides n ∨ i.op ≠ some .dclTemps ∧ n < c.ntemps := by
  rw [Ctx.step, foldl_base_ntemps _ _ h, declare_ntemps, Instr.Provides]
  split
  · rename_i hop
    simp [hop]
  · rename_i hop
    simp [hop, or_comm]

theorem run_ntemps (is : List Instr) (c : Ctx) (h : ∀ i ∈ is, ∀ a ∈ i.code.based, a.Numbered) :
    n < (is.foldl Ctx.step c).ntemps ↔
      Provided n is ∨ n < c.ntemps ∧ ∀ i ∈ is, i.op ≠ some .dclTemps := by
  induction is generalizing c with
  | nil => simp [Provided]
  | cons i is ih =>
    rw [List.foldl_cons, ih _ fun i hi => h i (List.mem_cons_of_mem _ hi),
      step_ntemps c (h i List.mem_cons_self), Provided]
    simp only [List.forall_mem_cons]
    tauto

-- ---------------------------------------------------------------------------
-- The prologue
-- ---------------------------------------------------------------------------

/-- How many registers of a kind the prologue looks for. -/
def Kind.bound (isPixel : Bool) : Kind → Nat
  | .input | .cb => 32
  | .output => if isPixel then 8 else 32
  | .texture | .sampler => 16

def Ctx.declared (c : Ctx) (isPixel : Bool) (κ : Kind) : List Ident :=
  (marked (κ.bound isPixel) (c.used κ)).map fun (i : Nat) => κ.ident i

def Ctx.temps (c : Ctx) : List Ident := (List.range c.ntemps.toNat).map fun (i : Nat) => .temp i

theorem decls_flatMap (f : Nat → Ident) (g : Nat → List Piece) (h : ∀ i, decls (g i) = [f i])
    (l : List Nat) : decls (l.flatMap g) = l.map f := by
  induction l with
  | nil => rfl
  | cons i l ih => rw [List.flatMap_cons, decls_append, h, ih, List.map_cons, List.singleton_append]

theorem decls_comma (pss : List (List Piece)) : decls (commaPieces pss) = decls pss.flatten := by
  induction pss with
  | nil => rfl
  | cons ps pss ih =>
    cases pss with
    | nil => simp [commaPieces]
    | cons qs pss => simpa [commaPieces] using ih

theorem declared_input_zero {c : Ctx} (h : c.inUsed = 0) : c.declared isPixel .input = [] := by
  have hm : marked 32 (0 : U32) = [] := by
    refine List.filter_eq_nil_iff.2 fun i _ => ?_
    simp
  change (marked 32 c.inUsed).map _ = []
  rw [h, hm, List.map_nil]

theorem decls_structs (c : Ctx) (isPixel : Bool) : decls (structs c isPixel) =
    c.declared isPixel .input ++ c.declared isPixel .output := by
  have hin : decls (inputFields c isPixel) = c.declared isPixel .input :=
    decls_flatMap (fun i => .input i) _ (fun _ => rfl) _
  have hout : decls (outputFields c isPixel) = c.declared isPixel .output := by
    cases isPixel
    · exact decls_flatMap (fun i => .output i) _ (fun _ => rfl) _
    · exact decls_flatMap (fun i => .output i) _ (fun _ => rfl) _
  unfold structs struct
  split
  · rename_i h
    simp [hout, declared_input_zero h]
  · simp [hin, hout]

theorem decls_params (c : Ctx) (isPixel : Bool) : decls (commaPieces (params c isPixel)) =
    c.declared isPixel .cb ++ (c.declared isPixel .texture ++ c.declared isPixel .sampler) := by
  have hcb := decls_flatMap (fun i => .cb i)
    (fun i => param "constant float4*" (.cb i) (numbered "buffer" (16 + i))) (fun _ => rfl)
    (marked 32 c.cbUsed)
  have htex := decls_flatMap (fun i => .texture i)
    (fun i => param (if c.depthRes.getLsbD i then "depth2d<float>" else "texture2d<float>")
      (.texture i) (numbered "texture" i)) (fun _ => rfl) (marked 16 c.resUsed)
  have hsamp := decls_flatMap (fun i => .sampler i)
    (fun i => param "sampler" (.sampler i) (numbered "sampler" i)) (fun _ => rfl)
    (marked 16 c.sampUsed)
  rw [decls_comma, params]
  simp only [List.flatten_append, decls_append, ← List.flatMap_def, hcb, htex, hsamp]
  split <;> simp [Ctx.declared, Kind.bound, Kind.ident, Ctx.used]

theorem decls_prologue (c : Ctx) (isPixel : Bool) : decls (prologue c isPixel) =
    c.declared isPixel .input ++ c.declared isPixel .output ++ (c.declared isPixel .cb ++
      (c.declared isPixel .texture ++ c.declared isPixel .sampler) ++ c.temps) := by
  have htemps : decls (registers c.ntemps) = c.temps :=
    decls_flatMap (fun i => .temp i) _ (fun _ => rfl) _
  simp only [prologue, List.cons_append, decls_text, decls_append, decls_structs, decls_params,
    htemps, decls_nil, List.append_nil, List.append_assoc]

theorem uses_flatMap (g : Nat → List Piece) (h : ∀ i, uses (g i) = []) (l : List Nat) :
    uses (l.flatMap g) = [] := by
  induction l with
  | nil => rfl
  | cons i l ih => rw [List.flatMap_cons, uses_append, h, ih, List.append_nil]

theorem uses_comma (pss : List (List Piece)) : uses (commaPieces pss) = uses pss.flatten := by
  induction pss with
  | nil => rfl
  | cons ps pss ih =>
    cases pss with
    | nil => simp [commaPieces]
    | cons qs pss => simpa [commaPieces] using ih

theorem uses_prologue (c : Ctx) (isPixel : Bool) : uses (prologue c isPixel) = [] := by
  have hstructs : uses (structs c isPixel) = [] := by
    have hin : uses (inputFields c isPixel) = [] := uses_flatMap _ (fun _ => rfl) _
    have hout : uses (outputFields c isPixel) = [] := by
      cases isPixel <;> exact uses_flatMap _ (fun _ => rfl) _
    unfold structs struct
    split <;> simp [hin, hout]
  have hparams : uses (commaPieces (params c isPixel)) = [] := by
    rw [uses_comma, params]
    simp only [List.flatten_append, uses_append, ← List.flatMap_def]
    rw [uses_flatMap _ fun _ => rfl, uses_flatMap _ fun _ => rfl, uses_flatMap _ fun _ => rfl]
    split <;> rfl
  have hregs : uses (registers c.ntemps) = [] := uses_flatMap _ (fun _ => rfl) _
  simp only [prologue, List.cons_append, uses_text, uses_append, hstructs, hparams, hregs, uses_nil,
    List.append_nil]

theorem decls_numbers : decls (commaNumbers ns) = [] := by
  induction ns with
  | nil => rfl
  | cons n ns ih =>
    cases ns with
    | nil => rfl
    | cons m ns => exact ih

@[simp] theorem decls_expr (e : Expr) : decls e.pieces = [] := by
  have hb : ∀ b : Base, decls b.pieces = [] := fun b => by cases b <;> rfl
  induction e with
  | imm ns => simp [Expr.pieces, decls_numbers]
  | _ => simp_all [Expr.pieces]

theorem decls_body (stmts : List Stmt) : decls (body stmts) = [] := by
  have hb : ∀ b : Base, decls b.pieces = [] := fun b => by cases b <;> rfl
  induction stmts with
  | nil => rfl
  | cons s stmts ih =>
    rw [body, List.flatMap_cons, decls_append]
    refine List.append_eq_nil_iff.2 ⟨?_, ih⟩
    cases s <;> simp [Stmt.pieces, hb]

theorem Kind.ident_inj (κ : Kind) {i j : Int} (h : κ.ident i = κ.ident j) : i = j := by
  cases κ <;> injection h

theorem mem_declared (c : Ctx) (isPixel : Bool) (κ : Kind) (n : Int) :
    κ.ident n ∈ c.declared isPixel κ ↔
      ∃ k < κ.bound isPixel, (c.used κ).getLsbD k ∧ (k : Int) = n := by
  rw [Ctx.declared, List.mem_map]
  constructor
  · rintro ⟨k, hk, he⟩
    obtain ⟨hr, hu⟩ := List.mem_filter.1 hk
    exact ⟨k, List.mem_range.1 hr, hu, κ.ident_inj he⟩
  · rintro ⟨k, hk, hu, rfl⟩
    exact ⟨k, List.mem_filter.2 ⟨List.mem_range.2 hk, hu⟩, rfl⟩

theorem mem_temps (c : Ctx) (n : Int) : .temp n ∈ c.temps ↔ 0 ≤ n ∧ n < c.ntemps := by
  rw [Ctx.temps, List.mem_map]
  constructor
  · rintro ⟨k, hk, he⟩
    have hk := List.mem_range.1 hk
    injection he with he
    omega
  · rintro ⟨h0, hlt⟩
    refine ⟨n.toNat, List.mem_range.2 (by omega), ?_⟩
    rw [Int.toNat_of_nonneg h0]

/-- The kind of an identifier that a mask stands for. -/
def Ident.kind : Ident → Option Kind
  | .temp _ => none
  | .input _ => some .input
  | .output _ => some .output
  | .cb _ => some .cb
  | .texture _ => some .texture
  | .sampler _ => some .sampler

@[simp] theorem kind_ident (κ : Kind) (n : Int) : (κ.ident n).kind = some κ := by cases κ <;> rfl

theorem kind_declared {c : Ctx} {id : Ident} (h : id ∈ c.declared isPixel κ) : id.kind = some κ := by
  obtain ⟨_, -, rfl⟩ := List.mem_map.1 h
  exact kind_ident ..

theorem kind_temps {c : Ctx} {id : Ident} (h : id ∈ c.temps) : id.kind = none := by
  obtain ⟨_, -, rfl⟩ := List.mem_map.1 h
  rfl

/-- An identifier of one kind is not declared among those of another. -/
theorem declared_apart {c : Ctx} (hne : κ ≠ κ') :
    ∀ a ∈ c.declared isPixel κ, ∀ b ∈ c.declared isPixel κ', a ≠ b := by
  rintro a ha _ hb rfl
  exact hne (Option.some.inj ((kind_declared ha).symm.trans (kind_declared hb)))

theorem temps_apart {c : Ctx} : ∀ a ∈ c.declared isPixel κ, ∀ b ∈ c.temps, a ≠ b := by
  rintro a ha _ hb rfl
  cases (kind_declared ha).symm.trans (kind_temps hb)

theorem declared_nodup (c : Ctx) (isPixel : Bool) : (decls (prologue c isPixel)).Nodup := by
  have hκ : ∀ κ, (c.declared isPixel κ).Nodup := fun κ =>
    (List.nodup_range.filter _).map fun i j h => Int.ofNat.inj (κ.ident_inj h)
  have htemps : c.temps.Nodup := List.nodup_range.map fun i j h => by
    injection h with h
    exact Int.ofNat.inj h
  rw [decls_prologue]
  simp only [List.nodup_append, hκ, htemps, true_and, List.mem_append, or_imp, forall_and]
  and_intros
  all_goals first
    | exact declared_apart nofun
    | exact temps_apart

/-- The declarations of the prologue are those of the marks, each kind by itself. -/
theorem mem_decls (c : Ctx) (isPixel : Bool) (κ : Kind) (n : Int) :
    κ.ident n ∈ decls (prologue c isPixel) ↔ κ.ident n ∈ c.declared isPixel κ := by
  have hnot : ∀ κ', κ' ≠ κ → κ.ident n ∉ c.declared isPixel κ' := fun κ' hne h =>
    hne (Option.some.inj ((kind_declared h).symm.trans (kind_ident κ n)))
  have htemps : κ.ident n ∉ c.temps := fun h => by
    cases (kind_ident κ n).symm.trans (kind_temps h)
  rw [decls_prologue]
  cases κ <;> simp [hnot, htemps]

theorem temp_mem_decls (c : Ctx) (isPixel : Bool) (n : Int) :
    .temp n ∈ decls (prologue c isPixel) ↔ .temp n ∈ c.temps := by
  have hnot : ∀ κ, .temp n ∉ c.declared isPixel κ := fun κ h => by cases kind_declared h
  rw [decls_prologue]
  simp [hnot]

-- ---------------------------------------------------------------------------
-- Scoping
-- ---------------------------------------------------------------------------

/-- Every identifier that the text uses is declared in it exactly once. -/
def Scoped (ps : List Piece) : Prop := ∀ id ∈ uses ps, (decls ps).count id = 1

/-- An instruction with a case, whose numbers an `int` holds. -/
structure Instr.WellFormed (i : Instr) : Prop where
  handled : i.op.isSome
  numbered : ∀ a ∈ i.args, a.Numbered

/-- Where an identifier comes from that is declared. -/
def Available (isPixel : Bool) (is : List Instr) : Ident → Prop
  | .temp n => Provided n is
  | .input n | .cb n => n < 32
  | .output n => n < if isPixel then 8 else 32
  | .texture n => n < 16 ∧ ∃ i ∈ is, i.op = some .dclResource ∧ (i.idx 0).toInt = n
  | .sampler n => n < 16 ∧ ∃ i ∈ is, i.op = some .dclSampler ∧ (i.idx 0).toInt = n

section
variable (behind : Int → Bool) (isPixel : Bool) (is : List Instr)

theorem uses_toMsl : uses (toMsl behind isPixel is) = uses (body (stmtsOf is)) := by
  unfold toMsl
  split <;> simp [uses_prologue]

theorem decls_toMsl : decls (toMsl behind isPixel is) =
    decls (prologue (is.foldl Ctx.step (.init behind)) isPixel) := by
  unfold toMsl
  split <;> simp [decls_body]

theorem scoped_iff : Scoped (toMsl behind isPixel is) ↔ ∀ id ∈ uses (body (stmtsOf is)),
    id ∈ decls (prologue (is.foldl Ctx.step (.init behind)) isPixel) := by
  rw [Scoped, uses_toMsl, decls_toMsl]
  refine forall₂_congr fun id _ => ?_
  constructor
  · intro h
    exact List.count_pos_iff.1 (by omega)
  · exact List.count_eq_one_of_mem (declared_nodup ..)

end

theorem toInt_eq_iff {m : U32} {k : Nat} (hk : k < 32) :
    m.toInt < 32 ∧ m.toNat = k ↔ m.toInt = k := by
  rw [BitVec.toInt_eq_toNat_cond]
  split <;> omega

section
variable {behind : Int → Bool} {isPixel : Bool} {is : List Instr}

/-- A number that some instruction marks is declared, where the prologue looks for it. -/
theorem kind_mem_decls (κ : Kind) (n : Int) :
    κ.ident n ∈ decls (prologue (is.foldl Ctx.step (.init behind)) isPixel) ↔
      0 ≤ n ∧ n < κ.bound isPixel ∧ ∃ i ∈ is, ∃ m ∈ i.marks κ, m.toInt = n := by
  have hb : κ.bound isPixel ≤ 32 := by cases κ <;> cases isPixel <;> decide
  have h0 : ((Ctx.init behind).used κ) = 0 := by cases κ <;> rfl
  rw [mem_decls, mem_declared]
  constructor
  · rintro ⟨k, hk, hu, rfl⟩
    rw [run_used, h0] at hu
    obtain hu | ⟨hk32, i, hi, m, hm, he⟩ := hu
    · simp at hu
    · exact ⟨Int.natCast_nonneg k, Int.ofNat_lt.2 hk, i, hi, m, hm, (toInt_eq_iff hk32).1 he⟩
  · rintro ⟨hn, hlt, i, hi, m, hm, he⟩
    refine ⟨n.toNat, by omega, ?_, Int.toNat_of_nonneg hn⟩
    rw [run_used]
    have hk32 : n.toNat < 32 := by omega
    exact .inr ⟨hk32, i, hi, m, hm, (toInt_eq_iff hk32).2 (by rw [he, Int.toNat_of_nonneg hn])⟩

theorem temp_declared (h : ∀ i ∈ is, ∀ a ∈ i.code.based, a.Numbered) (hn : 0 ≤ n) :
    .temp n ∈ decls (prologue (is.foldl Ctx.step (.init behind)) isPixel) ↔ Provided n is := by
  rw [temp_mem_decls, mem_temps, run_ntemps is _ h]
  have h0 : ¬ n < (Ctx.init behind).ntemps := Int.not_lt.2 hn
  simp [hn, h0]

end

theorem sincosHalf_based : (sincosHalf f od osrc).based ⊆ [od, osrc] := by
  unfold sincosHalf
  split
  · exact List.nil_subset _
  · exact List.Subset.refl _

theorem code_based (op : Op) (h : args.length = op.operands) :
    (op.code sat nz args).based ⊆ args := by
  cases op
  case mov | frc | exp | log | rsq | sqrt | roundNe | roundNi | roundPi | roundZ | derivRtx
    | derivRty | ineg | not | ftoi | ftou | itof | utof =>
    exact with2_all (P := fun c as => c.based ⊆ as) (fun _ _ => List.Subset.refl _) _ h
  case add | mul | div | min | max | eq | ge | lt | ne | iadd | ishl | ishr | ushr | and | or | xor
    | imin | imax | ieq | ige | ilt | ine | dp2 | dp3 | dp4 =>
    exact with3_all (P := fun c as => c.based ⊆ as) (fun _ _ _ => List.Subset.refl _) _ h
  case mad | movc =>
    exact with4_all (P := fun c as => c.based ⊆ as) (fun _ _ _ _ => List.Subset.refl _) _ h
  case imul =>
    refine with4_all (P := fun c as => c.based ⊆ as) (fun _ _ _ _ => ?_) _ h
    unfold imulCase
    split
    · exact List.nil_subset _
    · exact List.subset_cons_self ..
  case sincos =>
    refine with3_all (P := fun c as => c.based ⊆ as) (fun _ _ _ => ?_) _ h
    refine List.append_subset.2 ⟨fun a ha => ?_, fun a ha => ?_⟩
    · have hmem := sincosHalf_based ha
      simp only [List.mem_cons] at hmem ⊢
      tauto
    · have hmem := sincosHalf_based ha
      simp only [List.mem_cons] at hmem ⊢
      tauto
  case sample =>
    refine with4_all (P := fun c as => c.based ⊆ as) (fun _ _ _ _ => ?_) _ h
    simp [sampleCase]
  case sampleL =>
    refine with5_all (P := fun c as => c.based ⊆ as) (fun _ _ _ _ _ => ?_) _ h
    simp [sampleCase]
  case sampleB =>
    refine with5_all (P := fun c as => c.based ⊆ as) (fun _ _ _ _ _ => ?_) _ h
    simp [sampleBCase]
  case sampleC | sampleCLz =>
    refine with5_all (P := fun c as => c.based ⊆ as) (fun _ _ _ _ _ => ?_) _ h
    simp [sampleCCase]
  case ld =>
    refine with3_all (P := fun c as => c.based ⊆ as) (fun _ _ _ => ?_) _ h
    simp [ldCase]
  case resinfo =>
    refine with3_all (P := fun c as => c.based ⊆ as) (fun _ _ _ => ?_) _ h
    simp [resinfoCase]
  case switch | «if» | breakc | discard =>
    exact with1_all (P := fun c as => c.based ⊆ as) (fun _ => List.Subset.refl _) _ h
  case case =>
    exact with1_all (P := fun c as => c.based ⊆ as) (fun _ => List.nil_subset _) _ h
  all_goals exact List.nil_subset _

theorem arg_named {a : Arg} {id : Ident} (h : id ∈ a.named) :
    (∃ κ : Kind, κ.type = some a.op.type ∧ id = κ.ident a.op.number) ∨
      id = .temp a.op.number ∨ ∃ o, a.rel 1 = some o ∧ id = .temp o.number := by
  unfold Arg.named operandBase at h
  split at h
  · exact .inr (.inl (List.mem_singleton.1 h))
  split at h
  · rename_i ht
    exact .inl ⟨.input, congrArg some ht.symm, List.mem_singleton.1 h⟩
  split at h
  · rename_i ht
    exact .inl ⟨.output, congrArg some ht.symm, List.mem_singleton.1 h⟩
  split at h
  · rename_i ht
    split at h
    · rename_i o ho
      obtain rfl | h := List.mem_cons.1 h
      · exact .inl ⟨.cb, congrArg some ht.symm, rfl⟩
      · exact .inr (.inr ⟨o, ho, List.mem_singleton.1 h⟩)
    · exact .inl ⟨.cb, congrArg some ht.symm, List.mem_singleton.1 h⟩
  · cases h

theorem resources_named {op : Op} {id : Ident} (h : id ∈ op.resources args) :
    ∃ k, id = .texture (numberAt args k) ∨ id = .sampler (numberAt args k) := by
  cases op
  case sample | sampleL | sampleB | sampleC | sampleCLz =>
    obtain rfl | h := List.mem_cons.1 h
    · exact ⟨2, .inl rfl⟩
    · exact ⟨3, .inr (List.mem_singleton.1 h)⟩
  case ld | resinfo => exact ⟨2, .inl (List.mem_singleton.1 h)⟩
  all_goals cases h

theorem numberAt_nonneg (h : ∀ a ∈ args, Arg.Numbered a) (k : Nat) : 0 ≤ numberAt args k := by
  unfold numberAt
  cases hk : args[k]? with
  | none => exact Int.le_refl 0
  | some a => exact (h a (List.mem_of_getElem? hk)).1

theorem declares_marks {i : Instr} (h : κ.type = none) :
    (∃ m ∈ i.marks κ, m.toInt = n) ↔ i.declares = some κ ∧ (i.idx 0).toInt = n := by
  unfold Instr.marks
  rw [h]
  split <;> simp_all

theorem declares_texture {i : Instr} :
    i.declares = some .texture ↔ i.op = some .dclResource := by
  unfold Instr.declares
  rw [Option.bind_eq_some_iff]
  constructor
  · rintro ⟨op, hop, h⟩
    cases op
    case dclResource => exact hop
    all_goals cases h
  · intro hop
    exact ⟨_, hop, rfl⟩

theorem declares_sampler {i : Instr} :
    i.declares = some .sampler ↔ i.op = some .dclSampler := by
  unfold Instr.declares
  rw [Option.bind_eq_some_iff]
  constructor
  · rintro ⟨op, hop, h⟩
    cases op
    case dclSampler => exact hop
    all_goals cases h
  · intro hop
    exact ⟨_, hop, rfl⟩

/-- What a token stream names, it declares exactly where it is available. -/
theorem available_iff {is : List Instr} {id : Ident} (hfull : ∀ i ∈ is, i.Full)
    (hwf : ∀ i ∈ is, i.WellFormed) (hi : i ∈ is) (hid : id ∈ i.named) :
    id ∈ decls (prologue (is.foldl Ctx.step (.init behind)) isPixel) ↔
      Available isPixel is id := by
  have hbased : ∀ i ∈ is, ∀ a ∈ i.code.based, a ∈ i.args := by
    intro i hi a ha
    obtain ⟨op, hop⟩ := Option.isSome_iff_exists.1 (hwf i hi).handled
    rw [Instr.code, hop] at ha
    exact code_based op (hfull i hi op hop) ha
  have hnum : ∀ i ∈ is, ∀ a ∈ i.code.based, a.Numbered :=
    fun i hi a ha => (hwf i hi).numbered a (hbased i hi a ha)
  obtain hid | hid := List.mem_append.1 hid
  · obtain ⟨a, ha, hid⟩ := List.mem_flatMap.1 hid
    have hn := hnum i hi a ha
    obtain ⟨κ, hκ, rfl⟩ | rfl | ⟨o, ho, rfl⟩ := arg_named hid
    · have hm : ∃ i ∈ is, ∃ m ∈ i.marks κ, m.toInt = a.op.number := by
        refine ⟨i, hi, a.op.idx 0, List.mem_append_right _ ?_, rfl⟩
        exact List.mem_map.2 ⟨a, List.mem_filter.2 ⟨ha, decide_eq_true hκ⟩, rfl⟩
      rw [kind_mem_decls, and_iff_right hn.1, and_iff_left hm]
      cases κ
      case output => cases isPixel <;> exact Iff.rfl
      case texture | sampler => cases hκ
      all_goals exact Iff.rfl
    · exact temp_declared hnum hn.1
    · exact temp_declared hnum (hn.2.2 o ho)
  · obtain ⟨op, hop⟩ := Option.isSome_iff_exists.1 (hwf i hi).handled
    rw [hop] at hid
    obtain ⟨k, rfl | rfl⟩ := resources_named hid
    · have h0 := numberAt_nonneg (hwf i hi).numbered k
      refine (kind_mem_decls .texture _).trans ?_
      rw [and_iff_right h0]
      simp only [declares_marks (show Kind.type .texture = none from rfl), declares_texture]
      exact Iff.rfl
    · have h0 := numberAt_nonneg (hwf i hi).numbered k
      refine (kind_mem_decls .sampler _).trans ?_
      rw [and_iff_right h0]
      simp only [declares_marks (show Kind.type .sampler = none from rfl), declares_sampler]
      exact Iff.rfl

theorem readArgs_length (h : readArgs ops n p = some (as, q)) : as.length = n := by
  induction n generalizing p as q with
  | zero => exact (Prod.mk.inj (Option.some.inj h)).1 ▸ rfl
  | succ n ih =>
    obtain ⟨⟨a, r⟩, -, h⟩ := Option.bind_eq_some_iff.1 h
    obtain ⟨⟨as', q'⟩, has, h⟩ := Option.map_eq_some_iff.1 h
    obtain ⟨rfl, -⟩ := Prod.mk.inj h
    exact congrArg Nat.succ (ih has)

theorem readInstr_full (h : readInstr m ops p = some i) : i.Full := by
  intro op hop
  obtain ⟨tok, -, h⟩ := Option.bind_eq_some_iff.1 h
  obtain ⟨⟨args, q⟩, hargs, h⟩ := Option.bind_eq_some_iff.1 h
  have htok : i.token = tok ∧ i.args = args := by
    dsimp only at h
    split at h
    · obtain ⟨v, -, rfl⟩ := Option.map_eq_some_iff.1 h
      exact ⟨rfl, rfl⟩
    · obtain rfl := Option.some.inj h
      exact ⟨rfl, rfl⟩
  obtain ⟨rfl, rfl⟩ := htok
  rw [readArgs_length hargs, operandCount]
  unfold Instr.op at hop
  rw [hop]
  rfl

theorem Decodes.full (h : Decodes m stop p is) : ∀ i ∈ is, i.Full := by
  induction h with
  | done => simp
  | step _ hi _ _ ih =>
    intro j hj
    obtain rfl | hj := List.mem_cons.1 hj
    · exact readInstr_full hi
    · exact ih j hj

theorem mem_uses_body {is : List Instr} {id : Ident} (h : ∀ i ∈ is, i.Full)
    (hop : ∀ i ∈ is, i.op.isSome) :
    id ∈ uses (body (stmtsOf is)) ↔ ∃ i ∈ is, id ∈ i.named := by
  rw [uses_body, stmtsOf, List.flatMap_assoc, List.mem_flatMap]
  refine exists_congr fun i => and_congr_right fun hi => ?_
  obtain ⟨op, hop⟩ := Option.isSome_iff_exists.1 (hop i hi)
  rw [Instr.named, Instr.code, hop]
  exact code_names op (h i hi op hop) id

/-- A shader's text is scoped exactly when each instruction names only what is available. -/
theorem scope_law (m : Memory) (size : U32) (s : Shader m size) (behind : Int → Bool)
    (hwf : ∀ i ∈ s.is, i.WellFormed) : Scoped (s.msl behind) ↔
      ∀ i ∈ s.is, ∀ id ∈ i.named, Available s.prog.isPixel s.is id := by
  have hfull := s.decodes.full
  rw [Shader.msl, scoped_iff]
  constructor
  · intro h i hi id hid
    refine (available_iff hfull hwf hi hid).1 (h id ?_)
    exact (mem_uses_body hfull fun i hi => (hwf i hi).handled).2 ⟨i, hi, hid⟩
  · intro h id hid
    obtain ⟨i, hi, hid⟩ := (mem_uses_body hfull fun i hi => (hwf i hi).handled).1 hid
    exact (available_iff hfull hwf hi hid).2 (h i hi id hid)

instance (a : Arg) : Decidable a.Numbered :=
  inferInstanceAs (Decidable (_ ∧ _ ∧ ∀ o ∈ a.rel 1, 0 ≤ o.number))

instance (i : Instr) : Decidable i.WellFormed :=
  decidable_of_iff (i.op.isSome ∧ ∀ a ∈ i.args, a.Numbered)
    ⟨fun h => ⟨h.1, h.2⟩, fun h => ⟨h.handled, h.numbered⟩⟩

instance (ps : List Piece) : Decidable (Scoped ps) :=
  inferInstanceAs (Decidable (∀ id ∈ uses ps, _))

instance (i : Instr) (n : Int) : Decidable (i.Provides n) := inferInstanceAs (Decidable (_ ∨ _))

instance decidableProvided (n : Int) : (is : List Instr) → Decidable (Provided n is)
  | [] => inferInstanceAs (Decidable False)
  | _ :: is =>
    have := decidableProvided n is
    inferInstanceAs (Decidable (_ ∨ _))

instance (isPixel : Bool) (is : List Instr) : (id : Ident) → Decidable (Available isPixel is id)
  | .temp n => inferInstanceAs (Decidable (Provided n is))
  | .input _ | .cb _ => inferInstanceAs (Decidable (_ < _))
  | .output _ => inferInstanceAs (Decidable (_ < _))
  | .texture _ | .sampler _ => inferInstanceAs (Decidable (_ ∧ _))

/-- A vertex shader that moves `v0` by `r0` to `o0`. -/
def copyBlob : Pe.Buffer := container [0x10050, 21, 0x0300005f, 0x001010f2, 0, 0x03000065,
  0x001020f2, 0, 0x02000068, 1, 0x05000036, 0x001000f2, 0, 0x00101e46, 0, 0x05000036, 0x001020f2, 0,
  0x00100e46, 0, 0x0100003e]

def copyShader : Shader (blob copyBlob) 128 where
  prog := ⟨44, 84, false, 52, 128⟩
  is := (decode (blob copyBlob) 128 7 52).get (by decide)
  found := by decide
  decodes := decode_sound (Option.some_get _).symm

theorem scope_law_copy : Scoped (copyShader.msl fun _ => false) :=
  (scope_law (blob copyBlob) 128 copyShader (fun _ => false) (by decide)).2 (by decide)

/-- A pixel shader that samples `t16`, which it declares, into `o0`. -/
def t16Blob : Pe.Buffer := container [0x50, 25, 0x04001858, 0x00107000, 16, 0x5555, 0x0300005a,
  0x00106000, 0, 0x03001062, 0x00101032, 0, 0x03000065, 0x001020f2, 0, 0x09000045, 0x001020f2, 0,
  0x00101046, 0, 0x00107e46, 16, 0x00106000, 0, 0x0100003e]

def t16Shader : Shader (blob t16Blob) 144 where
  prog := ⟨44, 100, true, 52, 144⟩
  is := (decode (blob t16Blob) 144 7 52).get (by decide)
  found := by decide
  decodes := decode_sound (Option.some_get _).symm

/-- The parameter list stops at `t15`. -/
theorem t16_undeclared : (∀ i ∈ t16Shader.is, i.WellFormed) ∧
    .texture 16 ∈ uses (t16Shader.msl fun _ => false) ∧
    .texture 16 ∉ decls (t16Shader.msl fun _ => false) ∧
    ¬ Scoped (t16Shader.msl fun _ => false) := by
  decide

end WineGlass.Dxbc
