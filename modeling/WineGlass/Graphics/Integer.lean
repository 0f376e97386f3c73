import WineGlass.Graphics.Meaning
import WineGlass.Graphics.Scope

/-!
# Integer shaders

Where the emitted assignments and Shader Model agree: a comparison is printed as
1.0, MOVC's condition and a relative index as floats, a negated source as a float
whose sign is flipped, and of a product only the low half is kept.
-/

namespace WineGlass.Dxbc

-- ---------------------------------------------------------------------------
-- Programs
-- ---------------------------------------------------------------------------

/-- A destination: a mask of a temp or an output that no index is relative for. -/
structure Arg.Dest (a : Arg) : Prop where
  slot : a.slot.isSome
  masked : a.op.numComp = 2 ∧ a.op.selMode = 0
  some : dest a ≠ []
  direct : a.rel 0 = none

/-- A source: a swizzle or one component of a temp, an input or a constant buffer, of which
an input's number and the place in a buffer may be relative to a temp. -/
structure Arg.Source (a : Arg) : Prop where
  type : a.op.type = otTemp ∨ a.op.type = otInput ∨ a.op.type = otCbuffer
  wide : a.op.numComp = 2
  selMode : a.op.selMode = 1 ∨ a.op.selMode = 2
  direct : a.op.type = otTemp ∨ a.op.type = otCbuffer → a.rel 0 = none
  relative : ∀ r ∈ a.refs, ∀ o ∈ r.rel,
    o.type = otTemp ∧ o.numComp = 2 ∧ (o.selMode = 1 ∨ o.selMode = 2)

/-- A source of an integer instruction, perhaps negated. -/
structure Arg.IntSource (a : Arg) : Prop extends a.Source where
  modifier : a.op.modifier = 0 ∨ a.op.modifier = 1

def Op.declaration : Op → Bool
  | .dclTemps | .dclGlobalflags | .dclCb | .dclSampler | .dclResource | .dclInput | .dclInputPs
  | .dclInputSiv | .dclInputPsSiv | .dclOutput | .dclOutputSiv => true
  | _ => false

/-- The instructions of an integer shader. -/
inductive Op.Fits : Op → List Arg → Prop
  | mov (d : Arg.Dest od) (a : Arg.Source oa) : Fits .mov [od, oa]
  | movc (d : Arg.Dest od) (a : Arg.Source oa) (ha : oa.op.modifier = 0) (b : Arg.Source ob)
      (c : Arg.Source oc) : Fits .movc [od, oa, ob, oc]
  | imul (hi : ohi.op.type = otNull ∨ Arg.Dest ohi) (lo : olo.op.type = otNull ∨ Arg.Dest olo)
      (a : Arg.IntSource oa) (b : Arg.IntSource ob) : Fits .imul [ohi, olo, oa, ob]
  | alu1 (h : op.alu1 = some f) (d : Arg.Dest od) (a : Arg.IntSource oa) : Fits op [od, oa]
  | alu (h : op.alu = some f) (d : Arg.Dest od) (a : Arg.IntSource oa) (b : Arg.IntSource ob) :
      Fits op [od, oa, ob]
  | compare (h : op.compare = some f) (d : Arg.Dest od) (a : Arg.IntSource oa)
      (b : Arg.IntSource ob) : Fits op [od, oa, ob]
  | declaration (h : op.declaration) (hl : args.length = op.operands) : Fits op args
  | ret : Fits .ret []

/-- An integer shader's instruction. -/
def Instr.Integer (i : Instr) : Prop := ∃ op, i.op = some op ∧ op.Fits i.args

-- ---------------------------------------------------------------------------
-- Where the two agree
-- ---------------------------------------------------------------------------

section
variable (D : Device) (env : Env) (regs : Regs)

/-- Relative indices name what they should: an input's is 0, a buffer's, as `int()` takes the
float in the first swizzle component, is that of the component meant with the offset added. -/
def Arg.Indexed (a : Arg) : Prop :=
  (a.op.type = otInput → ∀ o ∈ a.rel 0, regs (.temp o.number) (o.select 0) = 0) ∧
  (a.op.type = otCbuffer → ∀ o ∈ a.rel 1, D.toInt (regs (.temp o.number) (o.comp 0)) =
    (a.op.idx 1 + regs (.temp o.number) (o.select 0)).toInt)

/-- A negated source is one that flipping the sign bit negates. -/
def Arg.Negates (a : Arg) (ps : List Nat) : Prop :=
  a.op.modifier = 1 → ∀ p ∈ ps, a.read env regs p = 0x40000000 ∨ a.read env regs p = 0xc0000000

def Arg.Agrees (a : Arg) (ps : List Nat) : Prop := a.Indexed D regs ∧ a.Negates env regs ps

/-- MOVC: the device finds the condition different from 0.0 when it has a bit set, or both
choices are the same. -/
def Chooses (sat : Bool) (od oa ob oc : Arg) : Prop :=
  ∀ p ∈ dest od, (D.ne (oa.int env regs p) 0 = true ↔ oa.int env regs p ≠ 0) ∨
    saturated D sat (ob.float env regs p) = saturated D sat (oc.float env regs p)

/-- IMUL: the high half goes nowhere, or the low half is written over it, or it is there. -/
def HighHeld (ohi olo oa ob : Arg) : Prop :=
  ∀ s, ohi.slot = some s → ∀ p ∈ dest ohi, olo.slot = some s ∧ p ∈ dest olo ∨
    regs s p = mulHigh (oa.int env regs p) (ob.int env regs p)

/-- What the sources must meet. -/
def Op.Sources : Op → List Arg → Prop
  | .mov, [_, oa] => oa.Indexed D regs
  | .movc, [_, oa, ob, oc] => oa.Indexed D regs ∧ ob.Indexed D regs ∧ oc.Indexed D regs
  | .imul, [_, olo, oa, ob] => oa.Agrees D env regs (dest olo) ∧ ob.Agrees D env regs (dest olo)
  | _, [od, oa] => oa.Agrees D env regs (dest od)
  | _, [od, oa, ob] => oa.Agrees D env regs (dest od) ∧ ob.Agrees D env regs (dest od)
  | _, _ => True

/-- What must hold of the values; an integer comparison must not be true. -/
def Op.Values (sat : Bool) : Op → List Arg → Prop
  | .movc, [od, oa, ob, oc] => Chooses D env regs sat od oa ob oc
  | .imul, [ohi, olo, oa, ob] => HighHeld env regs ohi olo oa ob
  | op, [od, oa, ob] => ∀ f, op.compare = some f → ∀ p ∈ dest od,
    f (oa.int env regs p) (ob.int env regs p) = false
  | _, _ => True

def Instr.Sources (i : Instr) : Prop := ∀ op, i.op = some op → op.Sources D env regs i.args

def Instr.Values (i : Instr) : Prop :=
  ∀ op, i.op = some op → op.Values D env regs (i.token.getLsbD 13) i.args

def Instr.Meets (i : Instr) : Prop := i.Sources D env regs ∧ i.Values D env regs

end

/-- Every instruction up to the first RET agrees in the state it runs in. -/
def RunMeets (D : Device) (env : Env) : List Instr → Regs → Prop
  | [], _ => True
  | i :: is, regs => i.op = some .ret ∨
    i.Meets D env regs ∧ RunMeets D env is (i.dx D env regs)

-- ---------------------------------------------------------------------------
-- Registers
-- ---------------------------------------------------------------------------

theorem lookup_zip_map (f : Nat → U32) (ps : List Nat) (c : Nat) :
    (ps.zip (ps.map f)).lookup c = if c ∈ ps then some (f c) else none := by
  induction ps with
  | nil => rfl
  | cons p ps ih =>
    rw [List.map_cons, List.zip_cons_cons, List.lookup_cons, ih]
    by_cases h : c = p
    · simp [h]
    · have hb : (c == p) = false := beq_false_of_ne h
      simp [h, hb]

theorem write_congr {regs : Regs} (h : ∀ p ∈ ps, f p = g p) :
    regs.write s ps f = regs.write s ps g := by
  funext t c
  unfold Regs.write
  split
  · rename_i hc
    exact h c hc.2
  · rfl

theorem write_inj {regs : Regs} (hs : s.isSome) :
    regs.write s ps f = regs.write s ps g ↔ ∀ p ∈ ps, f p = g p := by
  obtain ⟨t, rfl⟩ := Option.isSome_iff_exists.1 hs
  refine ⟨fun h p hp => ?_, write_congr⟩
  have := congrFun (congrFun h t) p
  simpa [Regs.write, hp] using this

/-- A write under another one is seen where that one leaves it. -/
theorem write_write {regs : Regs} :
    (regs.write s ps f).write t qs g = regs.write t qs g ↔
      ∀ u, s = some u → ∀ p ∈ ps, t = some u ∧ p ∈ qs ∨ regs u p = f p := by
  constructor
  · rintro h u rfl p hp
    have h := congrFun (congrFun h u) p
    by_cases ht : t = some u ∧ p ∈ qs
    · exact .inl ht
    · simp only [Regs.write, if_neg ht, true_and, if_pos hp] at h
      exact .inr h.symm
  · intro h
    funext u p
    unfold Regs.write
    split
    · rfl
    · rename_i ht
      split
      · rename_i hs
        exact ((h u hs.1 p hs.2).resolve_left ht).symm
      · rfl

theorem write_none {regs : Regs} : regs.write none ps f = regs := by
  funext t c
  exact if_neg fun h => nomatch h.1

variable {D : Device} {env : Env} {regs : Regs} {a od oa ob oc : Arg} {ps : List Nat} {e : Expr}

theorem operandBase_slot (a : Arg) : (operandBase a).slot = a.slot := by
  unfold operandBase Arg.slot
  split
  · rfl
  split
  · rename_i hi
    rw [hi]
    rfl
  split
  · rfl
  split
  · split <;> rfl
  · rfl

/-- An assignment whose right side has a value for each component of the mask. -/
theorem exec_assign (hd : od.slot.isSome)
    (he : e.eval D env regs = some (.num .float ((dest od).map f))) :
    (assign od sat e).exec D env regs =
      some (regs.write od.slot (dest od) fun p => saturated D sat (f p)) := by
  obtain ⟨s, hs⟩ := Option.isSome_iff_exists.1 hd
  have hys : (if sat then ((dest od).map f).map D.saturate else (dest od).map f) =
      (dest od).map fun p => saturated D sat (f p) := by
    cases sat
    · rfl
    · exact List.map_map
  rw [assign, Stmt.exec, he, operandBase_slot, hs]
  simp only [List.length_map, if_true, hys, lookup_zip_map]
  refine congrArg some (funext fun t => funext fun c => ?_)
  unfold Regs.write
  by_cases ht : s = t
  · by_cases hc : c ∈ dest od <;> simp [ht, hc]
  · simp [ht]

-- ---------------------------------------------------------------------------
-- Sources
-- ---------------------------------------------------------------------------

theorem Arg.Source.comps (h : Arg.Source a) (ps : List Nat) :
    sourceComps a.op ps = ps.map a.op.select := by
  unfold sourceComps
  obtain hm | hm := h.selMode
  · rw [if_pos ⟨h.wide, hm⟩]
    refine List.map_congr_left fun p _ => ?_
    rw [Operand.select, if_pos hm]
  · have h1 : (2 : U32) ≠ 1 := by decide
    rw [if_neg fun hc => h1 (hm ▸ hc.2), if_pos ⟨h.wide, hm⟩]
    refine List.map_congr_left fun p _ => ?_
    rw [Operand.select, if_neg (hm ▸ h1)]

theorem Arg.Source.not_imm (h : Arg.Source a) : a.op.type ≠ otImm32 := by
  rintro he
  obtain ht | ht | ht := h.type
  all_goals
    rw [he] at ht
    revert ht
    decide

/-- The register that a source names is the one it means, when its index does. -/
theorem Arg.Source.base_read (h : Arg.Source a) (hi : a.Indexed D regs) :
    (operandBase a).read D env regs (a.op.select p) = a.read env regs p := by
  unfold operandBase Arg.read
  split
  · rfl
  split
  · rename_i ht
    cases hr : a.rel 0 with
    | none =>
      rw [Arg.address, hr]
      rfl
    | some o =>
      have h0 := hi.1 ht o hr
      rw [Arg.address, hr]
      simp only [h0, BitVec.ofNat_eq_ofNat, BitVec.add_zero]
      rfl
  split
  · rename_i ht hin ho
    rw [ho, if_neg (by decide)]
    obtain ht | ht | ht := h.type <;> rw [ho] at ht <;> exact absurd ht (by decide)
  split
  · rename_i ht
    cases hr : a.rel 1 with
    | none =>
      rw [Arg.address, hr]
      rfl
    | some o =>
      have h1 := hi.2 ht o hr
      rw [Arg.address, hr]
      dsimp only [Base.read]
      rw [h1]
  · rename_i ht hin ho hc
    obtain h | h | h := h.type
    · exact absurd h ht
    · exact absurd h hin
    · exact absurd h hc

theorem modified_eval (he : e.eval D env regs = some (.num .float (ps.map f))) :
    (modified m e).eval D env regs =
      some (.num .float (ps.map fun p => floatModified m (f p))) := by
  unfold modified floatModified
  split
  · simp only [Expr.eval, he, List.map_map]
    rfl
  split
  · simp only [Expr.eval, he, List.map_map]
    rfl
  split
  · simp only [Expr.eval, he, List.map_map]
    rfl
  · exact he

theorem Arg.Source.eval (h : Arg.Source a) (hi : a.Indexed D regs) (ps : List Nat) :
    (srcStr a ps).eval D env regs = some (.num .float (ps.map (a.float env regs))) := by
  refine modified_eval ?_
  rw [if_neg h.not_imm, Expr.eval, h.comps, List.map_map]
  refine congrArg (fun xs => some (Val.num .float xs)) (List.map_congr_left fun p _ => ?_)
  exact h.base_read hi

/-- Flipping the sign bit of these negates them. -/
theorem flip_neg (h : x = 0x40000000 ∨ x = 0xc0000000) : flip x = -x := by
  obtain rfl | rfl := h <;> decide

theorem Arg.IntSource.float_int (h : Arg.IntSource a) (hn : a.Negates env regs ps) (hp : p ∈ ps) :
    a.float env regs p = a.int env regs p := by
  unfold Arg.float Arg.int floatModified
  obtain hm | hm := h.modifier
  · rw [hm]
    rfl
  · rw [if_pos hm, if_pos hm, flip_neg (hn hm p hp)]

theorem Arg.IntSource.eval (h : Arg.IntSource a) (ha : a.Agrees D env regs ps) :
    (srcStr a ps).eval D env regs = some (.num .float (ps.map (a.int env regs))) := by
  rw [h.toSource.eval ha.1]
  exact congrArg (fun xs => some (Val.num .float xs))
    (List.map_congr_left fun p hp => h.float_int ha.2 hp)

-- ---------------------------------------------------------------------------
-- Right sides
-- ---------------------------------------------------------------------------

/-- The value of an expression, component by component. -/
def Expr.Gives (D : Device) (env : Env) (regs : Regs) (e : Expr) (t : Ty) (ps : List Nat)
    (f : Nat → U32) : Prop := e.eval D env regs = some (.num t (ps.map f))

section
variable {x y z : Expr} {f g h : Nat → U32} {t u : Ty}

theorem Expr.Gives.asType (hx : x.Gives D env regs t ps f) :
    (Expr.asType u ps.length x).Gives D env regs u ps f := by
  unfold Gives at *
  simp [eval, hx]

theorem Expr.Gives.splat (one : Bool) : (Expr.splat ps.length one).Gives D env regs .float ps
    fun _ => if one then oneBits else 0 := by
  unfold Gives
  rw [eval, List.map_const']

theorem Expr.Gives.minus (hx : x.Gives D env regs .int ps f) :
    (Expr.minus x).Gives D env regs .int ps fun p => -f p := by
  unfold Gives at *
  simp [eval, hx]

theorem Expr.Gives.compl (hx : x.Gives D env regs .uint ps f) :
    (Expr.compl x).Gives D env regs .uint ps fun p => ~~~f p := by
  unfold Gives at *
  simp [eval, hx]

theorem Expr.Gives.arith (hx : x.Gives D env regs t ps f) (hy : y.Gives D env regs t ps g)
    (ho : o.arith t = some k) :
    (Expr.binary o x y).Gives D env regs t ps fun p => k (f p) (g p) := by
  unfold Gives at *
  simp [eval, hx, hy, Val.binary, ho, List.zipWith_map, List.zipWith_self]

theorem Expr.Gives.minMax (hx : x.Gives D env regs .int ps f) (hy : y.Gives D env regs .int ps g)
    (ho : o.int = some k) :
    (Expr.fn2 o x y).Gives D env regs .int ps fun p => k (f p) (g p) := by
  unfold Gives at *
  simp [eval, hx, hy, ho, List.zipWith_map, List.zipWith_self]

/-- A choice by a test, component by component. -/
theorem Expr.Gives.select (hx : x.Gives D env regs .float ps f)
    (hy : y.Gives D env regs .float ps g) {v w : Expr} (hv : v.Gives D env regs t ps h)
    (hw : w.Gives D env regs t ps k) (hn : o.arith t = none) (ho : o.test D t = some test) :
    (Expr.select x y (.binary o v w)).Gives D env regs .float ps
      fun p => if test (h p) (k p) then g p else f p := by
  unfold Gives at *
  simp [eval, hx, hy, hv, hw, Val.binary, Val.select, hn, ho, List.zipWith_map, List.zipWith_self,
    List.zip_map']

end

-- ---------------------------------------------------------------------------
-- One instruction
-- ---------------------------------------------------------------------------

theorem run_assign (hd : od.slot.isSome) (he : e.Gives D env regs .float (dest od) f) :
    runMsl D env [assign od sat e] regs =
      some (regs.write od.slot (dest od) fun p => saturated D sat (f p)) := by
  have hret : assign od sat e ≠ retLine := nofun
  rw [runMsl, if_neg hret, exec_assign hd he]
  rfl

theorem bitwise_gives (ho : BinOp.arith t o = some k) {x y : Expr} {f g : Nat → U32}
    (hx : x.Gives D env regs .float ps f) (hy : y.Gives D env regs .float ps g) :
    (bitwise t o ps.length x y).Gives D env regs .float ps fun p => k (f p) (g p) :=
  (hx.asType.arith hy.asType ho).asType

theorem intMinMax_gives (ho : Fn2.int o = some k) {x y : Expr} {f g : Nat → U32}
    (hx : x.Gives D env regs .float ps f) (hy : y.Gives D env regs .float ps g) :
    (intMinMax o ps.length x y).Gives D env regs .float ps fun p => k (f p) (g p) :=
  (hx.asType.minMax hy.asType ho).asType

theorem intCompare_gives (hn : BinOp.arith .int o = none) (ho : BinOp.test D .int o = some k)
    {x y : Expr} {f g : Nat → U32}
    (hx : x.Gives D env regs .float ps f) (hy : y.Gives D env regs .float ps g) :
    (intCompare o ps.length x y).Gives D env regs .float ps
      fun p => if k (f p) (g p) then oneBits else 0 :=
  (Expr.Gives.splat false).select (.splat true) hx.asType hy.asType hn ho

/-- Cases print the right side of their operation. -/
theorem alu1_code (h : Op.alu1 op = some f) : ∃ rhs : Nat → Expr → Expr,
    (∀ sat nz, op.code sat nz = with2 (unary false rhs)) ∧
    ∀ x g, x.Gives D env regs .float ps g →
      (rhs ps.length x).Gives D env regs .float ps fun p => f (g p) := by
  cases op
  case ineg =>
    cases h
    exact ⟨_, fun _ _ => rfl, fun x g hx => hx.asType.minus.asType⟩
  case not =>
    cases h
    exact ⟨_, fun _ _ => rfl, fun x g hx => hx.asType.compl.asType⟩
  all_goals cases h

theorem alu_code (h : Op.alu op = some f) : ∃ rhs : Nat → Expr → Expr → Expr,
    (∀ sat nz, op.code sat nz = with3 (binary false rhs)) ∧
    ∀ x y g k, x.Gives D env regs .float ps g → y.Gives D env regs .float ps k →
      (rhs ps.length x y).Gives D env regs .float ps fun p => f (g p) (k p) := by
  cases op
  case iadd => exact ⟨_, fun _ _ => rfl, fun _ _ _ _ => bitwise_gives (t := .int) (o := .add) h⟩
  case ishl => exact ⟨_, fun _ _ => rfl, fun _ _ _ _ => bitwise_gives (t := .int) (o := .shl) h⟩
  case ishr => exact ⟨_, fun _ _ => rfl, fun _ _ _ _ => bitwise_gives (t := .int) (o := .shr) h⟩
  case ushr => exact ⟨_, fun _ _ => rfl, fun _ _ _ _ => bitwise_gives (t := .uint) (o := .shr) h⟩
  case and => exact ⟨_, fun _ _ => rfl, fun _ _ _ _ => bitwise_gives (t := .uint) (o := .and) h⟩
  case or => exact ⟨_, fun _ _ => rfl, fun _ _ _ _ => bitwise_gives (t := .uint) (o := .or) h⟩
  case xor => exact ⟨_, fun _ _ => rfl, fun _ _ _ _ => bitwise_gives (t := .uint) (o := .xor) h⟩
  case imin => exact ⟨_, fun _ _ => rfl, fun _ _ _ _ => intMinMax_gives (o := .min) h⟩
  case imax => exact ⟨_, fun _ _ => rfl, fun _ _ _ _ => intMinMax_gives (o := .max) h⟩
  all_goals cases h

theorem compare_code (h : Op.compare op = some f) : ∃ rhs : Nat → Expr → Expr → Expr,
    (∀ sat nz, op.code sat nz = with3 (binary false rhs)) ∧
    ∀ x y g k, x.Gives D env regs .float ps g → y.Gives D env regs .float ps k →
      (rhs ps.length x y).Gives D env regs .float ps
        fun p => if f (g p) (k p) then oneBits else 0 := by
  cases op
  case ieq => exact ⟨_, fun _ _ => rfl, fun _ _ _ _ => intCompare_gives (o := .eq) rfl h⟩
  case ine => exact ⟨_, fun _ _ => rfl, fun _ _ _ _ => intCompare_gives (o := .ne) rfl h⟩
  case ilt => exact ⟨_, fun _ _ => rfl, fun _ _ _ _ => intCompare_gives (o := .lt) rfl h⟩
  case ige => exact ⟨_, fun _ _ => rfl, fun _ _ _ _ => intCompare_gives (o := .ge) rfl h⟩
  all_goals cases h

theorem dx_alu1 (h : Op.alu1 op = some f) : op.dx D env regs sat [od, oa] =
    regs.write od.slot (dest od) fun p => f (oa.int env regs p) := by
  cases op <;> cases h <;> rfl

theorem dx_alu (h : Op.alu op = some f) : op.dx D env regs sat [od, oa, ob] =
    regs.write od.slot (dest od) fun p => f (oa.int env regs p) (ob.int env regs p) := by
  cases op <;> cases h <;> rfl

theorem dx_compare (h : Op.compare op = some f) : op.dx D env regs sat [od, oa, ob] =
    regs.write od.slot (dest od) fun p =>
      if f (oa.int env regs p) (ob.int env regs p) then BitVec.allOnes 32 else 0 := by
  cases op <;> cases h <;> rfl

theorem Op.Sources.one (h : Op.Sources D env regs op [od, oa]) (hop : op.alu1 = some f) :
    oa.Agrees D env regs (dest od) := by
  cases op <;> cases hop <;> exact h

theorem values_alu1 (h : Op.alu1 op = some f) : op.Values D env regs sat [od, oa] := by
  cases op <;> cases h <;> exact trivial

theorem Op.Sources.two (h : Op.Sources D env regs op [od, oa, ob]) :
    oa.Agrees D env regs (dest od) ∧ ob.Agrees D env regs (dest od) := by
  cases op <;> exact h

theorem values_alu (h : Op.alu op = some f) : op.Values D env regs sat [od, oa, ob] := by
  cases op <;> cases h <;> nofun

theorem values_compare (h : Op.compare op = some f) : op.Values D env regs sat [od, oa, ob] ↔
    ∀ p ∈ dest od, f (oa.int env regs p) (ob.int env regs p) = false := by
  cases op <;> cases h <;> exact ⟨fun h => h _ rfl, fun h _ hf => by cases hf; exact h⟩

theorem mov_iff (d : od.Dest) (a : oa.Source) (hs : oa.Indexed D regs) :
    runMsl D env (Op.mov.code sat nz [od, oa]).stmts regs =
      some (Op.mov.dx D env regs sat [od, oa]) :=
  run_assign d.slot (a.eval hs (dest od))

/-- Two choices between the same values come to the same. -/
theorem choice_iff {P Q : Prop} [Decidable P] [Decidable Q] {f : U32 → U32} :
    f (if P then x else y) = f (if Q then x else y) ↔ (P ↔ Q) ∨ f x = f y := by
  by_cases hp : P <;> by_cases hq : Q
  · simp [hp, hq]
  · simp [hp, hq]
  · simp only [hp, hq, if_true, if_false, false_iff, not_true_eq_false, false_or]
    exact eq_comm
  · simp [hp, hq]

theorem movc_iff (d : od.Dest) (a : oa.Source) (ha : oa.op.modifier = 0) (b : ob.Source)
    (c : oc.Source) (hs : Op.movc.Sources D env regs [od, oa, ob, oc]) :
    runMsl D env (Op.movc.code sat nz [od, oa, ob, oc]).stmts regs =
      some (Op.movc.dx D env regs sat [od, oa, ob, oc]) ↔ Chooses D env regs sat od oa ob oc := by
  have hint : oa.float env regs = oa.int env regs := by
    funext p
    unfold Arg.float Arg.int
    rw [ha]
    rfl
  have hx : (srcStr oa (dest od)).Gives D env regs .float (dest od) (oa.int env regs) :=
    hint ▸ a.eval hs.1 (dest od)
  have he := Expr.Gives.select (D := D) (c.eval hs.2.2 (dest od)) (b.eval hs.2.1 (dest od)) hx
    (Expr.Gives.splat false) (o := .ne) rfl rfl
  refine (Iff.of_eq (congrArg (· = _) (run_assign d.slot he))).trans ?_
  refine Option.some_inj.trans ((write_inj d.slot).trans (forall₂_congr fun p _ => ?_))
  exact choice_iff

theorem null_slot (h : a.op.type = otNull) : a.slot = none := by
  unfold Arg.slot
  rw [h]
  rfl

theorem Arg.Dest.not_null (h : a.Dest) : a.op.type ≠ otNull := by
  intro hn
  have := h.slot
  rw [null_slot hn] at this
  cases this

theorem imul_iff {ohi olo : Arg} (lo : olo.op.type = otNull ∨ olo.Dest) (a : oa.IntSource)
    (b : ob.IntSource) (hs : Op.imul.Sources D env regs [ohi, olo, oa, ob]) :
    runMsl D env (Op.imul.code sat nz [ohi, olo, oa, ob]).stmts regs =
      some (Op.imul.dx D env regs sat [ohi, olo, oa, ob]) ↔
        HighHeld env regs ohi olo oa ob := by
  have hrun : runMsl D env (Op.imul.code sat nz [ohi, olo, oa, ob]).stmts regs =
      some (regs.write olo.slot (dest olo) fun p => oa.int env regs p * ob.int env regs p) := by
    obtain hn | d := lo
    · have hc : (Op.imul.code sat nz [ohi, olo, oa, ob]).stmts = [] := by
        change (imulCase ohi olo oa ob).stmts = []
        rw [imulCase, if_pos hn]
      rw [hc, null_slot hn, write_none]
      rfl
    · have hc : (Op.imul.code sat nz [ohi, olo, oa, ob]).stmts =
          (binary false (bitwise .int .mul) olo oa ob).stmts := by
        change (imulCase ohi olo oa ob).stmts = _
        rw [imulCase, if_neg d.not_null]
      rw [hc]
      exact run_assign d.slot (bitwise_gives rfl (a.eval hs.1) (b.eval hs.2))
  rw [hrun, Option.some_inj]
  exact eq_comm.trans write_write

/-- 1.0 is not all ones. -/
theorem one_iff {b : Bool} : saturated D false (if b then oneBits else 0) =
    (if b then BitVec.allOnes 32 else 0) ↔ b = false := by
  cases b
  · simp [saturated]
  · exact iff_of_false (show oneBits ≠ BitVec.allOnes 32 by decide) nofun

/-- A declaration has at most one operand. -/
theorem declaration_args (h : Op.declaration op) (hl : args.length = op.operands) :
    args = [] ∨ ∃ a, args = [a] := by
  cases op
  case dclTemps | dclGlobalflags => exact .inl (List.length_eq_zero_iff.1 hl)
  case dclCb | dclSampler | dclResource | dclInput | dclInputPs | dclInputSiv | dclInputPsSiv
    | dclOutput | dclOutputSiv => exact .inr (List.length_eq_one_iff.1 hl)
  all_goals cases h

/-- Declarations print nothing and do nothing. -/
theorem declaration_run (h : Op.declaration op) (hl : args.length = op.operands) :
    runMsl D env (op.code sat nz args).stmts regs = some (op.dx D env regs sat args) := by
  obtain rfl | ⟨a, rfl⟩ := declaration_args h hl <;> cases op <;> cases h <;> rfl

theorem declaration_values (h : Op.declaration op) (hl : args.length = op.operands) :
    op.Values D env regs sat args := by
  obtain rfl | ⟨a, rfl⟩ := declaration_args h hl <;> cases op <;> cases h <;> trivial

/-- The emitted statements of an instruction do what it means exactly when its values fit. -/
theorem step_iff {op : Op} (hf : op.Fits args) (hs : op.Sources D env regs args) :
    runMsl D env (op.code sat nz args).stmts regs = some (op.dx D env regs sat args) ↔
      op.Values D env regs sat args := by
  cases hf with
  | mov d a => exact iff_of_true (mov_iff d a hs) trivial
  | movc d a ha b c => exact movc_iff d a ha b c hs
  | imul hi lo a b => exact imul_iff lo a b hs
  | alu1 h d a =>
    obtain ⟨rhs, hc, hrhs⟩ := alu1_code h
    refine iff_of_true ?_ (values_alu1 h)
    rw [hc, dx_alu1 h]
    exact run_assign d.slot (hrhs _ _ (a.eval (hs.one h)))
  | alu h d a b =>
    obtain ⟨rhs, hc, hrhs⟩ := alu_code h
    refine iff_of_true ?_ (values_alu h)
    rw [hc, dx_alu h]
    exact run_assign d.slot (hrhs _ _ _ _ (a.eval hs.two.1) (b.eval hs.two.2))
  | compare h d a b =>
    obtain ⟨rhs, hc, hrhs⟩ := compare_code h
    have hrun : runMsl D env [assign _ false _] regs = _ :=
      run_assign d.slot (hrhs _ _ _ _ (a.eval hs.two.1) (b.eval hs.two.2))
    rw [hc, dx_compare h, values_compare h]
    refine (Iff.of_eq (congrArg (· = _) hrun)).trans ?_
    exact Option.some_inj.trans ((write_inj d.slot).trans (forall₂_congr fun p _ => one_iff))
  | declaration h hl => exact iff_of_true (declaration_run h hl) (declaration_values h hl)
  | ret => exact iff_of_true rfl trivial

-- ---------------------------------------------------------------------------
-- Programs
-- ---------------------------------------------------------------------------

/-- After any number of the instructions, the registers hold what they mean. -/
def Computes (D : Device) (env : Env) (is : List Instr) (regs : Regs) : Prop :=
  ∀ k, runMsl D env (stmtsOf (is.take k)) regs = some (runDx D env (is.take k) regs)

/-- An operand without a relative index, and not negated. -/
def Arg.Plain (a : Arg) : Prop := a.rel 0 = none ∧ a.rel 1 = none ∧ a.op.modifier ≠ 1

theorem Arg.Plain.indexed (h : a.Plain) : a.Indexed D regs := by
  refine ⟨fun _ o ho => ?_, fun _ o ho => ?_⟩
  · rw [h.1] at ho
    cases ho
  · rw [h.2.1] at ho
    cases ho

theorem Arg.Plain.agrees (h : a.Plain) : a.Agrees D env regs ps :=
  ⟨h.indexed, fun hm => absurd hm h.2.2⟩

theorem plain_sources {op : Op} (hf : op.Fits args) (h : ∀ a ∈ args, a.Plain) :
    op.Sources D env regs args := by
  cases hf with
  | mov d a => exact (h _ (by simp)).indexed
  | movc d a ha b c =>
    exact ⟨(h _ (by simp)).indexed, (h _ (by simp)).indexed, (h _ (by simp)).indexed⟩
  | imul hi lo a b => exact ⟨(h _ (by simp)).agrees, (h _ (by simp)).agrees⟩
  | alu1 hop d a => cases op <;> cases hop <;> exact (h _ (by simp)).agrees
  | alu hop d a b | compare hop d a b =>
    cases op <;> cases hop <;> exact ⟨(h _ (by simp)).agrees, (h _ (by simp)).agrees⟩
  | declaration hop hl =>
    cases op
    case dclTemps | dclGlobalflags =>
      obtain rfl := List.length_eq_zero_iff.1 hl
      trivial
    case dclCb | dclSampler | dclResource | dclInput | dclInputPs | dclInputSiv | dclInputPsSiv
      | dclOutput | dclOutputSiv =>
      obtain ⟨a, rfl⟩ := List.length_eq_one_iff.1 hl
      trivial
    all_goals cases hop
  | ret => trivial

theorem runMsl_append (ts : List Stmt) (h : retLine ∉ ss) :
    runMsl D env (ss ++ ts) regs = (runMsl D env ss regs).bind (runMsl D env ts) := by
  induction ss generalizing regs with
  | nil => rfl
  | cons s ss ih =>
    have hs : s ≠ retLine := fun he => h (he ▸ List.mem_cons_self)
    rw [List.cons_append, runMsl, if_neg hs, runMsl, if_neg hs, Option.bind_assoc]
    exact Option.bind_congr fun r _ => ih fun hm => h (List.mem_cons_of_mem _ hm)

theorem fits_no_ret {op : Op} (hf : op.Fits args) (hr : op ≠ .ret) :
    retLine ∉ (op.code sat nz args).stmts := by
  intro hm
  cases hf with
  | mov | movc => cases List.mem_singleton.1 hm
  | @imul ohi olo oa ob =>
    change retLine ∈ (imulCase ohi olo oa ob).stmts at hm
    unfold imulCase at hm
    split at hm
    · cases hm
    · cases List.mem_singleton.1 hm
  | alu1 hop | alu hop | compare hop =>
    cases op <;> cases hop <;> cases List.mem_singleton.1 hm
  | declaration hop =>
    cases op <;> cases hop <;> cases hm
  | ret => exact hr rfl

theorem stmtsOf_cons (i : Instr) (is : List Instr) :
    stmtsOf (i :: is) = i.code.stmts ++ stmtsOf is := List.flatMap_cons

theorem run_ret (h : i.op = some .ret) :
    runMsl D env (stmtsOf (i :: is)) regs = some (runDx D env (i :: is) regs) := by
  have hc : i.code.stmts = [retLine] := by
    rw [Instr.code, h]
    rfl
  rw [stmtsOf_cons, hc, runDx, if_pos h]
  rfl

theorem run_cons {i : Instr} (hi : i.Integer) (hr : i.op ≠ some .ret) :
    runMsl D env (stmtsOf (i :: is)) regs =
      (runMsl D env i.code.stmts regs).bind (runMsl D env (stmtsOf is)) := by
  obtain ⟨op, hop, hf⟩ := hi
  rw [stmtsOf_cons]
  refine runMsl_append _ ?_
  rw [Instr.code, hop]
  exact fits_no_ret hf fun he => hr (he ▸ hop)

/-- One instruction of a program does what it means, given its sources, when its values fit. -/
theorem instr_iff {i : Instr} (hi : i.Integer) (hs : i.Sources D env regs) :
    runMsl D env i.code.stmts regs = some (i.dx D env regs) ↔ i.Values D env regs := by
  obtain ⟨op, hop, hf⟩ := hi
  rw [Instr.code, Instr.dx, Instr.Values, hop]
  refine (step_iff hf (hs op hop)).trans ⟨fun h o ho => ?_, fun h => h op rfl⟩
  cases ho
  exact h

theorem runMeets_computes {is : List Instr} (hi : ∀ i ∈ is, i.Integer)
    (h : RunMeets D env is regs) : Computes D env is regs := by
  intro k
  induction is generalizing regs k with
  | nil => simp [stmtsOf, runMsl, runDx]
  | cons i is ih =>
    cases k with
    | zero => rfl
    | succ k =>
      rw [List.take_succ_cons]
      by_cases hr : i.op = some .ret
      · exact run_ret hr
      · obtain ⟨⟨hs, hv⟩, hrest⟩ := h.resolve_left hr
        have hint := hi i List.mem_cons_self
        rw [run_cons hint hr, (instr_iff hint hs).2 hv, runDx, if_neg hr]
        exact ih (fun j hj => hi j (List.mem_cons_of_mem _ hj)) hrest k

theorem computes_runMeets {is : List Instr} (hi : ∀ i ∈ is, i.Integer)
    (hp : ∀ i ∈ is, ∀ a ∈ i.args, a.Plain) (h : Computes D env is regs) :
    RunMeets D env is regs := by
  induction is generalizing regs with
  | nil => trivial
  | cons i is ih =>
    by_cases hr : i.op = some .ret
    · exact .inl hr
    have hint := hi i List.mem_cons_self
    have hs : i.Sources D env regs := by
      obtain ⟨op, hop, hf⟩ := hint
      intro o ho
      obtain rfl := Option.some.inj (hop.symm.trans ho)
      exact plain_sources hf (hp i List.mem_cons_self)
    have hone : runMsl D env i.code.stmts regs = some (i.dx D env regs) := by
      have h1 := h 1
      rw [List.take_succ_cons, run_cons hint hr, runDx, if_neg hr] at h1
      obtain ⟨r, hrun, he⟩ := Option.bind_eq_some_iff.1 h1
      obtain rfl := Option.some.inj he
      exact hrun
    refine .inr ⟨⟨hs, (instr_iff hint hs).1 hone⟩, ?_⟩
    refine ih (fun j hj => hi j (List.mem_cons_of_mem _ hj))
      (fun j hj => hp j (List.mem_cons_of_mem _ hj)) fun k => ?_
    have hk := h (k + 1)
    rw [List.take_succ_cons, run_cons hint hr, hone, runDx, if_neg hr] at hk
    exact hk

/-- The operations whose values always fit. -/
def Op.Exact (op : Op) : Prop := op ≠ .movc ∧ op ≠ .imul ∧ op.compare = none

/-- A plain program without comparisons, MOVC and IMUL meets every condition. -/
theorem plain_runMeets {is : List Instr} (hi : ∀ i ∈ is, i.Integer)
    (hp : ∀ i ∈ is, ∀ a ∈ i.args, a.Plain) (he : ∀ i ∈ is, ∀ op, i.op = some op → op.Exact) :
    RunMeets D env is regs := by
  induction is generalizing regs with
  | nil => trivial
  | cons i is ih =>
    have hrest := fun r => @ih r (fun j hj => hi j (List.mem_cons_of_mem _ hj))
      (fun j hj => hp j (List.mem_cons_of_mem _ hj)) fun j hj => he j (List.mem_cons_of_mem _ hj)
    refine .inr ⟨⟨fun op hop => ?_, fun op hop => ?_⟩, hrest _⟩
    all_goals
      obtain ⟨o, ho, hf⟩ := hi i List.mem_cons_self
      obtain rfl := Option.some.inj (ho.symm.trans hop)
    · exact plain_sources hf (hp i List.mem_cons_self)
    · obtain ⟨hm, hu, hc⟩ := he i List.mem_cons_self _ hop
      generalize i.args = args at hf
      cases hf with
      | mov => trivial
      | movc => exact absurd rfl hm
      | imul => exact absurd rfl hu
      | alu1 h => exact values_alu1 h
      | alu h => exact values_alu h
      | compare h => exact absurd (h.symm.trans hc) nofun
      | declaration h hl => exact declaration_values h hl
      | ret => trivial

/-- A program whose every instruction meets its conditions computes what it means, and one
without relative indices and negations only such a program. -/
theorem integer_law (m : Memory) (size : U32) (s : Shader m size) (D : Device) (env : Env)
    (regs : Regs) (hi : ∀ i ∈ s.is, i.Integer) :
    (RunMeets D env s.is regs → Computes D env s.is regs) ∧
    ((∀ i ∈ s.is, ∀ a ∈ i.args, a.Plain) →
      (Computes D env s.is regs ↔ RunMeets D env s.is regs)) :=
  ⟨runMeets_computes hi, fun hp => ⟨computes_runMeets hi hp, runMeets_computes hi⟩⟩

-- ---------------------------------------------------------------------------
-- Examples of programs
-- ---------------------------------------------------------------------------

/-- Floats as IEEE 754 has them: NaN differs from all, and the zeros do not differ. -/
def ieee : Device where
  saturate x :=
    if x.msb ∨ 0x7f800000 < x then 0 else if oneBits < x then oneBits else x
  ne x y :=
    0x7f800000 < absolute x || 0x7f800000 < absolute y ||
      (x != y && absolute (x ||| y) != 0)
  toInt x :=
    let e := (absolute x >>> 23).toNat
    let mantissa := (x &&& 0x7fffff ||| 0x800000).toNat
    let n : Int := if e < 150 then mantissa / 2 ^ (150 - e) else mantissa * 2 ^ (e - 150)
    if x.msb then -n else n

/-- An operand of a register by these numbers. -/
def plainArg (tok : U32) (ns : List U32) : Arg where
  op := { ofToken tok 0 with index := ns.map fun n => ⟨n, none⟩ }
  refs := ns.map fun n => ⟨n, none⟩
  texts := by simp [Ref.index]

/-- `dcl v0`, `dcl cb0[4]`, `dcl_temps 1`, `iadd r0, v0, cb0[2]`, `ret`. -/
def addBlob : Pe.Buffer := container [0x10050, 20, 0x0300005f, 0x001010f2, 0, 0x04000059,
  0x00208e46, 0, 4, 0x02000068, 1, 0x0800001e, 0x001000f2, 0, 0x00101e46, 0, 0x00208e46, 0, 2,
  0x0100003e]

def addShader : Shader (blob addBlob) 124 where
  prog := ⟨44, 80, false, 52, 124⟩
  is := [⟨0x0300005f, [plainArg 0x001010f2 [0]], none⟩,
    ⟨0x04000059, [plainArg 0x00208e46 [0, 4]], none⟩, ⟨0x02000068, [], some 1⟩,
    ⟨0x0800001e, [plainArg 0x001000f2 [0], plainArg 0x00101e46 [0], plainArg 0x00208e46 [0, 2]],
      none⟩,
    ⟨0x0100003e, [], none⟩]
  found := by decide
  decodes := @decode_sound (blob addBlob) 124 6 52 _ (by decide)

/-- Inputs and buffers that count up. -/
def someEnv : Env where
  input n c := BitVec.ofInt 32 (4 * n + c)
  cb bank n c := BitVec.ofInt 32 (64 * bank + 4 * n + c)

def noRegs : Regs := fun _ _ => 0

theorem integer_law_add : Computes ieee someEnv addShader.is noRegs := by
  have hi : ∀ i ∈ addShader.is, i.Integer := by
    simp only [addShader, List.forall_mem_cons, List.not_mem_nil, false_imp_iff, implies_true,
      and_true]
    refine ⟨⟨.dclInput, rfl, .declaration rfl rfl⟩, ⟨.dclCb, rfl, .declaration rfl rfl⟩,
      ⟨.dclTemps, rfl, .declaration rfl rfl⟩, ⟨.iadd, rfl, .alu rfl ?_ ?_ ?_⟩, ⟨.ret, rfl, .ret⟩⟩
    · exact ⟨rfl, by decide, by decide, rfl⟩
    · exact ⟨⟨.inr (.inl rfl), rfl, .inl rfl, by decide, by decide⟩, .inl rfl⟩
    · exact ⟨⟨.inr (.inr rfl), rfl, .inl rfl, by decide, by decide⟩, .inl rfl⟩
  refine (integer_law (blob addBlob) 124 addShader ieee someEnv noRegs hi).1 ?_
  refine plain_runMeets hi ?_ ?_
  · unfold Arg.Plain
    decide
  · have he : ∀ i ∈ addShader.is, ∀ op ∈ i.op, op.Exact := by
      unfold Op.Exact
      decide
    exact he

/-- `dcl v0`, `dcl_temps 1`, `ieq r0.x, v0.x, v0.x`, `ret`. -/
def ieqBlob : Pe.Buffer := container [0x10050, 15, 0x0300005f, 0x001010f2, 0, 0x02000068, 1,
  0x07000020, 0x00100012, 0, 0x00101006, 0, 0x00101006, 0, 0x0100003e]

def ieqShader : Shader (blob ieqBlob) 104 where
  prog := ⟨44, 60, false, 52, 104⟩
  is := [⟨0x0300005f, [plainArg 0x001010f2 [0]], none⟩, ⟨0x02000068, [], some 1⟩,
    ⟨0x07000020, [plainArg 0x00100012 [0], plainArg 0x00101006 [0], plainArg 0x00101006 [0]], none⟩,
    ⟨0x0100003e, [], none⟩]
  found := by decide
  decodes := @decode_sound (blob ieqBlob) 104 5 52 _ (by decide)

/-- A true comparison leaves 1.0. -/
theorem true_is_one : (∀ i ∈ ieqShader.is, i.Integer) ∧
    ¬ Computes ieee someEnv ieqShader.is noRegs := by
  constructor
  · simp only [ieqShader, List.forall_mem_cons, List.not_mem_nil, false_imp_iff, implies_true,
      and_true]
    refine ⟨⟨.dclInput, rfl, .declaration rfl rfl⟩, ⟨.dclTemps, rfl, .declaration rfl rfl⟩,
      ⟨.ieq, rfl, .compare rfl ?_ ?_ ?_⟩, ⟨.ret, rfl, .ret⟩⟩
    · exact ⟨rfl, by decide, by decide, rfl⟩
    · exact ⟨⟨.inr (.inl rfl), rfl, .inl rfl, by decide, by decide⟩, .inl rfl⟩
    · exact ⟨⟨.inr (.inl rfl), rfl, .inl rfl, by decide, by decide⟩, .inl rfl⟩
  · intro h
    have hx := congrArg (Option.map fun r => r (.temp 0) 0) (h 4)
    revert hx
    decide

end WineGlass.Dxbc
