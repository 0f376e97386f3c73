import WineGlass.Cpu.Extent

/-!
# What the decoder builds

The 8-bit registers an instruction encodes, by its opcode, are the 8-bit
register operands the decoder gives it; and the operands of shifts, signed
products and calls have the sizes of their forms.
-/

namespace WineGlass.X86

/-- Where the number of an 8-bit register operand is encoded. -/
inductive ByteSource
  | rm | reg | opcode | al | cl
  deriving DecidableEq

/-- The operands that are 8-bit registers, or a ModRM byte may make so. -/
def byteSources1 (opcode : Nat) : List ByteSource :=
  if opcode < 0x40 ∧ opcode % 8 = 0 ∨ opcode = 0x84 ∨ opcode = 0x88 then [.rm, .reg]
  else if opcode < 0x40 ∧ opcode % 8 = 2 ∨ opcode = 0x8A then [.reg, .rm]
  else if opcode < 0x40 ∧ opcode % 8 = 4 ∨ opcode = 0xA8 then [.al]
  else if 0xB0 ≤ opcode ∧ opcode ≤ 0xB7 then [.opcode]
  else if opcode = 0x80 ∨ opcode = 0x82 ∨ opcode = 0xC0 ∨ opcode = 0xC6 ∨ opcode = 0xD0 ∨ opcode = 0xF6
    then [.rm]
  else if opcode = 0xD2 then [.rm, .cl]
  else if opcode = 0xD3 then [.cl]
  else []

/-- SETcc, and MOVZX and MOVSX from a byte. -/
def byteSources2 (op2 : Nat) : List ByteSource :=
  if 0x90 ≤ op2 ∧ op2 ≤ 0x9F ∨ op2 = 0xB6 ∨ op2 = 0xBE then [.rm] else []

/-- The number of an operand that is an 8-bit register. -/
def byteNo (op : Operand) : Option Nat :=
  if op.type = .reg ∧ op.size = 1 then some op.regIndex else none

def byteNos (i : Instruction) : List Nat := [i.op0, i.op1, i.op2].filterMap byteNo

/-- The number at a source, given the operands of the ModRM byte and what the opcode byte holds. -/
def ByteSource.no (m : ModRm) (low : Nat) : ByteSource → Option Nat
  | .rm => if m.rm.type = .reg then some m.rm.regIndex else none
  | .reg => if m.reg.type = .reg then some m.reg.regIndex else none
  | .opcode => some low
  | .al => some 0
  | .cl => some 1

/-- The opcodes `Shape` says nothing special about. -/
def Opcode.ordinary : Opcode → Bool
  | .shl | .shr | .sar | .imul | .call => false
  | _ => true

/-- What an instruction built at operand size `size` looks like. -/
structure Shape (srcs : List ByteSource) (low size : Nat) (m : ModRm) (i : Instruction) : Prop where
  bytes : byteNos i = srcs.filterMap (ByteSource.no m low)
  shift : i.opcode = .shl ∨ i.opcode = .shr ∨ i.opcode = .sar →
    (i.op0.size = 1 ∨ i.op0.size = size) ∧ i.op1.size = 1
  imul : i.opcode = .imul → i.numOperands = 1 ∧ (i.op0.size = 1 ∨ i.op0.size = size) ∨
    i.numOperands = 2 ∧ i.op0 = m.reg ∧ i.op0.size = size ∧ i.op1.size = size ∨
    i.numOperands = 3 ∧ i.op0 = m.reg ∧ i.op0.size = size ∧ i.op1.size = size ∧ i.op2.size = size
  call : i.opcode = .call → i.op0.type = .rel ∨ i.op0.size = 8

-- ---------------------------------------------------------------------------
-- Byte operands
-- ---------------------------------------------------------------------------

theorem byteNo_size (h : op.size ≠ 1) : byteNo op = none := if_neg fun h' => h h'.2

theorem byteNo_rm {m : ModRm} (h : m.Ok 1) (low : Nat) : byteNo m.rm = ByteSource.no m low .rm := by
  simp only [byteNo, ByteSource.no, h.rm, and_true]

theorem byteNo_reg {m : ModRm} (h : m.Ok 1) (low : Nat) : byteNo m.reg = ByteSource.no m low .reg := by
  simp only [byteNo, ByteSource.no, h.reg, and_true]

theorem Shape.ordinary (hop : i.opcode.ordinary = true)
    (hb : byteNos i = srcs.filterMap (ByteSource.no m low)) : Shape srcs low size m i := by
  refine ⟨hb, fun h => ?_, fun h => ?_, fun h => ?_⟩
  · rcases h with h | h | h <;> rw [h] at hop <;> cases hop
  · rw [h] at hop
    cases hop
  · rw [h] at hop
    cases hop

section
variable {size : Nat} {out : Instruction} {m : ModRm} {low : Nat}

theorem Blank.byteNos_two (h : Blank size out) (op : Opcode) (a b : Operand) :
    byteNos (out.two op a b) = [a, b].filterMap byteNo := by
  show ([a, b] ++ [out.op2]).filterMap byteNo = _
  rw [h.op2, List.filterMap_append]
  exact List.append_nil _

theorem Blank.byteNos_one (h : Blank size out) (op : Opcode) (a : Operand) :
    byteNos (out.one op a) = [a].filterMap byteNo := by
  show ([a] ++ [out.op1, out.op2]).filterMap byteNo = _
  rw [h.op1, h.op2, List.filterMap_append]
  exact List.append_nil _

theorem Blank.byteNos_plain (h : Blank size out) (op : Opcode) :
    byteNos { out with opcode := op } = [] := by
  show [out.op0, out.op1, out.op2].filterMap byteNo = []
  rw [h.op0, h.op1, h.op2]
  rfl

theorem Blank.shapePlain (h : Blank size out) (hs : srcs = []) (hop : op.ordinary = true) :
    Shape srcs low size m { out with opcode := op } :=
  .ordinary hop ((h.byteNos_plain op).trans (by rw [hs]; rfl))

theorem Blank.shapeOne (h : Blank size out) (hs : srcs = []) (hop : op.ordinary = true)
    (ha : byteNo a = none) : Shape srcs low size m (out.one op a) :=
  .ordinary hop ((h.byteNos_one op a).trans (by simp [hs, ha]))

theorem Blank.shapeNop (h : Blank size out) (hs : srcs = []) (ha : byteNo a = none) :
    Shape srcs low size m { out with opcode := .nop, op0 := a } :=
  .ordinary rfl <| by
    show ([a] ++ [out.op1, out.op2]).filterMap byteNo = _
    rw [h.op1, h.op2, hs, List.filterMap_append, List.filterMap_cons, ha]
    rfl

theorem Blank.shapeTwo (h : Blank size out) (hs : srcs = []) (hop : op.ordinary = true)
    (ha : byteNo a = none) (hb : byteNo b = none) : Shape srcs low size m (out.two op a b) :=
  .ordinary hop ((h.byteNos_two op a b).trans (by simp [hs, ha, hb]))

theorem byteNo_regOp (r : Nat) : byteNo (regOp r 1) = some r := rfl

theorem byteNo_immOp (v : BitVec 64) (z : Nat) : byteNo (immOp v z) = none := if_neg fun h => nomatch h.1

theorem byteNo_relOp (v : BitVec 64) : byteNo (relOp v) = none := if_neg fun h => nomatch h.1

/-- A case on bytes, or on whole operands. -/
theorem bytesIf {c : Prop} [Decidable c] (hsize : size ≠ 1) (h : c → srcs = l) (h' : ¬c → srcs = []) :
    srcs = if (if c then 1 else size) = 1 then l else [] := by
  by_cases hc : c
  · rw [if_pos hc, if_pos rfl, h hc]
  · rw [if_neg hc, if_neg hsize, h' hc]

theorem Blank.shapeFirst (h : Blank size out) (hop : op.ordinary = true)
    (hs : srcs = if z = 1 then [.rm, .reg] else []) :
    Reads w (Shape srcs low size) .rm fun s => modrmFirst s z out op :=
  .rm z fun m hm => .ordinary hop <| (h.byteNos_two ..).trans <| by
    by_cases hz : z = 1
    · subst hz
      rw [hs, if_pos rfl, List.filterMap_cons, byteNo_rm hm low, List.filterMap_cons, byteNo_reg hm low]
      rfl
    · rw [hs, if_neg hz]
      simp [byteNo_size (hm.rm ▸ hz), byteNo_size (hm.reg ▸ hz)]

theorem Blank.shapeSecond (h : Blank size out) (hop : op.ordinary = true)
    (hs : srcs = if z = 1 then [.reg, .rm] else []) :
    Reads w (Shape srcs low size) .rm fun s => modrmSecond s z out op :=
  .rm z fun m hm => .ordinary hop <| (h.byteNos_two ..).trans <| by
    by_cases hz : z = 1
    · subst hz
      rw [hs, if_pos rfl, List.filterMap_cons, byteNo_reg hm low, List.filterMap_cons, byteNo_rm hm low]
      rfl
    · rw [hs, if_neg hz]
      simp [byteNo_size (hm.rm ▸ hz), byteNo_size (hm.reg ▸ hz)]

/-- The first operand is the one of the ModRM byte, and the second is given. -/
theorem Blank.byteNos_rm (h : Blank size out) (hm : m.Ok z) (op : Opcode) (b : Operand)
    (hs : srcs = (if z = 1 then [.rm] else []) ++ l)
    (hb : [b].filterMap byteNo = l.filterMap (ByteSource.no m low)) :
    byteNos (out.two op m.rm b) = srcs.filterMap (ByteSource.no m low) := by
  rw [h.byteNos_two, hs, List.filterMap_append, ← hb, ← List.singleton_append, List.filterMap_append]
  congr 1
  by_cases hz : z = 1
  · subst hz
    rw [if_pos rfl, List.filterMap_cons, List.filterMap_cons, byteNo_rm hm low]
    rfl
  · simp [hz, byteNo_size (hm.rm ▸ hz)]

/-- An opcode and an 8-bit operand of the ModRM byte. -/
theorem Blank.shapeRm (h : Blank size out) (hm : m.Ok 1) (hs : srcs = [.rm]) (hop : op.ordinary = true) :
    Shape srcs low size m (out.one op m.rm) :=
  .ordinary hop <| (h.byteNos_one ..).trans <| by
    rw [hs, List.filterMap_cons, List.filterMap_cons, byteNo_rm hm low]
    rfl

theorem Blank.shapeRmImm (h : Blank size out) (hm : m.Ok z) (hs : srcs = if z = 1 then [.rm] else [])
    (hop : op.ordinary = true) (v : BitVec 64) : Shape srcs low size m (out.two op m.rm (immOp v y)) :=
  .ordinary hop (h.byteNos_rm (l := []) hm op _ (hs.trans (List.append_nil _).symm)
    (by simp [byteNo_immOp]))

theorem Blank.shapeRegImm (h : Blank size out) (hs : srcs.filterMap (ByteSource.no m low) = [r])
    (hop : op.ordinary = true) (v : BitVec 64) :
    Shape srcs low size m (out.two op (regOp r 1) (immOp v 1)) :=
  .ordinary hop <| (h.byteNos_two ..).trans <| by
    rw [hs]
    rfl

theorem Blank.shapeExtend (h : Blank size out) (hsize : size ≠ 1) (hop : op.ordinary = true)
    (hs : srcs = if z = 1 then [.rm] else []) :
    Reads w (Shape srcs low size) .rm fun s => modrmExtend s z size out op :=
  .rm z fun m hm => .ordinary hop <| (h.byteNos_two ..).trans <| by
    rw [List.filterMap_cons, byteNo_size (show ({ m.reg with size } : Operand).size ≠ 1 from hsize), hs]
    by_cases hz : z = 1
    · subst hz
      rw [if_pos rfl, List.filterMap_cons, byteNo_rm hm low]
      rfl
    · simp [hz, byteNo_size (hm.rm ▸ hz)]

end

-- ---------------------------------------------------------------------------
-- The opcode maps
-- ---------------------------------------------------------------------------

theorem byteSources2_nil (h : ¬(0x90 ≤ op2 ∧ op2 ≤ 0x9F ∨ op2 = 0xB6 ∨ op2 = 0xBE)) :
    byteSources2 op2 = [] := if_neg h

theorem Blank.shapeImul (h : Blank size out) (hsize : size ≠ 1) (hs : srcs = []) :
    Reads w (Shape srcs low size) .rm fun s => modrmSecond s size out .imul :=
  .rm size fun m hm => by
    refine ⟨?_, nofun, fun _ => .inr (.inl ⟨rfl, rfl, hm.reg, hm.rm⟩), nofun⟩
    rw [h.byteNos_two, hs]
    simp [byteNo_size (hm.rm ▸ hsize), byteNo_size (hm.reg ▸ hsize)]

theorem decodeTwoByte_shape (h : Blank size out) (hsize : size ≠ 1) (p : Ctx) (op2 : Nat) :
    Reads w (Shape (byteSources2 op2) low size) (form2 op2) fun s => decodeTwoByte s p op2 size out :=
  .ite (fun _ => .jump .jz fun _ _ => (h.condition _).shapeOne (byteSources2_nil (by omega)) rfl rfl) fun _ =>
  .ite (fun hc => .rm 1 fun m hm => (h.condition _).shapeRm hm (if_pos (.inl hc)) rfl) fun _ =>
  .ite (fun _ => (h.condition _).shapeSecond rfl
    ((byteSources2_nil (by omega)).trans (if_neg hsize).symm)) fun _ =>
  .ite (fun hc => h.shapeExtend hsize rfl (bytesIf (by decide)
    (fun he => if_pos (.inr (.inl he))) fun he => byteSources2_nil (by omega))) fun _ =>
  .ite (fun hc => h.shapeExtend hsize rfl (bytesIf (by decide)
    (fun he => if_pos (.inr (.inr he))) fun he => byteSources2_nil (by omega))) fun _ =>
  .ite (fun _ => h.shapeImul hsize (byteSources2_nil (by omega))) fun _ =>
  .ite (fun _ => .plain fun _ => h.shapePlain (byteSources2_nil (by omega)) rfl) fun _ =>
  .ite (fun _ => .plain fun _ => h.shapePlain (byteSources2_nil (by omega)) rfl) fun _ =>
  .ite (fun _ => .plain fun _ => h.shapePlain (byteSources2_nil (by omega)) rfl) fun _ =>
  .ite (fun _ => h.shapeSecond rfl ((byteSources2_nil (by omega)).trans (if_neg hsize).symm)) fun _ =>
  .ite (fun _ => h.shapeSecond rfl ((byteSources2_nil (by omega)).trans (if_neg hsize).symm)) fun _ =>
  .ite (fun _ => .plain fun _ => h.shapeOne (byteSources2_nil (by omega)) rfl (byteNo_size hsize)) fun _ =>
  .ite (fun _ => .rm size fun m hm => h.shapeNop (byteSources2_nil (by omega)) (byteNo_size (hm.rm ▸ hsize)))
    fun _ =>
  .ite (fun _ => .pick (h.shapeSecond rfl (byteSources2_nil (by omega)))
    (h.shapeFirst rfl (byteSources2_nil (by omega)))) fun _ =>
  .ite (fun _ => .pick (h.shapeSecond rfl (byteSources2_nil (by omega)))
    (h.shapeFirst rfl (byteSources2_nil (by omega)))) fun _ =>
  .ite (fun _ => h.shapeSecond rfl (byteSources2_nil (by omega))) fun _ =>
  .plain fun _ => h.shapePlain (byteSources2_nil (by omega)) rfl

theorem byteSources1_nil (h : ¬(opcode < 0x40 ∧ opcode % 2 = 0 ∧ opcode % 8 ≠ 6 ∨
    0xB0 ≤ opcode ∧ opcode ≤ 0xB7 ∨ opcode = 0x80 ∨ opcode = 0x82 ∨ opcode = 0x84 ∨ opcode = 0x88 ∨
    opcode = 0x8A ∨ opcode = 0xA8 ∨ opcode = 0xC0 ∨ opcode = 0xC6 ∨ opcode = 0xD0 ∨ opcode = 0xD2 ∨
    opcode = 0xD3 ∨ opcode = 0xF6)) : byteSources1 opcode = [] := by
  unfold byteSources1
  rw [if_neg (by omega), if_neg (by omega), if_neg (by omega), if_neg (by omega), if_neg (by omega),
    if_neg (by omega), if_neg (by omega)]

theorem aluOps_ordinary (n : Nat) : (aluOps n).ordinary = true := by
  unfold aluOps
  split <;> rfl

theorem byteOr' {c : Prop} [Decidable c] :
    (if c then 1 else size) = 1 ∨ (if c then 1 else size) = size := by
  split
  · exact .inl rfl
  · exact .inr rfl

theorem unaryOps_shape (h : Blank size out) (hm : m.Ok z) (hz : z = 1 ∨ z = size) (n : Nat)
    (hs : srcs = if z = 1 then [.rm] else []) :
    Shape srcs low size m (out.one (unaryOps n) m.rm) where
  bytes := by
    rw [h.byteNos_one, hs]
    by_cases hz : z = 1
    · subst hz
      rw [if_pos rfl, List.filterMap_cons, List.filterMap_cons, byteNo_rm hm low]
      rfl
    · simp [hz, byteNo_size (hm.rm ▸ hz)]
  shift hop := by
    rcases hop with hop | hop | hop <;>
    · simp only [Instruction.one, unaryOps] at hop
      split at hop <;> cases hop
  imul _ := .inl ⟨rfl, by rw [← hm.rm] at hz; exact hz⟩
  call hop := by
    simp only [Instruction.one, unaryOps] at hop
    split at hop <;> cases hop

theorem shiftOps_shape (h : Blank size out) (hm : m.Ok z) (hz : z = 1 ∨ z = size) (n : Nat)
    (hb : b.size = 1) (hs : srcs = (if z = 1 then [.rm] else []) ++ l)
    (hl : [b].filterMap byteNo = l.filterMap (ByteSource.no m low)) :
    Shape srcs low size m (out.two (shiftOps n) m.rm b) where
  bytes := h.byteNos_rm hm _ b hs hl
  shift _ := ⟨by rw [← hm.rm] at hz; exact hz, hb⟩
  imul hop := by
    simp only [Instruction.two, shiftOps] at hop
    split at hop <;> cases hop
  call hop := by
    simp only [Instruction.two, shiftOps] at hop
    split at hop <;> cases hop

theorem groupFF_shape (h : Blank size out) (hm : m.Ok size) (hsize : size ≠ 1) (hs : srcs = []) :
    Shape srcs low size m (groupFF out m) := by
  have hno : byteNo m.rm = none := byteNo_size (hm.rm ▸ hsize)
  have h8 : byteNo { m.rm with size := 8 } = none := byteNo_size (show 8 ≠ 1 by decide)
  unfold groupFF
  split
  · exact h.shapeOne hs rfl hno
  · exact h.shapeOne hs rfl hno
  · refine ⟨(h.byteNos_one ..).trans (by simp [hs, h8]), nofun, nofun, fun _ => .inr rfl⟩
  · exact h.shapeOne hs rfl h8
  · exact h.shapeOne hs rfl h8
  · exact h.shapeOne hs rfl hno

theorem callRel_shape (h : Blank size out) (hs : srcs = []) (v : BitVec 64) :
    Shape srcs low size m (out.one .call (relOp v)) :=
  ⟨(h.byteNos_one ..).trans (by simp [hs, byteNo_relOp]), nofun, nofun, fun _ => .inl rfl⟩

theorem imul3_shape {out : Instruction} (hm : m.Ok size) (hsize : size ≠ 1) (hs : srcs = [])
    (v : BitVec 64) : Shape srcs low size m { out with
      opcode := .imul, op0 := m.reg, op1 := m.rm, op2 := immOp v size, numOperands := 3 } := by
  refine ⟨?_, nofun, fun _ => .inr (.inr ⟨rfl, rfl, hm.reg, hm.rm, rfl⟩), nofun⟩
  show [m.reg, m.rm, immOp v size].filterMap byteNo = _
  simp [hs, byteNo_size (hm.rm ▸ hsize), byteNo_size (hm.reg ▸ hsize), byteNo_immOp]

/-- Every case of the switch but the two-byte escape. -/
theorem decodeOpcode_shape (h : Blank size out) (hsize : size ≠ 1) (p : Ctx) (opcode : Nat)
    (h0F : opcode ≠ 0x0F) : Reads p.rexW
      (Shape (byteSources1 opcode) (opcode % 8 ||| p.rexB <<< 3) size) (form1 opcode)
      fun s => decodeOpcode s p opcode size out :=
  .ite (fun hc => .pick (.plain fun _ => h.shapePlain (byteSources1_nil (by omega)) rfl)
    (.plain fun _ => h.shapeTwo (byteSources1_nil (by omega)) rfl (byteNo_size hsize)
      (byteNo_size hsize))) fun _ =>
  .ite (fun hc => h.shapeFirst rfl (bytesIf hsize (fun he => if_pos (by omega))
    fun he => byteSources1_nil (by omega))) fun _ =>
  .ite (fun hc => h.shapeSecond rfl (bytesIf hsize
    (fun he => (if_neg (by omega)).trans (if_pos (by omega))) fun he => byteSources1_nil (by omega)))
    fun _ =>
  .ite (fun hc => .only .ub fun _ _ => by
    rw [show opcode - 0xB0 = opcode % 8 by omega]
    refine h.shapeRegImm ?_ rfl _
    have hs : byteSources1 opcode = [.opcode] := by
      unfold byteSources1
      rw [if_neg (by omega), if_neg (by omega), if_neg (by omega), if_pos hc]
    rw [hs]
    rfl) fun _ =>
  .ite (fun hc => .only .iv fun _ _ => h.shapeTwo (byteSources1_nil (by omega)) rfl
    (byteNo_size hsize) (byteNo_immOp ..)) fun _ =>
  .ite (fun hc => .rmImm 1 .sb fun _ _ hm => h.shapeRmImm hm (by subst hc; rfl) rfl _) fun _ =>
  .ite (fun hc => .rmImm size .iz fun _ _ hm => h.shapeRmImm hm
    ((byteSources1_nil (by omega)).trans (if_neg hsize).symm) rfl _) fun _ =>
  .ite (fun hc => .rmImm 1 .sb fun _ _ hm => h.shapeRmImm hm (by rcases hc with rfl | rfl <;> rfl)
    (aluOps_ordinary _) _) fun _ =>
  .ite (fun hc => .rmImm size .sb fun _ _ hm => h.shapeRmImm hm
    ((byteSources1_nil (by omega)).trans (if_neg hsize).symm) (aluOps_ordinary _) _) fun _ =>
  .ite (fun hc => .rmImm size .iz fun _ _ hm => h.shapeRmImm hm
    ((byteSources1_nil (by omega)).trans (if_neg hsize).symm) (aluOps_ordinary _) _) fun _ =>
  .ite (fun hc => h.shapeFirst (aluOps_ordinary _) (bytesIf hsize (fun he => if_pos (by omega))
    fun he => byteSources1_nil (by omega))) fun _ =>
  .ite (fun hc => h.shapeSecond (aluOps_ordinary _) (bytesIf hsize
    (fun he => (if_neg (by omega)).trans (if_pos (by omega))) fun he => byteSources1_nil (by omega)))
    fun _ =>
  .ite (fun hc => .only .sb fun _ _ => h.shapeRegImm (by
    have hs : byteSources1 opcode = [.al] := by
      unfold byteSources1
      rw [if_neg (by omega), if_neg (by omega), if_pos (.inl hc)]
    rw [hs]
    rfl) (aluOps_ordinary _) _) fun _ =>
  .ite (fun hc => .only .iz fun _ _ => h.shapeTwo (byteSources1_nil (by omega)) (aluOps_ordinary _)
    (byteNo_size hsize) (byteNo_immOp ..)) fun _ =>
  .ite (fun hc => h.shapeFirst rfl (bytesIf hsize (fun he => if_pos (by omega))
    fun he => byteSources1_nil (by omega))) fun _ =>
  .ite (fun hc => .only .ub fun _ _ => h.shapeRegImm (by subst hc; rfl) rfl _) fun _ =>
  .ite (fun hc => .only .iz fun _ _ => h.shapeTwo (byteSources1_nil (by omega)) rfl
    (byteNo_size hsize) (byteNo_immOp ..)) fun _ =>
  .ite (fun hc => .plain fun _ => h.shapeOne (byteSources1_nil (by omega)) rfl
    (byteNo_size (show 8 ≠ 1 by decide))) fun _ =>
  .ite (fun hc => .plain fun _ => h.shapeOne (byteSources1_nil (by omega)) rfl
    (byteNo_size (show 8 ≠ 1 by decide))) fun _ =>
  .ite (fun hc => .only .sb fun _ _ => h.shapeOne (byteSources1_nil (by omega)) rfl (byteNo_immOp ..))
    fun _ =>
  .ite (fun hc => .only .iz fun _ _ => h.shapeOne (byteSources1_nil (by omega)) rfl (byteNo_immOp ..))
    fun _ =>
  .ite (fun hc => h.shapeSecond rfl ((byteSources1_nil (by omega)).trans (if_neg hsize).symm)) fun _ =>
  .ite (fun hc => .jump .jb fun _ _ => (h.condition _).shapeOne (byteSources1_nil (by omega)) rfl
    (byteNo_relOp _)) fun _ =>
  .ite (fun hc => .jump .jb fun _ _ => h.shapeOne (byteSources1_nil (by omega)) rfl (byteNo_relOp _))
    fun _ =>
  .ite (fun hc => .jump .jz fun _ _ => h.shapeOne (byteSources1_nil (by omega)) rfl (byteNo_relOp _))
    fun _ =>
  .ite (fun hc => .jump .jz fun _ v => callRel_shape h (byteSources1_nil (by omega)) v) fun _ =>
  .ite (fun hc => .plain fun _ => h.shapePlain (byteSources1_nil (by omega)) rfl) fun _ =>
  .ite (fun hc => .only .uw fun _ _ => h.shapeOne (byteSources1_nil (by omega)) rfl (byteNo_immOp ..))
    fun _ =>
  .ite (fun hc => .plain fun _ => h.shapePlain (byteSources1_nil (by omega)) rfl) fun _ =>
  .ite (fun hc => .rm size fun _ hm => groupFF_shape h hm hsize (byteSources1_nil (by omega))) fun _ =>
  .ite (fun hc => .test 1 .ub (fun _ _ hm => h.shapeRmImm hm (by subst hc; rfl) rfl _)
    fun _ hm => unaryOps_shape h hm (.inl rfl) _ (by subst hc; rfl)) fun _ =>
  .ite (fun hc => .test size .iz (fun _ _ hm => h.shapeRmImm hm
      ((byteSources1_nil (by omega)).trans (if_neg hsize).symm) rfl _)
    fun _ hm => unaryOps_shape h hm (.inr rfl) _
      ((byteSources1_nil (by omega)).trans (if_neg hsize).symm)) fun _ =>
  .ite (fun hc => .rmImm _ .ub fun _ _ hm => shiftOps_shape (l := []) h hm byteOr' _ rfl
    ((bytesIf hsize (fun he => by subst he; rfl) fun he => byteSources1_nil (by omega)).trans
      (List.append_nil _).symm) rfl) fun _ =>
  .ite (fun hc => .rm _ fun _ hm => shiftOps_shape (l := []) h hm byteOr' _ rfl
    ((bytesIf hsize (fun he => by subst he; rfl) fun he => byteSources1_nil (by omega)).trans
      (List.append_nil _).symm) rfl) fun _ =>
  .ite (fun hc => .rm _ fun _ hm => shiftOps_shape (l := [.cl]) h hm byteOr' _ rfl (by
    rcases hc with rfl | rfl
    · rfl
    · rw [if_neg (show ¬0xD3 = 0xD2 by decide), if_neg hsize]
      rfl) rfl) fun _ =>
  .ite (fun hc => .plain fun _ => h.shapeTwo (byteSources1_nil (by omega)) rfl (byteNo_size hsize)
    (byteNo_size hsize)) fun _ =>
  .ite (fun hc => .plain fun _ => h.shapePlain (byteSources1_nil (by omega))
    (by split <;> [rfl; split <;> rfl])) fun _ =>
  .ite (fun hc => .plain fun _ => h.shapePlain (byteSources1_nil (by omega)) (by split <;> rfl)) fun _ =>
  .ite (fun hc => .only .ub fun _ _ => h.shapeOne (byteSources1_nil (by omega)) rfl (byteNo_immOp ..))
    fun _ =>
  .ite (fun hc => .plain fun _ => h.shapeOne (byteSources1_nil (by omega)) rfl (byteNo_immOp ..)) fun _ =>
  .ite (fun hc => .plain fun _ => h.shapePlain (byteSources1_nil (by omega)) rfl) fun _ =>
  .ite (fun hc => .plain fun _ => h.shapePlain (byteSources1_nil (by omega)) rfl) fun _ =>
  .ite (fun hc => .plain fun _ => h.shapePlain (byteSources1_nil (by omega)) rfl) fun _ =>
  .ite (fun hc => .plain fun _ => h.shapePlain (byteSources1_nil (by omega)) rfl) fun _ =>
  .ite (fun hc => .plain fun _ => h.shapePlain (byteSources1_nil (by omega)) rfl) fun _ =>
  .ite (fun hc => .plain fun _ => h.shapePlain (byteSources1_nil (by omega)) rfl) fun _ =>
  .ite (fun hc => .plain fun _ => h.shapePlain (byteSources1_nil (by omega)) rfl) fun _ =>
  .ite (fun hc => .plain fun _ => h.shapePlain (byteSources1_nil (by omega))
    (by split <;> [rfl; split <;> rfl])) fun _ =>
  .ite (fun hc => .plain fun _ => h.shapePlain (byteSources1_nil (by omega)) rfl) fun _ =>
  .ite (fun hc => .plain fun _ => h.shapePlain (byteSources1_nil (by omega))
    (by split <;> [rfl; split <;> rfl])) fun _ =>
  .ite (fun hc => .rmImm size .iz fun _ v hm => imul3_shape hm hsize (byteSources1_nil (by omega)) v)
    fun _ =>
  .ite (fun hc => .rmImm size .sb fun _ v hm => imul3_shape hm hsize (byteSources1_nil (by omega)) v)
    fun _ => by
  rw [show (fun s => if opcode = 0x0F then (fetch8 s >>= fun op2 => decodeTwoByte s p op2.toNat size out)
    else pure { out with opcode := .unknown }) = fun _ => pure { out with opcode := .unknown } from
      funext fun s => if_neg h0F]
  exact .plain fun _ => h.shapePlain (byteSources1_nil (by omega)) rfl

-- ---------------------------------------------------------------------------
-- From the bytes
-- ---------------------------------------------------------------------------

def byteSources (s : Code) : List ByteSource :=
  if opcodeAt s = 0x0F then byteSources2 (byteOr0 s ((prefixes s).pos + 1)).toNat
  else byteSources1 (opcodeAt s)

/-- The number that the bytes of the instruction and its REX prefix hold. -/
def ByteSource.encoded (s : Code) : ByteSource → Option Nat
  | .rm =>
    let modrm := byteOr0 s (layout s).body
    if modrmMod modrm = 3 then some (modrmRm modrm ||| (prefixes s).rexB <<< 3) else none
  | .reg => some (modrmReg (s.bytes (layout s).body) ||| (prefixes s).rexR <<< 3)
  | .opcode => some (opcodeAt s % 8 ||| (prefixes s).rexB <<< 3)
  | .al => some 0
  | .cl => some 1

/-- The encoded numbers of the 8-bit register operands. -/
def encodedRegs (s : Code) : List Nat :=
  if (prefixes s).pos < s.maxLen then (byteSources s).filterMap (ByteSource.encoded s) else []

theorem decodeSib_type (s : Code) (mod : Nat) (op : Operand) (c : Ctx) :
    (decodeSib s mod op c).1.type = op.type := by
  have hi (i k : Nat) : (withIndex op i k).type = op.type := by
    unfold withIndex
    split <;> rfl
  simp only [decodeSib, run_bind, run_get, fetch8_run]
  split
  · simp only [run_bind, run_pure, hi]
  · simp only [run_pure, hi]

theorem decodeBase_type (s : Code) (modrm : Byte) (op : Operand) (c : Ctx) :
    (decodeBase s modrm op c).1.type = op.type := by
  unfold decodeBase
  split
  · exact decodeSib_type ..
  split <;> rfl

theorem decodeDisp_type (s : Code) (mod : Nat) (op : Operand) (c : Ctx) :
    (decodeDisp s mod op c).1.type = op.type := by
  unfold decodeDisp
  split
  · rfl
  split <;> rfl

theorem decodeModrm_rm (s : Code) (size : Nat) (c : Ctx) :
    (if (decodeModrm s size c).1.rm.type = .reg then some (decodeModrm s size c).1.rm.regIndex else none) =
      if modrmMod (byteOr0 s c.pos) = 3 then some (modrmRm (byteOr0 s c.pos) ||| c.rexB <<< 3)
      else none := by
  simp only [decodeModrm, decodeModrmMem, run_bind, run_get, run_pure, peek, fetch8_run, decodeRm]
  by_cases hmod : modrmMod (byteOr0 s c.pos) = 3
  · simp only [hmod, ↓reduceIte, run_pure]
  · simp only [hmod, ↓reduceIte, run_bind, decodeDisp_type, decodeBase_type]
    rfl

theorem decodeModrm_no (s : Code) (size : Nat) (src : ByteSource) :
    ByteSource.no (decodeModrm s size (bodyCtx s)).1 (opcodeAt s % 8 ||| (prefixes s).rexB <<< 3) src =
      src.encoded s := by
  cases src with
  | rm => exact decodeModrm_rm s size (bodyCtx s)
  | _ => rfl

/-- The instruction has the shape its bytes give it. -/
theorem decode_shape (h : (prefixes s).pos < s.maxLen) : ∃ size, Shape (byteSources s)
    (opcodeAt s % 8 ||| (prefixes s).rexB <<< 3) (effectiveOpSize (prefixes s))
    (decodeModrm s size (bodyCtx s)).1 (decode s).1 := by
  have hblank : Blank (effectiveOpSize (prefixes s))
      { header (prefixes s) with opSize := effectiveOpSize (prefixes s) } := ⟨rfl, rfl, rfl, rfl⟩
  have hsize : effectiveOpSize (prefixes s) ≠ 1 := by
    rcases effectiveOpSize_cases (prefixes s) with h | h | h <;> omega
  have hreads : Reads (prefixes s).rexW (Shape (byteSources s)
      (opcodeAt s % 8 ||| (prefixes s).rexB <<< 3) (effectiveOpSize (prefixes s))) (layout s).form
      (caseOf s) := by
    rcases Decidable.em (opcodeAt s = 0x0F) with h0F | h0F
    · rw [layout, if_pos h0F, caseOf, if_pos h0F, byteSources, if_pos h0F]
      exact decodeTwoByte_shape hblank hsize (prefixes s) _
    · rw [layout, if_neg h0F, caseOf, if_neg h0F, byteSources, if_neg h0F]
      exact decodeOpcode_shape hblank hsize (prefixes s) _ h0F
  have hlen {size : Nat} {i : Instruction} {n : Nat} {srcs : List ByteSource} {low : Nat} {m : ModRm}
      (hs : Shape srcs low size m i) : Shape srcs low size m { i with length := n } :=
    ⟨hs.bytes, hs.shift, hs.imul, hs.call⟩
  obtain ⟨-, hrm, hno⟩ := hreads.run s (bodyCtx s)
  rw [decode_case h]
  cases hm : (layout s).form.modrm with
  | true =>
    obtain ⟨size, hs⟩ := hrm hm
    exact ⟨size, hlen hs⟩
  | false => exact ⟨0, hlen (hno hm _)⟩

/-- The shape of a known instruction, at the operand size it carries. -/
theorem known_shape (h : (decode s).1.opcode ≠ .unknown) : ∃ srcs low m, m.reg.type = .reg ∧
    Shape srcs low (decode s).1.opSize m (decode s).1 := by
  obtain ⟨size, hs⟩ := decode_shape (decode_opcode h)
  obtain ⟨m, hb⟩ := decode_built h
  exact ⟨_, _, _, rfl, hb.opSize ▸ hs⟩

theorem known_opSize (h : (decode s).1.opcode ≠ .unknown) :
    (decode s).1.opSize = 2 ∨ (decode s).1.opSize = 4 ∨ (decode s).1.opSize = 8 := by
  obtain ⟨m, hb⟩ := decode_built h
  rw [hb.opSize]
  exact effectiveOpSize_cases _

/-- The 8-bit register operands are the encoded ones. -/
theorem decode_bytes (s : Code) : byteNos (decode s).1 = encodedRegs s := by
  unfold encodedRegs
  split
  · rename_i hpos
    obtain ⟨size, hs⟩ := decode_shape hpos
    rw [hs.bytes]
    exact congrFun (congrArg List.filterMap (funext fun src => decodeModrm_no s size src)) _
  · rename_i hpos
    unfold decode
    dsimp only
    rw [if_pos (Nat.le_of_not_lt hpos)]
    split <;> rfl

end WineGlass.X86
