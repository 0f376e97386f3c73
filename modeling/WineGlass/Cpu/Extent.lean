import WineGlass.Cpu.Form

/-!
# Where instructions end

Every fetch moves the cursor over its bytes, or leaves it where fewer are left.
`Layout` puts a form behind the prefixes and opcode bytes of a buffer, and
`decode_decoded` reads off where the decoder stops, truncated instructions
included; `rawLayout` is the layout when nothing is missing.
-/

namespace WineGlass.X86

/-- The cursor after a fetch of `k` bytes. -/
def advance (s : Code) (pos k : Nat) : Nat := if pos + k ≤ s.maxLen then pos + k else pos

/-- The byte `fetch8` gives. -/
def byteOr0 (s : Code) (pos : Nat) : Byte := if s.maxLen ≤ pos then 0 else s.bytes pos

/-- The fetches of an immediate. -/
def Imm.chunks (w : Bool) : Imm → List Nat
  | .none => []
  | .ub | .sb | .jb => [1]
  | .uw => [2]
  | .iz | .jz => [4]
  | .iv => if w then [4, 4] else [4]

def immEnd (s : Code) (w : Bool) (i : Imm) (pos : Nat) : Nat := (i.chunks w).foldl (advance s) pos

/-- The bytes of displacement, given whether a base of 5 was seen. -/
def dispLength (mod : Nat) (base5 : Bool) : Nat :=
  if mod = 1 then 1 else if mod = 2 then 4 else if mod = 0 ∧ base5 then 4 else 0

/-- The cursor after a ModRM byte, its SIB byte and its displacement. -/
def rmEnd (s : Code) (pos : Nat) : Nat :=
  let modrm := byteOr0 s pos
  let p := advance s pos 1
  if modrmMod modrm = 3 then p
  else if modrmRm modrm = 4 then
    advance s (advance s p 1) (dispLength (modrmMod modrm) (sibBase (byteOr0 s p) == 5))
  else advance s p (dispLength (modrmMod modrm) (modrmRm modrm == 5))

theorem advance_zero (s : Code) (pos : Nat) : advance s pos 0 = pos := by
  unfold advance
  split <;> rfl

theorem le_advance : pos ≤ advance s pos k := by
  unfold advance
  split
  · exact Nat.le_add_right pos k
  · exact Nat.le_refl pos

theorem le_rmEnd : pos ≤ rmEnd s pos := by
  unfold rmEnd
  dsimp only
  split
  · exact le_advance
  split
  · exact Nat.le_trans le_advance (Nat.le_trans le_advance le_advance)
  · exact Nat.le_trans le_advance le_advance

theorem le_foldl_advance (l : List Nat) (pos : Nat) : pos ≤ l.foldl (advance s) pos := by
  induction l generalizing pos with
  | nil => exact Nat.le_refl pos
  | cons k l ih => exact Nat.le_trans le_advance (ih (advance s pos k))

theorem advance_fit (h : pos + k ≤ s.maxLen) : advance s pos k = pos + k := if_pos h

-- ---------------------------------------------------------------------------
-- Fetches
-- ---------------------------------------------------------------------------

theorem run_bind (m : StateM Ctx α) (f : α → StateM Ctx β) (c : Ctx) :
    (m >>= f) c = f (m c).1 (m c).2 := rfl

theorem run_pure (a : α) (c : Ctx) : (pure a : StateM Ctx α) c = (a, c) := rfl

theorem run_get (c : Ctx) : (get : StateM Ctx Ctx) c = (c, c) := rfl

theorem fetch8_run (s : Code) (c : Ctx) :
    fetch8 s c = (byteOr0 s c.pos, { c with pos := advance s c.pos 1 }) := by
  unfold fetch8 byteOr0 advance
  split
  · rw [if_neg (by omega)]
  · rw [if_pos (by omega)]

theorem fetch16_pos (s : Code) (c : Ctx) :
    (fetch16 s c).2 = { c with pos := advance s c.pos 2 } := by
  unfold fetch16 advance
  split <;> rfl

theorem fetch32_pos (s : Code) (c : Ctx) :
    (fetch32 s c).2 = { c with pos := advance s c.pos 4 } := by
  unfold fetch32 advance
  split <;> rfl

theorem simm8_pos (s : Code) (c : Ctx) : (simm8 s c).2 = { c with pos := advance s c.pos 1 } := by
  simp only [simm8, run_bind, run_pure, fetch8_run]

theorem simm32_pos (s : Code) (c : Ctx) : (simm32 s c).2 = { c with pos := advance s c.pos 4 } := by
  simp only [simm32, run_bind, run_pure, fetch32_pos]

theorem Imm.fetch_pos (s : Code) (w : Bool) (i : Imm) (c : Ctx) :
    (i.fetch s w c).2 = { c with pos := immEnd s w i c.pos } := by
  cases i with
  | none => rfl
  | ub => simp only [Imm.fetch, imm8, run_bind, run_pure, fetch8_run]; rfl
  | sb => exact simm8_pos s c
  | jb => exact simm8_pos s c
  | uw => simp only [Imm.fetch, imm16, run_bind, run_pure, fetch16_pos]; rfl
  | iz => exact simm32_pos s c
  | jz => exact simm32_pos s c
  | iv =>
    cases w with
    | false => exact simm32_pos s c
    | true => simp only [Imm.fetch, movImm, ↓reduceIte, fetch64, run_bind, run_pure, fetch32_pos]; rfl

-- ---------------------------------------------------------------------------
-- ModRM
-- ---------------------------------------------------------------------------

theorem decodeSib_pos (s : Code) (mod : Nat) (op : Operand) (c : Ctx) :
    (decodeSib s mod op c).2 = { c with
      pos := advance s (advance s c.pos 1)
        (if mod = 0 ∧ sibBase (byteOr0 s c.pos) = 5 then 4 else 0) } := by
  simp only [decodeSib, run_bind, run_get, fetch8_run]
  split
  · simp only [run_bind, run_pure, simm32_pos]
  · rw [run_pure, advance_zero]

theorem decodeDisp_pos (s : Code) (mod : Nat) (op : Operand) (c : Ctx) :
    (decodeDisp s mod op c).2 =
      { c with pos := advance s c.pos (if mod = 1 then 1 else if mod = 2 then 4 else 0) } := by
  unfold decodeDisp
  split
  · simp only [run_bind, run_pure, simm8_pos]
  split
  · simp only [run_bind, run_pure, simm32_pos]
  · rw [run_pure, advance_zero]

theorem decodeBase_pos (s : Code) (modrm : Byte) (op : Operand) (c : Ctx) :
    (decodeBase s modrm op c).2 = { c with
      pos :=
        if modrmRm modrm = 4 then advance s (advance s c.pos 1)
          (if modrmMod modrm = 0 ∧ sibBase (byteOr0 s c.pos) = 5 then 4 else 0)
        else advance s c.pos (if modrmMod modrm = 0 ∧ modrmRm modrm = 5 then 4 else 0) } := by
  unfold decodeBase
  split
  · exact decodeSib_pos s _ op c
  split
  · simp only [run_bind, run_get, run_pure, simm32_pos]
  · simp only [run_bind, run_get, run_pure, advance_zero]

/-- The displacement goes with the base, or comes after it. -/
theorem advance_disp (s : Code) (mod pos : Nat) (b : Bool) :
    advance s (advance s pos (if mod = 0 ∧ b = true then 4 else 0))
      (if mod = 1 then 1 else if mod = 2 then 4 else 0) = advance s pos (dispLength mod b) := by
  unfold dispLength
  rcases Decidable.em (mod = 0) with rfl | h0
  · simp only [true_and, Nat.zero_ne_one, ↓reduceIte, OfNat.zero_ne_ofNat, advance_zero]
  · simp only [h0, false_and, ↓reduceIte, advance_zero]

theorem decodeRm_pos (s : Code) (modrm : Byte) (op : Operand) (c : Ctx) :
    (decodeRm s modrm op c).2 = { c with
      pos :=
        if modrmMod modrm = 3 then c.pos
        else if modrmRm modrm = 4 then advance s (advance s c.pos 1)
          (dispLength (modrmMod modrm) (sibBase (byteOr0 s c.pos) == 5))
        else advance s c.pos (dispLength (modrmMod modrm) (modrmRm modrm == 5)) } := by
  simp only [decodeRm, run_bind, run_get]
  split
  · rfl
  · simp only [run_bind, decodeBase_pos, decodeDisp_pos]
    split
    · rw [← advance_disp]
      simp only [beq_iff_eq]
    · rw [← advance_disp]
      simp only [beq_iff_eq]

theorem decodeModrm_pos (s : Code) (size : Nat) (c : Ctx) :
    (decodeModrm s size c).2 = { c with
      pos := rmEnd s c.pos
      overread := c.overread || decide (s.maxLen ≤ c.pos) } := by
  simp only [decodeModrm, decodeModrmMem, peek, run_bind, run_get, run_pure, fetch8_run,
    decodeRm_pos, rmEnd]

-- ---------------------------------------------------------------------------
-- The operand of a ModRM byte
-- ---------------------------------------------------------------------------

/-- The displacement read at a position, zero when it is cut off. -/
def dispAt (s : Code) (pos : Nat) : BitVec 64 := (simm32 s { pos }).1

theorem simm32_disp (s : Code) (c : Ctx) : (simm32 s c).1 = dispAt s c.pos := by
  simp only [dispAt, simm32, run_bind, run_pure, fetch32]
  split <;> rfl

theorem withIndex_op (op : Operand) (i k : Nat) :
    (withIndex op i k).size = op.size ∧ (withIndex op i k).memBase = op.memBase := by
  unfold withIndex
  split <;> exact ⟨rfl, rfl⟩

theorem decodeSib_op (s : Code) (mod : Nat) (op : Operand) (c : Ctx) (h : op.memBase = -1) :
    (decodeSib s mod op c).1.size = op.size ∧ (decodeSib s mod op c).1.memBase ≠ -2 := by
  simp only [decodeSib, run_bind, run_get, fetch8_run]
  split
  · simp only [run_bind, run_pure, withIndex_op, h]
    exact ⟨trivial, by decide⟩
  · simp only [run_pure, withIndex_op]
    exact ⟨trivial, by omega⟩

theorem decodeDisp_op (s : Code) (mod : Nat) (op : Operand) (c : Ctx) :
    (decodeDisp s mod op c).1.size = op.size ∧
      (decodeDisp s mod op c).1.memBase = op.memBase ∧
      (mod = 0 → (decodeDisp s mod op c).1 = op) := by
  unfold decodeDisp
  split
  · exact ⟨rfl, rfl, by omega⟩
  split
  · exact ⟨rfl, rfl, by omega⟩
  · exact ⟨rfl, rfl, fun _ => rfl⟩

/-- The base is RIP-relative in the one form that says so, with the displacement
resolved against the cursor behind it. -/
theorem decodeBase_op (s : Code) (modrm : Byte) (op : Operand) (c : Ctx) (h : op.memBase = -1) :
    (decodeBase s modrm op c).1.size = op.size ∧
      ((decodeBase s modrm op c).1.memBase = -2 →
        modrmMod modrm = 0 ∧ modrmRm modrm = 5 ∧ (decodeBase s modrm op c).1.memDisp =
          s.rip + BitVec.ofNat 64 (advance s c.pos 4) + dispAt s c.pos) := by
  unfold decodeBase
  split
  · obtain ⟨hs, hb⟩ := decodeSib_op s (modrmMod modrm) op c h
    exact ⟨hs, fun h2 => absurd h2 hb⟩
  split
  · rename_i hrip
    refine ⟨rfl, fun _ => ⟨hrip.1, hrip.2, ?_⟩⟩
    simp only [run_bind, run_get, run_pure, target, simm32_pos, simm32_disp]
  · refine ⟨rfl, fun h2 => ?_⟩
    simp only [run_bind, run_get, run_pure] at h2
    omega

theorem decodeRm_op (s : Code) (modrm : Byte) (op : Operand) (c : Ctx) (h : op.memBase ≠ -2) :
    (decodeRm s modrm op c).1.size = op.size ∧
      ((decodeRm s modrm op c).1.memBase = -2 →
        modrmMod modrm = 0 ∧ modrmRm modrm = 5 ∧ (decodeRm s modrm op c).1.memDisp =
          s.rip + BitVec.ofNat 64 (advance s c.pos 4) + dispAt s c.pos) := by
  simp only [decodeRm, run_bind, run_get]
  split
  · exact ⟨rfl, fun h2 => absurd h2 h⟩
  · simp only [run_bind]
    obtain ⟨hs, hb⟩ := decodeBase_op s modrm (memOp c op) c rfl
    obtain ⟨hs', hb', hd⟩ := decodeDisp_op s (modrmMod modrm) (decodeBase s modrm (memOp c op) c).1
      (decodeBase s modrm (memOp c op) c).2
    refine ⟨hs'.trans hs, fun h2 => ?_⟩
    obtain ⟨hm, hr, hdisp⟩ := hb (hb'.symm.trans h2)
    exact ⟨hm, hr, by rw [hd hm, hdisp]⟩

theorem newOp_base (size : Nat) : ({ size } : Operand).memBase ≠ -2 := by
  dsimp only
  decide

theorem decodeModrm_ok (s : Code) (size : Nat) (c : Ctx) : (decodeModrm s size c).1.Ok size := by
  simp only [decodeModrm, decodeModrmMem, run_bind, run_get, run_pure]
  exact ⟨(decodeRm_op s _ _ _ (newOp_base size)).1, rfl, rfl⟩

/-- A RIP-relative operand: its displacement stands behind the ModRM byte and is
resolved against the address behind itself. -/
theorem decodeModrm_rip (h : (decodeModrm s size c).1.rm.memBase = -2) :
    (decodeModrm s size c).1.rm.memDisp =
      s.rip + BitVec.ofNat 64 (rmEnd s c.pos) + dispAt s (c.pos + 1) := by
  simp only [decodeModrm, decodeModrmMem, run_bind, run_get, run_pure, peek, fetch8_run] at h ⊢
  obtain ⟨hm, hr, hd⟩ := (decodeRm_op s _ _ _ (newOp_base size)).2 h
  have hpos : advance s c.pos 1 = c.pos + 1 := by
    unfold byteOr0 at hr
    split at hr
    · cases hr
    · exact advance_fit (by omega)
  have hend : rmEnd s c.pos = advance s (advance s c.pos 1) 4 := by
    simp only [rmEnd, hm, hr, dispLength]
    rfl
  rw [hd, hend, hpos]

/-- The reg field picks the operation of a group, whatever REX.R adds. -/
theorem decodeModrm_reg (s : Code) (size : Nat) (c : Ctx) :
    (decodeModrm s size c).1.reg.regIndex % 8 = modrmReg (s.bytes c.pos) := by
  have hlow : modrmReg (s.bytes c.pos) < 2 ^ 3 := Nat.mod_lt _ (by decide)
  have hhigh : c.rexR <<< 3 % 2 ^ 3 = 0 := by
    rw [Nat.shiftLeft_eq]
    exact Nat.mul_mod_left ..
  simp only [decodeModrm, run_bind, run_get, run_pure, peek]
  rw [show 8 = 2 ^ 3 from rfl, Nat.or_mod_two_pow, hhigh, Nat.or_zero, Nat.mod_eq_of_lt hlow]

-- ---------------------------------------------------------------------------
-- Where a case stops
-- ---------------------------------------------------------------------------

/-- The cursor after what follows the opcode bytes. -/
def Form.stop (F : Form) (s : Code) (w : Bool) (body : Nat) : Nat :=
  immEnd s w (F.imm (modrmReg (s.bytes body))) (if F.modrm then rmEnd s body else body)

theorem Reads.run {m : Code → StateM Ctx Instruction} (h : Reads w P F m) (s : Code) (c : Ctx) :
    (m s c).2 = { c with
      pos := F.stop s w c.pos
      overread := c.overread || (F.modrm && decide (s.maxLen ≤ c.pos)) } ∧
    (F.modrm = true → ∃ size, P (decodeModrm s size c).1 (m s c).1) ∧
    (F.modrm = false → ∀ d, P d (m s c).1) := by
  cases h with
  | plain h =>
    refine ⟨?_, nofun, fun _ d => h d⟩
    simp only [run_pure, Form.plain, Form.stop, immEnd, Imm.chunks, List.foldl_nil,
      Bool.false_and, Bool.or_false, Bool.false_eq_true, ↓reduceIte]
  | only i h =>
    refine ⟨?_, nofun, fun _ d => h d _⟩
    simp only [run_bind, run_pure, Form.only, Form.stop, Imm.fetch_pos,
      Bool.false_and, Bool.or_false, Bool.false_eq_true, ↓reduceIte]
  | jump i h =>
    refine ⟨?_, nofun, fun _ d => h d _⟩
    simp only [X86.jump, run_bind, run_get, run_pure, Form.only, Form.stop, Imm.fetch_pos,
      Bool.false_and, Bool.or_false, Bool.false_eq_true, ↓reduceIte]
  | rm size h =>
    refine ⟨?_, fun _ => ⟨size, h _ (decodeModrm_ok s size c)⟩, nofun⟩
    simp only [run_bind, run_pure, Form.rm, Form.stop, immEnd, Imm.chunks, List.foldl_nil,
      decodeModrm_pos, Bool.true_and, ↓reduceIte]
  | rmImm size i h =>
    refine ⟨?_, fun _ => ⟨size, h _ _ (decodeModrm_ok s size c)⟩, nofun⟩
    simp only [run_bind, run_pure, Form.rmImm, Form.stop, Imm.fetch_pos, decodeModrm_pos,
      Bool.true_and, ↓reduceIte]
  | test size i h h' =>
    simp only [run_bind, Form.test, Form.stop, decodeModrm_reg]
    split
    · refine ⟨?_, fun _ => ⟨size, h _ _ (decodeModrm_ok s size c)⟩, nofun⟩
      simp only [run_bind, run_pure, Imm.fetch_pos, decodeModrm_pos, Bool.true_and, ↓reduceIte]
    · refine ⟨?_, fun _ => ⟨size, h' _ (decodeModrm_ok s size c)⟩, nofun⟩
      simp only [run_pure, immEnd, Imm.chunks, List.foldl_nil, decodeModrm_pos, Bool.true_and,
        ↓reduceIte]

-- ---------------------------------------------------------------------------
-- Prefixes
-- ---------------------------------------------------------------------------

/-- What a prefix byte says, and what it leaves alone. -/
structure Prefixed (c : Ctx) (b : Nat) (c' : Ctx) : Prop where
  overread : c'.overread = c.overread
  has66 : c'.has66 = (c.has66 || decide (b = 0x66))
  rexW : c'.rexW = if 0x40 ≤ b ∧ b ≤ 0x4F then decide (b / 8 % 2 = 1) else c.rexW

theorem prefixed_ite {p : Prop} [Decidable p] {o o' : Option Ctx}
    (h : p → ∀ c' ∈ o, Prefixed c b c') (h' : ¬p → ∀ c' ∈ o', Prefixed c b c') :
    ∀ c' ∈ (if p then o else o'), Prefixed c b c' := by
  split
  · exact h ‹p›
  · exact h' ‹¬p›

theorem prefixed_other {c' : Ctx} (h66 : b ≠ 0x66) (hrex : ¬(0x40 ≤ b ∧ b ≤ 0x4F))
    (ho : c'.overread = c.overread) (hs : c'.has66 = c.has66) (hw : c'.rexW = c.rexW) :
    ∀ c'' ∈ some c', Prefixed c b c'' := by
  rintro c'' hc
  obtain rfl := Option.some.inj hc
  exact ⟨ho, by rw [hs, decide_eq_false h66, Bool.or_false], by rw [if_neg hrex, hw]⟩

theorem prefixByte_prefixed (c : Ctx) (b : Nat) : ∀ c' ∈ prefixByte c b, Prefixed c b c' :=
  prefixed_ite (fun _ => prefixed_other (by omega) (by omega) rfl rfl rfl) fun _ =>
  prefixed_ite (fun _ => prefixed_other (by omega) (by omega) rfl rfl rfl) fun _ =>
  prefixed_ite (fun _ => prefixed_other (by omega) (by omega) rfl rfl rfl) fun _ =>
  prefixed_ite (fun h => by
    rintro c' hc
    obtain rfl := Option.some.inj hc
    exact ⟨rfl, by rw [decide_eq_true h, Bool.or_true], by rw [if_neg (by omega)]⟩) fun _ =>
  prefixed_ite (fun _ => prefixed_other (by omega) (by omega) rfl rfl rfl) fun _ =>
  prefixed_ite (fun _ => prefixed_other (by omega) (by omega) rfl rfl rfl) fun _ =>
  prefixed_ite (fun _ => prefixed_other (by omega) (by omega) rfl rfl rfl) fun _ =>
  prefixed_ite (fun _ => prefixed_other (by omega) (by omega) rfl rfl rfl) fun _ =>
  prefixed_ite (fun _ => prefixed_other (by omega) (by omega) rfl rfl rfl) fun _ =>
  prefixed_ite (fun _ => prefixed_other (by omega) (by omega) rfl rfl rfl) fun _ =>
  prefixed_ite (fun _ => prefixed_other (by omega) (by omega) rfl rfl rfl) fun _ =>
  prefixed_ite (fun h => by
    have h66 : b ≠ 0x66 := by omega
    rintro c' hc
    obtain rfl := Option.some.inj hc
    exact ⟨rfl, by rw [decide_eq_false h66]; exact (Bool.or_false _).symm, (if_pos h).symm⟩) fun _ =>
  nofun

-- ---------------------------------------------------------------------------
-- Where the decoder stops
-- ---------------------------------------------------------------------------

/-- A form and where its ModRM byte or immediate is. -/
structure Layout where
  form : Form
  body : Nat

def opcodeAt (s : Code) : Nat := (s.bytes (prefixes s).pos).toNat

def layout (s : Code) : Layout :=
  let pos := (prefixes s).pos + 1
  if opcodeAt s = 0x0F then ⟨form2 (byteOr0 s pos).toNat, advance s pos 1⟩
  else ⟨form1 (opcodeAt s), pos⟩

def Layout.stop (l : Layout) (s : Code) : Nat := l.form.stop s (prefixes s).rexW l.body

/-- The context in which the body of the instruction is read. -/
def bodyCtx (s : Code) : Ctx := { prefixes s with pos := (layout s).body }

/-- What the decoder returns, once an opcode byte is there. -/
structure Decoded (s : Code) (d : Instruction × Ctx) : Prop where
  length : d.1.length = (layout s).stop s
  ctx : d.2 = { prefixes s with
    pos := (layout s).stop s
    overread := (prefixes s).overread || ((layout s).form.modrm && decide (s.maxLen ≤ (layout s).body)) }
  rm : (layout s).form.modrm = true → ∃ size,
    Built (effectiveOpSize (prefixes s)) (decodeModrm s size (bodyCtx s)).1 d.1
  noRm : (layout s).form.modrm = false → ∀ m, Built (effectiveOpSize (prefixes s)) m d.1

theorem Built.length (h : Built size m i) (n : Nat) : Built size m { i with length := n } :=
  ⟨h.from0, h.from1, h.from2, h.opSize, h.paired⟩

theorem decodeOpcode_twoByte (s : Code) (p : Ctx) (size : Nat) (out : Instruction) :
    decodeOpcode s p 0x0F size out =
      (fetch8 s >>= fun op2 => decodeTwoByte s p op2.toNat size out) := rfl

/-- The decoder's case for the opcode. -/
def caseOf (s : Code) : Code → StateM Ctx Instruction :=
  let p := prefixes s
  let size := effectiveOpSize p
  let out := { header p with opSize := size }
  if opcodeAt s = 0x0F then fun s' =>
    decodeTwoByte s' p (byteOr0 s (p.pos + 1)).toNat size out
  else fun s' => decodeOpcode s' p (opcodeAt s) size out

theorem caseOf_reads (s : Code) :
    Reads (prefixes s).rexW (Built (effectiveOpSize (prefixes s))) (layout s).form (caseOf s) := by
  have hblank : Blank (effectiveOpSize (prefixes s))
      { header (prefixes s) with opSize := effectiveOpSize (prefixes s) } := ⟨rfl, rfl, rfl, rfl⟩
  rcases Decidable.em (opcodeAt s = 0x0F) with h0F | h0F
  · rw [layout, if_pos h0F, caseOf, if_pos h0F]
    exact decodeTwoByte_reads hblank (prefixes s) _
  · rw [layout, if_neg h0F, caseOf, if_neg h0F]
    exact decodeOpcode_reads hblank (prefixes s) _ h0F

/-- The decoder is its case for the opcode, run behind the opcode bytes. -/
theorem decode_case (h : (prefixes s).pos < s.maxLen) : decode s =
    ({ (caseOf s s (bodyCtx s)).1 with length := (caseOf s s (bodyCtx s)).2.pos },
      (caseOf s s (bodyCtx s)).2) := by
  have hbyte : byteOr0 s (prefixes s).pos = s.bytes (prefixes s).pos := if_neg (by omega)
  have hnext : advance s (prefixes s).pos 1 = (prefixes s).pos + 1 := advance_fit h
  have hmax : s.maxLen ≠ 0 := by omega
  have hopen : ¬s.maxLen ≤ (prefixes s).pos := by omega
  have hdecode : decode s =
      let r := decodeOpcode s (prefixes s) (opcodeAt s) (effectiveOpSize (prefixes s))
        { header (prefixes s) with opSize := effectiveOpSize (prefixes s) }
        { prefixes s with pos := (prefixes s).pos + 1 }
      ({ r.1 with length := r.2.pos }, r.2) := by
    simp only [decode, hmax, hopen, ↓reduceIte, run_bind, fetch8_run, hbyte, hnext, opcodeAt]
  rcases Decidable.em (opcodeAt s = 0x0F) with h0F | h0F
  · rw [hdecode, caseOf, if_pos h0F, h0F, decodeOpcode_twoByte]
    simp only [run_bind, fetch8_run, bodyCtx, layout, h0F, ↓reduceIte]
  · rw [hdecode, caseOf, if_neg h0F]
    simp only [bodyCtx, layout, h0F, ↓reduceIte]

theorem decode_decoded (h : (prefixes s).pos < s.maxLen) : Decoded s (decode s) := by
  obtain ⟨hctx, hrm, hno⟩ := (caseOf_reads s).run s (bodyCtx s)
  rw [decode_case h]
  refine ⟨?_, hctx, fun hf => ?_, fun hf d => (hno hf d).length _⟩
  · simp only [hctx]
    rfl
  · obtain ⟨size, hb⟩ := hrm hf
    exact ⟨size, hb.length _⟩

/-- What the decoder knows has an opcode byte in the buffer. -/
theorem decode_opcode (h : (decode s).1.opcode ≠ .unknown) : (prefixes s).pos < s.maxLen := by
  by_contra hpos
  unfold decode at h
  dsimp only at h
  rw [if_pos (Nat.le_of_not_lt hpos)] at h
  split at h <;> exact h rfl

theorem decode_built (h : (decode s).1.opcode ≠ .unknown) :
    ∃ m, Built (effectiveOpSize (prefixes s)) m (decode s).1 := by
  have hd := decode_decoded (decode_opcode h)
  cases hm : (layout s).form.modrm with
  | false => exact ⟨⟨{}, {}⟩, hd.noRm hm _⟩
  | true =>
    obtain ⟨size, hb⟩ := hd.rm hm
    exact ⟨_, hb⟩

theorem effectiveOpSize_cases (c : Ctx) :
    effectiveOpSize c = 2 ∨ effectiveOpSize c = 4 ∨ effectiveOpSize c = 8 := by
  unfold effectiveOpSize
  split
  · exact .inr (.inr rfl)
  split
  · exact .inl rfl
  · exact .inr (.inl rfl)

/-- Whatever is decoded starts with an opcode byte. -/
theorem decode_length_pos (hpos : (prefixes s).pos < s.maxLen) : 0 < (decode s).1.length := by
  have hbody : 0 < (layout s).body := by
    unfold layout
    dsimp only
    split
    · exact Nat.lt_of_lt_of_le (Nat.succ_pos _) le_advance
    · exact Nat.succ_pos _
  rw [(decode_decoded hpos).length]
  refine Nat.lt_of_lt_of_le hbody (Nat.le_trans ?_ (le_foldl_advance ..))
  split
  · exact le_rmEnd
  · exact Nat.le_refl _

-- ---------------------------------------------------------------------------
-- Complete instructions
-- ---------------------------------------------------------------------------

/-- The length of a ModRM byte with its SIB byte and displacement. -/
def rmLength (modrm sib : Byte) : Nat :=
  if modrmMod modrm = 3 then 1
  else if modrmRm modrm = 4 then 2 + dispLength (modrmMod modrm) (sibBase sib == 5)
  else 1 + dispLength (modrmMod modrm) (modrmRm modrm == 5)

theorem rmEnd_fit (h : pos + rmLength (s.bytes pos) (s.bytes (pos + 1)) ≤ s.maxLen) :
    rmEnd s pos = pos + rmLength (s.bytes pos) (s.bytes (pos + 1)) := by
  have hbyte : pos < s.maxLen → byteOr0 s pos = s.bytes pos := fun hlt => if_neg (by omega)
  unfold rmLength at h ⊢
  unfold rmEnd
  split at h
  · rename_i h3
    simp only [hbyte (by omega), h3, ↓reduceIte, advance_fit h]
  rename_i h3
  split at h
  · rename_i h4
    have hsib : byteOr0 s (pos + 1) = s.bytes (pos + 1) := if_neg (by omega)
    simp only [hbyte (by omega), h3, h4, ↓reduceIte, advance_fit (show pos + 1 ≤ s.maxLen by omega),
      hsib, advance_fit (show pos + 1 + 1 ≤ s.maxLen by omega)]
    rw [advance_fit (by omega)]
    omega
  · rename_i h4
    simp only [hbyte (by omega), h3, h4, ↓reduceIte, advance_fit (show pos + 1 ≤ s.maxLen by omega)]
    rw [advance_fit (by omega)]
    omega

/-- The form and the body of the instruction whose opcode stands at `pos`. -/
def layoutAt (bytes : Nat → Byte) (pos : Nat) : Layout :=
  if (bytes pos).toNat = 0x0F then ⟨form2 (bytes (pos + 1)).toNat, pos + 1 + 1⟩
  else ⟨form1 (bytes pos).toNat, pos + 1⟩

def Layout.imm (l : Layout) (bytes : Nat → Byte) : Imm := l.form.imm (modrmReg (bytes l.body))

/-- Where the immediate begins. -/
def Layout.rest (l : Layout) (bytes : Nat → Byte) : Nat :=
  if l.form.modrm then l.body + rmLength (bytes l.body) (bytes (l.body + 1)) else l.body

/-- The layout of the bytes in memory, wherever the buffer ends. -/
def rawLayout (s : Code) : Layout := layoutAt s.bytes (prefixes s).pos

theorem layout_raw (h : (rawLayout s).body ≤ s.maxLen) : layout s = rawLayout s := by
  unfold rawLayout layoutAt at h
  unfold layout rawLayout layoutAt opcodeAt
  dsimp only
  split
  · rename_i h0F
    rw [if_pos h0F] at h
    have hbyte : byteOr0 s ((prefixes s).pos + 1) = s.bytes ((prefixes s).pos + 1) :=
      if_neg (by dsimp only at h; omega)
    rw [hbyte, advance_fit h]
  · rfl

theorem Layout.le_rest (l : Layout) (bytes : Nat → Byte) : l.body ≤ l.rest bytes := by
  unfold Layout.rest
  split
  · exact Nat.le_add_right ..
  · exact Nat.le_refl _

theorem lt_body (bytes : Nat → Byte) (pos : Nat) : pos < (layoutAt bytes pos).body := by
  unfold layoutAt
  split <;> dsimp only <;> omega

/-- Once the ModRM bytes are all there, only the immediate can be cut off. -/
theorem stop_raw (h : (rawLayout s).rest s.bytes ≤ s.maxLen) : (layout s).stop s =
    immEnd s (prefixes s).rexW ((rawLayout s).imm s.bytes) ((rawLayout s).rest s.bytes) := by
  rw [Layout.stop, Form.stop, layout_raw (Nat.le_trans (Layout.le_rest ..) h), Layout.imm,
    Layout.rest]
  congr 1
  split
  · rename_i hm
    refine rmEnd_fit ?_
    rwa [Layout.rest, if_pos hm] at h
  · rfl

end WineGlass.X86
