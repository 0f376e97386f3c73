import WineGlass.Cpu.Runs

/-!
# Programs

Guest code that lies in memory, run by `wg_x86_exec_block`: one lemma for each
instruction that the programs of the self-test are made of, and what the
programs do for every operand, at every address. The counting loop is proved
with an invariant (`countdown_law`), and a call for every callee
(`call_runs_law`).
-/

namespace WineGlass.X86

open Memory Word Triples

/-- The bytes at an address. -/
def CodeIn (mem : Space) (base : Word64) (code : List Byte) : Prop :=
  ∀ i b, code[i]? = some b → readU8 mem (base + BitVec.ofNat 64 i) = b

theorem CodeIn.left (h : CodeIn mem base (a ++ b)) : CodeIn mem base a := by
  intro i x hx
  refine h i x ?_
  rw [List.getElem?_append_left (List.getElem?_eq_some_iff.1 hx).1]
  exact hx

/-- A part of the code, `k` bytes behind its start. -/
theorem CodeIn.part (h : CodeIn mem base code) (k : Nat) (hp : l <+: code.drop k) :
    CodeIn mem (base + BitVec.ofNat 64 k) l := by
  obtain ⟨rest, hrest⟩ := hp
  intro i x hx
  rw [BitVec.add_assoc, ← BitVec.ofNat_add]
  refine h (k + i) x ?_
  rw [← List.getElem?_drop, ← hrest, List.getElem?_append_left (List.getElem?_eq_some_iff.1 hx).1]
  exact hx

/-- The four bytes of an immediate. -/
def imm32 (c : BitVec 32) : List Byte :=
  [c.extractLsb' 0 8, c.extractLsb' 8 8, c.extractLsb' 16 8, c.extractLsb' 24 8]

theorem imm32_joined (c : BitVec 32) : (c.extractLsb' 24 8 ++ c.extractLsb' 16 8 ++
    c.extractLsb' 8 8 ++ c.extractLsb' 0 8 : BitVec 32) = c := by
  refine BitVec.eq_of_getElem_eq fun i hi => ?_
  simp only [BitVec.getElem_append, BitVec.getElem_extractLsb']
  split
  · simp [BitVec.getLsbD_eq_getElem, hi]
  · split
    · rw [show 8 + (i - 8) = i by omega, BitVec.getLsbD_eq_getElem hi]
    · split
      · rw [show 16 + (i - 8 - 8) = i by omega, BitVec.getLsbD_eq_getElem hi]
      · rw [show 24 + (i - 8 - 8 - 8) = i by omega, BitVec.getLsbD_eq_getElem hi]

-- ---------------------------------------------------------------------------
-- Decoding
-- ---------------------------------------------------------------------------

/-- An instruction with no prefix and no operand filled in. -/
def plain (opcode : Opcode) (length : Nat) : Instruction :=
  { opcode, length, opSize := 4, addrSize := 8, segmentOverride := -1 }

/-- What the decoder makes of the code at RIP. -/
def Decodes (m : Machine) (i : Instruction) : Prop :=
  insnAt m = i ∧ (decode (codeAt m)).2.overread = false

theorem decode_plain (h : CodeIn m.mem m.cpu.rip (b :: l)) (hb : prefixByte {} b.toNat = none) :
    decode (codeAt m) =
      let r := decodeOpcode (codeAt m) {} b.toNat 4 { header {} with opSize := 4 } { pos := 1 }
      ({ r.1 with length := r.2.pos }, r.2) := by
  have h0 : (codeAt m).bytes 0 = b := h 0 b rfl
  have hlen : (codeAt m).maxLen = 16 := rfl
  simp [decode, prefixes, parsePrefixes, hb, h0, hlen, effectiveOpSize, fetch8, run_bind]

section
variable {m : Machine}

theorem decodes_movImm (h : CodeIn m.mem m.cpu.rip (b :: imm32 c))
    (hb : b = 0xB8 ∧ r = rax ∨ b = 0xB9 ∧ r = rcx) : Decodes m { plain .mov 5 with
      op0 := regOp r 4, op1 := immOp (c.signExtend 64) 4, numOperands := 2 } := by
  have hlen : (codeAt m).maxLen = 16 := rfl
  have h1 : (codeAt m).bytes 1 = c.extractLsb' 0 8 := h 1 _ rfl
  have h2 : (codeAt m).bytes 2 = c.extractLsb' 8 8 := h 2 _ rfl
  have h3 : (codeAt m).bytes 3 = c.extractLsb' 16 8 := h 3 _ rfl
  have h4 : (codeAt m).bytes 4 = c.extractLsb' 24 8 := h 4 _ rfl
  unfold Decodes insnAt
  rcases hb with ⟨rfl, rfl⟩ | ⟨rfl, rfl⟩ <;> rw [decode_plain h (by decide)] <;>
    simp [decodeOpcode, movImm, simm32, fetch32, run_bind, run_pure, hlen, h1, h2, h3, h4,
      imm32_joined, plain, header, Instruction.two, rax, rcx, -bind_pure_comp]

theorem decodes_dec (h : CodeIn m.mem m.cpu.rip [0xFF, 0xC9]) :
    Decodes m { plain .dec 2 with op0 := regOp rcx 4, numOperands := 1 } := by
  have hlen : (codeAt m).maxLen = 16 := rfl
  have h1 : (codeAt m).bytes 1 = 0xC9 := h 1 _ rfl
  unfold Decodes insnAt
  rw [decode_plain h (by decide)]
  simp [decodeOpcode, decodeModrm, peek, decodeModrmMem, decodeRm, fetch8, groupFF, run_bind,
    run_pure, run_get, hlen, h1, modrmMod, modrmReg, modrmRm, plain, header, Instruction.one,
    regOp, rcx, -bind_pure_comp]

theorem decodes_jnz (h : CodeIn m.mem m.cpu.rip [0x75, 0xFC]) : Decodes m { plain .jcc 2 with
    op0 := relOp (m.cpu.rip - 2), numOperands := 1, condition := 5 } := by
  have hlen : (codeAt m).maxLen = 16 := rfl
  have hrip : (codeAt m).rip = m.cpu.rip := rfl
  have h1 : (codeAt m).bytes 1 = 0xFC := h 1 _ rfl
  have hback : m.cpu.rip + 2#64 + 18446744073709551612#64 = m.cpu.rip - 2#64 := by bv_omega
  unfold Decodes insnAt
  rw [decode_plain h (by decide)]
  simp [decodeOpcode, jump, simm8, fetch8, target, run_bind, run_pure, run_get, hlen, hrip, h1,
    hback, plain, header, Instruction.one, -bind_pure_comp]

theorem decodes_mov (h : CodeIn m.mem m.cpu.rip [0x89, 0xC8]) : Decodes m { plain .mov 2 with
    op0 := regOp rax 4, op1 := regOp rcx 4, numOperands := 2 } := by
  have hlen : (codeAt m).maxLen = 16 := rfl
  have h1 : (codeAt m).bytes 1 = 0xC8 := h 1 _ rfl
  unfold Decodes insnAt
  rw [decode_plain h (by decide)]
  simp [decodeOpcode, modrmFirst, decodeModrm, peek, decodeModrmMem, decodeRm, fetch8, run_bind,
    run_pure, run_get, hlen, h1, modrmMod, modrmReg, modrmRm, plain, header, Instruction.two, regOp,
    rax, rcx, -bind_pure_comp]

theorem decodes_hlt (h : CodeIn m.mem m.cpu.rip [0xF4]) : Decodes m (plain .hlt 1) := by
  unfold Decodes insnAt
  rw [decode_plain h (by decide)]
  simp [decodeOpcode, run_pure, plain, header]

theorem decodes_ret (h : CodeIn m.mem m.cpu.rip [0xC3]) : Decodes m (plain .ret 1) := by
  unfold Decodes insnAt
  rw [decode_plain h (by decide)]
  simp [decodeOpcode, run_pure, plain, header]

theorem decodes_call (h : CodeIn m.mem m.cpu.rip (0xE8 :: imm32 c)) : Decodes m { plain .call 5 with
    op0 := relOp (m.cpu.rip + 5 + c.signExtend 64), numOperands := 1 } := by
  have hlen : (codeAt m).maxLen = 16 := rfl
  have hrip : (codeAt m).rip = m.cpu.rip := rfl
  have h1 : (codeAt m).bytes 1 = c.extractLsb' 0 8 := h 1 _ rfl
  have h2 : (codeAt m).bytes 2 = c.extractLsb' 8 8 := h 2 _ rfl
  have h3 : (codeAt m).bytes 3 = c.extractLsb' 16 8 := h 3 _ rfl
  have h4 : (codeAt m).bytes 4 = c.extractLsb' 24 8 := h 4 _ rfl
  unfold Decodes insnAt
  rw [decode_plain h (by decide)]
  simp [decodeOpcode, jump, simm32, fetch32, target, run_bind, run_pure, run_get, hlen, hrip, h1,
    h2, h3, h4, imm32_joined, plain, header, Instruction.one, -bind_pure_comp]

-- ---------------------------------------------------------------------------
-- Steps
-- ---------------------------------------------------------------------------

theorem low_word (v : Word64) : v &&& maskFor 4 = (v.setWidth 32).setWidth 64 :=
  and_maskFor v (by decide)

theorem merge_word (old v : Word64) : merge 4 old v = (v.setWidth 32).setWidth 64 := low_word v

theorem immediate_low (c : BitVec 32) : (c.signExtend 64).setWidth 32 = c := by
  ext i hi
  simp [BitVec.getLsbD_signExtend, hi, BitVec.getLsbD_eq_getElem]
  omega

theorem movImm_goes (h : CodeIn m.mem m.cpu.rip (b :: imm32 c))
    (hb : b = 0xB8 ∧ r = rax ∨ b = 0xB9 ∧ r = rcx) :
    goes m = some ((m.count.setReg r (c.setWidth 64)).setRip (m.cpu.rip + 5)) := by
  obtain ⟨hi, hover⟩ := decodes_movImm h hb
  have hop : (insnAt m).opcode = .mov := by rw [hi]; rfl
  have hstep := step_is (f := execMov) hover hop (by decide) (by rw [exec, hop])
  refine goes_iff.2 (hstep.trans ?_)
  rw [nextRip, hi]
  simp [execMov, readOperand, writeOperand, immOp, regOp, low_word, merge_word, immediate_low,
    plain]

theorem mov_goes (h : CodeIn m.mem m.cpu.rip [0x89, 0xC8]) : goes m = some ((m.count.setReg rax
    (((m.cpu.gpr rcx).setWidth 32).setWidth 64)).setRip (m.cpu.rip + 2)) := by
  obtain ⟨hi, hover⟩ := decodes_mov h
  have hop : (insnAt m).opcode = .mov := by rw [hi]; rfl
  have hstep := step_is (f := execMov) hover hop (by decide) (by rw [exec, hop])
  refine goes_iff.2 (hstep.trans ?_)
  rw [nextRip, hi]
  simp [execMov, readOperand, writeOperand, regOp, low_word, merge_word, plain, Machine.count]

theorem jnz_goes (h : CodeIn m.mem m.cpu.rip [0x75, 0xFC]) : goes m = some (m.count.setRip
    (if getFlag m.cpu.rflags flagZF then m.cpu.rip + 2 else m.cpu.rip - 2)) := by
  obtain ⟨hi, hover⟩ := decodes_jnz h
  have hop : (insnAt m).opcode = .jcc := by rw [hi]; rfl
  refine goes_iff.2 ((exec_is hover hop (by decide)).trans ?_)
  rw [nextRip, hi]
  simp [exec, evalCondition, relOp, plain, Machine.count, Outcome.finish]
  cases getFlag m.cpu.rflags flagZF <;> rfl

/-- What DEC ECX makes of the flags. -/
def decFlags (m : Machine) : Word64 :=
  let v := ((m.cpu.gpr rcx).setWidth 32).setWidth 64
  setFlag (updateFlagsSub m.cpu.rflags v 1 (v - 1) 32) flagCF (getFlag m.cpu.rflags flagCF)

theorem dec_low (x : BitVec 32) : (x.setWidth 64 - 1#64).setWidth 32 = x - 1#32 := by
  bv_omega

theorem decFlags_zf (m : Machine) :
    getFlag (decFlags m) flagZF = decide ((m.cpu.gpr rcx).setWidth 32 = 1#32) := by
  have hmask (v : Word64) : v &&& maskForBits 32 = (v.setWidth 32).setWidth 64 := low_word v
  have hzero (x : BitVec 32) : ((x - 1#32).setWidth 64 == 0#64) = decide (x = 1#32) := by
    rw [Bool.eq_iff_iff, beq_iff_eq, decide_eq_true_eq]
    bv_omega
  refine (getFlag_setFlag_ne (by decide) ..).trans ?_
  rw [(updateFlagsSub_flags ..).zf, hmask]
  exact (congrArg (fun x : BitVec 32 => x.setWidth 64 == 0#64) (dec_low _)).trans (hzero _)

theorem decFlags_cf (m : Machine) : getFlag (decFlags m) flagCF = getFlag m.cpu.rflags flagCF :=
  getFlag_setFlag (by decide) ..

theorem dec_goes (h : CodeIn m.mem m.cpu.rip [0xFF, 0xC9]) :
    goes m = some (((m.count.setReg rcx (((m.cpu.gpr rcx).setWidth 32 - 1).setWidth 64)).setFlags
      (decFlags m)).setRip (m.cpu.rip + 2)) := by
  obtain ⟨hi, hover⟩ := decodes_dec h
  have hop : (insnAt m).opcode = .dec := by rw [hi]; rfl
  have hstep := step_is (f := execStep (· - ·) updateFlagsSub) hover hop (by decide)
    (by rw [exec, hop])
  refine goes_iff.2 (hstep.trans ?_)
  rw [nextRip, hi]
  simp [execStep, readOperand, writeOperand, regOp, low_word, merge_word, plain, Machine.count,
    dec_low, decFlags, Machine.setReg, State.setReg]

theorem hlt_stops (h : CodeIn m.mem m.cpu.rip [0xF4]) :
    execOne m = some (.halt, m.count.setRip (m.cpu.rip + 1)) := by
  obtain ⟨hi, hover⟩ := decodes_hlt h
  have hop : (insnAt m).opcode = .hlt := by rw [hi]; rfl
  refine (exec_is hover hop (by decide)).trans ?_
  rw [nextRip, hi]
  simp [exec, plain, Outcome.finish]

end

-- ---------------------------------------------------------------------------
-- The countdown
-- ---------------------------------------------------------------------------

/-- MOV ECX, c; DEC ECX; JNZ to the DEC; MOV EAX, ECX; HLT. -/
def countdown (c : BitVec 32) : List Byte :=
  0xB9 :: imm32 c ++ [0xFF, 0xC9, 0x75, 0xFC, 0x89, 0xC8, 0xF4]

/-- A count of 0 wraps. -/
def turns (c : BitVec 32) : Nat := if c = 0 then 2 ^ 32 else c.toNat

/-- `n` turns are left: ECX holds `n`, and nothing else has changed. -/
structure Counting (m₀ : Machine) (n : Nat) (m : Machine) : Prop where
  le : n ≤ 2 ^ 32
  gpr : m.cpu.gpr = Function.update m₀.cpu.gpr rcx ((BitVec.ofNat 32 n).setWidth 64)
  mem : m.mem = m₀.mem
  xmm : m.cpu.xmm = m₀.cpu.xmm
  carry : getFlag m.cpu.rflags flagCF = getFlag m₀.cpu.rflags flagCF

/-- At the DEC, or behind the loop when no turn is left. -/
def AtDec (m₀ : Machine) (n : Nat) (m : Machine) : Prop :=
  Counting m₀ n m ∧ m.cpu.rip = m₀.cpu.rip + if n = 0 then 9 else 5

def AtJnz (m₀ : Machine) (n : Nat) (m : Machine) : Prop :=
  Counting m₀ n m ∧ m.cpu.rip = m₀.cpu.rip + 7 ∧ getFlag m.cpu.rflags flagZF = decide (n = 0)

section
variable {m₀ : Machine}

theorem mov_turn (h : CodeIn m₀.mem m₀.cpu.rip (countdown c)) :
    Triple goes (· = m₀) 1 (AtDec m₀ (turns c)) := by
  refine .one fun m hm => ?_
  subst hm
  refine ⟨_, movImm_goes (r := rcx) h.left (.inr ⟨rfl, rfl⟩), ⟨?_, ?_, rfl, rfl, rfl⟩, ?_⟩
  · unfold turns
    split
    · exact Nat.le_refl _
    · exact Nat.le_of_lt c.isLt
  · have hc : BitVec.ofNat 32 (turns c) = c := by
      unfold turns
      split
      · simp_all
      · simp
    rw [hc]
    rfl
  · have hne : turns c ≠ 0 := by
      unfold turns
      split
      · simp
      · rename_i hc
        exact fun h0 => hc (BitVec.eq_of_toNat_eq h0)
    rw [if_neg hne]
    rfl

theorem dec_turn (h : CodeIn m₀.mem m₀.cpu.rip (countdown c)) (n : Nat) :
    Triple goes (AtDec m₀ (n + 1)) 1 (AtJnz m₀ n) := by
  refine .one fun m hm => ?_
  obtain ⟨hm, hrip⟩ := hm
  rw [if_neg (Nat.succ_ne_zero n)] at hrip
  have hcode : CodeIn m.mem m.cpu.rip [0xFF, 0xC9] := by
    rw [hm.mem, hrip]
    exact h.part 5 ⟨_, rfl⟩
  have hecx : (m.cpu.gpr rcx).setWidth 32 = BitVec.ofNat 32 (n + 1) := by
    rw [hm.gpr, Function.update_self]
    simp
  have hless : BitVec.ofNat 32 (n + 1) - 1 = BitVec.ofNat 32 n := by
    rw [BitVec.ofNat_add]
    exact BitVec.add_sub_cancel _ _
  have hlast : BitVec.ofNat 32 (n + 1) = 1#32 ↔ n = 0 := by
    have hle := hm.le
    rw [← BitVec.toNat_inj, BitVec.toNat_ofNat, BitVec.toNat_ofNat]
    omega
  refine ⟨_, dec_goes hcode, ⟨Nat.le_of_succ_le hm.le, ?_, hm.mem, hm.xmm, ?_⟩, ?_, ?_⟩
  · show Function.update m.cpu.gpr rcx _ = _
    rw [hecx, hless, hm.gpr, Function.update_idem]
  · exact (decFlags_cf m).trans hm.carry
  · show m.cpu.rip + 2 = _
    rw [hrip, BitVec.add_assoc]
    rfl
  · refine (decFlags_zf m).trans ?_
    rw [hecx]
    exact decide_eq_decide.2 hlast

theorem jnz_turn (h : CodeIn m₀.mem m₀.cpu.rip (countdown c)) (n : Nat) :
    Triple goes (AtJnz m₀ n) 1 (AtDec m₀ n) := by
  refine .one fun m hm => ?_
  obtain ⟨hm, hrip, hzf⟩ := hm
  have hcode : CodeIn m.mem m.cpu.rip [0x75, 0xFC] := by
    rw [hm.mem, hrip]
    exact h.part 7 ⟨_, rfl⟩
  refine ⟨_, jnz_goes hcode, ⟨hm.le, hm.gpr, hm.mem, hm.xmm, hm.carry⟩, ?_⟩
  show (if getFlag m.cpu.rflags flagZF then _ else _) = _
  rw [hzf, hrip]
  cases n with
  | zero => exact BitVec.add_assoc ..
  | succ n =>
    show m₀.cpu.rip + 7 - 2 = m₀.cpu.rip + 5
    bv_omega

/-- The whole loop: a DEC and a JNZ for each turn. -/
theorem loop_turns (h : CodeIn m₀.mem m₀.cpu.rip (countdown c)) (n : Nat) :
    Triple goes (AtDec m₀ n) (n * 2) (AtDec m₀ 0) :=
  .loop fun n => (dec_turn h n).seq (jnz_turn h n)

/-- At the HLT, with EAX and ECX 0. -/
structure AtHlt (m₀ m : Machine) : Prop where
  rip : m.cpu.rip = m₀.cpu.rip + 11
  gpr : m.cpu.gpr = Function.update (Function.update m₀.cpu.gpr rcx 0) rax 0
  mem : m.mem = m₀.mem
  xmm : m.cpu.xmm = m₀.cpu.xmm
  carry : getFlag m.cpu.rflags flagCF = getFlag m₀.cpu.rflags flagCF

theorem mov_last (h : CodeIn m₀.mem m₀.cpu.rip (countdown c)) :
    Triple goes (AtDec m₀ 0) 1 (AtHlt m₀) := by
  refine .one fun m hm => ?_
  obtain ⟨hm, hrip⟩ := hm
  have hcode : CodeIn m.mem m.cpu.rip [0x89, 0xC8] := by
    rw [hm.mem, hrip]
    exact h.part 9 ⟨_, rfl⟩
  refine ⟨_, mov_goes hcode, ?_, ?_, hm.mem, hm.xmm, hm.carry⟩
  · show m.cpu.rip + 2 = _
    rw [hrip]
    exact BitVec.add_assoc ..
  · show Function.update m.cpu.gpr rax _ = _
    rw [hm.gpr, Function.update_self]
    rfl

theorem countdown_runs (h : CodeIn m₀.mem m₀.cpu.rip (countdown c)) :
    Triple goes (· = m₀) (1 + turns c * 2 + 1) (AtHlt m₀) :=
  ((mov_turn h).seq (loop_turns h _)).seq (mov_last h)

end

/-- What the program leaves: nothing but EAX, ECX, the flags other than CF, RIP and the count. -/
structure Counted (c : BitVec 32) (m m' : Machine) : Prop where
  gpr : m'.cpu.gpr = Function.update (Function.update m.cpu.gpr rcx 0) rax 0
  rip : m'.cpu.rip = m.cpu.rip + 12
  mem : m'.mem = m.mem
  xmm : m'.cpu.xmm = m.cpu.xmm
  carry : getFlag m'.cpu.rflags flagCF = getFlag m.cpu.rflags flagCF
  count : m'.cpu.instructionCount = m.cpu.instructionCount + BitVec.ofNat 64 (2 * turns c + 3)

/-- The countdown halts for every count, wherever it lies and whatever the registers hold, and
exactly the blocks that are long enough get there. -/
theorem countdown_law (c : BitVec 32) (h : CodeIn m.mem m.cpu.rip (countdown c)) :
    ∃ m', Counted c m m' ∧ ∀ n, if 2 * turns c + 3 ≤ n then execBlock n m = some (.halt, m')
      else ∃ m₁, execBlock n m = some (.ok, m₁) := by
  obtain ⟨m₁, hrun, hm⟩ := countdown_runs h m rfl
  have hcode : CodeIn m₁.mem m₁.cpu.rip [0xF4] := by
    rw [hm.mem, hm.rip]
    exact h.part 11 ⟨_, rfl⟩
  have hlast := hlt_stops hcode
  have hcount := (steps_counts hrun).count
  refine ⟨m₁.count.setRip (m₁.cpu.rip + 1), ⟨hm.gpr, ?_, hm.mem, hm.xmm, hm.carry, ?_⟩, fun n => ?_⟩
  · show m₁.cpu.rip + 1 = _
    rw [hm.rip]
    exact BitVec.add_assoc ..
  · show m₁.cpu.instructionCount + 1 = _
    rw [hcount, BitVec.add_assoc, show 2 * turns c + 3 = 1 + turns c * 2 + 1 + 1 by omega]
    exact congrArg (m.cpu.instructionCount + ·) (BitVec.ofNat_add ..).symm
  · split
    · rename_i hle
      obtain ⟨d, rfl⟩ := Nat.exists_eq_add_of_le hle
      rw [show 2 * turns c + 3 + d = 1 + turns c * 2 + 1 + (d + 1) by omega, execBlock_steps hrun,
        execBlock, hlast]
    · rename_i hlt
      obtain ⟨d, hd⟩ := Nat.exists_eq_add_of_le (show n ≤ 1 + turns c * 2 + 1 by omega)
      rw [hd] at hrun
      obtain ⟨m₂, hm₂⟩ := steps_left hrun
      exact ⟨m₂, execBlock_steps hm₂ 0⟩

theorem codeIn_of (h : ∀ i < code.length, readU8 mem (base + BitVec.ofNat 64 i) = code.getD i 0) :
    CodeIn mem base code := by
  intro i b hb
  obtain ⟨hi, -⟩ := List.getElem?_eq_some_iff.1 hb
  rw [h i hi, List.getD_eq_getElem?_getD, hb]
  rfl

/-- From 10, as in the self-test. -/
theorem countdown_law_ten : ∃ m', Counted 10 (.of (countdown 10) fun _ => 0xFF00) m' ∧
    ∀ n, if 2 * turns 10 + 3 ≤ n
      then execBlock n (.of (countdown 10) fun _ => 0xFF00) = some (.halt, m')
      else ∃ m₁, execBlock n (.of (countdown 10) fun _ => 0xFF00) = some (.ok, m₁) :=
  countdown_law 10 (codeIn_of (by decide +kernel))

-- ---------------------------------------------------------------------------
-- Calls
-- ---------------------------------------------------------------------------

/-- The machine at the first instruction of a callee. -/
def entered (m : Machine) (slot : Ptr) (callee : Word64) : Machine := (pushed m slot).setRip callee

/-- Where a callee comes back. -/
def returned (m m₂ : Machine) : Machine :=
  (m₂.count.setReg rsp (m.cpu.gpr rsp + dropped (insnAt m₂))).setRip (nextRip m)

theorem call_goes (hover : (decode (codeAt m)).2.overread = false) (hop : (insnAt m).opcode = .call)
    (hslot : resolve m.mem (m.cpu.gpr rsp - 8) = some slot) (hfits : m.mem.fits slot 8 = true)
    (ht : branchTarget (pushed m slot) (insnAt m).op0 = some callee)
    (hthunk : isThunk callee = false) : goes m = some (entered m slot callee) := by
  refine goes_iff.2 ((call_is hover hop).trans ?_)
  rw [execCall_eq hslot hfits, ht, Option.bind_some, hthunk]
  rfl

theorem ret_goes_to (hover : (decode (codeAt m)).2.overread = false)
    (hop : (insnAt m).opcode = .ret) (hslot : readU64 m.mem (m.cpu.gpr rsp) = some v)
    (hv : BitVec.ofNat 64 v ≠ 0) :
    goes m = some ((m.count.setReg rsp (m.cpu.gpr rsp + 8 + dropped (insnAt m))).setRip
      (BitVec.ofNat 64 v)) := by
  refine goes_iff.2 ((ret_is hover hop).trans ?_)
  rw [execRet_eq (m := m.count) hslot, if_neg hv]
  rfl

/-- Eight bytes that stay are read as before, once no step has moved the map. -/
theorem readU64_kept (h : Counts k m m') (hslot : resolve m.mem addr = some slot)
    (hbytes : ∀ i < 8, m'.mem.get ⟨slot.region, slot.offset + i⟩ =
      m.mem.get ⟨slot.region, slot.offset + i⟩) : readU64 m'.mem addr = readU64 m.mem addr := by
  have hload : loadBytes m'.mem slot 8 = loadBytes m.mem slot 8 := by
    unfold loadBytes
    rw [h.fits, word_congr hbytes]
  show wideRead 8 m'.mem addr = wideRead 8 m.mem addr
  unfold wideRead
  rw [h.resolve, hslot]
  exact hload

/-- Whatever the callee does, a call comes back behind itself with RSP as it was, where the callee
runs to a RET with RSP and the eight bytes of the return address as it found them. -/
theorem call_runs_law (hover : (decode (codeAt m)).2.overread = false)
    (hop : (insnAt m).opcode = .call) (hslot : resolve m.mem (m.cpu.gpr rsp - 8) = some slot)
    (ht : branchTarget m (insnAt m).op0 = some callee) (hthunk : isThunk callee = false)
    (hfits : CallFits m slot callee) (hbody : steps goes k (entered m slot callee) = some m₂)
    (hover₂ : (decode (codeAt m₂)).2.overread = false) (hop₂ : (insnAt m₂).opcode = .ret)
    (hrsp : m₂.cpu.gpr rsp = (entered m slot callee).cpu.gpr rsp)
    (hbytes : ∀ i < 8, m₂.mem.get ⟨slot.region, slot.offset + i⟩ =
      (entered m slot callee).mem.get ⟨slot.region, slot.offset + i⟩) (n : Nat) :
    execBlock (k + 2 + n) m = execBlock n (returned m m₂) := by
  obtain ⟨hin, hne, hkept⟩ := hfits
  have hcall := call_goes hover hop hslot hin ((target_kept hslot hop ht).2 hkept) hthunk
  have hsp : (entered m slot callee).cpu.gpr rsp = m.cpu.gpr rsp - 8 := setReg_gpr m.count rsp _
  have hread : readU64 m₂.mem (m₂.cpu.gpr rsp) = some (nextRip m).toNat := by
    have hres : resolve (entered m slot callee).mem (m.cpu.gpr rsp - 8) = some slot :=
      (putBytes_resolve ..).trans hslot
    rw [hrsp, hsp, readU64_kept (steps_counts hbody) hres hbytes]
    exact pushed_slot hslot hin
  have hback : BitVec.ofNat 64 (nextRip m).toNat = nextRip m := by simp
  have hret := ret_goes_to hover₂ hop₂ hread (by rwa [hback])
  rw [hback, hrsp, hsp, BitVec.sub_add_cancel] at hret
  have hsteps : steps goes (1 + (k + 1)) m = some (returned m m₂) := by
    rw [steps_add, steps_one, hcall, Option.bind_some, steps_add, hbody, Option.bind_some,
      steps_one]
    exact hret
  rw [show k + 2 + n = 1 + (k + 1) + n by omega]
  exact execBlock_steps hsteps n


/-- CALL to 0x1009; MOV RCX, RAX; HLT; and at 0x1009 MOV EAX, 77; RET. -/
def callProgram : List Byte :=
  0xE8 :: imm32 4 ++ [0x48, 0x89, 0xC1, 0xF4] ++ (0xB8 :: imm32 77) ++ [0xC3]

def callee77 : Machine := entered (callMachine callProgram) ⟨0, 0x7F8⟩ 0x1009

/-- The self-test's callee, which returns 77. -/
theorem call_runs_law_mov : execBlock 3 (callMachine callProgram) = some (.ok,
    returned (callMachine callProgram) ((callee77.count.setReg rax 77).setRip 0x100E)) := by
  have hcode : CodeIn (callMachine callProgram).mem 0x1000 (0xE8 :: imm32 4) :=
    codeIn_of (by decide +kernel)
  have hbody : CodeIn callee77.mem 0x1009 (0xB8 :: imm32 77) := codeIn_of (by decide +kernel)
  have hend : CodeIn callee77.mem 0x100E [0xC3] := codeIn_of (by decide +kernel)
  have hslot : SlotOf callProgram := by decide +kernel
  obtain ⟨hi, hover⟩ := decodes_call hcode
  obtain ⟨hi₂, hover₂⟩ := decodes_ret (m := (callee77.count.setReg rax 77).setRip 0x100E) hend
  exact call_runs_law hover (by rw [hi]; rfl) hslot (by rw [hi]; rfl) (by decide)
    (by decide +kernel) ((steps_one _ _).trans (movImm_goes hbody (.inl ⟨rfl, rfl⟩))) hover₂
    (congrArg Instruction.opcode hi₂) rfl (fun _ _ => rfl) 0

end WineGlass.X86
