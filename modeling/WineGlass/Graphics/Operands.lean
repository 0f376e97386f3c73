import WineGlass.Graphics.Progress

/-!
# Operands with their relative indices

`read_operand` keeps of an operand that an index is relative to only the text of
its register. `readArg` reads the same tokens and keeps that operand itself:
what the text stands for, and what the shader's own meaning needs of it.
-/

namespace WineGlass.Dxbc

/-- One dimension's `idx`, with the operand it is relative to. -/
structure Ref where
  idx : U32
  rel : Option Operand
  deriving DecidableEq

def Ref.index (r : Ref) : Index := ⟨r.idx, r.rel.map relStr⟩

/-- An operand and the refs that its indices are the text of. -/
structure Arg where
  op : Operand
  refs : List Ref
  texts : op.index = refs.map Ref.index
  deriving DecidableEq

section
variable (read : Nat → Option (Operand × Nat)) (m : Memory)

def readRef (r p : Nat) : Option (Ref × Nat) :=
  if r = 0 then (m.dword p).map fun v => (⟨v, none⟩, p + 4)
  else if r = 1 then (m.dword p).map fun v => (⟨v, none⟩, p + 8)
  else if r = 2 then (read p).map fun (o, q) => (⟨0, some o⟩, q)
  else if r = 3 then
    (m.dword p).bind fun v => (read (p + 4)).map fun (o, q) => (⟨v, some o⟩, q)
  else some (⟨0, none⟩, p)

def readRefs (tok : U32) : (left d p : Nat) → Option (List Ref × Nat)
  | 0, _, p => some ([], p)
  | left + 1, d, p =>
    (readRef read m (rep tok d) p).bind fun (i, q) =>
    (readRefs tok left (d + 1) q).map fun (is, q) => (i :: is, q)

end

def readArg (m : Memory) (p : Nat) : Option (Arg × Nat) :=
  (m.dword p).bind fun tok =>
  (readExtensions m (m.limit + 1) tok 0 (p + 4)).bind fun (modifier, q) =>
    if operandType tok = otImm32 then
      (readDwords m (immCount tok 1) q).map fun imm =>
        (⟨{ ofToken tok modifier with imm }, [], rfl⟩, q + 4 * immCount tok 1)
    else if operandType tok = otImm64 then
      some (⟨ofToken tok modifier, [], rfl⟩, q + 4 * immCount tok 2)
    else
      (readRefs (readOperandIn m m.limit) m tok (indexDim tok) 0 q).map fun (refs, q) =>
        (⟨{ ofToken tok modifier with index := refs.map Ref.index }, refs, rfl⟩, q)

variable {read : Nat → Option (Operand × Nat)} {m ops : Memory}

theorem readIndex_eq : readIndex read m r p =
    (readRef read m r p).map fun (i, q) => (i.index, q) := by
  unfold readIndex readRef
  split
  · cases m.dword p <;> rfl
  split
  · cases m.dword p <;> rfl
  split
  · cases read p <;> rfl
  split
  · cases m.dword p with
    | none => rfl
    | some v => cases read (p + 4) <;> simp [Ref.index]
  · rfl

theorem readIndices_eq : readIndices read m tok left d p =
    (readRefs read m tok left d p).map fun (is, q) => (is.map Ref.index, q) := by
  induction left generalizing d p with
  | zero => rfl
  | succ left ih =>
    rw [readIndices, readRefs, readIndex_eq]
    cases readRef read m (rep tok d) p with
    | none => rfl
    | some i =>
      simp only [Option.map_some, Option.bind_some, ih]
      cases readRefs read m tok left (d + 1) i.2 <;> rfl

theorem readOperand_eq : readOperand m p = (readArg m p).map fun (a, q) => (a.op, q) := by
  rw [readOperand, readOperandIn, operandBody, readArg]
  cases m.dword p with
  | none => rfl
  | some tok =>
    simp only [Option.bind_some]
    cases readExtensions m (m.limit + 1) tok 0 (p + 4) with
    | none => rfl
    | some ext =>
      simp only [Option.bind_some]
      split
      · cases readDwords m (immCount tok 1) ext.2 <;> rfl
      split
      · rfl
      · rw [readIndices_eq]
        cases readRefs (readOperandIn m m.limit) m tok (indexDim tok) 0 ext.2 <;> rfl

-- ---------------------------------------------------------------------------
-- Instructions
-- ---------------------------------------------------------------------------

/-- An instruction with its operands in full. -/
structure Instr where
  token : U32
  args : List Arg
  trailing : Option U32
  deriving DecidableEq

def Instr.insn (i : Instr) : Insn := ⟨i.token, i.args.map Arg.op, i.trailing⟩

def Instr.op (i : Instr) : Option Op := Op.ofCode (opcode i.token).toNat

section
variable (m ops : Memory) (stop : Nat)

def readArgs : (n : Nat) → Nat → Option (List Arg × Nat)
  | 0, p => some ([], p)
  | n + 1, p =>
    (readArg ops p).bind fun (a, q) =>
    (readArgs n q).map fun (as, r) => (a :: as, r)

def readInstr (p : Nat) : Option Instr :=
  (m.dword p).bind fun tok =>
  (readArgs ops (operandCount tok) (p + 4)).bind fun (args, q) =>
    if hasTrailing tok then (m.dword q).map fun v => ⟨tok, args, some v⟩
    else some ⟨tok, args, none⟩

/-- The whole token loop from `p`: the instructions it decodes until the end. -/
inductive Decodes : Nat → List Instr → Prop
  | done (h : Done stop p) : Decodes p []
  | step (h : ¬ Done stop p) (instr : readInstr m m p = some i) (next : next m stop p = some q)
      (rest : Decodes q is) : Decodes p (i :: is)

end

theorem readOperands_eq : readOperands ops n p =
    (readArgs ops n p).map fun (as, q) => (as.map Arg.op, q) := by
  induction n generalizing p with
  | zero => rfl
  | succ n ih =>
    rw [readOperands, readArgs, readOperand_eq]
    cases readArg ops p with
    | none => rfl
    | some a =>
      simp only [Option.map_some, Option.bind_some, ih]
      cases readArgs ops n a.2 <;> rfl

theorem readInsn_eq : readInsn m ops p = (readInstr m ops p).map Instr.insn := by
  rw [readInsn, readInstr]
  cases m.dword p with
  | none => rfl
  | some tok =>
    simp only [Option.bind_some, readOperands_eq]
    cases readArgs ops (operandCount tok) (p + 4) with
    | none => rfl
    | some as =>
      simp only [Option.map_some, Option.bind_some]
      split
      · cases m.dword as.2 <;> rfl
      · rfl

theorem turn_eq : turn m ops stop p =
    (next m stop p).bind fun q => (readInstr m ops p).map fun i => (i.insn, q) := by
  rw [turn, readInsn_eq]
  cases next m stop p with
  | none => rfl
  | some q => cases readInstr m ops p <;> rfl

/-- The instructions are those of the loop's turns, in order, to its end. -/
theorem decodes_iff : (∃ is, Decodes m stop p is ∧ is.map Instr.insn = insns) ↔
    ∃ n, Turns.run (Done stop) (turn m m stop) n p = some (some insns) := by
  constructor
  · rintro ⟨is, h, rfl⟩
    induction h with
    | done h => exact ⟨1, by rw [Turns.run, if_pos h]; rfl⟩
    | step h hi hq _ ih =>
      obtain ⟨n, hn⟩ := ih
      refine ⟨n + 1, ?_⟩
      rw [Turns.run, if_neg h, turn_eq, hq, hi]
      simp [hn]
  · rintro ⟨n, hn⟩
    induction n generalizing p insns with
    | zero => cases hn
    | succ n ih =>
      rw [Turns.run, turn_eq] at hn
      split at hn
      · rename_i h
        cases hn
        exact ⟨[], .done h, rfl⟩
      · rename_i h
        cases hq : next m stop p with
        | none => simp [hq] at hn
        | some q =>
          cases hi : readInstr m m p with
          | none => simp [hq, hi] at hn
          | some i =>
            simp only [hq, hi, Option.bind_some, Option.map_some, Option.map_eq_some_iff] at hn
            obtain ⟨_, hrun, insns', rfl, rfl⟩ := hn
            obtain ⟨is, hd, rfl⟩ := ih hrun
            exact ⟨i :: is, .step h hi hq hd, rfl⟩

/-- The loop from `p`, in at most `turns` turns. -/
def decode (m : Memory) (stop : Nat) : (turns : Nat) → Nat → Option (List Instr)
  | 0, _ => none
  | turns + 1, p =>
    if stop ≤ p then some []
    else
      (readInstr m m p).bind fun i =>
      (next m stop p).bind fun q => (decode m stop turns q).map fun is => i :: is

theorem decode_sound (h : decode m stop turns p = some is) : Decodes m stop p is := by
  induction turns generalizing p is with
  | zero => cases h
  | succ turns ih =>
    rw [decode] at h
    split at h
    · rename_i hd
      obtain rfl := Option.some.inj h
      exact .done hd
    · rename_i hd
      obtain ⟨i, hi, h⟩ := Option.bind_eq_some_iff.1 h
      obtain ⟨q, hq, h⟩ := Option.bind_eq_some_iff.1 h
      obtain ⟨is', his, rfl⟩ := Option.map_eq_some_iff.1 h
      exact .step hd hi hq (ih his)

/-- A blob that is translated: its token stream, and the instructions in it. -/
structure Shader (m : Memory) (size : U32) where
  prog : Program
  is : List Instr
  found : program m size = some (some prog)
  decodes : Decodes m prog.stop prog.start is

end WineGlass.Dxbc
