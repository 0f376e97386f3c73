import WineGlass.Cpu.Step

/-!
# Writes to 32-bit registers

A write to a 32-bit register clears the upper half of the 64-bit one. The
interpreter does that where it writes an operand; an instruction that it skips,
or that it carries out on the lower half alone, leaves the upper half.
-/

namespace WineGlass.X86

/-- An operand that is a 32-bit register. -/
def reg32 (op : Operand) : List Nat := if op.type = .reg ∧ op.size = 4 then [op.regIndex] else []

/-- The instruction leaves the upper halves of its destinations. -/
def Kept (m : Machine) (i : Instruction) : Prop :=
  match i.opcode with
  | .adc | .sbb | .rol | .ror | .mul | .div | .idiv | .bsf | .bsr | .rdtsc => True
  | .cdq | .cwde => True
  | .cmovcc => evalCondition m.cpu.rflags i.condition = false
  | .shl | .shr | .sar => shiftCount m i = some 0
  | _ => False

/-- Only the registers `ds` change, and either keep their upper halves or clear
them. -/
structure Zeroed (ds : List Nat) (k : Prop) (m m' : Machine) : Prop where
  frame : ∀ r ∉ ds, m'.cpu.gpr r = m.cpu.gpr r
  kept : k → ∀ r ∈ ds, (m'.cpu.gpr r).toNat / 2 ^ 32 = (m.cpu.gpr r).toNat / 2 ^ 32
  wrote : ¬k → ∀ r ∈ ds, (m'.cpu.gpr r).toNat < 2 ^ 32

theorem Zeroed.same (h : m'.cpu.gpr = m.cpu.gpr) : Zeroed ds True m m' where
  frame r _ := congrFun h r
  kept _ r _ := by rw [h]
  wrote h := absurd trivial h

theorem Zeroed.none (h : m'.cpu.gpr = m.cpu.gpr) : Zeroed [] k m m' :=
  ⟨fun r _ => congrFun h r, nofun, nofun⟩

theorem Zeroed.set (h : v.toNat < 2 ^ 32) : Zeroed [r] False m (m.setReg r v) where
  frame r' hr := Function.update_of_ne (fun he => hr (List.mem_singleton.2 he)) ..
  kept := False.elim
  wrote _ r' hr := by
    obtain rfl := List.mem_singleton.1 hr
    simpa only [Machine.setReg, State.setReg, Function.update_self] using h

theorem setLow_shift (old : Word64) (low : BitVec 32) : setLow old low >>> 32 = old >>> 32 := by
  apply BitVec.eq_of_getLsbD_eq
  intro i hi
  have hmask : (0xFFFFFFFF : Word64).getLsbD (32 + i) = false :=
    Nat.testBit_lt_two_pow (Nat.lt_of_lt_of_le (by decide : 0xFFFFFFFF < 2 ^ 32)
      (Nat.pow_le_pow_right (by decide) (Nat.le_add_right 32 i)))
  have hlow : low.getLsbD (32 + i) = false := BitVec.getLsbD_of_ge low _ (Nat.le_add_right 32 i)
  simp only [setLow, BitVec.getLsbD_ushiftRight, BitVec.getLsbD_or, BitVec.getLsbD_and,
    BitVec.getLsbD_not, BitVec.getLsbD_setWidth, hmask, hlow, Bool.and_false, Bool.or_false]
  rcases Nat.lt_or_ge (32 + i) 64 with h | h
  · rw [decide_eq_true h, Bool.not_false, Bool.and_true, Bool.and_true]
  · rw [BitVec.getLsbD_of_ge old _ h, Bool.false_and]

theorem Zeroed.low (low : BitVec 32) :
    Zeroed [r] True m (m.setReg r (setLow (m.cpu.gpr r) low)) where
  frame r' hr := Function.update_of_ne (fun he => hr (List.mem_singleton.2 he)) ..
  kept _ r' hr := by
    obtain rfl := List.mem_singleton.1 hr
    simp only [Machine.setReg, State.setReg, Function.update_self]
    rw [← Nat.shiftRight_eq_div_pow, ← Nat.shiftRight_eq_div_pow, ← BitVec.toNat_ushiftRight,
      ← BitVec.toNat_ushiftRight, setLow_shift]
  wrote h := absurd trivial h

theorem Zeroed.cond (h : Zeroed ds k m m') (hk : k' → k) (hk' : ¬k' → ¬k) : Zeroed ds k' m m' :=
  ⟨h.frame, fun h' => h.kept (hk h'), fun h' => h.wrote (hk' h')⟩

theorem Zeroed.append (h : Zeroed ds False m m1) (h' : Zeroed ds' False m1 m') :
    Zeroed (ds ++ ds') False m m' where
  frame r hr := by
    rw [List.mem_append, not_or] at hr
    exact (h'.frame r hr.2).trans (h.frame r hr.1)
  kept := False.elim
  wrote _ r hr := by
    rcases Classical.em (r ∈ ds') with hr' | hr'
    · exact h'.wrote not_false r hr'
    · rw [h'.frame r hr']
      exact h.wrote not_false r ((List.mem_append.1 hr).resolve_right hr')

theorem and_low32 (v : Word64) : (v &&& 0xFFFFFFFF).toNat < 2 ^ 32 := by
  rw [BitVec.toNat_and]
  exact Nat.lt_of_le_of_lt Nat.and_le_right (by decide : (0xFFFFFFFF : Word64).toNat < 2 ^ 32)

theorem write_zeroed (h : writeOperand m op v = some m') (hs : op.size = 4) :
    Zeroed (reg32 op) False m m' := by
  rcases writeOperand_cases h with ⟨hreg, rfl⟩ | ⟨hmem, mem, -, rfl⟩ | ⟨hreg, -, rfl⟩
  · rw [reg32, if_pos ⟨hreg, hs⟩, merge, if_pos hs]
    exact .set (and_low32 v)
  · rw [reg32, if_neg (fun h => by rw [hmem] at h; cases h.1)]
    exact .none rfl
  · rw [reg32, if_neg (fun h => hreg h.1)]
    exact .none rfl

/-- A case that ends with a write to the first operand. -/
def WritesFirst (m : Machine) (i : Instruction) (m' : Machine) : Prop :=
  ∃ v m1, writeOperand m i.op0 v = some m1 ∧ m'.cpu.gpr = m1.cpu.gpr

theorem WritesFirst.zeroed (h : WritesFirst m i m') (hs : i.op0.size = 4) :
    Zeroed (reg32 i.op0) False m m' := by
  obtain ⟨v, m1, hw, hg⟩ := h
  have hz := write_zeroed hw hs
  exact ⟨fun r hr => (congrFun hg r).trans (hz.frame r hr), False.elim,
    fun hk r hr => by rw [hg]; exact hz.wrote hk r hr⟩

theorem execMov_writes (h : execMov m i = some m') : WritesFirst m i m' := by
  obtain ⟨v, -, hw⟩ := Option.bind_eq_some_iff.1 h
  exact ⟨v, m', hw, rfl⟩

theorem execAlu_writes (h : execAlu f flags m i = some m') : WritesFirst m i m' := by
  obtain ⟨a, b, m1, -, hw, rfl⟩ := execAlu_some h
  exact ⟨f a b, m1, hw, rfl⟩

theorem execNot_writes (h : execNot m i = some m') : WritesFirst m i m' := by
  obtain ⟨v, -, hw⟩ := Option.bind_eq_some_iff.1 h
  exact ⟨~~~v, m', hw, rfl⟩

theorem execNeg_writes (h : execNeg m i = some m') : WritesFirst m i m' := by
  obtain ⟨v, -, h⟩ := Option.bind_eq_some_iff.1 h
  obtain ⟨m1, hw, h⟩ := Option.bind_eq_some_iff.1 h
  obtain rfl := Option.some.inj h
  exact ⟨_, m1, hw, rfl⟩

theorem execStep_writes (h : execStep f flags m i = some m') : WritesFirst m i m' := by
  obtain ⟨v, -, h⟩ := Option.bind_eq_some_iff.1 h
  obtain ⟨m1, hw, h⟩ := Option.bind_eq_some_iff.1 h
  obtain rfl := Option.some.inj h
  exact ⟨_, m1, hw, rfl⟩

/-- A shift by 0 does nothing; any other writes its operand. -/
theorem execShift_cases (h : execShift f m i = some m') :
    shiftCount m i = some 0 ∧ m' = m ∨ shiftCount m i ≠ some 0 ∧ WritesFirst m i m' := by
  obtain ⟨v, -, h⟩ := Option.bind_eq_some_iff.1 h
  obtain ⟨count, hc, h⟩ := Option.bind_eq_some_iff.1 h
  split at h
  · rename_i h0
    exact .inl ⟨h0 ▸ hc, (Option.some.inj h).symm⟩
  · rename_i h0
    obtain ⟨⟨r, cf⟩, -, h⟩ := Option.bind_eq_some_iff.1 h
    obtain ⟨m1, hw, h⟩ := Option.bind_eq_some_iff.1 h
    obtain rfl := Option.some.inj h
    exact .inr ⟨fun hc0 => h0 (Option.some.inj (hc.symm.trans hc0)), r, m1, hw, rfl⟩

theorem execImul_writes (h : execImul m i = some m') (hn : i.numOperands ≠ 1) :
    WritesFirst m i m' := by
  unfold execImul at h
  rw [if_neg hn] at h
  split at h
  all_goals
    obtain ⟨x, -, h⟩ := Option.bind_eq_some_iff.1 h
    obtain ⟨a, -, h⟩ := Option.bind_eq_some_iff.1 h
    obtain ⟨y, -, h⟩ := Option.bind_eq_some_iff.1 h
    obtain ⟨b, -, h⟩ := Option.bind_eq_some_iff.1 h
    obtain ⟨v, -, hw⟩ := Option.bind_eq_some_iff.1 h
    exact ⟨v, m', hw, rfl⟩

/-- The machine the switch leaves, seen from before the step. -/
theorem Zeroed.step (h : Zeroed ds k m.count m') : Zeroed ds k m (m'.setRip rip) :=
  ⟨h.frame, h.kept, h.wrote⟩

end WineGlass.X86
