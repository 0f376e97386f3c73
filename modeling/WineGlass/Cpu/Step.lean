import WineGlass.Cpu.Extent
import WineGlass.Cpu.Interp

/-!
# One step

What a step of the interpreter says about the instruction it ran, and what the
reads and writes of operands do.
-/

namespace WineGlass.X86

open Memory

/-- The address behind the instruction. -/
def nextRip (m : Machine) : Word64 := m.cpu.rip + BitVec.ofNat 64 (insnAt m).length

/-- A step fails to decode, or runs the switch. -/
theorem execOne_cases (h : execOne m = some (res, m')) :
    (insnAt m).length = 0 ∧ res = .error ∧ m' = m ∨
      ∃ out, exec m.count (insnAt m) (nextRip m) = some out ∧ out.finish = (res, m') := by
  unfold execOne at h
  dsimp only at h
  split at h
  · cases h
  split at h
  · rename_i hlen
    obtain ⟨rfl, rfl⟩ := Prod.mk.inj (Option.some.inj h)
    exact .inl ⟨hlen, rfl, rfl⟩
  · exact .inr (Option.map_eq_some_iff.1 h)

theorem known (hop : (insnAt m).opcode = op) (h : op ≠ .unknown) :
    (decode (codeAt m)).1.opcode ≠ .unknown := fun hu => h (hop.symm.trans hu)

theorem known_length (hop : (insnAt m).opcode = op) (h : op ≠ .unknown) :
    (insnAt m).length ≠ 0 :=
  Nat.pos_iff_ne_zero.1 (decode_length_pos (decode_opcode (known hop h)))

/-- The operand sizes of the opcodes with two operands of one size. -/
theorem paired_sizes (hop : (insnAt m).opcode = op) (hp : op.paired = true) :
    (insnAt m).op1.size = (insnAt m).op0.size ∧
      ((insnAt m).op0.size = 1 ∨ (insnAt m).op0.size = (insnAt m).opSize) ∧
      ((insnAt m).opSize = 2 ∨ (insnAt m).opSize = 4 ∨ (insnAt m).opSize = 8) := by
  obtain ⟨d, hb⟩ := decode_built (known hop (by rintro rfl; cases hp))
  obtain ⟨heq, hsize⟩ := hb.paired ((congrArg Opcode.paired hop).trans hp)
  refine ⟨heq, hsize.imp_right fun h => h.trans hb.opSize.symm, ?_⟩
  have hcases := effectiveOpSize_cases (prefixes (codeAt m))
  rwa [← hb.opSize] at hcases

theorem step_goes {f : Machine → Instruction → Option Machine} (hx : execOne m = some (res, m'))
    (hop : (insnAt m).opcode = op) (hknown : op ≠ .unknown)
    (hcase : exec m.count (insnAt m) (nextRip m) =
      (f m.count (insnAt m)).map (.next (nextRip m))) :
    ∃ m1, f m.count (insnAt m) = some m1 ∧ res = .ok ∧ m' = m1.setRip (nextRip m) := by
  rcases execOne_cases hx with ⟨hlen, -, -⟩ | ⟨out, hout, hfin⟩
  · exact absurd hlen (known_length hop hknown)
  rw [hcase] at hout
  obtain ⟨m1, hm1, rfl⟩ := Option.map_eq_some_iff.1 hout
  obtain ⟨rfl, rfl⟩ := Prod.mk.inj hfin
  exact ⟨m1, hm1, rfl, rfl⟩

/-- A step whose code can be read runs the switch. -/
theorem exec_is (hover : (decode (codeAt m)).2.overread = false) (hop : (insnAt m).opcode = op)
    (hknown : op ≠ .unknown) :
    execOne m = (exec m.count (insnAt m) (nextRip m)).map Outcome.finish := by
  have hlen : (decode (codeAt m)).1.length ≠ 0 := known_length hop hknown
  unfold execOne
  dsimp only
  rw [if_neg (by simp [hover]), if_neg hlen]
  rfl

/-- It is its case of the switch. -/
theorem step_is {f : Machine → Instruction → Option Machine}
    (hover : (decode (codeAt m)).2.overread = false) (hop : (insnAt m).opcode = op)
    (hknown : op ≠ .unknown) (hcase : exec m.count (insnAt m) (nextRip m) =
      (f m.count (insnAt m)).map (.next (nextRip m))) :
    execOne m = (f m.count (insnAt m)).map fun m1 => (.ok, m1.setRip (nextRip m)) := by
  rw [exec_is hover hop hknown, hcase, Option.map_map]
  rfl

-- ---------------------------------------------------------------------------
-- Operands
-- ---------------------------------------------------------------------------

theorem writeOperand_cases (h : writeOperand m op val = some m') :
    op.type = .reg ∧ m' = m.setReg op.regIndex (merge op.size (m.cpu.gpr op.regIndex) val) ∨
      op.type = .mem ∧ (∃ mem, writeMem m.mem op.size (computeAddr m.cpu op) val = some mem ∧
        m' = { m with mem }) ∨
      op.type ≠ .reg ∧ op.type ≠ .mem ∧ m' = m := by
  unfold writeOperand at h
  split at h
  · rename_i hreg
    exact .inl ⟨hreg, (Option.some.inj h).symm⟩
  · rename_i hmem
    obtain ⟨mem, hw, rfl⟩ := Option.map_eq_some_iff.1 h
    exact .inr (.inl ⟨hmem, mem, hw, rfl⟩)
  · rename_i hreg hmem
    exact .inr (.inr ⟨hreg, hmem, (Option.some.inj h).symm⟩)

theorem writeOperand_rflags (h : writeOperand m op val = some m') :
    m'.cpu.rflags = m.cpu.rflags := by
  rcases writeOperand_cases h with ⟨-, rfl⟩ | ⟨-, mem, -, rfl⟩ | ⟨-, -, rfl⟩ <;> rfl

theorem readPair_same {a b : Word64} (ha : readOperand m i.op0 = some a)
    (hb : readOperand m i.op1 = some b) (hsize : i.op1.size = i.op0.size) :
    readPair m i = some (a, b) := by
  rw [readPair, ha, hb]
  simp only [Option.bind_eq_bind, Option.bind_some, hsize, Nat.lt_irrefl, ↓reduceIte]
  rfl

theorem execAlu_some (h : execAlu f flags m i = some m') : ∃ a b m1, readPair m i = some (a, b) ∧
    writeOperand m i.op0 (f a b) = some m1 ∧
    m' = m1.setFlags (flags m1.cpu.rflags a b (f a b) (i.opSize * 8)) := by
  obtain ⟨⟨a, b⟩, hpair, h⟩ := Option.bind_eq_some_iff.1 h
  obtain ⟨m1, hw, h⟩ := Option.bind_eq_some_iff.1 h
  exact ⟨a, b, m1, hpair, hw, (Option.some.inj h).symm⟩

end WineGlass.X86
