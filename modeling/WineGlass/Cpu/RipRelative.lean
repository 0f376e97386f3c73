import WineGlass.Cpu.Extent

/-!
# RIP-relative operands

The decoder resolves a RIP-relative displacement as soon as it has read it,
against the address behind the displacement; the architecture resolves it
against the end of the instruction. The two are the same address unless an
immediate follows.
-/

namespace WineGlass.X86

/-- No immediate byte follows the ModRM bytes in the buffer: the form has none,
or the buffer ends first. -/
def NoImm (s : Code) : Prop :=
  ∀ k ∈ ((layout s).form.imm (modrmReg (s.bytes (layout s).body))).chunks (prefixes s).rexW,
    s.maxLen < rmEnd s (layout s).body + k

instance (s : Code) : Decidable (NoImm s) := inferInstanceAs (Decidable (∀ _ ∈ _, _))

theorem immEnd_bounds (s : Code) (w : Bool) (i : Imm) (pos : Nat) :
    pos ≤ immEnd s w i pos ∧ immEnd s w i pos ≤ pos + 8 := by
  have hone (k p : Nat) : p ≤ advance s p k ∧ advance s p k ≤ p + k := by
    unfold advance
    split <;> omega
  unfold immEnd
  cases i with
  | none => exact ⟨Nat.le_refl pos, Nat.le_add_right pos 8⟩
  | ub | sb | jb =>
    have h := hone 1 pos
    exact ⟨h.1, Nat.le_trans h.2 (by omega)⟩
  | uw =>
    have h := hone 2 pos
    exact ⟨h.1, Nat.le_trans h.2 (by omega)⟩
  | iz | jz =>
    have h := hone 4 pos
    exact ⟨h.1, Nat.le_trans h.2 (by omega)⟩
  | iv =>
    have h := hone 4 pos
    have h' := hone 4 (advance s pos 4)
    cases w with
    | false => exact ⟨h.1, Nat.le_trans h.2 (by omega)⟩
    | true => exact ⟨Nat.le_trans h.1 h'.1, Nat.le_trans h'.2 (by omega)⟩

theorem chunks_pos (h : k ∈ Imm.chunks w i) : 0 < k := by
  cases i <;> cases w <;> simp [Imm.chunks] at h <;> omega

theorem foldl_advance_eq {l : List Nat} (hl : ∀ k ∈ l, 0 < k) :
    l.foldl (advance s) pos = pos ↔ ∀ k ∈ l, s.maxLen < pos + k := by
  induction l with
  | nil => simp
  | cons k l ih =>
    have hk := hl k (List.mem_cons_self ..)
    have hrest : l.foldl (advance s) pos = pos ↔ ∀ k ∈ l, s.maxLen < pos + k :=
      ih fun k' hk' => hl k' (List.mem_cons_of_mem k hk')
    rw [List.foldl_cons, List.forall_mem_cons]
    rcases Nat.lt_or_ge s.maxLen (pos + k) with hlt | hge
    · rw [show advance s pos k = pos from if_neg (by omega), hrest]
      exact ⟨fun h => ⟨hlt, h⟩, And.right⟩
    · rw [advance_fit hge]
      constructor
      · intro h
        have hno := le_foldl_advance (s := s) l (pos + k)
        omega
      · rintro ⟨hlt, -⟩
        omega

theorem noImm_iff (s : Code) : NoImm s ↔
    immEnd s (prefixes s).rexW ((layout s).form.imm (modrmReg (s.bytes (layout s).body)))
      (rmEnd s (layout s).body) = rmEnd s (layout s).body :=
  (foldl_advance_eq fun _ hk => chunks_pos hk).symm

/-- What an operand with base -2 is: the ModRM operand, resolved against the
address behind its displacement. -/
theorem rip_operand (ho : o = (decode s).1.op0 ∨ o = (decode s).1.op1 ∨ o = (decode s).1.op2)
    (hb : o.memBase = -2) : (layout s).form.modrm = true ∧ (prefixes s).pos < s.maxLen ∧
      o.memDisp = s.rip + BitVec.ofNat 64 (rmEnd s (layout s).body) +
        dispAt s ((layout s).body + 1) := by
  rcases Nat.lt_or_ge (prefixes s).pos s.maxLen with hpos | hpos
  case inr =>
    have hnew : o.memBase = 0 := by
      unfold decode at ho
      split at ho
      · rcases ho with rfl | rfl | rfl <;> rfl
      · dsimp only at ho
        rw [if_pos hpos] at ho
        rcases ho with rfl | rfl | rfl <;> rfl
    rw [hnew] at hb
    cases hb
  have hd := decode_decoded hpos
  have hfrom {m : ModRm} {size : Nat} (h : Built size m (decode s).1) : FromRm m o := by
    rcases ho with rfl | rfl | rfl
    · exact h.from0
    · exact h.from1
    · exact h.from2
  cases hm : (layout s).form.modrm with
  | false =>
    have hno := (hfrom (hd.noRm hm ⟨{}, {}⟩) hb).1
    cases hno
  | true =>
    obtain ⟨size, hbuilt⟩ := hd.rm hm
    obtain ⟨hrm, hdisp⟩ := hfrom hbuilt hb
    exact ⟨rfl, hpos, hdisp.trans (decodeModrm_rip hrm)⟩

theorem ofNat_inj (h : pos ≤ stop) (hs : stop ≤ pos + 8) :
    BitVec.ofNat 64 pos = BitVec.ofNat 64 stop ↔ stop = pos := by
  constructor
  · intro he
    have he := congrArg BitVec.toNat he
    rw [BitVec.toNat_ofNat, BitVec.toNat_ofNat] at he
    omega
  · rintro rfl
    rfl

/-- A RIP-relative operand is resolved against the end of the instruction
exactly when no immediate follows it. -/
theorem rip_relative_law {o : Operand}
    (ho : o = (decode s).1.op0 ∨ o = (decode s).1.op1 ∨ o = (decode s).1.op2)
    (hb : o.memBase = -2) :
    o.memDisp = s.rip + BitVec.ofNat 64 (decode s).1.length + dispAt s ((layout s).body + 1) ↔
      NoImm s := by
  obtain ⟨hm, hpos, hdisp⟩ := rip_operand ho hb
  have hlen : (decode s).1.length = immEnd s (prefixes s).rexW
      ((layout s).form.imm (modrmReg (s.bytes (layout s).body))) (rmEnd s (layout s).body) := by
    rw [(decode_decoded hpos).length, Layout.stop, Form.stop, hm]
    rfl
  obtain ⟨hle, hge⟩ := immEnd_bounds s (prefixes s).rexW
    ((layout s).form.imm (modrmReg (s.bytes (layout s).body))) (rmEnd s (layout s).body)
  rw [hdisp, hlen, noImm_iff, BitVec.add_left_inj, BitVec.add_right_inj, ofNat_inj hle hge]

/-- `lea rax, [rip+0x10]` at 0x3000. -/
theorem rip_relative_law_lea :
    (decode (.of [0x48, 0x8D, 0x05, 0x10, 0, 0, 0] 0x3000)).1.op1.memDisp = 0x3017 := by
  have h := (rip_relative_law (s := .of [0x48, 0x8D, 0x05, 0x10, 0, 0, 0] 0x3000) (.inr (.inl rfl))
    (by decide)).2 (by decide)
  rw [h]
  decide

/-- `mov dword [rip+0], 1`: resolved four bytes short. -/
theorem mov_imm_resolves_short :
    let s := Code.of [0xC7, 0x05, 0, 0, 0, 0, 1, 0, 0, 0] 0
    (decode s).1.opcode = .mov ∧ (decode s).1.op0.type = .mem ∧ (decode s).1.op0.memBase = -2 ∧
      (decode s).1.op0.memDisp = 6 ∧
      (decode s).1.op0.memDisp ≠
        s.rip + BitVec.ofNat 64 (decode s).1.length + dispAt s ((layout s).body + 1) := by
  decide

end WineGlass.X86
