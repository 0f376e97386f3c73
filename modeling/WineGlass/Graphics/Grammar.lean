import WineGlass.Graphics.Translate

/-!
# The encoding of operands

`TokensIn` says where an operand at `p` ends, as the encoding has it: the
operand token, its extended tokens, then the immediate, or the indices with the
operands nested in them; every dword that is looked at is there.
`read_operand` succeeds exactly on these.
-/

namespace WineGlass.Dxbc

/-- From `p` to `q`: the extended tokens after `tok`. -/
inductive ExtensionsIn (m : Memory) : U32 → Nat → Nat → Prop
  | last (h : tok.msb = false) : ExtensionsIn m tok p p
  | more (h : tok.msb = true) (dword : m.dword p = some ext)
      (rest : ExtensionsIn m ext (p + 4) q) : ExtensionsIn m tok p q

/-- An operand, or its last `left` indices from dimension `d` on. -/
inductive Part
  | operand
  | indices (tok : U32) (left d : Nat)

inductive TokensIn (m : Memory) : Part → Nat → Nat → Prop
  | imm32 (token : m.dword p = some tok) (ext : ExtensionsIn m tok (p + 4) q)
      (type : operandType tok = otImm32)
      (imm : ∀ i < immCount tok 1, (m.dword (q + 4 * i)).isSome) :
      TokensIn m .operand p (q + 4 * immCount tok 1)
  -- The two or eight dwords of a 64-bit immediate are stepped over, not read.
  | imm64 (token : m.dword p = some tok) (ext : ExtensionsIn m tok (p + 4) q)
      (type : operandType tok = otImm64) : TokensIn m .operand p (q + 4 * immCount tok 2)
  | indexed (token : m.dword p = some tok) (ext : ExtensionsIn m tok (p + 4) q)
      (not32 : operandType tok ≠ otImm32) (not64 : operandType tok ≠ otImm64)
      (rest : TokensIn m (.indices tok (indexDim tok) 0) q r) : TokensIn m .operand p r
  | done : TokensIn m (.indices tok 0 d) p p
  | index32 (hr : rep tok d = 0) (dword : (m.dword p).isSome)
      (rest : TokensIn m (.indices tok left (d + 1)) (p + 4) q) :
      TokensIn m (.indices tok (left + 1) d) p q
  -- Of a 64-bit index only the low dword is read.
  | index64 (hr : rep tok d = 1) (dword : (m.dword p).isSome)
      (rest : TokensIn m (.indices tok left (d + 1)) (p + 8) q) :
      TokensIn m (.indices tok (left + 1) d) p q
  | relative (hr : rep tok d = 2) (operand : TokensIn m .operand p r)
      (rest : TokensIn m (.indices tok left (d + 1)) r q) :
      TokensIn m (.indices tok (left + 1) d) p q
  | both (hr : rep tok d = 3) (dword : (m.dword p).isSome)
      (operand : TokensIn m .operand (p + 4) r)
      (rest : TokensIn m (.indices tok left (d + 1)) r q) :
      TokensIn m (.indices tok (left + 1) d) p q
  | other (hr : 4 ≤ rep tok d) (rest : TokensIn m (.indices tok left (d + 1)) p q) :
      TokensIn m (.indices tok (left + 1) d) p q

variable {m ops : Memory} {read : Nat → Option (Operand × Nat)}

theorem dword_lt (h : m.dword p = some v) : p < m.limit := by
  refine Nat.lt_of_not_le fun hle => ?_
  rw [m.mapped p hle] at h
  cases h

-- ---------------------------------------------------------------------------
-- Extended tokens and immediates
-- ---------------------------------------------------------------------------

theorem ExtensionsIn.le (h : ExtensionsIn m tok p q) : p ≤ q := by
  induction h with
  | last => exact Nat.le_refl _
  | more _ _ _ ih => exact Nat.le_trans (Nat.le_add_right ..) ih

theorem readExtensions_sound (h : readExtensions m fuel tok modifier p = some (r, q)) :
    ExtensionsIn m tok p q := by
  induction fuel generalizing tok modifier p with
  | zero => cases h
  | succ fuel ih =>
    rw [readExtensions] at h
    split at h
    · rename_i hmsb
      obtain ⟨ext, hext, h⟩ := Option.bind_eq_some_iff.1 h
      exact .more hmsb hext (ih h)
    · rename_i hmsb
      obtain ⟨-, rfl⟩ := Prod.mk.inj (Option.some.inj h)
      exact .last (Bool.eq_false_iff.2 hmsb)

theorem readExtensions_complete (h : ExtensionsIn m tok p q) (h0 : 0 < fuel)
    (hf : m.limit < fuel + p) : ∃ r, readExtensions m fuel tok modifier p = some (r, q) := by
  induction h generalizing fuel modifier with
  | last hmsb =>
    cases fuel with
    | zero => cases h0
    | succ fuel => exact ⟨modifier, by rw [readExtensions, hmsb, if_neg Bool.false_ne_true]⟩
  | @more tok p ext q hmsb hext _ ih =>
    have hlt := dword_lt hext
    cases fuel with
    | zero => cases h0
    | succ fuel =>
      rw [readExtensions, if_pos hmsb, hext, Option.bind_some]
      exact ih (by omega) (by omega)

theorem readDwords_isSome : (readDwords m n p).isSome ↔ ∀ i < n, (m.dword (p + 4 * i)).isSome := by
  induction n generalizing p with
  | zero => exact iff_of_true rfl fun i hi => absurd hi (Nat.not_lt_zero i)
  | succ n ih =>
    rw [readDwords, Walk.bind_isSome fun _ _ => by rw [Option.isSome_map], ih]
    constructor
    · rintro ⟨h0, hrest⟩ i hi
      cases i with
      | zero => exact h0
      | succ i =>
        have h := hrest i (Nat.lt_of_succ_lt_succ hi)
        rwa [Nat.add_assoc, Nat.add_comm 4, ← Nat.mul_succ] at h
    · intro h
      refine ⟨h 0 (Nat.succ_pos n), fun i hi => ?_⟩
      rw [Nat.add_assoc, Nat.add_comm 4, ← Nat.mul_succ]
      exact h (i + 1) (Nat.succ_lt_succ hi)

-- ---------------------------------------------------------------------------
-- Operands
-- ---------------------------------------------------------------------------

theorem TokensIn.le (h : TokensIn m part p q) : p ≤ q := by
  induction h with
  | imm32 _ ext _ _ =>
    have := ext.le
    omega
  | imm64 _ ext _ =>
    have := ext.le
    omega
  | indexed _ ext _ _ _ ih =>
    have := ext.le
    omega
  | done => exact Nat.le_refl _
  | index32 _ _ _ ih | index64 _ _ _ ih => omega
  | relative _ _ _ ihr ih => exact Nat.le_trans ihr ih
  | both _ _ _ _ ihr ih => omega
  | other _ _ ih => exact ih

/-- The index loop, given that nested operands are read soundly. -/
theorem readIndices_sound
    (hread : ∀ p o q, read p = some (o, q) → TokensIn m .operand p q)
    (h : readIndices read m tok left d p = some (is, q)) :
    TokensIn m (.indices tok left d) p q := by
  induction left generalizing d p is with
  | zero =>
    obtain ⟨-, rfl⟩ := Prod.mk.inj (Option.some.inj h)
    exact .done
  | succ left ih =>
    obtain ⟨⟨i, r⟩, hi, h⟩ := Option.bind_eq_some_iff.1 h
    obtain ⟨⟨is', q'⟩, his, h⟩ := Option.map_eq_some_iff.1 h
    obtain ⟨-, rfl⟩ := Prod.mk.inj h
    have hrest := ih his
    unfold readIndex at hi
    split at hi
    · rename_i hr
      obtain ⟨v, hv, hi⟩ := Option.map_eq_some_iff.1 hi
      obtain ⟨-, rfl⟩ := Prod.mk.inj hi
      exact .index32 hr (hv ▸ rfl) hrest
    split at hi
    · rename_i hr
      obtain ⟨v, hv, hi⟩ := Option.map_eq_some_iff.1 hi
      obtain ⟨-, rfl⟩ := Prod.mk.inj hi
      exact .index64 hr (hv ▸ rfl) hrest
    split at hi
    · rename_i hr
      obtain ⟨⟨o, r'⟩, ho, hi⟩ := Option.map_eq_some_iff.1 hi
      obtain ⟨-, rfl⟩ := Prod.mk.inj hi
      exact .relative hr (hread _ _ _ ho) hrest
    split at hi
    · rename_i hr
      obtain ⟨v, hv, hi⟩ := Option.bind_eq_some_iff.1 hi
      obtain ⟨⟨o, r'⟩, ho, hi⟩ := Option.map_eq_some_iff.1 hi
      obtain ⟨-, rfl⟩ := Prod.mk.inj hi
      exact .both hr (hv ▸ rfl) (hread _ _ _ ho) hrest
    · obtain ⟨-, rfl⟩ := Prod.mk.inj (Option.some.inj hi)
      exact .other (by omega) hrest

theorem readOperandIn_sound (h : readOperandIn m fuel p = some (o, q)) :
    TokensIn m .operand p q := by
  induction fuel generalizing p o q with
  | zero => cases h
  | succ fuel ih =>
    obtain ⟨tok, htok, h⟩ := Option.bind_eq_some_iff.1 h
    obtain ⟨⟨modifier, r⟩, hext, h⟩ := Option.bind_eq_some_iff.1 h
    have hext := readExtensions_sound hext
    dsimp only at h
    split at h
    · rename_i ht
      obtain ⟨imm, himm, h⟩ := Option.map_eq_some_iff.1 h
      obtain ⟨-, rfl⟩ := Prod.mk.inj h
      exact .imm32 htok hext ht (readDwords_isSome.1 (himm ▸ rfl))
    split at h
    · rename_i ht
      obtain ⟨-, rfl⟩ := Prod.mk.inj (Option.some.inj h)
      exact .imm64 htok hext ht
    · rename_i h32 h64
      obtain ⟨⟨is, q'⟩, his, h⟩ := Option.map_eq_some_iff.1 h
      obtain ⟨-, rfl⟩ := Prod.mk.inj h
      exact .indexed htok hext h32 h64 (readIndices_sound (fun _ _ _ => ih) his)

/-- What a part of the encoding is read as, nested operands with enough fuel. -/
def Reads (m : Memory) : Part → Nat → Nat → Prop
  | .operand, p, q => ∀ fuel, m.limit < fuel + p → ∃ o, readOperandIn m fuel p = some (o, q)
  | .indices tok left d, p, q => ∀ fuel, m.limit < fuel + p →
    ∃ is, readIndices (readOperandIn m fuel) m tok left d p = some (is, q)

theorem readIndices_step (hi : readIndex (readOperandIn m fuel) m (rep tok d) p = some (i, r))
    (hrest : Reads m (.indices tok left (d + 1)) r q) (hf : m.limit < fuel + r) :
    ∃ is, readIndices (readOperandIn m fuel) m tok (left + 1) d p = some (is, q) := by
  obtain ⟨is, his⟩ := hrest fuel hf
  refine ⟨i :: is, ?_⟩
  rw [readIndices, hi, Option.bind_some]
  dsimp only
  rw [his, Option.map_some]

/-- The operand token and the extended ones, whatever is read behind them. -/
theorem operandBody_open (htok : m.dword p = some tok) (hext : ExtensionsIn m tok (p + 4) q) :
    ∃ modifier, operandBody read m p =
      if operandType tok = otImm32 then
        (readDwords m (immCount tok 1) q).map fun imm =>
          ({ ofToken tok modifier with imm }, q + 4 * immCount tok 1)
      else if operandType tok = otImm64 then some (ofToken tok modifier, q + 4 * immCount tok 2)
      else
        (readIndices read m tok (indexDim tok) 0 q).map fun (index, q) =>
          ({ ofToken tok modifier with index }, q) := by
  obtain ⟨modifier, hmod⟩ : ∃ r, readExtensions m (m.limit + 1) tok 0 (p + 4) = some (r, q) :=
    readExtensions_complete hext (Nat.succ_pos m.limit) (by omega)
  refine ⟨modifier, ?_⟩
  rw [operandBody, htok, Option.bind_some, hmod, Option.bind_some]

/-- Fuel for what is left of the memory does not run out on a token that is there. -/
theorem fuel_succ (htok : m.dword p = some tok) (hf : m.limit < fuel + p) : ∃ k, fuel = k + 1 := by
  have hlt := dword_lt htok
  exact Nat.exists_eq_succ_of_ne_zero (by omega)

theorem TokensIn.reads (h : TokensIn m part p q) : Reads m part p q := by
  induction h with
  | @imm32 p tok q htok hext ht himm =>
    intro fuel hf
    obtain ⟨fuel, rfl⟩ := fuel_succ htok hf
    obtain ⟨imm, himm⟩ := Option.isSome_iff_exists.1 (readDwords_isSome.2 himm)
    obtain ⟨modifier, hbody⟩ := operandBody_open htok hext
    refine ⟨{ ofToken tok modifier with imm }, ?_⟩
    rw [readOperandIn, hbody, if_pos ht, himm, Option.map_some]
  | @imm64 p tok q htok hext ht =>
    intro fuel hf
    obtain ⟨fuel, rfl⟩ := fuel_succ htok hf
    obtain ⟨modifier, hbody⟩ := operandBody_open htok hext
    have h32 : otImm64 ≠ otImm32 := by decide
    refine ⟨ofToken tok modifier, ?_⟩
    rw [readOperandIn, hbody, if_neg (ht ▸ h32), if_pos ht]
  | @indexed p tok q r htok hext h32 h64 _ ih =>
    intro fuel hf
    obtain ⟨fuel, rfl⟩ := fuel_succ htok hf
    have hle := hext.le
    obtain ⟨modifier, hbody⟩ := operandBody_open htok hext
    obtain ⟨is, his⟩ := ih fuel (by omega)
    refine ⟨{ ofToken tok modifier with index := is }, ?_⟩
    rw [readOperandIn, hbody, if_neg h32, if_neg h64, his, Option.map_some]
  | done => exact fun _ _ => ⟨[], rfl⟩
  | index32 hr hd _ ih =>
    intro fuel hf
    obtain ⟨v, hv⟩ := Option.isSome_iff_exists.1 hd
    refine readIndices_step (i := ⟨v, none⟩) ?_ ih (by omega)
    rw [readIndex, if_pos hr, hv, Option.map_some]
  | index64 hr hd _ ih =>
    intro fuel hf
    obtain ⟨v, hv⟩ := Option.isSome_iff_exists.1 hd
    refine readIndices_step (i := ⟨v, none⟩) ?_ ih (by omega)
    rw [readIndex, if_neg (by omega), if_pos hr, hv, Option.map_some]
  | relative hr ho _ iho ih =>
    intro fuel hf
    obtain ⟨o, ho'⟩ := iho fuel hf
    have hle := ho.le
    refine readIndices_step (i := ⟨0, some (relStr o)⟩) ?_ ih (by omega)
    rw [readIndex, if_neg (by omega), if_neg (by omega), if_pos hr, ho', Option.map_some]
  | both hr hd ho _ iho ih =>
    intro fuel hf
    obtain ⟨v, hv⟩ := Option.isSome_iff_exists.1 hd
    obtain ⟨o, ho'⟩ := iho fuel (by omega)
    have hle := ho.le
    refine readIndices_step (i := ⟨v, some (relStr o)⟩) ?_ ih (by omega)
    rw [readIndex, if_neg (by omega), if_neg (by omega), if_neg (by omega), if_pos hr, hv,
      Option.bind_some, ho', Option.map_some]
  | other hr _ ih =>
    intro fuel hf
    refine readIndices_step (i := ⟨0, none⟩) ?_ ih hf
    rw [readIndex, if_neg (by omega), if_neg (by omega), if_neg (by omega), if_neg (by omega)]

theorem readOperand_iff : (∃ o, readOperand m p = some (o, q)) ↔ TokensIn m .operand p q :=
  ⟨fun ⟨_, h⟩ => readOperandIn_sound h, fun h => h.reads _ (by omega)⟩

-- ---------------------------------------------------------------------------
-- Instructions
-- ---------------------------------------------------------------------------

/-- `n` operands, one behind the other. -/
def OperandsIn (m : Memory) : (n : Nat) → Nat → Nat → Prop
  | 0, p, q => p = q
  | n + 1, p, q => ∃ r, TokensIn m .operand p r ∧ OperandsIn m n r q

theorem readOperands_iff : (∃ os, readOperands m n p = some (os, q)) ↔ OperandsIn m n p q := by
  induction n generalizing p with
  | zero =>
    constructor
    · rintro ⟨os, h⟩
      exact (Prod.mk.inj (Option.some.inj h)).2
    · rintro rfl
      exact ⟨[], rfl⟩
  | succ n ih =>
    constructor
    · rintro ⟨os, h⟩
      obtain ⟨⟨o, r⟩, ho, h⟩ := Option.bind_eq_some_iff.1 h
      obtain ⟨⟨os', q'⟩, hos, h⟩ := Option.map_eq_some_iff.1 h
      obtain ⟨-, rfl⟩ := Prod.mk.inj h
      exact ⟨r, readOperand_iff.1 ⟨o, ho⟩, ih.1 ⟨os', hos⟩⟩
    · rintro ⟨r, ho, hos⟩
      obtain ⟨o, ho⟩ := readOperand_iff.2 ho
      obtain ⟨os, hos⟩ := ih.2 hos
      refine ⟨o :: os, ?_⟩
      rw [readOperands, ho, Option.bind_some]
      dsimp only
      rw [hos, Option.map_some]

/-- The instruction at `p`: its token and a length dword from `m`, its operands from
`ops`, and one dword more where its case looks at it. -/
def InsnIn (m ops : Memory) (stop p : Nat) : Prop := ∃ tok, m.dword p = some tok ∧
  (opcode tok = customData ∧ p + 4 < stop → (m.dword (p + 4)).isSome) ∧
  ∃ q, OperandsIn ops (operandCount tok) (p + 4) q ∧ (hasTrailing tok → (m.dword q).isSome)

theorem turn_isSome : (turn m ops stop p).isSome ↔ InsnIn m ops stop p := by
  constructor
  · intro h
    obtain ⟨⟨insn, q⟩, h⟩ := Option.isSome_iff_exists.1 h
    obtain ⟨q', hnext, h⟩ := Option.bind_eq_some_iff.1 h
    obtain ⟨insn', hinsn, -⟩ := Option.map_eq_some_iff.1 h
    obtain ⟨tok, htok, hnext⟩ := Option.bind_eq_some_iff.1 hnext
    obtain ⟨tok', htok', hinsn⟩ := Option.bind_eq_some_iff.1 hinsn
    obtain rfl := Option.some.inj (htok.symm.trans htok')
    obtain ⟨⟨os, r⟩, hos, hinsn⟩ := Option.bind_eq_some_iff.1 hinsn
    refine ⟨tok, htok, fun hc => ?_, r, readOperands_iff.1 ⟨os, hos⟩, fun ht => ?_⟩
    · rw [if_pos hc] at hnext
      obtain ⟨n, hn, -⟩ := Option.map_eq_some_iff.1 hnext
      exact hn ▸ rfl
    · dsimp only at hinsn
      rw [if_pos ht] at hinsn
      obtain ⟨v, hv, -⟩ := Option.map_eq_some_iff.1 hinsn
      exact hv ▸ rfl
  · rintro ⟨tok, htok, hlength, r, hos, htrail⟩
    obtain ⟨os, hos⟩ := readOperands_iff.2 hos
    have hnext : (next m stop p).isSome := by
      rw [next, htok, Option.bind_some]
      split
      · rename_i hc
        rw [Option.isSome_map]
        exact hlength hc
      · rfl
    have hinsn : (readInsn m ops p).isSome := by
      rw [readInsn, htok, Option.bind_some, hos, Option.bind_some]
      dsimp only
      split
      · rename_i ht
        rw [Option.isSome_map]
        exact htrail ht
      · rfl
    rw [turn, Walk.bind_isSome fun _ _ => by rw [Option.isSome_map]]
    exact ⟨hnext, hinsn⟩

end WineGlass.Dxbc
