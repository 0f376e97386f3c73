import WineGlass.Cpu.Extent

/-!
# Truncated instructions

A fetch that finds too few bytes gives zero and the decoder goes on, so a
truncated instruction is decoded as a shorter one, unless nothing but prefixes
is there. `prefix_stable_law` shows that decoding depends on the buffer alone
exactly when the buffer holds the whole instruction.
-/

namespace WineGlass.X86

/-- A longer buffer that begins with the same bytes. -/
structure Extends (s s' : Code) : Prop where
  maxLen : s.maxLen ≤ s'.maxLen
  rip : s'.rip = s.rip
  bytes : ∀ i < s.maxLen, s'.bytes i = s.bytes i

/-- What is decoded stays in the buffer and is the same in every longer one. -/
def Stable (s : Code) : Prop :=
  0 < (decode s).1.length → (decode s).1.length ≤ s.maxLen ∧ (decode s).2.overread = false ∧
    ∀ s', Extends s s' → (decode s').1 = (decode s).1

-- ---------------------------------------------------------------------------
-- Prefixes
-- ---------------------------------------------------------------------------

theorem parsePrefixes_extends {s s' : Code} (h : Extends s s') (hf : s.maxLen ≤ c.pos + fuel)
    (hf' : s'.maxLen ≤ c.pos + fuel') (hr : (parsePrefixes s fuel c).pos < s.maxLen) :
    parsePrefixes s' fuel' c = parsePrefixes s fuel c := by
  induction fuel generalizing c fuel' with
  | zero =>
    rw [parsePrefixes] at hr
    omega
  | succ fuel ih =>
    have hopen : c.pos < s.maxLen := by
      by_contra hend
      rw [parsePrefixes, if_neg hend] at hr
      exact hend hr
    have hmax := h.maxLen
    obtain ⟨fuel', rfl⟩ := Nat.exists_eq_succ_of_ne_zero (show fuel' ≠ 0 by omega)
    rw [parsePrefixes, if_pos hopen] at hr
    rw [parsePrefixes, parsePrefixes, if_pos hopen, if_pos (by omega), h.bytes c.pos hopen]
    cases hb : prefixByte c (s.bytes c.pos).toNat with
    | none => rfl
    | some c' =>
      rw [hb] at hr
      exact ih (by dsimp only; omega) (by dsimp only; omega) hr

theorem prefixes_extends {s s' : Code} (h : Extends s s') (hp : (prefixes s).pos < s.maxLen) :
    prefixes s' = prefixes s :=
  parsePrefixes_extends h (Nat.le_add_left ..) (Nat.le_add_left ..) hp

theorem parsePrefixes_spec (s : Code) (hc : c.pos ≤ s.maxLen) :
    (parsePrefixes s fuel c).pos ≤ s.maxLen ∧
      (parsePrefixes s fuel c).overread = c.overread := by
  induction fuel generalizing c with
  | zero => exact ⟨hc, rfl⟩
  | succ fuel ih =>
    rw [parsePrefixes]
    split
    case isFalse => exact ⟨hc, rfl⟩
    rename_i hopen
    cases hb : prefixByte c (s.bytes c.pos).toNat with
    | none => exact ⟨hc, rfl⟩
    | some c' =>
      obtain ⟨hle, ho⟩ := ih (c := { c' with pos := c.pos + 1 }) hopen
      exact ⟨hle, ho.trans (prefixByte_prefixed c _ c' hb).overread⟩

theorem prefixes_spec (s : Code) : (prefixes s).pos ≤ s.maxLen ∧ (prefixes s).overread = false :=
  parsePrefixes_spec s (Nat.zero_le _)

-- ---------------------------------------------------------------------------
-- The same fetches
-- ---------------------------------------------------------------------------

section
variable {s s' : Code}

theorem fetch8_same (h : Extends s s') (hc : c.pos + 1 ≤ s.maxLen) : fetch8 s' c = fetch8 s c := by
  have hmax := h.maxLen
  rw [fetch8, fetch8, if_neg (by omega), if_neg (by omega), h.bytes _ (by omega)]

theorem fetch16_same (h : Extends s s') (hc : c.pos + 2 ≤ s.maxLen) :
    fetch16 s' c = fetch16 s c := by
  have hmax := h.maxLen
  rw [fetch16, fetch16, if_pos (by omega), if_pos (by omega), h.bytes _ (by omega),
    h.bytes _ (by omega)]

theorem fetch32_same (h : Extends s s') (hc : c.pos + 4 ≤ s.maxLen) :
    fetch32 s' c = fetch32 s c := by
  have hmax := h.maxLen
  rw [fetch32, fetch32, if_pos (by omega), if_pos (by omega), h.bytes _ (by omega),
    h.bytes _ (by omega), h.bytes _ (by omega), h.bytes _ (by omega)]

theorem simm8_same (h : Extends s s') (hc : c.pos + 1 ≤ s.maxLen) : simm8 s' c = simm8 s c := by
  rw [simm8, simm8, run_bind, run_bind, fetch8_same h hc]

theorem simm32_same (h : Extends s s') (hc : c.pos + 4 ≤ s.maxLen) :
    simm32 s' c = simm32 s c := by
  rw [simm32, simm32, run_bind, run_bind, fetch32_same h hc]

theorem Imm.fetch_same (h : Extends s s') {i : Imm} (hc : c.pos + (i.chunks w).sum ≤ s.maxLen) :
    i.fetch s' w c = i.fetch s w c := by
  cases i with
  | none => rfl
  | ub => rw [Imm.fetch, Imm.fetch, imm8, imm8, run_bind, run_bind, fetch8_same h hc]
  | sb => exact simm8_same h hc
  | jb => exact simm8_same h hc
  | uw => rw [Imm.fetch, Imm.fetch, imm16, imm16, run_bind, run_bind, fetch16_same h hc]
  | iz => exact simm32_same h hc
  | jz => exact simm32_same h hc
  | iv =>
    cases w with
    | false => exact simm32_same h hc
    | true =>
      have hlen : c.pos + 8 ≤ s.maxLen := hc
      have hmid : (fetch32 s c).2.pos = c.pos + 4 := by
        rw [fetch32_pos]
        exact advance_fit (by omega)
      simp only [Imm.fetch, movImm, ↓reduceIte, fetch64, run_bind, fetch32_same h
        (show c.pos + 4 ≤ s.maxLen by omega), fetch32_same h
        (show (fetch32 s c).2.pos + 4 ≤ s.maxLen by omega)]

theorem decodeDisp_same (h : Extends s s')
    (hc : c.pos + (if mod = 1 then 1 else if mod = 2 then 4 else 0) ≤ s.maxLen) :
    decodeDisp s' mod op c = decodeDisp s mod op c := by
  unfold decodeDisp
  split
  · rename_i h1
    rw [if_pos h1] at hc
    rw [run_bind, run_bind, simm8_same h hc]
  split
  · rename_i h1 h2
    rw [if_neg h1, if_pos h2] at hc
    rw [run_bind, run_bind, simm32_same h hc]
  · rfl

theorem decodeSib_same (h : Extends s s') (hc : c.pos + 1 +
    (if mod = 0 ∧ sibBase (s.bytes c.pos) = 5 then 4 else 0) ≤ s.maxLen) :
    decodeSib s' mod op c = decodeSib s mod op c := by
  have hbyte : byteOr0 s c.pos = s.bytes c.pos := if_neg (by omega)
  have hnext : advance s c.pos 1 = c.pos + 1 := advance_fit (by omega)
  simp only [decodeSib, run_bind, run_get, fetch8_same h (show c.pos + 1 ≤ s.maxLen by omega),
    fetch8_run, hbyte, hnext]
  split
  · rename_i h5
    rw [if_pos h5] at hc
    rw [run_bind, run_bind, simm32_same h hc]
  · rfl

/-- The bytes of a memory operand before the displacement of a base register. -/
def baseLength (modrm sib : Byte) : Nat :=
  if modrmRm modrm = 4 then 1 + (if modrmMod modrm = 0 ∧ sibBase sib = 5 then 4 else 0)
  else if modrmMod modrm = 0 ∧ modrmRm modrm = 5 then 4 else 0

theorem decodeBase_same (h : Extends s s')
    (hc : c.pos + baseLength modrm (s.bytes c.pos) ≤ s.maxLen) :
    decodeBase s' modrm op c = decodeBase s modrm op c := by
  unfold baseLength at hc
  unfold decodeBase
  split
  · rename_i h4
    rw [if_pos h4] at hc
    exact decodeSib_same h (by omega)
  rename_i h4
  rw [if_neg h4] at hc
  split
  · rename_i h5
    rw [if_pos h5] at hc
    rw [run_bind, run_bind, simm32_same h hc]
    simp only [run_bind, run_get, run_pure, target, h.rip]
  · rfl

theorem dispLength_base (mod : Nat) (b : Bool) : dispLength mod b =
    (if mod = 0 ∧ b = true then 4 else 0) + (if mod = 1 then 1 else if mod = 2 then 4 else 0) := by
  unfold dispLength
  rcases Decidable.em (mod = 0) with rfl | h0
  · simp only [true_and, Nat.zero_ne_one, ↓reduceIte, OfNat.zero_ne_ofNat, Nat.add_zero]
  · simp only [h0, false_and, ↓reduceIte, Nat.zero_add]

theorem rmLength_base (h : modrmMod modrm ≠ 3) : rmLength modrm sib = 1 + baseLength modrm sib +
    (if modrmMod modrm = 1 then 1 else if modrmMod modrm = 2 then 4 else 0) := by
  rw [rmLength, if_neg h, baseLength]
  split
  · rw [dispLength_base]
    simp only [beq_iff_eq]
    omega
  · rw [dispLength_base]
    simp only [beq_iff_eq]
    omega

theorem decodeBase_end (hc : c.pos + baseLength modrm (s.bytes c.pos) ≤ s.maxLen) :
    (decodeBase s modrm op c).2.pos = c.pos + baseLength modrm (s.bytes c.pos) := by
  unfold baseLength at hc ⊢
  rw [decodeBase_pos]
  dsimp only
  split
  · rename_i h4
    rw [if_pos h4] at hc
    have hbyte : byteOr0 s c.pos = s.bytes c.pos := if_neg (by omega)
    rw [advance_fit (show c.pos + 1 ≤ s.maxLen by omega), hbyte, advance_fit (by omega)]
    omega
  · rename_i h4
    rw [if_neg h4] at hc
    exact advance_fit hc

theorem decodeRm_same (h : Extends s s')
    (hc : c.pos + rmLength modrm (s.bytes c.pos) ≤ s.maxLen + 1) :
    decodeRm s' modrm op c = decodeRm s modrm op c := by
  simp only [decodeRm, run_bind, run_get]
  split
  · rfl
  · rename_i h3
    rw [rmLength_base h3] at hc
    have hbase : c.pos + baseLength modrm (s.bytes c.pos) ≤ s.maxLen := by omega
    rw [run_bind, run_bind, decodeBase_same h hbase, decodeDisp_same h]
    rw [decodeBase_end hbase]
    omega

theorem rmLength_pos (modrm sib : Byte) : 0 < rmLength modrm sib := by
  unfold rmLength
  split
  · exact Nat.one_pos
  · split <;> omega

theorem decodeModrm_same (h : Extends s s')
    (hc : c.pos + rmLength (s.bytes c.pos) (s.bytes (c.pos + 1)) ≤ s.maxLen) :
    decodeModrm s' size c = decodeModrm s size c := by
  have hone := rmLength_pos (s.bytes c.pos) (s.bytes (c.pos + 1))
  have hmax := h.maxLen
  have hpeek : peek s' c = peek s c := by
    rw [peek, peek, h.bytes _ (by omega), decide_eq_false (show ¬s'.maxLen ≤ c.pos by omega),
      decide_eq_false (show ¬s.maxLen ≤ c.pos by omega)]
  have hbyte : byteOr0 s c.pos = s.bytes c.pos := if_neg (by omega)
  have hnext : advance s c.pos 1 = c.pos + 1 := advance_fit (by omega)
  have hrm {o : Bool} {op : Operand} : decodeModrmMem s' op { c with overread := o } =
      decodeModrmMem s op { c with overread := o } := by
    have hfetch : fetch8 s' { c with overread := o } = fetch8 s { c with overread := o } :=
      fetch8_same h (by dsimp only; omega)
    rw [decodeModrmMem, decodeModrmMem, run_bind, run_bind, hfetch, fetch8_run]
    dsimp only
    rw [hbyte, hnext]
    exact decodeRm_same h (by dsimp only; omega)
  simp only [decodeModrm, run_bind, run_get, run_pure, hpeek]
  rw [show (peek s c).2 = { c with overread := (peek s c).2.overread } from rfl, hrm]

end

-- ---------------------------------------------------------------------------
-- The same instruction
-- ---------------------------------------------------------------------------

/-- Where an instruction ends, when no byte of it is missing. -/
def Layout.need (l : Layout) (bytes : Nat → Byte) (w : Bool) : Nat :=
  l.rest bytes + ((l.imm bytes).chunks w).sum

theorem Reads.same {m : Code → StateM Ctx Instruction} (hm : Reads w P F m) (h : Extends s s')
    (hc : Layout.need ⟨F, c.pos⟩ s.bytes w ≤ s.maxLen) : m s' c = m s c := by
  unfold Layout.need Layout.rest Layout.imm at hc
  cases hm with
  | plain => rfl
  | only i =>
    have hfetch : i.fetch s' w c = i.fetch s w c := Imm.fetch_same h hc
    dsimp only
    rw [run_bind, run_bind, hfetch]
  | jump i =>
    have hfetch : i.fetch s' w c = i.fetch s w c := Imm.fetch_same h hc
    simp only [X86.jump, run_bind, run_get, run_pure, target, h.rip, hfetch]
  | rm size =>
    dsimp only
    rw [run_bind, run_bind, decodeModrm_same h hc]
  | rmImm size i =>
    have hrm := Nat.le_trans (Nat.le_add_right ..) hc
    dsimp only
    rw [run_bind, run_bind, decodeModrm_same h hrm, run_bind, run_bind, Imm.fetch_same h]
    rw [decodeModrm_pos]
    dsimp only
    rwa [rmEnd_fit hrm]
  | test size i =>
    have hrm := Nat.le_trans (Nat.le_add_right ..) hc
    dsimp only
    rw [run_bind, run_bind, decodeModrm_same h hrm, decodeModrm_reg]
    split
    · rename_i hreg
      rw [run_bind, run_bind, Imm.fetch_same h]
      rw [decodeModrm_pos]
      dsimp only
      rw [rmEnd_fit hrm]
      simpa only [Form.test, hreg, ↓reduceIte] using hc
    · rfl

/-- Where the instruction ends, when no byte of it is missing. -/
def need (s : Code) : Nat := (rawLayout s).need s.bytes (prefixes s).rexW

theorem body_le_need (s : Code) : (rawLayout s).body ≤ need s :=
  Nat.le_trans (Layout.le_rest _ s.bytes) (Nat.le_add_right ..)

theorem body_0F (h0F : (s.bytes (prefixes s).pos).toNat = 0x0F) (hbody : (rawLayout s).body ≤ n) :
    (prefixes s).pos + 1 < n := by
  rwa [rawLayout, layoutAt, if_pos h0F] at hbody

theorem rawLayout_congr (hp : prefixes s' = prefixes s)
    (hop : s'.bytes (prefixes s).pos = s.bytes (prefixes s).pos)
    (h : (s.bytes (prefixes s).pos).toNat = 0x0F →
      s'.bytes ((prefixes s).pos + 1) = s.bytes ((prefixes s).pos + 1)) :
    rawLayout s' = rawLayout s := by
  unfold rawLayout layoutAt
  rw [hp, hop]
  split
  · rename_i h0F
    rw [h h0F]
  · rfl

theorem foldl_advance_fit {l : List Nat} (h : pos + l.sum ≤ s.maxLen) :
    l.foldl (advance s) pos = pos + l.sum := by
  induction l generalizing pos with
  | nil => rfl
  | cons k l ih =>
    rw [List.sum_cons] at h ⊢
    rw [List.foldl_cons, advance_fit (by omega), ih (by omega)]
    omega

/-- A whole instruction is decoded to its end. -/
theorem decode_length_need (hpos : (prefixes s).pos < s.maxLen) (h : need s ≤ s.maxLen) :
    (decode s).1.length = need s := by
  have hrest : (rawLayout s).rest s.bytes ≤ s.maxLen := Nat.le_trans (Nat.le_add_right ..) h
  rw [(decode_decoded hpos).length, stop_raw hrest]
  exact foldl_advance_fit h

theorem decode_prefixes (hpos : s.maxLen ≤ (prefixes s).pos) : (decode s).1.length = 0 := by
  unfold decode
  split
  · rfl
  · dsimp only
    rw [if_pos hpos]
    rfl

theorem rawLayout_extends (h : Extends s s') (hpos : (prefixes s).pos < s.maxLen)
    (hneed : need s ≤ s.maxLen) : rawLayout s' = rawLayout s :=
  rawLayout_congr (prefixes_extends h hpos) (h.bytes _ hpos) fun h0F =>
    h.bytes _ (body_0F h0F (Nat.le_trans (body_le_need s) hneed))

/-- A whole instruction is decoded the same in every longer buffer. -/
theorem decode_extends (h : Extends s s') (hpos : (prefixes s).pos < s.maxLen)
    (hneed : need s ≤ s.maxLen) : decode s' = decode s := by
  have hmax := h.maxLen
  have hp : prefixes s' = prefixes s := prefixes_extends h hpos
  have hop : opcodeAt s' = opcodeAt s := by
    rw [opcodeAt, opcodeAt, hp, h.bytes _ hpos]
  have hbody := Nat.le_trans (body_le_need s) hneed
  have hraw : rawLayout s' = rawLayout s := rawLayout_extends h hpos hneed
  have hlay : layout s' = layout s := by
    rw [layout_raw (s := s') (by rw [hraw]; omega), layout_raw hbody, hraw]
  have hctx : bodyCtx s' = bodyCtx s := by rw [bodyCtx, bodyCtx, hp, hlay]
  have hcase : caseOf s' = caseOf s := by
    unfold caseOf
    rw [hp, hop]
    dsimp only
    split
    · rename_i h0F
      have hlt : (prefixes s).pos + 1 < s.maxLen := body_0F h0F hbody
      have hbyte : byteOr0 s' ((prefixes s).pos + 1) = byteOr0 s ((prefixes s).pos + 1) := by
        rw [byteOr0, byteOr0, if_neg (by omega), if_neg (by omega), h.bytes _ hlt]
      rw [hbyte]
    · rfl
  have hsame : caseOf s s' (bodyCtx s) = caseOf s s (bodyCtx s) := by
    refine (caseOf_reads s).same h ?_
    rw [bodyCtx, layout_raw hbody]
    exact hneed
  rw [decode_case (show (prefixes s').pos < s'.maxLen by rw [hp]; omega), decode_case hpos, hcase,
    hctx, hsame]

-- ---------------------------------------------------------------------------
-- The law
-- ---------------------------------------------------------------------------

/-- The buffer holds the whole instruction, or nothing but prefixes. -/
def Whole (s : Code) : Prop := s.maxLen ≤ (prefixes s).pos ∨ need s ≤ s.maxLen

instance (s : Code) : Decidable (Whole s) := inferInstanceAs (Decidable (_ ∨ _))

theorem Whole.stable (h : Whole s) : Stable s := by
  intro hlen
  rcases h with hpos | hneed
  · rw [decode_prefixes hpos] at hlen
    exact absurd hlen (Nat.lt_irrefl 0)
  · have hpos : (prefixes s).pos < s.maxLen :=
      Nat.lt_of_lt_of_le (lt_body ..) (Nat.le_trans (body_le_need s) hneed)
    refine ⟨by rw [decode_length_need hpos hneed]; exact hneed, ?_,
      fun s' h => congrArg Prod.fst (decode_extends h hpos hneed)⟩
    rw [(decode_decoded hpos).ctx]
    dsimp only
    rw [(prefixes_spec s).2, layout_raw (Nat.le_trans (body_le_need s) hneed)]
    cases hm : (rawLayout s).form.modrm with
    | false => rfl
    | true =>
      have hbody : (rawLayout s).body < s.maxLen := by
        unfold need Layout.need Layout.rest at hneed
        rw [if_pos hm] at hneed
        have hone := rmLength_pos (s.bytes (rawLayout s).body) (s.bytes ((rawLayout s).body + 1))
        omega
      exact decide_eq_false (by omega)

theorem need_maxLen (hpos : (prefixes s).pos < s.maxLen) (hn : s.maxLen ≤ n) :
    need { s with maxLen := n } = need s := by
  have h : Extends s { s with maxLen := n } := ⟨hn, rfl, fun _ _ => rfl⟩
  have hp := prefixes_extends h hpos
  have hraw := rawLayout_congr hp rfl fun _ => rfl
  rw [need, need, hp, hraw]

/-- A truncated instruction is decoded to a shorter one. -/
theorem not_stable (hpos : (prefixes s).pos < s.maxLen) (hneed : s.maxLen < need s) :
    ¬Stable s := by
  intro h
  have hx : Extends s { s with maxLen := need s } := ⟨Nat.le_of_lt hneed, rfl, fun _ _ => rfl⟩
  obtain ⟨hle, -, hsame⟩ := h (decode_length_pos hpos)
  have hfull : need { s with maxLen := need s } = need s := need_maxLen hpos (Nat.le_of_lt hneed)
  have hlen := decode_length_need (s := { s with maxLen := need s })
    (by rw [prefixes_extends hx hpos]; dsimp only; omega) (Nat.le_of_eq hfull)
  rw [hsame _ hx, hfull] at hlen
  omega

/-- Decoding is stable, and a truncated instruction gives 0, exactly when the
buffer holds the whole instruction or nothing but prefixes. -/
theorem prefix_stable_law (s : Code) :
    (Stable s ↔ Whole s) ∧ ((s.maxLen < need s → (decode s).1.length = 0) ↔ Whole s) := by
  refine ⟨⟨fun h => ?_, Whole.stable⟩, fun h => ?_, ?_⟩
  · rcases Nat.lt_or_ge (prefixes s).pos s.maxLen with hpos | hpos
    · rcases Nat.lt_or_ge s.maxLen (need s) with hneed | hneed
      · exact absurd h (not_stable hpos hneed)
      · exact .inr hneed
    · exact .inl hpos
  · rcases Nat.lt_or_ge (prefixes s).pos s.maxLen with hpos | hpos
    · rcases Nat.lt_or_ge s.maxLen (need s) with hneed | hneed
      · have hlen := decode_length_pos hpos
        rw [h hneed] at hlen
        exact absurd hlen (Nat.lt_irrefl 0)
      · exact .inr hneed
    · exact .inl hpos
  · rintro (hpos | hneed) hcut
    · exact decode_prefixes hpos
    · omega

/-- `mov r, r/m` cut off behind its opcode: one byte is accepted, and the ModRM
byte behind it is read. -/
theorem cut_mov_accepted :
    let s := Code.of [0x8B] 0
    s.maxLen = 1 ∧ s.maxLen < need s ∧ (decode s).1.opcode = .mov ∧ (decode s).1.length = 1 ∧
      (decode s).2.overread = true ∧ ¬Stable s := by
  refine ⟨rfl, by decide, by decide, by decide, by decide, fun h => ?_⟩
  have hread := (h (by decide)).2.1
  exact absurd hread (by decide)

end WineGlass.X86
