import WineGlass.Cpu.Truncation

/-!
# Instruction lengths

The length the architecture gives an instruction, from its bytes alone, against
the one the decoder returns. The decoder reads four bytes of immediate where a
0x66 prefix leaves two, and takes REX.W from a REX prefix that another prefix
follows, which the architecture ignores.
-/

namespace WineGlass.X86

/-- A legacy prefix or a REX prefix. -/
def IsPrefix (b : Nat) : Prop :=
  b = 0xF0 ∨ b = 0xF2 ∨ b = 0xF3 ∨ b = 0x66 ∨ b = 0x67 ∨ b = 0x26 ∨ b = 0x2E ∨ b = 0x36 ∨
    b = 0x3E ∨ b = 0x64 ∨ b = 0x65 ∨ 0x40 ≤ b ∧ b ≤ 0x4F

instance (b : Nat) : Decidable (IsPrefix b) := inferInstanceAs (Decidable (_ ∨ _))

def IsRex (b : Byte) : Prop := 0x40 ≤ b.toNat ∧ b.toNat ≤ 0x4F
def IsRexW (b : Byte) : Prop := 0x48 ≤ b.toNat ∧ b.toNat ≤ 0x4F

instance (b : Byte) : Decidable (IsRex b) := inferInstanceAs (Decidable (_ ∧ _))
instance (b : Byte) : Decidable (IsRexW b) := inferInstanceAs (Decidable (_ ∧ _))

/-- An instruction in memory: its opcode stands behind all its prefixes. -/
structure Encoding (bytes : Nat → Byte) where
  opcode : Nat
  prefixed : ∀ i < opcode, IsPrefix (bytes i).toNat
  ends : ¬IsPrefix (bytes opcode).toNat

namespace Encoding
variable {bytes : Nat → Byte} (e : Encoding bytes)

def Has66 : Prop := ∃ i < e.opcode, bytes i = 0x66

/-- Only a REX prefix right before the opcode counts. -/
def RexW : Prop := 0 < e.opcode ∧ IsRexW (bytes (e.opcode - 1))

/-- The last REX prefix has W set, wherever it is. -/
def LastRexW : Prop := ∃ i < e.opcode, IsRexW (bytes i) ∧ ∀ j < e.opcode, i < j → ¬IsRex (bytes j)

instance : Decidable e.Has66 := inferInstanceAs (Decidable (∃ i < _, _))
instance : Decidable e.RexW := inferInstanceAs (Decidable (_ ∧ _))
instance : Decidable e.LastRexW := inferInstanceAs (Decidable (∃ i < _, _ ∧ ∀ j < _, _ → _))

def imm : Imm := (layoutAt bytes e.opcode).imm bytes
def rest : Nat := (layoutAt bytes e.opcode).rest bytes

/-- The bytes of the immediate. Near branches have 32-bit offsets whatever the
operand size is. -/
def immLength : Nat :=
  match e.imm with
  | .none => 0
  | .ub | .sb | .jb => 1
  | .uw => 2
  | .jz => 4
  | .iz => if e.Has66 ∧ ¬e.RexW then 2 else 4
  | .iv => if e.RexW then 8 else if e.Has66 then 2 else 4

def length : Nat := e.rest + e.immLength

/-- The immediate is as wide as the decoder takes it to be. -/
def Agreed (maxLen : Nat) : Prop :=
  match e.imm with
  | .iz => e.Has66 → e.RexW
  | .iv => e.RexW ∨ ¬e.Has66 ∧ (e.LastRexW → maxLen < e.rest + 8)
  | _ => True

instance (maxLen : Nat) : Decidable (e.Agreed maxLen) := by
  unfold Agreed
  split <;> infer_instance

end Encoding

-- ---------------------------------------------------------------------------
-- The prefixes
-- ---------------------------------------------------------------------------

theorem isSome_ite {p : Prop} [Decidable p] {a : α} {o : Option α} :
    (if p then some a else o).isSome = true ↔ p ∨ o.isSome = true := by
  split
  · exact ⟨fun _ => .inl ‹p›, fun _ => rfl⟩
  · exact ⟨.inr, fun h => h.resolve_left ‹¬p›⟩

theorem prefixByte_isSome (c : Ctx) (b : Nat) : (prefixByte c b).isSome = true ↔ IsPrefix b := by
  simp only [prefixByte, isSome_ite, IsPrefix, Option.isSome_none, Bool.false_eq_true, or_false]

/-- What `rexW` holds after the first `n` bytes. -/
def RexSeen (bytes : Nat → Byte) (n : Nat) (w : Bool) : Prop :=
  w = true ↔ ∃ i < n, IsRexW (bytes i) ∧ ∀ j < n, i < j → ¬IsRex (bytes j)

theorem RexSeen.next {c c' : Ctx} (h : RexSeen bytes n c.rexW)
    (hp : Prefixed c (bytes n).toNat c') : RexSeen bytes (n + 1) c'.rexW := by
  unfold RexSeen at h ⊢
  rw [hp.rexW]
  split
  · rename_i hrex
    rw [decide_eq_true_iff]
    constructor
    · intro hw
      refine ⟨n, Nat.lt_succ_self n, ⟨by omega, hrex.2⟩, fun j hj hlt => ?_⟩
      omega
    · rintro ⟨i, hi, hw, hlast⟩
      rcases Nat.lt_succ_iff_lt_or_eq.1 hi with hlt | rfl
      · exact absurd hrex (hlast n (Nat.lt_succ_self n) hlt)
      · unfold IsRexW at hw
        omega
  · rename_i hrex
    rw [h]
    constructor
    · rintro ⟨i, hi, hw, hlast⟩
      refine ⟨i, Nat.lt_succ_of_lt hi, hw, fun j hj hlt => ?_⟩
      rcases Nat.lt_succ_iff_lt_or_eq.1 hj with hj | rfl
      · exact hlast j hj hlt
      · exact hrex
    · rintro ⟨i, hi, hw, hlast⟩
      rcases Nat.lt_succ_iff_lt_or_eq.1 hi with hlt | rfl
      · exact ⟨i, hlt, hw, fun j hj => hlast j (Nat.lt_succ_of_lt hj)⟩
      · refine absurd ⟨?_, hw.2⟩ hrex
        have hlow := hw.1
        omega

theorem parsePrefixes_run (e : Encoding s.bytes) (hmax : e.opcode < s.maxLen)
    (hc : c.pos ≤ e.opcode) (hf : e.opcode < c.pos + fuel) (hw : RexSeen s.bytes c.pos c.rexW) :
    (parsePrefixes s fuel c).pos = e.opcode ∧
      RexSeen s.bytes e.opcode (parsePrefixes s fuel c).rexW := by
  induction fuel generalizing c with
  | zero => omega
  | succ fuel ih =>
    rw [parsePrefixes, if_pos (by omega)]
    cases hb : prefixByte c (s.bytes c.pos).toNat with
    | none =>
      have hno : ¬IsPrefix (s.bytes c.pos).toNat := by
        rw [← prefixByte_isSome c, hb]
        exact Bool.false_ne_true
      have hend : c.pos = e.opcode := by
        rcases Nat.eq_or_lt_of_le hc with heq | hlt
        · exact heq
        · exact absurd (e.prefixed c.pos hlt) hno
      exact ⟨hend, hend ▸ hw⟩
    | some c' =>
      have hyes : IsPrefix (s.bytes c.pos).toNat := by
        rw [← prefixByte_isSome c, hb]
        rfl
      have hne : c.pos ≠ e.opcode := by
        intro heq
        rw [heq] at hyes
        exact e.ends hyes
      have hnext := hw.next (prefixByte_prefixed c _ c' hb)
      exact ih (c := { c' with pos := c.pos + 1 }) (by dsimp only; omega) (by dsimp only; omega) hnext

theorem Encoding.prefixes (e : Encoding s.bytes) (hmax : e.opcode < s.maxLen) :
    (prefixes s).pos = e.opcode ∧ ((prefixes s).rexW = true ↔ e.LastRexW) := by
  refine parsePrefixes_run e hmax (Nat.zero_le _) (by dsimp only; omega) ?_
  constructor
  · nofun
  · rintro ⟨i, hi, -⟩
    exact absurd hi (Nat.not_lt_zero i)

theorem Encoding.RexW.last {e : Encoding bytes} (h : e.RexW) : e.LastRexW :=
  ⟨e.opcode - 1, Nat.sub_one_lt_of_lt h.1, h.2, fun j hj hlt => by omega⟩

-- ---------------------------------------------------------------------------
-- The law
-- ---------------------------------------------------------------------------

section
variable {s : Code} (e : Encoding s.bytes)

theorem Encoding.opcode_lt_rest : e.opcode < e.rest :=
  Nat.lt_of_lt_of_le (lt_body ..) (Layout.le_rest ..)

/-- What the decoder returns when the ModRM bytes fit. -/
theorem Encoding.decode_length (h : e.rest ≤ s.maxLen) :
    (decode s).1.length = immEnd s (X86.prefixes s).rexW e.imm e.rest := by
  have hpos := (e.prefixes (Nat.lt_of_lt_of_le e.opcode_lt_rest h)).1
  have hraw : rawLayout s = layoutAt s.bytes e.opcode := by rw [rawLayout, hpos]
  have hlt : (X86.prefixes s).pos < s.maxLen := by
    rw [hpos]
    exact Nat.lt_of_lt_of_le e.opcode_lt_rest h
  rw [(decode_decoded hlt).length, stop_raw (by rw [hraw]; exact h), hraw]
  rfl

/-- The immediate of `MOV r, imm`: two fetches under any REX.W. -/
theorem fetch_iv (hw : w = true ↔ e.LastRexW)
    (hlen : e.rest + (if e.RexW then 8 else if e.Has66 then 2 else 4) ≤ 15) (hmax : 16 ≤ s.maxLen) :
    (if w then [4, 4] else [4]).foldl (advance s) e.rest =
        e.rest + (if e.RexW then 8 else if e.Has66 then 2 else 4) ↔
      e.RexW ∨ ¬e.Has66 ∧ (e.LastRexW → s.maxLen < e.rest + 8) := by
  rcases Decidable.em e.RexW with hrex | hrex
  · rw [if_pos hrex] at hlen ⊢
    rw [if_pos (hw.2 hrex.last), List.foldl_cons, List.foldl_cons, List.foldl_nil,
      advance_fit (show e.rest + 4 ≤ s.maxLen by omega),
      advance_fit (show e.rest + 4 + 4 ≤ s.maxLen by omega)]
    exact iff_of_true (by omega) (.inl hrex)
  rw [if_neg hrex] at hlen ⊢
  rcases Decidable.em e.Has66 with h66 | h66
  · rw [if_pos h66] at hlen ⊢
    refine iff_of_false ?_ fun h => h.elim hrex fun h => h.1 h66
    have hone (p : Nat) : advance s p 4 = p ∨ advance s p 4 = p + 4 :=
      (ite_eq_or_eq ..).symm
    have hfirst := hone e.rest
    have hsecond := hone (advance s e.rest 4)
    cases w with
    | false =>
      rw [if_neg Bool.false_ne_true, List.foldl_cons, List.foldl_nil]
      omega
    | true =>
      rw [if_pos rfl, List.foldl_cons, List.foldl_cons, List.foldl_nil]
      omega
  · rw [if_neg h66] at hlen ⊢
    cases w with
    | false =>
      rw [if_neg Bool.false_ne_true, List.foldl_cons, List.foldl_nil, advance_fit (by omega)]
      exact iff_of_true rfl (.inr ⟨h66, fun h => absurd (hw.2 h) Bool.false_ne_true⟩)
    | true =>
      rw [if_pos rfl, List.foldl_cons, List.foldl_cons, List.foldl_nil,
        advance_fit (show e.rest + 4 ≤ s.maxLen by omega), advance]
      have hlast : e.LastRexW := hw.1 rfl
      constructor
      · intro hend
        refine .inr ⟨h66, fun _ => ?_⟩
        split at hend <;> omega
      · rintro (h | ⟨-, hcut⟩)
        · exact absurd h hrex
        · have hcut := hcut hlast
          rw [if_neg (show ¬e.rest + 4 + 4 ≤ s.maxLen by omega)]

/-- The decoder's length is the architecture's exactly when the immediate is as
wide as the decoder takes it to be. -/
theorem length_law (hlen : e.length ≤ 15) (hmax : 16 ≤ s.maxLen) :
    (decode s).1.length = e.length ↔ e.Agreed s.maxLen := by
  have hrest : e.rest ≤ 15 := Nat.le_trans (Nat.le_add_right ..) hlen
  have hw := (e.prefixes (Nat.lt_of_lt_of_le e.opcode_lt_rest (by omega))).2
  rw [e.decode_length (by omega)]
  unfold Encoding.length Encoding.immLength at hlen ⊢
  unfold Encoding.Agreed immEnd
  cases hi : e.imm with
  | none => simp only [Imm.chunks, List.foldl_nil, Nat.add_zero]
  | ub | sb | jb | uw | jz =>
    rw [hi] at hlen
    simp only [Imm.chunks, List.foldl_cons, List.foldl_nil, iff_true] at hlen ⊢
    exact advance_fit (by omega)
  | iz =>
    rw [hi] at hlen
    simp only [Imm.chunks, List.foldl_cons, List.foldl_nil] at hlen ⊢
    split at hlen
    · rename_i hshort
      rw [if_pos hshort, advance]
      refine iff_of_false ?_ fun hw => hshort.2 (hw hshort.1)
      split <;> omega
    · rename_i hlong
      rw [if_neg hlong, advance_fit (by omega)]
      refine iff_of_true rfl fun h66 => ?_
      by_contra hno
      exact hlong ⟨h66, hno⟩
  | iv =>
    rw [hi] at hlen
    dsimp only at hlen ⊢
    rw [Imm.chunks]
    exact fetch_iv e hw hlen hmax

end

/-- `mov eax, 0x12345678`. -/
def movEax : Encoding (Code.of [0xB8, 0x78, 0x56, 0x34, 0x12] 0).bytes where
  opcode := 0
  prefixed := by decide
  ends := by decide

theorem length_law_mov :
    (decode { Code.of [0xB8, 0x78, 0x56, 0x34, 0x12] 0 with maxLen := 16 }).1.length = 5 :=
  (length_law (s := { Code.of [0xB8, 0x78, 0x56, 0x34, 0x12] 0 with maxLen := 16 }) movEax
    (by decide) (by decide)).2 (by decide)

/-- `mov ax, 0x1234`. -/
def movAx : Encoding (Code.of [0x66, 0xB8, 0x34, 0x12] 0).bytes where
  opcode := 1
  prefixed := by decide
  ends := by decide

/-- Four bytes of code, of which six are taken. -/
theorem mov_ax_desynchronises :
    let s := { Code.of [0x66, 0xB8, 0x34, 0x12] 0 with maxLen := 16 }
    movAx.length = 4 ∧ (decode s).1.opcode = .mov ∧ (decode s).1.length = 6 := by
  decide

end WineGlass.X86
