import WineGlass.Graphics.Translate

/-!
# The token loop ends

A turn moves the read pointer by the declared length, at least one dword, but
for CUSTOMDATA, whose length dword is taken as it is: the loop ends exactly when
it reaches no CUSTOMDATA of length 0.
-/

namespace WineGlass.Dxbc

open Turns
open Pe (Buffer)

abbrev Done (stop p : Nat) : Prop := stop ≤ p

section
variable (m ops : Memory) (stop : Nat)

/-- A CUSTOMDATA whose length dword, still before the end, is 0. -/
def Stuck (p : Nat) : Prop := ∃ tok, m.dword p = some tok ∧ opcode tok = customData ∧
  p + 4 < stop ∧ m.dword (p + 4) = some 0

/-- Every turn from `start` on moves the read pointer forward. -/
def Forward (start : Nat) : Prop := ∀ p, Reaches (Done stop) (turn m ops stop) start p →
  ¬ Done stop p → ∀ insn q, turn m ops stop p = some (insn, q) → p < q

end

theorem turn_next (h : turn m ops stop p = some (insn, q)) : next m stop p = some q := by
  obtain ⟨q', hq, h⟩ := Option.bind_eq_some_iff.1 h
  obtain ⟨insn', -, h⟩ := Option.map_eq_some_iff.1 h
  rw [hq, (Prod.mk.inj h).2]

theorem next_lt (h : next m stop p = some q) (hs : ¬ Stuck m stop p) : p < q := by
  obtain ⟨tok, htok, h⟩ := Option.bind_eq_some_iff.1 h
  split at h
  · rename_i hc
    obtain ⟨n, hn, rfl⟩ := Option.map_eq_some_iff.1 h
    have hpos : 0 < n.toNat := by
      refine Nat.pos_of_ne_zero fun hz => hs ⟨tok, htok, hc.1, hc.2, ?_⟩
      exact hn.trans (congrArg some (BitVec.eq_of_toNat_eq hz))
    omega
  · obtain rfl := Option.some.inj h
    split
    · omega
    · rename_i hl
      have hpos : 0 < (ilen tok).toNat :=
        Nat.pos_of_ne_zero fun hz => hl (BitVec.eq_of_toNat_eq hz)
      omega

theorem stuck_turn (h : Stuck m stop p) :
    ¬ Done stop p ∧ ∃ insn, turn m ops stop p = some (insn, p) := by
  obtain ⟨tok, htok, hop, hlt, hz⟩ := h
  have hnext : next m stop p = some p := by
    rw [next, htok, Option.bind_some, if_pos ⟨hop, hlt⟩, hz]
    rfl
  have hcount : operandCount tok = 0 := by
    rw [operandCount, hop]
    rfl
  have htrail : hasTrailing tok = false := by
    rw [hasTrailing, hop]
    rfl
  refine ⟨Nat.not_le_of_lt (Nat.lt_of_add_right_lt hlt), ⟨tok, [], none⟩, ?_⟩
  rw [turn, hnext, Option.bind_some, readInsn, htok, Option.bind_some, hcount, readOperands,
    Option.bind_some, htrail]
  rfl

theorem forward_iff : Forward m ops stop start ↔
    ∀ p, Reaches (Done stop) (turn m ops stop) start p → ¬ Stuck m stop p := by
  constructor
  · intro h p hp hs
    obtain ⟨hd, insn, hturn⟩ := stuck_turn hs
    exact Nat.lt_irrefl p (h p hp hd insn p hturn)
  · intro h p hp _ insn q hturn
    exact next_lt (turn_next hturn) (h p hp)

theorem ends_iff : Ends (Done stop) (turn m ops stop) start ↔
    ∀ p, Reaches (Done stop) (turn m ops stop) start p → ¬ Stuck m stop p := by
  constructor
  · intro h p hp hs
    obtain ⟨hd, insn, hturn⟩ := stuck_turn hs
    exact not_ends_of_stuck hd hturn (ends_of_reaches hp h)
  · intro h
    refine ends_of_measure (stop - ·) fun p hp hd insn q hturn => ?_
    have hlt := next_lt (turn_next hturn) (h p hp)
    unfold Done at hd
    omega

theorem loop_law (m : Memory) (size : U32) : ∀ prog, program m size = some (some prog) →
    (Ends (Done prog.stop) (turn m m prog.stop) prog.start ↔
      ∀ p, Reaches (Done prog.stop) (turn m m prog.stop) prog.start p → ¬ Stuck m prog.stop p) ∧
    (Forward m m prog.stop prog.start ↔
      ∀ p, Reaches (Done prog.stop) (turn m m prog.stop) prog.start p → ¬ Stuck m prog.stop p) :=
  fun _ _ => ⟨ends_iff, forward_iff⟩

/-- A container with one chunk, SHEX at 36, of these dwords. -/
def container (shader : List U32) : Buffer where
  bytes i := BitVec.ofNat 8 (((
    [fourcc 'D' 'X' 'B' 'C', 0, 0, 0, 0, 1, 44 + 4 * BitVec.ofNat 32 shader.length, 1, 36,
      fourcc 'S' 'H' 'E' 'X', 4 * BitVec.ofNat 32 shader.length] ++ shader).getD (i / 4) 0).toNat /
        256 ^ (i % 4))
  size := 44 + 4 * shader.length

/-- A vertex shader of one RET. -/
def retBlob : Buffer := container [0x10050, 3, 0x0100003E]

theorem loop_law_ret : Ends (Done 56) (turn (blob retBlob) (blob retBlob) 56) 52 := by
  have hno : ∀ p < 52, ((blob retBlob).dword p).map opcode ≠ some customData := by decide
  refine (loop_law (blob retBlob) 56 ⟨44, 12, false, 52, 56⟩ (by decide)).1.2 ?_
  rintro p - ⟨tok, htok, hop, hlt, -⟩
  dsimp only at hlt
  refine hno p (by omega) ?_
  rw [htok, Option.map_some, hop]

/-- A vertex shader whose first instruction is CUSTOMDATA with length 0. -/
def customBlob : Buffer := container [0x10050, 4, customData, 0]

/-- The loop stays at the CUSTOMDATA of this blob. -/
theorem customdata_stays : isDxbc (blob customBlob) 60 = some true ∧
    ∃ prog, program (blob customBlob) 60 = some (some prog) ∧
      ¬ Ends (Done prog.stop) (turn (blob customBlob) (blob customBlob) prog.stop) prog.start ∧
      ¬ Forward (blob customBlob) (blob customBlob) prog.stop prog.start := by
  have hstuck : Stuck (blob customBlob) 60 52 := ⟨customData, by decide, rfl, by decide, by decide⟩
  refine ⟨by decide, ⟨44, 16, false, 52, 60⟩, by decide, fun h => ?_, fun h => ?_⟩
  · exact ends_iff.1 h 52 .start hstuck
  · exact forward_iff.1 h 52 .start hstuck

end WineGlass.Dxbc
