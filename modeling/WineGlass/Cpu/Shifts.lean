import WineGlass.Cpu.Operands
import WineGlass.Lib.Shifts

/-!
# Shifts

What SHL, SHR and SAR leave of an operand and of CF. The count is cut to six
bits at every width, the carry of SHL is taken below the operand size of the
instruction, which for a byte is not the byte's, and SAR takes the sign there
too; at 64 bits a negative number is shifted by its width first.
-/

namespace WineGlass.X86

open Bits Memory

def shiftOpcode : Shift → Opcode
  | .left => .shl
  | .right => .shr
  | .signed => .sar

def shiftBy : Shift → Word64 → Nat → Nat → Option (Word64 × Bool)
  | .left => shl
  | .right => shr
  | .signed => sar

/-- The places a processor shifts an operand of `w` bits by. -/
def placesOf (w : Nat) (count : Word64) : Nat := count.toNat % if w = 64 then 64 else 32

/-- The step leaves what so many shifts by one place leave, in the operand and in CF. -/
def ShiftsBy (m : Machine) (s : Shift) (v : BitVec w) (count : Word64) : Prop :=
  ∃ m', execOne m = some (.ok, m') ∧
    readOperand m' (insnAt m).op0 =
      some ((s.run (placesOf w count) (v, getFlag m.cpu.rflags flagCF)).1.setWidth 64) ∧
    getFlag m'.cpu.rflags flagCF = (s.run (placesOf w count) (v, getFlag m.cpu.rflags flagCF)).2

/-- Shifts by `k` places at operand size `bits`, where the processor makes as many. -/
def KeptFits (bits k : Nat) (v : BitVec w) : Shift → Prop
  | .left => k ≤ bits ∧
      (w = bits ∨ (k ≤ w → v.getLsbD (w - k) = false) ∧ v.getLsbD (bits - k) = false)
  | .right => True
  | .signed => v.msb = false ∨ w = bits ∧ w < 64 ∧ k ≤ w

/-- SHR by 32 places too many. -/
def ClearFits (j : Nat) (v : BitVec w) (cf : Bool) : Prop :=
  if j = 0 then v = 0#w ∧ cf = false else v >>> (j - 1) = 0#w

/-- Shifts by `32 + j` places, where the processor makes `j`. -/
def OverFits (bits j : Nat) (v : BitVec w) (cf : Bool) : Shift → Prop
  | .left => 32 + j ≤ bits ∧
      if j = 0 then v = 0#w ∧ cf = false else v <<< (j - 1) = 0#w ∧ v.getLsbD (32 - j) = false
  | .right => ClearFits j v cf
  | .signed =>
      if v.msb then w = bits ∧
        if j = 0 then v = BitVec.allOnes w ∧ cf = decide (w = 32)
        else v.sshiftRight (j - 1) = BitVec.allOnes w <<< 1
      else ClearFits j v cf

/-- The shift of `k` places, at operand size `bits`, is the processor's. -/
def ShiftFits (s : Shift) (bits k : Nat) (v : BitVec w) (cf : Bool) : Prop :=
  k = 0 ∨ if w = 64 ∨ k < 32 then KeptFits bits k v s else OverFits bits (k - 32) v cf s

instance (bits k : Nat) (v : BitVec w) (s : Shift) : Decidable (KeptFits bits k v s) := by
  cases s <;> unfold KeptFits <;> infer_instance

instance (j : Nat) (v : BitVec w) (cf : Bool) : Decidable (ClearFits j v cf) := by
  unfold ClearFits
  infer_instance

instance (bits j : Nat) (v : BitVec w) (cf : Bool) (s : Shift) : Decidable (OverFits bits j v cf s) := by
  cases s <;> unfold OverFits <;> infer_instance

instance (s : Shift) (bits k : Nat) (v : BitVec w) (cf : Bool) : Decidable (ShiftFits s bits k v cf) := by
  unfold ShiftFits
  infer_instance

-- ---------------------------------------------------------------------------
-- The shifts of the source
-- ---------------------------------------------------------------------------

/-- A result cut to the operand, and the carry. -/
def narrowed (w : Nat) (x : Word64 × Bool) : BitVec w × Bool := (x.1.setWidth w, x.2)

section
variable {w n k : Nat} {v : BitVec w} {cf : Bool}

theorem widened_bit (v : BitVec w) (h : i < 64) : (v.setWidth 64).getLsbD i = v.getLsbD i := by
  rw [BitVec.getLsbD_setWidth, decide_eq_true h, Bool.true_and]

theorem shl_narrowed (hw : w ≤ 64) (hn : n * 8 ≤ 64) (hk : 0 < k) :
    (shl (v.setWidth 64) k n).map (narrowed w) =
      if n * 8 < k then none else some (v <<< k, v.getLsbD (n * 8 - k)) := by
  unfold shl
  split
  · rfl
  · rw [Option.map_some, narrowed, narrow_shiftLeft v hw, widened_bit v (by omega)]

theorem widened_holds (v : BitVec w) (hw : w ≤ n) : ((v.setWidth 64).setWidth n).setWidth 64 = v.setWidth 64 := by
  refine narrow_lt (Nat.lt_of_le_of_lt ?_ (Nat.lt_of_lt_of_le v.isLt (Nat.pow_le_pow_right (by decide) hw)))
  rw [BitVec.toNat_setWidth]
  exact Nat.mod_le ..

theorem shr_narrowed (hw : w ≤ n * 8) (hn : n * 8 ≤ 64) (hk : k ≤ 64) :
    (shr (v.setWidth 64) k n).map (narrowed w) = some (v >>> k, v.getLsbD (k - 1)) := by
  have hmask : v.setWidth 64 &&& maskFor n = v.setWidth 64 := by
    rw [and_maskFor _ hn, widened_holds v hw]
  rw [shr, Option.map_some, narrowed, hmask, narrow_ushiftRight v (by omega)]
  rcases Nat.eq_zero_or_pos k with rfl | h0
  · rw [widened_bit v (by omega)]
  · rw [widened_bit v (by omega)]

/-- The source finds no sign. -/
theorem signExtend_clear (hi : IntSize n) (hw : w ≤ n * 8) (hs : v.msb = false ∨ w < n * 8) :
    signExtend (v.setWidth 64) n = some (v.setWidth 64) ∧ (v.setWidth 64).msb = false := by
  have hclear {z : Nat} (hz : n * 8 ≤ z) : (v.setWidth z).msb = false := by
    rcases Nat.lt_or_ge w z with hlt | hge
    · exact widen_msb v hlt
    · obtain rfl : w = z := by omega
      rw [BitVec.setWidth_eq]
      exact hs.resolve_right (by omega)
  have h64 := hclear hi.le
  refine ⟨?_, h64⟩
  rcases Nat.lt_or_ge (n * 8) 64 with hlt | hge
  · have hsign : ((v.setWidth 64).setWidth (n * 8)).msb = false := by
      rw [BitVec.setWidth_setWidth_of_le _ hi.le]
      exact hclear (Nat.le_refl _)
    rw [signExtend_narrow _ hi.pos hlt, hsign, if_neg Bool.false_ne_true]
  · obtain rfl : n = 8 := by
      have := hi.le
      omega
    rw [signExtend_eight, h64, if_neg Bool.false_ne_true]

theorem sar_clear (hi : IntSize n) (hw : w ≤ n * 8) (hs : v.msb = false ∨ w < n * 8) (hk : k ≤ 64) :
    (sar (v.setWidth 64) k n).map (narrowed w) = some (v >>> k, v.getLsbD (k - 1)) := by
  have hw64 := Nat.le_trans hw hi.le
  obtain ⟨hext, hmsb⟩ := signExtend_clear hi hw hs
  rw [sar, hext]
  show some (narrowed w _) = _
  rw [narrowed, BitVec.sshiftRight_eq_of_msb_false hmsb, narrow_ushiftRight v hw64, widened_bit v (by omega)]

theorem sar_sign {v : BitVec (n * 8)} (h0 : 0 < n * 8) (hn : n * 8 < 64) (hk : k ≤ 64) :
    (sar (v.setWidth 64) k n).map (narrowed (n * 8)) = some (v.sshiftRight k, v.getLsbD (k - 1)) := by
  rw [sar, signExtend_holds v h0 hn]
  show some (narrowed (n * 8) _) = _
  rw [narrowed, narrow_sshiftRight v (Nat.le_of_lt hn), widened_bit v (by omega)]

theorem sar_none {v : BitVec 64} (h : v.msb = true) (k : Nat) : sar (v.setWidth 64) k 8 = none := by
  rw [sar, BitVec.setWidth_eq, signExtend_eight, h]
  rfl

-- ---------------------------------------------------------------------------
-- Where they are the processor's
-- ---------------------------------------------------------------------------

theorem left_kept (hi : IntSize n) (hw : w = n * 8 ∨ w = 8 ∧ 16 ≤ n * 8) (h0 : 0 < k) :
    (shl (v.setWidth 64) k n).map (narrowed w) = some (Shift.left.run k (v, cf)) ↔
      KeptFits (n * 8) k v .left := by
  have h64 := hi.le
  refine (Eq.congr (shl_narrowed (by omega) h64 h0) rfl).trans ?_
  by_cases hgt : n * 8 < k
  · rw [if_pos hgt]
    exact iff_of_false nofun fun h => absurd h.1 (by omega)
  rw [if_neg hgt, Option.some_inj, left_run, if_neg (by omega), Prod.mk.injEq]
  refine (and_iff_right rfl).trans (Iff.trans ?_ (and_iff_right (by omega)).symm)
  rcases hw with rfl | ⟨rfl, h16⟩
  · exact iff_of_true (by rw [decide_eq_true (by omega : k ≤ n * 8), Bool.true_and]) (.inl rfl)
  · refine Iff.trans ?_ (or_iff_right (by omega)).symm
    by_cases hk8 : k ≤ 8
    · rw [decide_eq_true hk8, Bool.true_and, BitVec.getLsbD_of_ge _ (n * 8 - k) (by omega)]
      exact ⟨fun h => ⟨fun _ => h.symm, rfl⟩, fun h => (h.1 hk8).symm⟩
    · rw [decide_eq_false hk8, Bool.false_and]
      exact ⟨fun h => ⟨fun h' => absurd h' hk8, h⟩, fun h => h.2⟩

theorem right_kept (hi : IntSize n) (hw : w ≤ n * 8) (h0 : 0 < k) (hk : k ≤ 64) :
    (shr (v.setWidth 64) k n).map (narrowed w) = some (Shift.right.run k (v, cf)) := by
  rw [shr_narrowed hw hi.le hk, right_run, if_neg (by omega)]

/-- Without the sign, SAR leaves no negative number. -/
theorem sar_lost (hi : IntSize n) (hw : w < n * 8) (hs : v.msb = true) (h0 : 0 < k) (hk : k ≤ 64) :
    (sar (v.setWidth 64) k n).map (narrowed w) ≠ some (Shift.signed.run j (v, cf)) := by
  rw [sar_clear hi (Nat.le_of_lt hw) (.inr hw) hk, signed_run]
  intro h
  have hmsb := congrArg (fun x => x.1.msb) (Option.some.inj h)
  simp [BitVec.msb_sshiftRight, hs, BitVec.msb_ushiftRight, Nat.ne_of_gt h0] at hmsb

theorem signed_kept (hi : IntSize n) (hw : w ≤ n * 8) (h0 : 0 < k) (hk : k < 64) :
    (sar (v.setWidth 64) k n).map (narrowed w) = some (Shift.signed.run k (v, cf)) ↔
      KeptFits (n * 8) k v .signed := by
  cases hs : v.msb with
  | false =>
    refine iff_of_true ((sar_clear hi hw (.inl hs) (Nat.le_of_lt hk)).trans ?_) (.inl hs)
    rw [signed_run_eq hs, right_run, if_neg (by omega)]
  | true =>
    refine Iff.trans ?_ (or_iff_right (by rw [hs]; exact Bool.noConfusion)).symm
    rcases Nat.lt_or_ge w (n * 8) with hlt | hge
    · exact iff_of_false (sar_lost hi hlt hs h0 (Nat.le_of_lt hk)) fun h => absurd h.1 (by omega)
    obtain rfl : w = n * 8 := by omega
    refine Iff.trans ?_ (and_iff_right rfl).symm
    rcases Nat.lt_or_ge (n * 8) 64 with hlt | hge
    · rw [sar_sign hi.pos hlt (Nat.le_of_lt hk), signed_run, if_neg (by omega), Option.some_inj, Prod.mk.injEq,
        sshiftRight_low hi.pos, hs]
      refine (and_iff_right rfl).trans (Iff.trans ?_ (and_iff_right hlt).symm)
      by_cases hkw : k ≤ n * 8
      · rw [if_pos (by omega)]
        exact iff_of_true rfl hkw
      · rw [if_neg (by omega), BitVec.getLsbD_of_ge _ _ (by omega)]
        exact iff_of_false Bool.false_ne_true hkw
    · obtain rfl : n = 8 := by
        have := hi.le
        omega
      rw [sar_none hs]
      exact iff_of_false nofun fun h => absurd h.1 (by decide)

/-- As many places as the processor's. -/
theorem kept_fits (s : Shift) (hi : IntSize n) (hw : w = n * 8 ∨ w = 8 ∧ 16 ≤ n * 8) (h0 : 0 < k)
    (hk : k < 64) :
    (shiftBy s (v.setWidth 64) k n).map (narrowed w) = some (s.run k (v, cf)) ↔ KeptFits (n * 8) k v s := by
  cases s with
  | left => exact left_kept hi hw h0
  | right => exact iff_of_true (right_kept hi (by omega) h0 (Nat.le_of_lt hk)) trivial
  | signed => exact signed_kept hi (by omega) h0 hk

theorem unmoved {t : BitVec w} (h : v = t → b = d) : (t, b) = (v, cf) ↔ v = t ∧ cf = d := by
  constructor
  · intro heq
    obtain ⟨rfl, rfl⟩ := Prod.mk.inj heq
    exact ⟨rfl, h rfl⟩
  · rintro ⟨rfl, rfl⟩
    rw [h rfl]

theorem left_over (hi : IntSize n) (hw : w = n * 8 ∨ w = 8 ∧ 16 ≤ n * 8) (h32 : w ≤ 32) :
    (shl (v.setWidth 64) (32 + j) n).map (narrowed w) = some (Shift.left.run j (v, cf)) ↔
      OverFits (n * 8) j v cf .left := by
  have h64 := hi.le
  refine (Eq.congr (shl_narrowed (by omega) h64 (by omega)) rfl).trans ?_
  by_cases hgt : n * 8 < 32 + j
  · rw [if_pos hgt]
    exact iff_of_false nofun fun h => absurd h.1 (by omega)
  rw [if_neg hgt, Option.some_inj, BitVec.shiftLeft_eq_zero (by omega)]
  refine Iff.trans ?_ (and_iff_right (by omega)).symm
  rcases Nat.eq_zero_or_pos j with rfl | hj
  · rw [if_pos rfl]
    exact unmoved fun h => by rw [h, BitVec.getLsbD_zero]
  · obtain ⟨rfl, h16⟩ : w = 8 ∧ 16 ≤ n * 8 := by omega
    have hbits : n * 8 = 64 := by
      rcases hi with rfl | rfl | rfl | rfl <;> omega
    have hindex : n * 8 - (32 + j) = 32 - j := by omega
    rw [if_neg (by omega), hindex, ← left_last hj v cf, left_run, if_neg (by omega)]
    constructor
    · intro h
      obtain ⟨hzero, hbit⟩ := Prod.mk.inj h
      have hclear : v.getLsbD (32 - j) = false := by
        by_cases hj8 : j ≤ 8
        · exact BitVec.getLsbD_of_ge _ _ (by omega)
        · rw [hbit, decide_eq_false hj8, Bool.false_and]
      exact ⟨by rw [← hzero, ← hbit, hclear], hclear⟩
    · rintro ⟨hlast, hclear⟩
      rw [hlast, hclear]

theorem clear_over (h32 : w ≤ 32) :
    (v >>> (32 + j), v.getLsbD (32 + j - 1)) = Shift.right.run j (v, cf) ↔ ClearFits j v cf := by
  rw [BitVec.ushiftRight_eq_zero (by omega)]
  unfold ClearFits
  rcases Nat.eq_zero_or_pos j with rfl | hj
  · rw [if_pos rfl]
    exact unmoved fun h => by rw [h, BitVec.getLsbD_zero]
  · rw [if_neg (by omega), ← right_last hj v cf, BitVec.getLsbD_of_ge _ _ (by omega)]
    exact eq_comm

theorem signed_over (hi : IntSize n) (hw : w ≤ n * 8) (h2 : 2 ≤ w) (h32 : w ≤ 32) (hj : 32 + j < 64) :
    (sar (v.setWidth 64) (32 + j) n).map (narrowed w) = some (Shift.signed.run j (v, cf)) ↔
      OverFits (n * 8) j v cf .signed := by
  unfold OverFits
  dsimp only
  cases hs : v.msb with
  | false =>
    rw [sar_clear hi hw (.inl hs) (Nat.le_of_lt hj), signed_run_eq hs, Option.some_inj, if_neg Bool.false_ne_true]
    exact clear_over h32
  | true =>
    rw [if_pos rfl]
    rcases Nat.lt_or_ge w (n * 8) with hlt | hge
    · exact iff_of_false (sar_lost hi hlt hs (by omega) (Nat.le_of_lt hj)) fun h => absurd h.1 (by omega)
    obtain rfl : w = n * 8 := by omega
    rw [sar_sign hi.pos (by omega) (Nat.le_of_lt hj), Option.some_inj, sshiftRight_high hs (by omega)]
    refine Iff.trans ?_ (and_iff_right rfl).symm
    rcases Nat.eq_zero_or_pos j with rfl | hj
    · rw [if_pos rfl]
      refine unmoved fun h => ?_
      rw [h, BitVec.getLsbD_allOnes]
      exact decide_eq_decide.2 (by omega)
    · rw [if_neg (by omega), ← signed_last hj (by omega) v cf, BitVec.getLsbD_of_ge _ _ (by omega)]
      exact eq_comm

/-- 32 places more than the processor's. -/
theorem over_fits (s : Shift) (hi : IntSize n) (hw : w = n * 8 ∨ w = 8 ∧ 16 ≤ n * 8) (h2 : 2 ≤ w)
    (h32 : w ≤ 32) (hj : 32 + j < 64) :
    (shiftBy s (v.setWidth 64) (32 + j) n).map (narrowed w) = some (s.run j (v, cf)) ↔
      OverFits (n * 8) j v cf s := by
  cases s with
  | left => exact left_over hi hw h32
  | right =>
    refine (Eq.congr (shr_narrowed (by omega) hi.le (Nat.le_of_lt hj)) rfl).trans ?_
    rw [Option.some_inj]
    exact clear_over h32
  | signed => exact signed_over hi (by omega) h2 h32 hj

end

-- ---------------------------------------------------------------------------
-- The step
-- ---------------------------------------------------------------------------

theorem shift_is (s : Shift) (hover : (decode (codeAt m)).2.overread = false)
    (hop : (insnAt m).opcode = shiftOpcode s) :
    execOne m = (execShift (shiftBy s) m.count (insnAt m)).map fun m1 => (.ok, m1.setRip (nextRip m)) := by
  cases s <;> exact step_is hover hop (by decide) (by rw [exec, hop]; rfl)

theorem shift_count (hc : readOperand m i.op1 = some c) : shiftCount m i = some (c.toNat % 64) := by
  rw [shiftCount, hc]
  show some (c &&& 0x3F).toNat = _
  rw [BitVec.toNat_and]
  exact congrArg some (Nat.and_two_pow_sub_one_eq_mod c.toNat 6)

theorem execShift_eq (hv : readOperand m i.op0 = some v) (hc : readOperand m i.op1 = some c) :
    execShift f m i = if c.toNat % 64 = 0 then some m else
      (f v (c.toNat % 64) i.opSize).bind fun x => (writeOperand m i.op0 x.1).map fun m1 =>
        m1.setFlags (setFlag (updateFlagsLogic m1.cpu.rflags x.1 (i.opSize * 8)) flagCF x.2) := by
  rw [execShift, hv, shift_count hc]
  show (if c.toNat % 64 = 0 then some m else _) = _
  refine if_congr Iff.rfl rfl ?_
  cases f v (c.toNat % 64) i.opSize with
  | none => rfl
  | some x =>
    show (writeOperand m i.op0 x.1).bind _ = (writeOperand m i.op0 x.1).map _
    cases writeOperand m i.op0 x.1 <;> rfl

theorem widen_inj {x y : BitVec w} (hw : w ≤ 64) : x.setWidth 64 = y.setWidth 64 ↔ x = y := by
  refine ⟨fun h => ?_, fun h => h ▸ rfl⟩
  rw [← narrow_widen x hw, h, narrow_widen y hw]

theorem shift_still (s : Shift) (hover : (decode (codeAt m)).2.overread = false)
    (hop : (insnAt m).opcode = shiftOpcode s) (hv : readOperand m (insnAt m).op0 = some v)
    (hc : readOperand m (insnAt m).op1 = some c) (hz : c.toNat % 64 = 0) :
    ShiftsBy m s (v.setWidth ((insnAt m).op0.size * 8)) c := by
  have hplaces : placesOf ((insnAt m).op0.size * 8) c = 0 := by
    unfold placesOf
    split <;> omega
  have hstep := shift_is s hover hop
  rw [execShift_eq (m := m.count) hv hc, if_pos hz] at hstep
  refine ⟨_, hstep, ?_, ?_⟩
  · rw [hplaces]
    exact hv.trans (congrArg some (read_eq hv))
  · rw [hplaces]
    rfl

/-- With a count, the step is right where the source's shift is. -/
theorem shift_moves (s : Shift) (hover : (decode (codeAt m)).2.overread = false)
    (hop : (insnAt m).opcode = shiftOpcode s) (hplaced : Placed m (insnAt m).op0)
    (hi : IntSize (insnAt m).op0.size) (hv : readOperand m (insnAt m).op0 = some v)
    (hc : readOperand m (insnAt m).op1 = some c) (hz : c.toNat % 64 ≠ 0) :
    ShiftsBy m s (v.setWidth ((insnAt m).op0.size * 8)) c ↔
      (shiftBy s v (c.toNat % 64) (insnAt m).opSize).map (narrowed ((insnAt m).op0.size * 8)) =
        some (s.run (placesOf ((insnAt m).op0.size * 8) c)
          (v.setWidth ((insnAt m).op0.size * 8), getFlag m.cpu.rflags flagCF)) := by
  have hstep := shift_is s hover hop
  rw [execShift_eq (m := m.count) hv hc, if_neg hz] at hstep
  cases hf : shiftBy s v (c.toNat % 64) (insnAt m).opSize with
  | none =>
    rw [hf] at hstep
    refine iff_of_false ?_ nofun
    rintro ⟨m', hx, -⟩
    cases hstep.symm.trans hx
  | some x =>
    obtain ⟨m1, hw, hback, -⟩ := Placed.write (m := m.count) hplaced hi hv x.1
    rw [hf, Option.bind_some, hw, Option.map_some, Option.map_some] at hstep
    rw [Option.map_some, Option.some_inj, narrowed, Prod.ext_iff]
    constructor
    · rintro ⟨m', hx, hres, hflag⟩
      obtain ⟨-, rfl⟩ := Prod.mk.inj (Option.some.inj (hstep.symm.trans hx))
      refine ⟨(widen_inj hi.le).1 (Option.some.inj (hback.symm.trans hres)), ?_⟩
      exact (getFlag_setFlag (by decide) _ _).symm.trans hflag
    · rintro ⟨hres, hflag⟩
      refine ⟨_, hstep, hback.trans (congrArg some ((widen_inj hi.le).2 hres)), ?_⟩
      exact (getFlag_setFlag (by decide) _ _).trans hflag

/-- SHL, SHR and SAR are the processor's exactly where the count and the operand size fit. -/
theorem shift_law (s : Shift) (hover : (decode (codeAt m)).2.overread = false)
    (hop : (insnAt m).opcode = shiftOpcode s) (hplaced : Placed m (insnAt m).op0)
    (hv : readOperand m (insnAt m).op0 = some v) (hc : readOperand m (insnAt m).op1 = some c) :
    ShiftsBy m s (v.setWidth ((insnAt m).op0.size * 8)) c ↔
      ShiftFits s ((insnAt m).opSize * 8) (c.toNat % 64) (v.setWidth ((insnAt m).op0.size * 8))
        (getFlag m.cpu.rflags flagCF) := by
  have hknown : shiftOpcode s ≠ .unknown := by cases s <;> decide
  have hn := insn_opSize hop hknown
  obtain ⟨srcs, low, md, -, hshape⟩ := insn_shape hop hknown
  have hz := (hshape.shift (by rw [hop]; cases s <;> simp [shiftOpcode])).1
  have hi : IntSize (insnAt m).op0.size := by
    unfold IntSize
    omega
  by_cases h0 : c.toNat % 64 = 0
  · exact iff_of_true (shift_still s hover hop hv hc h0) (.inl h0)
  rw [shift_moves s hover hop hplaced hi hv hc h0]
  have hlt := Nat.mod_lt c.toNat (show 64 > 0 by decide)
  have hwide : (insnAt m).op0.size * 8 = (insnAt m).opSize * 8 ∨
      (insnAt m).op0.size * 8 = 8 ∧ 16 ≤ (insnAt m).opSize * 8 := by omega
  unfold ShiftFits placesOf
  rw [or_iff_right h0]
  have hback := read_eq hv
  generalize v.setWidth ((insnAt m).op0.size * 8) = u at hback ⊢
  subst hback
  by_cases hkept : (insnAt m).op0.size * 8 = 64 ∨ c.toNat % 64 < 32
  · have hplaces : c.toNat % (if (insnAt m).op0.size * 8 = 64 then 64 else 32) = c.toNat % 64 := by
      split <;> omega
    rw [if_pos hkept, hplaces]
    exact kept_fits s (.inr hn) hwide (by omega) hlt
  · have hplaces : c.toNat % (if (insnAt m).op0.size * 8 = 64 then 64 else 32) = c.toNat % 64 - 32 := by
      rw [if_neg fun h => hkept (.inl h)]
      omega
    have hcount : shiftBy s (u.setWidth 64) (c.toNat % 64) (insnAt m).opSize =
        shiftBy s (u.setWidth 64) (32 + (c.toNat % 64 - 32)) (insnAt m).opSize :=
      congrArg (shiftBy s (u.setWidth 64) · (insnAt m).opSize) (by omega)
    rw [if_neg hkept, hplaces, hcount]
    exact over_fits s (.inr hn) hwide (by omega) (by omega) (by omega)

/-- `shl ebx, 3`. -/
def shiftEbx : Machine := .of [0xC1, 0xE3, 0x03] fun r => BitVec.ofNat 64 r

theorem shift_law_ebx :
    ShiftsBy shiftEbx .left ((3 : Word64).setWidth ((insnAt shiftEbx).op0.size * 8)) 3 :=
  (shift_law .left (by decide) (by decide) (.inl (by decide)) (by decide +kernel) (by decide +kernel)).2
    (by decide +kernel)

/-- `sar rbx, 1`, with -1 in RBX. -/
def shiftMinus : Machine := .of [0x48, 0xD1, 0xFB] fun _ => BitVec.allOnes 64

/-- A negative number at 64 bits: a shift by its width. -/
theorem shift_out : ¬∀ (m : Machine) (s : Shift) (v c : Word64), (decode (codeAt m)).2.overread = false →
    (insnAt m).opcode = shiftOpcode s → Placed m (insnAt m).op0 → readOperand m (insnAt m).op0 = some v →
    readOperand m (insnAt m).op1 = some c → ShiftsBy m s (v.setWidth ((insnAt m).op0.size * 8)) c := by
  intro h
  have hnone : execOne shiftMinus = none := by
    have hz : ¬(1 : Word64).toNat % 64 = 0 := by decide
    have hsar : shiftBy .signed (BitVec.allOnes 64) ((1 : Word64).toNat % 64) (insnAt shiftMinus).opSize =
        none := by decide +kernel
    rw [shift_is .signed (by decide) (by decide),
      execShift_eq (m := shiftMinus.count) (v := BitVec.allOnes 64) (c := 1) (by decide +kernel)
        (by decide +kernel), if_neg hz, hsar]
    rfl
  obtain ⟨m', hx, -⟩ := h shiftMinus .signed (BitVec.allOnes 64) 1 (by decide) (by decide) (.inl (by decide))
    (by decide +kernel) (by decide +kernel)
  cases hnone.symm.trans hx

end WineGlass.X86
