import Mathlib.Data.Int.ModEq
import Mathlib.Data.Nat.Digits.Defs
import WineGlass.Cpu.Step
import WineGlass.Memory.Wide

/-!
# Additions of many limbs

An ADD and an ADC for each higher limb should leave the limbs of the sum and its
carry. Here ADD never sets CF at 64 bits and ADC does nothing, so they do only
when there is nothing to carry and nothing to add above the lowest limb; likewise
SUB and SBB.
-/

namespace WineGlass.X86

open Memory

/-- A limb of each operand, as an instruction reads them, and the limb it leaves. -/
structure Limb where
  a : Word64
  b : Word64
  r : Word64
  deriving DecidableEq

/-- A 64-bit register, or 64 bits of mapped memory. -/
structure Held (m : Machine) (op : Operand) : Prop where
  size : op.size = 8
  place : op.type = .reg ∨
    op.type = .mem ∧ ∃ p, resolve m.mem (computeAddr m.cpu op) = some p

/-- An arithmetic instruction on one limb. -/
structure Arith (op : Opcode) (m : Machine) (l : Limb) (m' : Machine) : Prop where
  run : execOne m = some (.ok, m')
  opcode : (insnAt m).opcode = op
  held : Held m (insnAt m).op0
  a : readOperand m (insnAt m).op0 = some l.a
  b : readOperand m (insnAt m).op1 = some l.b
  r : readOperand m' (insnAt m).op0 = some l.r

/-- A run of `lo` on the lowest limb and `hi` on each higher one, MOVs in between. -/
inductive Chain (lo hi : Opcode) : Machine → List Limb → Machine → Prop
  | first (h : Arith lo m l m') : Chain lo hi m [l] m'
  | mov (h : Chain lo hi m ls m') (run : execOne m' = some (.ok, m''))
      (opcode : (insnAt m').opcode = .mov) : Chain lo hi m ls m''
  | next (h : Chain lo hi m ls m') (hl : Arith hi m' l m'') : Chain lo hi m (ls ++ [l]) m''

/-- The number whose limbs `f` gives, lowest first. -/
def number (f : Limb → Word64) (ls : List Limb) : Nat :=
  Nat.ofDigits (2 ^ 64) (ls.map fun l => (f l).toNat)

/-- One more than the largest number of `n` limbs. -/
def modulus (n : Nat) : Nat := 2 ^ (64 * n)

def carryFlag (m : Machine) : Bool := getFlag m.cpu.rflags flagCF

-- ---------------------------------------------------------------------------
-- What the instructions do
-- ---------------------------------------------------------------------------

theorem maskFor_eight (v : Word64) : v &&& maskFor 8 = v := BitVec.and_allOnes

theorem Held.read_back (h : Held m op) (hw : writeOperand m op v = some m') :
    readOperand m' op = some v := by
  obtain ⟨hsize, hreg | ⟨hmem, p, hp⟩⟩ := h
  · rcases writeOperand_cases hw with ⟨-, rfl⟩ | ⟨ht, -⟩ | ⟨ht, -⟩
    · rw [readOperand, hreg, hsize]
      simp only [Machine.setReg, State.setReg, Function.update_self, maskFor_eight, merge]
      rfl
    · rw [hreg] at ht
      cases ht
    · exact absurd hreg ht
  · rcases writeOperand_cases hw with ⟨ht, -⟩ | ⟨-, mem, hstore, rfl⟩ | ⟨-, ht, -⟩
    · rw [hmem] at ht
      cases ht
    · rw [hsize] at hstore
      have hback := wideRead_wideWrite hp hstore
      rw [readOperand, hmem]
      simp only [hsize, readMem, readU64, hback, Option.map_some]
      congr 1
      apply BitVec.eq_of_toNat_eq
      rw [BitVec.toNat_ofNat]
      have hv := v.isLt
      omega
    · exact absurd hmem ht

theorem Arith.sizes (h : Arith op m l m') (hp : op.paired = true) :
    (insnAt m).op1.size = 8 ∧ (insnAt m).opSize = 8 := by
  obtain ⟨heq, hsize, -⟩ := paired_sizes h.opcode hp
  rw [h.held.size] at heq hsize
  exact ⟨heq, by omega⟩

/-- The limb an ALU instruction leaves, and its flags. -/
theorem Arith.alu (h : Arith op m l m') (hp : op.paired = true)
    (hcase : exec m.count (insnAt m) (nextRip m) =
      (execAlu f flags m.count (insnAt m)).map (.next (nextRip m))) :
    l.r = f l.a l.b ∧ m'.cpu.rflags = flags m.cpu.rflags l.a l.b l.r 64 := by
  obtain ⟨hsize, hop⟩ := h.sizes hp
  obtain ⟨m1, hm1, -, rfl⟩ := step_goes (f := execAlu f flags) h.run h.opcode
    (by rintro rfl; cases hp) hcase
  have hsame : (insnAt m).op1.size = (insnAt m).op0.size := by rw [hsize, h.held.size]
  have hpair : readPair m.count (insnAt m) = some (l.a, l.b) := readPair_same h.a h.b hsame
  obtain ⟨a, b, m2, hpair', hw, rfl⟩ := execAlu_some hm1
  obtain ⟨rfl, rfl⟩ := Prod.mk.inj (Option.some.inj (hpair.symm.trans hpair'))
  have hheld : Held m.count (insnAt m).op0 := ⟨h.held.size, h.held.place⟩
  have hr : readOperand m2 (insnAt m).op0 = some l.r := h.r
  have hval : l.r = f l.a l.b := Option.some.inj (hr.symm.trans (hheld.read_back hw))
  refine ⟨hval, ?_⟩
  simp only [Machine.setRip, Machine.setFlags, writeOperand_rflags hw, hop, hval]
  rfl

/-- An instruction that is not carried out leaves the limb and the carry. -/
theorem Arith.skipped (h : Arith op m l m') (hknown : op ≠ .unknown)
    (hcase : exec m.count (insnAt m) (nextRip m) = some (.next (nextRip m) m.count)) :
    l.r = l.a ∧ carryFlag m' = carryFlag m := by
  obtain ⟨m1, hm1, -, rfl⟩ := step_goes (f := fun m _ => some m) h.run h.opcode hknown hcase
  obtain rfl := Option.some.inj hm1
  have hr : readOperand m (insnAt m).op0 = some l.r := h.r
  exact ⟨Option.some.inj (hr.symm.trans h.a), rfl⟩

theorem mov_carry (hx : execOne m = some (res, m')) (hop : (insnAt m).opcode = .mov) :
    carryFlag m' = carryFlag m := by
  obtain ⟨m1, hm1, -, rfl⟩ := step_goes (f := execMov) hx hop nofun (by rw [exec, hop])
  obtain ⟨v, -, hw⟩ := Option.bind_eq_some_iff.1 hm1
  rw [carryFlag, Machine.setRip, writeOperand_rflags hw]
  rfl

theorem Arith.add (h : Arith .add m l m') : l.r = l.a + l.b ∧ carryFlag m' = false := by
  obtain ⟨hr, hflags⟩ := h.alu rfl (by rw [exec, h.opcode])
  refine ⟨hr, ?_⟩
  rw [carryFlag, hflags, updateFlagsAdd_cf]
  have hle : l.r ≤ maskForBits 64 := BitVec.le_def.2 (Nat.le_of_lt_succ l.r.isLt)
  exact decide_eq_false (BitVec.not_lt.2 hle)

theorem Arith.sub (h : Arith .sub m l m') :
    l.r = l.a - l.b ∧ carryFlag m' = decide (l.a < l.b) := by
  obtain ⟨hr, hflags⟩ := h.alu rfl (by rw [exec, h.opcode])
  refine ⟨hr, ?_⟩
  rw [carryFlag, hflags, (updateFlagsSub_flags ..).cf]

/-- What a chain leaves: the lowest limb is computed, the others stay. -/
theorem Chain.limbs (h : Chain lo hi m ls m') (hhi : hi = .adc ∨ hi = .sbb) :
    ∃ m1 l rest, ls = l :: rest ∧ Arith lo m l m1 ∧ (∀ x ∈ rest, x.r = x.a) ∧
      carryFlag m' = carryFlag m1 := by
  induction h with
  | first h => exact ⟨_, _, [], rfl, h, nofun, rfl⟩
  | mov _ run opcode ih =>
    obtain ⟨m1, l, rest, hls, hl, hrest, hcf⟩ := ih
    exact ⟨m1, l, rest, hls, hl, hrest, (mov_carry run opcode).trans hcf⟩
  | @next _ m2 x m3 _ hl ih =>
    obtain ⟨m1, l, rest, rfl, hfirst, hrest, hcf⟩ := ih
    have hskip : x.r = x.a ∧ carryFlag m3 = carryFlag m2 := by
      rcases hhi with rfl | rfl
      · exact hl.skipped nofun (by rw [exec, hl.opcode]; rfl)
      · exact hl.skipped nofun (by rw [exec, hl.opcode]; rfl)
    refine ⟨m1, l, rest ++ [x], rfl, hfirst, fun y hy => ?_, hskip.2.trans hcf⟩
    rcases List.mem_append.1 hy with hy | hy
    · exact hrest y hy
    · obtain rfl := List.mem_singleton.1 hy
      exact hskip.1

-- ---------------------------------------------------------------------------
-- Numbers
-- ---------------------------------------------------------------------------

theorem modulus_succ (n : Nat) : modulus (n + 1) = 2 ^ 64 * modulus n := by
  rw [modulus, modulus, Nat.mul_succ, Nat.pow_add, Nat.mul_comm]

section
variable (f : Limb → Word64)

theorem number_cons (l : Limb) (ls : List Limb) :
    number f (l :: ls) = (f l).toNat + 2 ^ 64 * number f ls := Nat.ofDigits_cons ..

theorem number_lt (ls : List Limb) : number f ls < modulus ls.length := by
  induction ls with
  | nil => exact Nat.one_pos
  | cons l ls ih =>
    have hl := (f l).isLt
    rw [number_cons, List.length_cons, modulus_succ]
    generalize modulus ls.length = p at ih ⊢
    omega

theorem number_eq_zero (ls : List Limb) : number f ls = 0 ↔ ∀ l ∈ ls, f l = 0 := by
  induction ls with
  | nil => exact iff_of_true rfl nofun
  | cons l ls ih =>
    rw [number_cons, List.forall_mem_cons, ← ih, Nat.add_eq_zero_iff, ← BitVec.toNat_inj]
    refine and_congr Iff.rfl ?_
    omega

theorem number_eq_top (ls : List Limb) :
    number f ls + 1 = modulus ls.length ↔ ∀ l ∈ ls, f l = BitVec.allOnes 64 := by
  induction ls with
  | nil => exact iff_of_true rfl nofun
  | cons l ls ih =>
    have hl := (f l).isLt
    have hlt := number_lt f ls
    rw [number_cons, List.forall_mem_cons, ← ih, List.length_cons, modulus_succ, ← BitVec.toNat_inj,
      BitVec.toNat_allOnes]
    generalize modulus ls.length = p at hlt ⊢
    omega

end

theorem number_congr (h : ∀ l ∈ ls, f l = g l) : number f ls = number g ls := by
  rw [number, number, List.map_congr_left fun l hl => by rw [h l hl]]

-- ---------------------------------------------------------------------------
-- The law
-- ---------------------------------------------------------------------------

/-- The limbs of the sum, with its carry. -/
def Adds (ls : List Limb) (cf : Bool) : Prop :=
  number Limb.r ls = (number Limb.a ls + number Limb.b ls) % modulus ls.length ∧
    (cf = true ↔ modulus ls.length ≤ number Limb.a ls + number Limb.b ls)

/-- The limbs of the difference, with its borrow. -/
def Subtracts (ls : List Limb) (cf : Bool) : Prop :=
  (number Limb.r ls : Int) =
      ((number Limb.a ls : Int) - number Limb.b ls) % (modulus ls.length) ∧
    (cf = true ↔ number Limb.a ls < number Limb.b ls)

/-- Nothing is carried out of the lowest limb or added above it. -/
def Carryless : List Limb → Prop
  | [] => True
  | l :: rest => l.a.toNat + l.b.toNat < 2 ^ 64 ∧ ∀ x ∈ rest, x.b = 0

/-- Nothing is borrowed by the lowest limb or subtracted above it, or what is
subtracted above it takes the borrow to the top. -/
def Borrowless : List Limb → Prop
  | [] => True
  | l :: rest => l.b ≤ l.a ∧ (∀ x ∈ rest, x.b = 0) ∨
      l.a < l.b ∧ ∀ x ∈ rest, x.b = BitVec.allOnes 64

theorem adds_iff (hr : l.r = l.a + l.b) (hrest : ∀ x ∈ rest, x.r = x.a) :
    Adds (l :: rest) false ↔ Carryless (l :: rest) := by
  have hA := number_lt Limb.a rest
  have hB := number_lt Limb.b rest
  have ha := l.a.isLt
  have hb := l.b.isLt
  rw [Adds, Carryless, ← number_eq_zero, number_cons, number_cons, number_cons, hr,
    number_congr hrest, List.length_cons, modulus_succ, BitVec.toNat_add]
  generalize modulus rest.length = p at hA hB ⊢
  generalize number Limb.a rest = A at hA ⊢
  generalize number Limb.b rest = B at hB ⊢
  constructor
  · rintro ⟨hsum, hcarry⟩
    have hfit : ¬2 ^ 64 * p ≤ l.a.toNat + 2 ^ 64 * A + (l.b.toNat + 2 ^ 64 * B) :=
      fun h => Bool.false_ne_true (hcarry.2 h)
    rw [Nat.mod_eq_of_lt (Nat.lt_of_not_le hfit)] at hsum
    omega
  · rintro ⟨hlow, rfl⟩
    rw [Nat.mod_eq_of_lt (show _ < 2 ^ 64 * p by omega), Nat.mod_eq_of_lt hlow]
    exact ⟨by omega, iff_of_false Bool.false_ne_true (by omega)⟩

/-- A number is the residue of what is a multiple of the radix below it. -/
theorem residue_iff {R p k : Nat} (hR : R < 2 ^ 64 * p) :
    (R : Int) = ((R : Int) - (2 ^ 64 * k : Nat)) % (2 ^ 64 * p : Nat) ↔ p ∣ k := by
  have hself : (R : Int) % (2 ^ 64 * p : Nat) = R :=
    Int.emod_eq_of_lt (Int.natCast_nonneg R) (Int.ofNat_lt.2 hR)
  have hdvd : (R : Int) ≡ (R : Int) - (2 ^ 64 * k : Nat) [ZMOD (2 ^ 64 * p : Nat)] ↔ p ∣ k := by
    rw [Int.modEq_iff_dvd, sub_sub_cancel_left, Int.dvd_neg, Int.natCast_dvd_natCast]
    exact Nat.mul_dvd_mul_iff_left (Nat.two_pow_pos 64)
  rwa [Int.ModEq, hself] at hdvd

theorem subtracts_iff (hr : l.r = l.a - l.b) (hrest : ∀ x ∈ rest, x.r = x.a) :
    Subtracts (l :: rest) (decide (l.a < l.b)) ↔ Borrowless (l :: rest) := by
  have hA := number_lt Limb.a rest
  have hB := number_lt Limb.b rest
  have ha := l.a.isLt
  have hb := l.b.isLt
  rw [Subtracts, Borrowless, ← number_eq_zero, ← number_eq_top, number_cons, number_cons, number_cons,
    hr, number_congr hrest, List.length_cons, modulus_succ]
  generalize modulus rest.length = p at hA hB ⊢
  generalize number Limb.a rest = A at hA ⊢
  generalize number Limb.b rest = B at hB ⊢
  rcases Nat.lt_or_ge l.a.toNat l.b.toNat with hlt | hge
  · have hless : l.a < l.b := BitVec.lt_def.2 hlt
    have hlow : (l.a - l.b).toNat = 2 ^ 64 - l.b.toNat + l.a.toNat := by
      rw [BitVec.toNat_sub]
      exact Nat.mod_eq_of_lt (by omega)
    have hdiff : ((l.a.toNat + 2 ^ 64 * A : Nat) : Int) - (l.b.toNat + 2 ^ 64 * B : Nat) =
        (2 ^ 64 - l.b.toNat + l.a.toNat + 2 ^ 64 * A : Nat) - (2 ^ 64 * (B + 1) : Nat) := by omega
    rw [hlow, hdiff, residue_iff (by omega), decide_eq_true hless]
    have hdvd : p ∣ B + 1 ↔ B + 1 = p :=
      ⟨fun h => Nat.le_antisymm hB (Nat.le_of_dvd (Nat.succ_pos B) h), fun h => h ▸ Nat.dvd_refl _⟩
    rw [hdvd, BitVec.le_def]
    constructor
    · rintro ⟨htop, -⟩
      exact .inr ⟨hless, htop⟩
    · rintro (⟨hle, -⟩ | ⟨-, htop⟩)
      · omega
      · exact ⟨htop, iff_of_true rfl (by omega)⟩
  · have hless : ¬l.a < l.b := BitVec.not_lt.2 (BitVec.le_def.2 hge)
    have hlow : (l.a - l.b).toNat = l.a.toNat - l.b.toNat :=
      BitVec.toNat_sub_of_le (BitVec.le_def.2 hge)
    have hdiff : ((l.a.toNat + 2 ^ 64 * A : Nat) : Int) - (l.b.toNat + 2 ^ 64 * B : Nat) =
        (l.a.toNat - l.b.toNat + 2 ^ 64 * A : Nat) - (2 ^ 64 * B : Nat) := by omega
    rw [hlow, hdiff, residue_iff (by omega), decide_eq_false hless]
    have hdvd : p ∣ B ↔ B = 0 :=
      ⟨fun h => Nat.eq_zero_of_dvd_of_lt h hB, fun h => h ▸ Nat.dvd_zero p⟩
    rw [hdvd]
    constructor
    · rintro ⟨hzero, -⟩
      exact .inl ⟨BitVec.le_def.2 hge, hzero⟩
    · rintro (⟨-, hzero⟩ | ⟨hlt, -⟩)
      · exact ⟨hzero, iff_of_false Bool.false_ne_true (by omega)⟩
      · exact absurd hlt hless

/-- A chain of ADD and ADC leaves the sum and its carry exactly when nothing is
carried out of the lowest limb or added above it; one of SUB and SBB leaves the
difference and its borrow exactly when nothing is borrowed by the lowest limb or
subtracted above it, or the borrow goes to the top. -/
theorem multi_limb_law (m m' : Machine) (ls : List Limb) :
    (Chain .add .adc m ls m' → (Adds ls (carryFlag m') ↔ Carryless ls)) ∧
    (Chain .sub .sbb m ls m' → (Subtracts ls (carryFlag m') ↔ Borrowless ls)) := by
  constructor
  · intro h
    obtain ⟨m1, l, rest, rfl, hl, hrest, hcf⟩ := h.limbs (.inl rfl)
    obtain ⟨hr, hadd⟩ := hl.add
    rw [hcf, hadd, adds_iff hr hrest]
  · intro h
    obtain ⟨m1, l, rest, rfl, hl, hrest, hcf⟩ := h.limbs (.inr rfl)
    obtain ⟨hr, hsub⟩ := hl.sub
    rw [hcf, hsub, subtracts_iff hr hrest]

def Machine.after (m : Machine) : Machine := ((execOne m).getD (.error, m)).2

/-- Two limbs, the lower ones given, with the higher ones 0. -/
def twoLimbs (code : List Byte) (a b : Word64) : Machine :=
  .of code fun r => if r = rax then a else if r = rbx then b else 0

/-- `add rax, rbx; adc rcx, rdx` and `sub rax, rbx; sbb rcx, rdx`. -/
def addCode : List Byte := [0x48, 0x01, 0xD8, 0x48, 0x11, 0xD1]
def subCode : List Byte := [0x48, 0x29, 0xD8, 0x48, 0x19, 0xD1]

theorem multi_limb_law_small :
    Adds [⟨1, 2, 3⟩, ⟨0, 0, 0⟩] (carryFlag (twoLimbs addCode 1 2).after.after) ∧
    Subtracts [⟨3, 2, 1⟩, ⟨0, 0, 0⟩] (carryFlag (twoLimbs subCode 3 2).after.after) := by
  have hadd : Arith .add (twoLimbs addCode 1 2) ⟨1, 2, 3⟩ (twoLimbs addCode 1 2).after :=
    ⟨rfl, by decide, ⟨by decide, .inl (by decide)⟩, by decide, by decide, by decide⟩
  have hadc : Arith .adc (twoLimbs addCode 1 2).after ⟨0, 0, 0⟩ (twoLimbs addCode 1 2).after.after :=
    ⟨rfl, by decide, ⟨by decide, .inl (by decide)⟩, by decide, by decide, by decide⟩
  have hsub : Arith .sub (twoLimbs subCode 3 2) ⟨3, 2, 1⟩ (twoLimbs subCode 3 2).after :=
    ⟨rfl, by decide, ⟨by decide, .inl (by decide)⟩, by decide, by decide, by decide⟩
  have hsbb : Arith .sbb (twoLimbs subCode 3 2).after ⟨0, 0, 0⟩ (twoLimbs subCode 3 2).after.after :=
    ⟨rfl, by decide, ⟨by decide, .inl (by decide)⟩, by decide, by decide, by decide⟩
  constructor
  · exact ((multi_limb_law _ _ _).1 (.next (.first hadd) hadc)).2 ⟨by decide, by decide⟩
  · exact ((multi_limb_law _ _ _).2 (.next (.first hsub) hsbb)).2 (.inl ⟨by decide, by decide⟩)

/-- 2^64 - 1 and 1 are added to 0, with no carry. -/
theorem carry_lost : ∃ m',
    Chain .add .adc (twoLimbs addCode (BitVec.allOnes 64) 1) [⟨BitVec.allOnes 64, 1, 0⟩, ⟨0, 0, 0⟩] m' ∧
      ¬Adds [⟨BitVec.allOnes 64, 1, 0⟩, ⟨0, 0, 0⟩] (carryFlag m') := by
  have hadd : Arith .add (twoLimbs addCode (BitVec.allOnes 64) 1) ⟨BitVec.allOnes 64, 1, 0⟩
      (twoLimbs addCode (BitVec.allOnes 64) 1).after :=
    ⟨rfl, by decide, ⟨by decide, .inl (by decide)⟩, by decide, by decide, by decide⟩
  have hadc : Arith .adc (twoLimbs addCode (BitVec.allOnes 64) 1).after ⟨0, 0, 0⟩
      (twoLimbs addCode (BitVec.allOnes 64) 1).after.after :=
    ⟨rfl, by decide, ⟨by decide, .inl (by decide)⟩, by decide, by decide, by decide⟩
  exact ⟨_, .next (.first hadd) hadc, fun h => absurd h.1 (by decide)⟩

end WineGlass.X86
