import Mathlib.Data.List.Count
import Mathlib.Logic.Function.Basic

/-!
# The CPU state

`wg_x86_state.c`: the registers and `rflags`, with the functions that compute
flags. A flag is a mask of one bit.
-/

namespace WineGlass.X86

abbrev Word64 := BitVec 64

def flagCF : Word64 := 1#64 <<< 0
def flagPF : Word64 := 1#64 <<< 2
def flagAF : Word64 := 1#64 <<< 4
def flagZF : Word64 := 1#64 <<< 6
def flagSF : Word64 := 1#64 <<< 7
def flagDF : Word64 := 1#64 <<< 10
def flagOF : Word64 := 1#64 <<< 11

def rax : Nat := 0
def rcx : Nat := 1
def rdx : Nat := 2
def rbx : Nat := 3
def rsp : Nat := 4
def rbp : Nat := 5

/-- `WGx86State`, as far as the interpreter uses it. -/
structure State where
  gpr : Nat → Word64
  rip : Word64
  rflags : Word64
  xmm : Nat → Word64 × Word64
  instructionCount : Word64

def setFlag (rflags flag : Word64) (val : Bool) : Word64 :=
  if val then rflags ||| flag else rflags &&& ~~~flag

def getFlag (rflags flag : Word64) : Bool := rflags &&& flag != 0

/-- `parity`: whether the bits that are set are even in number. -/
def parity (v : BitVec 8) : Bool :=
  let v := v ^^^ v >>> 4
  let v := v ^^^ v >>> 2
  let v := v ^^^ v >>> 1
  v &&& 1 == 0

def signBit (bits : Nat) : Word64 := 1#64 <<< (bits - 1)

def maskForBits (bits : Nat) : Word64 := if 64 ≤ bits then BitVec.allOnes 64 else (1#64 <<< bits) - 1

/-- The flags that follow from the result alone. -/
def resultFlags (rflags r : Word64) (bits : Nat) : Word64 :=
  setFlag (setFlag rflags flagZF (r == 0)) flagSF (r &&& signBit bits != 0)

def updateFlagsAdd (rflags a b result : Word64) (bits : Nat) : Word64 :=
  let m := maskForBits bits
  let sb := signBit bits
  let r := result &&& m
  let rflags := resultFlags (setFlag rflags flagCF (decide (m < result))) r bits
  let rflags := setFlag rflags flagOF ((a ^^^ result) &&& (b ^^^ result) &&& sb != 0)
  let rflags := setFlag rflags flagAF ((a ^^^ b ^^^ result) &&& 0x10 != 0)
  setFlag rflags flagPF (parity (r.setWidth 8))

def updateFlagsSub (rflags a b result : Word64) (bits : Nat) : Word64 :=
  let sb := signBit bits
  let r := result &&& maskForBits bits
  let rflags := resultFlags (setFlag rflags flagCF (decide (a < b))) r bits
  let rflags := setFlag rflags flagOF ((a ^^^ b) &&& (a ^^^ result) &&& sb != 0)
  let rflags := setFlag rflags flagAF ((a ^^^ b ^^^ result) &&& 0x10 != 0)
  setFlag rflags flagPF (parity (r.setWidth 8))

def updateFlagsLogic (rflags result : Word64) (bits : Nat) : Word64 :=
  let r := result &&& maskForBits bits
  let rflags := setFlag (setFlag rflags flagCF false) flagOF false
  setFlag (resultFlags rflags r bits) flagPF (parity (r.setWidth 8))

def evalCondition (rflags : Word64) (cc : Nat) : Bool :=
  let cf := getFlag rflags flagCF
  let zf := getFlag rflags flagZF
  let sf := getFlag rflags flagSF
  let of := getFlag rflags flagOF
  let pf := getFlag rflags flagPF
  match cc % 16 with
  | 0x0 => of
  | 0x1 => !of
  | 0x2 => cf
  | 0x3 => !cf
  | 0x4 => zf
  | 0x5 => !zf
  | 0x6 => cf || zf
  | 0x7 => !cf && !zf
  | 0x8 => sf
  | 0x9 => !sf
  | 0xA => pf
  | 0xB => !pf
  | 0xC => sf != of
  | 0xD => sf == of
  | 0xE => zf || sf != of
  | _ => !zf && sf == of

-- ---------------------------------------------------------------------------
-- Flags
-- ---------------------------------------------------------------------------

theorem getFlag_setFlag {flag : Word64} (h : flag ≠ 0) (rflags : Word64) (val : Bool) :
    getFlag (setFlag rflags flag val) flag = val := by
  unfold getFlag setFlag
  cases val with
  | true =>
    have hset : (rflags ||| flag) &&& flag = flag := by
      ext i
      rw [BitVec.getElem_and, BitVec.getElem_or]
      cases flag[i] <;> simp
    rw [if_pos rfl, hset, bne_iff_ne]
    exact h
  | false =>
    have hclear : (rflags &&& ~~~flag) &&& flag = 0#64 := by
      rw [BitVec.and_assoc, BitVec.and_comm (~~~flag), BitVec.and_not_self]
      exact BitVec.and_zero
    rw [if_neg Bool.false_ne_true, hclear]
    rfl

theorem getFlag_setFlag_ne {flag other : Word64} (h : flag &&& other = 0#64) (rflags : Word64)
    (val : Bool) : getFlag (setFlag rflags flag val) other = getFlag rflags other := by
  unfold getFlag setFlag
  have hand : (if val then rflags ||| flag else rflags &&& ~~~flag) &&& other = rflags &&& other := by
    cases val with
    | true => rw [if_pos rfl, BitVec.and_comm, BitVec.and_or_distrib_left, BitVec.and_comm other flag, h,
        BitVec.or_zero, BitVec.and_comm]
    | false =>
      have hkeep : ~~~flag &&& other = other := by
        ext i hi
        have hbit := congrArg (fun v : Word64 => v[i]) h
        simp only [BitVec.getElem_and, BitVec.getElem_zero] at hbit
        rw [BitVec.getElem_and, BitVec.getElem_not]
        cases hf : flag[i] with
        | true => rw [hf, Bool.true_and] at hbit; rw [hbit]; rfl
        | false => rfl
      rw [if_neg Bool.false_ne_true, BitVec.and_assoc, hkeep]
  rw [hand]

structure SubFlags (rflags a b result : Word64) (bits : Nat) : Prop where
  cf : getFlag rflags flagCF = decide (a < b)
  zf : getFlag rflags flagZF = (result &&& maskForBits bits == 0)
  sf : getFlag rflags flagSF = (result &&& maskForBits bits &&& signBit bits != 0)
  of : getFlag rflags flagOF = ((a ^^^ b) &&& (a ^^^ result) &&& signBit bits != 0)
  pf : getFlag rflags flagPF = parity ((result &&& maskForBits bits).setWidth 8)

theorem updateFlagsSub_flags (rflags a b result : Word64) (bits : Nat) :
    SubFlags (updateFlagsSub rflags a b result bits) a b result bits where
  cf := by
    simp (disch := decide) only [updateFlagsSub, resultFlags, getFlag_setFlag_ne, getFlag_setFlag]
  zf := by
    simp (disch := decide) only [updateFlagsSub, resultFlags, getFlag_setFlag_ne, getFlag_setFlag]
  sf := by
    simp (disch := decide) only [updateFlagsSub, resultFlags, getFlag_setFlag_ne, getFlag_setFlag]
  of := by simp (disch := decide) only [updateFlagsSub, getFlag_setFlag_ne, getFlag_setFlag]
  pf := by simp (disch := decide) only [updateFlagsSub, getFlag_setFlag]

theorem updateFlagsAdd_cf (rflags a b result : Word64) (bits : Nat) :
    getFlag (updateFlagsAdd rflags a b result bits) flagCF = decide (maskForBits bits < result) := by
  simp (disch := decide) only [updateFlagsAdd, resultFlags, getFlag_setFlag_ne, getFlag_setFlag]

end WineGlass.X86
