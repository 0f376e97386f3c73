import Mathlib.Algebra.Ring.Int.Defs
import Mathlib.Algebra.Ring.Nat
import Mathlib.Data.Int.Basic

/-!
# Signed machine integers

`int` and `long` values are mathematical integers; an arithmetic result is
brought back into range by `cInt` (32 bits) or `cLong` (64 bits), which wrap
the way two's complement does. Inside the range both are the identity.
-/

namespace CInt

def intMax : Int := 2 ^ 31 - 1
def longMax : Int := 2 ^ 63 - 1

def cInt (x : Int) : Int := x.bmod (2 ^ 32)
def cLong (x : Int) : Int := x.bmod (2 ^ 64)

theorem cInt_eq (hl : -intMax - 1 ≤ x) (hu : x ≤ intMax) : cInt x = x :=
  Int.bmod_eq_of_le_mul_two (by unfold intMax at hl; omega) (by unfold intMax at hu; omega)

theorem cLong_eq (hl : -longMax - 1 ≤ x) (hu : x ≤ longMax) : cLong x = x :=
  Int.bmod_eq_of_le_mul_two (by unfold longMax at hl; omega) (by unfold longMax at hu; omega)

theorem le_cLong : -longMax - 1 ≤ cLong x := by
  have h := Int.le_bmod (x := x) (m := 2 ^ 64) (by decide)
  unfold cLong longMax
  omega

/-- Wrapping at every addition or once at the end is the same. -/
theorem cInt_add (x y : Int) : cInt (cInt x + y) = cInt (x + y) := Int.bmod_add_bmod

end CInt
