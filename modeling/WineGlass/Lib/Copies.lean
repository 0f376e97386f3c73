import Mathlib.Data.List.Range
import Mathlib.Algebra.Order.Group.Nat

/-!
# Copies into a buffer

Ranges are copied into a buffer one after another. `source` says where each place of the buffer has
its content from.
-/

namespace Copies

structure Copy where
  src : Nat
  dst : Nat
  len : Nat
  deriving DecidableEq, Repr

def Copy.Has (c : Copy) (i : Nat) : Prop := c.dst ≤ i ∧ i < c.dst + c.len

instance (c : Copy) (i : Nat) : Decidable (c.Has i) := inferInstanceAs (Decidable (_ ∧ _))

def Copy.over (c : Copy) (i : Nat) (before : Option Nat) : Option Nat :=
  if c.Has i then some (c.src + (i - c.dst)) else before

/-- The last copy over a place gives it its content. -/
def source (cs : List Copy) (i : Nat) : Option Nat := cs.foldl (fun o c => c.over i o) none

/-- No copy leaves a buffer of `size`. -/
def Inside (size : Nat) (cs : List Copy) : Prop := ∀ c ∈ cs, c.dst + c.len ≤ size

theorem source_snoc (cs : List Copy) (c : Copy) (i : Nat) :
    source (cs ++ [c]) i = c.over i (source cs i) := by
  simp [source]

/-- Rows of width `w`, one below the other. -/
def rows (src : Nat → Nat) (w h : Nat) : List Copy :=
  (List.range h).map fun r => ⟨src r, r * w, w⟩

theorem rows_inside (src : Nat → Nat) (w h : Nat) : Inside (w * h) (rows src w h) := by
  intro c hc
  obtain ⟨r, hr, rfl⟩ := List.mem_map.1 hc
  have hr := List.mem_range.1 hr
  calc r * w + w = (r + 1) * w := (Nat.succ_mul r w).symm
    _ ≤ h * w := Nat.mul_le_mul_right w hr
    _ = w * h := Nat.mul_comm h w

/-- Rows do not overlap. -/
theorem source_rows {src : Nat → Nat} (hj : j < w) (hr : r < h) :
    source (rows src w h) (r * w + j) = some (src r + j) := by
  induction h with
  | zero => cases hr
  | succ h ih =>
    have hsnoc : rows src w (h + 1) = rows src w h ++ [⟨src h, h * w, w⟩] := by
      rw [rows, List.range_succ, List.map_append]
      rfl
    rw [hsnoc, source_snoc, Copy.over]
    rcases Nat.lt_succ_iff_lt_or_eq.1 hr with hlt | rfl
    · have hle : (r + 1) * w ≤ h * w := Nat.mul_le_mul_right w hlt
      rw [Nat.succ_mul] at hle
      rw [if_neg, ih hlt]
      unfold Copy.Has
      dsimp only
      omega
    · rw [if_pos ⟨Nat.le_add_right _ _, Nat.add_lt_add_left hj _⟩]
      dsimp only
      congr 1
      omega

end Copies
