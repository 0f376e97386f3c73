import Mathlib.Data.List.Basic
import Mathlib.Data.BitVec

/-!
# Moves piece by piece

A memory is a function of the address. `move` copies a run of addresses as a
whole; `moves` copies the pieces of a list one after the other, from the front.
A later piece may read what an earlier one has written, and `moved_iff` says
when that makes no difference.
-/

namespace Moves

variable {w : Nat} {α : Type u}

def move (g : BitVec w → α) (dst src : BitVec w) (k : Nat) : BitVec w → α := fun a =>
  if (a - dst).toNat < k then g (src + (a - dst)) else g a

def moves (g : BitVec w → α) (dst src : BitVec w) : List Nat → BitVec w → α
  | [] => g
  | k :: ks => moves (move g dst src k) (dst + BitVec.ofNat w k) (src + BitVec.ofNat w k) ks

/-- `g'` is `g` with the `n` cells from `src` on copied to `dst`. -/
structure Moved (g g' : BitVec w → α) (dst src : BitVec w) (n : Nat) : Prop where
  copied : ∀ i, i < n → g' (dst + BitVec.ofNat w i) = g (src + BitVec.ofNat w i)
  kept : ∀ a, n ≤ (a - dst).toNat → g' a = g a

/-- Where the piece begins that offset `y` is in. -/
def start : List Nat → Nat → Nat
  | [], _ => 0
  | k :: ks, y => if y < k then 0 else k + start ks (y - k)

-- ---------------------------------------------------------------------------
-- Offsets
-- ---------------------------------------------------------------------------

theorem add_sub_cancel_ofNat (a : BitVec w) (h : i < 2 ^ w) :
    (a + BitVec.ofNat w i - a).toNat = i := by
  rw [BitVec.add_comm, BitVec.add_sub_cancel, BitVec.toNat_ofNat, Nat.mod_eq_of_lt h]

theorem add_ofNat_add (a : BitVec w) (i j : Nat) :
    a + BitVec.ofNat w i + BitVec.ofNat w j = a + BitVec.ofNat w (i + j) := by
  rw [BitVec.add_assoc, ← BitVec.ofNat_add]

theorem ofNat_toNat_self (a : BitVec w) : BitVec.ofNat w a.toNat = a := by
  rw [BitVec.ofNat_toNat, BitVec.setWidth_eq]

theorem add_offset (a b : BitVec w) : b + BitVec.ofNat w (a - b).toNat = a := by
  rw [ofNat_toNat_self, BitVec.add_comm, BitVec.sub_add_cancel]

/-- Seen from `k` cells further on. -/
theorem offset_shift (a dst : BitVec w) (hk : k ≤ 2 ^ w) :
    (a - (dst + BitVec.ofNat w k)).toNat =
      if k ≤ (a - dst).toNat then (a - dst).toNat - k else 2 ^ w + (a - dst).toNat - k := by
  rw [sub_add_eq_sub_sub, BitVec.toNat_sub, BitVec.toNat_ofNat]
  generalize a - dst = d
  have hd := d.isLt
  rcases Nat.eq_or_lt_of_le hk with rfl | hk
  · rw [Nat.mod_self, Nat.sub_zero, Nat.add_mod_left, Nat.mod_eq_of_lt hd, if_neg (by omega)]
    omega
  · rw [Nat.mod_eq_of_lt hk]
    split
    · rw [Nat.mod_eq_sub_mod (by omega), Nat.mod_eq_of_lt (by omega)]
      omega
    · rw [Nat.mod_eq_of_lt (by omega)]
      omega

/-- Behind `dst` come the first `k` cells, and behind them the cells from `dst + k` on. -/
theorem offset_lt_add (a dst : BitVec w) (h : k + n ≤ 2 ^ w) :
    (a - dst).toNat < k + n ↔
      (a - dst).toNat < k ∨ (a - (dst + BitVec.ofNat w k)).toNat < n := by
  rw [offset_shift a dst (Nat.le_of_add_right_le h)]
  split <;> omega

-- ---------------------------------------------------------------------------
-- One piece
-- ---------------------------------------------------------------------------

variable {g : BitVec w → α} {dst src : BitVec w}

theorem move_lt (h : (a - dst).toNat < k) : move g dst src k a = g (src + (a - dst)) := if_pos h

theorem move_ge (h : k ≤ (a - dst).toNat) : move g dst src k a = g a := if_neg (Nat.not_lt.2 h)

theorem move_ofNat (hi : i < k) (hk : k ≤ 2 ^ w) :
    move g dst src k (dst + BitVec.ofNat w i) = g (src + BitVec.ofNat w i) := by
  have ho := add_sub_cancel_ofNat dst (Nat.lt_of_lt_of_le hi hk)
  rw [move_lt (ho.symm ▸ hi), ← ofNat_toNat_self (dst + BitVec.ofNat w i - dst), ho]

theorem move_moved (g : BitVec w → α) (dst src : BitVec w) (hk : k ≤ 2 ^ w) : Moved g (move g dst src k) dst src k :=
  ⟨fun _ hi => move_ofNat hi hk, fun _ => move_ge⟩

theorem Moved.unique (h : Moved g g₁ dst src k) (h' : Moved g g₂ dst src k) : g₁ = g₂ := by
  funext a
  rcases Nat.lt_or_ge (a - dst).toNat k with ha | ha
  · rw [← add_offset a dst, h.copied _ ha, h'.copied _ ha]
  · rw [h.kept a ha, h'.kept a ha]

/-- A memory is its own copy where the two ranges hold the same. -/
theorem moved_self_iff : Moved g g dst src k ↔
    ∀ i, i < k → g (dst + BitVec.ofNat w i) = g (src + BitVec.ofNat w i) :=
  ⟨fun h => h.copied, fun h => ⟨h, fun _ _ => rfl⟩⟩

-- ---------------------------------------------------------------------------
-- All of them
-- ---------------------------------------------------------------------------

theorem start_le (ks : List Nat) (y : Nat) : start ks y ≤ y := by
  induction ks generalizing y with
  | nil => exact Nat.zero_le y
  | cons k ks ih =>
    rw [start]
    have := ih (y - k)
    split <;> omega

theorem moves_ge (ks : List Nat) (hs : ks.sum ≤ 2 ^ w) (h : ks.sum ≤ (a - dst).toNat) :
    moves g dst src ks a = g a := by
  induction ks generalizing g dst src with
  | nil => rfl
  | cons k ks ih =>
    rw [List.sum_cons] at hs h
    have hout := mt (offset_lt_add a dst hs).2 (Nat.not_lt.2 h)
    rw [not_or, Nat.not_lt, Nat.not_lt] at hout
    rw [moves, ih (Nat.le_of_add_left_le hs) hout.2, move_ge hout.1]

/-- What the moves leave at `y`: what they leave at `src + y`, where an earlier piece
has already been there, else what was there. -/
theorem moves_ofNat (ks : List Nat) (hs : ks.sum ≤ 2 ^ w) (hy : y < ks.sum) :
    moves g dst src ks (dst + BitVec.ofNat w y) =
      if (src + BitVec.ofNat w y - dst).toNat < start ks y then
        moves g dst src ks (src + BitVec.ofNat w y)
      else g (src + BitVec.ofNat w y) := by
  induction ks generalizing g dst src y with
  | nil => cases hy
  | cons k ks ih =>
    rw [List.sum_cons] at hs hy
    have hks : ks.sum ≤ 2 ^ w := Nat.le_of_add_left_le hs
    have hk : k ≤ 2 ^ w := Nat.le_of_add_right_le hs
    rw [moves, start]
    rcases Nat.lt_or_ge y k with hyk | hyk
    · have ho := add_sub_cancel_ofNat dst (show y < 2 ^ w by omega)
      have hout : ks.sum ≤ (dst + BitVec.ofNat w y - (dst + BitVec.ofNat w k)).toNat := by
        rw [offset_shift _ _ hk, ho, if_neg (by omega)]
        omega
      rw [moves_ge ks hks hout, move_ofNat hyk hk, if_pos hyk, if_neg (Nat.not_lt_zero _)]
    · obtain ⟨z, rfl⟩ := Nat.exists_eq_add_of_le hyk
      have hz : z < ks.sum := by omega
      have hstart := start_le ks z
      have hlt := offset_lt_add (src + BitVec.ofNat w (k + z)) dst
        (show k + start ks z ≤ 2 ^ w by omega)
      rw [if_neg (Nat.not_lt.2 hyk), Nat.add_sub_cancel_left, ← add_ofNat_add dst, ih hks hz,
        add_ofNat_add src]
      by_cases hr : (src + BitVec.ofNat w (k + z) - (dst + BitVec.ofNat w k)).toNat < start ks z
      · rw [if_pos hr, if_pos (hlt.2 (.inr hr))]
      · rw [if_neg hr]
        by_cases hfirst : (src + BitVec.ofNat w (k + z) - dst).toNat < k
        · have hbehind : ks.sum ≤
              (src + BitVec.ofNat w (k + z) - (dst + BitVec.ofNat w k)).toNat := by
            rw [offset_shift _ _ hk, if_neg (by omega)]
            omega
          rw [if_pos (hlt.2 (.inl hfirst)), moves_ge ks hks hbehind]
        · rw [if_neg fun h => (hlt.1 h).elim hfirst hr, move_ge (Nat.not_lt.1 hfirst)]

/-- Moving piece by piece is moving, unless a piece reads a cell that an earlier one has
changed. -/
theorem moved_iff (g : BitVec w → α) (dst src : BitVec w) (ks : List Nat) (hs : ks.sum ≤ 2 ^ w) :
    Moved g (moves g dst src ks) dst src ks.sum ↔ ∀ y, y < ks.sum →
      (src + BitVec.ofNat w y - dst).toNat < start ks y →
        g (src + (src + BitVec.ofNat w y - dst)) = g (src + BitVec.ofNat w y) := by
  constructor
  · intro h y hy hlt
    have hx := Nat.lt_trans (Nat.lt_of_lt_of_le hlt (start_le ks y)) hy
    have hcopied := h.copied _ hx
    have hy := (h.copied y hy).symm.trans (moves_ofNat ks hs hy)
    rw [if_pos hlt] at hy
    rw [add_offset] at hcopied
    rw [hy, hcopied, ofNat_toNat_self]
  · intro h
    refine ⟨fun y => ?_, fun a => moves_ge ks hs⟩
    induction y using Nat.strong_induction_on with
    | _ y ih =>
      intro hy
      rw [moves_ofNat ks hs hy]
      split
      · rename_i hlt
        have hx := Nat.lt_of_lt_of_le hlt (start_le ks y)
        have hback := ih _ hx (Nat.lt_trans hx hy)
        rw [add_offset, ofNat_toNat_self] at hback
        exact hback.trans (h y hy hlt)
      · rfl

end Moves
