import Mathlib.Algebra.Ring.Int.Defs
import Mathlib.Algebra.Ring.Nat
import Mathlib.Data.List.Basic

/-!
# Sequences over places

A sequence is put into places one after another, each filled before the next. A place is a key
and a size, and a piece is what a place gets; places that get nothing have none.
-/

namespace Spread

def spread : List (κ × Nat) → List β → List (κ × List β)
  | [], _ => []
  | (k, n) :: ps, bs =>
    if bs.take n = [] then spread ps bs else (k, bs.take n) :: spread ps (bs.drop n)

def room (ps : List (κ × Nat)) : Nat := (ps.map Prod.snd).sum

def joined (ws : List (κ × List β)) : List β := ws.flatMap Prod.snd

variable {ps qs : List (κ × Nat)} {bs : List β}

theorem room_cons : room (p :: ps) = p.2 + room ps := rfl

theorem take_nil_drop {n : Nat} (h : bs.take n = []) : bs.drop n = bs := by
  have happend := List.take_append_drop n bs
  rwa [h, List.nil_append] at happend

theorem spread_cons : spread (p :: ps) bs =
    (if bs.take p.2 = [] then [] else [(p.1, bs.take p.2)]) ++ spread ps (bs.drop p.2) := by
  rw [spread]
  split
  · rename_i h
    rw [take_nil_drop h, List.nil_append]
  · rfl

theorem spread_nil (ps : List (κ × Nat)) : spread ps ([] : List β) = [] := by
  induction ps with
  | nil => rfl
  | cons p ps ih => rw [spread, if_pos List.take_nil, ih]

/-- Together the pieces are what there is room for. -/
theorem joined_spread : joined (spread ps bs) = bs.take (room ps) := by
  induction ps generalizing bs with
  | nil => simp [spread, joined, room]
  | cons p ps ih =>
    have hhead : joined (if bs.take p.2 = [] then [] else [(p.1, bs.take p.2)]) = bs.take p.2 := by
      split
      · rename_i h
        rw [h]
        rfl
      · simp [joined]
    rw [spread_cons, joined, List.flatMap_append, ← joined, ← joined, hhead, ih, room_cons,
      List.take_add]

theorem spread_append : spread (ps ++ qs) bs = spread ps bs ++ spread qs (bs.drop (room ps)) := by
  induction ps generalizing bs with
  | nil => rfl
  | cons p ps ih =>
    rw [List.cons_append, spread_cons, ih, spread_cons, List.append_assoc, List.drop_drop,
      room_cons]

/-- Places behind those that have room for everything get nothing. -/
theorem spread_enough (h : bs.length ≤ room ps) : spread (ps ++ qs) bs = spread ps bs := by
  rw [spread_append, List.drop_of_length_le h, spread_nil, List.append_nil]

/-- Places that get nothing can be left out. -/
theorem spread_filter {p : κ → Bool} (h : ∀ w ∈ spread ps bs, p w.1) :
    spread (ps.filter (p ·.1)) bs = spread ps bs := by
  induction ps generalizing bs with
  | nil => rfl
  | cons q ps ih =>
    rw [spread_cons] at h ⊢
    have hrest := ih fun w hw => h w (List.mem_append_right _ hw)
    rw [List.filter_cons]
    split
    · rw [spread_cons, hrest]
    · rename_i hq
      have hnone : bs.take q.2 = [] := by
        by_contra hsome
        rw [if_neg hsome] at h
        exact hq (h _ List.mem_cons_self)
      rw [take_nil_drop hnone] at hrest ⊢
      rw [hrest, if_pos hnone, List.nil_append]

/-- A piece is not empty, and its key is that of a place. -/
theorem spread_piece (h : w ∈ spread ps bs) : w.2 ≠ [] ∧ ∃ p ∈ ps, p.1 = w.1 := by
  induction ps generalizing bs with
  | nil => cases h
  | cons q ps ih =>
    rw [spread_cons] at h
    rcases List.mem_append.1 h with h | h
    · split at h
      · cases h
      · rename_i hsome
        obtain rfl := List.mem_singleton.1 h
        exact ⟨hsome, q, List.mem_cons_self, rfl⟩
    · obtain ⟨hne, p, hp, hkey⟩ := ih h
      exact ⟨hne, p, List.mem_cons_of_mem _ hp, hkey⟩

theorem joined_filter_le (p : κ × List β → Bool) (ws : List (κ × List β)) :
    (joined (ws.filter p)).length ≤ (joined ws).length := by
  induction ws with
  | nil => exact Nat.le_refl _
  | cons w ws ih =>
    rw [List.filter_cons]
    split
    · simpa [joined] using ih
    · simp only [joined, List.flatMap_cons, List.length_append] at ih ⊢
      omega

/-- Without one of its pieces a sequence is shorter. -/
theorem joined_filter {p : κ × List β → Bool} {ws : List (κ × List β)} (hne : ∀ w ∈ ws, w.2 ≠ [])
    (h : joined (ws.filter p) = joined ws) : ∀ w ∈ ws, p w := by
  induction ws with
  | nil => nofun
  | cons w ws ih =>
    have hpos := List.length_pos_iff.2 (hne w List.mem_cons_self)
    have hle := joined_filter_le p ws
    rw [List.filter_cons] at h
    split at h
    · rename_i hw
      simp only [joined, List.flatMap_cons, List.append_cancel_left_eq] at h
      intro x hx
      rcases List.mem_cons.1 hx with rfl | hx
      · exact hw
      · exact ih (fun y hy => hne y (List.mem_cons_of_mem _ hy)) h x hx
    · have hlen := congrArg List.length h
      simp only [joined, List.flatMap_cons, List.length_append] at hlen hle
      omega

end Spread
