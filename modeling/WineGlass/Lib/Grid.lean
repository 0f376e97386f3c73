import WineGlass.Lib.Faults
import Mathlib.Tactic.Ring

/-!
# Grids

A grid of `w` columns and `h` rows lies in memory row by row. `look` sees its
cells by column and row, and nothing outside of it.
-/

namespace Grids

open Faults

abbrev Grid (α : Type u) (w h : Nat) := Vector α (w * h)

variable {α : Type u} {w h : Nat}

/-- Where column `x` of row `y` lies. -/
def cell (w x y : Nat) : Nat := y * w + x

def Inside (w h : Nat) (x y : Int) : Prop := 0 ≤ x ∧ x < w ∧ 0 ≤ y ∧ y < h

instance (w h : Nat) (x y : Int) : Decidable (Inside w h x y) :=
  inferInstanceAs (Decidable (_ ∧ _))

def look (g : Grid α w h) (x y : Int) : Option α :=
  if Inside w h x y then g[cell w x.toNat y.toNat]? else none

theorem Inside.nat (hin : Inside w h x y) : ∃ i j : Nat, x = i ∧ y = j ∧ i < w ∧ j < h := by
  obtain ⟨hx, hxw, hy, hyh⟩ := hin
  exact ⟨x.toNat, y.toNat, by omega, by omega, by omega, by omega⟩

theorem cell_lt (hx : x < w) (hy : y < h) : cell w x y < w * h :=
  calc y * w + x < y * w + w := Nat.add_lt_add_left hx _
    _ = (y + 1) * w := (Nat.succ_mul y w).symm
    _ ≤ h * w := Nat.mul_le_mul_right w hy
    _ = w * h := Nat.mul_comm h w

theorem cell_inj (hx : x < w) (hx' : x' < w) (h : cell w x y = cell w x' y') :
    x = x' ∧ y = y' := by
  have hw : 0 < w := Nat.zero_lt_of_lt hx
  unfold cell at h
  have hrow := congrArg (· / w) h
  have hcol := congrArg (· % w) h
  simp only [Nat.mul_comm _ w, Nat.mul_add_div hw, Nat.div_eq_of_lt hx, Nat.div_eq_of_lt hx',
    Nat.add_zero] at hrow
  simp only [Nat.mul_comm _ w, Nat.mul_add_mod, Nat.mod_eq_of_lt hx, Nat.mod_eq_of_lt hx'] at hcol
  exact ⟨hcol, hrow⟩

theorem look_nat {g : Grid α w h} {x y : Nat} (hx : x < w) (hy : y < h) :
    look g x y = g[cell w x y]? := by
  have hin : Inside w h x y := ⟨by omega, by omega, by omega, by omega⟩
  unfold look
  rw [if_pos hin, Int.toNat_natCast, Int.toNat_natCast]

theorem look_outside {g : Grid α w h} (hout : ¬ Inside w h x y) : look g x y = none :=
  if_neg hout

/-- A cell that is inside holds something. -/
theorem look_inside {g : Grid α w h} (hin : Inside w h x y) : ∃ a, look g x y = some a := by
  obtain ⟨i, j, rfl, rfl, hi, hj⟩ := hin.nat
  exact ⟨_, (look_nat hi hj).trans (Vector.getElem?_eq_getElem (cell_lt hi hj))⟩

/-- One cell after another was written. -/
theorem look_set {g : Grid α w h} {i j : Nat} (hi : i < w) (hj : j < h) (x y : Int) :
    look (g.set (cell w i j) a (cell_lt hi hj)) x y = if x = i ∧ y = j then some a else look g x y := by
  by_cases hin : Inside w h x y
  · obtain ⟨k, l, rfl, rfl, hk, hl⟩ := hin.nat
    rw [look_nat hk hl, look_nat hk hl, Vector.getElem?_set]
    by_cases heq : cell w i j = cell w k l
    · obtain ⟨rfl, rfl⟩ := cell_inj hi hk heq
      simp
    · have hne : ¬ ((k : Int) = i ∧ (l : Int) = j) := by
        rintro ⟨hk, hl⟩
        exact heq (by rw [Int.natCast_inj.mp hk, Int.natCast_inj.mp hl])
      rw [if_neg heq, if_neg hne]
  · have hne : ¬ (x = i ∧ y = j) := by
      rintro ⟨rfl, rfl⟩
      exact hin ⟨by omega, by omega, by omega, by omega⟩
    rw [look_outside hin, look_outside hin, if_neg hne]

/-- Grids that look alike are equal. -/
theorem ext {g g' : Grid α w h} (heq : ∀ x < w, ∀ y < h, look g x y = look g' x y) : g = g' := by
  refine Vector.ext fun i hi => ?_
  have hw : 0 < w := Nat.pos_of_mul_pos_right (Nat.zero_lt_of_lt hi)
  have hx : i % w < w := Nat.mod_lt i hw
  have hy : i / w < h := Nat.div_lt_of_lt_mul hi
  have hcell : cell w (i % w) (i / w) = i := by
    unfold cell
    rw [Nat.mul_comm]
    exact Nat.div_add_mod i w
  have h := heq _ hx _ hy
  rw [look_nat hx hy, look_nat hx hy, hcell, Vector.getElem?_eq_getElem hi,
    Vector.getElem?_eq_getElem hi] at h
  exact Option.some.inj h

-- ---------------------------------------------------------------------------
-- Filling a grid
-- ---------------------------------------------------------------------------

/-- Row `y` of the computed cells is written to row `dest y`. -/
def fillRow (f : Nat → Nat → Faulty α) (dest : Nat → Nat) (y : Nat) (g : Grid α w h) :
    Faulty (Grid α w h) :=
  each (fun x g => do
    let a ← f x y
    put g (cell w x (dest y)) a) w g

def fill (f : Nat → Nat → Faulty α) (dest : Nat → Nat) (g : Grid α w h) : Faulty (Grid α w h) :=
  each (fillRow f dest) h g

variable {f : Nat → Nat → Faulty α} {dest : Nat → Nat}

theorem ends_fill {g : Grid α w h} (hdest : ∀ y < h, dest y < h) :
    Ends (fill f dest g) ↔ ∀ y < h, ∀ x < w, Ends (f x y) := by
  refine ends_each fun y s hy => ends_each fun x s hx => ?_
  rw [ends_bind]
  constructor
  · rintro ⟨a, ha, -⟩
    exact ⟨a, ha⟩
  · rintro ⟨a, ha⟩
    exact ⟨a, ha, _, put_ok (cell_lt hx (hdest y hy))⟩

/-- The cells of row `y` up to `x`, and all of the rows before. -/
structure Filled (f : Nat → Nat → Faulty α) (dest : Nat → Nat) (y x : Nat) (g : Grid α w h) :
    Prop where
  rows : ∀ j < y, ∀ i < w, ∃ a, f i j = .ok a ∧ look g i (dest j) = some a
  cols : ∀ i < x, ∃ a, f i y = .ok a ∧ look g i (dest y) = some a

theorem Filled.cell {g g' : Grid α w h} (hg : Filled f dest y x g) (hdest : ∀ j < h, dest j < h)
    (hinj : ∀ j < h, ∀ k < h, dest j = dest k → j = k) (hx : x < w) (hy : y < h)
    (hput : (do let a ← f x y; put g (cell w x (dest y)) a) = .ok g') :
    Filled f dest y (x + 1) g' := by
  obtain ⟨a, ha, hput⟩ := bind_eq_ok.mp hput
  rw [put_ok (cell_lt hx (hdest y hy))] at hput
  cases hput
  constructor
  · intro j hj i hi
    obtain ⟨b, hb, hlook⟩ := hg.rows j hj i hi
    refine ⟨b, hb, ?_⟩
    rw [look_set hx (hdest y hy), if_neg]
    · exact hlook
    · rintro ⟨-, hjy⟩
      exact Nat.ne_of_lt hj (hinj j (by omega) y hy (Int.natCast_inj.mp hjy))
  · intro i hi
    rcases Nat.lt_succ_iff_lt_or_eq.mp hi with hi | rfl
    · obtain ⟨b, hb, hlook⟩ := hg.cols i hi
      refine ⟨b, hb, ?_⟩
      rw [look_set hx (hdest y hy), if_neg]
      · exact hlook
      · rintro ⟨hix, -⟩
        exact Nat.ne_of_lt hi (Int.natCast_inj.mp hix)
    · exact ⟨a, ha, by rw [look_set hx (hdest y hy), if_pos ⟨rfl, rfl⟩]⟩

/-- A filled grid holds every computed cell in its place. -/
theorem fill_look {g g' : Grid α w h} (hdest : ∀ j < h, dest j < h)
    (hinj : ∀ j < h, ∀ k < h, dest j = dest k → j = k) (hfill : fill f dest g = .ok g') :
    ∀ y < h, ∀ x < w, ∃ a, f x y = .ok a ∧ look g' x (dest y) = some a := by
  refine (each_keeps (I := fun y g => Filled f dest y 0 g) ⟨fun j hj => ?_, fun i hi => ?_⟩
    (fun {y s s'} hy hs hrow => ?_) hfill).rows
  · exact absurd hj (Nat.not_lt_zero j)
  · exact absurd hi (Nat.not_lt_zero i)
  · have hall : Filled f dest y w s' := each_keeps (I := fun x g => Filled f dest y x g) hs
      (fun hx hm hput => hm.cell hdest hinj hx hy hput) hrow
    constructor
    · intro j hj i hi
      rcases Nat.lt_succ_iff_lt_or_eq.mp hj with hj | rfl
      · exact hall.rows j hj i hi
      · exact hall.cols i hi
    · exact fun i hi => absurd hi (Nat.not_lt_zero i)

end Grids
