import WineGlass.Gdi.Line
import Mathlib.Data.List.Chain

/-!
# The course of a line

A line's pen before turn `j` is `spot j`, in `x`-major lines as in the others, and
every turn goes from one spot to the next unless the error term overflows.
-/

namespace WineGlass.Gdi

open Faults Grids Tables Bresenham

section

variable (x0 y0 x1 y1 : Int)

/-- The pen before turn `j`. The error term has the sign of the axis it is about. -/
def spot (j : Nat) : Pen :=
  let b := (x1 - x0).natAbs
  let a := (y1 - y0).natAbs
  if a < b then ⟨go x0 x1 j, go y0 y1 (side b a j), err b a j⟩
  else ⟨go x0 x1 (side a b j), go y0 y1 j, -err a b j⟩

def spotAt (j : Nat) : Point := ((spot x0 y0 x1 y1 j).x0, (spot x0 y0 x1 y1 j).y0)

/-- The points that turns `j`, …, `j + n - 1` start at. -/
def points (j n : Nat) : List Point := (List.range' j n).map (spotAt x0 y0 x1 y1)

/-- The error term has room in turn `j`. -/
def TurnFits (j : Nat) : Prop :=
  let b := (x1 - x0).natAbs
  let a := (y1 - y0).natAbs
  b ≤ a → err a b j < b → a + err a b j ≤ 2 ^ 31

/-- What `wg_gdi_line_to` computes before its loop. -/
def courseOf : Line :=
  { x1, y1
    adx := (x1 - x0).natAbs
    ady := (y1 - y0).natAbs
    sx := sign (x1 - x0)
    sy := sign (y1 - y0)
    err := (spot x0 y0 x1 y1 0).err }

end

variable {x0 y0 x1 y1 : Int}

theorem spot_x (h : (y1 - y0).natAbs < (x1 - x0).natAbs) (j : Nat) :
    spot x0 y0 x1 y1 j =
      ⟨go x0 x1 j, go y0 y1 (side (x1 - x0).natAbs (y1 - y0).natAbs j),
        err (x1 - x0).natAbs (y1 - y0).natAbs j⟩ := if_pos h

theorem spot_y (h : ¬ (y1 - y0).natAbs < (x1 - x0).natAbs) (j : Nat) :
    spot x0 y0 x1 y1 j =
      ⟨go x0 x1 (side (y1 - y0).natAbs (x1 - x0).natAbs j), go y0 y1 j,
        -err (y1 - y0).natAbs (x1 - x0).natAbs j⟩ := if_neg h

theorem lineLength_x (h : (y1 - y0).natAbs < (x1 - x0).natAbs) :
    lineLength (x0, y0) (x1, y1) = (x1 - x0).natAbs := Nat.max_eq_left (Nat.le_of_lt h)

theorem lineLength_y (h : ¬ (y1 - y0).natAbs < (x1 - x0).natAbs) :
    lineLength (x0, y0) (x1, y1) = (y1 - y0).natAbs := Nat.max_eq_right (Nat.le_of_not_lt h)

theorem spot_zero (x0 y0 x1 y1 : Int) : spotAt x0 y0 x1 y1 0 = (x0, y0) := by
  unfold spotAt
  by_cases h : (y1 - y0).natAbs < (x1 - x0).natAbs
  · rw [spot_x h]
    simp [go, side]
  · rw [spot_y h]
    simp [go, side]

theorem spot_end (x0 y0 x1 y1 : Int) : spotAt x0 y0 x1 y1 (lineLength (x0, y0) (x1, y1)) = (x1, y1) := by
  unfold spotAt
  by_cases h : (y1 - y0).natAbs < (x1 - x0).natAbs
  · rw [spot_x h, lineLength_x h, side_end (Nat.zero_lt_of_lt h) (Nat.le_of_lt h), go_end, go_end]
  · rw [spot_y h, lineLength_y h, go_end]
    rcases Nat.eq_zero_or_pos (y1 - y0).natAbs with hz | hpos
    · have hx : x1 = x0 := by omega
      rw [hz, hx]
      simp [go, side]
    · rw [side_end hpos (Nat.le_of_not_lt h), go_end]

theorem spot_ne (hj : j < lineLength (x0, y0) (x1, y1)) : spotAt x0 y0 x1 y1 j ≠ (x1, y1) := by
  unfold spotAt
  intro heq
  by_cases h : (y1 - y0).natAbs < (x1 - x0).natAbs
  · rw [spot_x h] at heq
    exact go_ne (lineLength_x h ▸ hj) (congrArg Prod.fst heq)
  · rw [spot_y h] at heq
    exact go_ne (lineLength_y h ▸ hj) (congrArg Prod.snd heq)

theorem spot_beside (j : Nat) : Beside (spotAt x0 y0 x1 y1 j) (spotAt x0 y0 x1 y1 (j + 1)) := by
  have hside (a b : Nat) : side a b (j + 1) = side a b j ∨ side a b (j + 1) = side a b j + 1 := by
    rw [side_step]
    split <;> simp
  unfold spotAt Beside
  by_cases h : (y1 - y0).natAbs < (x1 - x0).natAbs
  · rw [spot_x h, spot_x h]
    exact ⟨go_beside x0 x1 j (.inr rfl), go_beside y0 y1 _ (hside ..)⟩
  · rw [spot_y h, spot_y h]
    exact ⟨go_beside x0 x1 _ (hside ..), go_beside y0 y1 j (.inr rfl)⟩

/-- The cross product forgets the directions. -/
theorem cross_abs (x0 y0 x1 y1 : Int) (i j : Nat) :
    |(go y0 y1 j - y0) * (x1 - x0) - (go x0 x1 i - x0) * (y1 - y0)| =
      |(j : Int) * (x1 - x0).natAbs - i * (y1 - y0).natAbs| := by
  unfold go
  rcases sign_cases (x1 - x0) with ⟨hsx, hx⟩ | ⟨hsx, hx⟩ <;>
    rcases sign_cases (y1 - y0) with ⟨hsy, hy⟩ | ⟨hsy, hy⟩
  all_goals rw [hsx, hsy]
  · rw [Int.natAbs_of_nonneg hx, Int.natAbs_of_nonneg hy]
    congr 1
    ring
  · rw [Int.natAbs_of_nonneg hx, Int.ofNat_natAbs_of_nonpos (Int.le_of_lt hy), ← abs_neg]
    congr 1
    ring
  · rw [Int.ofNat_natAbs_of_nonpos (Int.le_of_lt hx), Int.natAbs_of_nonneg hy, ← abs_neg]
    congr 1
    ring
  · rw [Int.ofNat_natAbs_of_nonpos (Int.le_of_lt hx), Int.ofNat_natAbs_of_nonpos (Int.le_of_lt hy)]
    congr 1
    ring

theorem spot_near (j : Nat) : Near (x0, y0) (x1, y1) (spotAt x0 y0 x1 y1 j) := by
  unfold spotAt Near
  by_cases h : (y1 - y0).natAbs < (x1 - x0).natAbs
  · rw [spot_x h, lineLength_x h]
    simp only
    rw [cross_abs]
    exact side_near (Nat.zero_lt_of_lt h) (Nat.le_of_lt h) j
  · rw [spot_y h, lineLength_y h]
    simp only
    rcases Nat.eq_zero_or_pos (y1 - y0).natAbs with hz | hpos
    · have hx : x1 = x0 := by omega
      have hy : y1 = y0 := by omega
      simp [hx, hy]
    · rw [cross_abs, abs_sub_comm]
      exact side_near hpos (Nat.le_of_not_lt h) j

-- ---------------------------------------------------------------------------
-- The code follows the course
-- ---------------------------------------------------------------------------

theorem magnitude_ok (hd : d.natAbs < 2 ^ 31) : magnitude d = .ok d.natAbs := by
  unfold magnitude
  split
  · rw [int_ok (fits_iff.mpr (by omega)), Int.ofNat_natAbs_of_nonpos (by omega)]
  · rw [Int.natAbs_of_nonneg (by omega)]

theorem magnitude_ends (hd : Fits d) (h : magnitude d = .ok n) : d.natAbs < 2 ^ 31 := by
  rw [fits_iff] at hd
  unfold magnitude at h
  split at h
  · have hneg := fits_iff.mp (int_eq_ok.mp h).1
    omega
  · omega

theorem half_neg (n : Nat) : (-(n : Int)).tdiv 2 = -((n / 2 : Nat) : Int) := by
  rw [Int.neg_tdiv, Int.ofNat_tdiv]
  rfl

theorem line_ok (hx : (x1 - x0).natAbs < 2 ^ 31) (hy : (y1 - y0).natAbs < 2 ^ 31) :
    line x0 y0 x1 y1 = .ok (courseOf x0 y0 x1 y1) := by
  have herr : (if ((x1 - x0).natAbs : Int) > (y1 - y0).natAbs then ((x1 - x0).natAbs : Int)
      else -((y1 - y0).natAbs : Int)).tdiv 2 = (spot x0 y0 x1 y1 0).err := by
    by_cases h : (y1 - y0).natAbs < (x1 - x0).natAbs
    · rw [if_pos (by exact_mod_cast h), spot_x h]
      exact (Int.ofNat_tdiv ..).symm
    · rw [if_neg (by exact_mod_cast h), spot_y h, half_neg]
      rfl
  unfold line courseOf
  rw [int_ok (fits_iff.mpr (by omega)), ok_bind, int_ok (fits_iff.mpr (by omega)), ok_bind,
    magnitude_ok hx, ok_bind, magnitude_ok hy, ok_bind, herr]
  rfl

theorem line_ends (h : line x0 y0 x1 y1 = .ok l) :
    (x1 - x0).natAbs < 2 ^ 31 ∧ (y1 - y0).natAbs < 2 ^ 31 := by
  obtain ⟨dx, hdx, h⟩ := bind_eq_ok.mp h
  obtain ⟨dy, hdy, h⟩ := bind_eq_ok.mp h
  obtain ⟨adx, hadx, h⟩ := bind_eq_ok.mp h
  obtain ⟨ady, hady, -⟩ := bind_eq_ok.mp h
  obtain ⟨hfx, rfl⟩ := int_eq_ok.mp hdx
  obtain ⟨hfy, rfl⟩ := int_eq_ok.mp hdy
  exact ⟨magnitude_ends hfx hadx, magnitude_ends hfy hady⟩

theorem turn_overflow (hfit : ¬ TurnFits x0 y0 x1 y1 j) :
    (courseOf x0 y0 x1 y1).turn (spot x0 y0 x1 y1 j) = .error .overflow := by
  unfold TurnFits at hfit
  simp only [Classical.not_imp, Nat.not_le] at hfit
  obtain ⟨hle, hlow, hroom⟩ := hfit
  unfold Line.turn
  rw [spot_y (Nat.not_lt_of_le hle), Line.alongX_overflow, error_bind]
  · simp only [courseOf]
    omega
  · intro hf
    simp only [courseOf] at hf
    rw [fits_iff] at hf
    omega

section

variable (hx0 : Fits x0) (hy0 : Fits y0) (hx1 : Fits x1) (hy1 : Fits y1)

include hx0 hy0 hx1 hy1

theorem turn_ok (hx : (x1 - x0).natAbs < 2 ^ 31) (hy : (y1 - y0).natAbs < 2 ^ 31)
    (hj : j < lineLength (x0, y0) (x1, y1)) (hfit : TurnFits x0 y0 x1 y1 j) :
    (courseOf x0 y0 x1 y1).turn (spot x0 y0 x1 y1 j) = .ok (spot x0 y0 x1 y1 (j + 1)) := by
  unfold TurnFits at hfit
  unfold Line.turn
  by_cases h : (y1 - y0).natAbs < (x1 - x0).natAbs
  · have hpos := Nat.zero_lt_of_lt h
    have hle := Nat.le_of_lt h
    rw [lineLength_x h] at hj
    have hlt := err_lt hpos hle j
    have hx' := go_fits hx0 hx1 (Nat.succ_le_of_lt hj)
    have hy' := go_fits hy0 hy1 (side_le hpos hle (Nat.succ_le_of_lt hj))
    rw [← go_step] at hx'
    rw [spot_x h, spot_x h]
    -- the longer axis always moves
    rw [Line.alongX_moves (by simp only [courseOf]; omega)
      (fits_iff.mpr (by simp only [courseOf]; omega)) hx', ok_bind, ← go_step]
    rw [side_step] at hy' ⊢
    rw [err_step]
    by_cases hlow : err (x1 - x0).natAbs (y1 - y0).natAbs j < (y1 - y0).natAbs
    · rw [if_pos hlow, ← go_step] at hy'
      rw [Line.alongY_moves (by simp only [courseOf]; omega)
        (fits_iff.mpr (by simp only [courseOf]; omega)) hy', if_pos hlow, if_pos hlow, ← go_step]
      simp only [courseOf, Except.ok.injEq, Pen.mk.injEq, true_and]
      omega
    · rw [Line.alongY_stays (by simp only [courseOf]; omega), if_neg hlow, if_neg hlow]
      simp only [courseOf, Except.ok.injEq, Pen.mk.injEq, true_and, Nat.add_zero]
      omega
  · rw [lineLength_y h] at hj
    have hpos := Nat.zero_lt_of_lt hj
    have hle := Nat.le_of_not_lt h
    have hlt := err_lt hpos hle j
    have hy' := go_fits hy0 hy1 (Nat.succ_le_of_lt hj)
    have hx' := go_fits hx0 hx1 (side_le hpos hle (Nat.succ_le_of_lt hj))
    rw [← go_step] at hy'
    rw [spot_y h, spot_y h]
    rw [side_step] at hx' ⊢
    rw [err_step]
    by_cases hlow : err (y1 - y0).natAbs (x1 - x0).natAbs j < (x1 - x0).natAbs
    · have hroom := hfit hle hlow
      rw [if_pos hlow, ← go_step] at hx'
      rw [Line.alongX_moves (by simp only [courseOf]; omega)
          (fits_iff.mpr (by simp only [courseOf]; omega)) hx', ok_bind,
        Line.alongY_moves (by simp only [courseOf]; omega)
          (fits_iff.mpr (by simp only [courseOf]; omega)) hy', if_pos hlow, if_pos hlow,
        ← go_step, ← go_step]
      simp only [courseOf, Except.ok.injEq, Pen.mk.injEq, true_and]
      omega
    · rw [Line.alongX_stays (by simp only [courseOf]; omega), ok_bind,
        Line.alongY_moves (by simp only [courseOf]; omega)
          (fits_iff.mpr (by simp only [courseOf]; omega)) hy', if_neg hlow, if_neg hlow, ← go_step]
      simp only [courseOf, Except.ok.injEq, Pen.mk.injEq, true_and, Nat.add_zero]
      omega

-- ---------------------------------------------------------------------------
-- The loop
-- ---------------------------------------------------------------------------

theorem loop_ok {w h : Nat} (hfit : Fits (w * h)) (hx : (x1 - x0).natAbs < 2 ^ 31)
    (hy : (y1 - y0).natAbs < 2 ^ 31) (fb : Pixels w h) (rgba : U32)
    (hn : j + n = lineLength (x0, y0) (x1, y1))
    (hturns : ∀ i < lineLength (x0, y0) (x1, y1), TurnFits x0 y0 x1 y1 i) :
    ∃ fb', (courseOf x0 y0 x1 y1).loop rgba (n + 1) (spot x0 y0 x1 y1 j) fb =
        .ok (some (points x0 y0 x1 y1 j (n + 1), fb')) ∧
      Drawn fb fb' (points x0 y0 x1 y1 j (n + 1)) rgba := by
  induction n generalizing j fb with
  | zero =>
    obtain ⟨fb', hput, hdrawn⟩ := putPx_ok hfit fb (spotAt x0 y0 x1 y1 j).1
      (spotAt x0 y0 x1 y1 j).2 rgba
    have hend : spotAt x0 y0 x1 y1 j = (x1, y1) := by
      rw [← spot_end x0 y0, ← hn]
      rfl
    refine ⟨fb', ?_, hdrawn⟩
    unfold Line.loop
    rw [show putPx fb (spot x0 y0 x1 y1 j).x0 (spot x0 y0 x1 y1 j).y0 rgba = .ok fb' from hput,
      ok_bind, if_pos ⟨congrArg Prod.fst hend, congrArg Prod.snd hend⟩]
    rfl
  | succ n ih =>
    have hj : j < lineLength (x0, y0) (x1, y1) := by omega
    obtain ⟨fb₁, hput, hfirst⟩ := putPx_ok hfit fb (spotAt x0 y0 x1 y1 j).1
      (spotAt x0 y0 x1 y1 j).2 rgba
    obtain ⟨fb', hloop, hrest⟩ := ih fb₁ (j := j + 1) (by omega)
    refine ⟨fb', ?_, hfirst.trans hrest⟩
    have hne : ¬ ((spot x0 y0 x1 y1 j).x0 = (courseOf x0 y0 x1 y1).x1 ∧
        (spot x0 y0 x1 y1 j).y0 = (courseOf x0 y0 x1 y1).y1) := by
      rintro ⟨hxe, hye⟩
      exact spot_ne hj (Prod.ext hxe hye)
    unfold Line.loop
    rw [show putPx fb (spot x0 y0 x1 y1 j).x0 (spot x0 y0 x1 y1 j).y0 rgba = .ok fb₁ from hput,
      ok_bind, if_neg hne, turn_ok hx0 hy0 hx1 hy1 hx hy hj (hturns j hj), ok_bind, hloop, ok_bind]
    rfl

theorem loop_bad {w h : Nat} (hx : (x1 - x0).natAbs < 2 ^ 31)
    (hy : (y1 - y0).natAbs < 2 ^ 31) (rgba : U32) (hji : j ≤ i)
    (hi : i < lineLength (x0, y0) (x1, y1)) (hbad : ¬ TurnFits x0 y0 x1 y1 i) (fuel : Nat)
    (fb : Pixels w h) (r : List Point × Pixels w h) :
    (courseOf x0 y0 x1 y1).loop rgba fuel (spot x0 y0 x1 y1 j) fb ≠ .ok (some r) := by
  induction fuel generalizing j fb r with
  | zero => simp [Line.loop]
  | succ fuel ih =>
    intro hloop
    have hj := Nat.lt_of_le_of_lt hji hi
    unfold Line.loop at hloop
    obtain ⟨fb₁, -, hloop⟩ := bind_eq_ok.mp hloop
    rw [if_neg fun heq => spot_ne hj (Prod.ext heq.1 heq.2)] at hloop
    by_cases hturn : TurnFits x0 y0 x1 y1 j
    · have hlt : j + 1 ≤ i := by
        rcases Nat.eq_or_lt_of_le hji with rfl | h
        · exact absurd hturn hbad
        · exact h
      rw [turn_ok hx0 hy0 hx1 hy1 hx hy hj hturn, ok_bind] at hloop
      obtain ⟨a, ha, hmap⟩ := bind_eq_ok.mp hloop
      cases a with
      | none => cases hmap
      | some a => exact ih hlt fb₁ a ha
    · rw [turn_overflow hturn] at hloop
      cases hloop

end

theorem points_traces :
    Traces (x0, y0) (x1, y1) (points x0 y0 x1 y1 0 (lineLength (x0, y0) (x1, y1) + 1)) where
  count := by simp [points]
  first := by simp [points, spot_zero, List.range'_succ]
  last := by
    rw [points, List.range'_concat, List.map_append]
    simp [spot_end]
  close := by
    refine List.isChain_map_of_isChain (spotAt x0 y0 x1 y1) ?_ (List.isChain_range' 0 _ 1)
    rintro i j rfl
    exact spot_beside i
  near := by
    intro r hr
    obtain ⟨j, -, rfl⟩ := List.mem_map.mp hr
    exact spot_near j

theorem turnFits_all (h : LineFits x0 y0 x1 y1) (j : Nat) : TurnFits x0 y0 x1 y1 j := by
  intro hle hlow
  have hpos := Nat.zero_lt_of_lt hlow
  have hcrest := err_le_crest (Nat.lt_of_lt_of_le hpos hle) hle hlow
  have hroom := h.2.2 hpos hle
  omega

theorem turnFits_iff (hx : (x1 - x0).natAbs < 2 ^ 31) (hy : (y1 - y0).natAbs < 2 ^ 31) :
    (∀ i < lineLength (x0, y0) (x1, y1), TurnFits x0 y0 x1 y1 i) ↔ LineFits x0 y0 x1 y1 := by
  refine ⟨fun h => ⟨hx, hy, fun hpos hle => ?_⟩, fun h j _ => turnFits_all h j⟩
  have ha := Nat.lt_of_lt_of_le hpos hle
  obtain ⟨i, hi, hcrest⟩ := err_crest ha hle hpos
  have hroom := h i (by rw [lineLength_y (Nat.not_lt_of_le hle)]; exact hi) hle
    (hcrest ▸ crest_lt ha hpos)
  rw [hcrest] at hroom
  exact hroom

-- ---------------------------------------------------------------------------
-- The call
-- ---------------------------------------------------------------------------

theorem fits_int32 (x : Int32) : Fits x.toInt :=
  fits_iff.mpr ⟨x.le_toInt, Int.le_of_lt_add_one x.toInt_lt⟩

theorem spot_start : (⟨x0, y0, (courseOf x0 y0 x1 y1).err⟩ : Pen) = spot x0 y0 x1 y1 0 := by
  have hx := congrArg Prod.fst (spot_zero x0 y0 x1 y1)
  have hy := congrArg Prod.snd (spot_zero x0 y0 x1 y1)
  exact Pen.ext hx.symm hy.symm rfl

variable {room : Nat → Bool} {g : Desktop} {hwnd : U32} {w : Window}

theorem getClient_none (hw : g.wmFind hwnd = none) : g.getClient room hwnd = .ok (none, g) := by
  unfold Desktop.getClient
  rw [hw]

theorem getClient_full (hw : g.wmFind hwnd = some w)
    (h : ¬ (w.client.isSome ∨ room (w.clientW.toNat * w.clientH.toNat * 4))) :
    g.getClient room hwnd = .ok (none, g) := by
  simp only [not_or, Bool.not_eq_true, Option.isSome_eq_false_iff, Option.isNone_iff_eq_none] at h
  unfold Desktop.getClient
  simp [hw, h.1, h.2]

theorem getClient_ok (hw : g.wmFind hwnd = some w)
    (h : w.client.isSome ∨ room (w.clientW.toNat * w.clientH.toNat * 4))
    (hfit : w.client = none → Fits (w.clientW.toNat * w.clientH.toNat)) :
    ∃ c g₁, g.getClient room hwnd = .ok (some c, g₁) := by
  unfold Desktop.getClient
  rw [hw]
  cases hc : w.client with
  | some c => exact ⟨c, g, by simp [hc]⟩
  | none =>
    have hroom : room (w.clientW.toNat * w.clientH.toNat * 4) = true := by simpa [hc] using h
    obtain ⟨c, hblank⟩ : ∃ c, w.blank = .ok c := ⟨_, dif_pos (hfit hc)⟩
    exact ⟨c, _, by simp only [hc, hroom, if_true, hblank, ok_bind]; rfl⟩

theorem getClient_fits (hw : g.wmFind hwnd = some w)
    (h : w.client.isSome ∨ room (w.clientW.toNat * w.clientH.toNat * 4))
    (hok : g.getClient room hwnd = .ok r) :
    w.client = none → Fits (w.clientW.toNat * w.clientH.toNat) := by
  intro hc
  have hroom : room (w.clientW.toNat * w.clientH.toNat * 4) = true := by simpa [hc] using h
  unfold Desktop.getClient at hok
  rw [hw] at hok
  simp only [hc, hroom, if_true] at hok
  obtain ⟨c, hblank, -⟩ := bind_eq_ok.mp hok
  unfold Window.blank at hblank
  split at hblank
  · assumption
  · cases hblank

variable {dc : Dc} {hdc : U32} {x y : Int32}

theorem lineTo_nothing (hdc' : g.findDc hdc = some dc)
    (hclient : g.getClient room dc.hwnd = .ok (none, g)) :
    ∃ fuel pts g', g.lineTo room fuel hdc x y = .ok (some (pts, g')) ∧
      Shows room g dc hdc x y pts g' := by
  refine ⟨0, [], g, by simp [Desktop.lineTo, hdc', hclient], ?_⟩
  intro c g₁ h
  rw [hclient] at h
  cases h
  exact ⟨rfl, rfl⟩

theorem lineTo_line (hdc' : g.findDc hdc = some dc)
    (hclient : g.getClient room dc.hwnd = .ok (some c, g₁))
    (hline : LineFits dc.curX.toInt dc.curY.toInt x.toInt y.toInt) :
    ∃ fuel pts g', g.lineTo room fuel hdc x y = .ok (some (pts, g')) ∧
      Shows room g dc hdc x y pts g' := by
  have hdx := hline.1
  have hdy := hline.2.1
  obtain ⟨px, hloop, hdrawn⟩ := loop_ok (fits_int32 dc.curX) (fits_int32 dc.curY) (fits_int32 x)
    (fits_int32 y) c.fits hdx hdy c.px (rgbaOf dc.textColor) (Nat.zero_add _)
    fun i _ => turnFits_all hline i
  have hcall : g.lineTo room (lineLength (dc.curX.toInt, dc.curY.toInt) (x.toInt, y.toInt) + 1)
      hdc x y = .ok (some (points dc.curX.toInt dc.curY.toInt x.toInt y.toInt 0
        (lineLength (dc.curX.toInt, dc.curY.toInt) (x.toInt, y.toInt) + 1),
        (g₁.moveTo hdc x y).paint dc.hwnd { c with px })) := by
    unfold Desktop.lineTo
    rw [hdc']
    simp only [hclient, ok_bind, line_ok hdx hdy, spot_start]
    rw [hloop, ok_bind]
    rfl
  refine ⟨_, _, _, hcall, fun c' g₂ h => ?_⟩
  rw [hclient] at h
  cases h
  exact ⟨points_traces, px, hdrawn, rfl⟩

/-- A line that was drawn has not overflowed. -/
theorem lineTo_fits (hdc' : g.findDc hdc = some dc)
    (hclient : g.getClient room dc.hwnd = .ok (some c, g₁))
    (h : g.lineTo room fuel hdc x y = .ok (some r)) :
    LineFits dc.curX.toInt dc.curY.toInt x.toInt y.toInt := by
  unfold Desktop.lineTo at h
  rw [hdc'] at h
  simp only [hclient, ok_bind] at h
  obtain ⟨l, hl, h⟩ := bind_eq_ok.mp h
  obtain ⟨r, hr, hmap⟩ := bind_eq_ok.mp h
  obtain ⟨hdx, hdy⟩ := line_ends hl
  rw [line_ok hdx hdy] at hl
  cases hl
  rw [spot_start] at hr
  refine (turnFits_iff hdx hdy).mp fun i hi => ?_
  by_contra hbad
  cases r with
  | none => cases hmap
  | some r =>
    exact loop_bad (fits_int32 dc.curX) (fits_int32 dc.curY) (fits_int32 x) (fits_int32 y) hdx hdy
      _ (Nat.zero_le i) hi hbad fuel _ r hr

/-- A window of one pixel with a context for it, fresh from `GetDC`. -/
def onePixel : Desktop :=
  { windows :=
      [{ handle := 0x10000, parent := 1, alive := true, w := 1, h := 1, clientDirty := false
         client := some
          { w := 1, h := 1, px := Vector.replicate 1 0, pos := by decide, fits := by decide } }]
    bitmaps := []
    dcs := [{ Dc.zero with used := true, handle := 0xDC0000, hwnd := 0x10000 }]
    nextDc := 0xDC0001 }

/-- A call draws a line exactly when it can. -/
theorem lineTo_law (room : Nat → Bool) (g : Desktop) (hdc : U32) (x y : Int32) :
    Draws room g hdc x y ↔ CanDraw room g hdc x y := by
  unfold Draws CanDraw
  cases hdc' : g.findDc hdc with
  | none =>
    refine ⟨fun _ dc h => (by cases h), fun _ => ⟨0, [], g, ?_, rfl, rfl⟩⟩
    simp [Desktop.lineTo, hdc']
  | some dc =>
    constructor
    · rintro ⟨fuel, pts, g', hline, -⟩ d hd w hw havail
      cases hd
      have hbody := hline
      unfold Desktop.lineTo at hbody
      rw [hdc'] at hbody
      obtain ⟨r, hclient, -⟩ := bind_eq_ok.mp hbody
      have hfit := getClient_fits hw havail hclient
      obtain ⟨c, g₁, hsome⟩ := getClient_ok hw havail hfit
      exact ⟨hfit, lineTo_fits hdc' hsome hline⟩
    · intro hcan
      cases hw : g.wmFind dc.hwnd with
      | none => exact lineTo_nothing hdc' (getClient_none hw)
      | some w =>
        by_cases havail : w.client.isSome ∨ room (w.clientW.toNat * w.clientH.toNat * 4)
        · obtain ⟨hfit, hline⟩ := hcan dc rfl w hw havail
          obtain ⟨c, g₁, hclient⟩ := getClient_ok hw havail hfit
          exact lineTo_line hdc' hclient hline
        · exact lineTo_nothing hdc' (getClient_full hw havail)

/-- The difference of the ends overflows, and on a diagonal the error term. -/
theorem line_overflows :
    ¬ Draws (fun _ => true) (onePixel.moveTo 0xDC0000 (-1) 0) 0xDC0000 2147483647 0 ∧
      ¬ Draws (fun _ => true) onePixel 0xDC0000 2147483647 2147483647 := by
  constructor
  · rintro ⟨fuel, pts, g', h, -⟩
    exact absurd (lineTo_fits rfl rfl h) (by decide +kernel)
  · rintro ⟨fuel, pts, g', h, -⟩
    exact absurd (lineTo_fits rfl rfl h) (by decide +kernel)

end WineGlass.Gdi
