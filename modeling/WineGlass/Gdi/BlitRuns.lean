import WineGlass.Gdi.Blit
import Mathlib.Tactic.Linarith

/-!
# Runs of a blit

When the turns of a blit end, by rows and columns, and what each of them leaves. `blit_rule`
carries an invariant over the rows and columns that were drawn.
-/

namespace WineGlass.Gdi

open Faults Grids

-- ---------------------------------------------------------------------------
-- Overflow along one axis
-- ---------------------------------------------------------------------------

/-- The coordinates of place `k` fit, the scaled ones if it is in the target. -/
def PlaceFits (o n p m t : Int) (k : Nat) : Prop :=
  Fits (o + k) ∧ (0 ≤ o + k → o + k < t → Fits (k * m) ∧ Fits (p + k * m / n))

theorem axisFits_iff (ho : Fits o) (hp : Fits p) (hn : 0 < n) (hm : 0 < m) :
    AxisFits o n p m t ↔ ∀ k < n.toNat, PlaceFits o n p m t k := by
  rw [fits_iff] at ho hp
  unfold AxisFits PlaceFits
  simp only [fits_iff]
  constructor
  · rintro ⟨hend, hlast⟩ k hk
    refine ⟨by omega, fun hlo hhi => ?_⟩
    obtain ⟨hmul, hplace⟩ := hlast (by omega)
    have hle : (k : Int) ≤ min n (t - o) - 1 := by omega
    have hkm : k * m ≤ (min n (t - o) - 1) * m := Int.mul_le_mul_of_nonneg_right hle (Int.le_of_lt hm)
    have hkn : k * m / n ≤ (min n (t - o) - 1) * m / n := Int.ediv_le_ediv hn hkm
    have h0 : 0 ≤ k * m := Int.mul_nonneg (by omega) (Int.le_of_lt hm)
    have h0n : 0 ≤ k * m / n := Int.ediv_nonneg h0 (Int.le_of_lt hn)
    omega
  · intro hall
    constructor
    · obtain ⟨⟨-, hend⟩, -⟩ := hall (n - 1).toNat (by omega)
      omega
    · intro hlast
      obtain ⟨-, h⟩ := hall (min n (t - o) - 1).toNat (by omega)
      obtain ⟨hmul, hplace⟩ := h (by omega) (by omega)
      rw [Int.toNat_of_nonneg (by omega)] at hmul hplace
      omega

-- ---------------------------------------------------------------------------
-- Single pixels
-- ---------------------------------------------------------------------------

theorem alpha_opaque (s : U32) : s >>> 24 &&& 0xFF#32 = 0xFF#32 ↔ channel 3 s = 255 := by
  rw [← BitVec.toNat_inj]
  exact Eq.congr_left (channel_shift 3 s)

theorem alpha_clear (s : U32) : s >>> 24 &&& 0xFF#32 = 0#32 ↔ channel 3 s = 0 := by
  rw [← BitVec.toNat_inj]
  exact Eq.congr_left (channel_shift 3 s)

variable {tw th : Nat}

/-- The pixel at `x`, `y` was drawn over, and no other. -/
structure DrawnOver (dst dst' : Pixels tw th) (x y : Int) (s : U32) : Prop where
  here : ∃ d, look dst x y = some d ∧ look dst' x y = some (drawOver s d)
  rest : ∀ x' y', ¬ (x' = x ∧ y' = y) → look dst' x' y' = look dst x' y'

theorem DrawnOver.of_put {dst dst' : Pixels tw th} {i j : Nat} (hi : i < tw) (hj : j < th)
    (hd : look dst i j = some d) (hput : put dst (cell tw i j) p = .ok dst') (hp : p = drawOver s d) :
    DrawnOver dst dst' i j s := by
  rw [put_ok (cell_lt hi hj)] at hput
  cases hput
  refine ⟨⟨d, hd, ?_⟩, fun x' y' hne => ?_⟩
  · rw [look_set hi hj, if_pos ⟨rfl, rfl⟩, hp]
  · rw [look_set hi hj, if_neg hne]

theorem drawPixel_ok (dst : Pixels tw th) (hin : Inside tw th x y) (s : U32) :
    ∃ dst', drawPixel dst x y s = .ok dst' ∧ DrawnOver dst dst' x y s := by
  obtain ⟨d, hd⟩ := look_inside (g := dst) hin
  obtain ⟨i, j, rfl, rfl, hi, hj⟩ := hin.nat
  have hget := get_ok ((look_nat hi hj).symm.trans hd)
  unfold drawPixel
  simp only [Int.toNat_natCast, alpha_opaque, ne_eq, alpha_clear]
  by_cases hopaque : channel 3 s = 255
  · rw [if_pos hopaque]
    exact ⟨_, put_ok (cell_lt hi hj), .of_put hi hj hd (put_ok (cell_lt hi hj)) (if_pos hopaque).symm⟩
  · rw [if_neg hopaque]
    by_cases hclear : channel 3 s = 0
    · rw [if_neg (not_not_intro hclear)]
      refine ⟨dst, rfl, ⟨d, hd, ?_⟩, fun _ _ _ => rfl⟩
      unfold drawOver
      rw [if_neg hopaque, if_pos hclear]
      exact hd
    · rw [if_pos hclear, hget, ok_bind]
      refine ⟨_, put_ok (cell_lt hi hj), .of_put hi hj hd (put_ok (cell_lt hi hj)) ?_⟩
      unfold drawOver
      rw [if_neg hopaque, if_neg hclear]

theorem fetch_ok {src : Source} (dst : Pixels tw th) (hin : Inside (src.w tw) (src.h th) x y) :
    ∃ s, src.fetch dst x y = .ok s ∧ src.seen dst x y = some s := by
  cases src with
  | image w h px =>
    obtain ⟨s, hs⟩ := look_inside (g := px) hin
    obtain ⟨i, j, rfl, rfl, hi, hj⟩ := Inside.nat (w := w) (h := h) hin
    exact ⟨s, get_ok ((look_nat hi hj).symm.trans hs), hs⟩
  | own =>
    obtain ⟨s, hs⟩ := look_inside (g := dst) hin
    obtain ⟨i, j, rfl, rfl, hi, hj⟩ := Inside.nat (w := tw) (h := th) hin
    exact ⟨s, get_ok ((look_nat hi hj).symm.trans hs), hs⟩

-- ---------------------------------------------------------------------------
-- Turns
-- ---------------------------------------------------------------------------

/-- Turn `i` of row `j` draws its pixel if that is hit. -/
structure Drew (r : Rects) (src : Source) (j i : Nat) (dst dst' : Pixels tw th) : Prop where
  hit : r.Hits src tw th (r.dx + i) (r.dy + j) → ∃ s, src.seen dst (r.col i) (r.row j) = some s ∧
    DrawnOver dst dst' (r.dx + i) (r.dy + j) s
  miss : ¬ r.Hits src tw th (r.dx + i) (r.dy + j) → dst' = dst

/-- Row `j` is drawn. -/
structure RowHit (r : Rects) (src : Source) (th j : Nat) : Prop where
  lo : 0 ≤ r.dy + j
  hi : r.dy + j < th
  row_lo : 0 ≤ r.row j
  row_hi : r.row j < src.h th

variable {r : Rects} {src : Source} {dst : Pixels tw th}

theorem pixelTurn_fits (hpos : 0 ≤ r.sw) (h : pixelTurn r src ddy ssy i dst = .ok dst') :
    PlaceFits r.dx r.dw r.sx r.sw tw i := by
  unfold pixelTurn at h
  obtain ⟨x, hx, h⟩ := bind_eq_ok.mp h
  obtain ⟨hfx, rfl⟩ := int_eq_ok.mp hx
  refine ⟨hfx, fun hlo hhi => ?_⟩
  rw [if_neg (by omega)] at h
  obtain ⟨m, hm, h⟩ := bind_eq_ok.mp h
  obtain ⟨hfm, rfl⟩ := int_eq_ok.mp hm
  obtain ⟨c, hc, -⟩ := bind_eq_ok.mp h
  rw [Int.tdiv_eq_ediv_of_nonneg (Int.mul_nonneg (by omega) hpos)] at hc
  exact ⟨hfm, (int_eq_ok.mp hc).1⟩

section

variable (hne : ¬ r.Empty)

include hne

theorem Rects.pos : 0 < r.dw ∧ 0 < r.dh ∧ 0 < r.sw ∧ 0 < r.sh := by
  unfold Rects.Empty at hne
  omega

theorem pixelTurn_ok (hrow : RowHit r src th j) (hj : j < r.dh.toNat) (hi : i < r.dw.toNat)
    (hfit : PlaceFits r.dx r.dw r.sx r.sw tw i) :
    ∃ dst', pixelTurn r src (r.dy + j) (r.row j) i dst = .ok dst' ∧ Drew r src j i dst dst' := by
  obtain ⟨hx, hcol⟩ := hfit
  obtain ⟨hlo, hhi, hrlo, hrhi⟩ := hrow
  unfold pixelTurn
  rw [int_ok hx, ok_bind]
  by_cases hout : r.dx + i < 0 ∨ r.dx + i ≥ tw
  · rw [if_pos hout]
    refine ⟨dst, rfl, fun hhit => ?_, fun _ => rfl⟩
    have htarget := hhit.target
    unfold Inside at htarget
    omega
  · obtain ⟨hmul, hplace⟩ := hcol (by omega) (by omega)
    have hscaled : (i * r.sw).tdiv r.dw = i * r.sw / r.dw :=
      Int.tdiv_eq_ediv_of_nonneg (Int.mul_nonneg (by omega) (Int.le_of_lt (Rects.pos hne).2.2.1))
    rw [if_neg hout, int_ok hmul, ok_bind, hscaled, int_ok hplace, ok_bind]
    by_cases hsrc : r.sx + i * r.sw / r.dw < 0 ∨ r.sx + i * r.sw / r.dw ≥ src.w tw
    · rw [if_pos hsrc]
      refine ⟨dst, rfl, fun hhit => ?_, fun _ => rfl⟩
      have hsource := hhit.source
      rw [add_sub_cancel_left, add_sub_cancel_left] at hsource
      unfold Inside Rects.col at hsource
      omega
    · rw [if_neg hsrc]
      have hin : Inside (src.w tw) (src.h th) (r.col i) (r.row j) := by
        unfold Inside Rects.col
        omega
      obtain ⟨s, hfetch, hseen⟩ := fetch_ok dst hin
      obtain ⟨dst', hdraw, hdrawn⟩ := drawPixel_ok (x := r.dx + i) (y := r.dy + j) dst
        (by unfold Inside; omega) s
      rw [show src.fetch dst (r.sx + i * r.sw / r.dw) (r.row j) = .ok s from hfetch, ok_bind]
      refine ⟨dst', hdraw, fun _ => ⟨s, hseen, hdrawn⟩, fun hmiss => absurd ?_ hmiss⟩
      refine ⟨hne, by unfold Inside; omega, by omega, by omega, ?_⟩
      rw [add_sub_cancel_left, add_sub_cancel_left]
      exact hin

theorem pixelTurn_drew (hrow : RowHit r src th j) (hj : j < r.dh.toNat) (hi : i < r.dw.toNat)
    (h : pixelTurn r src (r.dy + j) (r.row j) i dst = .ok dst') : Drew r src j i dst dst' := by
  have hfit := pixelTurn_fits (Int.le_of_lt (Rects.pos hne).2.2.1) h
  obtain ⟨d, hd, hdrew⟩ : ∃ d, pixelTurn r src (r.dy + j) (r.row j) i dst = .ok d ∧
      Drew r src j i dst d := pixelTurn_ok hne hrow hj hi hfit
  rw [hd] at h
  cases h
  exact hdrew

theorem rowTurn_hit (hfit : PlaceFits r.dy r.dh r.sy r.sh th j) (hrow : RowHit r src th j) :
    rowTurn r src j dst = each (pixelTurn r src (r.dy + j) (r.row j)) r.dw.toNat dst := by
  obtain ⟨hlo, hhi, hrlo, hrhi⟩ := hrow
  obtain ⟨hmul, hplace⟩ := hfit.2 hlo hhi
  have hscaled : (j * r.sh).tdiv r.dh = j * r.sh / r.dh :=
    Int.tdiv_eq_ediv_of_nonneg (Int.mul_nonneg (by omega) (Int.le_of_lt (Rects.pos hne).2.2.2))
  unfold Rects.row at hrlo hrhi ⊢
  unfold rowTurn
  rw [int_ok hfit.1, ok_bind, if_neg (by omega), int_ok hmul, ok_bind, hscaled, int_ok hplace,
    ok_bind, if_neg (by omega)]

theorem rowTurn_miss (hfit : PlaceFits r.dy r.dh r.sy r.sh th j) (hrow : ¬ RowHit r src th j) :
    rowTurn r src j dst = .ok dst := by
  unfold rowTurn
  rw [int_ok hfit.1, ok_bind]
  by_cases hout : r.dy + j < 0 ∨ r.dy + j ≥ th
  · rw [if_pos hout]
  · obtain ⟨hmul, hplace⟩ := hfit.2 (by omega) (by omega)
    have hscaled : (j * r.sh).tdiv r.dh = j * r.sh / r.dh :=
      Int.tdiv_eq_ediv_of_nonneg (Int.mul_nonneg (by omega) (Int.le_of_lt (Rects.pos hne).2.2.2))
    rw [if_neg hout, int_ok hmul, ok_bind, hscaled, int_ok hplace, ok_bind, if_pos]
    by_contra hsrc
    refine hrow ⟨by omega, by omega, ?_, ?_⟩ <;> unfold Rects.row <;> omega

theorem rowTurn_fits (h : rowTurn r src j dst = .ok dst') :
    PlaceFits r.dy r.dh r.sy r.sh th j := by
  unfold rowTurn at h
  obtain ⟨y, hy, h⟩ := bind_eq_ok.mp h
  obtain ⟨hfy, rfl⟩ := int_eq_ok.mp hy
  refine ⟨hfy, fun hlo hhi => ?_⟩
  rw [if_neg (by omega)] at h
  obtain ⟨m, hm, h⟩ := bind_eq_ok.mp h
  obtain ⟨hfm, rfl⟩ := int_eq_ok.mp hm
  obtain ⟨c, hc, -⟩ := bind_eq_ok.mp h
  rw [Int.tdiv_eq_ediv_of_nonneg
    (Int.mul_nonneg (by omega) (Int.le_of_lt (Rects.pos hne).2.2.2))] at hc
  exact ⟨hfm, (int_eq_ok.mp hc).1⟩

theorem ends_pixels (hrow : RowHit r src th j) (hj : j < r.dh.toNat) :
    Ends (each (pixelTurn r src (r.dy + j) (r.row j)) r.dw.toNat dst) ↔
      AxisFits r.dx r.dw r.sx r.sw tw := by
  have hpos := Rects.pos hne
  rw [axisFits_iff (r.ints _ (by simp)) (r.ints _ (by simp)) hpos.1 hpos.2.2.1]
  refine ends_each fun i s hi => ⟨?_, fun hfit => ?_⟩
  · rintro ⟨s', h⟩
    exact pixelTurn_fits (Int.le_of_lt hpos.2.2.1) h
  · obtain ⟨s', h, -⟩ : ∃ s', pixelTurn r src (r.dy + j) (r.row j) i s = .ok s' ∧
        Drew r src j i s s' := pixelTurn_ok hne hrow hj hi hfit
    exact ⟨s', h⟩

theorem ends_rowTurn (hj : j < r.dh.toNat) :
    Ends (rowTurn r src j dst) ↔ PlaceFits r.dy r.dh r.sy r.sh th j ∧
      (RowHit r src th j → AxisFits r.dx r.dw r.sx r.sw tw) := by
  constructor
  · rintro ⟨dst', h⟩
    have hfit := rowTurn_fits hne h
    refine ⟨hfit, fun hrow => ?_⟩
    rw [rowTurn_hit hne hfit hrow] at h
    exact (ends_pixels hne hrow hj).mp ⟨dst', h⟩
  · rintro ⟨hfit, hcols⟩
    by_cases hrow : RowHit r src th j
    · rw [rowTurn_hit hne hfit hrow]
      exact (ends_pixels hne hrow hj).mpr (hcols hrow)
    · rw [rowTurn_miss hne hfit hrow]
      exact .ok dst

theorem blitPixels_rows : blitPixels r src dst = each (rowTurn r src) r.dh.toNat dst := if_neg hne

omit hne in
theorem blitPixels_empty (hempty : r.Empty) : blitPixels r src dst = .ok dst := if_pos hempty

omit hne in
/-- The blit ends exactly when its rows and columns have room. -/
theorem ends_blitPixels : Ends (blitPixels r src dst) ↔ r.Room src tw th := by
  unfold Rects.Room
  by_cases hempty : r.Empty
  · rw [blitPixels_empty hempty]
    exact ⟨fun _ hne => absurd hempty hne, fun _ => .ok dst⟩
  · have hpos := Rects.pos hempty
    have hrows : Ends (each (rowTurn r src) r.dh.toNat dst) ↔ ∀ j < r.dh.toNat,
        PlaceFits r.dy r.dh r.sy r.sh th j ∧
          (RowHit r src th j → AxisFits r.dx r.dw r.sx r.sw tw) :=
      ends_each fun j s hj => ends_rowTurn hempty hj
    rw [blitPixels_rows hempty, hrows,
      axisFits_iff (r.ints _ (by simp)) (r.ints _ (by simp)) hpos.2.1 hpos.2.2.2]
    constructor
    · refine fun h _ => ⟨fun j hj => (h j hj).1, ?_⟩
      rintro ⟨j, h0, hj, hlo, hhi, hrlo, hrhi⟩
      obtain ⟨k, rfl⟩ := Int.eq_ofNat_of_zero_le h0
      exact (h k (by omega)).2 ⟨hlo, hhi, hrlo, hrhi⟩
    · intro h j hj
      obtain ⟨hrows, hcols⟩ := h hempty
      refine ⟨hrows j hj, fun hrow => hcols ⟨j, by omega, by omega, hrow.lo, hrow.hi, hrow.row_lo,
        hrow.row_hi⟩⟩

/-- What the turns keep from one pixel to the next holds when the blit is over. -/
theorem blit_rule {I : Nat → Nat → Pixels tw th → Prop} (h : blitPixels r src dst = .ok out)
    (start : I 0 0 dst)
    (pixel : ∀ {j i s s'}, j < r.dh.toNat → i < r.dw.toNat → RowHit r src th j → I j i s →
      Drew r src j i s s' → I j (i + 1) s')
    (skip : ∀ {j s}, j < r.dh.toNat → ¬ RowHit r src th j → I j 0 s → I (j + 1) 0 s)
    (next : ∀ {j s}, j < r.dh.toNat → I j r.dw.toNat s → I (j + 1) 0 s) : I r.dh.toNat 0 out := by
  rw [blitPixels_rows hne] at h
  refine each_keeps (I := fun j s => I j 0 s) start (fun {j s s'} hj hs hturn => ?_) h
  have hfit := rowTurn_fits hne hturn
  by_cases hrow : RowHit r src th j
  · rw [rowTurn_hit hne hfit hrow] at hturn
    exact next hj (each_keeps hs
      (fun hi hm hpix => pixel hj hi hrow hm (pixelTurn_drew hne hrow hj hi hpix)) hturn)
  · rw [rowTurn_miss hne hfit hrow] at hturn
    cases hturn
    exact skip hj hrow hs

end

end WineGlass.Gdi
