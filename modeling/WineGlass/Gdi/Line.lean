import WineGlass.Gdi.Objects
import WineGlass.Lib.Bresenham

/-!
# Lines

`wg_gdi_line_to` of `wg_win32_gdi.c`, whose loop ends when the last point is reached. `Traces`
says what a line from one point to another passes, and `LineFits` for which ends no `int`
of the function overflows.
-/

namespace WineGlass.Gdi

open Faults Grids Tables Bresenham

abbrev Point := Int × Int

-- ---------------------------------------------------------------------------
-- The code
-- ---------------------------------------------------------------------------

def putPx {w h : Nat} (fb : Pixels w h) (x y : Int) (rgba : U32) : Faulty (Pixels w h) :=
  if x < 0 ∨ y < 0 ∨ x ≥ w ∨ y ≥ h then .ok fb
  else do
    let row ← int (y * w)
    let at_ ← int (row + x)
    put fb at_.toNat rgba

/-- What `wg_gdi_line_to` computes before its loop. -/
structure Line where
  x1 : Int
  y1 : Int
  adx : Int
  ady : Int
  sx : Int
  sy : Int
  err : Int

/-- `d < 0 ? -d : d` -/
def magnitude (d : Int) : Faulty Int := if d < 0 then int (-d) else .ok d

def line (x0 y0 x1 y1 : Int) : Faulty Line := do
  let dx ← int (x1 - x0)
  let dy ← int (y1 - y0)
  let adx ← magnitude dx
  let ady ← magnitude dy
  .ok
    { x1, y1, adx, ady
      sx := if dx < 0 then -1 else 1
      sy := if dy < 0 then -1 else 1
      err := (if adx > ady then adx else -ady).tdiv 2 }

@[ext] structure Pen where
  x0 : Int
  y0 : Int
  err : Int

/-- `if (e2 > -adx)`; `adx` is not negative, so its opposite is an `int`. -/
def Line.alongX (l : Line) (e2 : Int) (p : Pen) : Faulty Pen :=
  if e2 > -l.adx then do
    let err ← int (p.err - l.ady)
    let x0 ← int (p.x0 + l.sx)
    .ok { p with err, x0 }
  else .ok p

/-- `if (e2 < ady)` -/
def Line.alongY (l : Line) (e2 : Int) (p : Pen) : Faulty Pen :=
  if e2 < l.ady then do
    let err ← int (p.err + l.adx)
    let y0 ← int (p.y0 + l.sy)
    .ok { p with err, y0 }
  else .ok p

def Line.turn (l : Line) (p : Pen) : Faulty Pen := do
  let q ← l.alongX p.err p
  l.alongY p.err q

/-- The loop, for as many turns as there is fuel, and the points it passes. -/
def Line.loop {w h : Nat} (l : Line) (rgba : U32) :
    Nat → Pen → Pixels w h → Faulty (Option (List Point × Pixels w h))
  | 0, _, _ => .ok none
  | fuel + 1, p, fb => do
    let fb ← putPx fb p.x0 p.y0 rgba
    if p.x0 = l.x1 ∧ p.y0 = l.y1 then .ok (some ([(p.x0, p.y0)], fb))
    else
      let q ← l.turn p
      let r ← l.loop rgba fuel q fb
      .ok (r.map fun r => ((p.x0, p.y0) :: r.1, r.2))

/-- `wg_gdi_line_to` -/
def Desktop.lineTo (room : Nat → Bool) (fuel : Nat) (g : Desktop) (hdc : U32) (x y : Int32) :
    Faulty (Option (List Point × Desktop)) :=
  match g.findDc hdc with
  | none => .ok (some ([], g))
  | some dc => do
    match ← g.getClient room dc.hwnd with
    | (none, g) => .ok (some ([], g))
    | (some c, g) =>
      let l ← line dc.curX.toInt dc.curY.toInt x.toInt y.toInt
      let r ← l.loop (rgbaOf dc.textColor) fuel ⟨dc.curX.toInt, dc.curY.toInt, l.err⟩ c.px
      .ok (r.map fun r => (r.1, (g.moveTo hdc x y).paint dc.hwnd { c with px := r.2 }))

-- ---------------------------------------------------------------------------
-- What a line is
-- ---------------------------------------------------------------------------

def lineLength (p q : Point) : Nat := max (q.1 - p.1).natAbs (q.2 - p.2).natAbs

/-- A step to one of the eight neighbours, or none. -/
def Beside (p q : Point) : Prop := |q.1 - p.1| ≤ 1 ∧ |q.2 - p.2| ≤ 1

/-- Along the shorter axis `r` is at most half a pixel from the line through `p` and `q`: the
distance times the longer axis is the cross product. -/
def Near (p q r : Point) : Prop :=
  2 * |(r.2 - p.2) * (q.1 - p.1) - (r.1 - p.1) * (q.2 - p.2)| ≤ lineLength p q

/-- The points of a line from `p` to `q`. -/
structure Traces (p q : Point) (pts : List Point) : Prop where
  count : pts.length = lineLength p q + 1
  first : pts.head? = some p
  last : pts.getLast? = some q
  close : pts.IsChain Beside
  near : ∀ r ∈ pts, Near p q r

/-- The points have the colour, and all others what they had. -/
def Drawn {w h : Nat} (fb fb' : Pixels w h) (pts : List Point) (rgba : U32) : Prop :=
  ∀ x y, look fb' x y = if (x, y) ∈ pts ∧ Inside w h x y then some rgba else look fb x y

/-- A line was drawn from where the context was, if there is a framebuffer to draw on. -/
def Shows (room : Nat → Bool) (g : Desktop) (dc : Dc) (hdc : U32) (x y : Int32)
    (pts : List Point) (g' : Desktop) : Prop :=
  ∀ c g₁, g.getClient room dc.hwnd = .ok (c, g₁) →
    match c with
    | none => pts = [] ∧ g' = g₁
    | some c =>
      Traces (dc.curX.toInt, dc.curY.toInt) (x.toInt, y.toInt) pts ∧
        ∃ px, Drawn c.px px pts (rgbaOf dc.textColor) ∧
          g' = (g₁.moveTo hdc x y).paint dc.hwnd { c with px }

/-- The call ends, and a line was drawn if there is something to draw on. -/
def Draws (room : Nat → Bool) (g : Desktop) (hdc : U32) (x y : Int32) : Prop :=
  ∃ fuel pts g', g.lineTo room fuel hdc x y = .ok (some (pts, g')) ∧
    match g.findDc hdc with
    | none => pts = [] ∧ g' = g
    | some dc => Shows room g dc hdc x y pts g'

/-- Where the second axis moves, the error term of a line that is longer in `y` leaves room for
both lengths. -/
def LineFits (x0 y0 x1 y1 : Int) : Prop :=
  let b := (x1 - x0).natAbs
  let a := (y1 - y0).natAbs
  b < 2 ^ 31 ∧ a < 2 ^ 31 ∧ (0 < b → b ≤ a → a + crest a b ≤ 2 ^ 31)

instance (x0 y0 x1 y1 : Int) : Decidable (LineFits x0 y0 x1 y1) :=
  inferInstanceAs (Decidable (_ ∧ _))

/-- When there is a framebuffer, or room for one, its size is an `int` and the line fits. -/
def CanDraw (room : Nat → Bool) (g : Desktop) (hdc : U32) (x y : Int32) : Prop :=
  ∀ dc, g.findDc hdc = some dc → ∀ w, g.wmFind dc.hwnd = some w →
    w.client.isSome ∨ room (w.clientW.toNat * w.clientH.toNat * 4) →
      (w.client = none → Fits (w.clientW.toNat * w.clientH.toNat)) ∧
        LineFits dc.curX.toInt dc.curY.toInt x.toInt y.toInt

-- ---------------------------------------------------------------------------
-- Single pixels
-- ---------------------------------------------------------------------------

theorem putPx_ok {w h : Nat} (hfit : Fits (w * h)) (fb : Pixels w h) (x y : Int) (rgba : U32) :
    ∃ fb', putPx fb x y rgba = .ok fb' ∧ Drawn fb fb' [(x, y)] rgba := by
  by_cases hin : Inside w h x y
  · obtain ⟨i, j, rfl, rfl, hi, hj⟩ := hin.nat
    have hlt : (cell w i j : Int) < w * h := by exact_mod_cast cell_lt hi hj
    have hcell : (j * w + i : Int) = cell w i j := by
      unfold cell
      push_cast
      rfl
    have hrow : (0 : Int) ≤ j * w := by positivity
    rw [fits_iff] at hfit
    refine ⟨fb.set (cell w i j) rgba (cell_lt hi hj), ?_, ?_⟩
    · unfold putPx
      rw [if_neg (by omega), int_ok (fits_iff.mpr (by omega)), ok_bind, hcell,
        int_ok (fits_iff.mpr (by omega)), ok_bind, Int.toNat_natCast, put_ok]
    · intro x y
      rw [look_set hi hj]
      by_cases heq : x = i ∧ y = j
      · obtain ⟨rfl, rfl⟩ := heq
        simp [hin]
      · rw [if_neg heq, if_neg]
        rintro ⟨hmem, -⟩
        exact heq (by simpa using hmem)
  · refine ⟨fb, ?_, ?_⟩
    · unfold putPx
      rw [if_pos]
      unfold Inside at hin
      omega
    · intro i j
      rw [if_neg]
      rintro ⟨hmem, hij⟩
      obtain ⟨rfl, rfl⟩ : i = x ∧ j = y := by simpa using hmem
      exact hin hij

theorem Drawn.trans {w h : Nat} {fb fb₁ fb₂ : Pixels w h} (h₁ : Drawn fb fb₁ [p] rgba)
    (h₂ : Drawn fb₁ fb₂ pts rgba) : Drawn fb fb₂ (p :: pts) rgba := by
  intro x y
  rw [h₂ x y, h₁ x y]
  by_cases hin : Inside w h x y <;> by_cases hmem : (x, y) ∈ pts <;> simp [hin, hmem]

-- ---------------------------------------------------------------------------
-- Single turns
-- ---------------------------------------------------------------------------

section

variable {l : Line} {p : Pen}

theorem Line.alongX_moves (h : -l.adx < e2) (herr : Fits (p.err - l.ady))
    (hx : Fits (p.x0 + l.sx)) :
    l.alongX e2 p = .ok { p with err := p.err - l.ady, x0 := p.x0 + l.sx } := by
  unfold Line.alongX
  rw [if_pos h, int_ok herr, ok_bind, int_ok hx, ok_bind]

theorem Line.alongX_stays (h : e2 ≤ -l.adx) : l.alongX e2 p = .ok p :=
  if_neg (Int.not_lt.mpr h)

theorem Line.alongX_overflow (h : -l.adx < e2) (herr : ¬ Fits (p.err - l.ady)) :
    l.alongX e2 p = .error .overflow := by
  unfold Line.alongX
  rw [if_pos h, int_error herr, error_bind]

theorem Line.alongY_moves (h : e2 < l.ady) (herr : Fits (p.err + l.adx))
    (hy : Fits (p.y0 + l.sy)) :
    l.alongY e2 p = .ok { p with err := p.err + l.adx, y0 := p.y0 + l.sy } := by
  unfold Line.alongY
  rw [if_pos h, int_ok herr, ok_bind, int_ok hy, ok_bind]

theorem Line.alongY_stays (h : l.ady ≤ e2) : l.alongY e2 p = .ok p :=
  if_neg (Int.not_lt.mpr h)

end

-- ---------------------------------------------------------------------------
-- Coordinates along an axis
-- ---------------------------------------------------------------------------

def sign (d : Int) : Int := if d < 0 then -1 else 1

/-- `j` steps from `x0` towards `x1`. -/
def go (x0 x1 : Int) (j : Nat) : Int := x0 + sign (x1 - x0) * j

theorem sign_cases (d : Int) : sign d = 1 ∧ 0 ≤ d ∨ sign d = -1 ∧ d < 0 := by
  unfold sign
  split <;> simp <;> omega

theorem go_zero : go x0 x1 0 = x0 := by simp [go]

theorem go_step (x0 x1 : Int) (j : Nat) : go x0 x1 j + sign (x1 - x0) = go x0 x1 (j + 1) := by
  unfold go
  push_cast
  ring

theorem go_end (x0 x1 : Int) : go x0 x1 (x1 - x0).natAbs = x1 := by
  unfold go
  rcases sign_cases (x1 - x0) with ⟨hs, hd⟩ | ⟨hs, hd⟩ <;> rw [hs] <;> omega

theorem go_ne (hj : j < (x1 - x0).natAbs) : go x0 x1 j ≠ x1 := by
  unfold go
  rcases sign_cases (x1 - x0) with ⟨hs, hd⟩ | ⟨hs, hd⟩ <;> rw [hs] <;> omega

theorem go_fits (h0 : Fits x0) (h1 : Fits x1) (hj : j ≤ (x1 - x0).natAbs) : Fits (go x0 x1 j) := by
  rw [fits_iff] at h0 h1 ⊢
  unfold go
  rcases sign_cases (x1 - x0) with ⟨hs, hd⟩ | ⟨hs, hd⟩ <;> rw [hs] <;> omega

theorem go_beside (x0 x1 : Int) (i : Nat) (hj : j = i ∨ j = i + 1) :
    |go x0 x1 j - go x0 x1 i| ≤ 1 := by
  unfold go
  rw [abs_le]
  rcases sign_cases (x1 - x0) with ⟨hs, -⟩ | ⟨hs, -⟩ <;> rw [hs] <;> omega

end WineGlass.Gdi
