import WineGlass.Gdi.Objects
import WineGlass.Lib.Bits

/-!
# Stretched blits

`blit_pixels` of `wg_win32_gdi.c`, from one buffer to another or within one, pixel by pixel.
`Rects.Room` says for which rectangles no `int` overflows, and `Rects.Calm` when a blit within
one buffer reads nothing that it has written.
-/

namespace WineGlass.Gdi

open Faults Grids

-- ---------------------------------------------------------------------------
-- The code
-- ---------------------------------------------------------------------------

/-- The `int`s of a call. -/
structure Rects where
  dx : Int
  dy : Int
  dw : Int
  dh : Int
  sx : Int
  sy : Int
  sw : Int
  sh : Int
  ints : ∀ v ∈ [dx, dy, dw, dh, sx, sy, sw, sh], Fits v

/-- The buffer that `src` points to: another one, or the target itself. -/
inductive Source
  | image (w h : Nat) (px : Pixels w h)
  | own

def Source.w (tw : Nat) : Source → Nat
  | .image w _ _ => w
  | .own => tw

def Source.h (th : Nat) : Source → Nat
  | .image _ h _ => h
  | .own => th

variable {tw th : Nat}

/-- `src[ssy * src_w + ssx]`, the index a `size_t` -/
def Source.fetch (src : Source) (dst : Pixels tw th) (x y : Int) : Faulty U32 :=
  match src with
  | .image w _ px => get px (cell w x.toNat y.toNat)
  | .own => get dst (cell tw x.toNat y.toNat)

/-- The source over the target where it is neither opaque nor transparent. -/
def mix (s d : U32) : U32 :=
  let a := s >>> 24 &&& 0xFF#32
  let sr := s &&& 0xFF#32
  let sg := s >>> 8 &&& 0xFF#32
  let sb := s >>> 16 &&& 0xFF#32
  let dr := d &&& 0xFF#32
  let dg := d >>> 8 &&& 0xFF#32
  let db := d >>> 16 &&& 0xFF#32
  let r := (sr * a + dr * (255#32 - a)) / 255#32
  let g := (sg * a + dg * (255#32 - a)) / 255#32
  let b := (sb * a + db * (255#32 - a)) / 255#32
  r ||| g <<< 8 ||| b <<< 16 ||| 0xFF#32 <<< 24

/-- The inner loop's body after the bounds have been checked. -/
def drawPixel (dst : Pixels tw th) (ddx ddy : Int) (s : U32) : Faulty (Pixels tw th) :=
  let a := s >>> 24 &&& 0xFF#32
  if a = 0xFF#32 then put dst (cell tw ddx.toNat ddy.toNat) s
  else if a ≠ 0#32 then do
    let d ← get dst (cell tw ddx.toNat ddy.toNat)
    put dst (cell tw ddx.toNat ddy.toNat) (mix s d)
  else .ok dst

def pixelTurn (r : Rects) (src : Source) (ddy ssy : Int) (i : Nat) (dst : Pixels tw th) :
    Faulty (Pixels tw th) := do
  let ddx ← int (r.dx + i)
  if ddx < 0 ∨ ddx ≥ tw then .ok dst
  else
    let scaled ← int (i * r.sw)
    let ssx ← int (r.sx + scaled.tdiv r.dw)
    if ssx < 0 ∨ ssx ≥ src.w tw then .ok dst
    else
      let s ← src.fetch dst ssx ssy
      drawPixel dst ddx ddy s

def rowTurn (r : Rects) (src : Source) (j : Nat) (dst : Pixels tw th) : Faulty (Pixels tw th) := do
  let ddy ← int (r.dy + j)
  if ddy < 0 ∨ ddy ≥ th then .ok dst
  else
    let scaled ← int (j * r.sh)
    let ssy ← int (r.sy + scaled.tdiv r.dh)
    if ssy < 0 ∨ ssy ≥ src.h th then .ok dst
    else each (pixelTurn r src ddy ssy) r.dw.toNat dst

/-- `blit_pixels`, when there is a source and a target -/
def blitPixels (r : Rects) (src : Source) (dst : Pixels tw th) : Faulty (Pixels tw th) :=
  if r.dw ≤ 0 ∨ r.dh ≤ 0 ∨ r.sw ≤ 0 ∨ r.sh ≤ 0 then .ok dst
  else each (rowTurn r src) r.dh.toNat dst

-- ---------------------------------------------------------------------------
-- What a blit is
-- ---------------------------------------------------------------------------

/-- Channel `k` of a pixel: red, green, blue and alpha. -/
def channel (k : Nat) (p : U32) : Nat := p.toNat / 256 ^ k % 256

/-- Straight alpha, rounded down, on an opaque result. -/
structure Composite (s d p : U32) : Prop where
  opaque_ : channel 3 s = 255 → p = s
  clear : channel 3 s = 0 → p = d
  blend : 0 < channel 3 s → channel 3 s < 255 → channel 3 p = 255 ∧ ∀ k < 3,
    channel k p = (channel k s * channel 3 s + channel k d * (255 - channel 3 s)) / 255

/-- The nearest neighbours of column `i` and row `j` of the destination. -/
def Rects.col (r : Rects) (i : Int) : Int := r.sx + i * r.sw / r.dw
def Rects.row (r : Rects) (j : Int) : Int := r.sy + j * r.sh / r.dh

/-- Nothing is to be drawn. -/
def Rects.Empty (r : Rects) : Prop := r.dw ≤ 0 ∨ r.dh ≤ 0 ∨ r.sw ≤ 0 ∨ r.sh ≤ 0

/-- What the source holds before the blit. -/
def Source.seen (src : Source) (dst : Pixels tw th) (x y : Int) : Option U32 :=
  match src with
  | .image _ _ px => look px x y
  | .own => look dst x y

/-- The target's pixel is in the destination, and its neighbour in the source. -/
structure Rects.Hits (r : Rects) (src : Source) (tw th : Nat) (x y : Int) : Prop where
  some_ : ¬ r.Empty
  target : Inside tw th x y
  column : r.dx ≤ x ∧ x < r.dx + r.dw
  line : r.dy ≤ y ∧ y < r.dy + r.dh
  source : Inside (src.w tw) (src.h th) (r.col (x - r.dx)) (r.row (y - r.dy))

/-- Every pixel that is hit is composited with its neighbour, and all others stay. -/
def Blitted (r : Rects) (src : Source) (dst out : Pixels tw th) : Prop :=
  ∀ x y, (r.Hits src tw th x y → ∃ s d p, src.seen dst (r.col (x - r.dx)) (r.row (y - r.dy)) = some s ∧
      look dst x y = some d ∧ look out x y = some p ∧ Composite s d p) ∧
    (¬ r.Hits src tw th x y → look out x y = look dst x y)

/-- After a blit that does not scale, what was opaque in the source is in the target. -/
def ReadsBack (r : Rects) (src : Source) (dst out : Pixels tw th) : Prop :=
  r.sw = r.dw → r.sh = r.dh → ∀ i j s, r.Hits src tw th (r.dx + i) (r.dy + j) →
    src.seen dst (r.sx + i) (r.sy + j) = some s → channel 3 s = 255 →
      look out (r.dx + i) (r.dy + j) = some s

/-- The blit ends without a fault and has drawn what it should. -/
def Blits (r : Rects) (src : Source) (dst : Pixels tw th) : Prop :=
  ∃ out, blitPixels r src dst = .ok out ∧ Blitted r src dst out ∧ ReadsBack r src dst out

/-- Along one axis: `n` places from `o` on in a target of `t`, scaled from `m` places from `p` on. -/
def AxisFits (o n p m t : Int) : Prop :=
  let last := min n (t - o) - 1
  o + n ≤ 2 ^ 31 ∧ (max 0 (-o) ≤ last → last * m < 2 ^ 31 ∧ p + last * m / n < 2 ^ 31)

/-- The rows fit, and the columns if some row is drawn. -/
def Rects.Room (r : Rects) (src : Source) (tw th : Nat) : Prop :=
  ¬ r.Empty → AxisFits r.dy r.dh r.sy r.sh th ∧
    ((∃ j, 0 ≤ j ∧ j < r.dh ∧ 0 ≤ r.dy + j ∧ r.dy + j < th ∧ 0 ≤ r.row j ∧ r.row j < src.h th) →
      AxisFits r.dx r.dw r.sx r.sw tw)

/-- In the order of rows and columns. -/
def Before (x y x' y' : Int) : Prop := y < y' ∨ y = y' ∧ x < x'

/-- Within one buffer, the neighbour of a pixel was not drawn before. -/
def Rects.CalmAt (r : Rects) (tw th : Nat) (x y : Int) : Prop :=
  ∀ x' y', r.Hits .own tw th x' y' → Before x' y' x y →
    ¬ (x' = r.col (x - r.dx) ∧ y' = r.row (y - r.dy))

/-- A blit within one buffer reads nothing that it has drawn. -/
def Rects.Calm (r : Rects) (tw th : Nat) : Prop :=
  ∀ x y, r.Hits .own tw th x y → r.CalmAt tw th x y

-- ---------------------------------------------------------------------------
-- Compositing
-- ---------------------------------------------------------------------------

/-- A pixel drawn over another. -/
def drawOver (s d : U32) : U32 :=
  if channel 3 s = 255 then s else if channel 3 s = 0 then d else mix s d

theorem channel_lt (k : Nat) (p : U32) : channel k p < 256 := Nat.mod_lt _ (by decide)

theorem channel_shift (k : Nat) (p : U32) : (p >>> (8 * k) &&& 0xFF#32).toNat = channel k p := by
  unfold channel
  rw [BitVec.toNat_and, BitVec.toNat_ushiftRight, Nat.shiftRight_eq_div_pow, pow_mul]
  exact Nat.and_two_pow_sub_one_eq_mod _ 8

/-- Four bytes side by side. -/
theorem toNat_bytes {r g b a : U32} (hr : r.toNat < 256) (hg : g.toNat < 256) (hb : b.toNat < 256)
    (ha : a.toNat < 256) : (r ||| g <<< 8 ||| b <<< 16 ||| a <<< 24).toNat =
      r.toNat + 256 * g.toNat + 65536 * b.toNat + 16777216 * a.toNat := by
  have h1 := Bits.toNat_or_shift (i := 8) (y := g) (show r.toNat < 2 ^ 8 by omega) (by omega)
  have h2 := Bits.toNat_or_shift (i := 16) (y := b) (show (r ||| g <<< 8).toNat < 2 ^ 16 by omega)
    (by omega)
  have h3 := Bits.toNat_or_shift (i := 24) (y := a)
    (show (r ||| g <<< 8 ||| b <<< 16).toNat < 2 ^ 24 by omega) (by omega)
  omega

/-- Channel `k` of `mix`. -/
def blend (s d : U32) (k : Nat) : U32 :=
  ((s >>> (8 * k) &&& 0xFF#32) * (s >>> 24 &&& 0xFF#32) +
    (d >>> (8 * k) &&& 0xFF#32) * (255#32 - (s >>> 24 &&& 0xFF#32))) / 255#32

theorem mix_eq (s d : U32) :
    mix s d = blend s d 0 ||| blend s d 1 <<< 8 ||| blend s d 2 <<< 16 ||| 0xFF#32 <<< 24 := by
  simp [mix, blend]

theorem toNat_blend (s d : U32) (k : Nat) :
    (blend s d k).toNat =
      (channel k s * channel 3 s + channel k d * (255 - channel 3 s)) / 255 ∧
    (channel k s * channel 3 s + channel k d * (255 - channel 3 s)) / 255 < 256 := by
  have hs := channel_lt k s
  have hd := channel_lt k d
  have ha := channel_lt 3 s
  have halpha : (s >>> 24 &&& 0xFF#32).toNat = channel 3 s := channel_shift 3 s
  have hsub : (255#32 - (s >>> 24 &&& 0xFF#32)).toNat = 255 - channel 3 s := by
    rw [BitVec.toNat_sub_of_le (by bv_omega), halpha]
    rfl
  have hsa : channel k s * channel 3 s ≤ 255 * channel 3 s := Nat.mul_le_mul_right _ (by omega)
  have hda : channel k d * (255 - channel 3 s) ≤ 255 * (255 - channel 3 s) :=
    Nat.mul_le_mul_right _ (by omega)
  have h255 : (255#32).toNat = 255 := rfl
  unfold blend
  rw [BitVec.toNat_udiv, BitVec.toNat_add, BitVec.toNat_mul, BitVec.toNat_mul, hsub, h255, halpha,
    channel_shift, channel_shift]
  omega

theorem channel_mix (s d : U32) : channel 3 (mix s d) = 255 ∧ ∀ k < 3,
    channel k (mix s d) = (channel k s * channel 3 s + channel k d * (255 - channel 3 s)) / 255 := by
  obtain ⟨h0, hlt0⟩ := toNat_blend s d 0
  obtain ⟨h1, hlt1⟩ := toNat_blend s d 1
  obtain ⟨h2, hlt2⟩ := toNat_blend s d 2
  have hmix := toNat_bytes (a := 0xFF#32) (h0 ▸ hlt0) (h1 ▸ hlt1) (h2 ▸ hlt2) (by decide)
  rw [← mix_eq, h0, h1, h2] at hmix
  have hbyte (k : Nat) : channel k (mix s d) = (mix s d).toNat / 256 ^ k % 256 := rfl
  have h255 : (255#32).toNat = 255 := rfl
  rw [h255] at hmix
  constructor
  · rw [hbyte, hmix]
    omega
  · intro k hk
    rw [hbyte, hmix]
    match k, hk with
    | 0, _ => omega
    | 1, _ => omega
    | 2, _ => omega

theorem over_composite (s d : U32) : Composite s d (drawOver s d) where
  opaque_ h := if_pos h
  clear h := by
    unfold drawOver
    rw [if_neg (by omega), if_pos h]
  blend h0 h255 := by
    unfold drawOver
    rw [if_neg (by omega), if_neg (by omega)]
    exact channel_mix s d

end WineGlass.Gdi
