import WineGlass.Gdi.DibLaw

/-!
# Bitmap files of a picture

`Bmp.encode` is the uncompressed file of a picture, of 8, 24 or 32 bits, with its rows from the
top or from the bottom. Decoding it gives the picture back; `decode_dib` takes alpha 0 for opaque.
-/

namespace WineGlass.Gdi

open Faults Grids

/-- Byte `k` of a word: red, green, blue and alpha of a pixel. -/
def lane (k : Nat) (v : U32) : Byte := (v >>> (8 * k)).setWidth 8

-- ---------------------------------------------------------------------------
-- Encoding
-- ---------------------------------------------------------------------------

/-- Bits a pixel; eight go through a palette. -/
inductive Depth
  | eight (pal : List U32) (small : pal.length ≤ 256)
  | twentyfour
  | thirtytwo

def Depth.bpp : Depth → BitVec 16
  | .eight .. => 8#16
  | .twentyfour => 24#16
  | .thirtytwo => 32#16

def Depth.bytes : Depth → Nat
  | .eight .. => 1
  | .twentyfour => 3
  | .thirtytwo => 4

def Depth.palette : Depth → List U32
  | .eight pal _ => pal
  | _ => []

/-- What pixels a depth can hold. -/
def Depth.Holds (p : U32) : Depth → Prop
  | .eight pal _ => p ∈ pal ∧ lane 3 p = 0xFF#8
  | .twentyfour => lane 3 p = 0xFF#8
  | .thirtytwo => True

structure Bmp where
  w : Nat
  h : Nat
  px : Pixels w h
  depth : Depth
  topDown : Bool
  wide : 0 < w ∧ w ≤ 16384
  high : 0 < h ∧ h ≤ 16384
  holds : ∀ p ∈ px, depth.Holds p

def Bmp.off (b : Bmp) : Nat := 54 + 4 * b.depth.palette.length

/-- Rows are padded to four bytes. -/
def Bmp.stride (b : Bmp) : Nat := (b.w * b.depth.bytes + 3) / 4 * 4

def Bmp.size (b : Bmp) : Nat := b.off + b.stride * b.h

def le32 (v : U32) : List Byte := [lane 0 v, lane 1 v, lane 2 v, lane 3 v]

/-- A height below zero for rows from the top. -/
def Bmp.height (b : Bmp) : Int := if b.topDown then -(b.h : Int) else b.h

/-- The headers behind `BM`, by words; the planes and the bits a pixel share one. -/
def Bmp.words (b : Bmp) : List U32 :=
  [.ofNat 32 b.size, 0, .ofNat 32 b.off,
    40, .ofNat 32 b.w, .ofInt 32 b.height, 1#32 ||| b.depth.bpp.setWidth 32 <<< 16, 0,
    .ofNat 32 (b.stride * b.h), 0, 0, .ofNat 32 b.depth.palette.length, 0]

def Bmp.header (b : Bmp) : List Byte := 0x42 :: 0x4D :: b.words.flatMap le32

/-- Blue, green and red come before alpha. -/
def bgra (c : Nat) (p : U32) : Byte :=
  match c with
  | 0 => lane 2 p
  | 1 => lane 1 p
  | 2 => lane 0 p
  | _ => lane 3 p

def Depth.pixelByte (d : Depth) (p : U32) (c : Nat) : Byte :=
  match d with
  | .eight pal _ => .ofNat 8 (pal.idxOf p)
  | _ => bgra c p

/-- The picture's row that is row `y` of the file. -/
def Bmp.row (b : Bmp) (y : Nat) : Nat := if b.topDown then y else b.h - 1 - y

def Bmp.rowByte (b : Bmp) (y c : Nat) : Byte :=
  match b.px[cell b.w (c / b.depth.bytes) (b.row y)]? with
  | some p => if c / b.depth.bytes < b.w then b.depth.pixelByte p (c % b.depth.bytes) else 0
  | none => 0

def Bmp.byte (b : Bmp) (i : Nat) : Byte :=
  if i < 54 then b.header.getD i 0
  else if i < b.off then bgra ((i - 54) % 4) (b.depth.palette.getD ((i - 54) / 4) 0)
  else b.rowByte ((i - b.off) / b.stride) ((i - b.off) % b.stride)

def Bmp.encode (b : Bmp) : Vector Byte b.size := Vector.ofFn fun i => b.byte i

/-- Alpha 0 taken for opaque. -/
def repair (p : U32) : U32 := if lane 3 p = 0#8 then p ||| 0xFF#32 <<< 24 else p

-- ---------------------------------------------------------------------------
-- Words and their bytes
-- ---------------------------------------------------------------------------

theorem toNat_lane (k : Nat) (v : U32) : (lane k v).toNat = channel k v := by
  unfold lane channel
  rw [BitVec.toNat_setWidth, BitVec.toNat_ushiftRight, Nat.shiftRight_eq_div_pow, pow_mul]
  rfl

theorem toNat_pack (r g b a : Byte) : (pack r g b a).toNat =
    r.toNat + 256 * g.toNat + 65536 * b.toNat + 16777216 * a.toNat := by
  have hsmall (x : Byte) : (x.setWidth 32).toNat = x.toNat := by
    have hx := x.isLt
    rw [BitVec.toNat_setWidth]
    omega
  have h := toNat_bytes (r := r.setWidth 32) (g := g.setWidth 32) (b := b.setWidth 32)
    (a := a.setWidth 32) (by rw [hsmall]; exact r.isLt) (by rw [hsmall]; exact g.isLt)
    (by rw [hsmall]; exact b.isLt) (by rw [hsmall]; exact a.isLt)
  rw [hsmall, hsmall, hsmall, hsmall] at h
  exact h

theorem pack_lanes (v : U32) : pack (lane 0 v) (lane 1 v) (lane 2 v) (lane 3 v) = v := by
  have hv := v.isLt
  apply BitVec.eq_of_toNat_eq
  rw [toNat_pack, toNat_lane, toNat_lane, toNat_lane, toNat_lane]
  unfold channel
  omega

theorem lane_pack (r g b a : Byte) : lane 3 (pack r g b a) = a := by
  have hr := r.isLt
  have hg := g.isLt
  have hb := b.isLt
  have ha := a.isLt
  apply BitVec.eq_of_toNat_eq
  rw [toNat_lane, channel, toNat_pack]
  omega

/-- A pixel with another alpha. -/
theorem pack_repair (p : U32) :
    pack (lane 0 p) (lane 1 p) (lane 2 p) (if lane 3 p ≠ 0#8 then lane 3 p else 0xFF#8) =
      repair p := by
  unfold repair
  by_cases h : lane 3 p = 0#8
  · rw [if_neg (not_not_intro h), if_pos h]
    have hp := p.isLt
    have h0 : channel 3 p = 0 := by rw [← toNat_lane, h]; rfl
    have hlow : p.toNat < 2 ^ 24 := by
      unfold channel at h0
      omega
    apply BitVec.eq_of_toNat_eq
    rw [toNat_pack, toNat_lane, toNat_lane, toNat_lane, Bits.toNat_or_shift hlow (by decide)]
    unfold channel
    have h255 : (255#32).toNat = 255 := rfl
    have h255' : (255#8).toNat = 255 := rfl
    omega
  · rw [if_pos h, if_neg h, pack_lanes]

end WineGlass.Gdi
