import WineGlass.Gdi.Blit

/-!
# Bitmap files

`decode_dib` and `wg_bitmap_from_bmp_memory` of `wg_win32_bitmap.c`. Every byte is read from the
file's buffer, so a read that leaves it is a fault, as is the opposite of the least height.
-/

namespace WineGlass.Gdi

open Faults Grids

abbrev Byte := BitVec 8

/-- The table of bitmaps and the next handle. -/
structure Bitmaps where
  slots : List (Option Bitmap)
  next : U32

-- ---------------------------------------------------------------------------
-- The table
-- ---------------------------------------------------------------------------

/-- `find` -/
def Bitmaps.find (t : Bitmaps) (h : U32) : Option Bitmap := (t.slots.find? (Bitmap.is h)).join

/-- `alloc_slot`, the slot's index and its bitmap; `room` tells whether `calloc` has that many
bytes. -/
def Bitmaps.allocSlot (room : Nat → Bool) (t : Bitmaps) (w h : Int) : Option (Nat × Bitmap) :=
  if w ≤ 0 ∨ h ≤ 0 ∨ w > 16384 ∨ h > 16384 then none
  else
    match t.slots.findIdx? Option.isNone with
    | none => none
    | some i =>
      if room (w.toNat * h.toNat * 4) then
        some (i, { handle := t.next, w := w.toNat, h := h.toNat, px := Vector.replicate _ 0#32 })
      else none

/-- The table once a slot was taken and its pixels were written. -/
def Bitmaps.fill (t : Bitmaps) (i : Nat) (b : Bitmap) : Bitmaps :=
  { slots := t.slots.set i (some b), next := t.next + 1 }

-- ---------------------------------------------------------------------------
-- The decoder
-- ---------------------------------------------------------------------------

section

variable {n m : Nat}

def rd16 (d : Vector Byte n) (p : Nat) : Faulty (BitVec 16) := do
  let b0 ← get d p
  let b1 ← get d (p + 1)
  .ok (b0.setWidth 16 ||| b1.setWidth 16 <<< 8)

def rd32 (d : Vector Byte n) (p : Nat) : Faulty U32 := do
  let b0 ← get d p
  let b1 ← get d (p + 1)
  let b2 ← get d (p + 2)
  let b3 ← get d (p + 3)
  .ok (b0.setWidth 32 ||| b1.setWidth 32 <<< 8 ||| b2.setWidth 32 <<< 16 ||| b3.setWidth 32 <<< 24)

def pack (r g b a : Byte) : U32 :=
  r.setWidth 32 ||| g.setWidth 32 <<< 8 ||| b.setWidth 32 <<< 16 ||| a.setWidth 32 <<< 24

/-- The fields of the info header that are looked at. -/
structure Info where
  biSize : U32
  biW : Int
  biH : Int
  biBpp : BitVec 16
  biComp : U32
  biClrUsed : U32

def readInfo (d : Vector Byte n) (bih : Nat) : Faulty Info := do
  let biSize ← rd32 d (bih + 0)
  let biW ← rd32 d (bih + 4)
  let biH ← rd32 d (bih + 8)
  let biBpp ← rd16 d (bih + 14)
  let biComp ← rd32 d (bih + 16)
  let biClrUsed ← rd32 d (bih + 32)
  .ok { biSize, biW := biW.toInt, biH := biH.toInt, biBpp, biComp, biClrUsed }

def Info.topDown (i : Info) : Bool := i.biH < 0

def Info.height (i : Info) : Faulty Int := if i.topDown then int (-i.biH) else .ok i.biH

def Info.palN (i : Info) : Nat :=
  if i.biClrUsed ≠ 0#32 then i.biClrUsed.toNat
  else if i.biBpp.toNat ≤ 8 then 2 ^ i.biBpp.toNat else 0

/-- Rows are padded to four bytes. -/
def Info.stride (i : Info) : Nat := (i.biW.toNat * (i.biBpp.toNat / 8) + 3) / 4 * 4

/-- The inner loop's body: the pixel in column `x` of the row at `row`. The palette lies in the
buffer of the header. -/
def pixelAt (head : Vector Byte n) (body : Vector Byte m) (i : Info) (pal row x : Nat) :
    Faulty U32 :=
  if i.biBpp = 8#16 then do
    let idx ← get body (row + x)
    if idx.toNat < i.palN then
      let pe := pal + idx.toNat * 4
      let b ← get head (pe + 0)
      let g ← get head (pe + 1)
      let r ← get head (pe + 2)
      .ok (pack r g b 0xFF#8)
    else .ok (pack idx idx idx 0xFF#8)
  else if i.biBpp = 24#16 then do
    let pe := row + x * 3
    let b ← get body (pe + 0)
    let g ← get body (pe + 1)
    let r ← get body (pe + 2)
    .ok (pack r g b 0xFF#8)
  else do
    let pe := row + x * 4
    let b ← get body (pe + 0)
    let g ← get body (pe + 1)
    let r ← get body (pe + 2)
    let a ← get body (pe + 3)
    .ok (pack r g b (if a ≠ 0#8 then a else 0xFF#8))

/-- Where row `y` of the file goes. -/
def Info.dest (i : Info) (h y : Nat) : Nat := if i.topDown then y else h - 1 - y

/-- `decode_dib` from the truncation check on; `head` is the buffer of the header and the palette,
`body` that of the rows. -/
def decodeRows (i : Info) (bm : Bitmap) (head : Vector Byte n) (bih : Nat) (body : Vector Byte m)
    (bits cap : Nat) : Faulty Bitmap :=
  if cap ≠ 0 ∧ i.stride * bm.h > cap then .ok bm
  else do
    let px ← fill (fun x y => pixelAt head body i (bih + i.biSize.toNat) (bits + y * i.stride) x)
      (i.dest bm.h) bm.px
    .ok { bm with px }

/-- `decode_dib` from the height on -/
def decodeImage (room : Nat → Bool) (t : Bitmaps) (i : Info) (head : Vector Byte n) (bih : Nat)
    (body : Vector Byte m) (bits cap : Nat) : Faulty (U32 × Bitmaps) := do
  let h ← i.height
  if i.biW ≤ 0 ∨ h ≤ 0 ∨ i.biW > 16384 ∨ h > 16384 then .ok (0, t)
  else if i.biBpp ≠ 8#16 ∧ i.biBpp ≠ 24#16 ∧ i.biBpp ≠ 32#16 then .ok (0, t)
  else
    match t.allocSlot room i.biW h with
    | none => .ok (0, t)
    | some (slot, bm) => do
      let bm ← decodeRows i bm head bih body bits cap
      .ok (bm.handle, t.fill slot bm)

/-- `decode_dib` -/
def decodeDib (room : Nat → Bool) (t : Bitmaps) (head : Vector Byte n) (bih : Nat)
    (body : Vector Byte m) (bits cap : Nat) : Faulty (U32 × Bitmaps) := do
  let i ← readInfo head bih
  if i.biSize.toNat < 40 then .ok (0, t)
  else if i.biComp ≠ 0#32 then .ok (0, t)
  else decodeImage room t i head bih body bits cap

/-- `wg_bitmap_from_bmp_memory`, for a pointer that is not null -/
def fromBmpMemory (room : Nat → Bool) (t : Bitmaps) (d : Vector Byte n) : Faulty (U32 × Bitmaps) :=
  if n < 54 then .ok (0, t)
  else do
    let b ← get d 0
    let m ← get d 1
    if b ≠ 0x42#8 ∨ m ≠ 0x4D#8 then .ok (0, t)
    else
      let off ← rd32 d 10
      if off.toNat ≥ n then .ok (0, t)
      else decodeDib room t d 14 d off.toNat (n - off.toNat)

-- ---------------------------------------------------------------------------
-- What a file announces
-- ---------------------------------------------------------------------------

def byteAt (d : Vector Byte n) (p : Nat) : Byte := d[p]?.getD 0

def word16 (d : Vector Byte n) (p : Nat) : BitVec 16 :=
  (byteAt d p).setWidth 16 ||| (byteAt d (p + 1)).setWidth 16 <<< 8

def word32 (d : Vector Byte n) (p : Nat) : U32 :=
  (byteAt d p).setWidth 32 ||| (byteAt d (p + 1)).setWidth 32 <<< 8 |||
    (byteAt d (p + 2)).setWidth 32 <<< 16 ||| (byteAt d (p + 3)).setWidth 32 <<< 24

/-- The info header of a file. -/
def infoOf (d : Vector Byte n) : Info where
  biSize := word32 d 14
  biW := (word32 d 18).toInt
  biH := (word32 d 22).toInt
  biBpp := word16 d 28
  biComp := word32 d 30
  biClrUsed := word32 d 46

def offBits (d : Vector Byte n) : Nat := (word32 d 10).toNat

/-- The headers are those of an uncompressed bitmap. -/
structure Accepted (d : Vector Byte n) : Prop where
  long : 54 ≤ n
  b : byteAt d 0 = 0x42#8
  m : byteAt d 1 = 0x4D#8
  off : offBits d < n
  size : 40 ≤ (infoOf d).biSize.toNat
  comp : (infoOf d).biComp = 0#32

structure Info.Supported (i : Info) : Prop where
  w : 0 < i.biW ∧ i.biW ≤ 16384
  h : 0 < i.biH.natAbs ∧ i.biH.natAbs ≤ 16384
  bpp : i.biBpp = 8#16 ∨ i.biBpp = 24#16 ∨ i.biBpp = 32#16

/-- There is less of the file behind the offset than the rows take. -/
def Truncated (d : Vector Byte n) : Prop :=
  n - offBits d < (infoOf d).stride * (infoOf d).biH.natAbs

/-- The index of a pixel in a file of eight bits. -/
def indexAt (d : Vector Byte n) (x y : Nat) : Nat :=
  (byteAt d (offBits d + y * (infoOf d).stride + x)).toNat

/-- The palette entries that the pixels look at are in the file. -/
def PaletteIn (d : Vector Byte n) : Prop :=
  (infoOf d).biBpp = 8#16 → ¬ Truncated d →
    ∀ y < (infoOf d).biH.natAbs, ∀ x < (infoOf d).biW.toNat, indexAt d x y < (infoOf d).palN →
      14 + (infoOf d).biSize.toNat + indexAt d x y * 4 + 2 < n

/-- No bitmap in front of the slot has the next handle, and that handle is not zero. -/
def Bitmaps.Fresh (t : Bitmaps) (slot : Nat) : Prop :=
  t.next ≠ 0#32 ∧ ∀ j < slot, ∀ b, t.slots[j]? = some (some b) → b.handle ≠ t.next

/-- Zero and the table as it was, or the handle of a bitmap of the declared size, in a slot that
was free. -/
def Returns (t : Bitmaps) (d : Vector Byte n) (h : U32) (t' : Bitmaps) : Prop :=
  h = 0#32 ∧ t' = t ∨
  h ≠ 0#32 ∧ ∃ slot b, t.slots[slot]? = some none ∧ t'.slots = t.slots.set slot (some b) ∧
    t'.slots.findIdx? (Bitmap.is h) = some slot ∧
      b.w = (infoOf d).biW ∧ b.h = (infoOf d).biH.natAbs

def Decodes (room : Nat → Bool) (t : Bitmaps) (d : Vector Byte n) : Prop :=
  ∃ h t', fromBmpMemory room t d = .ok (h, t') ∧ Returns t d h t'

/-- The height of a file whose headers are accepted has an opposite, and if a bitmap is made, its
handle is fresh and its palette in the file. -/
def BmpOk (room : Nat → Bool) (t : Bitmaps) (d : Vector Byte n) : Prop :=
  Accepted d → (infoOf d).biH ≠ -2147483648 ∧
    ((infoOf d).Supported → ∀ slot b,
      t.allocSlot room (infoOf d).biW (infoOf d).biH.natAbs = some (slot, b) →
        t.Fresh slot ∧ PaletteIn d)

end

end WineGlass.Gdi
