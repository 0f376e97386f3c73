import WineGlass.Lib.Grid
import WineGlass.Lib.Tables

/-!
# Windows, bitmaps and device contexts

The tables of `wg_win32_windows.c`, `wg_win32_bitmap.c` and `wg_win32_gdi.c`, as
far as drawing looks at them, and the calls that change them.
-/

namespace WineGlass.Gdi

open Faults Grids Tables

abbrev U32 := BitVec 32
abbrev Pixels := Grid U32

/-- A window's framebuffer. It is filled by an `int` that counts up to `cw * ch`, so its size
is one. -/
structure Client where
  w : Nat
  h : Nat
  px : Pixels w h
  pos : 0 < w ∧ 0 < h
  fits : Fits (w * h)

structure Window where
  handle : U32
  parent : U32
  alive : Bool
  w : Int
  h : Int
  client : Option Client
  clientDirty : Bool

structure Bitmap where
  handle : U32
  w : Nat
  h : Nat
  px : Pixels w h

/-- A slot keeps what it held after its release. -/
structure Dc where
  used : Bool
  handle : U32
  hwnd : U32
  isMemdc : Bool
  selBitmap : U32
  textColor : U32
  bkColor : U32
  bkMode : Int32
  curX : Int32
  curY : Int32
  fontPx : Int32
  fontBold : Bool
  fontName : String
  deriving DecidableEq

/-- All bytes zero. -/
def Dc.zero : Dc := ⟨false, 0, 0, false, 0, 0, 0, 0, 0, 0, 0, false, ""⟩

/-- A bitmap slot that is not used shows nothing of what it held. -/
structure Desktop where
  windows : List Window
  bitmaps : List (Option Bitmap)
  dcs : List Dc
  nextDc : U32

variable (g : Desktop)

-- ---------------------------------------------------------------------------
-- Windows
-- ---------------------------------------------------------------------------

def Window.is (hwnd : U32) (w : Window) : Bool := w.handle = hwnd && w.alive

/-- `wg_wm_find` -/
def Desktop.wmFind (hwnd : U32) : Option Window := g.windows.find? (Window.is hwnd)

/-- What is written through the pointer that `wg_wm_find` returns. -/
def Desktop.setWindow (hwnd : U32) (f : Window → Window) : Desktop :=
  { g with windows := revise (Window.is hwnd) f g.windows }

def titlebar : Int := 32

def Window.clientW (w : Window) : Int := max w.w 1

def Window.clientH (w : Window) : Int := max (w.h - if w.parent = 0 then titlebar else 0) 1

/-- A framebuffer of the window background. -/
def Window.blank (w : Window) : Faulty Client :=
  if h : Fits (w.clientW.toNat * w.clientH.toNat) then
    .ok
      { w := w.clientW.toNat
        h := w.clientH.toNat
        px := Vector.replicate _ 0xFFF0F0F0#32
        pos := ⟨by unfold Window.clientW; omega, by unfold Window.clientH; omega⟩
        fits := h }
  else .error .overflow

/-- `wg_wm_get_client`; `room` tells whether `malloc` has that many bytes. -/
def Desktop.getClient (room : Nat → Bool) (hwnd : U32) : Faulty (Option Client × Desktop) :=
  match g.wmFind hwnd with
  | none => .ok (none, g)
  | some w =>
    match w.client with
    | some c => .ok (some c, g)
    | none =>
      if room (w.clientW.toNat * w.clientH.toNat * 4) then do
        let c ← w.blank
        .ok (some c, g.setWindow hwnd fun w => { w with client := some c, clientDirty := true })
      else .ok (none, g)

/-- What was drawn into the framebuffer of a window. -/
def Desktop.paint (hwnd : U32) (c : Client) : Desktop :=
  g.setWindow hwnd fun w => { w with client := some c, clientDirty := true }

-- ---------------------------------------------------------------------------
-- Bitmaps
-- ---------------------------------------------------------------------------

def Bitmap.is (h : U32) (b : Option Bitmap) : Bool := b.any fun b => b.handle = h

/-- `find` of `wg_win32_bitmap.c` -/
def Desktop.findBitmap (h : U32) : Option Bitmap := (g.bitmaps.find? (Bitmap.is h)).join

/-- What was drawn into a bitmap. -/
def Desktop.setBitmap (h : U32) (b : Bitmap) : Desktop :=
  { g with bitmaps := revise (Bitmap.is h) (fun _ => some b) g.bitmaps }

-- ---------------------------------------------------------------------------
-- Device contexts
-- ---------------------------------------------------------------------------

def Dc.is (hdc : U32) (d : Dc) : Bool := d.used && d.handle = hdc

/-- `find_dc` -/
def Desktop.findDc (hdc : U32) : Option Dc := g.dcs.find? (Dc.is hdc)

/-- What is written through the pointer that `find_dc` returns. -/
def Desktop.setDc (hdc : U32) (f : Dc → Dc) : Desktop :=
  { g with dcs := revise (Dc.is hdc) f g.dcs }

/-- The first slot that is not used. -/
def Desktop.freeDc : Option Dc := g.dcs.find? fun d => !d.used

/-- `wg_gdi_get_dc` -/
def Desktop.getDc (hwnd : U32) : U32 × Desktop :=
  match g.freeDc with
  | none => (0, g)
  | some _ =>
    let fill (d : Dc) : Dc :=
      { d with
        used := true, handle := g.nextDc, hwnd, textColor := 0x00000000
        bkColor := 0x00FFFFFF, bkMode := 2, curX := 0, curY := 0
        fontPx := 13, fontBold := false, fontName := "" }
    (g.nextDc, { g with dcs := revise (fun d => !d.used) fill g.dcs, nextDc := g.nextDc + 1 })

/-- `wg_gdi_create_memory_dc` -/
def Desktop.createMemoryDc : U32 × Desktop :=
  match g.freeDc with
  | none => (0, g)
  | some _ =>
    let fill (_ : Dc) : Dc :=
      { Dc.zero with
        used := true, handle := g.nextDc, isMemdc := true, bkColor := 0x00FFFFFF, bkMode := 2 }
    (g.nextDc, { g with dcs := revise (fun d => !d.used) fill g.dcs, nextDc := g.nextDc + 1 })

/-- `wg_gdi_release_dc` -/
def Desktop.releaseDc (hdc : U32) : Desktop := g.setDc hdc fun d => { d with used := false }

/-- `wg_gdi_delete_dc` -/
def Desktop.deleteDc (hdc : U32) : Desktop := g.setDc hdc fun d => { d with used := false }

/-- `wg_gdi_select_bitmap` -/
def Desktop.selectBitmap (hdc hbitmap : U32) : U32 × Desktop :=
  match g.findDc hdc with
  | none => (0, g)
  | some d => (d.selBitmap, g.setDc hdc fun d => { d with selBitmap := hbitmap })

/-- `wg_gdi_selected_bitmap` -/
def Desktop.selectedBitmap (hdc : U32) : U32 := (g.findDc hdc).elim 0 Dc.selBitmap

/-- `wg_gdi_move_to` -/
def Desktop.moveTo (hdc : U32) (x y : Int32) : Desktop :=
  g.setDc hdc fun d => { d with curX := x, curY := y }

/-- `colorref_to_rgba` -/
def rgbaOf (cr : U32) : U32 :=
  let r := cr &&& 0xFF#32
  let g := cr >>> 8 &&& 0xFF#32
  let b := cr >>> 16 &&& 0xFF#32
  r ||| g <<< 8 ||| b <<< 16 ||| 0xFF#32 <<< 24

end WineGlass.Gdi
