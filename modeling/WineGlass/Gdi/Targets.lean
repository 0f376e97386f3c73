import WineGlass.Gdi.Blit
import WineGlass.Gdi.LineRuns
import WineGlass.Lib.Run

/-!
# What a device context draws on

`wg_gdi_fill_rect` and `wg_gdi_line_to` look for the window of a context, `dc_target` of the
blits looks first whether it is a memory context. `step` is the machine of the calls that make,
change, use and give back contexts.
-/

namespace WineGlass.Gdi

open Faults Grids Tables Runs

variable (room : Nat → Bool) (g : Desktop)

-- ---------------------------------------------------------------------------
-- Drawing
-- ---------------------------------------------------------------------------

/-- The loops of `wg_gdi_fill_rect`, after the rectangle has been clipped. -/
def fillPixels {w h : Nat} (l t r b : Int) (rgba : U32) (fb : Pixels w h) : Faulty (Pixels w h) :=
  each (fun j => each (fun i fb => do
    let row ← int ((t + j) * w)
    let at_ ← int (row + (l + i))
    put fb at_.toNat rgba) (r - l).toNat) (b - t).toNat fb

/-- `wg_gdi_fill_rect` -/
def Desktop.fillRect (hdc : U32) (l t r b : Int32) (cr : U32) : Faulty Desktop :=
  match g.findDc hdc with
  | none => .ok g
  | some dc => do
    match ← g.getClient room dc.hwnd with
    | (none, g) => .ok g
    | (some c, g) =>
      let px ← fillPixels (max l.toInt 0) (max t.toInt 0) (min r.toInt c.w) (min b.toInt c.h)
        (rgbaOf cr) c.px
      .ok (g.paint dc.hwnd { c with px })

inductive Target
  | window (hwnd : U32) (c : Client)
  | bitmap (hbitmap : U32) (b : Bitmap)

/-- `dc_target` -/
def Desktop.dcTarget (hdc : U32) : Faulty (Option Target × Desktop) :=
  match g.findDc hdc with
  | none => .ok (none, g)
  | some dc =>
    if dc.isMemdc then .ok ((g.findBitmap dc.selBitmap).map (.bitmap dc.selBitmap), g)
    else do
      let (c, g) ← g.getClient room dc.hwnd
      .ok (c.map (.window dc.hwnd), g)

instance (r : Rects) : Decidable r.Empty := inferInstanceAs (Decidable (_ ∨ _))

/-- `blit_pixels` from the bitmap `hbitmap`. A window whose handle is 0 is not marked. -/
def Desktop.blitPixels (hdc : U32) (r : Rects) (hbitmap : U32) (src : Bitmap) : Faulty Desktop :=
  if r.Empty then .ok g
  else do
    match ← g.dcTarget room hdc with
    | (none, g) => .ok g
    | (some (.window hwnd c), g) =>
      let px ← Gdi.blitPixels r (.image src.w src.h src.px) c.px
      .ok (g.setWindow hwnd fun w =>
        { w with client := some { c with px }, clientDirty := w.clientDirty || hwnd != 0 })
    | (some (.bitmap h b), g) =>
      let px ← Gdi.blitPixels r (if h = hbitmap then .own else .image src.w src.h src.px) b.px
      .ok (g.setBitmap h { b with px })

/-- The rectangles of a call. -/
structure Area where
  dx : Int32
  dy : Int32
  dw : Int32
  dh : Int32
  sx : Int32
  sy : Int32
  sw : Int32
  sh : Int32

/-- Sizes that are not positive are those of the source. -/
def Area.fit (a : Area) (bw bh : Int32) : Area :=
  let sw := if a.sw ≤ 0 then bw else a.sw
  let sh := if a.sh ≤ 0 then bh else a.sh
  { a with sw, sh, dw := if a.dw ≤ 0 then sw else a.dw, dh := if a.dh ≤ 0 then sh else a.dh }

def Area.rects (a : Area) : Rects where
  dx := a.dx.toInt
  dy := a.dy.toInt
  dw := a.dw.toInt
  dh := a.dh.toInt
  sx := a.sx.toInt
  sy := a.sy.toInt
  sw := a.sw.toInt
  sh := a.sh.toInt
  ints := by simp [fits_int32]

/-- `wg_gdi_draw_bitmap` -/
def Desktop.drawBitmap (hdc : U32) (a : Area) (hbitmap : U32) : Faulty Desktop :=
  match g.findBitmap hbitmap with
  | none => .ok g
  | some b =>
    g.blitPixels room hdc (a.fit (Int32.ofNat b.w) (Int32.ofNat b.h)).rects hbitmap b

/-- `wg_gdi_blit` -/
def Desktop.blit (hdc : U32) (a : Area) (hdcSrc : U32) : Faulty Desktop :=
  let hbmp := g.selectedBitmap hdcSrc
  if hbmp = 0 then .ok g else g.drawBitmap room hdc a hbmp

-- ---------------------------------------------------------------------------
-- The machine
-- ---------------------------------------------------------------------------

inductive Draw
  | fill (l t r b : Int32) (cr : U32)
  | line (fuel : Nat) (x y : Int32)
  | blit (a : Area) (hdcSrc : U32)
  | bitmap (a : Area) (hbitmap : U32)

/-- A draw that ends, and the points it passes when it is a line. -/
def Draw.run (hdc : U32) : Draw → Faulty (Option (List Point × Desktop))
  | .fill l t r b cr => do
    let g ← g.fillRect room hdc l t r b cr
    .ok (some ([], g))
  | .line fuel x y => g.lineTo room fuel hdc x y
  | .blit a hdcSrc => do
    let g ← g.blit room hdc a hdcSrc
    .ok (some ([], g))
  | .bitmap a hbitmap => do
    let g ← g.drawBitmap room hdc a hbitmap
    .ok (some ([], g))

/-- What the other calls change of a context. A font's name is cut to what the field holds. -/
inductive Attribute
  | textColor (cr : U32)
  | bkColor (cr : U32)
  | bkMode (mode : Int32)
  | pen (x y : Int32)
  | font (px : Int32) (bold : Bool) (name : String)

def Attribute.set (d : Dc) : Attribute → Dc
  | .textColor cr => { d with textColor := cr }
  | .bkColor cr => { d with bkColor := cr }
  | .bkMode mode => { d with bkMode := mode }
  | .pen x y => { d with curX := x, curY := y }
  | .font px bold name =>
    { d with fontPx := if 0 < px then px else d.fontPx, fontBold := bold, fontName := name }

/-- `world` is what becomes of the windows and bitmaps by calls that no context takes part in. -/
inductive Call
  | getDc (hwnd : U32)
  | createMemoryDc
  | releaseDc (hdc : U32)
  | deleteDc (hdc : U32)
  | selectBitmap (hdc hbitmap : U32)
  | set (hdc : U32) (a : Attribute)
  | draw (room : Nat → Bool) (hdc : U32) (d : Draw)
  | world (windows : List Window) (bitmaps : List (Option Bitmap))

inductive Seen
  | handle (h : U32)
  | drew (pts : List Point)
  | nothing
  deriving DecidableEq

/-- `SelectObject` selects a bitmap when there is one of that handle. -/
def step (g : Desktop) : Call → Option (Desktop × Seen)
  | .getDc hwnd => some ((g.getDc hwnd).2, .handle (g.getDc hwnd).1)
  | .createMemoryDc => some (g.createMemoryDc.2, .handle g.createMemoryDc.1)
  | .releaseDc hdc => some (g.releaseDc hdc, .nothing)
  | .deleteDc hdc => some (g.deleteDc hdc, .nothing)
  | .selectBitmap hdc hbitmap =>
    if (g.findBitmap hbitmap).isSome then
      some ((g.selectBitmap hdc hbitmap).2, .handle (g.selectBitmap hdc hbitmap).1)
    else none
  | .set hdc a => some (g.setDc hdc fun d => a.set d, .nothing)
  | .draw room hdc d =>
    match d.run room g hdc with
    | .ok (some (pts, g)) => some (g, .drew pts)
    | _ => none
  | .world windows bitmaps => some ({ g with windows, bitmaps }, .nothing)

/-- `MAX_DCS` free slots, `WG_DC_BASE`, and nothing to draw on. -/
def boot : Desktop := ⟨[], [], List.replicate 32 Dc.zero, 0x00DC0000⟩

-- ---------------------------------------------------------------------------
-- What contexts are for
-- ---------------------------------------------------------------------------

def Dc.window (hdc hwnd : U32) : Dc :=
  { Dc.zero with
    used := true, handle := hdc, hwnd, bkColor := 0x00FFFFFF, bkMode := 2, fontPx := 13 }

def Dc.memory (hdc : U32) : Dc :=
  { Dc.zero with
    used := true, handle := hdc, isMemdc := true, bkColor := 0x00FFFFFF, bkMode := 2 }

/-- The contexts that there are, by their handles. -/
abbrev Records := U32 → Option Dc

def Records.enter (rs : Records) (hdc : U32) (d : Dc) : Records :=
  if hdc = 0 then rs else Function.update rs hdc (some d)

def Records.change (rs : Records) (hdc : U32) (f : Dc → Dc) : Records :=
  Function.update rs hdc ((rs hdc).map f)

/-- A new context has nothing of an older one. A line that was drawn moves the pen. -/
def track (rs : Records) : Call × Seen → Records
  | (.getDc hwnd, .handle hdc) => rs.enter hdc (Dc.window hdc hwnd)
  | (.createMemoryDc, .handle hdc) => rs.enter hdc (Dc.memory hdc)
  | (.releaseDc hdc, _) | (.deleteDc hdc, _) => Function.update rs hdc none
  | (.selectBitmap hdc hbitmap, _) => rs.change hdc fun d => { d with selBitmap := hbitmap }
  | (.set hdc a, _) => rs.change hdc fun d => a.set d
  | (.draw _ hdc (.line _ x y), .drew (_ :: _)) => rs.change hdc fun d => (Attribute.pen x y).set d
  | _ => rs

def records (tr : List (Call × Seen)) : Records := tr.foldl track fun _ => none

/-- A window with another framebuffer. -/
def repaint (client : Window → Option Client) (clientDirty : Window → Bool) (w : Window) : Window :=
  { w with client := client w, clientDirty := clientDirty w }

/-- Nothing is other but the framebuffer of window `hwnd`. -/
structure Paints (g : Desktop) (hwnd : U32) (g' : Desktop) : Prop where
  windows : ∃ client clientDirty,
    g'.windows = (g.setWindow hwnd (repaint client clientDirty)).windows
  bitmaps : g'.bitmaps = g.bitmaps

/-- Nothing is other but the pixels of bitmap `hbitmap`, which 0 is not. -/
structure Stamps (g : Desktop) (hbitmap : U32) (g' : Desktop) : Prop where
  windows : g'.windows = g.windows
  bitmaps : g'.bitmaps = g.bitmaps ∨ hbitmap ≠ 0 ∧ ∃ b, g.findBitmap hbitmap = some b ∧
    ∃ px, g'.bitmaps = (g.setBitmap hbitmap { b with px }).bitmaps

/-- What a draw on a context of that record may change: nothing without one, the bitmap that is
selected into a memory context, the framebuffer of a window context's window. -/
def Frame (g g' : Desktop) : Option Dc → Prop
  | none => g'.windows = g.windows ∧ g'.bitmaps = g.bitmaps
  | some dc => if dc.isMemdc then Stamps g dc.selBitmap g' else Paints g dc.hwnd g'

/-- The next handle is no one's. -/
def Desktop.Unissued (g : Desktop) : Prop := g.nextDc ≠ 0 ∧ g.findDc g.nextDc = none

/-- A slot that `GetDC` fills was not a memory context's and had no bitmap selected, and no
handle is 0 or given twice. -/
def Proper (g : Desktop) : Call → Prop
  | .getDc _ => g.Unissued ∧ ∀ d ∈ g.freeDc, d.isMemdc = false ∧ d.selBitmap = 0
  | .createMemoryDc => g.Unissued
  | .world windows bitmaps =>
    windows.find? (Window.is 0) = none ∧ bitmaps.find? (Bitmap.is 0) = none
  | _ => True

end WineGlass.Gdi
