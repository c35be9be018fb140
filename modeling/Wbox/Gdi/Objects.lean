import Mathlib.Algebra.Ring.Int.Defs
import Mathlib.Algebra.Ring.Nat
import Mathlib.Logic.Basic

/-!
# GDI objects

Device contexts, brushes, pens and bitmaps (`src/gdi/gdi_objects.h`), the raster operation codes
(`src/gdi/gdi_drawing.c:9–24`) and what `gdi_create_bitmap` (`gdi_drawing.c:672–707`) makes of its
arguments. A pointer is the number of what it points to, a C `int` an `Int32` that wraps.
-/

namespace Wbox.Gdi

/-- `BS_NULL`. -/
def bsNull : Int32 := 1
/-- `PS_NULL`. -/
def psNull : Int32 := 5
/-- `DCTYPE_MEMORY`. -/
def dctypeMemory : Int32 := 1

/-- `gdi_brush_t`: what drawing reads. -/
structure GdiBrush where
  style : Int32
  color : UInt32
  deriving DecidableEq, Repr

/-- `gdi_pen_t`: what drawing reads. -/
structure GdiPen where
  style : Int32
  color : UInt32
  deriving DecidableEq, Repr

/-- `gdi_bitmap_t`, without its DIB fields. -/
structure GdiBitmap where
  handle : UInt32 := 0
  width : Int32 := 0
  height : Int32 := 0
  bitsPerPixel : Int32 := 0
  planes : Int32 := 0
  pixels : Option Nat := none
  pitch : Int32 := 0
  hdc : UInt32 := 0
  inUse : Bool := false
  deriving DecidableEq, Repr

/-- `gdi_dc_t`: what drawing, selecting bitmaps and saving use. -/
structure GdiDc where
  handle : UInt32 := 0
  dcType : Int32 := 0
  width : Int32 := 0
  height : Int32 := 0
  pixels : Option Nat := none
  pitch : Int32 := 0
  bitsPerPixel : Int32 := 0
  curX : Int32 := 0
  curY : Int32 := 0
  vpOrgX : Int32 := 0
  vpOrgY : Int32 := 0
  winOrgX : Int32 := 0
  winOrgY : Int32 := 0
  brush : Option GdiBrush := none
  pen : Option GdiPen := none
  bitmap : Option Nat := none
  prevBitmapHandle : UInt32 := 0
  saveLevel : Int32 := 0
  savedDc : Option Nat := none
  dirty : Bool := false
  inUse : Bool := false
  deriving DecidableEq, Repr

/-- `RECT`. -/
structure Rect where
  left : Int32
  top : Int32
  right : Int32
  bottom : Int32
  deriving DecidableEq, Repr

/-- `ROP_BLACKNESS`. -/
def ropBlackness : UInt32 := 0x00000042
/-- `ROP_DSTINVERT`. -/
def ropDstinvert : UInt32 := 0x00550009
/-- `ROP_PATINVERT`. -/
def ropPatinvert : UInt32 := 0x005A0049
/-- `ROP_SRCINVERT`. -/
def ropSrcinvert : UInt32 := 0x00660046
/-- `ROP_SRCAND`. -/
def ropSrcand : UInt32 := 0x008800C6
/-- `ROP_SRCCOPY`. -/
def ropSrccopy : UInt32 := 0x00CC0020
/-- `ROP_SRCPAINT`. -/
def ropSrcpaint : UInt32 := 0x00EE0086
/-- `ROP_PATCOPY`. -/
def ropPatcopy : UInt32 := 0x00F00021
/-- `ROP_WHITENESS`. -/
def ropWhiteness : UInt32 := 0x00FF0062

/-- `colorref_to_argb`, `gdi_objects.h:190–196`. -/
def colorrefToArgb (cr : UInt32) : UInt32 :=
  let r : UInt32 := (cr &&& 0x0000FF) <<< 16
  let g : UInt32 := cr &&& 0x00FF00
  let b : UInt32 := (cr &&& 0xFF0000) >>> 16
  0xFF000000 ||| r ||| g ||| b

/-- `argb_to_colorref`, `gdi_objects.h:199–204`. -/
def argbToColorref (argb : UInt32) : UInt32 :=
  let r : UInt32 := (argb &&& 0x00FF0000) >>> 16
  let g : UInt32 := argb &&& 0x0000FF00
  let b : UInt32 := (argb &&& 0x000000FF) <<< 16
  r ||| g ||| b

/-- `calloc` of one block: which sizes it still has room for. More than `PTRDIFF_MAX` is always
refused. -/
structure Heap where
  gives : Nat → Bool
  refuses : ∀ size, 2 ^ 63 ≤ size → gives size = false

/-- Room for whatever `calloc` does not refuse. -/
def roomyHeap : Heap where
  gives size := decide (size < 2 ^ 63)
  refuses _ h := decide_eq_false (Nat.not_lt.mpr h)

/-- `(size_t)` of an `int`. -/
def sizeT (n : Int32) : Nat := (n.toInt % 2 ^ 64).toNat

/-- The bytes of a row of pixels, aligned, `gdi_drawing.c:687`; the product is unsigned. -/
def pitchOf (width : Int32) (bpp : UInt32) : Int32 :=
  ((width.toUInt32 * bpp + 31) / 32 * 4).toInt32

/-- The fields of a new bitmap, `gdi_drawing.c:678–688`. -/
def bitmapFields (width height : Int32) (planes bpp : UInt32) : GdiBitmap :=
  let width := if width < 1 then 1 else width
  let height := if height < 1 then 1 else height
  let planes := if planes < 1 then 1 else planes
  let bpp := if bpp < 1 then 1 else bpp
  { width, height, bitsPerPixel := bpp.toInt32, planes := planes.toInt32, pitch := pitchOf width bpp }

/-- The size of its pixels in bytes, `gdi_drawing.c:691`. -/
def GdiBitmap.size (bmp : GdiBitmap) : Nat := sizeT (bmp.pitch * bmp.height)

/-- A new bitmap with its pixels, `gdi_drawing.c:678–696`. -/
def newBitmap (heap : Heap) (buf : Nat) (width height : Int32) (planes bpp : UInt32) :
    Option GdiBitmap :=
  let bmp := bitmapFields width height planes bpp
  if heap.gives bmp.size then some { bmp with pixels := some buf } else none

/-- `gdi_select_bitmap` makes the bitmap the surface of the context, `gdi_dc.c:288–292`. -/
def GdiDc.withSurface (dc : GdiDc) (bmp : GdiBitmap) : GdiDc :=
  { dc with
    pixels := bmp.pixels
    width := bmp.width
    height := bmp.height
    pitch := bmp.pitch
    bitsPerPixel := bmp.bitsPerPixel }

end Wbox.Gdi
