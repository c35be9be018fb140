import Mathlib.Logic.Function.Basic
import Wbox.Gdi.Objects
import Wbox.Lib.Events
import Wbox.Lib.SignedWord

/-!
# GDI drawing

The drawing calls of `src/gdi/gdi_drawing.c` on pixel buffers, with the pixels they read and
write. A pixel is the 32-bit word at an index behind the start of a buffer, wherever the index
leads. Coordinates are `int`s that wrap; the sums that lead to a pixel are pointer sums where the
source adds to a pointer.
-/

namespace Wbox.Gdi

open Wbox.Lib

/-- A pixel that is read or written: the buffer and the index. -/
inductive PixelAccess where
  | read (buf : Nat) (i : Int)
  | write (buf : Nat) (i : Int)
  deriving DecidableEq, Repr

/-- The words of the pixel buffers, and of what lies around them. -/
abbrev PixelMem := Nat → Int → UInt32

/-- A computation on pixel buffers that logs its accesses. -/
abbrev DrawM := Logged PixelMem PixelAccess

/-- Read a pixel. -/
def getPixel (buf : Nat) (i : Int) : DrawM UInt32 := .op [.read buf i] fun m => (m buf i, m)

/-- Write a pixel. -/
def putPixel (buf : Nat) (i : Int) (pixel : UInt32) : DrawM PUnit :=
  .op [.write buf i] fun m => (⟨⟩, Function.update m buf (Function.update (m buf) i pixel))

/-- `memcpy` of `n` words between buffers that do not overlap. -/
def copyPixels (dst : Nat) (d : Int) (src : Nat) (s : Int) (n : Nat) : DrawM PUnit :=
  .op (((List.range n).map fun k : Nat => .read src (s + k)) ++
      (List.range n).map fun k : Nat => .write dst (d + k))
    fun m => (⟨⟩, Function.update m dst fun i =>
      if d ≤ i ∧ i < d + n then m src (s + (i - d)) else m dst i)

section Clip

/-- A rectangle as a position and an extent. -/
structure Box where
  x : Int32
  y : Int32
  width : Int32
  height : Int32
  deriving DecidableEq, Repr

/-- The extent of a `RECT`. -/
def Rect.box (r : Rect) : Box := ⟨r.left, r.top, r.right - r.left, r.bottom - r.top⟩

/-- The origin and the left and upper bound, `gdi_drawing.c:44–56`. -/
def GdiDc.clipLow (dc : GdiDc) (b : Box) : Box :=
  let ox := b.x + dc.vpOrgX - dc.winOrgX
  let oy := b.y + dc.vpOrgY - dc.winOrgY
  { x := if ox < 0 then 0 else ox
    y := if oy < 0 then 0 else oy
    width := if ox < 0 then b.width + ox else b.width
    height := if oy < 0 then b.height + oy else b.height }

/-- The right and lower bound, `gdi_drawing.c:57–62`. -/
def GdiDc.clipHigh (dc : GdiDc) (b : Box) : Box :=
  { b with
    width := if b.x + b.width > dc.width then dc.width - b.x else b.width
    height := if b.y + b.height > dc.height then dc.height - b.y else b.height }

/-- `gdi_clip_rect`, `gdi_drawing.c:42–68`: the clipped rectangle, and whether it is not empty. -/
def gdiClipRect (dc : GdiDc) (b : Box) : Box × Bool :=
  let b := dc.clipHigh (dc.clipLow b)
  (b, decide (b.width > 0 ∧ b.height > 0))

end Clip

section Rops

/-- `gdi_apply_rop3`, `gdi_drawing.c:93–113`. -/
def gdiApplyRop3 (dst src pat rop : UInt32) : UInt32 :=
  let code := rop >>> 16 &&& 0xFF
  (List.range 32).foldl (fun result bit =>
    let mask : UInt32 := 1 <<< UInt32.ofNat bit
    let d : UInt32 := if dst &&& mask ≠ 0 then 1 else 0
    let s : UInt32 := if src &&& mask ≠ 0 then 1 else 0
    let p : UInt32 := if pat &&& mask ≠ 0 then 1 else 0
    let index := d <<< 2 ||| s <<< 1 ||| p
    if code &&& 1 <<< index ≠ 0 then result ||| mask else result) 0

/-- What `gdi_pat_blt` makes of a pixel, `gdi_drawing.c:278–324`. -/
def patBltPixel (rop pat dst : UInt32) : UInt32 :=
  if rop = ropBlackness then 0xFF000000
  else if rop = ropWhiteness then 0xFFFFFFFF
  else if rop = ropPatcopy then pat
  else if rop = ropPatinvert then (dst ^^^ pat) ||| 0xFF000000
  else if rop = ropDstinvert then ~~~dst ||| 0xFF000000
  else gdiApplyRop3 dst 0 pat rop

/-- What `gdi_bit_blt` makes of a pixel, `gdi_drawing.c:382–409`. -/
def bitBltPixel (rop pat dst src : UInt32) : UInt32 :=
  if rop = ropSrccopy then src
  else if rop = ropSrcand then dst &&& src ||| 0xFF000000
  else if rop = ropSrcpaint then dst ||| src ||| 0xFF000000
  else if rop = ropSrcinvert then (dst ^^^ src) ||| 0xFF000000
  else gdiApplyRop3 dst src pat rop

end Rops

section Rectangles

/-- The loops over the pixels of a rectangle, row by row. -/
def eachPixel (dc : GdiDc) (b : Box) (pixel : Int → DrawM PUnit) : DrawM PUnit :=
  (countUp b.y (b.y + b.height)).forM fun row =>
    (countUp 0 b.width).forM fun col =>
      pixel ((row * (dc.pitch / 4)).toInt + b.x.toInt + col.toInt)

/-- `*dst = f(*dst)`. -/
def modifyPixel (buf : Nat) (f : UInt32 → UInt32) (i : Int) : DrawM PUnit := do
  let pixel ← getPixel buf i
  putPixel buf i (f pixel)

/-- `gdi_fill_rect`, `gdi_drawing.c:142–171`. -/
def gdiFillRect (dc : GdiDc) (rect : Rect) (brush : Option GdiBrush) : DrawM (Int32 × GdiDc) :=
  match brush, dc.pixels with
  | some brush, some buf =>
      if brush.style = bsNull then pure (1, dc)
      else
        let clip := gdiClipRect dc rect.box
        if clip.2 then do
          eachPixel dc clip.1 fun i => putPixel buf i (colorrefToArgb brush.color)
          pure (1, { dc with dirty := true })
        else pure (1, dc)
  | _, _ => pure (0, dc)

/-- `gdi_invert_rect`, `gdi_drawing.c:224–247`. -/
def gdiInvertRect (dc : GdiDc) (rect : Rect) : DrawM (Bool × GdiDc) :=
  match dc.pixels with
  | some buf =>
      let clip := gdiClipRect dc rect.box
      if clip.2 then do
        eachPixel dc clip.1 (modifyPixel buf fun pixel => ~~~pixel ||| 0xFF000000)
        pure (true, { dc with dirty := true })
      else pure (true, dc)
  | none => pure (false, dc)

/-- The colour of the pattern, `gdi_drawing.c:257–269`; nothing is drawn with `BLACKNESS` and the
null brush. -/
def patternOf (dc : GdiDc) (rop : UInt32) : Option UInt32 :=
  match dc.brush with
  | none => some 0xFFFFFFFF
  | some brush =>
      if brush.style = bsNull then if rop >>> 16 = 0 then none else some 0xFFFFFFFF
      else some (colorrefToArgb brush.color)

/-- The branches that do not read what they draw over. -/
def fills (rop : UInt32) : Bool := rop = ropBlackness ∨ rop = ropWhiteness ∨ rop = ropPatcopy

/-- `gdi_pat_blt`, `gdi_drawing.c:253–329`. -/
def gdiPatBlt (dc : GdiDc) (b : Box) (rop : UInt32) : DrawM (Bool × GdiDc) :=
  match dc.pixels, patternOf dc rop with
  | none, _ => pure (false, dc)
  | some _, none => pure (true, dc)
  | some buf, some pat =>
      let clip := gdiClipRect dc b
      if clip.2 then do
        if fills rop then eachPixel dc clip.1 fun i => putPixel buf i (patBltPixel rop pat 0)
        else eachPixel dc clip.1 (modifyPixel buf (patBltPixel rop pat))
        pure (true, { dc with dirty := true })
      else pure (true, dc)

end Rectangles

section Blits

/-- What is left of a transfer: where it goes, where it comes from, and its extent. -/
structure Blit where
  dstX : Int32
  dstY : Int32
  srcX : Int32
  srcY : Int32
  width : Int32
  height : Int32
  deriving DecidableEq, Repr

/-- The left and upper bound of the source, `gdi_drawing.c:351–361`. -/
def Blit.clipLow (b : Blit) : Blit :=
  { dstX := if b.srcX < 0 then b.dstX - b.srcX else b.dstX
    dstY := if b.srcY < 0 then b.dstY - b.srcY else b.dstY
    srcX := if b.srcX < 0 then 0 else b.srcX
    srcY := if b.srcY < 0 then 0 else b.srcY
    width := if b.srcX < 0 then b.width + b.srcX else b.width
    height := if b.srcY < 0 then b.height + b.srcY else b.height }

/-- The right and lower bound of the source, `gdi_drawing.c:362–367`. -/
def Blit.clipHigh (src : GdiDc) (b : Blit) : Blit :=
  { b with
    width := if b.srcX + b.width > src.width then src.width - b.srcX else b.width
    height := if b.srcY + b.height > src.height then src.height - b.srcY else b.height }

/-- The transfer after the destination has been clipped, `gdi_drawing.c:341–349`. -/
def blitOf (b c : Box) (srcX srcY : Int32) : Blit :=
  { dstX := c.x
    dstY := c.y
    srcX := srcX + (c.x - b.x)
    srcY := srcY + (c.y - b.y)
    width := c.width
    height := c.height }

/-- The pattern of a transfer, `gdi_drawing.c:371–375`. -/
def bitBltPattern (dc : GdiDc) : UInt32 :=
  match dc.brush with
  | none => 0xFFFFFFFF
  | some brush => if brush.style = bsNull then 0xFFFFFFFF else colorrefToArgb brush.color

/-- `*dst = f(*dst, *src)`. -/
def combinePixel (buf sbuf : Nat) (f : UInt32 → UInt32 → UInt32) (d s : Int) : DrawM PUnit := do
  let old ← getPixel buf d
  let new ← getPixel sbuf s
  putPixel buf d (f old new)

/-- One row of a transfer, `gdi_drawing.c:378–410`. -/
def blitRow (dst src : GdiDc) (buf sbuf : Nat) (b : Blit) (rop : UInt32) (row : Int32) :
    DrawM PUnit :=
  let d := ((b.dstY + row) * (dst.pitch / 4)).toInt + b.dstX.toInt
  let s := ((b.srcY + row) * (src.pitch / 4)).toInt + b.srcX.toInt
  if rop = ropSrccopy then copyPixels buf d sbuf s (sizeT (b.width * 4) / 4)
  else
    (countUp 0 b.width).forM fun col =>
      combinePixel buf sbuf (bitBltPixel rop (bitBltPattern dst)) (d + col.toInt) (s + col.toInt)

/-- The surface a transfer reads from, if there is one. -/
def GdiDc.source (src : Option GdiDc) : Option (GdiDc × Nat) :=
  src.bind fun src => src.pixels.map fun buf => (src, buf)

/-- `gdi_bit_blt`, `gdi_drawing.c:331–415`. -/
def gdiBitBlt (dst : GdiDc) (b : Box) (src : Option GdiDc) (srcX srcY : Int32) (rop : UInt32) :
    DrawM (Bool × GdiDc) :=
  match dst.pixels, GdiDc.source src with
  | none, _ => pure (false, dst)
  | some _, none => gdiPatBlt dst b rop
  | some buf, some (src, sbuf) =>
      let clip := gdiClipRect dst b
      if clip.2 then
        let blit := (blitOf b clip.1 srcX srcY).clipLow.clipHigh src
        if blit.width ≤ 0 ∨ blit.height ≤ 0 then pure (true, dst)
        else do
          (countUp 0 blit.height).forM (blitRow dst src buf sbuf blit rop)
          pure (true, { dst with dirty := true })
      else pure (true, dst)

/-- The pattern of a stretched transfer, `gdi_drawing.c:445–448`. -/
def stretchBltPattern (dc : GdiDc) : UInt32 :=
  match dc.brush with
  | none => 0xFFFFFFFF
  | some brush => colorrefToArgb brush.color

/-- What `gdi_stretch_blt` makes of a pixel, `gdi_drawing.c:442–450`. -/
def stretchBltPixel (rop pat dst src : UInt32) : UInt32 :=
  if rop = ropSrccopy then src else gdiApplyRop3 dst src pat rop

/-- One pixel of a stretched transfer, `gdi_drawing.c:431–450`. -/
def stretchPixel (dst src : GdiDc) (buf sbuf : Nat) (b s : Box) (rop : UInt32) (sy dy dx : Int32) :
    DrawM PUnit :=
  let sx := s.x + dx * s.width / b.width
  let px := b.x + dx
  let py := b.y + dy
  if sx < 0 ∨ sx ≥ src.width ∨ px < 0 ∨ px ≥ dst.width ∨ py < 0 ∨ py ≥ dst.height then pure ⟨⟩
  else
    let d := (py * (dst.pitch / 4) + px).toInt
    let s := (sy * (src.pitch / 4) + sx).toInt
    if rop = ropSrccopy then do
      let pixel ← getPixel sbuf s
      putPixel buf d pixel
    else do
      let new ← getPixel sbuf s
      let old ← getPixel buf d
      putPixel buf d (stretchBltPixel rop (stretchBltPattern dst) old new)

/-- `gdi_stretch_blt`, `gdi_drawing.c:417–456`. -/
def gdiStretchBlt (dst : GdiDc) (b : Box) (src : Option GdiDc) (s : Box) (rop : UInt32) :
    DrawM (Bool × GdiDc) :=
  match dst.pixels, GdiDc.source src with
  | some buf, some (src, sbuf) => do
      (countUp 0 b.height).forM fun dy =>
        let sy := s.y + dy * s.height / b.height
        if sy < 0 ∨ sy ≥ src.height then pure ⟨⟩
        else (countUp 0 b.width).forM (stretchPixel dst src buf sbuf b s rop sy dy)
      pure (true, { dst with dirty := true })
  | _, _ => pure (false, dst)

end Blits

section Lines

/-- Where a line has come to, and its error term. -/
structure LinePos where
  x : Int32
  y : Int32
  err : Int32
  deriving DecidableEq, Repr

/-- What a line does not change: its end, its extent, its directions and its colour. -/
structure Line where
  x1 : Int32
  y1 : Int32
  dx : Int32
  dy : Int32
  sx : Int32
  sy : Int32
  color : UInt32
  deriving DecidableEq, Repr

/-- A step of Bresenham's algorithm, `gdi_drawing.c:498–506`. -/
def Line.step (l : Line) (p : LinePos) : LinePos :=
  let e2 := 2 * p.err
  let q := if e2 > -l.dy then { p with err := p.err - l.dy, x := p.x + l.sx } else p
  if e2 < l.dx then { q with err := q.err + l.dx, y := q.y + l.sy } else q

/-- The pixel of a line, if it is visible, `gdi_drawing.c:492–494`. -/
def linePixel (dc : GdiDc) (buf : Nat) (l : Line) (p : LinePos) : DrawM PUnit :=
  if p.x ≥ 0 ∧ p.x < dc.width ∧ p.y ≥ 0 ∧ p.y < dc.height then
    putPixel buf (p.y * (dc.pitch / 4) + p.x).toInt l.color
  else pure ⟨⟩

/-- The loop of `gdi_line_to`, `gdi_drawing.c:491–507`, cut after some rounds: it may go on for
ever where the extent of the line wraps. -/
def lineLoop (dc : GdiDc) (buf : Nat) (l : Line) : Nat → LinePos → DrawM PUnit
  | 0, _ => pure ⟨⟩
  | fuel + 1, p => do
      linePixel dc buf l p
      if p.x = l.x1 ∧ p.y = l.y1 then pure ⟨⟩ else lineLoop dc buf l fuel (l.step p)

/-- `gdi_line_to`, `gdi_drawing.c:462–513`. -/
def gdiLineTo (fuel : Nat) (dc : GdiDc) (x y : Int32) : DrawM (Bool × GdiDc) :=
  match dc.pixels with
  | none => pure (false, dc)
  | some buf =>
      match dc.pen.filter fun pen => pen.style ≠ psNull with
      | none => pure (true, { dc with curX := x, curY := y })
      | some pen => do
          let x0 := dc.curX + (dc.vpOrgX - dc.winOrgX)
          let y0 := dc.curY + (dc.vpOrgY - dc.winOrgY)
          let x1 := x + (dc.vpOrgX - dc.winOrgX)
          let y1 := y + (dc.vpOrgY - dc.winOrgY)
          let l : Line :=
            { x1, y1
              dx := (x1 - x0).abs
              dy := (y1 - y0).abs
              sx := if x0 < x1 then 1 else -1
              sy := if y0 < y1 then 1 else -1
              color := colorrefToArgb pen.color }
          lineLoop dc buf l fuel { x := x0, y := y0, err := l.dx - l.dy }
          pure (true, { dc with curX := x, curY := y, dirty := true })

end Lines

/-- `gdi_set_pixel`, `gdi_drawing.c:591–609`. -/
def gdiSetPixel (dc : GdiDc) (x y : Int32) (color : UInt32) : DrawM (UInt32 × GdiDc) :=
  match dc.pixels with
  | none => pure (0xFFFFFFFF, dc)
  | some buf =>
      let x := x + (dc.vpOrgX - dc.winOrgX)
      let y := y + (dc.vpOrgY - dc.winOrgY)
      if x < 0 ∨ x ≥ dc.width ∨ y < 0 ∨ y ≥ dc.height then pure (0xFFFFFFFF, dc)
      else do
        let i := (y * (dc.pitch / 4) + x).toInt
        let pixel ← getPixel buf i
        putPixel buf i (colorrefToArgb color)
        pure (argbToColorref pixel, { dc with dirty := true })

/-- A drawing call on a device context. -/
inductive DrawCall where
  | fillRect (rect : Rect) (brush : Option GdiBrush)
  | invertRect (rect : Rect)
  | patBlt (b : Box) (rop : UInt32)
  | bitBlt (b : Box) (src : Option GdiDc) (srcX srcY : Int32) (rop : UInt32)
  | stretchBlt (b : Box) (src : Option GdiDc) (s : Box) (rop : UInt32)
  | lineTo (x y : Int32)
  | setPixel (x y : Int32) (color : UInt32)

/-- The device context after a call. -/
def draw (fuel : Nat) (dc : GdiDc) : DrawCall → DrawM GdiDc
  | .fillRect rect brush => Prod.snd <$> gdiFillRect dc rect brush
  | .invertRect rect => Prod.snd <$> gdiInvertRect dc rect
  | .patBlt b rop => Prod.snd <$> gdiPatBlt dc b rop
  | .bitBlt b src srcX srcY rop => Prod.snd <$> gdiBitBlt dc b src srcX srcY rop
  | .stretchBlt b src s rop => Prod.snd <$> gdiStretchBlt dc b src s rop
  | .lineTo x y => Prod.snd <$> gdiLineTo fuel dc x y
  | .setPixel x y color => Prod.snd <$> gdiSetPixel dc x y color

/-- Calls one after the other. -/
def drawAll (fuel : Nat) : GdiDc → List DrawCall → DrawM GdiDc
  | dc, [] => pure dc
  | dc, call :: calls => do
      let dc ← draw fuel dc call
      drawAll fuel dc calls

end Wbox.Gdi
