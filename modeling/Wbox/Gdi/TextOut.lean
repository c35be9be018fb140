import Wbox.Gdi.Drawing

/-!
# Text output

Drawing text with the built-in font and measuring it with the selected one
(`src/gdi/gdi_text.c:8–291`). Pointers that may be `NULL` are options; a string and its distances
are read at the indices below the count.
-/

namespace Wbox.Gdi

open Wbox.Lib

/-- `FONT_WIDTH`. -/
def fontWidth : Int32 := 8
/-- `FONT_HEIGHT`. -/
def fontHeight : Int32 := 16

/-- `TA_UPDATECP`. -/
def taUpdateCp : UInt32 := 0x0001
/-- `TA_RIGHT`. -/
def taRight : UInt32 := 0x0002
/-- `TA_CENTER`. -/
def taCenter : UInt32 := 0x0006
/-- `TA_BOTTOM`. -/
def taBottom : UInt32 := 0x0008
/-- `TA_BASELINE`. -/
def taBaseline : UInt32 := 0x0018

/-- `ETO_OPAQUE`. -/
def etoOpaque : UInt32 := 0x0002
/-- `ETO_CLIPPED`. -/
def etoClipped : UInt32 := 0x0004

/-- `OPAQUE`, a mode of the background. -/
def bkOpaque : Int32 := 2

/-- `gdi_font_t`: what measuring reads. -/
structure GdiFont where
  height : Int32
  width : Int32
  deriving DecidableEq, Repr

/-- `gdi_dc_t` with what text output reads; `text_align` is an `int` of which bits are tested. -/
structure TextDc extends GdiDc where
  textColor : UInt32 := 0
  bkColor : UInt32 := 0x00FFFFFF
  bkMode : Int32 := bkOpaque
  textAlign : UInt32 := 0
  font : Option GdiFont := none
  deriving DecidableEq, Repr

/-- `SIZE`. -/
structure Size where
  cx : Int32
  cy : Int32
  deriving DecidableEq, Repr

/-- `builtin_font_data`, `gdi_text.c:18–115`: the glyphs of the characters from 32 to 127. The 16
bytes of a glyph, its rows from the top, are the digits of one number. -/
def builtinFontData : List Nat :=
  [0x00000000000000000000000000000000, 0x0000183C3C3C18181800181800000000,
   0x00666666240000000000000000000000, 0x0000006C6CFE6C6C6CFE6C6C00000000,
   0x18187CC6C2C07C060686C67C18180000, 0x00000000C2C60C183060C68600000000,
   0x0000386C6C3876DCCCCCCC7600000000, 0x00303030600000000000000000000000,
   0x00000C18303030303030180C00000000, 0x000030180C0C0C0C0C0C183000000000,
   0x0000000000663CFF3C66000000000000, 0x000000000018187E1818000000000000,
   0x00000000000000000018181830000000, 0x00000000000000FE0000000000000000,
   0x00000000000000000000181800000000, 0x0000000002060C183060C08000000000,
   0x0000386CC6C6D6D6C6C66C3800000000, 0x00001838781818181818187E00000000,
   0x00007CC6060C183060C0C6FE00000000, 0x00007CC606063C060606C67C00000000,
   0x00000C1C3C6CCCFE0C0C0C1E00000000, 0x0000FEC0C0C0FC060606C67C00000000,
   0x00003860C0C0FCC6C6C6C67C00000000, 0x0000FEC606060C183030303000000000,
   0x00007CC6C6C67CC6C6C6C67C00000000, 0x00007CC6C6C67E0606060C7800000000,
   0x00000000181800000018180000000000, 0x00000000181800000018183000000000,
   0x000000060C18306030180C0600000000, 0x00000000007E00007E00000000000000,
   0x0000006030180C060C18306000000000, 0x00007CC6C60C18181800181800000000,
   0x0000007CC6C6DEDEDEDCC07C00000000, 0x000010386CC6C6FEC6C6C6C600000000,
   0x0000FC6666667C66666666FC00000000, 0x00003C66C2C0C0C0C0C2663C00000000,
   0x0000F86C6666666666666CF800000000, 0x0000FE6662687868606266FE00000000,
   0x0000FE6662687868606060F000000000, 0x00003C66C2C0C0DEC6C6663A00000000,
   0x0000C6C6C6C6FEC6C6C6C6C600000000, 0x00003C18181818181818183C00000000,
   0x00001E0C0C0C0C0CCCCCCC7800000000, 0x0000E666666C78786C6666E600000000,
   0x0000F06060606060606266FE00000000, 0x0000C6EEFEFED6C6C6C6C6C600000000,
   0x0000C6E6F6FEDECEC6C6C6C600000000, 0x00007CC6C6C6C6C6C6C6C67C00000000,
   0x0000FC6666667C60606060F000000000, 0x00007CC6C6C6C6C6C6D6DE7C0C0E0000,
   0x0000FC6666667C6C666666E600000000, 0x00007CC6C660380C06C6C67C00000000,
   0x00007E7E5A1818181818183C00000000, 0x0000C6C6C6C6C6C6C6C6C67C00000000,
   0x0000C6C6C6C6C6C6C66C381000000000, 0x0000C6C6C6C6D6D6D6FEEE6C00000000,
   0x0000C6C66C7C38387C6CC6C600000000, 0x0000666666663C181818183C00000000,
   0x0000FEC6860C183060C2C6FE00000000, 0x00003C30303030303030303C00000000,
   0x00000080C0E070381C0E060200000000, 0x00003C0C0C0C0C0C0C0C0C3C00000000,
   0x10386CC6000000000000000000000000, 0x00000000000000000000000000FF0000,
   0x30301800000000000000000000000000, 0x0000000000780C7CCCCCCC7600000000,
   0x0000E06060786C666666667C00000000, 0x00000000007CC6C0C0C0C67C00000000,
   0x00001C0C0C3C6CCCCCCCCC7600000000, 0x00000000007CC6FEC0C0C67C00000000,
   0x0000386C6460F060606060F000000000, 0x000000000076CCCCCCCCCC7C0CCC7800,
   0x0000E060606C7666666666E600000000, 0x00001818003818181818183C00000000,
   0x00000606000E06060606060666663C00, 0x0000E06060666C78786C66E600000000,
   0x00003818181818181818183C00000000, 0x0000000000ECFED6D6D6D6C600000000,
   0x0000000000DC66666666666600000000, 0x00000000007CC6C6C6C6C67C00000000,
   0x0000000000DC66666666667C6060F000, 0x000000000076CCCCCCCCCC7C0C0C1E00,
   0x0000000000DC7666606060F000000000, 0x00000000007CC660380CC67C00000000,
   0x0000103030FC30303030361C00000000, 0x0000000000CCCCCCCCCCCC7600000000,
   0x000000000066666666663C1800000000, 0x0000000000C6C6D6D6D6FE6C00000000,
   0x0000000000C66C3838386CC600000000, 0x0000000000C6C6C6C6C6C67E060CF800,
   0x0000000000FECC183060C6FE00000000, 0x00000E18181870181818180E00000000,
   0x00001818181800181818181800000000, 0x0000701818180E181818187000000000,
   0x000076DC000000000000000000000000, 0x0000000010386CC6C6C6FE0000000000]

/-- `gdi_builtin_font_get_glyph`, `gdi_text.c:129–136`: other characters are shown as spaces. -/
def gdiBuiltinFontGetGlyph (codepoint : Nat) : Nat :=
  if 32 ≤ codepoint ∧ codepoint < 128 then (builtinFontData.getD (codepoint - 32) 0)
  else builtinFontData.getD 0 0

/-- A row of a glyph, `glyph[row]`. -/
def glyphRow (glyph row : Nat) : UInt8 := UInt8.ofNat (glyph >>> (8 * (15 - row)))

/-- The test `bits & (0x80 >> col)`, `gdi_text.c:153`. -/
def pixelSet (ch : UInt16) (row col : Nat) : Bool :=
  glyphRow (gdiBuiltinFontGetGlyph ch.toNat) row &&& (0x80 >>> UInt8.ofNat col) ≠ 0

/-- The colours of a character: of its pixels, and of the rest of its cell if that is drawn. -/
structure CharColors where
  fg : UInt32
  bg : UInt32
  isOpaque : Bool
  deriving DecidableEq, Repr

/-- What a place of the cell gets, `gdi_text.c:153–160`. -/
def CharColors.pixelAt (colors : CharColors) (ch : UInt16) (row col : Nat) : Option UInt32 :=
  if pixelSet ch row col then some colors.fg
  else if colors.isOpaque then some colors.bg
  else none

section Drawing

/-- A place of a cell, `gdi_text.c:149–160`. -/
def charPixel (dc : GdiDc) (buf : Nat) (x py : Int32) (ch : UInt16) (colors : CharColors)
    (row col : Nat) : DrawM PUnit :=
  let px := x + Int32.ofNat col
  if px < 0 ∨ px ≥ dc.width then pure ⟨⟩
  else
    match colors.pixelAt ch row col with
    | none => pure ⟨⟩
    | some color => putPixel buf (py * (dc.pitch / 4) + px).toInt color

/-- `draw_char`, `gdi_text.c:138–162`. -/
def drawChar (dc : GdiDc) (buf : Nat) (x y : Int32) (ch : UInt16) (colors : CharColors) :
    DrawM PUnit :=
  (List.range 16).forM fun row =>
    let py := y + Int32.ofNat row
    if py < 0 ∨ py ≥ dc.height then pure ⟨⟩
    else (List.range 8).forM fun col => charPixel dc buf x py ch colors row col

/-- The arguments of `gdi_ext_text_out` but the context. -/
structure TextArgs where
  x : Int32
  y : Int32
  options : UInt32
  rect : Option Rect
  str : Option (Nat → UInt16)
  count : Int32
  dx : Option (Nat → Int32)

/-- The rectangle that an option of the call uses. -/
def TextArgs.rectFor (a : TextArgs) (option : UInt32) : Option Rect :=
  if a.options &&& option ≠ 0 then a.rect else none

/-- The loops that fill the rectangle, `gdi_text.c:181–189`. -/
def fillTextRect (dc : GdiDc) (buf : Nat) (rect : Rect) (color : UInt32) : DrawM PUnit :=
  let bottom := if rect.bottom < dc.height then rect.bottom else dc.height
  let right := if rect.right < dc.width then rect.right else dc.width
  (countUp rect.top bottom).forM fun py =>
    if py < 0 then pure ⟨⟩
    else (countUp rect.left right).forM fun px =>
      if px < 0 then pure ⟨⟩ else putPixel buf (py * (dc.pitch / 4) + px).toInt color

/-- The alignment in a row, `gdi_text.c:192–198`. -/
def alignX (textAlign : UInt32) (x count : Int32) : Int32 :=
  if textAlign &&& taCenter ≠ 0 then x - count * fontWidth / 2
  else if textAlign &&& taRight ≠ 0 then x - count * fontWidth
  else x

/-- The alignment of the row, `gdi_text.c:200–204`. -/
def alignY (textAlign : UInt32) (y : Int32) : Int32 :=
  if textAlign &&& taBottom ≠ 0 then y - fontHeight
  else if textAlign &&& taBaseline ≠ 0 then y - (fontHeight - 2)
  else y

/-- The test of the clipping rectangle, `gdi_text.c:215–216`. -/
def besideRect (rect : Option Rect) (curX : Int32) : Bool :=
  match rect with
  | none => false
  | some rect => decide (curX + fontWidth ≤ rect.left ∨ curX ≥ rect.right)

/-- How far a character advances, `dx ? dx[i] : FONT_WIDTH`. -/
def TextArgs.advance (a : TextArgs) (i : Nat) : Int32 :=
  match a.dx with
  | some dx => dx i
  | none => fontWidth

/-- The loop over the characters, `gdi_text.c:207–226`; it returns where it has come to. -/
def drawChars (a : TextArgs) (str : Nat → UInt16) (draw : Int32 → UInt16 → DrawM PUnit) :
    List Nat → Int32 → DrawM Int32
  | [], curX => pure curX
  | i :: is, curX =>
      if str i < 32 then drawChars a str draw is curX
      else if besideRect (a.rectFor etoClipped) curX then
        drawChars a str draw is (curX + a.advance i)
      else do
        draw curX (str i)
        drawChars a str draw is (curX + a.advance i)

/-- The indices of the characters, `for (i = 0; i < count; i++)`. -/
def TextArgs.indices (a : TextArgs) : List Nat := List.range a.count.toInt.toNat

/-- The colours that characters are drawn in, `gdi_text.c:174–178`, `222`. -/
def TextArgs.colors (a : TextArgs) (dc : TextDc) : CharColors where
  fg := colorrefToArgb dc.textColor
  bg := colorrefToArgb dc.bkColor
  isOpaque := (dc.bkMode = bkOpaque ∨ a.options &&& etoOpaque ≠ 0) ∧ a.options &&& etoOpaque = 0

/-- The position after the call, `gdi_text.c:228–232`. -/
def moveTo (dc : TextDc) (curX y : Int32) : TextDc :=
  if dc.textAlign &&& taUpdateCp ≠ 0 then
    { dc with
      curX := curX - (dc.vpOrgX - dc.winOrgX)
      curY := y - (dc.vpOrgY - dc.winOrgY) }
  else dc

/-- The fill that `ETO_OPAQUE` asks for, `gdi_text.c:180–190`. -/
def fillOpaque (dc : GdiDc) (buf : Nat) (a : TextArgs) (color : UInt32) : DrawM PUnit :=
  match a.rectFor etoOpaque with
  | none => pure ⟨⟩
  | some rect => fillTextRect dc buf rect color

/-- From the alignment on, `gdi_text.c:192–233`. -/
def drawText (dc : TextDc) (buf : Nat) (a : TextArgs) (str : Nat → UInt16) : DrawM TextDc := do
  let x := alignX dc.textAlign (a.x + (dc.vpOrgX - dc.winOrgX)) a.count
  let y := alignY dc.textAlign (a.y + (dc.vpOrgY - dc.winOrgY))
  let curX ← drawChars a str (fun curX ch => drawChar dc.toGdiDc buf curX y ch (a.colors dc))
    a.indices x
  pure { moveTo dc curX y with dirty := true }

/-- `gdi_ext_text_out`, `gdi_text.c:164–235`. -/
def gdiExtTextOut (dc : TextDc) (a : TextArgs) : DrawM (Bool × TextDc) :=
  match dc.pixels, a.str with
  | some buf, some str =>
      if a.count ≤ 0 then pure (false, dc)
      else do
        fillOpaque dc.toGdiDc buf a (a.colors dc).bg
        let dc ← drawText dc buf a str
        pure (true, dc)
  | _, _ => pure (false, dc)

end Drawing

section Measuring

/-- The width of a character, `gdi_text.c:243–248`. -/
def charWidth (font : Option GdiFont) : Int32 :=
  match font with
  | some font => if font.width > 0 then font.width else fontWidth
  | none => fontWidth

/-- Its height. -/
def charHeight (font : Option GdiFont) : Int32 :=
  match font with
  | some font => if font.height > 0 then font.height.abs else fontHeight
  | none => fontHeight

/-- `gdi_get_text_extent`, `gdi_text.c:238–255`; the string is not read. -/
def gdiGetTextExtent (dc : TextDc) (count : Int32) : Size :=
  { cx := count * charWidth dc.font, cy := charHeight dc.font }

/-- What `gdi_get_text_extent_ex` returns: how many characters fit, the extents it stores in `dx`,
and the extent of these characters. -/
structure ExtentEx where
  fit : Int32
  dx : List Int32
  size : Size
  deriving DecidableEq, Repr

/-- The loop of `gdi_get_text_extent_ex`, `gdi_text.c:274–283`, with so many characters left. -/
def fitChars (charWidth maxExtent : Int32) : Nat → Int32 × Int32 × List Int32 →
    Int32 × Int32 × List Int32
  | 0, r => r
  | n + 1, (totalWidth, charsFit, dx) =>
      let newWidth := totalWidth + charWidth
      if maxExtent > 0 ∧ newWidth > maxExtent then (totalWidth, charsFit, dx)
      else fitChars charWidth maxExtent n (newWidth, charsFit + 1, dx ++ [newWidth])

/-- `gdi_get_text_extent_ex`, `gdi_text.c:258–291`; the string is not read. -/
def gdiGetTextExtentEx (dc : TextDc) (count maxExtent : Int32) : ExtentEx :=
  let (totalWidth, charsFit, dx) :=
    fitChars (charWidth dc.font) maxExtent count.toInt.toNat (0, 0, [])
  { fit := charsFit, dx, size := { cx := totalWidth, cy := charHeight dc.font } }

end Measuring

end Wbox.Gdi
