import Wbox.Gdi.TextPictures

/-!
# Where text is placed

The alignment of `gdi_ext_text_out` (`src/gdi/gdi_text.c:192–204`) against the meaning of the
alignment values. The values share bits, and the tests for single bits take `TA_RIGHT` for
`TA_CENTER` and `TA_BASELINE` for `TA_BOTTOM`.
-/

namespace Wbox.Gdi

open Wbox.Lib Wbox.Lib.Logged

/-- `TA_LEFT` and `TA_TOP`. -/
def taLeft : UInt32 := 0x0000

/-- The colours of the context. -/
def TextDc.textColors (dc : TextDc) : CharColors where
  fg := colorrefToArgb dc.textColor
  bg := colorrefToArgb dc.bkColor
  isOpaque := dc.bkMode = bkOpaque

/-- The device position of the call. -/
def TextDc.mappedX (dc : TextDc) (a : TextArgs) : Int :=
  a.x.toInt + dc.vpOrgX.toInt - dc.winOrgX.toInt

def TextDc.mappedY (dc : TextDc) (a : TextArgs) : Int :=
  a.y.toInt + dc.vpOrgY.toInt - dc.winOrgY.toInt

/-- Where a text of some characters begins whose position is `x`. -/
def AlignedX (textAlign : UInt32) (x count x₀ : Int) : Prop :=
  (textAlign &&& taCenter = taLeft ∧ x₀ = x) ∨
    (textAlign &&& taCenter = taRight ∧ x₀ = x - 8 * count) ∨
    (textAlign &&& taCenter = taCenter ∧ x₀ = x - 4 * count)

/-- The upper row of a text whose position is `y`. -/
def AlignedY (textAlign : UInt32) (y y₀ : Int) : Prop :=
  (textAlign &&& taBaseline = taLeft ∧ y₀ = y) ∨
    (textAlign &&& taBaseline = taBottom ∧ y₀ = y - 16) ∨
    (textAlign &&& taBaseline = taBaseline ∧ y₀ = y - 14)

/-- A text of which cell `k` is at `(x₀ + 8k, y₀)`. -/
def placedText (colors : CharColors) (str : Nat → UInt16) (count : Nat) (x₀ y₀ px py : Int) :
    Option UInt32 :=
  if (x₀ ≤ px ∧ px < x₀ + 8 * count) ∧ y₀ ≤ py ∧ py < y₀ + 16 then
    colors.pixelAt (str ((px - x₀) / 8).toNat) (py - y₀).toNat ((px - x₀) % 8).toNat
  else none

/-- A call that only draws a string without control characters. -/
structure PlainText (a : TextArgs) (str : Nat → UInt16) : Prop where
  text : a.str = some str
  options : a.options = 0
  dx : a.dx = none
  count : 0 ≤ a.count.toInt
  chars : ∀ i < a.count.toInt.toNat, ¬str i < 32

/-- The text and its alignment do not overflow. -/
structure PlacementFits (dc : TextDc) (a : TextArgs) : Prop where
  left : -2 ^ 31 ≤ dc.mappedX a - 8 * a.count.toInt
  right : dc.mappedX a + 8 * a.count.toInt < 2 ^ 31
  top : -2 ^ 31 ≤ dc.mappedY a - 16
  bottom : dc.mappedY a + 16 < 2 ^ 31

/-- How far from its place the text is drawn. -/
def shiftX (textAlign : UInt32) (count : Int) : Int :=
  if textAlign &&& taCenter = taRight then 4 * count else 0

def shiftY (textAlign : UInt32) : Int :=
  if textAlign &&& taBaseline = taBaseline then -2 else 0

/-- The alignment is neither to the right nor to the baseline, or no pixel of the surface tells the
text at its place from the shifted one. -/
def PlacementRight (dc : TextDc) (a : TextArgs) (str : Nat → UInt16) (x₀ y₀ : Int) : Prop :=
  (dc.textAlign &&& taCenter ≠ taRight ∧ dc.textAlign &&& taBaseline ≠ taBaseline) ∨
    ∀ px py, dc.OnSurface px py →
      placedText dc.textColors str a.count.toInt.toNat (x₀ + shiftX dc.textAlign a.count.toInt)
          (y₀ + shiftY dc.textAlign) px py =
        placedText dc.textColors str a.count.toInt.toNat x₀ y₀ px py

variable {dc : TextDc} {a : TextArgs} {str : Nat → UInt16} {buf : Nat} {words : Nat → Nat}
  {x₀ y₀ px py : Int}

section Cells

/-- Cells side by side are a text at the first of them. -/
theorem cellsPicture_plain (colors : CharColors) (y : Int) (hdx : a.dx = none)
    (hopt : a.rectFor etoClipped = none) (s n : Nat) (x : Int32)
    (hchars : ∀ i ∈ List.range' s n, ¬str i < 32) (hx : x.toInt + 8 * n < 2 ^ 31) :
    cellsPicture colors y (textCells a str (List.range' s n) x) px py =
      placedText colors (fun k => str (s + k)) n x.toInt y px py := by
  induction n generalizing s x with
  | zero =>
    rw [placedText, if_neg (by omega)]
    rfl
  | succ n ih =>
    have hlow := x.le_toInt
    have height : (8 : Int32).toInt = 8 := rfl
    have hnext : (x + 8).toInt = x.toInt + 8 := by
      rw [int_add_of_fits (by omega) (by omega), height]
    have hadvance : a.advance s = 8 := by
      rw [TextArgs.advance, hdx]
      rfl
    have hfirst : ¬str s < 32 := hchars s (by simp)
    have hrest := ih (s + 1) (x + 8) (fun i hi => hchars i (by simp_all; omega))
      (by rw [hnext]; omega)
    rw [List.range'_succ, textCells, if_neg hfirst, hopt]
    show (cellsPicture colors y (textCells a str (List.range' (s + 1) n) (x + a.advance s)) px
      py).or (colors.cell x.toInt y (str s) px py) = _
    rw [hadvance, hrest, hnext]
    by_cases hcell : (x.toInt ≤ px ∧ px < x.toInt + 8) ∧ y ≤ py ∧ py < y + 16
    · have hdiv : ((px - x.toInt) / 8).toNat = 0 := by omega
      have hmod : ((px - x.toInt) % 8).toNat = (px - x.toInt).toNat := by omega
      rw [CharColors.cell, if_pos hcell, placedText, if_neg (by omega), placedText,
        if_pos (by omega), hdiv, hmod]
      rfl
    · rw [CharColors.cell, if_neg hcell, Option.or_none]
      by_cases hin : (x.toInt + 8 ≤ px ∧ px < x.toInt + 8 + 8 * n) ∧ y ≤ py ∧ py < y + 16
      · have hdiv : s + ((px - x.toInt) / 8).toNat = s + 1 + ((px - (x.toInt + 8)) / 8).toNat := by
          omega
        have hmod : ((px - x.toInt) % 8).toNat = ((px - (x.toInt + 8)) % 8).toNat := by omega
        rw [placedText, if_pos hin, placedText, if_pos (by omega), hdiv, hmod]
      · rw [placedText, if_neg hin, placedText, if_neg (by omega)]

end Cells

section Alignment

/-- The position of the call on the surface. -/
theorem mappedX_toInt (hfits : PlacementFits dc a) (hcount : 0 ≤ a.count.toInt) :
    (a.x + (dc.vpOrgX - dc.winOrgX)).toInt = dc.mappedX a := by
  have hl := hfits.left
  have hr := hfits.right
  have hmap : dc.mappedX a = a.x.toInt + (dc.vpOrgX.toInt - dc.winOrgX.toInt) := by
    unfold TextDc.mappedX
    omega
  rw [Int32.toInt_add, Int32.toInt_sub, Int.add_bmod_bmod, ← hmap]
  exact bmod_of_fits (by omega) (by omega)

theorem mappedY_toInt (hfits : PlacementFits dc a) :
    (a.y + (dc.vpOrgY - dc.winOrgY)).toInt = dc.mappedY a := by
  have ht := hfits.top
  have hb := hfits.bottom
  have hmap : dc.mappedY a = a.y.toInt + (dc.vpOrgY.toInt - dc.winOrgY.toInt) := by
    unfold TextDc.mappedY
    omega
  rw [Int32.toInt_add, Int32.toInt_sub, Int.add_bmod_bmod, ← hmap]
  exact bmod_of_fits (by omega) (by omega)

/-- The first cell is drawn where the alignment says, but for the shift. -/
theorem startX_toInt (hfits : PlacementFits dc a) (hcount : 0 ≤ a.count.toInt)
    (hx : AlignedX dc.textAlign (dc.mappedX a) a.count.toInt x₀) :
    (dc.startX a).toInt = x₀ + shiftX dc.textAlign a.count.toInt := by
  have hl := hfits.left
  have hr := hfits.right
  have hmap := mappedX_toInt hfits hcount
  have hwidth : (a.count * fontWidth / 2).toInt = 4 * a.count.toInt := by
    have height : fontWidth.toInt = 8 := rfl
    have htwo : (2 : Int32).toInt = 2 := rfl
    have hmul : (a.count * fontWidth).toInt = a.count.toInt * 8 := by
      rw [int_mul_of_fits (by rw [height]; omega) (by rw [height]; omega), height]
    rw [Int32.toInt_div_of_ne_right _ _ (by decide), hmul, htwo,
      Int.tdiv_eq_ediv_of_nonneg (by omega)]
    omega
  have hhalf : (a.x + (dc.vpOrgX - dc.winOrgX) - a.count * fontWidth / 2).toInt =
      dc.mappedX a - 4 * a.count.toInt := by
    rw [int_sub_of_fits (by rw [hmap, hwidth]; omega) (by rw [hmap, hwidth]; omega), hmap, hwidth]
  unfold TextDc.startX alignX shiftX
  rcases hx with ⟨hal, rfl⟩ | ⟨hal, rfl⟩ | ⟨hal, rfl⟩
  · have hzero : ¬dc.textAlign &&& taCenter ≠ 0 := not_not_intro hal
    have hright : ¬dc.textAlign &&& taRight ≠ 0 := by
      have hmask : taRight = taCenter &&& taRight := rfl
      have hleft : taLeft = 0 := rfl
      rw [hmask, ← UInt32.and_assoc, hal, hleft, UInt32.zero_and]
      exact not_not_intro rfl
    rw [if_neg hzero, if_neg hright, hmap, hal, if_neg (by decide), Int.add_zero]
  · rw [if_pos (by rw [hal]; decide), hhalf, hal, if_pos rfl]
    omega
  · rw [if_pos (by rw [hal]; decide), hhalf, hal, if_neg (by decide), Int.add_zero]

theorem startY_toInt (hfits : PlacementFits dc a)
    (hy : AlignedY dc.textAlign (dc.mappedY a) y₀) :
    (dc.startY a).toInt = y₀ + shiftY dc.textAlign := by
  have ht := hfits.top
  have hb := hfits.bottom
  have hmap := mappedY_toInt hfits
  have hheight : fontHeight.toInt = 16 := rfl
  have hbottom : dc.textAlign &&& taBottom = dc.textAlign &&& taBaseline &&& taBottom := by
    rw [UInt32.and_assoc]
    rfl
  have hup : (a.y + (dc.vpOrgY - dc.winOrgY) - fontHeight).toInt = dc.mappedY a - 16 := by
    rw [int_sub_of_fits (by rw [hmap, hheight]; omega) (by rw [hmap, hheight]; omega), hmap,
      hheight]
  unfold TextDc.startY alignY shiftY
  rw [hbottom]
  rcases hy with ⟨hal, rfl⟩ | ⟨hal, rfl⟩ | ⟨hal, rfl⟩
  · rw [hal, if_neg (by decide), if_neg (by decide), if_neg (by decide), hmap, Int.add_zero]
  · rw [hal, if_pos (by decide), hup, if_neg (by decide), Int.add_zero]
  · rw [hal, if_pos (by decide), hup, if_pos rfl]
    omega

theorem AlignedX.le {textAlign : UInt32} {x count : Int} (h : AlignedX textAlign x count x₀)
    (hcount : 0 ≤ count) : x₀ + shiftX textAlign count ≤ x := by
  unfold shiftX
  rcases h with ⟨hal, rfl⟩ | ⟨hal, rfl⟩ | ⟨hal, rfl⟩
  · rw [hal, if_neg (by decide)]
    omega
  · rw [hal, if_pos rfl]
    omega
  · rw [hal, if_neg (by decide)]
    omega

end Alignment

section Placement

theorem PlainText.rectFor (h : PlainText a str) (option : UInt32) : a.rectFor option = none := by
  unfold TextArgs.rectFor
  rw [h.options, UInt32.zero_and, if_neg (not_not_intro rfl)]

theorem PlainText.colors (h : PlainText a str) : a.colors dc = dc.textColors := by
  unfold TextArgs.colors TextDc.textColors
  simp [h.options]

/-- What a plain call shows: the text, shifted from its place. -/
theorem textOut_shows (hsurface : SurfaceFits words dc.toGdiDc) (hbuf : dc.pixels = some buf)
    (htext : PlainText a str) (hfits : PlacementFits dc a)
    (hx : AlignedX dc.textAlign (dc.mappedX a) a.count.toInt x₀)
    (hy : AlignedY dc.textAlign (dc.mappedY a) y₀) :
    Shows dc.toGdiDc buf (gdiExtTextOut dc a)
      (placedText dc.textColors str a.count.toInt.toNat (x₀ + shiftX dc.textAlign a.count.toInt)
        (y₀ + shiftY dc.textAlign)) := by
  have hcount := htext.count
  by_cases hempty : a.count.toInt ≤ 0
  · rw [extTextOut_empty hbuf htext.text hempty]
    refine (shows_pure _).congr ?_
    intro px py _
    rw [placedText, if_neg (by omega)]
  · have hr := hfits.right
    have hstart := startX_toInt hfits hcount hx
    have hle := hx.le hcount
    have hshows := extTextOut_shows hsurface hbuf htext.text (by omega)
    refine hshows.congr ?_
    intro px py _
    have hplain : cellsPicture dc.textColors (dc.startY a).toInt _ px py = _ :=
      cellsPicture_plain dc.textColors (dc.startY a).toInt htext.dx (htext.rectFor etoClipped) 0
        a.count.toInt.toNat (dc.startX a) (fun i hi => htext.chars i (by simp_all))
        (by rw [hstart]; omega)
    have hrange : a.indices = List.range' 0 a.count.toInt.toNat := List.range_eq_range'
    have hfill : fillPicture a (a.colors dc).bg px py = none := by
      rw [fillPicture, htext.rectFor]
      rfl
    rw [hfill, Option.or_none, htext.colors, TextDc.cells, hrange, hplain, hstart,
      startY_toInt hfits hy]
    simp only [Nat.zero_add]

/-- A plain text is drawn at the place that its alignment says exactly if the alignment is neither
to the right nor to the baseline, or no pixel tells the difference. -/
theorem textOut_placed_iff (hsurface : SurfaceFits words dc.toGdiDc) (hbuf : dc.pixels = some buf)
    (htext : PlainText a str) (hfits : PlacementFits dc a)
    (hx : AlignedX dc.textAlign (dc.mappedX a) a.count.toInt x₀)
    (hy : AlignedY dc.textAlign (dc.mappedY a) y₀) :
    Shows dc.toGdiDc buf (gdiExtTextOut dc a)
        (placedText dc.textColors str a.count.toInt.toNat x₀ y₀) ↔
      PlacementRight dc a str x₀ y₀ := by
  rw [(textOut_shows hsurface hbuf htext hfits hx hy).iff_eq]
  constructor
  · exact fun h => .inr h
  · rintro (⟨hright, hbaseline⟩ | h)
    · intro px py _
      rw [shiftX, if_neg hright, shiftY, if_neg hbaseline, Int.add_zero, Int.add_zero]
    · exact h

/-- A surface of 16 by 16 pixels, and the letter A at the place (8, 0). -/
def letterDc (textAlign : UInt32) : TextDc :=
  { width := 16, height := 16, pitch := 64, pixels := some 0, textAlign }

def letterArgs : TextArgs :=
  { x := 8, y := 0, options := 0, rect := none, str := some fun _ => 65, count := 1, dx := none }

theorem surfaceFits_letter (textAlign : UInt32) :
    SurfaceFits (fun _ => 256) (letterDc textAlign).toGdiDc := by
  have hsize : (16 : Int32).toInt = 16 := rfl
  have hwidth : (letterDc textAlign).width.toInt = 16 := hsize
  have hheight : (letterDc textAlign).height.toInt = 16 := hsize
  have hstride : (letterDc textAlign).stride = 16 := by
    show (64 / 4 : Int32).toInt = 16
    decide
  refine ⟨by omega, by omega, by omega, ?_, ?_⟩
  · intro buf _
    rw [hheight, hstride]
    decide
  · rw [hheight, hstride]
    decide

theorem plainText_letter : PlainText letterArgs fun _ => 65 :=
  ⟨rfl, rfl, rfl, by decide, fun _ _ => by decide⟩

theorem placementFits_letter (textAlign : UInt32) :
    PlacementFits (letterDc textAlign) letterArgs := by
  constructor <;> simp [TextDc.mappedX, TextDc.mappedY, letterDc, letterArgs]

theorem textOut_placed_iff_letter :
    Shows (letterDc taCenter).toGdiDc 0 (gdiExtTextOut (letterDc taCenter) letterArgs)
      (placedText (letterDc taCenter).textColors (fun _ => 65) 1 4 0) :=
  (textOut_placed_iff (surfaceFits_letter taCenter) rfl plainText_letter
    (placementFits_letter taCenter) (.inr (.inr ⟨rfl, rfl⟩)) (.inl ⟨rfl, rfl⟩)).mpr
    (.inl ⟨by decide, by decide⟩)

/-- With `TA_RIGHT` the letter belongs into the columns 0 to 7, and is drawn in the columns 4
to 11. -/
theorem textOut_right : AlignedX taRight ((letterDc taRight).mappedX letterArgs) 1 0 ∧
    AlignedY taRight ((letterDc taRight).mappedY letterArgs) 0 ∧
    ¬Shows (letterDc taRight).toGdiDc 0 (gdiExtTextOut (letterDc taRight) letterArgs)
      (placedText (letterDc taRight).textColors (fun _ => 65) 1 0 0) := by
  have hx : AlignedX taRight ((letterDc taRight).mappedX letterArgs) 1 0 := .inr (.inl ⟨rfl, rfl⟩)
  have hy : AlignedY taRight ((letterDc taRight).mappedY letterArgs) 0 := .inl ⟨rfl, rfl⟩
  refine ⟨hx, hy, ?_⟩
  rw [(textOut_shows (surfaceFits_letter taRight) rfl plainText_letter
    (placementFits_letter taRight) hx hy).iff_eq]
  intro h
  exact absurd (h 3 2 ⟨by decide, by decide, by decide, by decide⟩) (by decide +kernel)

end Placement

end Wbox.Gdi
