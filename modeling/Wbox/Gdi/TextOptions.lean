import Wbox.Gdi.TextPlacement

/-!
# The rectangle of a text

`ETO_CLIPPED` and `ETO_OPAQUE` of `gdi_ext_text_out` (`src/gdi/gdi_text.c:180–190`, `214–219`)
against a rectangle that is moved by the origins as the text is. The code does not move it, clips
whole characters at its left and right side only, and does nothing for an empty string.
-/

namespace Wbox.Gdi

open Wbox.Lib Wbox.Lib.Logged

/-- What the characters of a call show. -/
def TextDc.text (dc : TextDc) (a : TextArgs) (str : Nat → UInt16) : Int → Int → Option UInt32 :=
  cellsPicture (a.colors dc) (dc.startY a).toInt (dc.cells a str)

/-- The rectangle in one colour, by the logical places. -/
def logicalPicture (dc : GdiDc) (rect : Rect) (c : UInt32) (px py : Int) : Option UInt32 :=
  if (rect.left.toInt ≤ dc.logicalX px ∧ dc.logicalX px < rect.right.toInt) ∧
      rect.top.toInt ≤ dc.logicalY py ∧ dc.logicalY py < rect.bottom.toInt then some c
  else none

/-- The pixel has the coordinates of a place of the rectangle. -/
def Rect.Covers (rect : Rect) (px py : Int) : Prop :=
  (rect.left.toInt ≤ px ∧ px < rect.right.toInt) ∧ rect.top.toInt ≤ py ∧ py < rect.bottom.toInt

/-- With `ETO_CLIPPED` no pixel outside the rectangle changes; with `ETO_OPAQUE` the text is in
front of the rectangle in the colour of the background. -/
structure RespectsRect (dc : TextDc) (buf : Nat) (a : TextArgs) (str : Nat → UInt16)
    (rect : Rect) : Prop where
  clipped : a.options &&& etoClipped ≠ 0 → ∀ m px py, dc.OnSurface px py →
    ¬dc.InRect rect px py →
      (gdiExtTextOut dc a).after m buf (py * dc.stride + px) = m buf (py * dc.stride + px)
  filled : a.options &&& etoOpaque ≠ 0 →
    Shows dc.toGdiDc buf (gdiExtTextOut dc a) fun px py =>
      (dc.text a str px py).or
        (logicalPicture dc.toGdiDc rect (colorrefToArgb dc.bkColor) px py)

/-- With `ETO_CLIPPED` the characters that are not beside the rectangle colour no pixel outside it;
with `ETO_OPAQUE` the pixels that the text leaves are in the rectangle if they have its coordinates,
and only then, and none is if the string is empty. -/
structure OptionsFit (dc : TextDc) (a : TextArgs) (str : Nat → UInt16) (rect : Rect) : Prop where
  clipped : a.options &&& etoClipped ≠ 0 → ∀ px py, dc.OnSurface px py →
    ¬dc.InRect rect px py → dc.text a str px py = none
  filled : a.options &&& etoOpaque ≠ 0 → ∀ px py, dc.OnSurface px py →
    dc.text a str px py = none →
      (dc.InRect rect px py ↔ 0 < a.count.toInt ∧ rect.Covers px py)

variable {dc : TextDc} {a : TextArgs} {str : Nat → UInt16} {rect : Rect} {buf : Nat}
  {words : Nat → Nat} {px py : Int} {c : UInt32}

theorem logicalPicture_eq (hin : dc.InRect rect px py) :
    logicalPicture dc.toGdiDc rect c px py = some c :=
  if_pos ⟨⟨hin.2.1, hin.2.2.1⟩, hin.2.2.2⟩

theorem logicalPicture_none (hon : dc.OnSurface px py) (hin : ¬dc.InRect rect px py) :
    logicalPicture dc.toGdiDc rect c px py = none :=
  if_neg fun h => hin ⟨hon, h.1.1, h.1.2, h.2⟩

/-- What a call shows, with a string that is empty or not: the text in front of the rectangle where
its coordinates are. -/
def TextDc.shown (dc : TextDc) (a : TextArgs) (str : Nat → UInt16) (px py : Int) :
    Option UInt32 :=
  (dc.text a str px py).or
    (if 0 < a.count.toInt then fillPicture a (colorrefToArgb dc.bkColor) px py else none)

theorem textOut_shown (hsurface : SurfaceFits words dc.toGdiDc) (hbuf : dc.pixels = some buf)
    (hstr : a.str = some str) :
    Shows dc.toGdiDc buf (gdiExtTextOut dc a) (dc.shown a str) := by
  by_cases hcount : 0 < a.count.toInt
  · refine (extTextOut_shows hsurface hbuf hstr hcount).congr ?_
    intro px py _
    rw [TextDc.shown, if_pos hcount]
    rfl
  · have hindices : a.indices = [] := by
      have hzero : a.count.toInt.toNat = 0 := by omega
      rw [TextArgs.indices, hzero]
      rfl
    rw [extTextOut_empty hbuf hstr (by omega)]
    refine (shows_pure _).congr ?_
    intro px py _
    rw [TextDc.shown, if_neg hcount, TextDc.text, TextDc.cells, hindices]
    rfl

/-- Outside its coordinates the fill leaves the pixels. -/
theorem fillPicture_eq (hrect : a.rect = some rect) (hfill : a.options &&& etoOpaque ≠ 0)
    (hcovers : rect.Covers px py) : fillPicture a c px py = some c := by
  unfold fillPicture TextArgs.rectFor
  rw [if_pos hfill, hrect]
  exact if_pos hcovers

theorem fillPicture_none (hrect : a.rect = some rect)
    (h : a.options &&& etoOpaque ≠ 0 → ¬rect.Covers px py) : fillPicture a c px py = none := by
  unfold fillPicture TextArgs.rectFor
  split
  · next hfill =>
    rw [hrect]
    exact if_neg (h hfill)
  · rfl

/-- The options work exactly if the characters and the coordinates of the rectangle fit it. -/
theorem textOptions_iff (hsurface : SurfaceFits words dc.toGdiDc) (hbuf : dc.pixels = some buf)
    (hstr : a.str = some str) (hrect : a.rect = some rect) :
    RespectsRect dc buf a str rect ↔ OptionsFit dc a str rect := by
  have hshown := textOut_shown hsurface hbuf hstr
  constructor
  · intro h
    constructor
    · intro hopt px py hon hout
      -- The pixel keeps every colour, so that the picture has none there.
      have hnone : dc.shown a str px py = none := by
        refine getD_inj fun old => ?_
        exact ((hshown fun _ _ => old).1 px py hon).symm.trans
          (h.clipped hopt (fun _ _ => old) px py hon hout)
      rw [TextDc.shown, Option.or_eq_none_iff] at hnone
      exact hnone.1
    · intro hopt px py hon htext
      have heq := (hshown.iff_eq.mp (h.filled hopt)) px py hon
      rw [TextDc.shown, htext, Option.none_or, Option.none_or] at heq
      constructor
      · intro hin
        rw [logicalPicture_eq hin] at heq
        split at heq
        · next hcount =>
          refine ⟨hcount, ?_⟩
          by_contra hcovers
          rw [fillPicture_none hrect fun _ => hcovers] at heq
          exact Option.some_ne_none _ heq.symm
        · exact absurd heq.symm (Option.some_ne_none _)
      · rintro ⟨hcount, hcovers⟩
        by_contra hout
        rw [logicalPicture_none hon hout, if_pos hcount,
          fillPicture_eq hrect hopt hcovers] at heq
        exact Option.some_ne_none _ heq
  · intro h
    constructor
    · intro hopt m px py hon hout
      have htext := h.clipped hopt px py hon hout
      have hnone : dc.shown a str px py = none := by
        rw [TextDc.shown, htext, Option.none_or]
        split
        · next hcount =>
          refine fillPicture_none hrect ?_
          intro hfill hcovers
          exact hout ((h.filled hfill px py hon htext).mpr ⟨hcount, hcovers⟩)
        · rfl
      have hafter := (hshown m).1 px py hon
      rw [hnone, Option.getD_none] at hafter
      exact hafter
    · intro hopt
      refine hshown.congr ?_
      intro px py hon
      cases htext : dc.text a str px py with
      | some c =>
        rw [TextDc.shown, htext, Option.some_or, Option.some_or]
      | none =>
        rw [TextDc.shown, htext, Option.none_or, Option.none_or]
        have hiff := h.filled hopt px py hon htext
        by_cases hin : dc.InRect rect px py
        · obtain ⟨hcount, hcovers⟩ := hiff.mp hin
          rw [if_pos hcount, fillPicture_eq hrect hopt hcovers, logicalPicture_eq hin]
        · rw [logicalPicture_none hon hin]
          split
          · next hcount =>
            exact fillPicture_none hrect fun _ hcovers => hin (hiff.mpr ⟨hcount, hcovers⟩)
          · rfl

/-- The letter A at the place (0, 0) with both options and some rectangle. -/
def optionArgs (rect : Rect) : TextArgs :=
  { x := 0, y := 0, options := etoOpaque ||| etoClipped, rect := some rect
    str := some fun _ => 65, count := 1, dx := none }

/-- Without origins the logical place of a pixel has its coordinates. -/
theorem letterDc_logicalX (px : Int) : (letterDc 0).logicalX px = px := by
  show px - (0 : Int32).toInt + (0 : Int32).toInt = px
  rw [Int32.toInt_zero]
  omega

theorem letterDc_logicalY (py : Int) : (letterDc 0).logicalY py = py := by
  show py - (0 : Int32).toInt + (0 : Int32).toInt = py
  rw [Int32.toInt_zero]
  omega

theorem textOptions_iff_letter :
    RespectsRect (letterDc 0) 0 (optionArgs ⟨0, 0, 16, 16⟩) (fun _ => 65) ⟨0, 0, 16, 16⟩ := by
  refine (textOptions_iff (surfaceFits_letter 0) rfl rfl rfl).mpr ⟨?_, ?_⟩
  · rintro - px py ⟨hx, hxw, hy, hyh⟩ hout
    refine absurd ⟨⟨hx, hxw, hy, hyh⟩, ?_⟩ hout
    rw [letterDc_logicalX, letterDc_logicalY]
    exact ⟨hx, hxw, hy, hyh⟩
  · rintro - px py hon -
    unfold GdiDc.InRect Rect.Covers
    rw [letterDc_logicalX, letterDc_logicalY]
    constructor
    · rintro ⟨-, hl, hr, ht, hb⟩
      exact ⟨by decide, ⟨hl, hr⟩, ht, hb⟩
    · rintro ⟨-, ⟨hl, hr⟩, ht, hb⟩
      exact ⟨hon, hl, hr, ht, hb⟩

/-- The letter is not clipped below a rectangle of four rows. -/
theorem textOptions_below :
    ¬RespectsRect (letterDc 0) 0 (optionArgs ⟨0, 0, 8, 4⟩) (fun _ => 65) ⟨0, 0, 8, 4⟩ := by
  intro h
  have hout : ¬(letterDc 0).InRect ⟨0, 0, 8, 4⟩ 0 5 := by
    rintro ⟨-, -, -, -, hb⟩
    exact absurd hb (by decide)
  have hafter := h.clipped (by decide) (fun _ _ => 0) 0 5
    ⟨by decide, by decide, by decide, by decide⟩ hout
  have hshown := (textOut_shown (surfaceFits_letter 0) rfl
    (show (optionArgs ⟨0, 0, 8, 4⟩).str = some fun _ => 65 from rfl) fun _ _ => 0).1 0 5
    ⟨by decide, by decide, by decide, by decide⟩
  rw [hafter] at hshown
  exact absurd hshown (by decide +kernel)

end Wbox.Gdi
