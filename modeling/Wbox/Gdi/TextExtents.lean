import Mathlib.Order.Bounds.Basic
import Wbox.Gdi.TextOut

/-!
# Measuring text and drawing it

Drawing advances by the width of the built-in font and passes over control characters; measuring
takes every character to be as wide as those of the selected font.
-/

namespace Wbox.Gdi

open Wbox.Lib Wbox.Lib.Logged

/-- The characters of a string that are drawn. -/
def printable (str : Nat → UInt16) (is : List Nat) : Nat := is.countP fun i => ¬str i < 32

/-- The lengths of the beginnings of a string that are not wider than a limit. -/
def fittingPrefixes (dc : TextDc) (count limit : Int32) : Set Nat :=
  {n | n ≤ count.toInt.toNat ∧ (gdiGetTextExtent dc (Int32.ofNat n)).cx.toInt ≤ limit.toInt}

/-- Measuring a string agrees with drawing it. -/
structure MeasureAgrees (dc : TextDc) (str : Nat → UInt16) (count : Int32) : Prop where
  drawn : ∀ (a : TextArgs) (m : PixelMem), a.str = some str → a.count = count → a.dx = none →
    ((gdiExtTextOut dc a).value m).1 = true →
      ((gdiExtTextOut dc a).value m).2.curX - a.x = (gdiGetTextExtent dc count).cx
  unlimited : ∀ limit : Int32, limit.toInt ≤ 0 →
    (gdiGetTextExtentEx dc count limit).size.cx = (gdiGetTextExtent dc count).cx
  fit : ∀ limit : Int32, 0 < limit.toInt → ∃ n : Nat,
    (gdiGetTextExtentEx dc count limit).fit = Int32.ofNat n ∧
      IsGreatest (fittingPrefixes dc count limit) n

/-- The width of the string is an `int`, and it is the width of the characters that are drawn, as
far as the string is drawn. -/
def MeasureFits (dc : TextDc) (str : Nat → UInt16) (count : Int32) : Prop :=
  count.toInt * (charWidth dc.font).toInt < 2 ^ 31 ∧
    (dc.pixels ≠ none → 0 < count.toInt →
      ((8 * printable str (List.range count.toInt.toNat) : Nat) : Int) % 2 ^ 32 =
        count.toInt * (charWidth dc.font).toInt)

variable {dc : TextDc} {str : Nat → UInt16} {count limit cw : Int32} {a : TextArgs} {m : PixelMem}

theorem charWidth_pos (font : Option GdiFont) : 0 < (charWidth font).toInt := by
  have height : (0 : Int) < fontWidth.toInt := by decide
  unfold charWidth
  split
  · split
    · next h =>
      rw [gt_iff_lt, Int32.lt_iff_toInt_lt, Int32.toInt_zero] at h
      exact h
    · exact height
  · exact height

section Drawn

/-- Where the loop over the characters comes to. -/
theorem drawChars_value (a : TextArgs) (str : Nat → UInt16)
    (draw : Int32 → UInt16 → DrawM PUnit) (hdx : a.dx = none) (is : List Nat) (curX : Int32)
    (m : PixelMem) : (drawChars a str draw is curX).value m =
      curX + Int32.ofInt (8 * printable str is : Nat) := by
  have hadvance : ∀ i, a.advance i = 8 := by
    intro i
    rw [TextArgs.advance, hdx]
    rfl
  induction is generalizing curX m with
  | nil =>
    have hzero : Int32.ofInt ((8 * printable str [] : Nat) : Int) = 0 := rfl
    rw [hzero, Int32.add_zero]
    rfl
  | cons i is ih =>
    unfold drawChars
    by_cases hctl : str i < 32
    · have hcount : printable str (i :: is) = printable str is :=
        List.countP_cons_of_neg (by simp [hctl])
      rw [if_pos hctl, ih, hcount]
    · have hcount : printable str (i :: is) = printable str is + 1 :=
        List.countP_cons_of_pos (by simp [hctl])
      have hstep : curX + 8 + Int32.ofInt ((8 * printable str is : Nat) : Int) =
          curX + Int32.ofInt ((8 * (printable str is + 1) : Nat) : Int) := by
        rw [show ((8 * (printable str is + 1) : Nat) : Int) =
          8 + ((8 * printable str is : Nat) : Int) by omega, Int32.ofInt_add, Int32.add_assoc]
        rfl
      rw [if_neg hctl, hcount, ← hstep]
      split
      · rw [ih, hadvance]
      · rw [value_bind, ih, hadvance]

/-- With the alignment to the left, a call moves the position by what it draws. -/
theorem textOut_moves (hleft : dc.textAlign &&& taCenter = 0)
    (hcp : dc.textAlign &&& taUpdateCp ≠ 0) (hstr : a.str = some str) (hdx : a.dx = none)
    (hret : ((gdiExtTextOut dc a).value m).1 = true) :
    dc.pixels ≠ none ∧ 0 < a.count.toInt ∧ ((gdiExtTextOut dc a).value m).2.curX - a.x =
      Int32.ofInt (8 * printable str (List.range a.count.toInt.toNat) : Nat) := by
  have hright : dc.textAlign &&& taRight = 0 := by
    have hmask : taRight = taCenter &&& taRight := rfl
    rw [hmask, ← UInt32.and_assoc, hleft, UInt32.zero_and]
  have hx : ∀ x, alignX dc.textAlign x a.count = x := by
    intro x
    rw [alignX, if_neg (not_not_intro hleft), if_neg (not_not_intro hright)]
  cases hbuf : dc.pixels with
  | none =>
    unfold gdiExtTextOut at hret
    rw [hbuf] at hret
    exact absurd hret (by simp)
  | some buf =>
    unfold gdiExtTextOut at hret ⊢
    rw [hbuf, hstr] at hret ⊢
    dsimp only at hret ⊢
    by_cases hcount : a.count ≤ 0
    · rw [if_pos hcount] at hret
      exact absurd hret (by simp)
    · have hpos : 0 < a.count.toInt := by
        rw [Int32.le_iff_toInt_le, Int32.toInt_zero, not_le] at hcount
        exact hcount
      refine ⟨by simp, hpos, ?_⟩
      rw [if_neg hcount]
      simp only [drawText, value_bind, value_pure, drawChars_value _ _ _ hdx, hx, moveTo,
        if_pos hcp, TextArgs.indices]
      grind

/-- Such a call on a surface draws a string that is not empty. -/
theorem textOut_draws (hstr : a.str = some str) (hbuf : dc.pixels ≠ none)
    (hcount : 0 < a.count.toInt) : ((gdiExtTextOut dc a).value m).1 = true := by
  obtain ⟨buf, hbuf⟩ := Option.ne_none_iff_exists'.mp hbuf
  unfold gdiExtTextOut
  rw [hbuf, hstr]
  dsimp only
  rw [if_neg]
  · rfl
  · rw [Int32.le_iff_toInt_le, Int32.toInt_zero, not_le]
    exact hcount

end Drawn

section Fit

/-- Without a limit the loop adds up all widths. -/
theorem fitChars_unlimited (cw limit : Int32) (hlimit : limit.toInt ≤ 0) (n : Nat)
    (r : Int32 × Int32 × List Int32) :
    (fitChars cw limit n r).1 = r.1 + Int32.ofNat n * cw := by
  induction n generalizing r with
  | zero =>
    show r.1 = r.1 + 0 * cw
    rw [Int32.zero_mul, Int32.add_zero]
  | succ n ih =>
    obtain ⟨totalWidth, charsFit, dx⟩ := r
    have hpos : ¬limit > 0 := by
      rw [gt_iff_lt, Int32.lt_iff_toInt_lt, Int32.toInt_zero]
      omega
    unfold fitChars
    rw [if_neg fun h => hpos h.1, ih, Int32.ofNat_add]
    show totalWidth + cw + Int32.ofNat n * cw = totalWidth + (Int32.ofNat n + 1) * cw
    grind

/-- With a limit it goes on while the next character fits, if no width wraps. -/
theorem fitChars_limited (cw limit : Int32) (hcw : 0 < cw.toInt) (hlimit : 0 < limit.toInt)
    (n f : Nat) (w : Int32) (dx : List Int32) (hw : w.toInt = f * cw.toInt)
    (hle : w.toInt ≤ limit.toInt) (hroom : ((f + n : Nat) : Int) * cw.toInt < 2 ^ 31) :
    ∃ k ≤ n, (fitChars cw limit n (w, Int32.ofNat f, dx)).2.1 = Int32.ofNat (f + k) ∧
      ((f + k : Nat) : Int) * cw.toInt ≤ limit.toInt ∧
      (k < n → limit.toInt < ((f + k + 1 : Nat) : Int) * cw.toInt) := by
  induction n generalizing f w dx with
  | zero => exact ⟨0, le_refl 0, rfl, by rw [Nat.add_zero, ← hw]; exact hle, by omega⟩
  | succ n ih =>
    have hstep : ((f + 1 : Nat) : Int) * cw.toInt = f * cw.toInt + cw.toInt := by
      rw [Nat.cast_add, Int.add_mul]
      omega
    have hmono : ((f + 1 : Nat) : Int) * cw.toInt ≤ ((f + (n + 1) : Nat) : Int) * cw.toInt :=
      Int.mul_le_mul_of_nonneg_right (by omega) (by omega)
    have hlow := w.le_toInt
    have hadd : (w + cw).toInt = ((f + 1 : Nat) : Int) * cw.toInt := by
      rw [int_add_of_fits (by omega) (by omega), hw, hstep]
    have hpos : limit > 0 := by
      rw [gt_iff_lt, Int32.lt_iff_toInt_lt, Int32.toInt_zero]
      exact hlimit
    unfold fitChars
    by_cases hfits : w + cw > limit
    · rw [gt_iff_lt, Int32.lt_iff_toInt_lt, hadd] at hfits
      rw [if_pos ⟨hpos, by rw [gt_iff_lt, Int32.lt_iff_toInt_lt, hadd]; exact hfits⟩]
      refine ⟨0, Nat.zero_le _, rfl, ?_, fun _ => hfits⟩
      rw [Nat.add_zero, ← hw]
      exact hle
    · have hfits' := hfits
      rw [gt_iff_lt, Int32.lt_iff_toInt_lt, hadd, Int.not_lt] at hfits'
      rw [if_neg fun h => hfits h.2]
      have hnext : Int32.ofNat f + 1 = Int32.ofNat (f + 1) := (Int32.ofNat_add f 1).symm
      obtain ⟨k, hk, hfit, hin, hout⟩ := ih (f + 1) (w + cw) (dx ++ [w + cw]) hadd
        (by rw [hadd]; exact hfits') (by rw [Nat.add_right_comm]; exact hroom)
      rw [hnext]
      refine ⟨k + 1, by omega, ?_, ?_, ?_⟩
      · rw [hfit, Nat.add_right_comm, Nat.add_assoc]
      · rw [Nat.add_right_comm f 1 k] at hin
        exact hin
      · intro hlt
        have hnot := hout (by omega)
        rw [Nat.add_right_comm f 1 k] at hnot
        exact hnot

/-- The width of a beginning of the string. -/
theorem reach_toInt {n : Nat} (hn : (n : Int) < 2 ^ 31)
    (hroom : (n : Int) * (charWidth dc.font).toInt < 2 ^ 31) :
    (gdiGetTextExtent dc (Int32.ofNat n)).cx.toInt = n * (charWidth dc.font).toInt := by
  have hpos := charWidth_pos dc.font
  have htoInt : (Int32.ofNat n).toInt = n := Int32.toInt_ofNat_of_lt (by omega)
  have hnonneg : 0 ≤ (n : Int) * (charWidth dc.font).toInt := Int.mul_nonneg (by omega) (by omega)
  unfold gdiGetTextExtent
  dsimp only
  rw [int_mul_of_fits (by rw [htoInt]; omega) (by rw [htoInt]; exact hroom), htoInt]

/-- Where no width wraps, the number of characters that fit is the greatest one. -/
theorem fit_isGreatest (hcount : 0 ≤ count.toInt) (hlimit : 0 < limit.toInt)
    (hroom : count.toInt * (charWidth dc.font).toInt < 2 ^ 31) :
    ∃ n : Nat, (gdiGetTextExtentEx dc count limit).fit = Int32.ofNat n ∧
      IsGreatest (fittingPrefixes dc count limit) n := by
  have hpos := charWidth_pos dc.font
  have hlt := count.toInt_lt
  have hext : ∀ n : Nat, n ≤ count.toInt.toNat →
      (gdiGetTextExtent dc (Int32.ofNat n)).cx.toInt = n * (charWidth dc.font).toInt := by
    intro n hn
    have hle : (n : Int) * (charWidth dc.font).toInt ≤
        count.toInt * (charWidth dc.font).toInt :=
      Int.mul_le_mul_of_nonneg_right (by omega) (by omega)
    exact reach_toInt (by omega) (by omega)
  obtain ⟨k, hk, hfit, hin, hout⟩ := fitChars_limited (charWidth dc.font) limit hpos hlimit
    count.toInt.toNat 0 0 [] (by simp) (by rw [Int32.toInt_zero]; omega)
    (by rw [Nat.zero_add, Int.toNat_of_nonneg hcount]; exact hroom)
  rw [Nat.zero_add] at hfit hin hout
  refine ⟨k, hfit, ⟨hk, ?_⟩, ?_⟩
  · rw [hext k hk]
    exact hin
  · rintro n ⟨hn, hwidth⟩
    rw [hext n hn] at hwidth
    by_contra hgt
    have hle : ((k + 1 : Nat) : Int) * (charWidth dc.font).toInt ≤
        n * (charWidth dc.font).toInt :=
      Int.mul_le_mul_of_nonneg_right (by omega) (by omega)
    have hnot := hout (by omega)
    omega

/-- Where a width wraps, a beginning that is too long is taken for one of negative width. -/
theorem width_fits (hcount : 0 ≤ count.toInt) (h : ∀ limit : Int32, 0 < limit.toInt → ∃ n : Nat,
    (gdiGetTextExtentEx dc count limit).fit = Int32.ofNat n ∧
      IsGreatest (fittingPrefixes dc count limit) n) :
    count.toInt * (charWidth dc.font).toInt < 2 ^ 31 := by
  have hpos := charWidth_pos dc.font
  have hcwlt := (charWidth dc.font).toInt_lt
  have hlt := count.toInt_lt
  by_contra hbig
  -- The width is more than 1, so that no character fits into the limit 1.
  have hcw : 1 < (charWidth dc.font).toInt := by
    by_contra hone
    have heq : (charWidth dc.font).toInt = 1 := by omega
    rw [heq] at hbig
    omega
  obtain ⟨n, hfit, hgreatest⟩ := h 1 (by decide)
  have hnone : ∀ k, (fitChars (charWidth dc.font) 1 k (0, 0, [])).2.1 = 0 := by
    intro k
    cases k with
    | zero => rfl
    | succ k =>
      unfold fitChars
      rw [if_pos]
      refine ⟨by decide, ?_⟩
      rw [gt_iff_lt, Int32.lt_iff_toInt_lt, Int32.zero_add]
      exact hcw
  have hn : n = 0 := by
    have hzero : Int32.ofNat n = 0 := hfit.symm.trans (hnone _)
    have hn := hgreatest.1.1
    have htoInt : (Int32.ofNat n).toInt = n := Int32.toInt_ofNat_of_lt (by omega)
    rw [hzero, Int32.toInt_zero] at htoInt
    omega
  -- The first beginning of 2^31 pixels or more.
  have hdiv := Int.emod_add_mul_ediv (2 ^ 31 - 1) (charWidth dc.font).toInt
  have hmod := Int.emod_nonneg (2 ^ 31 - 1) (show (charWidth dc.font).toInt ≠ 0 by omega)
  have hmod' := Int.emod_lt_of_pos (2 ^ 31 - 1) hpos
  have hq : 0 ≤ (2 ^ 31 - 1) / (charWidth dc.font).toInt := Int.ediv_nonneg (by omega) (by omega)
  obtain ⟨q, hq'⟩ := Int.eq_ofNat_of_zero_le hq
  rw [hq', Int.mul_comm] at hdiv
  have hfirst : ((q + 1 : Nat) : Int) * (charWidth dc.font).toInt =
      q * (charWidth dc.font).toInt + (charWidth dc.font).toInt := by
    rw [Nat.cast_add, Int.add_mul]
    omega
  have hq1 : q + 1 ≤ count.toInt.toNat := by
    by_contra hgt
    have hle : count.toInt * (charWidth dc.font).toInt ≤ q * (charWidth dc.font).toInt :=
      Int.mul_le_mul_of_nonneg_right (by omega) (by omega)
    omega
  have hmem : q + 1 ∈ fittingPrefixes dc count 1 := by
    refine ⟨hq1, ?_⟩
    have htoInt : (Int32.ofNat (q + 1)).toInt = (q + 1 : Nat) :=
      Int32.toInt_ofNat_of_lt (by omega)
    show (Int32.ofNat (q + 1) * charWidth dc.font).toInt ≤ 1
    rw [Int32.toInt_mul, htoInt, hfirst, Int.bmod_def]
    omega
  have hle := hgreatest.2 hmem
  omega

end Fit

/-- Measuring agrees with drawing, for every call that draws the string from the left and moves the
position, exactly if the string is as wide in the selected font as its printable characters are in
the built-in one, and no width wraps. -/
theorem measure_iff (hcount : 0 ≤ count.toInt) (hleft : dc.textAlign &&& taCenter = 0)
    (hcp : dc.textAlign &&& taUpdateCp ≠ 0) :
    MeasureAgrees dc str count ↔ MeasureFits dc str count := by
  have hpos := charWidth_pos dc.font
  have hlt := count.toInt_lt
  have hnonneg : 0 ≤ count.toInt * (charWidth dc.font).toInt := Int.mul_nonneg hcount (by omega)
  have hwrap : ∀ v : Int, (Int32.ofInt v).toInt = v.bmod (2 ^ 32) :=
    fun _ => Int32.toInt_ofInt
  have hofNat : Int32.ofNat count.toInt.toNat = count := by
    apply Int32.toInt_inj.mp
    rw [Int32.toInt_ofNat_of_lt (by omega)]
    omega
  have hwidth : count.toInt * (charWidth dc.font).toInt < 2 ^ 31 →
      (gdiGetTextExtent dc count).cx.toInt = count.toInt * (charWidth dc.font).toInt := by
    intro hroom
    show (count * charWidth dc.font).toInt = _
    exact int_mul_of_fits (by omega) hroom
  constructor
  · intro h
    have hroom := width_fits hcount h.fit
    refine ⟨hroom, ?_⟩
    intro hbuf hsome
    let a : TextArgs :=
      { x := 0, y := 0, options := 0, rect := none, str := some str, count, dx := none }
    have hret : ((gdiExtTextOut dc a).value fun _ _ => 0).1 = true := textOut_draws rfl hbuf hsome
    have hdrawn := h.drawn a (fun _ _ => 0) rfl rfl rfl hret
    obtain ⟨-, -, hmoved⟩ := textOut_moves hleft hcp rfl rfl hret
    have heq := congrArg Int32.toInt (hmoved.symm.trans hdrawn)
    rw [hwidth hroom, hwrap, Int.bmod_def] at heq
    dsimp only [a] at heq
    omega
  · rintro ⟨hroom, hprintable⟩
    refine ⟨?_, ?_, fun limit hlimit => fit_isGreatest hcount hlimit hroom⟩
    · rintro a m hstr rfl hdx hret
      obtain ⟨hbuf, hsome, hmoved⟩ := textOut_moves hleft hcp hstr hdx hret
      rw [hmoved]
      apply Int32.toInt_inj.mp
      have heq := hprintable hbuf hsome
      rw [hwidth hroom, hwrap, Int.bmod_def]
      omega
    · intro limit hlimit
      show (fitChars (charWidth dc.font) limit count.toInt.toNat (0, 0, [])).1 = _
      rw [fitChars_unlimited _ _ hlimit, hofNat, Int32.zero_add]
      rfl

/-- A context with a surface, no font, and the position moved by text. -/
def textDc : TextDc :=
  { width := 16, height := 16, pitch := 64, pixels := some 0, textAlign := taUpdateCp }

/-- A font whose characters are 10 pixels wide. -/
def wideFont : GdiFont := { height := 16, width := 10 }

theorem measure_iff_letter : MeasureAgrees textDc (fun _ => 65) 1 :=
  (measure_iff (by decide) (by decide) (by decide)).mpr ⟨by decide, fun _ _ => by decide⟩

/-- The letter A is measured with 10 pixels and drawn with 8. -/
theorem measure_wide : ¬MeasureAgrees { textDc with font := some wideFont } (fun _ => 65) 1 := by
  intro h
  let a : TextArgs :=
    { x := 0, y := 0, options := 0, rect := none, str := some fun _ => 65, count := 1, dx := none }
  have hret : ((gdiExtTextOut { textDc with font := some wideFont } a).value fun _ _ => 0).1 =
      true := textOut_draws rfl (by decide) (by decide)
  have hdrawn := h.drawn a (fun _ _ => 0) rfl rfl rfl hret
  obtain ⟨-, -, hmoved⟩ := textOut_moves (by decide) (by decide) rfl rfl hret
  exact absurd (hmoved.symm.trans hdrawn) (by decide)

end Wbox.Gdi
