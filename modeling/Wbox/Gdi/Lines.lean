import Wbox.Gdi.FillRect
import Wbox.Lib.LineWalk

/-!
# What a line visits

`gdi_line_to` (`src/gdi/gdi_drawing.c:462–513`) against a path of pixels from the current position
to the target. The source runs Bresenham's algorithm on `int`s, the extents and twice the error
term included.
-/

namespace Wbox.Gdi

open Wbox.Lib Wbox.Lib.Logged

/-- The number is an `int`. -/
def FitsInt (v : Int) : Prop := -2 ^ 31 ≤ v ∧ v < 2 ^ 31

instance (v : Int) : Decidable (FitsInt v) := inferInstanceAs (Decidable (_ ∧ _))

/-- The pixel at a logical position. -/
def GdiDc.devicePoint (dc : GdiDc) (x y : Int32) : Int × Int :=
  (x.toInt + dc.vpOrgX.toInt - dc.winOrgX.toInt, y.toInt + dc.vpOrgY.toInt - dc.winOrgY.toInt)

/-- A step from one pixel to another one next to it, in no coordinate away from the end. -/
def StepsTo (s e p q : Int × Int) : Prop :=
  p ≠ q ∧ (q.1 = p.1 ∨ q.1 = p.1 + (e.1 - s.1).sign) ∧ (q.2 = p.2 ∨ q.2 = p.2 + (e.2 - s.2).sign)

/-- A monotone path of neighbours from `s` to `e`, of as many points as the longer extent and one
more. -/
structure LinePath (s e : Int × Int) (n : Nat) (f : Nat → Int × Int) : Prop where
  first : f 0 = s
  last : f n = e
  length : (n : Int) = max |e.1 - s.1| |e.2 - s.2|
  steps : ∀ k < n, StepsTo s e (f k) (f (k + 1))

/-- The pixel is on the surface, and this is its word. -/
def GdiDc.Shows (dc : GdiDc) (q : Int × Int) (i : Int) : Prop :=
  dc.OnSurface q.1 q.2 ∧ i = q.2 * dc.stride + q.1

/-- The line `gdi_line_to` draws, `gdi_drawing.c:470–489`. -/
def lineOf (dc : GdiDc) (pen : GdiPen) (x y : Int32) : Line :=
  let x0 := dc.curX + (dc.vpOrgX - dc.winOrgX)
  let y0 := dc.curY + (dc.vpOrgY - dc.winOrgY)
  let x1 := x + (dc.vpOrgX - dc.winOrgX)
  let y1 := y + (dc.vpOrgY - dc.winOrgY)
  { x1, y1
    dx := (x1 - x0).abs
    dy := (y1 - y0).abs
    sx := if x0 < x1 then 1 else -1
    sy := if y0 < y1 then 1 else -1
    color := colorrefToArgb pen.color }

/-- Where it starts. -/
def lineStart (dc : GdiDc) (pen : GdiPen) (x y : Int32) : LinePos where
  x := dc.curX + (dc.vpOrgX - dc.winOrgX)
  y := dc.curY + (dc.vpOrgY - dc.winOrgY)
  err := (lineOf dc pen x y).dx - (lineOf dc pen x y).dy

/-- Where the loop is after some rounds, if it has not ended. -/
def Line.after (l : Line) (p : LinePos) (k : Nat) : LinePos := l.step^[k] p

/-- The pixel a round visits. -/
def LinePos.point (p : LinePos) : Int × Int := (p.x.toInt, p.y.toInt)

/-- The exit test holds. -/
def Line.AtEnd (l : Line) (p : LinePos) : Prop := p.x = l.x1 ∧ p.y = l.y1

/-- The loop ends in the round after `n` rounds. -/
def Line.EndsAfter (l : Line) (p : LinePos) (n : Nat) : Prop :=
  l.AtEnd (l.after p n) ∧ ∀ k < n, ¬ l.AtEnd (l.after p k)

/-- The loop ends, the pixels it visits are a path from the current position to the target, and
exactly those of them that are on the surface get the colour of the pen. -/
def Connects (dc : GdiDc) (buf : Nat) (pen : GdiPen) (x y : Int32) : Prop :=
  ∃ n, (lineOf dc pen x y).EndsAfter (lineStart dc pen x y) n ∧
    LinePath (dc.devicePoint dc.curX dc.curY) (dc.devicePoint x y) n
      (fun k => ((lineOf dc pen x y).after (lineStart dc pen x y) k).point) ∧
    ∀ fuel, n < fuel → Paints (gdiLineTo fuel dc x y) buf (colorrefToArgb pen.color) fun i =>
      ∃ k ≤ n, dc.Shows ((lineOf dc pen x y).after (lineStart dc pen x y) k).point i

/-- A pixel of the rounded line between two pixels. -/
def roundedLine (s e : Int × Int) (k : Nat) : Int × Int :=
  let p := linePoint |e.1 - s.1| |e.2 - s.2| k
  (s.1 + (e.1 - s.1).sign * p.1, s.2 + (e.2 - s.2).sign * p.2)

/-- The extents of the line are `int`s. -/
def ExtentFits (s e : Int × Int) : Prop := |e.1 - s.1| < 2 ^ 31 ∧ |e.2 - s.2| < 2 ^ 31

instance (s e : Int × Int) : Decidable (ExtentFits s e) := inferInstanceAs (Decidable (_ ∧ _))

/-- The ends of the line and its extents are `int`s; so is twice the error term wherever the rounded
line comes; and so are the words of the pixels that it has on the surface. -/
structure LineFits (dc : GdiDc) (s e : Int × Int) : Prop where
  start : FitsInt s.1 ∧ FitsInt s.2
  target : FitsInt e.1 ∧ FitsInt e.2
  extent : ExtentFits s e
  err : LineErrFits |e.1 - s.1| |e.2 - s.2| (2 ^ 31) (2 ^ 31 + 1)
  pixels : ∀ k : Nat, k ≤ max |e.1 - s.1| |e.2 - s.2| → ∀ i, dc.Shows (roundedLine s e k) i →
    FitsInt i

variable {dc : GdiDc} {buf : Nat} {pen : GdiPen} {x y : Int32} {l : Line} {p : LinePos} {n k : Nat}
  {s e : Int × Int} {sx sy dx dy : Int}

section Wrap

theorem wrapsFrom_bmod : WrapsFrom (fun v => v.bmod (2 ^ 32)) (-2 ^ 31) (2 ^ 32) where
  lower v := by
    have h := @Int.le_bmod v (2 ^ 32) (by decide)
    omega
  upper v := by
    have h := @Int.bmod_lt v (2 ^ 32) (by decide)
    omega
  congr v := Int.dvd_self_sub_bmod

theorem wrapsFrom_neg_bmod :
    WrapsFrom (fun v => -(-v).bmod (2 ^ 32)) (-2 ^ 31 + 1) (2 ^ 32) where
  lower v := by
    have h := wrapsFrom_bmod.upper (-v)
    omega
  upper v := by
    have h := wrapsFrom_bmod.lower (-v)
    omega
  congr v := by
    have h : (2 ^ 32 : Int) ∣ -v - (-v).bmod (2 ^ 32) := wrapsFrom_bmod.congr (-v)
    omega

end Wrap

section Steps

/-- The position of the loop after steps along both axes. -/
def linePos (s : Int × Int) (sx sy dx dy : Int) (p : Int × Int) : LinePos where
  x := Int32.ofInt (s.1 + sx * p.1)
  y := Int32.ofInt (s.2 + sy * p.2)
  err := Int32.ofInt (lineErr dx dy p.1 p.2)

/-- A round is one of a walk on numbers that do not wrap, but for twice the error term. -/
theorem step_linePos (hdx : l.dx.toInt = dx) (hdy : l.dy.toInt = dy) (hnonneg : 0 ≤ dy)
    (hsx : l.sx = Int32.ofInt sx) (hsy : l.sy = Int32.ofInt sy) (p : Int × Int) :
    l.step (linePos s sx sy dx dy p) =
      linePos s sx sy dx dy (lineStep (fun v => v.bmod (2 ^ 32)) dx dy p) := by
  have hlt := l.dy.toInt_lt
  have hneg : (-l.dy).toInt = -dy := by
    rw [Int32.toInt_neg, hdy]
    exact bmod_of_fits (by omega) (by omega)
  have hdouble : (2 * (linePos s sx sy dx dy p).err).toInt =
      (2 * lineErr dx dy p.1 p.2).bmod (2 ^ 32) := by
    have htwo : (2 : Int32) = Int32.ofInt 2 := rfl
    rw [linePos, htwo, ← Int32.ofInt_mul, Int32.toInt_ofInt]
    rfl
  have hlong : 2 * (linePos s sx sy dx dy p).err > -l.dy ↔
      -dy < (2 * lineErr dx dy p.1 p.2).bmod (2 ^ 32) := by
    rw [gt_iff_lt, Int32.lt_iff_toInt_lt, hneg, hdouble]
  have hshort : 2 * (linePos s sx sy dx dy p).err < l.dx ↔
      (2 * lineErr dx dy p.1 p.2).bmod (2 ^ 32) < dx := by
    rw [Int32.lt_iff_toInt_lt, hdx, hdouble]
  have hdx' : l.dx = Int32.ofInt dx := by rw [← hdx, Int32.ofInt_toInt]
  have hdy' : l.dy = Int32.ofInt dy := by rw [← hdy, Int32.ofInt_toInt]
  have hright : lineErr dx dy (p.1 + 1) p.2 = lineErr dx dy p.1 p.2 - dy := by
    unfold lineErr
    ring
  have hup : ∀ i, lineErr dx dy i (p.2 + 1) = lineErr dx dy i p.2 + dx := by
    intro i
    unfold lineErr
    ring
  unfold Line.step lineStep
  simp only [hlong, hshort]
  split <;> split
  · simp only [linePos, hright, hup, hsx, hsy, hdx', hdy', Int32.ofInt_add, Int32.ofInt_sub,
      Int.mul_add, Int.mul_one, Int32.add_assoc]
  · simp only [linePos, hup, hsy, hdx', Int32.ofInt_add, Int.mul_add, Int.mul_one, Int32.add_assoc]
  · simp only [linePos, hright, hsx, hdy', Int32.ofInt_add, Int32.ofInt_sub, Int.mul_add,
      Int.mul_one, Int32.add_assoc]
  · rfl

theorem after_linePos (hdx : l.dx.toInt = dx) (hdy : l.dy.toInt = dy) (hnonneg : 0 ≤ dy)
    (hsx : l.sx = Int32.ofInt sx) (hsy : l.sy = Int32.ofInt sy) (k : Nat) :
    l.after (linePos s sx sy dx dy (0, 0)) k =
      linePos s sx sy dx dy ((lineStep (fun v => v.bmod (2 ^ 32)) dx dy)^[k] (0, 0)) := by
  unfold Line.after
  induction k with
  | zero => rfl
  | succ k ih =>
    rw [Function.iterate_succ_apply', Function.iterate_succ_apply', ih,
      step_linePos hdx hdy hnonneg hsx hsy]

end Steps

section Drawing

/-- The loop gives its colour to the words of the pixels it visits on the surface. -/
theorem lineLoop_paints (hends : l.EndsAfter p n) (fuel : Nat) (hfuel : n < fuel) :
    Paints (lineLoop dc buf l fuel p) buf l.color fun i =>
      ∃ k ≤ n, dc.OnSurface (l.after p k).x.toInt (l.after p k).y.toInt ∧
        i = ((l.after p k).y * (dc.pitch / 4) + (l.after p k).x).toInt := by
  have hpixel : ∀ p : LinePos, Paints (linePixel dc buf l p) buf l.color fun i =>
      dc.OnSurface p.x.toInt p.y.toInt ∧ i = (p.y * (dc.pitch / 4) + p.x).toInt := by
    intro p
    have hvisible : dc.OnSurface p.x.toInt p.y.toInt ↔
        p.x ≥ 0 ∧ p.x < dc.width ∧ p.y ≥ 0 ∧ p.y < dc.height := by
      simp only [GdiDc.OnSurface, ge_iff_le, Int32.le_iff_toInt_le, Int32.lt_iff_toInt_lt,
        Int32.toInt_zero]
    unfold linePixel
    split
    · next hon => exact (paints_put _).congr fun i => by simp [hvisible.mpr hon]
    · next hoff =>
      exact (paints_pure _).congr fun i => by
        simp only [hvisible, hoff, false_and]
  induction n generalizing p fuel with
  | zero =>
    obtain ⟨fuel, rfl⟩ : ∃ f, fuel = f + 1 := ⟨fuel - 1, by omega⟩
    have hend : p.x = l.x1 ∧ p.y = l.y1 := hends.1
    rw [lineLoop, if_pos hend]
    have hnone : Paints (pure PUnit.unit) buf l.color fun _ => False := paints_pure _
    have hbind := (hpixel p).bind fun _ : PUnit => hnone
    refine hbind.congr fun i => ?_
    simp [Line.after]
  | succ n ih =>
    obtain ⟨fuel, rfl⟩ : ∃ f, fuel = f + 1 := ⟨fuel - 1, by omega⟩
    have hgo : ¬ (p.x = l.x1 ∧ p.y = l.y1) := hends.2 0 (by omega)
    have hnext : l.EndsAfter (l.step p) n :=
      ⟨hends.1, fun k hk => hends.2 (k + 1) (by omega)⟩
    rw [lineLoop, if_neg hgo]
    refine ((hpixel p).bind fun _ => ih hnext fuel (by omega)).congr fun i => ?_
    constructor
    · rintro (hfirst | ⟨k, hk, hlater⟩)
      · exact ⟨0, by omega, hfirst⟩
      · exact ⟨k + 1, by omega, hlater⟩
    · rintro ⟨k, hk, hk'⟩
      cases k with
      | zero => exact Or.inl hk'
      | succ k => exact Or.inr ⟨k, by omega, hk'⟩

theorem gdiLineTo_paints (hbuf : dc.pixels = some buf) (hpen : dc.pen = some pen)
    (hstyle : pen.style ≠ psNull)
    (hends : (lineOf dc pen x y).EndsAfter (lineStart dc pen x y) n) (fuel : Nat)
    (hfuel : n < fuel) :
    Paints (gdiLineTo fuel dc x y) buf (colorrefToArgb pen.color) fun i =>
      ∃ k ≤ n, let q := (lineOf dc pen x y).after (lineStart dc pen x y) k
        dc.OnSurface q.x.toInt q.y.toInt ∧ i = (q.y * (dc.pitch / 4) + q.x).toInt := by
  have hfilter : dc.pen.filter (fun pen => pen.style ≠ psNull) = some pen := by
    rw [hpen, Option.filter_some, if_pos (decide_eq_true hstyle)]
  have hrun : gdiLineTo fuel dc x y =
      lineLoop dc buf (lineOf dc pen x y) fuel (lineStart dc pen x y) >>= fun _ =>
        pure (true, { dc with curX := x, curY := y, dirty := true }) := by
    unfold gdiLineTo
    rw [hbuf, hfilter]
    rfl
  rw [hrun]
  exact ((lineLoop_paints hends fuel hfuel).bind fun _ => paints_pure _).congr fun i => by simp

/-- The word of a pixel is the one the source computes, if it is an `int`. -/
theorem index_eq_iff (dc : GdiDc) (px py : Int32) :
    (py * (dc.pitch / 4) + px).toInt = py.toInt * dc.stride + px.toInt ↔
      FitsInt (py.toInt * dc.stride + px.toInt) := by
  have hindex : py * (dc.pitch / 4) + px = Int32.ofInt (py.toInt * dc.stride + px.toInt) := by
    rw [Int32.ofInt_add, Int32.ofInt_mul, GdiDc.stride]
    simp only [Int32.ofInt_toInt]
  constructor
  · intro h
    rw [← h]
    exact ⟨Int32.le_toInt _, Int32.toInt_lt _⟩
  · intro ⟨hlo, hhi⟩
    rw [hindex, Int32.toInt_ofInt_of_le hlo hhi]

end Drawing

section Extent

/-- The direction the source steps in along an axis. -/
def axisStep (s e : Int) : Int := if s < e then 1 else -1

theorem axisStep_mul (s e : Int) : axisStep s e * |e - s| = e - s := by
  unfold axisStep
  split
  · rw [abs_of_nonneg (by omega)]
    omega
  · rw [abs_of_nonpos (by omega)]
    omega

theorem axisStep_cases (s e : Int) :
    (axisStep s e = 1 ∨ axisStep s e = -1) ∧
      ((e - s).sign = axisStep s e ∨ (e - s).sign = 0 ∧ e = s) := by
  unfold axisStep
  split
  · next hlt => exact ⟨Or.inl rfl, Or.inl (Int.sign_eq_one_of_pos (by omega))⟩
  · next hge =>
    refine ⟨Or.inr rfl, ?_⟩
    by_cases heq : e = s
    · exact Or.inr ⟨by rw [heq, Int.sub_self, Int.sign_zero], heq⟩
    · exact Or.inl (Int.sign_eq_neg_one_of_neg (by omega))

theorem abs_toInt {v : Int32} (h : |v.toInt| < 2 ^ 31) : v.abs.toInt = |v.toInt| := by
  have hmin : v.toBitVec ≠ BitVec.intMin 32 := by
    intro hmin
    have hv : v.toInt = -2 ^ 31 := by
      show v.toBitVec.toInt = -2 ^ 31
      rw [hmin]
      rfl
    rw [hv] at h
    exact absurd h (by decide)
  rw [← Int.natCast_natAbs]
  exact BitVec.toInt_abs_eq_natAbs_of_ne_intMin hmin

theorem deviceX_eq (dc : GdiDc) (x y : Int32) :
    x + (dc.vpOrgX - dc.winOrgX) = Int32.ofInt (dc.devicePoint x y).1 := by
  rw [GdiDc.devicePoint, Int32.ofInt_sub, Int32.ofInt_add]
  simp only [Int32.ofInt_toInt, Int32.sub_eq_add_neg, Int32.add_assoc]

theorem deviceY_eq (dc : GdiDc) (x y : Int32) :
    y + (dc.vpOrgY - dc.winOrgY) = Int32.ofInt (dc.devicePoint x y).2 := by
  rw [GdiDc.devicePoint, Int32.ofInt_sub, Int32.ofInt_add]
  simp only [Int32.ofInt_toInt, Int32.sub_eq_add_neg, Int32.add_assoc]

/-- An extent that is an `int` is the one the source computes. -/
theorem extent_toInt {v w : Int} (h : |w - v| < 2 ^ 31) :
    (Int32.ofInt w - Int32.ofInt v).abs.toInt = |w - v| := by
  have hdiff : (Int32.ofInt w - Int32.ofInt v).toInt = w - v := by
    have hlt := abs_lt.mp h
    rw [← Int32.ofInt_sub]
    exact Int32.toInt_ofInt_of_le (by omega) (by omega)
  rw [abs_toInt (hdiff.symm ▸ h), hdiff]

theorem direction_eq {v w : Int} (hv : FitsInt v) (hw : FitsInt w) :
    (if Int32.ofInt v < Int32.ofInt w then (1 : Int32) else -1) = Int32.ofInt (axisStep v w) := by
  have hlt : Int32.ofInt v < Int32.ofInt w ↔ v < w := by
    rw [Int32.lt_iff_toInt_lt, Int32.toInt_ofInt_of_le hv.1 hv.2, Int32.toInt_ofInt_of_le hw.1 hw.2]
  unfold axisStep
  simp only [hlt]
  split
  · rfl
  · rfl

/-- The rounds of the loop, on numbers that do not wrap. -/
def linePosAt (s e : Int × Int) (k : Nat) : Int × Int :=
  (lineStep (fun v => v.bmod (2 ^ 32)) |e.1 - s.1| |e.2 - s.2|)^[k] (0, 0)

/-- Where the loop is, if the ends of the line and its extents are `int`s. -/
theorem after_lineStart (hs : s = dc.devicePoint dc.curX dc.curY) (he : e = dc.devicePoint x y)
    (hstart : FitsInt s.1 ∧ FitsInt s.2) (htarget : FitsInt e.1 ∧ FitsInt e.2)
    (hextent : ExtentFits s e) (k : Nat) :
    (lineOf dc pen x y).after (lineStart dc pen x y) k =
      linePos s (axisStep s.1 e.1) (axisStep s.2 e.2) |e.1 - s.1| |e.2 - s.2|
        (linePosAt s e k) := by
  have hx0 : dc.curX + (dc.vpOrgX - dc.winOrgX) = Int32.ofInt s.1 := hs ▸ deviceX_eq dc _ dc.curY
  have hy0 : dc.curY + (dc.vpOrgY - dc.winOrgY) = Int32.ofInt s.2 := hs ▸ deviceY_eq dc dc.curX _
  have hx1 : x + (dc.vpOrgX - dc.winOrgX) = Int32.ofInt e.1 := he ▸ deviceX_eq dc x y
  have hy1 : y + (dc.vpOrgY - dc.winOrgY) = Int32.ofInt e.2 := he ▸ deviceY_eq dc x y
  have hdx : (lineOf dc pen x y).dx.toInt = |e.1 - s.1| := by
    rw [lineOf, hx0, hx1]
    exact extent_toInt hextent.1
  have hdy : (lineOf dc pen x y).dy.toInt = |e.2 - s.2| := by
    rw [lineOf, hy0, hy1]
    exact extent_toInt hextent.2
  have hsx : (lineOf dc pen x y).sx = Int32.ofInt (axisStep s.1 e.1) := by
    rw [lineOf, hx0, hx1]
    exact direction_eq hstart.1 htarget.1
  have hsy : (lineOf dc pen x y).sy = Int32.ofInt (axisStep s.2 e.2) := by
    rw [lineOf, hy0, hy1]
    exact direction_eq hstart.2 htarget.2
  have hfirst : lineStart dc pen x y =
      linePos s (axisStep s.1 e.1) (axisStep s.2 e.2) |e.1 - s.1| |e.2 - s.2| (0, 0) := by
    have herr : lineErr |e.1 - s.1| |e.2 - s.2| 0 0 = |e.1 - s.1| - |e.2 - s.2| := by
      unfold lineErr
      ring
    unfold lineStart linePos
    rw [hx0, hy0, herr, Int32.ofInt_sub, ← hdx, ← hdy, Int32.ofInt_toInt, Int32.ofInt_toInt]
    simp only [Int.mul_zero, Int.add_zero]
  rw [hfirst, linePosAt]
  exact after_linePos hdx hdy (abs_nonneg _) hsx hsy k

end Extent

section Path

theorem lineErrFits_bounds :
    LineErrFits dx dy (-2 ^ 31 + 2 ^ 32) (-2 ^ 31 + 1 + 2 ^ 32) ↔
      LineErrFits dx dy (2 ^ 31) (2 ^ 31 + 1) := by
  norm_num

/-- A line of some length whose extents are `int`s is in the range of the wrapped error term. -/
theorem lineInRange_flat (hy : 0 ≤ dy) (hpos : 0 < max dx dy) (hx : dx < 2 ^ 31) (hle : dy ≤ dx) :
    LineInRange (-2 ^ 31) (2 ^ 32) dx dy := by
  constructor <;> omega

theorem lineInRange_steep (hx : 0 ≤ dx) (hy : dy < 2 ^ 31) (hlt : dx < dy) :
    LineInRange (-2 ^ 31 + 1) (2 ^ 32) dy dx := by
  constructor <;> omega

/-- The walk of the loop is the rounded line if twice the error term does not wrap. -/
theorem linePosAt_eq (hextent : ExtentFits s e)
    (hfits : LineErrFits |e.1 - s.1| |e.2 - s.2| (2 ^ 31) (2 ^ 31 + 1))
    (hn : (n : Int) = max |e.1 - s.1| |e.2 - s.2|) (hk : k ≤ n) :
    linePosAt s e k = linePoint |e.1 - s.1| |e.2 - s.2| k := by
  obtain ⟨hx, hy⟩ := hextent
  have hx0 := abs_nonneg (e.1 - s.1)
  have hy0 := abs_nonneg (e.2 - s.2)
  unfold linePosAt
  generalize |e.1 - s.1| = dx at *
  generalize |e.2 - s.2| = dy at *
  by_cases hpos : 0 < max dx dy
  · exact lineWalk_points wrapsFrom_bmod wrapsFrom_neg_bmod (lineInRange_flat hy0 hpos hx)
      (lineInRange_steep hx0 hy) hn (lineErrFits_bounds.mpr hfits) hk
  · obtain rfl : dx = 0 := by omega
    obtain rfl : dy = 0 := by omega
    obtain rfl : k = 0 := by omega
    rfl

theorem linePoint_last (s e : Int × Int) :
    linePoint |e.1 - s.1| |e.2 - s.2| (max |e.1 - s.1| |e.2 - s.2|) =
      (|e.1 - s.1|, |e.2 - s.2|) := by
  have hx0 := abs_nonneg (e.1 - s.1)
  have hy0 := abs_nonneg (e.2 - s.2)
  generalize |e.1 - s.1| = dx at *
  generalize |e.2 - s.2| = dy at *
  by_cases hpos : 0 < max dx dy
  · exact linePoint_end hx0 hy0 hpos
  · obtain rfl : dx = 0 := by omega
    obtain rfl : dy = 0 := by omega
    rfl

/-- A point between two that are `int`s is one, too. -/
theorem fitsInt_between {v w i : Int} (hv : FitsInt v) (hw : FitsInt w) (hi : 0 ≤ i)
    (hle : i ≤ |w - v|) : FitsInt (v + axisStep v w * i) := by
  obtain ⟨hvlo, hvhi⟩ := hv
  obtain ⟨hwlo, hwhi⟩ := hw
  unfold axisStep
  split
  · rw [abs_of_nonneg (by omega)] at hle
    constructor <;> omega
  · rw [abs_of_nonpos (by omega)] at hle
    constructor <;> omega

/-- The point of a position whose coordinates are `int`s. -/
theorem point_linePos {q : Int × Int} (hx : FitsInt (s.1 + sx * q.1))
    (hy : FitsInt (s.2 + sy * q.2)) :
    (linePos s sx sy dx dy q).point = (s.1 + sx * q.1, s.2 + sy * q.2) := by
  rw [LinePos.point, linePos, Int32.toInt_ofInt_of_le hx.1 hx.2, Int32.toInt_ofInt_of_le hy.1 hy.2]

/-- A step of the walk is a step towards the end. -/
theorem stepsTo_of_walk {q q' : Int × Int} (hne : q ≠ q') (hx : q'.1 = q.1 ∨ q'.1 = q.1 + 1)
    (hy : q'.2 = q.2 ∨ q'.2 = q.2 + 1) (hx0 : 0 ≤ q.1) (hx1 : q'.1 ≤ |e.1 - s.1|) (hy0 : 0 ≤ q.2)
    (hy1 : q'.2 ≤ |e.2 - s.2|) :
    StepsTo s e (s.1 + axisStep s.1 e.1 * q.1, s.2 + axisStep s.2 e.2 * q.2)
      (s.1 + axisStep s.1 e.1 * q'.1, s.2 + axisStep s.2 e.2 * q'.2) := by
  have haxis : ∀ v w i i' : Int, (i' = i ∨ i' = i + 1) → 0 ≤ i → i' ≤ |w - v| →
      v + axisStep v w * i' = v + axisStep v w * i ∨
        v + axisStep v w * i' = v + axisStep v w * i + (w - v).sign := by
    intro v w i i' hi hi0 hi1
    rcases hi with rfl | rfl
    · exact Or.inl rfl
    · right
      rcases (axisStep_cases v w).2 with hsign | ⟨-, rfl⟩
      · rw [hsign]
        ring
      · rw [Int.sub_self, abs_zero] at hi1
        omega
  have hinj : ∀ v w i i' : Int, v + axisStep v w * i = v + axisStep v w * i' → i = i' := by
    intro v w i i' h
    rcases (axisStep_cases v w).1 with hstep | hstep
    · rw [hstep] at h
      omega
    · rw [hstep] at h
      omega
  refine ⟨?_, haxis _ _ _ _ hx hx0 hx1, haxis _ _ _ _ hy hy0 hy1⟩
  intro heq
  apply hne
  exact Prod.ext (hinj _ _ _ _ (congrArg Prod.fst heq)) (hinj _ _ _ _ (congrArg Prod.snd heq))

end Path

section Results

theorem atEnd_iff (htarget : FitsInt (dc.devicePoint x y).1 ∧ FitsInt (dc.devicePoint x y).2) :
    (lineOf dc pen x y).AtEnd p ↔ p.point = dc.devicePoint x y := by
  have hx1 : (lineOf dc pen x y).x1.toInt = (dc.devicePoint x y).1 := by
    rw [lineOf, deviceX_eq dc x y]
    exact Int32.toInt_ofInt_of_le htarget.1.1 htarget.1.2
  have hy1 : (lineOf dc pen x y).y1.toInt = (dc.devicePoint x y).2 := by
    rw [lineOf, deviceY_eq dc x y]
    exact Int32.toInt_ofInt_of_le htarget.2.1 htarget.2.2
  rw [Line.AtEnd, ← Int32.toInt_inj, ← Int32.toInt_inj, hx1, hy1, LinePos.point, Prod.ext_iff]

/-- The rounded line on the walk of the loop. -/
theorem roundedLine_eq (hp : linePosAt s e k = linePoint |e.1 - s.1| |e.2 - s.2| k)
    (hx0 : 0 ≤ (linePosAt s e k).1) (hx1 : (linePosAt s e k).1 ≤ |e.1 - s.1|)
    (hy0 : 0 ≤ (linePosAt s e k).2) (hy1 : (linePosAt s e k).2 ≤ |e.2 - s.2|) :
    roundedLine s e k = (s.1 + axisStep s.1 e.1 * (linePosAt s e k).1,
      s.2 + axisStep s.2 e.2 * (linePosAt s e k).2) := by
  have haxis : ∀ v w i : Int, 0 ≤ i → i ≤ |w - v| → (w - v).sign * i = axisStep v w * i := by
    intro v w i hi0 hi1
    rcases (axisStep_cases v w).2 with hsign | ⟨hsign, rfl⟩
    · rw [hsign]
    · rw [Int.sub_self, abs_zero] at hi1
      rw [show i = 0 by omega, Int.mul_zero, Int.mul_zero]
  unfold roundedLine
  rw [← hp]
  dsimp only
  rw [haxis _ _ _ hx0 hx1, haxis _ _ _ hy0 hy1]

/-- Where the walk comes, and where the loop is then, if it is at the end of the line at last. -/
theorem walk_between (hlast : linePosAt s e n = (|e.1 - s.1|, |e.2 - s.2|)) (hk : k ≤ n) :
    0 ≤ (linePosAt s e k).1 ∧ (linePosAt s e k).1 ≤ |e.1 - s.1| ∧ 0 ≤ (linePosAt s e k).2 ∧
      (linePosAt s e k).2 ≤ |e.2 - s.2| := by
  have h := lineWalk_between (fun v => v.bmod (2 ^ 32)) |e.1 - s.1| |e.2 - s.2| hk
  have hx : ((lineStep (fun v => v.bmod (2 ^ 32)) |e.1 - s.1| |e.2 - s.2|)^[n] (0, 0)).1 =
      |e.1 - s.1| := congrArg Prod.fst hlast
  have hy : ((lineStep (fun v => v.bmod (2 ^ 32)) |e.1 - s.1| |e.2 - s.2|)^[n] (0, 0)).2 =
      |e.2 - s.2| := congrArg Prod.snd hlast
  rw [hx, hy] at h
  exact h

/-- A point that is as far from the start as the end is has made the steps of the extents. -/
theorem eq_extent_of_point {q : Int × Int}
    (h : (s.1 + axisStep s.1 e.1 * q.1, s.2 + axisStep s.2 e.2 * q.2) = e) :
    q = (|e.1 - s.1|, |e.2 - s.2|) := by
  have haxis : ∀ v w i : Int, v + axisStep v w * i = w → i = |w - v| := by
    intro v w i hi
    have hmul := axisStep_mul v w
    rcases (axisStep_cases v w).1 with hstep | hstep
    · rw [hstep] at hi hmul
      omega
    · rw [hstep] at hi hmul
      omega
  exact Prod.ext (haxis _ _ _ (congrArg Prod.fst h)) (haxis _ _ _ (congrArg Prod.snd h))

/-- The pixel a round visits, if the loop is at the end of the line at last. -/
theorem point_after (pen : GdiPen) (hs : s = dc.devicePoint dc.curX dc.curY)
    (he : e = dc.devicePoint x y)
    (hstart : FitsInt s.1 ∧ FitsInt s.2) (htarget : FitsInt e.1 ∧ FitsInt e.2)
    (hextent : ExtentFits s e) (hlast : linePosAt s e n = (|e.1 - s.1|, |e.2 - s.2|)) (hk : k ≤ n) :
    ((lineOf dc pen x y).after (lineStart dc pen x y) k).point =
      (s.1 + axisStep s.1 e.1 * (linePosAt s e k).1,
        s.2 + axisStep s.2 e.2 * (linePosAt s e k).2) := by
  obtain ⟨hx0, hx1, hy0, hy1⟩ := walk_between hlast hk
  rw [after_lineStart hs he hstart htarget hextent k]
  exact point_linePos (fitsInt_between hstart.1 htarget.1 hx0 hx1)
    (fitsInt_between hstart.2 htarget.2 hy0 hy1)

/-- The loop ends when the walk comes to the extents. -/
theorem endsAfter_of_walk (pen : GdiPen) (hs : s = dc.devicePoint dc.curX dc.curY)
    (he : e = dc.devicePoint x y)
    (hstart : FitsInt s.1 ∧ FitsInt s.2) (htarget : FitsInt e.1 ∧ FitsInt e.2)
    (hextent : ExtentFits s e) (hlast : linePosAt s e n = (|e.1 - s.1|, |e.2 - s.2|))
    (hbefore : ∀ k < n, linePosAt s e k ≠ linePosAt s e n) :
    (lineOf dc pen x y).EndsAfter (lineStart dc pen x y) n ∧
      ((lineOf dc pen x y).after (lineStart dc pen x y) n).point = e := by
  have hpoint := fun k (hk : k ≤ n) =>
    point_after pen hs he hstart htarget hextent hlast hk
  have hend : ((lineOf dc pen x y).after (lineStart dc pen x y) n).point = e := by
    rw [hpoint n (Nat.le_refl n), hlast, axisStep_mul, axisStep_mul]
    exact Prod.ext (by omega) (by omega)
  subst he
  refine ⟨⟨(atEnd_iff htarget).mpr hend, fun k hk hearly => ?_⟩, hend⟩
  have hsame := (atEnd_iff htarget).mp hearly
  rw [hpoint k (Nat.le_of_lt hk)] at hsame
  exact hbefore k hk ((eq_extent_of_point hsame).trans hlast.symm)

theorem connects_of_lineFits (hbuf : dc.pixels = some buf) (hpen : dc.pen = some pen)
    (hstyle : pen.style ≠ psNull) (hs : s = dc.devicePoint dc.curX dc.curY)
    (he : e = dc.devicePoint x y) (h : LineFits dc s e) : Connects dc buf pen x y := by
  obtain ⟨hstart, htarget, hextent, herr, hpixels⟩ := h
  obtain ⟨n, hn⟩ : ∃ n : Nat, (n : Int) = max |e.1 - s.1| |e.2 - s.2| :=
    ⟨_, Int.toNat_of_nonneg ((abs_nonneg (e.1 - s.1)).trans (le_max_left _ _))⟩
  have hwalk : ∀ k ≤ n, linePosAt s e k = linePoint |e.1 - s.1| |e.2 - s.2| k :=
    fun k hk => linePosAt_eq hextent herr hn hk
  have hne : ∀ k ≤ n, ∀ l ≤ n, k ≠ l → linePosAt s e k ≠ linePosAt s e l := by
    intro k hk l hl hkl
    rw [hwalk k hk, hwalk l hl]
    exact linePoint_ne (by omega)
  have hlast : linePosAt s e n = (|e.1 - s.1|, |e.2 - s.2|) := by
    rw [hwalk n (Nat.le_refl n), hn, linePoint_last]
  have hpoint := fun k (hk : k ≤ n) =>
    point_after pen hs he hstart htarget hextent hlast hk
  obtain ⟨hends, hend⟩ := endsAfter_of_walk pen hs he hstart htarget hextent hlast
    fun k hk => hne k (Nat.le_of_lt hk) n (Nat.le_refl n) (Nat.ne_of_lt hk)
  unfold Connects
  rw [← hs, ← he]
  refine ⟨n, hends, ⟨?_, hend, hn, ?_⟩, fun fuel hfuel => ?_⟩
  · have hzero : linePosAt s e 0 = (0, 0) := rfl
    rw [hpoint 0 (Nat.zero_le n), hzero]
    exact Prod.ext (by omega) (by omega)
  · intro k hk
    obtain ⟨hx0, -, hy0, -⟩ := walk_between hlast (show k ≤ n by omega)
    obtain ⟨-, hx1, -, hy1⟩ := walk_between hlast (show k + 1 ≤ n by omega)
    have hstep : linePosAt s e (k + 1) =
        lineStep (fun v => v.bmod (2 ^ 32)) |e.1 - s.1| |e.2 - s.2| (linePosAt s e k) :=
      Function.iterate_succ_apply' _ _ _
    rw [hpoint k (by omega), hpoint (k + 1) (by omega)]
    refine stepsTo_of_walk (hne k (by omega) (k + 1) (by omega) (by omega)) ?_ ?_ hx0 hx1 hy0 hy1
    · rw [hstep]
      exact lineStep_long _ _ _ _
    · rw [hstep]
      exact lineStep_short _ _ _ _
  · refine (gdiLineTo_paints hbuf hpen hstyle hends fuel hfuel).congr fun i => ?_
    apply exists_congr
    intro k
    refine and_congr_right fun hk => and_congr_right fun hon => ?_
    obtain ⟨hx0, hx1, hy0, hy1⟩ := walk_between hlast hk
    have hround := (roundedLine_eq (hwalk k hk) hx0 hx1 hy0 hy1).trans (hpoint k hk).symm
    rw [(index_eq_iff dc _ _).mpr]
    · rfl
    · exact hpixels k (by omega) _ (hround ▸ ⟨hon, rfl⟩)

/-- A path that the loop visits is made of the steps of its walk. -/
theorem point_of_path (hs : s = dc.devicePoint dc.curX dc.curY) (he : e = dc.devicePoint x y)
    (hstart : FitsInt s.1 ∧ FitsInt s.2) (htarget : FitsInt e.1 ∧ FitsInt e.2)
    (hextent : ExtentFits s e)
    (hpath : LinePath s e n fun k => ((lineOf dc pen x y).after (lineStart dc pen x y) k).point)
    (hk : k ≤ n) :
    ((lineOf dc pen x y).after (lineStart dc pen x y) k).point =
      (s.1 + axisStep s.1 e.1 * (linePosAt s e k).1,
        s.2 + axisStep s.2 e.2 * (linePosAt s e k).2) := by
  -- a coordinate of the path is known but for multiples of 2^32, and it moves by one at most
  have haxis : ∀ {v w u u' i i' : Int}, u = v + axisStep v w * i →
      u' = (v + axisStep v w * i').bmod (2 ^ 32) → (i' = i ∨ i' = i + 1) →
      (u' = u ∨ u' = u + (w - v).sign) → u' = v + axisStep v w * i' := by
    intro v w u u' i i' hu hu' hi hstep
    have hdvd : (2 ^ 32 : Int) ∣ v + axisStep v w * i' - u' := hu' ▸ wrapsFrom_bmod.congr _
    obtain ⟨hone, hsign⟩ := axisStep_cases v w
    have hstep' : u' = u ∨ u' = u + axisStep v w := by
      rcases hsign with hsign | ⟨hsign, -⟩
      · rwa [hsign] at hstep
      · rw [hsign] at hstep
        omega
    rcases hone with hone | hone
    all_goals
      rw [hone] at hu hdvd hstep' ⊢
      omega
  induction k with
  | zero =>
    have hfirst := hpath.first
    have hzero : linePosAt s e 0 = (0, 0) := rfl
    rw [hfirst, hzero]
    exact Prod.ext (by omega) (by omega)
  | succ k ih =>
    have hbefore := ih (by omega)
    have hwalk : linePosAt s e (k + 1) =
        lineStep (fun v => v.bmod (2 ^ 32)) |e.1 - s.1| |e.2 - s.2| (linePosAt s e k) :=
      Function.iterate_succ_apply' _ _ _
    obtain ⟨-, hstepx, hstepy⟩ := hpath.steps k (by omega)
    have hpoint : ((lineOf dc pen x y).after (lineStart dc pen x y) (k + 1)).point =
        ((s.1 + axisStep s.1 e.1 * (linePosAt s e (k + 1)).1).bmod (2 ^ 32),
          (s.2 + axisStep s.2 e.2 * (linePosAt s e (k + 1)).2).bmod (2 ^ 32)) := by
      rw [after_lineStart hs he hstart htarget hextent, LinePos.point, linePos,
        Int32.toInt_ofInt, Int32.toInt_ofInt]
      rfl
    refine Prod.ext (haxis (congrArg Prod.fst hbefore) (congrArg Prod.fst hpoint) ?_ hstepx)
      (haxis (congrArg Prod.snd hbefore) (congrArg Prod.snd hpoint) ?_ hstepy)
    · rw [hwalk]
      exact lineStep_long _ _ _ _
    · rw [hwalk]
      exact lineStep_short _ _ _ _

theorem lineErrFits_of_walk (hextent : ExtentFits s e)
    (hn : (n : Int) = max |e.1 - s.1| |e.2 - s.2|)
    (hlast : linePosAt s e n = (|e.1 - s.1|, |e.2 - s.2|)) :
    LineErrFits |e.1 - s.1| |e.2 - s.2| (2 ^ 31) (2 ^ 31 + 1) := by
  obtain ⟨hx, hy⟩ := hextent
  have hx0 := abs_nonneg (e.1 - s.1)
  have hy0 := abs_nonneg (e.2 - s.2)
  unfold linePosAt at hlast
  generalize |e.1 - s.1| = dx at *
  generalize |e.2 - s.2| = dy at *
  by_cases hpos : 0 < max dx dy
  · exact lineErrFits_bounds.mp (lineErrFits_of_reaches wrapsFrom_bmod wrapsFrom_neg_bmod
      (lineInRange_flat hy0 hpos hx) (lineInRange_steep hx0 hy) hn hlast)
  · obtain rfl : dx = 0 := by omega
    obtain rfl : dy = 0 := by omega
    constructor
    · intro _ v hdvd
      rw [Int.gcd_self, Int.natAbs_zero, Int.natCast_zero, Int.zero_dvd] at hdvd
      omega
    · intro hlt
      omega

theorem lineFits_of_connects (hbuf : dc.pixels = some buf) (hpen : dc.pen = some pen)
    (hstyle : pen.style ≠ psNull) (hs : s = dc.devicePoint dc.curX dc.curY)
    (he : e = dc.devicePoint x y) (hextent : ExtentFits s e) (h : Connects dc buf pen x y) :
    LineFits dc s e := by
  unfold Connects at h
  rw [← hs, ← he] at h
  obtain ⟨n, hends, hpath, hpaints⟩ := h
  have hfits : ∀ p : LinePos, FitsInt p.point.1 ∧ FitsInt p.point.2 := fun p =>
    ⟨⟨p.x.le_toInt, p.x.toInt_lt⟩, ⟨p.y.le_toInt, p.y.toInt_lt⟩⟩
  have hstart : FitsInt s.1 ∧ FitsInt s.2 := hpath.first ▸ hfits _
  have htarget : FitsInt e.1 ∧ FitsInt e.2 := hpath.last ▸ hfits _
  have hpoint := fun k (hk : k ≤ n) =>
    point_of_path (k := k) hs he hstart htarget hextent hpath hk
  have hlast : linePosAt s e n = (|e.1 - s.1|, |e.2 - s.2|) :=
    eq_extent_of_point ((hpoint n (Nat.le_refl n)).symm.trans hpath.last)
  have herr := lineErrFits_of_walk hextent hpath.length hlast
  refine ⟨hstart, htarget, hextent, herr, fun k hk i hi => ?_⟩
  have hkn : k ≤ n := by
    have hn := hpath.length
    omega
  obtain ⟨hx0, hx1, hy0, hy1⟩ := walk_between hlast hkn
  rw [roundedLine_eq (linePosAt_eq hextent herr hpath.length hkn) hx0 hx1 hy0 hy1,
    ← hpoint k hkn] at hi
  -- the word of a pixel that gets the colour is one the source computes
  have hcode := gdiLineTo_paints hbuf hpen hstyle hends (n + 1) (by omega)
  have hsame := hcode.unique (q := fun i => ∃ k ≤ n,
      dc.Shows ((lineOf dc pen x y).after (lineStart dc pen x y) k).point i)
    (fun m i hi => (hpaints (n + 1) (by omega) m buf i).1 ⟨rfl, hi⟩)
    (fun m i hi => (hpaints (n + 1) (by omega) m buf i).2 fun hno => hi hno.2) i
  obtain ⟨l, -, -, rfl⟩ := hsame.mpr ⟨k, hkn, hi⟩
  exact ⟨Int32.le_toInt _, Int32.toInt_lt _⟩

/-- A line connects its ends if nothing wraps that it computes; and if its extents are `int`s, only
then. -/
theorem gdiLineTo_connects_iff (hbuf : dc.pixels = some buf) (hpen : dc.pen = some pen)
    (hstyle : pen.style ≠ psNull) :
    (LineFits dc (dc.devicePoint dc.curX dc.curY) (dc.devicePoint x y) →
      Connects dc buf pen x y) ∧
    (ExtentFits (dc.devicePoint dc.curX dc.curY) (dc.devicePoint x y) →
      Connects dc buf pen x y →
        LineFits dc (dc.devicePoint dc.curX dc.curY) (dc.devicePoint x y)) :=
  ⟨connects_of_lineFits hbuf hpen hstyle rfl rfl, lineFits_of_connects hbuf hpen hstyle rfl rfl⟩

/-- A solid pen. -/
def solidPen : GdiPen := { style := 0, color := 0xFF }

theorem gdiLineTo_connects_small :
    Connects { smallSurface with pen := some solidPen } 0 solidPen 3 1 := by
  have hends : ({ smallSurface with pen := some solidPen } : GdiDc).devicePoint 0 0 = (0, 0) ∧
      ({ smallSurface with pen := some solidPen } : GdiDc).devicePoint 3 1 = (3, 1) := by
    decide
  refine (gdiLineTo_connects_iff rfl rfl (by decide)).1 ?_
  show LineFits _ (({ smallSurface with pen := some solidPen } : GdiDc).devicePoint 0 0) _
  rw [hends.1, hends.2]
  refine ⟨⟨by decide, by decide⟩, ⟨by decide, by decide⟩, by decide, ⟨?_, ?_⟩, ?_⟩
  · intro _ v _ hv
    have hnum : |(3 : Int) - 0| = 3 ∧ |(1 : Int) - 0| = 1 := by decide
    dsimp only at hv
    omega
  · intro hlt
    exact absurd hlt (by decide)
  · rintro k - i ⟨hon, rfl⟩
    have hsize : smallSurface.width.toInt = 2 ∧ smallSurface.height.toInt = 2 ∧
        smallSurface.stride = 2 := by decide
    obtain ⟨hx0, hx1, hy0, hy1⟩ : _ ∧ _ < smallSurface.width.toInt ∧ _ ∧
      _ < smallSurface.height.toInt := hon
    show FitsInt (_ * smallSurface.stride + _)
    rw [hsize.2.2]
    constructor <;> omega

/-- Twice the first error term of a line of 2^30 steps to the right is 2^31, and wraps, so that the
loop does not step along the line. -/
theorem gdiLineTo_long :
    ¬ Connects { smallSurface with pen := some solidPen } 0 solidPen 0x40000000 0 := by
  have hends : ({ smallSurface with pen := some solidPen } : GdiDc).devicePoint 0 0 = (0, 0) ∧
      ({ smallSurface with pen := some solidPen } : GdiDc).devicePoint 0x40000000 0 =
        (2 ^ 30, 0) := by
    decide
  have hnum : |(2 ^ 30 : Int) - 0| = 2 ^ 30 ∧ |(0 : Int) - 0| = 0 := by decide
  intro h
  have hfits : LineFits _
      (({ smallSurface with pen := some solidPen } : GdiDc).devicePoint 0 0) _ :=
    (gdiLineTo_connects_iff rfl rfl (by decide)).2 (by
      show ExtentFits (({ smallSurface with pen := some solidPen } : GdiDc).devicePoint 0 0) _
      rw [hends.1, hends.2]
      decide) h
  rw [hends.1, hends.2] at hfits
  have herr := hfits.err.flat
  dsimp only at herr
  rw [hnum.1, hnum.2] at herr
  have hle := herr (by decide) (2 ^ 30) (by decide) (by decide)
  omega

end Results

end Wbox.Gdi
