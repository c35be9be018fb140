import Wbox.Gdi.Drawing

/-!
# Drawing inside the bitmap

A bitmap's buffer is sized by its bits per pixel (`src/gdi/gdi_drawing.c:688–692`), but every
drawing call takes a pixel for 32 bits. The calls stay inside the buffer if its rows hold their
32-bit pixels and its size does not wrap, as long as no right or lower bound wraps while a
rectangle is clipped.
-/

namespace Wbox.Gdi

open Wbox.Lib Wbox.Lib.Logged

/-- A pixel that lies in its buffer, of so many words. -/
def PixelAccess.Inside (words : Nat → Nat) : PixelAccess → Prop
  | .read buf i => 0 ≤ i ∧ i < words buf
  | .write buf i => 0 ≤ i ∧ i < words buf

/-- The words from one row of a surface to the next. -/
def GdiDc.stride (dc : GdiDc) : Int := (dc.pitch / 4).toInt

/-- The rows of a surface hold their pixels, and its buffer holds the rows. -/
structure SurfaceFits (words : Nat → Nat) (dc : GdiDc) : Prop where
  left : 0 ≤ dc.width.toInt
  top : 0 ≤ dc.height.toInt
  right : dc.width.toInt ≤ dc.stride
  bottom : ∀ buf, dc.pixels = some buf → dc.height.toInt * dc.stride ≤ words buf
  space : dc.height.toInt * dc.stride < 2 ^ 31

/-- The right bound of a rectangle does not wrap while it is clipped. -/
def RightFits (dc : GdiDc) (b : Box) : Prop :=
  (dc.clipLow b).x.toInt + (dc.clipLow b).width.toInt < 2 ^ 31

/-- Nor does the lower bound. -/
def BottomFits (dc : GdiDc) (b : Box) : Prop :=
  (dc.clipLow b).y.toInt + (dc.clipLow b).height.toInt < 2 ^ 31

/-- Neither bound of the source of a transfer wraps. -/
def SourceFits (b : Blit) : Prop :=
  b.clipLow.srcX.toInt + b.clipLow.width.toInt < 2 ^ 31 ∧
    b.clipLow.srcY.toInt + b.clipLow.height.toInt < 2 ^ 31

/-- No bound that a call compares wraps; and the surfaces it reads fit. -/
def CallFits (words : Nat → Nat) (dc : GdiDc) : DrawCall → Prop
  | .fillRect rect brush => ∀ b, brush = some b → b.style ≠ bsNull → RightFits dc rect.box
  | .invertRect rect => RightFits dc rect.box
  | .patBlt b rop => patternOf dc rop ≠ none → RightFits dc b
  | .bitBlt b src srcX srcY rop =>
      match GdiDc.source src with
      | none => patternOf dc rop ≠ none → RightFits dc b
      | some (src, _) => SurfaceFits words src ∧ RightFits dc b ∧ BottomFits dc b ∧
          ((gdiClipRect dc b).2 = true → SourceFits (blitOf b (gdiClipRect dc b).1 srcX srcY))
  | .stretchBlt _ src _ _ => ∀ s buf, GdiDc.source src = some (s, buf) → SurfaceFits words s
  | .lineTo _ _ => True
  | .setPixel _ _ _ => True

/-- The words of a row of a bitmap, by its bits per pixel; the product wraps. -/
def rowWords (width : Int32) (bpp : UInt32) : Nat :=
  ((max 1 width.toInt).toNat * max 1 bpp.toNat + 31) % 2 ^ 32 / 32

/-- A row of a bitmap holds a word for every pixel, and its size in bytes does not wrap. -/
def BitmapHolds (width height : Int32) (bpp : UInt32) : Prop :=
  (max 1 width.toInt).toNat ≤ rowWords width bpp ∧
    4 * rowWords width bpp * (max 1 height.toInt).toNat < 2 ^ 32

variable {words : Nat → Nat} {dc dst src : GdiDc} {buf sbuf : Nat} {b c : Box} {x y : Int32}

section Index

/-- The index of a pixel of a surface that fits. -/
theorem SurfaceFits.index (h : SurfaceFits words dc) (hbuf : dc.pixels = some buf)
    (hx : 0 ≤ x.toInt) (hxw : x.toInt < dc.width.toInt) (hy : 0 ≤ y.toInt)
    (hyh : y.toInt < dc.height.toInt) :
    (y * (dc.pitch / 4)).toInt = y.toInt * dc.stride ∧
      0 ≤ y.toInt * dc.stride + x.toInt ∧ y.toInt * dc.stride + x.toInt < words buf ∧
      (y * (dc.pitch / 4) + x).toInt = y.toInt * dc.stride + x.toInt := by
  have hright := h.right
  have hbottom := h.bottom buf hbuf
  have hspace := h.space
  have hrow : 0 ≤ y.toInt * dc.stride := Int.mul_nonneg hy (by omega)
  -- the rows up to this one end before the last row does
  have hrows : (y.toInt + 1) * dc.stride ≤ dc.height.toInt * dc.stride :=
    Int.mul_le_mul_of_nonneg_right (by omega) (by omega)
  have hnext : (y.toInt + 1) * dc.stride = y.toInt * dc.stride + dc.stride := by
    rw [Int.add_mul, Int.one_mul]
  have hmul : (y * (dc.pitch / 4)).toInt = y.toInt * dc.stride := by
    apply int_mul_of_fits
    · show -2 ^ 31 ≤ y.toInt * dc.stride
      omega
    · show y.toInt * dc.stride < 2 ^ 31
      omega
  refine ⟨hmul, by omega, by omega, ?_⟩
  rw [← hmul]
  apply int_add_of_fits
  · rw [hmul]
    omega
  · rw [hmul]
    omega

end Index

section Clipping

/-- The right bound of an interval that starts at 0 or later, where it does not wrap. -/
theorem clip_axis {p n m : Int32} (hp : 0 ≤ p.toInt) (hm : 0 ≤ m.toInt)
    (hfits : p.toInt + n.toInt < 2 ^ 31) :
    p.toInt + (if p + n > m then m - p else n).toInt ≤ m.toInt ∧
      (if p + n > m then m - p else n).toInt ≤ n.toInt := by
  have hn := n.le_toInt
  have hplt := p.toInt_lt
  have hsum : (p + n).toInt = p.toInt + n.toInt := int_add_of_fits (by omega) hfits
  have hdiff : (m - p).toInt = m.toInt - p.toInt := by
    have hmlt := m.toInt_lt
    exact int_sub_of_fits (by omega) (by omega)
  split
  · next hgt =>
    rw [gt_iff_lt, Int32.lt_iff_toInt_lt, hsum] at hgt
    rw [hdiff]
    omega
  · next hle =>
    rw [gt_iff_lt, Int32.lt_iff_toInt_lt, hsum] at hle
    omega

/-- Where it wraps, nothing is taken away. -/
theorem clip_axis_wraps {p n m : Int32} (hp : 0 ≤ p.toInt) (hn : 0 ≤ n.toInt) (hm : 0 ≤ m.toInt)
    (hwrap : 2 ^ 31 ≤ p.toInt + n.toInt) : (if p + n > m then m - p else n) = n := by
  have hneg := int_add_wraps hp hn hwrap
  apply if_neg
  rw [gt_iff_lt, Int32.lt_iff_toInt_lt]
  omega

theorem clipLow_x (dc : GdiDc) (b : Box) : 0 ≤ (dc.clipLow b).x.toInt := by
  show 0 ≤ (if b.x + dc.vpOrgX - dc.winOrgX < 0 then 0 else b.x + dc.vpOrgX - dc.winOrgX).toInt
  split
  · decide
  · next h =>
    rw [Int32.lt_iff_toInt_lt, Int32.toInt_zero] at h
    omega

theorem clipLow_y (dc : GdiDc) (b : Box) : 0 ≤ (dc.clipLow b).y.toInt := by
  show 0 ≤ (if b.y + dc.vpOrgY - dc.winOrgY < 0 then 0 else b.y + dc.vpOrgY - dc.winOrgY).toInt
  split
  · decide
  · next h =>
    rw [Int32.lt_iff_toInt_lt, Int32.toInt_zero] at h
    omega

/-- A rectangle that is not empty after it has been clipped. -/
theorem visible_iff (dc : GdiDc) (b : Box) : (gdiClipRect dc b).2 = true ↔
    0 < (gdiClipRect dc b).1.width.toInt ∧ 0 < (gdiClipRect dc b).1.height.toInt := by
  have hzero : (0 : Int32).toInt = 0 := Int32.toInt_zero
  unfold gdiClipRect
  simp only [decide_eq_true_eq, gt_iff_lt, Int32.lt_iff_toInt_lt, hzero]

/-- The columns of a clipped rectangle. -/
theorem gdiClipRect_x (hs : SurfaceFits words dc) (hfits : RightFits dc b) :
    0 ≤ (gdiClipRect dc b).1.x.toInt ∧
      (gdiClipRect dc b).1.x.toInt + (gdiClipRect dc b).1.width.toInt ≤ dc.width.toInt :=
  ⟨clipLow_x dc b, (clip_axis (clipLow_x dc b) hs.left hfits).1⟩

/-- The rows of a clipped rectangle. -/
theorem gdiClipRect_y (hs : SurfaceFits words dc) (hfits : BottomFits dc b) :
    0 ≤ (gdiClipRect dc b).1.y.toInt ∧
      (gdiClipRect dc b).1.y.toInt + (gdiClipRect dc b).1.height.toInt ≤ dc.height.toInt :=
  ⟨clipLow_y dc b, (clip_axis (clipLow_y dc b) hs.top hfits).1⟩

/-- The rows that are drawn; none is if the lower bound wraps. -/
theorem row_of_clip (hs : SurfaceFits words dc) (hvisible : (gdiClipRect dc b).2 = true)
    {row : Int32} (hrow : row ∈ countUp (gdiClipRect dc b).1.y
      ((gdiClipRect dc b).1.y + (gdiClipRect dc b).1.height)) :
    0 ≤ row.toInt ∧ row.toInt < dc.height.toInt := by
  have hy := clipLow_y dc b
  have hpos := ((visible_iff dc b).mp hvisible).2
  obtain ⟨hlo, hhi⟩ := mem_countUp.mp hrow
  have htop : (gdiClipRect dc b).1.y = (dc.clipLow b).y := rfl
  have hheight : (gdiClipRect dc b).1.height =
      if (dc.clipLow b).y + (dc.clipLow b).height > dc.height then dc.height - (dc.clipLow b).y
      else (dc.clipLow b).height := rfl
  rw [htop] at hlo hhi
  by_cases hfits : BottomFits dc b
  · obtain ⟨-, hend⟩ := gdiClipRect_y hs hfits
    have hlt := dc.height.toInt_lt
    rw [htop] at hend
    rw [int_add_of_fits (by omega) (by omega)] at hhi
    omega
  · have hwrap : 2 ^ 31 ≤ (dc.clipLow b).y.toInt + (dc.clipLow b).height.toInt := Int.not_lt.mp hfits
    have hlt := (dc.clipLow b).y.toInt_lt
    rw [hheight, clip_axis_wraps hy (by omega) hs.top hwrap] at hhi
    have hneg := int_add_wraps hy (by omega) hwrap
    omega

end Clipping

section Rectangles

/-- A computation stays inside the buffers. -/
abbrev StaysInside {α : Type} (words : Nat → Nat) (x : DrawM α) (q : α → Prop) : Prop :=
  x.Ensures (PixelAccess.Inside words) q

theorem getPixel_inside {i : Int} (h : 0 ≤ i ∧ i < words buf) :
    StaysInside words (getPixel buf i) fun _ => True := by
  apply ensures_op
  · intro e he
    rw [List.mem_singleton.mp he]
    exact h
  · exact fun _ => trivial

theorem putPixel_inside {i : Int} (h : 0 ≤ i ∧ i < words buf) (pixel : UInt32) :
    StaysInside words (putPixel buf i pixel) fun _ => True := by
  apply ensures_op
  · intro e he
    rw [List.mem_singleton.mp he]
    exact h
  · exact fun _ => trivial

theorem modifyPixel_inside {i : Int} (h : 0 ≤ i ∧ i < words buf) (f : UInt32 → UInt32) :
    StaysInside words (modifyPixel buf f i) fun _ => True :=
  (getPixel_inside h).bind fun pixel _ => putPixel_inside h (f pixel)

/-- The loops over a clipped rectangle stay inside if each of their rounds does. -/
theorem eachPixel_inside (hs : SurfaceFits words dc) (hbuf : dc.pixels = some buf)
    (hfits : RightFits dc b) (hvisible : (gdiClipRect dc b).2 = true) {pixel : Int → DrawM PUnit}
    (h : ∀ i : Int, 0 ≤ i ∧ i < words buf → StaysInside words (pixel i) fun _ => True) :
    StaysInside words (eachPixel dc (gdiClipRect dc b).1 pixel) fun _ => True := by
  obtain ⟨hleft, hright⟩ := gdiClipRect_x hs hfits
  apply ensures_forM
  intro row hrow
  obtain ⟨htop, hbottom⟩ := row_of_clip hs hvisible hrow
  apply ensures_forM
  intro col hcol
  obtain ⟨hlo, hhi⟩ := mem_countUp.mp hcol
  rw [Int32.toInt_zero] at hlo
  have hlt := dc.width.toInt_lt
  have hsum : ((gdiClipRect dc b).1.x + col).toInt =
      (gdiClipRect dc b).1.x.toInt + col.toInt := int_add_of_fits (by omega) (by omega)
  obtain ⟨hmul, hindex, hend, -⟩ := hs.index hbuf (x := (gdiClipRect dc b).1.x + col) (y := row)
    (by omega) (by omega) htop hbottom
  apply h
  rw [hmul, Int.add_assoc, ← hsum]
  exact ⟨hindex, hend⟩

end Rectangles

section Calls

/-- The device context after a call: its position has moved, and it may be dirty. -/
def Redrawn (dc dc' : GdiDc) : Prop :=
  ∃ x y dirty, dc' = { dc with curX := x, curY := y, dirty := dirty }

theorem Redrawn.refl (dc : GdiDc) : Redrawn dc dc := ⟨dc.curX, dc.curY, dc.dirty, rfl⟩

theorem Redrawn.dirty (dc : GdiDc) (dirty : Bool) : Redrawn dc { dc with dirty := dirty } :=
  ⟨dc.curX, dc.curY, dirty, rfl⟩

theorem gdiFillRect_inside (hs : SurfaceFits words dc) {rect : Rect} {brush : Option GdiBrush}
    (hfits : CallFits words dc (.fillRect rect brush)) :
    StaysInside words (gdiFillRect dc rect brush) fun r => Redrawn dc r.2 := by
  unfold gdiFillRect
  split
  · next brush buf hbuf =>
    split
    · exact ensures_pure (Redrawn.refl dc)
    · next hstyle =>
      dsimp only
      split
      · next hvisible =>
        apply (eachPixel_inside hs hbuf (hfits brush rfl hstyle) hvisible ?_).bind
        · exact fun _ _ => ensures_pure (Redrawn.dirty dc true)
        · exact fun i hi => putPixel_inside hi _
      · exact ensures_pure (Redrawn.refl dc)
  · exact ensures_pure (Redrawn.refl dc)

theorem gdiInvertRect_inside (hs : SurfaceFits words dc) {rect : Rect}
    (hfits : RightFits dc rect.box) :
    StaysInside words (gdiInvertRect dc rect) fun r => Redrawn dc r.2 := by
  unfold gdiInvertRect
  split
  · next buf hbuf =>
    dsimp only
    split
    · next hvisible =>
      apply (eachPixel_inside hs hbuf hfits hvisible ?_).bind
      · exact fun _ _ => ensures_pure (Redrawn.dirty dc true)
      · exact fun i hi => modifyPixel_inside hi _
    · exact ensures_pure (Redrawn.refl dc)
  · exact ensures_pure (Redrawn.refl dc)

theorem gdiPatBlt_inside (hs : SurfaceFits words dc) {rop : UInt32}
    (hfits : patternOf dc rop ≠ none → RightFits dc b) :
    StaysInside words (gdiPatBlt dc b rop) fun r => Redrawn dc r.2 := by
  unfold gdiPatBlt
  split
  · exact ensures_pure (Redrawn.refl dc)
  · exact ensures_pure (Redrawn.refl dc)
  · next buf pat hbuf hpat =>
    have hright := hfits (by rw [hpat]; exact Option.some_ne_none pat)
    dsimp only
    split
    · next hvisible =>
      have hdirty : ∀ _ : PUnit, True →
          StaysInside words (pure (true, { dc with dirty := true })) fun r => Redrawn dc r.2 :=
        fun _ _ => ensures_pure (Redrawn.dirty dc true)
      split
      · apply (eachPixel_inside hs hbuf hright hvisible ?_).bind hdirty
        exact fun i hi => putPixel_inside hi _
      · apply (eachPixel_inside hs hbuf hright hvisible ?_).bind hdirty
        exact fun i hi => modifyPixel_inside hi _
    · exact ensures_pure (Redrawn.refl dc)

theorem gdiSetPixel_inside (hs : SurfaceFits words dc) (x y : Int32) (color : UInt32) :
    StaysInside words (gdiSetPixel dc x y color) fun r => Redrawn dc r.2 := by
  unfold gdiSetPixel
  split
  · exact ensures_pure (Redrawn.refl dc)
  · next buf hbuf =>
    dsimp only
    split
    · exact ensures_pure (Redrawn.refl dc)
    · next hin =>
      simp only [not_or, ge_iff_le, Int32.le_iff_toInt_le, Int32.lt_iff_toInt_lt,
        Int32.toInt_zero, Int.not_lt, Int.not_le] at hin
      obtain ⟨hx, hxw, hy, hyh⟩ := hin
      obtain ⟨-, hindex, hend, hmul⟩ := hs.index hbuf hx hxw hy hyh
      have hi := And.intro hindex hend
      rw [← hmul] at hi
      exact (getPixel_inside hi).bind fun pixel _ => (putPixel_inside hi _).bind
        fun _ _ => ensures_pure (Redrawn.dirty dc true)

theorem linePixel_inside (hs : SurfaceFits words dc) (hbuf : dc.pixels = some buf) (l : Line)
    (p : LinePos) : StaysInside words (linePixel dc buf l p) fun _ => True := by
  unfold linePixel
  split
  · next hin =>
    simp only [ge_iff_le, Int32.le_iff_toInt_le, Int32.lt_iff_toInt_lt, Int32.toInt_zero] at hin
    obtain ⟨hx, hxw, hy, hyh⟩ := hin
    obtain ⟨-, hindex, hend, hmul⟩ := hs.index hbuf hx hxw hy hyh
    have hi := And.intro hindex hend
    rw [← hmul] at hi
    exact putPixel_inside hi l.color
  · exact ensures_pure trivial

/-- Every round of a line stays inside. -/
theorem lineLoop_inside (hs : SurfaceFits words dc) (hbuf : dc.pixels = some buf) (l : Line)
    (fuel : Nat) (p : LinePos) : StaysInside words (lineLoop dc buf l fuel p) fun _ => True := by
  induction fuel generalizing p with
  | zero => exact ensures_pure trivial
  | succ fuel ih =>
    apply (linePixel_inside hs hbuf l p).bind
    intro _ _
    split
    · exact ensures_pure trivial
    · exact ih (l.step p)

theorem gdiLineTo_inside (hs : SurfaceFits words dc) (fuel : Nat) (x y : Int32) :
    StaysInside words (gdiLineTo fuel dc x y) fun r => Redrawn dc r.2 := by
  unfold gdiLineTo
  split
  · exact ensures_pure (Redrawn.refl dc)
  · next buf hbuf =>
    split
    · exact ensures_pure ⟨x, y, dc.dirty, rfl⟩
    · exact (lineLoop_inside hs hbuf _ fuel _).bind
        fun _ _ => ensures_pure ⟨x, y, true, rfl⟩

/-- A pixel of the destination and one of the source. -/
theorem combinePixel_inside {d i : Int} (hd : 0 ≤ d ∧ d < words buf) (hi : 0 ≤ i ∧ i < words sbuf)
    (f : UInt32 → UInt32 → UInt32) :
    StaysInside words (combinePixel buf sbuf f d i) fun _ => True :=
  (getPixel_inside hd).bind fun old _ => (getPixel_inside hi).bind fun new _ =>
    putPixel_inside hd (f old new)

/-- A row of the destination and one of the source. -/
theorem copyPixels_inside {d i : Int} {n : Nat} (hd : 0 ≤ d ∧ d + n ≤ words buf)
    (hi : 0 ≤ i ∧ i + n ≤ words sbuf) :
    StaysInside words (copyPixels buf d sbuf i n) fun _ => True := by
  apply ensures_op
  · intro e he
    rcases List.mem_append.mp he with hread | hwrite
    · obtain ⟨k, hk, rfl⟩ := List.mem_map.mp hread
      have hlt : k < n := List.mem_range.mp hk
      show 0 ≤ i + (k : Int) ∧ i + (k : Int) < words sbuf
      omega
    · obtain ⟨k, hk, rfl⟩ := List.mem_map.mp hwrite
      have hlt : k < n := List.mem_range.mp hk
      show 0 ≤ d + (k : Int) ∧ d + (k : Int) < words buf
      omega
  · exact fun _ => trivial

/-- The source of a transfer along one axis: from `s` of `sm`, to `p` of `m`. -/
theorem clip_source_axis {p n s m sm : Int32} (hp : 0 ≤ p.toInt) (hn : 0 < n.toInt)
    (hend : p.toInt + n.toInt ≤ m.toInt) (hsm : 0 ≤ sm.toInt) {s' n' p' n'' : Int32}
    (hs' : s' = if s < 0 then 0 else s) (hn' : n' = if s < 0 then n + s else n)
    (hp' : p' = if s < 0 then p - s else p) (hn'' : n'' = if s' + n' > sm then sm - s' else n')
    (hfits : s'.toInt + n'.toInt < 2 ^ 31) (hpos : 0 < n''.toInt) :
    0 ≤ p'.toInt ∧ p'.toInt + n''.toInt ≤ m.toInt ∧ 0 ≤ s'.toInt ∧
      s'.toInt + n''.toInt ≤ sm.toInt := by
  have hs'0 : 0 ≤ s'.toInt := by
    rw [hs']
    split
    · decide
    · next h =>
      rw [Int32.lt_iff_toInt_lt, Int32.toInt_zero] at h
      omega
  obtain ⟨hright, hle⟩ := clip_axis hs'0 hsm hfits
  rw [← hn''] at hright hle
  have hmlt := m.toInt_lt
  have hslo := s.le_toInt
  by_cases hneg : s < 0
  · rw [if_pos hneg] at hn' hp'
    rw [Int32.lt_iff_toInt_lt, Int32.toInt_zero] at hneg
    have hsum : n'.toInt = n.toInt + s.toInt := by
      rw [hn']
      exact int_add_of_fits (by omega) (by omega)
    have hdiff : p'.toInt = p.toInt - s.toInt := by
      rw [hp']
      exact int_sub_of_fits (by omega) (by omega)
    omega
  · rw [if_neg hneg] at hn' hp'
    rw [hn'] at hle
    rw [hp']
    omega

/-- The columns of a transfer whose destination has been clipped. -/
theorem clip_source_x (blit : Blit) {m : Int32} (hx : 0 ≤ blit.dstX.toInt)
    (hwidth : 0 < blit.width.toInt) (hright : blit.dstX.toInt + blit.width.toInt ≤ m.toInt)
    (hsm : 0 ≤ src.width.toInt)
    (hfits : blit.clipLow.srcX.toInt + blit.clipLow.width.toInt < 2 ^ 31)
    (hpos : 0 < (blit.clipLow.clipHigh src).width.toInt) :
    0 ≤ (blit.clipLow.clipHigh src).dstX.toInt ∧
      (blit.clipLow.clipHigh src).dstX.toInt + (blit.clipLow.clipHigh src).width.toInt ≤ m.toInt ∧
      0 ≤ (blit.clipLow.clipHigh src).srcX.toInt ∧
      (blit.clipLow.clipHigh src).srcX.toInt + (blit.clipLow.clipHigh src).width.toInt ≤
        src.width.toInt := by
  have hs' : blit.clipLow.srcX = if blit.srcX < 0 then 0 else blit.srcX := rfl
  have hn' : blit.clipLow.width = if blit.srcX < 0 then blit.width + blit.srcX else blit.width := rfl
  have hp' : blit.clipLow.dstX = if blit.srcX < 0 then blit.dstX - blit.srcX else blit.dstX := rfl
  have hn'' : (blit.clipLow.clipHigh src).width =
      if blit.clipLow.srcX + blit.clipLow.width > src.width then src.width - blit.clipLow.srcX
      else blit.clipLow.width := rfl
  exact clip_source_axis hx hwidth hright hsm hs' hn' hp' hn'' hfits hpos

/-- The rows of a transfer whose destination has been clipped. -/
theorem clip_source_y (blit : Blit) {m : Int32} (hy : 0 ≤ blit.dstY.toInt)
    (hheight : 0 < blit.height.toInt) (hbottom : blit.dstY.toInt + blit.height.toInt ≤ m.toInt)
    (hsm : 0 ≤ src.height.toInt)
    (hfits : blit.clipLow.srcY.toInt + blit.clipLow.height.toInt < 2 ^ 31)
    (hpos : 0 < (blit.clipLow.clipHigh src).height.toInt) :
    0 ≤ (blit.clipLow.clipHigh src).dstY.toInt ∧
      (blit.clipLow.clipHigh src).dstY.toInt + (blit.clipLow.clipHigh src).height.toInt ≤
        m.toInt ∧
      0 ≤ (blit.clipLow.clipHigh src).srcY.toInt ∧
      (blit.clipLow.clipHigh src).srcY.toInt + (blit.clipLow.clipHigh src).height.toInt ≤
        src.height.toInt := by
  have hs' : blit.clipLow.srcY = if blit.srcY < 0 then 0 else blit.srcY := rfl
  have hn' : blit.clipLow.height = if blit.srcY < 0 then blit.height + blit.srcY else blit.height :=
    rfl
  have hp' : blit.clipLow.dstY = if blit.srcY < 0 then blit.dstY - blit.srcY else blit.dstY := rfl
  have hn'' : (blit.clipLow.clipHigh src).height =
      if blit.clipLow.srcY + blit.clipLow.height > src.height then src.height - blit.clipLow.srcY
      else blit.clipLow.height := rfl
  exact clip_source_axis hy hheight hbottom hsm hs' hn' hp' hn'' hfits hpos

/-- A stride is far from wrapping. -/
theorem stride_lt (dc : GdiDc) : dc.stride < 2 ^ 29 := by
  have hlt := dc.pitch.toInt_lt
  have hfour : (4 : Int32).toInt = 4 := by decide
  have hlo := dc.pitch.le_toInt
  have hdiv : -2 ^ 30 ≤ dc.pitch.toInt.tdiv 4 ∧ dc.pitch.toInt.tdiv 4 < 2 ^ 29 := by
    rw [Int.tdiv_eq_ediv]
    split
    · omega
    · have hsign : Int.sign 4 = 1 := by decide
      omega
  unfold GdiDc.stride
  rw [Int32.toInt_div, hfour, bmod_of_fits (by omega) (by omega)]
  exact hdiv.2

/-- The bytes of a row that is narrower than a stride. -/
theorem sizeT_row {n : Int32} (hpos : 0 < n.toInt) (hlt : n.toInt < 2 ^ 29) :
    sizeT (n * 4) / 4 = n.toInt.toNat := by
  have hfour : (4 : Int32).toInt = 4 := by decide
  unfold sizeT
  rw [int_mul_of_fits (by rw [hfour]; omega) (by rw [hfour]; omega), hfour]
  omega

/-- A row of a transfer between surfaces that fit. -/
theorem blitRow_inside (hs : SurfaceFits words dst) (hbuf : dst.pixels = some buf)
    (hsrc : SurfaceFits words src) (hsbuf : src.pixels = some sbuf) {blit : Blit}
    (hx : 0 ≤ blit.dstX.toInt) (hright : blit.dstX.toInt + blit.width.toInt ≤ dst.width.toInt)
    (hsx : 0 ≤ blit.srcX.toInt) (hsright : blit.srcX.toInt + blit.width.toInt ≤ src.width.toInt)
    (hy : 0 ≤ blit.dstY.toInt) (hbottom : blit.dstY.toInt + blit.height.toInt ≤ dst.height.toInt)
    (hsy : 0 ≤ blit.srcY.toInt) (hsbottom : blit.srcY.toInt + blit.height.toInt ≤ src.height.toInt)
    (hpos : 0 < blit.width.toInt) (rop : UInt32) {row : Int32}
    (hrow : row ∈ countUp 0 blit.height) :
    StaysInside words (blitRow dst src buf sbuf blit rop row) fun _ => True := by
  obtain ⟨hlo, hhi⟩ := mem_countUp.mp hrow
  rw [Int32.toInt_zero] at hlo
  have hdh := dst.height.toInt_lt
  have hsh := src.height.toInt_lt
  have hdw := dst.width.toInt_lt
  have hsw := src.width.toInt_lt
  have hdy : (blit.dstY + row).toInt = blit.dstY.toInt + row.toInt :=
    int_add_of_fits (by omega) (by omega)
  have hsy' : (blit.srcY + row).toInt = blit.srcY.toInt + row.toInt :=
    int_add_of_fits (by omega) (by omega)
  -- the pixels of the row, in the destination and in the source
  have hd : ∀ k : Int, 0 ≤ k → k < blit.width.toInt →
      0 ≤ ((blit.dstY + row) * (dst.pitch / 4)).toInt + blit.dstX.toInt + k ∧
        ((blit.dstY + row) * (dst.pitch / 4)).toInt + blit.dstX.toInt + k < words buf := by
    intro k hk hkw
    have hcol : (Int32.ofInt (blit.dstX.toInt + k)).toInt = blit.dstX.toInt + k :=
      Int32.toInt_ofInt_of_le (by omega) (by omega)
    obtain ⟨hmul, hindex, hend, -⟩ := hs.index hbuf (x := Int32.ofInt (blit.dstX.toInt + k))
      (y := blit.dstY + row) (by omega) (by omega) (by omega) (by omega)
    rw [hmul, Int.add_assoc, ← hcol]
    exact ⟨hindex, hend⟩
  have hi : ∀ k : Int, 0 ≤ k → k < blit.width.toInt →
      0 ≤ ((blit.srcY + row) * (src.pitch / 4)).toInt + blit.srcX.toInt + k ∧
        ((blit.srcY + row) * (src.pitch / 4)).toInt + blit.srcX.toInt + k < words sbuf := by
    intro k hk hkw
    have hcol : (Int32.ofInt (blit.srcX.toInt + k)).toInt = blit.srcX.toInt + k :=
      Int32.toInt_ofInt_of_le (by omega) (by omega)
    obtain ⟨hmul, hindex, hend, -⟩ := hsrc.index hsbuf (x := Int32.ofInt (blit.srcX.toInt + k))
      (y := blit.srcY + row) (by omega) (by omega) (by omega) (by omega)
    rw [hmul, Int.add_assoc, ← hcol]
    exact ⟨hindex, hend⟩
  unfold blitRow
  dsimp only
  split
  · have hstride := stride_lt dst
    have hfits := hs.right
    rw [sizeT_row hpos (by omega)]
    have hd0 := hd 0 (by omega) hpos
    have hi0 := hi 0 (by omega) hpos
    have hdn := hd (blit.width.toInt - 1) (by omega) (by omega)
    have hin := hi (blit.width.toInt - 1) (by omega) (by omega)
    apply copyPixels_inside
    · omega
    · omega
  · apply ensures_forM
    intro col hcol
    obtain ⟨hlo', hhi'⟩ := mem_countUp.mp hcol
    rw [Int32.toInt_zero] at hlo'
    exact combinePixel_inside (hd _ hlo' hhi') (hi _ hlo' hhi') _

theorem source_eq {s : Option GdiDc} (h : GdiDc.source s = some (src, sbuf)) :
    src.pixels = some sbuf := by
  obtain ⟨d, -, hd⟩ := Option.bind_eq_some_iff.mp h
  obtain ⟨b, hb, heq⟩ := Option.map_eq_some_iff.mp hd
  obtain ⟨rfl, rfl⟩ := Prod.mk.inj heq
  exact hb

theorem gdiBitBlt_inside (hs : SurfaceFits words dc) {src : Option GdiDc} {srcX srcY : Int32}
    {rop : UInt32} (hfits : CallFits words dc (.bitBlt b src srcX srcY rop)) :
    StaysInside words (gdiBitBlt dc b src srcX srcY rop) fun r => Redrawn dc r.2 := by
  unfold CallFits at hfits
  dsimp only at hfits
  unfold gdiBitBlt
  split
  · exact ensures_pure (Redrawn.refl dc)
  · next hsource =>
    rw [hsource] at hfits
    exact gdiPatBlt_inside hs hfits
  · next buf s sbuf hbuf hsource =>
    rw [hsource] at hfits
    obtain ⟨hsrc, hrightFits, hbottomFits, hsource'⟩ := hfits
    dsimp only
    split
    · next hvisible =>
      split
      · exact ensures_pure (Redrawn.refl dc)
      · next hnonempty =>
        obtain ⟨hsxFits, hsyFits⟩ := hsource' hvisible
        obtain ⟨hwidth, hheight⟩ := (visible_iff dc b).mp hvisible
        obtain ⟨hx, hright⟩ := gdiClipRect_x hs hrightFits
        obtain ⟨hy, hbottom⟩ := gdiClipRect_y hs hbottomFits
        simp only [not_or, Int32.le_iff_toInt_le, Int32.toInt_zero, Int.not_le] at hnonempty
        obtain ⟨hpos, hposy⟩ := hnonempty
        have hcols := clip_source_x (blitOf b (gdiClipRect dc b).1 srcX srcY) hx hwidth hright
          hsrc.left hsxFits hpos
        have hrows := clip_source_y (blitOf b (gdiClipRect dc b).1 srcX srcY) hy hheight hbottom
          hsrc.top hsyFits hposy
        generalize (blitOf b (gdiClipRect dc b).1 srcX srcY).clipLow.clipHigh s = blit
          at hpos hcols hrows ⊢
        obtain ⟨hx', hright', hsx', hsright'⟩ := hcols
        obtain ⟨hy', hbottom', hsy', hsbottom'⟩ := hrows
        refine (ensures_forM ?_).bind fun _ _ => ensures_pure (Redrawn.dirty dc true)
        intro row hrow
        exact blitRow_inside hs hbuf hsrc (source_eq hsource) hx' hright' hsx' hsright' hy' hbottom'
          hsy' hsbottom' hpos rop hrow
    · exact ensures_pure (Redrawn.refl dc)

/-- A pixel of a stretched transfer is compared with both surfaces. -/
theorem stretchPixel_inside (hs : SurfaceFits words dst) (hbuf : dst.pixels = some buf)
    (hsrc : SurfaceFits words src) (hsbuf : src.pixels = some sbuf) (b s : Box) (rop : UInt32)
    {sy : Int32} (hsy : 0 ≤ sy.toInt) (hsyh : sy.toInt < src.height.toInt) (dy dx : Int32) :
    StaysInside words (stretchPixel dst src buf sbuf b s rop sy dy dx) fun _ => True := by
  unfold stretchPixel
  dsimp only
  split
  · exact ensures_pure trivial
  · next hin =>
    simp only [not_or, ge_iff_le, Int32.le_iff_toInt_le, Int32.lt_iff_toInt_lt,
      Int32.toInt_zero, Int.not_lt, Int.not_le] at hin
    obtain ⟨hsx, hsxw, hx, hxw, hy, hyh⟩ := hin
    obtain ⟨-, hindex, hend, hmul⟩ := hs.index hbuf hx hxw hy hyh
    obtain ⟨-, hsindex, hsend, hsmul⟩ := hsrc.index hsbuf hsx hsxw hsy hsyh
    have hd := And.intro hindex hend
    have hi := And.intro hsindex hsend
    rw [← hmul] at hd
    rw [← hsmul] at hi
    split
    · exact (getPixel_inside hi).bind fun pixel _ => putPixel_inside hd pixel
    · exact (getPixel_inside hi).bind fun new _ => (getPixel_inside hd).bind
        fun old _ => putPixel_inside hd _

theorem gdiStretchBlt_inside (hs : SurfaceFits words dc) {src : Option GdiDc} {s : Box}
    {rop : UInt32} (hfits : CallFits words dc (.stretchBlt b src s rop)) :
    StaysInside words (gdiStretchBlt dc b src s rop) fun r => Redrawn dc r.2 := by
  unfold gdiStretchBlt
  split
  · next buf d sbuf hbuf hsource =>
    have hsrc := hfits d sbuf hsource
    refine (ensures_forM ?_).bind fun _ _ => ensures_pure (Redrawn.dirty dc true)
    intro dy _
    dsimp only
    split
    · exact ensures_pure trivial
    · next hin =>
      simp only [not_or, ge_iff_le, Int32.le_iff_toInt_le, Int32.lt_iff_toInt_lt,
        Int32.toInt_zero, Int.not_lt, Int.not_le] at hin
      apply ensures_forM
      intro dx _
      exact stretchPixel_inside hs hbuf hsrc (source_eq hsource) b s rop hin.1 hin.2 dy dx
  · exact ensures_pure (Redrawn.refl dc)

end Calls

section Runs

variable {dc' : GdiDc} {call : DrawCall}

/-- What a call keeps of a device context decides what the next call does. -/
theorem Redrawn.surface (h : Redrawn dc dc') (hs : SurfaceFits words dc) :
    SurfaceFits words dc' := by
  obtain ⟨x, y, dirty, rfl⟩ := h
  exact ⟨hs.left, hs.top, hs.right, hs.bottom, hs.space⟩

theorem Redrawn.callFits (h : Redrawn dc dc') (hfits : CallFits words dc call) :
    CallFits words dc' call := by
  obtain ⟨x, y, dirty, rfl⟩ := h
  exact hfits

/-- The result of a computation is passed on. -/
theorem map_inside {α : Type} {x : DrawM (α × GdiDc)}
    (h : StaysInside words x fun r => Redrawn dc r.2) :
    StaysInside words (Prod.snd <$> x) fun dc' => Redrawn dc dc' :=
  h.bind fun _ hr => ensures_pure hr

/-- A call stays inside the buffers. -/
theorem draw_inside (hs : SurfaceFits words dc) (fuel : Nat) (hfits : CallFits words dc call) :
    StaysInside words (draw fuel dc call) fun dc' => Redrawn dc dc' := by
  cases call with
  | fillRect rect brush => exact map_inside (gdiFillRect_inside hs hfits)
  | invertRect rect => exact map_inside (gdiInvertRect_inside hs hfits)
  | patBlt b rop => exact map_inside (gdiPatBlt_inside hs hfits)
  | bitBlt b src srcX srcY rop => exact map_inside (gdiBitBlt_inside hs hfits)
  | stretchBlt b src s rop => exact map_inside (gdiStretchBlt_inside hs hfits)
  | lineTo x y => exact map_inside (gdiLineTo_inside hs fuel x y)
  | setPixel x y color => exact map_inside (gdiSetPixel_inside hs x y color)

/-- So do calls one after the other. -/
theorem drawAll_inside (hs : SurfaceFits words dc) (fuel : Nat) {calls : List DrawCall}
    (hfits : ∀ call ∈ calls, CallFits words dc call) :
    StaysInside words (drawAll fuel dc calls) fun _ => True := by
  induction calls generalizing dc with
  | nil => exact ensures_pure trivial
  | cons call calls ih =>
    apply (draw_inside hs fuel (hfits call List.mem_cons_self)).bind
    intro dc' hdc'
    exact ih (hdc'.surface hs) fun next hnext =>
      hdc'.callFits (hfits next (List.mem_cons_of_mem call hnext))

end Runs

section Bitmaps

variable {heap : Heap} {width height : Int32} {planes bpp : UInt32} {bmp : GdiBitmap}

theorem atLeastOne (n : Int32) : (if n < 1 then (1 : Int32) else n).toInt = max 1 n.toInt := by
  have hone : (1 : Int32).toInt = 1 := by decide
  split
  · next h =>
    rw [Int32.lt_iff_toInt_lt, hone] at h
    omega
  · next h =>
    rw [Int32.lt_iff_toInt_lt, hone] at h
    omega

theorem atLeastOne_unsigned (n : UInt32) :
    (if n < 1 then (1 : UInt32) else n).toNat = max 1 n.toNat := by
  have hone : (1 : UInt32).toNat = 1 := by decide
  split
  · next h =>
    rw [UInt32.lt_iff_toNat_lt, hone] at h
    omega
  · next h =>
    rw [UInt32.lt_iff_toNat_lt, hone] at h
    omega

/-- The pitch of a bitmap is that of its rows. -/
theorem bitmap_pitch (width height : Int32) (planes bpp : UInt32) :
    (bitmapFields width height planes bpp).pitch.toInt = 4 * (rowWords width bpp : Int) := by
  have hwidth := atLeastOne width
  have hbpp := atLeastOne_unsigned bpp
  have hpitch : (bitmapFields width height planes bpp).pitch =
      (((if width < 1 then 1 else width).toUInt32 * (if bpp < 1 then 1 else bpp) + 31) / 32
        * 4).toInt32 := rfl
  have hnat : (((if width < 1 then 1 else width).toUInt32 * (if bpp < 1 then 1 else bpp) + 31) / 32
      * 4).toNat = 4 * rowWords width bpp := by
    rw [UInt32.toNat_mul, UInt32.toNat_div, UInt32.toNat_add, UInt32.toNat_mul,
      toNat_toUInt32 (by omega), hwidth, hbpp]
    simp only [UInt32.reduceToNat]
    unfold rowWords
    omega
  have hlt : 4 * rowWords width bpp < 2 ^ 31 := by
    unfold rowWords
    omega
  rw [hpitch, toInt_toInt32 (by omega), hnat]
  omega

/-- So is its stride. -/
theorem bitmap_stride (width height : Int32) (planes bpp : UInt32) :
    ((bitmapFields width height planes bpp).pitch / 4).toInt = rowWords width bpp := by
  have hfour : (4 : Int32).toInt = 4 := by decide
  have hlt : rowWords width bpp < 2 ^ 27 := by
    unfold rowWords
    omega
  rw [Int32.toInt_div, hfour, bitmap_pitch, Int.mul_comm, Int.mul_tdiv_cancel _ (by decide)]
  exact bmod_of_fits (by omega) (by omega)

theorem newBitmap_eq (h : newBitmap heap buf width height planes bpp = some bmp) :
    bmp = { bitmapFields width height planes bpp with pixels := some buf } ∧
      heap.gives (bitmapFields width height planes bpp).size = true := by
  unfold newBitmap at h
  dsimp only at h
  split at h
  · next hgives => exact ⟨(Option.some.inj h).symm, hgives⟩
  · cases h

/-- A size that memory has room for is not a negative number. -/
theorem sizeT_lt {q : Int32} (h : sizeT q < 2 ^ 63) : 0 ≤ q.toInt := by
  have hlo := q.le_toInt
  unfold sizeT at h
  apply Int.not_lt.mp
  intro hneg
  have hmod : q.toInt % 2 ^ 64 = q.toInt + 2 ^ 64 := by
    rw [← Int.add_emod_right, Int.emod_eq_of_lt (by omega) (by omega)]
  rw [hmod] at h
  omega

theorem sizeT_of_nonneg {q : Int32} (h : 0 ≤ q.toInt) : sizeT q = q.toInt.toNat := by
  have hhi := q.toInt_lt
  unfold sizeT
  rw [Int.emod_eq_of_lt h (by omega)]

theorem sizeT_words {q : Int32} {n : Nat} (hq : q.toInt = ((4 * n : Nat) : Int).bmod (2 ^ 32))
    (hlt : sizeT q < 2 ^ 63) : 4 * n % 2 ^ 32 < 2 ^ 31 ∧ sizeT q / 4 = n % 2 ^ 30 := by
  have hpos := sizeT_lt hlt
  have hhi := q.toInt_lt
  rw [sizeT_of_nonneg hpos]
  rw [Int.bmod_def] at hq
  omega

/-- The words of the buffer of a bitmap that was accepted: those of its rows, in 32 bits. -/
theorem newBitmap_words (h : newBitmap heap buf width height planes bpp = some bmp) :
    4 * (rowWords width bpp * (max 1 height.toInt).toNat) % 2 ^ 32 < 2 ^ 31 ∧
      bmp.size / 4 = rowWords width bpp * (max 1 height.toInt).toNat % 2 ^ 30 := by
  obtain ⟨rfl, hgives⟩ := newBitmap_eq h
  have hsize : (bitmapFields width height planes bpp).size < 2 ^ 63 := by
    apply Nat.lt_of_not_le
    intro hle
    rw [heap.refuses _ hle] at hgives
    cases hgives
  have hheight : (bitmapFields width height planes bpp).height.toInt = max 1 height.toInt :=
    atLeastOne height
  apply sizeT_words _ hsize
  rw [Int32.toInt_mul, bitmap_pitch, hheight]
  push_cast
  rw [Int.toNat_of_nonneg (by omega), Int.mul_assoc]

/-- A bitmap that holds its pixels makes a surface that fits. -/
theorem BitmapHolds.surface (h : BitmapHolds width height bpp)
    (hbmp : newBitmap heap buf width height planes bpp = some bmp) (hwords : words buf = bmp.size / 4)
    (dc : GdiDc) : SurfaceFits words (dc.withSurface bmp) := by
  obtain ⟨hmod, hsize⟩ := newBitmap_words hbmp
  obtain ⟨rfl, -⟩ := newBitmap_eq hbmp
  obtain ⟨hrow, hbytes⟩ := h
  have hwidth := atLeastOne width
  have hheight := atLeastOne height
  have hstride := bitmap_stride width height planes bpp
  rw [Nat.mul_assoc] at hbytes
  have harea : (max 1 height.toInt) * (rowWords width bpp : Int) =
      (rowWords width bpp * (max 1 height.toInt).toNat : Nat) := by
    push_cast
    rw [Int.toNat_of_nonneg (by omega), Int.mul_comm]
  generalize rowWords width bpp * (max 1 height.toInt).toNat = area at hmod hsize hbytes harea
  constructor
  case left =>
    show 0 ≤ (if width < 1 then (1 : Int32) else width).toInt
    omega
  case top =>
    show 0 ≤ (if height < 1 then (1 : Int32) else height).toInt
    omega
  case right =>
    show (if width < 1 then (1 : Int32) else width).toInt ≤
      ((bitmapFields width height planes bpp).pitch / 4).toInt
    omega
  case bottom =>
    intro b hb
    obtain rfl : buf = b := Option.some.inj hb
    show (if height < 1 then (1 : Int32) else height).toInt *
      ((bitmapFields width height planes bpp).pitch / 4).toInt ≤ words buf
    rw [hheight, hstride, harea, hwords, hsize]
    omega
  case space =>
    show (if height < 1 then (1 : Int32) else height).toInt *
      ((bitmapFields width height planes bpp).pitch / 4).toInt < 2 ^ 31
    rw [hheight, hstride, harea]
    omega

/-- A bitmap that does not hold its pixels has one that lies behind its buffer. -/
theorem exists_pixel_outside (h : ¬ BitmapHolds width height bpp)
    (hbmp : newBitmap heap buf width height planes bpp = some bmp) :
    ∃ x y : Nat, x < (max 1 width.toInt).toNat ∧ y < (max 1 height.toInt).toNat ∧
      bmp.size / 4 ≤ y * rowWords width bpp + x ∧ y * rowWords width bpp + x < 2 ^ 31 := by
  obtain ⟨hmod, hsize⟩ := newBitmap_words hbmp
  have hlt : rowWords width bpp < 2 ^ 27 := by
    unfold rowWords
    omega
  have hheight : 1 ≤ (max 1 height.toInt).toNat := by omega
  have hwidth : 1 ≤ (max 1 width.toInt).toNat := by omega
  unfold BitmapHolds at h
  rw [hsize]
  generalize rowWords width bpp = stride at h hmod hlt ⊢
  generalize (max 1 height.toInt).toNat = rows at h hmod hheight ⊢
  generalize (max 1 width.toInt).toNat = columns at h hwidth ⊢
  rw [Nat.mul_assoc] at h
  by_cases hbytes : 4 * (stride * rows) < 2 ^ 32
  · -- the pixel behind the words of the last row
    have hcolumns : stride < columns := by omega
    refine ⟨stride, rows - 1, hcolumns, by omega, ?_⟩
    have hlast : (rows - 1) * stride + stride = stride * rows := by
      rw [← Nat.succ_mul, Nat.succ_eq_add_one, Nat.sub_add_cancel hheight, Nat.mul_comm]
    omega
  · -- the first row behind a buffer whose size has wrapped
    have hpos : 0 < stride := by
      apply Nat.pos_of_ne_zero
      intro hzero
      rw [hzero, Nat.zero_mul] at hbytes
      omega
    generalize harea : stride * rows % 2 ^ 30 = area at hmod ⊢
    have hdiv := Nat.div_add_mod area stride
    have hrem := Nat.mod_lt area hpos
    have hnext : (area / stride + 1) * stride = stride * (area / stride) + stride := by
      rw [Nat.add_mul, Nat.one_mul, Nat.mul_comm]
    refine ⟨0, area / stride + 1, by omega, ?_, by omega, by omega⟩
    apply Nat.lt_of_mul_lt_mul_right (a := stride)
    rw [hnext, Nat.mul_comm rows stride]
    omega

/-- Setting a pixel of a bitmap reads and writes its word. -/
theorem setPixel_events (fuel : Nat) (m : PixelMem) (color : UInt32)
    (hbuf : dc.pixels = some buf) (horgX : dc.vpOrgX = dc.winOrgX) (horgY : dc.vpOrgY = dc.winOrgY)
    (hx : 0 ≤ x.toInt ∧ x.toInt < dc.width.toInt) (hy : 0 ≤ y.toInt ∧ y.toInt < dc.height.toInt) :
    (drawAll fuel dc [.setPixel x y color]).events m =
      [.read buf (y * (dc.pitch / 4) + x).toInt, .write buf (y * (dc.pitch / 4) + x).toInt] := by
  have hzero : ∀ n k : Int32, n + (k - k) = n := by
    intro n k
    rw [Int32.sub_self, Int32.add_zero]
  have hin : ¬ (x < 0 ∨ x ≥ dc.width ∨ y < 0 ∨ y ≥ dc.height) := by
    simp only [not_or, ge_iff_le, Int32.le_iff_toInt_le, Int32.lt_iff_toInt_lt, Int32.toInt_zero]
    omega
  simp only [drawAll, draw, gdiSetPixel, hbuf, horgX, horgY, hzero, hin, if_false]
  rfl

end Bitmaps

section Results

variable {heap : Heap} {width height : Int32} {planes bpp : UInt32} {bmp : GdiBitmap}

/-- Whatever is drawn on a bitmap stays inside its buffer, as long as no bound wraps in a call,
exactly if the bitmap holds its pixels. -/
theorem drawAll_inside_iff (hbmp : newBitmap heap buf width height planes bpp = some bmp) :
    (∀ (words : Nat → Nat) (fuel : Nat) (dc : GdiDc) (calls : List DrawCall) (m : PixelMem),
      words buf = bmp.size / 4 → (∀ call ∈ calls, CallFits words (dc.withSurface bmp) call) →
        ∀ e ∈ (drawAll fuel (dc.withSurface bmp) calls).events m, e.Inside words) ↔
      BitmapHolds width height bpp := by
  constructor
  · intro hall
    apply Classical.byContradiction
    intro hnot
    obtain ⟨x, y, hx, hy, hwords, hspace⟩ := exists_pixel_outside hnot hbmp
    have hevents := hall (fun _ => bmp.size / 4) 0 {} [.setPixel (Int32.ofInt x) (Int32.ofInt y) 0]
      (fun _ _ => 0) rfl (by simp [CallFits])
    obtain ⟨heq, -⟩ := newBitmap_eq hbmp
    have hsurface : ∀ dc : GdiDc, (dc.withSurface bmp).pixels = some buf ∧
        (dc.withSurface bmp).width.toInt = max 1 width.toInt ∧
        (dc.withSurface bmp).height.toInt = max 1 height.toInt ∧
        ((dc.withSurface bmp).pitch / 4).toInt = rowWords width bpp := by
      intro dc
      rw [heq]
      exact ⟨rfl, atLeastOne width, atLeastOne height, bitmap_stride width height planes bpp⟩
    obtain ⟨hbuf, hw, hh, hstride⟩ := hsurface {}
    have hwlt := width.toInt_lt
    have hhlt := height.toInt_lt
    have hxi : (Int32.ofInt (x : Int)).toInt = x := Int32.toInt_ofInt_of_le (by omega) (by omega)
    have hyi : (Int32.ofInt (y : Int)).toInt = y := Int32.toInt_ofInt_of_le (by omega) (by omega)
    rw [setPixel_events 0 _ 0 hbuf rfl rfl (by omega) (by omega)] at hevents
    have hinside := (hevents _ List.mem_cons_self).2
    have hcast : ((y * rowWords width bpp : Nat) : Int) = (y : Int) * (rowWords width bpp : Int) :=
      Int.natCast_mul y (rowWords width bpp)
    have hmul : (Int32.ofInt (y : Int) * ((({} : GdiDc).withSurface bmp).pitch / 4)).toInt =
        (y * rowWords width bpp : Nat) := by
      rw [int_mul_of_fits (by rw [hyi, hstride]; omega) (by rw [hyi, hstride]; omega), hyi, hstride,
        hcast]
    rw [int_add_of_fits (by rw [hmul, hxi]; omega) (by rw [hmul, hxi]; omega), hmul, hxi] at hinside
    dsimp only at hinside
    omega
  · intro hholds words fuel dc calls m hwords hfits
    exact (drawAll_inside (hholds.surface hbmp hwords dc) fuel hfits m).1

/-- A bitmap of 32 bits per pixel. -/
theorem drawAll_inside_trueColour : ∃ bmp, newBitmap roomyHeap 0 10 10 1 32 = some bmp ∧
    ∀ (words : Nat → Nat) (fuel : Nat) (dc : GdiDc) (calls : List DrawCall) (m : PixelMem),
      words 0 = bmp.size / 4 → (∀ call ∈ calls, CallFits words (dc.withSurface bmp) call) →
        ∀ e ∈ (drawAll fuel (dc.withSurface bmp) calls).events m, e.Inside words := by
  have hbmp : newBitmap roomyHeap 0 10 10 1 32 =
      some { bitmapFields 10 10 1 32 with pixels := some 0 } := by decide
  refine ⟨_, hbmp, (drawAll_inside_iff hbmp).mpr ?_⟩
  unfold BitmapHolds rowWords
  decide

/-- A rectangle whose right bound wraps is drawn far behind its row. -/
theorem eachPixel_outside (hs : SurfaceFits words dc) (hvisible : (gdiClipRect dc b).2 = true)
    (hbottom : BottomFits dc b) (hright : ¬ RightFits dc b) :
    ∃ i : Int, 2 ^ 31 - 1 ≤ i ∧ ∀ (pixel : Int → DrawM PUnit) {e : PixelAccess},
      (pixel i).Logs e → (eachPixel dc (gdiClipRect dc b).1 pixel).Logs e := by
  obtain ⟨hwidth, hheight⟩ := (visible_iff dc b).mp hvisible
  obtain ⟨hy, hend⟩ := gdiClipRect_y hs hbottom
  have hx := clipLow_x dc b
  have hwrap : 2 ^ 31 ≤ (dc.clipLow b).x.toInt + (dc.clipLow b).width.toInt := Int.not_lt.mp hright
  have hxlt := (dc.clipLow b).x.toInt_lt
  have hkeep : (gdiClipRect dc b).1.width = (dc.clipLow b).width :=
    clip_axis_wraps hx (by omega) hs.left hwrap
  have hleft : (gdiClipRect dc b).1.x = (dc.clipLow b).x := rfl
  rw [← hkeep, ← hleft] at hwrap
  generalize (gdiClipRect dc b).1 = c at hwidth hheight hy hend hwrap ⊢
  have hhlt := dc.height.toInt_lt
  have hwlt := c.width.toInt_lt
  have hone : (1 : Int32).toInt = 1 := by decide
  have hcol : (c.width - 1).toInt = c.width.toInt - 1 := by
    rw [int_sub_of_fits (by omega) (by omega), hone]
  have hrow : c.y ∈ countUp c.y (c.y + c.height) := by
    rw [mem_countUp, int_add_of_fits (by omega) (by omega)]
    omega
  have hlast : c.width - 1 ∈ countUp 0 c.width := by
    rw [mem_countUp, hcol, Int32.toInt_zero]
    omega
  have hstart : 0 ≤ (c.y * (dc.pitch / 4)).toInt := by
    have hright := hs.right
    have hspace := hs.space
    have hleft := hs.left
    have hlo : 0 ≤ c.y.toInt * dc.stride := Int.mul_nonneg hy (by omega)
    have hle : c.y.toInt * dc.stride ≤ dc.height.toInt * dc.stride :=
      Int.mul_le_mul_of_nonneg_right (by omega) (by omega)
    have hmul : (c.y * (dc.pitch / 4)).toInt = c.y.toInt * dc.stride := by
      apply int_mul_of_fits
      · show -2 ^ 31 ≤ c.y.toInt * dc.stride
        omega
      · show c.y.toInt * dc.stride < 2 ^ 31
        omega
    rw [hmul]
    exact hlo
  refine ⟨(c.y * (dc.pitch / 4)).toInt + c.x.toInt + (c.width - 1).toInt, by omega, ?_⟩
  intro pixel e he
  exact logs_forM hrow (logs_forM hlast he)

/-- So `PATCOPY` leaves the buffer. -/
theorem patcopy_outside (hs : SurfaceFits words dc) (hbuf : dc.pixels = some buf) {pat : UInt32}
    (hpat : patternOf dc ropPatcopy = some pat) (hvisible : (gdiClipRect dc b).2 = true)
    (hbottom : BottomFits dc b) (hright : ¬ RightFits dc b) (hwords : words buf < 2 ^ 31)
    (m : PixelMem) : ∃ e ∈ (gdiPatBlt dc b ropPatcopy).events m, ¬ e.Inside words := by
  obtain ⟨i, hi, hlogs⟩ := eachPixel_outside hs hvisible hbottom hright
  refine ⟨.write buf i, ?_, ?_⟩
  · have hfills : fills ropPatcopy = true := by decide
    have hput : (putPixel buf i (patBltPixel ropPatcopy pat 0)).Logs (.write buf i) :=
      fun _ => List.mem_cons_self
    simp only [gdiPatBlt, hbuf, hpat, hvisible, hfills, if_true]
    exact (hlogs _ hput).bind_left _ m
  · intro hinside
    have hlt := hinside.2
    omega

/-- The second pixel of a row of 32 bits is behind the only word of the row; and a width of
`0x7fffffff` from the second column on is not clipped. -/
theorem drawAll_outside :
    (∃ bmp, newBitmap roomyHeap 0 32 1 1 1 = some bmp ∧
      ∃ e ∈ (drawAll 0 (({} : GdiDc).withSurface bmp) [.setPixel 1 0 0]).events (fun _ _ => 0),
        ¬ e.Inside fun _ => bmp.size / 4) ∧
    ∃ bmp, newBitmap roomyHeap 0 10 10 1 32 = some bmp ∧
      ∃ e ∈ (drawAll 0 (({} : GdiDc).withSurface bmp)
          [.patBlt ⟨1, 0, 0x7fffffff, 1⟩ ropPatcopy]).events (fun _ _ => 0),
        ¬ e.Inside fun _ => bmp.size / 4 := by
  constructor
  · have hbmp : newBitmap roomyHeap 0 32 1 1 1 =
        some { bitmapFields 32 1 1 1 with pixels := some 0 } := by decide
    refine ⟨_, hbmp, .read 0 1, ?_, ?_⟩
    · rw [setPixel_events 0 _ 0 rfl rfl rfl (by decide) (by decide)]
      exact List.mem_cons_self
    · intro hinside
      exact absurd hinside.2 (by decide)
  · have hbmp : newBitmap roomyHeap 0 10 10 1 32 =
        some { bitmapFields 10 10 1 32 with pixels := some 0 } := by decide
    have hholds : BitmapHolds 10 10 32 := by
      unfold BitmapHolds rowWords
      decide
    refine ⟨_, hbmp, ?_⟩
    have hsurface : SurfaceFits (fun _ => 100) (({} : GdiDc).withSurface
        { bitmapFields 10 10 1 32 with pixels := some 0 }) := hholds.surface hbmp rfl {}
    obtain ⟨e, he, hout⟩ := patcopy_outside (b := ⟨1, 0, 0x7fffffff, 1⟩) hsurface rfl rfl
      (by decide) (by unfold BottomFits; decide) (by unfold RightFits; decide) (by decide)
      fun _ _ => 0
    exact ⟨e, List.mem_append_left _ (List.mem_append_left _ he), hout⟩

end Results

end Wbox.Gdi
