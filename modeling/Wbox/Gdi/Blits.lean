import Wbox.Gdi.FillRect
import Wbox.Gdi.Pictures

/-!
# What a transfer copies

`gdi_bit_blt` (`src/gdi/gdi_drawing.c:331–415`) with `SRCCOPY` against the pixels that exist on both
surfaces. The source clips the rectangle on the destination, moves the source by as much as the
rectangle has moved, and clips it again. It compares a position on the surface with a logical one
(`346–349`), so that the source moves by the origin of the destination, too.
-/

namespace Wbox.Gdi

open Wbox.Lib Wbox.Lib.Logged

variable {words : Nat → Nat} {t : Transfer} {buf sbuf : Nat} {m : PixelMem} {i j : Int}

/-- Where the origin of the destination is. -/
def Transfer.originX (t : Transfer) : Int := t.dst.vpOrgX.toInt - t.dst.winOrgX.toInt

def Transfer.originY (t : Transfer) : Int := t.dst.vpOrgY.toInt - t.dst.winOrgY.toInt

/-- The word of the destination, so many pixels into the rectangle. -/
def Transfer.target (t : Transfer) (i j : Int) : Int :=
  t.dst.pixelAt (t.box.x.toInt + t.originX + i) (t.box.y.toInt + t.originY + j)

/-- The word of the source, so many pixels into the rectangle, which is moved. -/
def Transfer.origin (t : Transfer) (dx dy i j : Int) : Int :=
  t.src.pixelAt (t.srcX.toInt + dx + i) (t.srcY.toInt + dy + j)

/-- The pixel is in the rectangle, and exists on both surfaces. -/
structure Transfer.Copied (t : Transfer) (dx dy i j : Int) : Prop where
  left : 0 ≤ i
  right : i < t.box.width.toInt
  top : 0 ≤ j
  bottom : j < t.box.height.toInt
  target : t.dst.OnSurface (t.box.x.toInt + t.originX + i) (t.box.y.toInt + t.originY + j)
  origin : t.src.OnSurface (t.srcX.toInt + dx + i) (t.srcY.toInt + dy + j)

/-- Exactly the pixels that exist on both surfaces are copied, whatever was there. -/
structure CopiesExactly (t : Transfer) (buf sbuf : Nat) : Prop where
  copied : ∀ m i j, t.Copied 0 0 i j →
    (t.bitBlt ropSrccopy).after m buf (t.target i j) = m sbuf (t.origin 0 0 i j)
  rest : ∀ m b k, (b = buf → ∀ i j, t.Copied 0 0 i j → k ≠ t.target i j) →
    (t.bitBlt ropSrccopy).after m b k = m b k

/-- The origin of the destination does not matter: there is none, or no pixel is copied, with the
source where it is or moved by the origin. -/
def Transfer.OriginFree (t : Transfer) : Prop :=
  t.originX = 0 ∧ t.originY = 0 ∨
    ∀ i j, ¬ t.Copied 0 0 i j ∧ ¬ t.Copied t.originX t.originY i j

/-- One axis: the position on the destination and the source, with and without the origin, and where
they end. -/
structure AxisFits (pos extent vp win source : Int32) : Prop where
  target : -2 ^ 31 ≤ pos.toInt + (vp.toInt - win.toInt) ∧
    pos.toInt + (vp.toInt - win.toInt) < 2 ^ 31
  targetEnd : -2 ^ 31 ≤ pos.toInt + (vp.toInt - win.toInt) + extent.toInt ∧
    pos.toInt + (vp.toInt - win.toInt) + extent.toInt < 2 ^ 31
  origin : -2 ^ 31 ≤ source.toInt + (vp.toInt - win.toInt) ∧
    source.toInt + (vp.toInt - win.toInt) < 2 ^ 31
  originEnd : source.toInt + (vp.toInt - win.toInt) + extent.toInt < 2 ^ 31

/-- No coordinate overflows. -/
structure Transfer.Small (t : Transfer) : Prop where
  cols : AxisFits t.box.x t.box.width t.dst.vpOrgX t.dst.winOrgX t.srcX
  rows : AxisFits t.box.y t.box.height t.dst.vpOrgY t.dst.winOrgY t.srcY

/-- The same transfer to a destination without an origin. -/
def Transfer.moved (t : Transfer) : Transfer where
  dst := { t.dst with vpOrgX := 0, vpOrgY := 0, winOrgX := 0, winOrgY := 0 }
  src := t.src
  box :=
    { x := t.box.x + t.dst.vpOrgX - t.dst.winOrgX
      y := t.box.y + t.dst.vpOrgY - t.dst.winOrgY
      width := t.box.width
      height := t.box.height }
  srcX := t.srcX + t.dst.vpOrgX - t.dst.winOrgX
  srcY := t.srcY + t.dst.vpOrgY - t.dst.winOrgY

theorem Transfer.moved_clip (t : Transfer) :
    gdiClipRect t.moved.dst t.moved.box = gdiClipRect t.dst t.box := by
  have hx : t.box.x + t.dst.vpOrgX - t.dst.winOrgX + 0 - 0 =
      t.box.x + t.dst.vpOrgX - t.dst.winOrgX := by grind
  have hy : t.box.y + t.dst.vpOrgY - t.dst.winOrgY + 0 - 0 =
      t.box.y + t.dst.vpOrgY - t.dst.winOrgY := by grind
  have hlow : t.moved.dst.clipLow t.moved.box = t.dst.clipLow t.box := by
    unfold GdiDc.clipLow Transfer.moved
    dsimp only
    rw [hx, hy]
  unfold gdiClipRect
  rw [hlow]
  rfl

theorem Transfer.moved_blit (t : Transfer) (c : Box) :
    blitOf t.moved.box c t.moved.srcX t.moved.srcY = blitOf t.box c t.srcX t.srcY := by
  have hmove : ∀ s vp win c b : Int32, s + vp - win + (c - (b + vp - win)) = s + (c - b) := by
    intro s vp win c b
    grind
  unfold blitOf Transfer.moved
  dsimp only
  rw [hmove, hmove]

/-- The origin moves the rectangle, and the source with it. -/
theorem Transfer.moved_afterBy (memcpy : Memcpy) (t : Transfer) (rop : UInt32)
    (hbuf : t.dst.pixels = some buf) (hsbuf : t.src.pixels = some sbuf) (m : PixelMem) :
    (t.bitBltBy memcpy rop).after m = (t.moved.bitBltBy memcpy rop).after m := by
  have hsource : GdiDc.source (some t.src) = some (t.src, sbuf) := by
    unfold GdiDc.source
    rw [Option.bind_some, hsbuf, Option.map_some]
  have hmoved : t.moved.dst.pixels = some buf := hbuf
  unfold Transfer.bitBltBy gdiBitBltBy
  have hsrc : t.moved.src = t.src := rfl
  rw [hmoved, hbuf, hsrc, hsource, t.moved_clip]
  dsimp only
  rw [t.moved_blit]
  split
  · split
    · rfl
    · rw [after_bind, after_bind]
      rfl
  · rfl

theorem Transfer.moved_after (t : Transfer) (rop : UInt32) (hbuf : t.dst.pixels = some buf)
    (hsbuf : t.src.pixels = some sbuf) (m : PixelMem) :
    (t.bitBlt rop).after m = (t.moved.bitBlt rop).after m := by
  rw [← t.bitBltBy_copyPixels, ← t.moved.bitBltBy_copyPixels]
  exact t.moved_afterBy copyPixels rop hbuf hsbuf m

theorem AxisFits.toInt {pos extent vp win source : Int32} (h : AxisFits pos extent vp win source) :
    (pos + vp - win).toInt = pos.toInt + (vp.toInt - win.toInt) ∧
      (source + vp - win).toInt = source.toInt + (vp.toInt - win.toInt) := by
  have hsum : ∀ x : Int32, -2 ^ 31 ≤ x.toInt + (vp.toInt - win.toInt) →
      x.toInt + (vp.toInt - win.toInt) < 2 ^ 31 →
      (x + vp - win).toInt = x.toInt + (vp.toInt - win.toInt) := by
    intro x hlo hhi
    rw [Int32.toInt_sub, Int32.toInt_add, Int.bmod_sub_bmod, Int.add_sub_assoc,
      bmod_of_fits hlo hhi]
  exact ⟨hsum pos h.target.1 h.target.2, hsum source h.origin.1 h.origin.2⟩

/-- The steps that the moved transfer draws. -/
theorem Transfer.moved_drawn (hsmall : t.Small) :
    t.moved.Drawn i j ↔ t.Copied t.originX t.originY i j := by
  obtain ⟨hx, hsx⟩ := hsmall.cols.toInt
  obtain ⟨hy, hsy⟩ := hsmall.rows.toInt
  unfold Transfer.Drawn Axis.Visible Transfer.cols Transfer.rows Transfer.moved
  dsimp only
  rw [hx, hsx, hy, hsy]
  constructor
  · rintro ⟨⟨⟨hi, hiw⟩, ⟨hxl, hxr⟩, hsl, hsr⟩, ⟨hj, hjh⟩, ⟨hyt, hyb⟩, hst, hsb⟩
    exact ⟨hi, hiw, hj, hjh, ⟨hxl, hxr, hyt, hyb⟩, hsl, hsr, hst, hsb⟩
  · rintro ⟨hi, hiw, hj, hjh, ⟨hxl, hxr, hyt, hyb⟩, hsl, hsr, hst, hsb⟩
    exact ⟨⟨⟨hi, hiw⟩, ⟨hxl, hxr⟩, hsl, hsr⟩, ⟨hj, hjh⟩, ⟨hyt, hyb⟩, hst, hsb⟩

theorem Transfer.moved_pixels (hsmall : t.Small) :
    t.moved.pixels i j = (t.target i j, t.origin t.originX t.originY i j) := by
  obtain ⟨hx, hsx⟩ := hsmall.cols.toInt
  obtain ⟨hy, hsy⟩ := hsmall.rows.toInt
  unfold Transfer.pixels Transfer.moved
  dsimp only
  rw [hx, hsx, hy, hsy]
  rfl

theorem AxisFits.sums {pos extent vp win source bound sourceBound : Int32}
    (h : AxisFits pos extent vp win source) (hbound : 0 ≤ bound.toInt)
    (hsource : 0 ≤ sourceBound.toInt) :
    Axis.SumsFit { pos := pos + vp - win, extent, bound, source := source + vp - win, sourceBound } := by
  obtain ⟨hpos, hsrc⟩ := h.toInt
  refine ⟨hbound, hsource, ?_, ?_, ?_⟩
  · dsimp only
    rw [hpos]
    exact h.targetEnd.1
  · dsimp only
    rw [hpos]
    exact h.targetEnd.2
  · dsimp only
    rw [hsrc]
    exact h.originEnd

theorem Transfer.moved_sums (hdst : SurfaceFits words t.dst) (hsrc : SurfaceFits words t.src)
    (hsmall : t.Small) : t.moved.SumsFit words where
  dst := ⟨hdst.left, hdst.top, hdst.right, hdst.bottom, hdst.space⟩
  src := hsrc
  originX := rfl
  originY := rfl
  cols := hsmall.cols.sums hdst.left hsrc.left
  rows := hsmall.rows.sums hdst.top hsrc.top

/-- Two pixels of the destination have two words. -/
theorem Transfer.target_inj (hdst : SurfaceFits words t.dst) {dx dy dx' dy' i' j' : Int}
    (h : t.Copied dx dy i j) (h' : t.Copied dx' dy' i' j') (heq : t.target i j = t.target i' j') :
    i = i' ∧ j = j' := by
  have hright := hdst.right
  obtain ⟨hl, hr, -, -⟩ := h.target
  obtain ⟨hl', hr', -, -⟩ := h'.target
  obtain ⟨hrow, hcol⟩ := index_inj hl (by omega) hl' (by omega) heq
  exact ⟨by omega, by omega⟩

/-- So have two pixels of the source. -/
theorem Transfer.origin_inj (hsrc : SurfaceFits words t.src) {dx dy dx' dy' : Int}
    (h : t.Copied dx dy i j) (h' : t.Copied dx' dy' i j)
    (heq : t.origin dx dy i j = t.origin dx' dy' i j) : dx = dx' ∧ dy = dy' := by
  have hright := hsrc.right
  obtain ⟨hl, hr, -, -⟩ := h.origin
  obtain ⟨hl', hr', -, -⟩ := h'.origin
  obtain ⟨hrow, hcol⟩ := index_inj hl (by omega) hl' (by omega) heq
  exact ⟨by omega, by omega⟩

/-- The transfer draws the pixels of the moved one. -/
theorem Transfer.copy_after (hon : t.On buf sbuf) (hne : buf ≠ sbuf)
    (hdst : SurfaceFits words t.dst) (hsrc : SurfaceFits words t.src) (hsmall : t.Small)
    (m : PixelMem) : DrawnOnce buf sbuf t.moved.pairs ∧ (t.bitBlt ropSrccopy).after m =
      t.moved.pairs.foldl (blend buf sbuf fun _ new => new) m := by
  have hsums := t.moved_sums hdst hsrc hsmall
  have hmoved : t.moved.On buf sbuf := ⟨hon.dst, hon.src⟩
  have hapart : t.moved.Apart buf sbuf ropSrccopy := fun hsame => absurd hsame hne
  refine ⟨t.moved.drawnOnce hsums hapart, ?_⟩
  rw [t.moved_after ropSrccopy hon.dst hon.src, t.moved.bitBlt_after hsums hmoved fun _ => hapart]
  rfl

/-- What is copied comes from the source that has moved by the origin. -/
theorem Transfer.copied_after (hon : t.On buf sbuf) (hne : buf ≠ sbuf)
    (hdst : SurfaceFits words t.dst) (hsrc : SurfaceFits words t.src) (hsmall : t.Small)
    (h : t.Copied t.originX t.originY i j) : (t.bitBlt ropSrccopy).after m buf (t.target i j) =
      m sbuf (t.origin t.originX t.originY i j) := by
  obtain ⟨honce, hafter⟩ := t.copy_after hon hne hdst hsrc hsmall m
  have hmem : (t.target i j, t.origin t.originX t.originY i j) ∈ t.moved.pairs :=
    Transfer.mem_pairs.mpr ⟨i, j, (t.moved_drawn hsmall).mpr h, (t.moved_pixels hsmall).symm⟩
  rw [hafter]
  exact blends_at honce hmem

/-- Nothing else changes. -/
theorem Transfer.rest_after (hon : t.On buf sbuf) (hne : buf ≠ sbuf)
    (hdst : SurfaceFits words t.dst) (hsrc : SurfaceFits words t.src) (hsmall : t.Small)
    {b : Nat} {k : Int}
    (h : b = buf → ∀ i j, t.Copied t.originX t.originY i j → k ≠ t.target i j) :
    (t.bitBlt ropSrccopy).after m b k = m b k := by
  obtain ⟨-, hafter⟩ := t.copy_after hon hne hdst hsrc hsmall m
  rw [hafter]
  by_cases hb : b = buf
  · subst hb
    apply blends_off
    intro q hq
    obtain ⟨c, r, hdrawn, rfl⟩ := Transfer.mem_pairs.mp hq
    rw [t.moved_pixels hsmall]
    exact (h rfl c r ((t.moved_drawn hsmall).mp hdrawn)).symm
  · rw [blends_other hb]

/-- A picture in which one word of a buffer differs from all the others. -/
def oneWord (buf : Nat) (i : Int) : PixelMem := fun b k => if b = buf ∧ k = i then 1 else 0

/-- `SRCCOPY` between two surfaces copies exactly the pixels that exist on both if the origin of the
destination does not matter, and only then. -/
theorem gdiBitBlt_exact_iff (hon : t.On buf sbuf) (hne : buf ≠ sbuf)
    (hdst : SurfaceFits words t.dst) (hsrc : SurfaceFits words t.src) (hsmall : t.Small) :
    CopiesExactly t buf sbuf ↔ t.OriginFree := by
  constructor
  · intro hexact
    by_cases hzero : t.originX = 0 ∧ t.originY = 0
    · exact .inl hzero
    · have hmoved : ∀ i j, ¬ t.Copied t.originX t.originY i j := by
        intro i j h
        -- the source is moved: its word is not the one that belongs here
        let m := oneWord sbuf (t.origin t.originX t.originY i j)
        have hone : (t.bitBlt ropSrccopy).after m buf (t.target i j) = 1 := by
          rw [t.copied_after hon hne hdst hsrc hsmall h]
          exact if_pos ⟨rfl, rfl⟩
        by_cases hin : t.Copied 0 0 i j
        · have hother : t.origin 0 0 i j ≠ t.origin t.originX t.originY i j := by
            intro heq
            obtain ⟨hx, hy⟩ := t.origin_inj hsrc hin h heq
            exact hzero ⟨hx.symm, hy.symm⟩
          rw [hexact.copied m i j hin] at hone
          have hnot : m sbuf (t.origin 0 0 i j) = 0 := if_neg fun hsame => hother hsame.2
          rw [hnot] at hone
          exact absurd hone (by decide)
        · rw [hexact.rest m buf (t.target i j)] at hone
          · have hnot : m buf (t.target i j) = 0 := if_neg fun hsame => hne hsame.1
            rw [hnot] at hone
            exact absurd hone (by decide)
          · intro _ i' j' hin' heq
            obtain ⟨rfl, rfl⟩ := t.target_inj hdst h hin' heq
            exact hin hin'
      refine .inr fun i j => ⟨?_, hmoved i j⟩
      intro hin
      let m := oneWord sbuf (t.origin 0 0 i j)
      have hone : (t.bitBlt ropSrccopy).after m buf (t.target i j) = 1 := by
        rw [hexact.copied m i j hin]
        exact if_pos ⟨rfl, rfl⟩
      rw [t.rest_after hon hne hdst hsrc hsmall fun _ i' j' h => absurd h (hmoved i' j')] at hone
      have hnot : m buf (t.target i j) = 0 := if_neg fun hsame => hne hsame.1
      rw [hnot] at hone
      exact absurd hone (by decide)
  · rintro (⟨hx, hy⟩ | hnone)
    · constructor
      · intro m i j hin
        have hin' : t.Copied t.originX t.originY i j := by
          rw [hx, hy]
          exact hin
        rw [t.copied_after hon hne hdst hsrc hsmall hin', hx, hy]
      · intro m b k hrest
        apply t.rest_after hon hne hdst hsrc hsmall
        rw [hx, hy]
        exact hrest
    · constructor
      · exact fun m i j hin => absurd hin (hnone i j).1
      · intro m b k _
        exact t.rest_after hon hne hdst hsrc hsmall fun _ i j h => absurd h (hnone i j).2

theorem smallTransfer_small : smallTransfer.Small where
  cols := ⟨by decide, by decide, by decide, by decide⟩
  rows := ⟨by decide, by decide, by decide, by decide⟩

theorem gdiBitBlt_exact_small : CopiesExactly smallTransfer 0 1 := by
  have hfits := smallTransfer_fits
  exact (gdiBitBlt_exact_iff ⟨rfl, rfl⟩ (by decide) hfits.dst hfits.src smallTransfer_small).mpr
    (.inl ⟨by decide, by decide⟩)

/-- A pixel that is copied to a surface whose viewport has been moved to the right by one. -/
def movedTransfer : Transfer where
  dst := { width := 2, height := 1, pitch := 8, pixels := some 0, vpOrgX := 1 }
  src := { width := 2, height := 1, pitch := 8, pixels := some 1 }
  box := ⟨0, 0, 1, 1⟩
  srcX := 0
  srcY := 0

/-- The pixel at 0 is to be copied to the one at 1, but the source has moved as well: it is the one
at 1 that is copied. -/
theorem gdiBitBlt_moves_source :
    SurfaceFits (fun _ => 2) movedTransfer.dst ∧ SurfaceFits (fun _ => 2) movedTransfer.src ∧
      movedTransfer.On 0 1 ∧ movedTransfer.Small ∧ movedTransfer.Copied 0 0 0 0 ∧
      (∀ m, (movedTransfer.bitBlt ropSrccopy).after m 0 1 = m 1 1) ∧
      ¬ CopiesExactly movedTransfer 0 1 := by
  have hdst : SurfaceFits (fun _ => 2) movedTransfer.dst :=
    ⟨by decide, by decide, by decide, fun _ _ => by decide, by decide⟩
  have hsrc : SurfaceFits (fun _ => 2) movedTransfer.src :=
    ⟨by decide, by decide, by decide, fun _ _ => by decide, by decide⟩
  have hsmall : movedTransfer.Small :=
    { cols := ⟨by decide, by decide, by decide, by decide⟩
      rows := ⟨by decide, by decide, by decide, by decide⟩ }
  have hin : movedTransfer.Copied 0 0 0 0 :=
    ⟨by decide, by decide, by decide, by decide, ⟨by decide, by decide, by decide, by decide⟩,
      ⟨by decide, by decide, by decide, by decide⟩⟩
  have hmoved : movedTransfer.Copied movedTransfer.originX movedTransfer.originY 0 0 :=
    ⟨by decide, by decide, by decide, by decide, ⟨by decide, by decide, by decide, by decide⟩,
      ⟨by decide, by decide, by decide, by decide⟩⟩
  have hafter : ∀ m, (movedTransfer.bitBlt ropSrccopy).after m 0 1 = m 1 1 := fun m =>
    movedTransfer.copied_after (m := m) ⟨rfl, rfl⟩ (by decide) hdst hsrc hsmall hmoved
  refine ⟨hdst, hsrc, ⟨rfl, rfl⟩, hsmall, hin, hafter, ?_⟩
  intro hexact
  have hcopied : (movedTransfer.bitBlt ropSrccopy).after (oneWord 1 1) 0 1 = oneWord 1 1 1 0 :=
    hexact.copied (oneWord 1 1) 0 0 hin
  rw [hafter] at hcopied
  exact absurd hcopied (by decide)

end Wbox.Gdi
