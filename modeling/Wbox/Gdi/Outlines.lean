import Wbox.Gdi.FillRect

/-!
# Outlines of rectangles

`gdi_frame_rect` and `gdi_rectangle` (`src/gdi/gdi_drawing.c:175–222`) put an outline together from
four strips. They are the outline of a rectangle that is not empty; of an empty one they are strips
beside it.
-/

namespace Wbox.Gdi

open Wbox.Lib Wbox.Lib.Logged

/-- `BS_SOLID`. -/
def bsSolid : Int32 := 0

/-- The upper strip, `gdi_drawing.c:180`. -/
def Rect.topEdge (rect : Rect) : Rect := ⟨rect.left, rect.top, rect.right, rect.top + 1⟩

/-- The lower strip, `gdi_drawing.c:184–185`. -/
def Rect.bottomEdge (rect : Rect) : Rect := ⟨rect.left, rect.bottom - 1, rect.right, rect.bottom⟩

/-- The left strip, `gdi_drawing.c:189–191`. -/
def Rect.leftEdge (rect : Rect) : Rect :=
  ⟨rect.left, rect.top + 1, rect.left + 1, rect.bottom - 1⟩

/-- The right strip, `gdi_drawing.c:195–196`. -/
def Rect.rightEdge (rect : Rect) : Rect :=
  ⟨rect.right - 1, rect.top + 1, rect.right, rect.bottom - 1⟩

/-- The inside, `gdi_drawing.c:208`. -/
def Rect.inside (rect : Rect) : Rect :=
  ⟨rect.left + 1, rect.top + 1, rect.right - 1, rect.bottom - 1⟩

/-- `gdi_frame_rect`, `gdi_drawing.c:175–200`. -/
def gdiFrameRect (dc : GdiDc) (rect : Rect) (brush : Option GdiBrush) : DrawM (Int32 × GdiDc) :=
  match brush with
  | none => pure (0, dc)
  | some brush => do
      let (_, dc) ← gdiFillRect dc rect.topEdge (some brush)
      let (_, dc) ← gdiFillRect dc rect.bottomEdge (some brush)
      let (_, dc) ← gdiFillRect dc rect.leftEdge (some brush)
      let (_, dc) ← gdiFillRect dc rect.rightEdge (some brush)
      pure (1, dc)

/-- The fill of the inside, `gdi_drawing.c:207–210`. -/
def fillInside (dc : GdiDc) (rect : Rect) : DrawM GdiDc :=
  match dc.brush.filter fun brush => brush.style ≠ bsNull with
  | none => pure dc
  | some brush => Prod.snd <$> gdiFillRect dc rect.inside (some brush)

/-- The outline in the colour of the pen, `gdi_drawing.c:213–221`. -/
def frameWithPen (dc : GdiDc) (rect : Rect) : DrawM GdiDc :=
  match dc.pen.filter fun pen => pen.style ≠ psNull with
  | none => pure dc
  | some pen => Prod.snd <$> gdiFrameRect dc rect (some { style := bsSolid, color := pen.color })

/-- `gdi_rectangle`, `gdi_drawing.c:202–222`. -/
def gdiRectangle (dc : GdiDc) (left top right bottom : Int32) : DrawM (Bool × GdiDc) := do
  let rect : Rect := ⟨left, top, right, bottom⟩
  let dc ← fillInside dc rect
  let dc ← frameWithPen dc rect
  pure (true, dc)

/-- The pixel is on the boundary of the rectangle. -/
def GdiDc.OnBoundary (dc : GdiDc) (rect : Rect) (px py : Int) : Prop :=
  dc.InRect rect px py ∧
    (dc.logicalX px = rect.left.toInt ∨ dc.logicalX px = rect.right.toInt - 1 ∨
      dc.logicalY py = rect.top.toInt ∨ dc.logicalY py = rect.bottom.toInt - 1)

/-- The pixel is in the rectangle and not on its boundary. -/
def GdiDc.Interior (dc : GdiDc) (rect : Rect) (px py : Int) : Prop :=
  dc.InRect rect px py ∧ ¬dc.OnBoundary rect px py

/-- The word belongs to a pixel that is described. -/
def GdiDc.WordOf (dc : GdiDc) (p : Int → Int → Prop) (i : Int) : Prop :=
  ∃ px py, p px py ∧ i = py * dc.stride + px

/-- Exactly the boundary of the rectangle gets the colour, whatever was there. -/
def FramesExactly (dc : GdiDc) (buf : Nat) (rect : Rect) (brush : GdiBrush) : Prop :=
  Paints (gdiFrameRect dc rect (some brush)) buf (colorrefToArgb brush.color)
    (dc.WordOf (dc.OnBoundary rect))

/-- Exactly the boundary of the rectangle gets the colour of the pen, and the rest of it the colour
of the brush if there is one that draws. -/
structure OutlinesExactly (dc : GdiDc) (buf : Nat) (rect : Rect) (pen : GdiPen) : Prop where
  boundary : ∀ m i, dc.WordOf (dc.OnBoundary rect) i →
    (gdiRectangle dc rect.left rect.top rect.right rect.bottom).after m buf i =
      colorrefToArgb pen.color
  interior : ∀ m i brush, dc.brush = some brush → brush.style ≠ bsNull →
    dc.WordOf (dc.Interior rect) i →
      (gdiRectangle dc rect.left rect.top rect.right rect.bottom).after m buf i =
        colorrefToArgb brush.color
  hollow : ∀ m i, (∀ brush, dc.brush = some brush → brush.style = bsNull) →
    dc.WordOf (dc.Interior rect) i →
      (gdiRectangle dc rect.left rect.top rect.right rect.bottom).after m buf i = m buf i
  rest : ∀ m b i, (b = buf → ¬dc.WordOf (dc.InRect rect) i) →
    (gdiRectangle dc rect.left rect.top rect.right rect.bottom).after m b i = m b i

/-- The sides of the rectangle and the places next to them are moved to `int`s, and the extents of
the rectangle and of its inside are `int`s. -/
structure SidesFit (dc : GdiDc) (rect : Rect) : Prop where
  x : ∀ x ∈ [rect.left, rect.right], -2 ^ 31 ≤ x.toInt - 1 ∧ x.toInt + 1 < 2 ^ 31 ∧
    -2 ^ 31 ≤ x.toInt - 1 + dc.vpOrgX.toInt - dc.winOrgX.toInt ∧
      x.toInt + 1 + dc.vpOrgX.toInt - dc.winOrgX.toInt < 2 ^ 31
  y : ∀ y ∈ [rect.top, rect.bottom], -2 ^ 31 ≤ y.toInt - 1 ∧ y.toInt + 1 < 2 ^ 31 ∧
    -2 ^ 31 ≤ y.toInt - 1 + dc.vpOrgY.toInt - dc.winOrgY.toInt ∧
      y.toInt + 1 + dc.vpOrgY.toInt - dc.winOrgY.toInt < 2 ^ 31
  width : -2 ^ 31 ≤ rect.right.toInt - rect.left.toInt - 2

/-- A place of a strip beside an empty rectangle: where the lower side is not below the upper one,
the rows of both; where the right side is not right of the left one, the columns of both. -/
def BesideEmpty (rect : Rect) (x y : Int) : Prop :=
  (rect.bottom.toInt ≤ rect.top.toInt ∧ rect.left.toInt ≤ x ∧ x < rect.right.toInt ∧
      (y = rect.top.toInt ∨ y = rect.bottom.toInt - 1)) ∨
    (rect.right.toInt ≤ rect.left.toInt ∧ rect.top.toInt < y ∧ y < rect.bottom.toInt - 1 ∧
      (x = rect.left.toInt ∨ x = rect.right.toInt - 1))

/-- No such place is on the surface. -/
def NoStrips (dc : GdiDc) (rect : Rect) : Prop :=
  ∀ px py, dc.OnSurface px py → ¬BesideEmpty rect (dc.logicalX px) (dc.logicalY py)

variable {dc dc' : GdiDc} {rect : Rect} {brush : GdiBrush} {pen : GdiPen} {buf : Nat} {c : UInt32}
  {α β : Type} {p q : Int → Prop} {words : Nat → Nat}

section Fills

/-- What is painted does not depend on what becomes of the result. -/
theorem Paints.map {x : DrawM α} (h : Paints x buf c p) (f : α → β) : Paints (f <$> x) buf c p := h

theorem Redrawn.trans {dc'' : GdiDc} (h : Redrawn dc dc') (h' : Redrawn dc' dc'') :
    Redrawn dc dc'' := by
  obtain ⟨_, _, _, rfl⟩ := h
  obtain ⟨x, y, dirty, rfl⟩ := h'
  exact ⟨x, y, dirty, rfl⟩

theorem fillRect_redrawn (dc : GdiDc) (rect : Rect) (brush : Option GdiBrush) (m : PixelMem) :
    Redrawn dc ((gdiFillRect dc rect brush).value m).2 := by
  unfold gdiFillRect
  split
  · split
    · exact .refl dc
    · dsimp only
      split
      · exact .dirty dc true
      · exact .refl dc
  · exact .refl dc

/-- A fill paints the pixels of its rectangle. -/
theorem fillRect_target (hsurface : SurfaceFits words dc) (hbuf : dc.pixels = some buf)
    (hstyle : brush.style ≠ bsNull) (hfit : EdgesFit dc rect) (hdc : Redrawn dc dc') :
    Paints (gdiFillRect dc' rect (some brush)) buf (colorrefToArgb brush.color)
      (dc.WordOf (dc.InRect rect)) := by
  obtain ⟨x, y, dirty, rfl⟩ := hdc
  have hpaints : Paints (gdiFillRect { dc with curX := x, curY := y, dirty } rect (some brush)) buf
      (colorrefToArgb brush.color) (Drawn { dc with curX := x, curY := y, dirty } rect) :=
    gdiFillRect_paints hbuf hsurface.left hsurface.top hstyle
  exact hpaints.congr ((drawn_eq_target_iff hsurface.left hsurface.right).mpr hfit)

end Fills

section Strips

theorem SidesFit.steps (h : SidesFit dc rect) :
    (rect.left + 1).toInt = rect.left.toInt + 1 ∧ (rect.top + 1).toInt = rect.top.toInt + 1 ∧
      (rect.right - 1).toInt = rect.right.toInt - 1 ∧
      (rect.bottom - 1).toInt = rect.bottom.toInt - 1 := by
  have hone : (1 : Int32).toInt = 1 := rfl
  have hl := h.x rect.left (by simp)
  have hr := h.x rect.right (by simp)
  have ht := h.y rect.top (by simp)
  have hb := h.y rect.bottom (by simp)
  refine ⟨?_, ?_, ?_, ?_⟩
  · rw [int_add_of_fits (by omega) (by omega), hone]
  · rw [int_add_of_fits (by omega) (by omega), hone]
  · rw [int_sub_of_fits (by omega) (by omega), hone]
  · rw [int_sub_of_fits (by omega) (by omega), hone]

/-- A side is one of two sides, or next to it. -/
def Near (low high side : Int32) : Prop :=
  (low.toInt - 1 ≤ side.toInt ∧ side.toInt ≤ low.toInt + 1) ∨
    (high.toInt - 1 ≤ side.toInt ∧ side.toInt ≤ high.toInt + 1)

/-- A rectangle whose sides are near those of another one. -/
theorem edgesFit_of_near {near : Rect} (hsurface : SurfaceFits words dc) (h : SidesFit dc rect)
    (hx : Near rect.left rect.right near.left ∧ Near rect.left rect.right near.right)
    (hy : Near rect.top rect.bottom near.top ∧ Near rect.top rect.bottom near.bottom)
    (hwidth : -2 ^ 31 ≤ near.right.toInt - near.left.toInt) : EdgesFit dc near := by
  have hl := h.x rect.left (by simp)
  have hr := h.x rect.right (by simp)
  have ht := h.y rect.top (by simp)
  have hb := h.y rect.bottom (by simp)
  unfold Near at hx hy
  refine edgesFit_of_fits hsurface.left hsurface.right ?_ ?_ hwidth hsurface.space
  · intro x hmem
    simp only [List.mem_cons, List.not_mem_nil, or_false] at hmem
    rcases hmem with rfl | rfl <;> omega
  · intro y hmem
    simp only [List.mem_cons, List.not_mem_nil, or_false] at hmem
    rcases hmem with rfl | rfl <;> omega

/-- The strips and the inside are moved without overflow, too. -/
theorem SidesFit.edges (hsurface : SurfaceFits words dc) (h : SidesFit dc rect) {near : Rect}
    (hnear : near ∈ [rect.topEdge, rect.bottomEdge, rect.leftEdge, rect.rightEdge, rect.inside]) :
    EdgesFit dc near := by
  obtain ⟨hl, ht, hr, hb⟩ := h.steps
  have hwidth := h.width
  simp only [List.mem_cons, List.not_mem_nil, or_false] at hnear
  refine edgesFit_of_near hsurface h ?_ ?_ ?_
  · rcases hnear with rfl | rfl | rfl | rfl | rfl <;>
      simp only [Near, Rect.topEdge, Rect.bottomEdge, Rect.leftEdge, Rect.rightEdge, Rect.inside,
        hl, hr] <;> omega
  · rcases hnear with rfl | rfl | rfl | rfl | rfl <;>
      simp only [Near, Rect.topEdge, Rect.bottomEdge, Rect.leftEdge, Rect.rightEdge, Rect.inside,
        ht, hb] <;> omega
  · rcases hnear with rfl | rfl | rfl | rfl | rfl <;>
      simp only [Rect.topEdge, Rect.bottomEdge, Rect.leftEdge, Rect.rightEdge, Rect.inside,
        hl, hr] <;> omega

/-- The strips are the boundary, and what is beside an empty rectangle. -/
theorem strips_iff (h : SidesFit dc rect) (px py : Int) :
    (dc.InRect rect.topEdge px py ∨ dc.InRect rect.bottomEdge px py ∨
      dc.InRect rect.leftEdge px py ∨ dc.InRect rect.rightEdge px py) ↔
      dc.OnBoundary rect px py ∨
        dc.OnSurface px py ∧ BesideEmpty rect (dc.logicalX px) (dc.logicalY py) := by
  obtain ⟨hl, ht, hr, hb⟩ := h.steps
  unfold GdiDc.OnBoundary GdiDc.InRect BesideEmpty
  simp only [Rect.topEdge, Rect.bottomEdge, Rect.leftEdge, Rect.rightEdge, hl, ht, hr, hb]
  by_cases hsurface : dc.OnSurface px py
  · simp only [hsurface, true_and]
    omega
  · simp [hsurface]

/-- The inside is what is not on the boundary. -/
theorem inside_iff (h : SidesFit dc rect) (px py : Int) :
    dc.InRect rect.inside px py ↔ dc.Interior rect px py := by
  obtain ⟨hl, ht, hr, hb⟩ := h.steps
  unfold GdiDc.Interior GdiDc.OnBoundary GdiDc.InRect
  simp only [Rect.inside, hl, ht, hr, hb]
  by_cases hsurface : dc.OnSurface px py
  · simp only [hsurface, true_and]
    omega
  · simp [hsurface]

end Strips

section Frames

/-- A fill, and what comes after it with the context it returns. -/
theorem fillRect_then {near : Rect} {f : Int32 × GdiDc → DrawM β} (hsurface : SurfaceFits words dc)
    (hbuf : dc.pixels = some buf) (hstyle : brush.style ≠ bsNull) (hfit : EdgesFit dc near)
    (hdc : Redrawn dc dc')
    (hf : ∀ ret dc'', Redrawn dc dc'' →
      Paints (f (ret, dc'')) buf (colorrefToArgb brush.color) q) :
    Paints (gdiFillRect dc' near (some brush) >>= f) buf (colorrefToArgb brush.color)
      fun i => dc.WordOf (dc.InRect near) i ∨ q i := by
  refine (fillRect_target hsurface hbuf hstyle hfit hdc).bindValue ?_
  intro m
  exact hf _ _ (hdc.trans (fillRect_redrawn dc' near (some brush) m))

/-- A frame paints its strips. -/
theorem frameRect_strips (hsurface : SurfaceFits words dc) (hbuf : dc.pixels = some buf)
    (hstyle : brush.style ≠ bsNull) (hsides : SidesFit dc rect) (hdc : Redrawn dc dc') :
    Paints (gdiFrameRect dc' rect (some brush)) buf (colorrefToArgb brush.color)
      (dc.WordOf fun px py => dc.OnBoundary rect px py ∨
        dc.OnSurface px py ∧ BesideEmpty rect (dc.logicalX px) (dc.logicalY py)) := by
  have hedges : ∀ near ∈ [rect.topEdge, rect.bottomEdge, rect.leftEdge, rect.rightEdge,
      rect.inside], EdgesFit dc near := fun near => hsides.edges hsurface
  have hfills : Paints (gdiFrameRect dc' rect (some brush)) buf (colorrefToArgb brush.color)
      fun i => dc.WordOf (dc.InRect rect.topEdge) i ∨ dc.WordOf (dc.InRect rect.bottomEdge) i ∨
        dc.WordOf (dc.InRect rect.leftEdge) i ∨ dc.WordOf (dc.InRect rect.rightEdge) i ∨ False := by
    unfold gdiFrameRect
    refine fillRect_then hsurface hbuf hstyle (hedges rect.topEdge (by simp)) hdc ?_
    intro _ _ h₁
    refine fillRect_then hsurface hbuf hstyle (hedges rect.bottomEdge (by simp)) h₁ ?_
    intro _ _ h₂
    refine fillRect_then hsurface hbuf hstyle (hedges rect.leftEdge (by simp)) h₂ ?_
    intro _ _ h₃
    refine fillRect_then hsurface hbuf hstyle (hedges rect.rightEdge (by simp)) h₃ ?_
    intro _ _ _
    exact paints_pure _
  refine hfills.congr ?_
  intro i
  have hstrips := strips_iff hsides
  constructor
  · rintro (⟨px, py, hin, rfl⟩ | ⟨px, py, hin, rfl⟩ | ⟨px, py, hin, rfl⟩ | ⟨px, py, hin, rfl⟩ | h)
    · exact ⟨px, py, (hstrips px py).mp (.inl hin), rfl⟩
    · exact ⟨px, py, (hstrips px py).mp (.inr (.inl hin)), rfl⟩
    · exact ⟨px, py, (hstrips px py).mp (.inr (.inr (.inl hin))), rfl⟩
    · exact ⟨px, py, (hstrips px py).mp (.inr (.inr (.inr hin))), rfl⟩
    · exact h.elim
  · rintro ⟨px, py, hframed, rfl⟩
    rcases (hstrips px py).mpr hframed with hin | hin | hin | hin
    · exact .inl ⟨px, py, hin, rfl⟩
    · exact .inr (.inl ⟨px, py, hin, rfl⟩)
    · exact .inr (.inr (.inl ⟨px, py, hin, rfl⟩))
    · exact .inr (.inr (.inr (.inl ⟨px, py, hin, rfl⟩)))

/-- A word of the surface belongs to one pixel. -/
theorem wordOf_iff {p : Int → Int → Prop} (hsurface : SurfaceFits words dc)
    (hp : ∀ px py, p px py → dc.OnSurface px py) {px py : Int} (hon : dc.OnSurface px py) :
    dc.WordOf p (py * dc.stride + px) ↔ p px py := by
  have hright := hsurface.right
  constructor
  · rintro ⟨px', py', hp', hi⟩
    obtain ⟨hlo, hhi, -⟩ := hon
    obtain ⟨hlo', hhi', -⟩ := hp px' py' hp'
    obtain ⟨rfl, rfl⟩ := index_inj hlo (by omega) hlo' (by omega) hi
    exact hp'
  · intro h
    exact ⟨px, py, h, rfl⟩

/-- An empty rectangle has no pixels. -/
theorem BesideEmpty.not_inRect {x y : Int} (h : BesideEmpty rect x y) (px py : Int) :
    ¬dc.InRect rect px py := by
  rintro ⟨-, hl, hr, ht, hb⟩
  rcases h with ⟨hempty, -⟩ | ⟨hempty, -⟩ <;> omega

/-- The frame is the boundary if no strip beside an empty rectangle is on the surface. -/
theorem NoStrips.boundary (h : NoStrips dc rect) (px py : Int) :
    (dc.OnBoundary rect px py ∨
      dc.OnSurface px py ∧ BesideEmpty rect (dc.logicalX px) (dc.logicalY py)) ↔
      dc.OnBoundary rect px py :=
  ⟨fun hor => hor.elim id fun ⟨hon, hbeside⟩ => absurd hbeside (h px py hon), Or.inl⟩

/-- A frame is exact if and only if no strip beside an empty rectangle is on the surface. -/
theorem frameRect_iff (hsurface : SurfaceFits words dc) (hbuf : dc.pixels = some buf)
    (hstyle : brush.style ≠ bsNull) (hsides : SidesFit dc rect) :
    FramesExactly dc buf rect brush ↔ NoStrips dc rect := by
  have hpaints := frameRect_strips hsurface hbuf hstyle hsides (.refl dc)
  constructor
  · intro hexact px py hon hbeside
    have hboth : dc.WordOf (dc.OnBoundary rect) (py * dc.stride + px) ↔
        dc.WordOf _ (py * dc.stride + px) :=
      hexact.unique (fun m i h => (hpaints m buf i).1 ⟨rfl, h⟩)
        (fun m i h => (hpaints m buf i).2 fun hno => h hno.2) _
    obtain ⟨px', py', hin, -⟩ := hboth.mpr ⟨px, py, .inr ⟨hon, hbeside⟩, rfl⟩
    exact hbeside.not_inRect px' py' hin.1
  · intro hnone
    refine hpaints.congr ?_
    intro i
    constructor
    · rintro ⟨px, py, h, rfl⟩
      exact ⟨px, py, (hnone.boundary px py).mp h, rfl⟩
    · rintro ⟨px, py, h, rfl⟩
      exact ⟨px, py, .inl h, rfl⟩

end Frames

section Rectangles

/-- A brush that draws. -/
theorem filter_brush (h : dc.brush = some brush) (hstyle : brush.style ≠ bsNull) :
    dc.brush.filter (fun brush => brush.style ≠ bsNull) = some brush := by
  rw [h, Option.filter_some, if_pos (decide_eq_true hstyle)]

/-- With such a brush the inside is painted. -/
theorem fillInside_paints (hsurface : SurfaceFits words dc) (hbuf : dc.pixels = some buf)
    (hsides : SidesFit dc rect) (hbrush : dc.brush = some brush) (hstyle : brush.style ≠ bsNull) :
    Paints (fillInside dc rect) buf (colorrefToArgb brush.color)
      (dc.WordOf (dc.Interior rect)) := by
  unfold fillInside
  rw [filter_brush hbrush hstyle]
  have hfill : Paints (gdiFillRect dc rect.inside (some brush)) buf (colorrefToArgb brush.color)
      (dc.WordOf (dc.InRect rect.inside)) :=
    fillRect_target hsurface hbuf hstyle (hsides.edges hsurface (by simp)) (.refl dc)
  refine (hfill.map Prod.snd).congr ?_
  intro i
  constructor
  · rintro ⟨px, py, h, rfl⟩
    exact ⟨px, py, (inside_iff hsides px py).mp h, rfl⟩
  · rintro ⟨px, py, h, rfl⟩
    exact ⟨px, py, (inside_iff hsides px py).mpr h, rfl⟩

/-- Without one nothing is. -/
theorem fillInside_hollow (h : ∀ brush, dc.brush = some brush → brush.style = bsNull) :
    fillInside dc rect = pure dc := by
  unfold fillInside
  cases hbrush : dc.brush with
  | none => rfl
  | some brush =>
    rw [Option.filter_some, if_neg]
    simp [h brush hbrush]

/-- The inside is filled before the outline is drawn; it leaves the context. -/
theorem fillInside_redrawn (dc : GdiDc) (rect : Rect) (m : PixelMem) :
    Redrawn dc ((fillInside dc rect).value m) := by
  unfold fillInside
  split
  · exact .refl dc
  · exact fillRect_redrawn dc rect.inside _ m

/-- The outline is drawn with the pen. -/
theorem frameWithPen_strips (hsurface : SurfaceFits words dc) (hbuf : dc.pixels = some buf)
    (hsides : SidesFit dc rect) (hpen : dc.pen = some pen) (hstyle : pen.style ≠ psNull)
    (hdc : Redrawn dc dc') :
    Paints (frameWithPen dc' rect) buf (colorrefToArgb pen.color)
      (dc.WordOf fun px py => dc.OnBoundary rect px py ∨
        dc.OnSurface px py ∧ BesideEmpty rect (dc.logicalX px) (dc.logicalY py)) := by
  have hpen' : dc'.pen = some pen := by
    obtain ⟨_, _, _, rfl⟩ := hdc
    exact hpen
  unfold frameWithPen
  rw [hpen', Option.filter_some, if_pos (decide_eq_true hstyle)]
  have hsolid : bsSolid ≠ bsNull := by decide
  have hstrips : Paints (gdiFrameRect dc' rect (some { style := bsSolid, color := pen.color })) buf
      (colorrefToArgb pen.color) _ := frameRect_strips hsurface hbuf hsolid hsides hdc
  exact hstrips.map Prod.snd

/-- The interior is not on the boundary, and not beside an empty rectangle. -/
theorem interior_not_framed (hsurface : SurfaceFits words dc) {i : Int}
    (hi : dc.WordOf (dc.Interior rect) i) :
    ¬dc.WordOf (fun px py => dc.OnBoundary rect px py ∨
      dc.OnSurface px py ∧ BesideEmpty rect (dc.logicalX px) (dc.logicalY py)) i := by
  obtain ⟨px, py, hin, rfl⟩ := hi
  rw [wordOf_iff hsurface ?_ hin.1.1]
  · rintro (hb | ⟨-, hbeside⟩)
    · exact hin.2 hb
    · exact hbeside.not_inRect px py hin.1
  · rintro px py (hb | ⟨hon, -⟩)
    · exact hb.1.1
    · exact hon

/-- Outside the rectangle neither is painted, unless a strip beside an empty one is. -/
theorem outside_not_framed (hnone : NoStrips dc rect) {i : Int}
    (hi : ¬dc.WordOf (dc.InRect rect) i) :
    ¬dc.WordOf (fun px py => dc.OnBoundary rect px py ∨
      dc.OnSurface px py ∧ BesideEmpty rect (dc.logicalX px) (dc.logicalY py)) i := by
  rintro ⟨px, py, h, rfl⟩
  exact hi ⟨px, py, ((hnone.boundary px py).mp h).1, rfl⟩

/-- `gdi_rectangle` is exact if and only if no strip beside an empty rectangle is on the
surface. -/
theorem rectangle_iff (hsurface : SurfaceFits words dc) (hbuf : dc.pixels = some buf)
    (hsides : SidesFit dc rect) (hpen : dc.pen = some pen) (hstyle : pen.style ≠ psNull) :
    OutlinesExactly dc buf rect pen ↔ NoStrips dc rect := by
  have hframe : ∀ m, Paints (frameWithPen ((fillInside dc rect).value m) rect) buf
      (colorrefToArgb pen.color) _ := fun m =>
    frameWithPen_strips hsurface hbuf hsides hpen hstyle (fillInside_redrawn dc rect m)
  have hafter : ∀ m, (gdiRectangle dc rect.left rect.top rect.right rect.bottom).after m =
      (frameWithPen ((fillInside dc rect).value m) rect).after ((fillInside dc rect).after m) :=
    fun _ => rfl
  constructor
  · intro hexact px py hon hbeside
    -- A picture without the colour of the pen shows the strip.
    have hother : colorrefToArgb pen.color + 1 ≠ colorrefToArgb pen.color := by simp
    have hpainted := (hframe (fun _ _ => colorrefToArgb pen.color + 1)
      ((fillInside dc rect).after fun _ _ => colorrefToArgb pen.color + 1) buf
      (py * dc.stride + px)).1 ⟨rfl, px, py, .inr ⟨hon, hbeside⟩, rfl⟩
    rw [← hafter] at hpainted
    rw [hexact.rest] at hpainted
    · exact hother hpainted
    · rintro - ⟨px', py', hin, -⟩
      exact hbeside.not_inRect px' py' hin
  · intro hnone
    constructor
    · rintro m i ⟨px, py, h, rfl⟩
      rw [hafter]
      exact (hframe m _ buf _).1 ⟨rfl, px, py, .inl h, rfl⟩
    · intro m i brush hbrush hnull hi
      rw [hafter, (hframe m _ buf i).2 fun hno => interior_not_framed hsurface hi hno.2]
      exact (fillInside_paints hsurface hbuf hsides hbrush hnull m buf i).1 ⟨rfl, hi⟩
    · intro m i hnull hi
      rw [hafter, (hframe m _ buf i).2 fun hno => interior_not_framed hsurface hi hno.2,
        fillInside_hollow hnull, after_pure]
    · intro m b i hi
      rw [hafter, (hframe m _ b i).2 fun hno => outside_not_framed hnone (hi hno.1) hno.2]
      by_cases hnull : ∀ brush, dc.brush = some brush → brush.style = bsNull
      · rw [fillInside_hollow hnull, after_pure]
      · simp only [not_forall] at hnull
        obtain ⟨brush, hbrush, hnull⟩ := hnull
        refine (fillInside_paints hsurface hbuf hsides hbrush hnull m b i).2 ?_
        rintro ⟨hb, px, py, hin, rfl⟩
        exact hi hb ⟨px, py, hin.1, rfl⟩

/-- `gdi_rectangle` and `gdi_frame_rect` draw the outline of a rectangle, and the first fills it,
exactly if no strip beside an empty rectangle is on the surface. -/
theorem outlines_iff (hsurface : SurfaceFits words dc) (hbuf : dc.pixels = some buf)
    (hsides : SidesFit dc rect) (hpen : dc.pen = some pen) (hstyle : pen.style ≠ psNull)
    (hbrush : brush.style ≠ bsNull) :
    OutlinesExactly dc buf rect pen ∧ FramesExactly dc buf rect brush ↔ NoStrips dc rect := by
  rw [rectangle_iff hsurface hbuf hsides hpen hstyle, frameRect_iff hsurface hbuf hbrush hsides,
    and_self]

/-- A rectangle that is not empty has no strips beside it. -/
theorem noStrips_of_proper (hx : rect.left.toInt < rect.right.toInt)
    (hy : rect.top.toInt < rect.bottom.toInt) : NoStrips dc rect := by
  rintro px py - (⟨hempty, -⟩ | ⟨hempty, -⟩) <;> omega

/-- The small surface with a pen. -/
def pennedSurface : GdiDc := { smallSurface with pen := some { style := 0, color := 0xFF } }

theorem surfaceFits_penned : SurfaceFits (fun _ => 4) pennedSurface := by
  refine ⟨by decide, by decide, by decide, ?_, by decide⟩
  intro buf _
  show (2 : Int) * 2 ≤ 4
  decide

theorem outlines_iff_small :
    OutlinesExactly pennedSurface 0 ⟨0, 0, 2, 2⟩ { style := 0, color := 0xFF } ∧
      FramesExactly pennedSurface 0 ⟨0, 0, 2, 2⟩ solidBrush :=
  (outlines_iff surfaceFits_penned rfl
    ⟨by simp [pennedSurface, smallSurface], by simp [pennedSurface, smallSurface], by decide⟩ rfl
    (by decide) (by decide)).mpr (noStrips_of_proper (by decide) (by decide))

/-- An empty rectangle of height 0 in the middle of the surface gets the rows beside it. -/
theorem rectangle_flat :
    SidesFit pennedSurface ⟨0, 1, 2, 1⟩ ∧
      ¬OutlinesExactly pennedSurface 0 ⟨0, 1, 2, 1⟩ { style := 0, color := 0xFF } := by
  refine ⟨⟨by simp [pennedSurface, smallSurface], by simp [pennedSurface, smallSurface],
    by decide⟩, ?_⟩
  intro hexact
  have hempty : ∀ px py, ¬pennedSurface.InRect ⟨0, 1, 2, 1⟩ px py := by
    rintro px py ⟨-, -, -, hlo, hhi⟩
    have hlt : (1 : Int32).toInt < (1 : Int32).toInt := Int.lt_of_le_of_lt hlo hhi
    exact Int.lt_irrefl _ hlt
  have hrest := hexact.rest (fun _ _ => 0) 0 2 fun _ ⟨px, py, hin, _⟩ => hempty px py hin
  exact absurd hrest (by decide +kernel)

end Rectangles

end Wbox.Gdi
