import Wbox.Gdi.Bounds

/-!
# What a fill paints

`gdi_fill_rect` (`src/gdi/gdi_drawing.c:142–171`) against the pixels of the surface whose logical
position is in the rectangle. The source moves the rectangle by the origins and clips it
(`gdi_clip_rect`, `42–68`) in 32 bits.
-/

namespace Wbox.Gdi

open Wbox.Lib Wbox.Lib.Logged

/-- A pixel of the surface. -/
def GdiDc.OnSurface (dc : GdiDc) (px py : Int) : Prop :=
  0 ≤ px ∧ px < dc.width.toInt ∧ 0 ≤ py ∧ py < dc.height.toInt

/-- The logical position of a pixel. -/
def GdiDc.logicalX (dc : GdiDc) (px : Int) : Int := px - dc.vpOrgX.toInt + dc.winOrgX.toInt

def GdiDc.logicalY (dc : GdiDc) (py : Int) : Int := py - dc.vpOrgY.toInt + dc.winOrgY.toInt

/-- The pixel is on the surface, and its logical position is in the rectangle. -/
def GdiDc.InRect (dc : GdiDc) (rect : Rect) (px py : Int) : Prop :=
  dc.OnSurface px py ∧
    rect.left.toInt ≤ dc.logicalX px ∧ dc.logicalX px < rect.right.toInt ∧
    rect.top.toInt ≤ dc.logicalY py ∧ dc.logicalY py < rect.bottom.toInt

/-- Exactly the words of these pixels get the colour, whatever was there. -/
structure FillsExactly (dc : GdiDc) (buf : Nat) (rect : Rect) (brush : GdiBrush) : Prop where
  filled : ∀ m px py, dc.InRect rect px py →
    (gdiFillRect dc rect (some brush)).after m buf (py * dc.stride + px) =
      colorrefToArgb brush.color
  rest : ∀ m b i, (b = buf → ∀ px py, dc.InRect rect px py → i ≠ py * dc.stride + px) →
    (gdiFillRect dc rect (some brush)).after m b i = m b i

/-- An edge of the rectangle on the surface, in 32 bits. -/
def GdiDc.edgeX (dc : GdiDc) (x : Int32) : Int32 := x + dc.vpOrgX - dc.winOrgX

def GdiDc.edgeY (dc : GdiDc) (y : Int32) : Int32 := y + dc.vpOrgY - dc.winOrgY

/-- The pixel lies between the 32-bit edges of the rectangle. -/
def GdiDc.InEdges (dc : GdiDc) (rect : Rect) (px py : Int) : Prop :=
  dc.OnSurface px py ∧
    (dc.edgeX rect.left).toInt ≤ px ∧ px < (dc.edgeX rect.right).toInt ∧
    (dc.edgeY rect.top).toInt ≤ py ∧ py < (dc.edgeY rect.bottom).toInt

/-- A row of the surface lies between the upper and the lower edge. -/
def GdiDc.RowInEdges (dc : GdiDc) (rect : Rect) (py : Int) : Prop :=
  0 ≤ py ∧ py < dc.height.toInt ∧
    (dc.edgeY rect.top).toInt ≤ py ∧ py < (dc.edgeY rect.bottom).toInt

/-- The 32-bit edges have the pixels of the surface between them that the rectangle has; where they
have a row, the right one is not so far left of the left one that their distance wraps; and the
rows of these pixels begin below word 2^31. -/
structure EdgesFit (dc : GdiDc) (rect : Rect) : Prop where
  same : ∀ px py, dc.InRect rect px py ↔ dc.InEdges rect px py
  width : (∃ py, dc.RowInEdges rect py) →
    -2 ^ 31 ≤ (dc.edgeX rect.right).toInt - max 0 (dc.edgeX rect.left).toInt
  rows : ∀ px py, dc.InRect rect px py → py * dc.stride < 2 ^ 31

variable {dc : GdiDc} {rect : Rect} {brush : GdiBrush} {buf : Nat} {c : UInt32} {α β ι : Type}
  {p q : Int → Prop}

section Paints

/-- A computation gives certain words of a buffer a colour, and leaves all others. -/
def Paints (x : DrawM α) (buf : Nat) (c : UInt32) (p : Int → Prop) : Prop :=
  ∀ m b i, (b = buf ∧ p i → x.after m b i = c) ∧ (¬ (b = buf ∧ p i) → x.after m b i = m b i)

theorem Paints.congr {x : DrawM α} (h : Paints x buf c p) (hpq : ∀ i, p i ↔ q i) :
    Paints x buf c q := by
  intro m b i
  rw [← hpq i]
  exact h m b i

theorem paints_pure (a : α) : Paints (pure a : DrawM α) buf c fun _ => False :=
  fun _ _ _ => ⟨fun h => h.2.elim, fun _ => rfl⟩

theorem paints_put (i : Int) : Paints (putPixel buf i c) buf c (· = i) := by
  intro m b j
  have hafter : (putPixel buf i c).after m b j =
      Function.update m buf (Function.update (m buf) i c) b j := rfl
  rw [hafter]
  constructor
  · rintro ⟨rfl, rfl⟩
    simp
  · intro h
    by_cases hb : b = buf
    · subst hb
      have hj : j ≠ i := fun hj => h ⟨rfl, hj⟩
      simp [hj]
    · simp [hb]

/-- One after the other paints what either does, where the second works with the result of the
first. -/
theorem Paints.bindValue {x : DrawM α} {f : α → DrawM β} (hx : Paints x buf c p)
    (hf : ∀ m, Paints (f (x.value m)) buf c q) : Paints (x >>= f) buf c fun i => p i ∨ q i := by
  intro m b i
  rw [after_bind]
  obtain ⟨hfirst, hfirst'⟩ := hx m b i
  obtain ⟨hsecond, hsecond'⟩ := hf m (x.after m) b i
  by_cases hq : b = buf ∧ q i
  · exact ⟨fun _ => hsecond hq, fun hno => absurd ⟨hq.1, Or.inr hq.2⟩ hno⟩
  · rw [hsecond' hq]
    constructor
    · rintro ⟨hb, hp | hq'⟩
      · exact hfirst ⟨hb, hp⟩
      · exact absurd ⟨hb, hq'⟩ hq
    · intro hno
      exact hfirst' fun hp => hno ⟨hp.1, Or.inl hp.2⟩

/-- One after the other paints what either does. -/
theorem Paints.bind {x : DrawM α} {f : α → DrawM β} (hx : Paints x buf c p)
    (hf : ∀ a, Paints (f a) buf c q) : Paints (x >>= f) buf c fun i => p i ∨ q i :=
  hx.bindValue fun m => hf (x.value m)

/-- A loop paints what one of its rounds does. -/
theorem paints_forM {body : ι → DrawM PUnit} {p : ι → Int → Prop} {is : List ι}
    (h : ∀ j, Paints (body j) buf c (p j)) :
    Paints (is.forM body) buf c fun i => ∃ j ∈ is, p j i := by
  induction is with
  | nil => exact (paints_pure PUnit.unit).congr (by simp)
  | cons j is ih =>
    have hbind : Paints (body j >>= fun _ => is.forM body) buf c
        fun i => p j i ∨ ∃ k ∈ is, p k i := (h j).bind fun _ => ih
    exact hbind.congr (by simp)

/-- Two descriptions of what is painted agree. -/
theorem Paints.unique {x : DrawM α} (h : Paints x buf c p)
    (hfilled : ∀ m i, q i → x.after m buf i = c)
    (hrest : ∀ m i, ¬ q i → x.after m buf i = m buf i) (i : Int) : p i ↔ q i := by
  -- a picture without the colour tells whether a word has been painted
  have hother : c + 1 ≠ c := by simp
  obtain ⟨hpaints, hleaves⟩ := h (fun _ _ => c + 1) buf i
  constructor
  · intro hp
    by_contra hq
    exact hother ((hrest _ i hq).symm.trans (hpaints ⟨rfl, hp⟩))
  · intro hq
    by_contra hp
    exact hother ((hleaves fun hno => hp hno.2).symm.trans (hfilled _ i hq))

end Paints

section Clip

/-- One direction of a clipped rectangle, from its two edges. -/
theorem clip_edges {low n high size : Int32} (hsum : low + n = high) (hsize : 0 ≤ size.toInt)
    {x n₁ n₂ : Int32} (hx : x = if low < 0 then 0 else low)
    (hn₁ : n₁ = if low < 0 then n + low else n)
    (hn₂ : n₂ = if x + n₁ > size then size - x else n₁) :
    x.toInt = max 0 low.toInt ∧ (x + n₂).toInt = min size.toInt high.toInt ∧
      n₂.toInt = (min size.toInt high.toInt - max 0 low.toInt).bmod (2 ^ 32) := by
  have hx' : x.toInt = max 0 low.toInt := by
    rw [hx]
    split
    · next h =>
      rw [Int32.lt_iff_toInt_lt, Int32.toInt_zero] at h
      rw [Int32.toInt_zero]
      omega
    · next h =>
      rw [Int32.lt_iff_toInt_lt, Int32.toInt_zero] at h
      omega
  have hend : x + n₁ = high := by
    rw [hx, hn₁, ← hsum]
    split
    · rw [Int32.zero_add, Int32.add_comm]
    · rfl
  have hcut : x + n₂ = if high > size then size else high := by
    rw [hn₂, hend]
    split
    · rw [Int32.add_comm, Int32.sub_add_cancel]
    · exact hend
  have hcut' : (x + n₂).toInt = min size.toInt high.toInt := by
    rw [hcut]
    split
    · next h =>
      rw [gt_iff_lt, Int32.lt_iff_toInt_lt] at h
      omega
    · next h =>
      rw [gt_iff_lt, Int32.lt_iff_toInt_lt] at h
      omega
  refine ⟨hx', hcut', ?_⟩
  have hdiff : n₂ = x + n₂ - x := by rw [Int32.add_comm, Int32.add_sub_cancel]
  rw [hdiff, Int32.toInt_sub, hcut', hx']

/-- The extent of a rectangle leads from one edge to the other. -/
private theorem edge_add (low high vp win : Int32) :
    low + vp - win + (high - low) = high + vp - win := by
  grind

theorem clip_columns (dc : GdiDc) (rect : Rect) (hsize : 0 ≤ dc.width.toInt) :
    (gdiClipRect dc rect.box).1.x.toInt = max 0 (dc.edgeX rect.left).toInt ∧
      ((gdiClipRect dc rect.box).1.x + (gdiClipRect dc rect.box).1.width).toInt =
        min dc.width.toInt (dc.edgeX rect.right).toInt ∧
      (gdiClipRect dc rect.box).1.width.toInt = (min dc.width.toInt (dc.edgeX rect.right).toInt -
        max 0 (dc.edgeX rect.left).toInt).bmod (2 ^ 32) :=
  clip_edges (edge_add rect.left rect.right dc.vpOrgX dc.winOrgX) hsize rfl rfl rfl

theorem clip_rows (dc : GdiDc) (rect : Rect) (hsize : 0 ≤ dc.height.toInt) :
    (gdiClipRect dc rect.box).1.y.toInt = max 0 (dc.edgeY rect.top).toInt ∧
      ((gdiClipRect dc rect.box).1.y + (gdiClipRect dc rect.box).1.height).toInt =
        min dc.height.toInt (dc.edgeY rect.bottom).toInt ∧
      (gdiClipRect dc rect.box).1.height.toInt =
        (min dc.height.toInt (dc.edgeY rect.bottom).toInt -
          max 0 (dc.edgeY rect.top).toInt).bmod (2 ^ 32) :=
  clip_edges (edge_add rect.top rect.bottom dc.vpOrgY dc.winOrgY) hsize rfl rfl rfl

/-- A word of a column of a row that the loops go through. -/
def Drawn (dc : GdiDc) (rect : Rect) (i : Int) : Prop :=
  ∃ row col : Int, dc.RowInEdges rect row ∧ 0 ≤ col ∧
    col < (min dc.width.toInt (dc.edgeX rect.right).toInt -
      max 0 (dc.edgeX rect.left).toInt).bmod (2 ^ 32) ∧
    i = (row * dc.stride).bmod (2 ^ 32) + max 0 (dc.edgeX rect.left).toInt + col

/-- The loops paint the words they come to. -/
theorem eachPixel_paints {b : Box} :
    Paints (eachPixel dc b fun i => putPixel buf i c) buf c fun i =>
      ∃ row ∈ countUp b.y (b.y + b.height), ∃ col ∈ countUp 0 b.width,
        i = (row * (dc.pitch / 4)).toInt + b.x.toInt + col.toInt :=
  paints_forM fun _ => paints_forM fun _ => paints_put _

/-- The words that a fill paints. -/
theorem gdiFillRect_paints (hbuf : dc.pixels = some buf) (hwidth : 0 ≤ dc.width.toInt)
    (hheight : 0 ≤ dc.height.toInt) (hstyle : brush.style ≠ bsNull) :
    Paints (gdiFillRect dc rect (some brush)) buf (colorrefToArgb brush.color)
      (Drawn dc rect) := by
  obtain ⟨hx, -, hn⟩ := clip_columns dc rect hwidth
  obtain ⟨hy, hend, hrows⟩ := clip_rows dc rect hheight
  have hzero : (0 : Int32).toInt = 0 := Int32.toInt_zero
  unfold gdiFillRect
  rw [hbuf]
  dsimp only
  rw [if_neg hstyle]
  split
  · have hpaints : Paints (eachPixel dc (gdiClipRect dc rect.box).1 (fun i =>
        putPixel buf i (colorrefToArgb brush.color)) >>= fun _ =>
          pure ((1 : Int32), { dc with dirty := true })) buf (colorrefToArgb brush.color) _ :=
      eachPixel_paints.bind fun _ => paints_pure _
    refine hpaints.congr ?_
    intro i
    rw [or_false]
    constructor
    · rintro ⟨row, hrow, col, hcol, hi⟩
      obtain ⟨htop, hbottom⟩ := mem_countUp.mp hrow
      obtain ⟨hlo, hhi⟩ := mem_countUp.mp hcol
      rw [hy] at htop
      rw [hend] at hbottom
      rw [hzero] at hlo
      rw [hn] at hhi
      rw [Int32.toInt_mul, hx] at hi
      exact ⟨row.toInt, col.toInt, ⟨by omega, by omega, by omega, by omega⟩, hlo, hhi, hi⟩
    · rintro ⟨row, col, ⟨hlo, hhi, htop, hbottom⟩, hcol, hright, hi⟩
      have hheight' := dc.height.toInt_lt
      have hwidth' := (gdiClipRect dc rect.box).1.width.toInt_lt
      have hrow : (Int32.ofInt row).toInt = row := Int32.toInt_ofInt_of_le (by omega) (by omega)
      rw [← hn] at hright
      have hcol' : (Int32.ofInt col).toInt = col := Int32.toInt_ofInt_of_le (by omega) (by omega)
      refine ⟨Int32.ofInt row, mem_countUp.mpr ?_, Int32.ofInt col, mem_countUp.mpr ?_, ?_⟩
      · rw [hy, hend, hrow]
        omega
      · rw [hzero, hcol']
        omega
      · rw [Int32.toInt_mul, hrow, hcol', hx]
        exact hi
  · next hhidden =>
    refine (paints_pure _).congr ?_
    intro i
    refine ⟨False.elim, ?_⟩
    rintro ⟨row, col, ⟨hlo, hhi, htop, hbottom⟩, hcol, hright, -⟩
    rw [← hn] at hright
    apply hhidden
    rw [visible_iff]
    refine ⟨by omega, ?_⟩
    rw [hrows]
    have hheight' := dc.height.toInt_lt
    have htop' := (dc.edgeY rect.top).toInt_lt
    rw [bmod_of_fits (by omega) (by omega)]
    omega

end Clip

section Words

/-- A word has one place on the surface. -/
theorem index_inj {stride px py px' py' : Int} (hx : 0 ≤ px) (hpx : px < stride)
    (hx' : 0 ≤ px') (hpx' : px' < stride) (h : py * stride + px = py' * stride + px') :
    py = py' ∧ px = px' := by
  have hpos : 0 < stride := by omega
  have hdiv : ∀ a b : Int, 0 ≤ b → b < stride → (a * stride + b) / stride = a := by
    intro a b hb hlt
    rw [Int.add_comm, Int.add_mul_ediv_right _ _ (by omega), Int.ediv_eq_zero_of_lt hb hlt,
      Int.zero_add]
  have hrow : py = py' := by
    rw [← hdiv py px hx hpx, h, hdiv py' px' hx' hpx']
  subst hrow
  exact ⟨rfl, by omega⟩

/-- The exact edge of which a 32-bit edge is left. -/
theorem edgeX_toInt (dc : GdiDc) (x : Int32) :
    (dc.edgeX x).toInt =
      (x.toInt + dc.vpOrgX.toInt - dc.winOrgX.toInt).bmod (2 ^ 32) := by
  rw [GdiDc.edgeX, Int32.toInt_sub, Int32.toInt_add, Int.bmod_sub_bmod]

theorem edgeY_toInt (dc : GdiDc) (y : Int32) :
    (dc.edgeY y).toInt =
      (y.toInt + dc.vpOrgY.toInt - dc.winOrgY.toInt).bmod (2 ^ 32) := by
  rw [GdiDc.edgeY, Int32.toInt_sub, Int32.toInt_add, Int.bmod_sub_bmod]

/-- What the two pixels of a rectangle have between them in a row. -/
theorem inRect_iff {px py : Int} : dc.InRect rect px py ↔
    (0 ≤ px ∧ px < dc.width.toInt ∧ 0 ≤ py ∧ py < dc.height.toInt) ∧
      rect.left.toInt + dc.vpOrgX.toInt - dc.winOrgX.toInt ≤ px ∧
      px < rect.right.toInt + dc.vpOrgX.toInt - dc.winOrgX.toInt ∧
      rect.top.toInt + dc.vpOrgY.toInt - dc.winOrgY.toInt ≤ py ∧
      py < rect.bottom.toInt + dc.vpOrgY.toInt - dc.winOrgY.toInt := by
  unfold GdiDc.InRect GdiDc.OnSurface GdiDc.logicalX GdiDc.logicalY
  omega

/-- The lower edge in 32 bits does not take in rows that are below the rectangle. -/
theorem inRect_row {px py row : Int} (h : dc.InRect rect px py) (hrow : dc.RowInEdges rect row) :
    dc.InRect rect px (max py row) := by
  obtain ⟨hlo, hhi, -, hbottom⟩ := hrow
  have hheight := dc.height.toInt_lt
  rw [edgeY_toInt, Int.bmod_def] at hbottom
  rw [inRect_iff] at h ⊢
  omega

/-- Nor does the right one take in columns. -/
theorem inRect_col {px py col : Int} (h : dc.InRect rect px py) (hlo : 0 ≤ col)
    (hhi : col < min dc.width.toInt (dc.edgeX rect.right).toInt) :
    dc.InRect rect (max px col) py := by
  have hwidth := dc.width.toInt_lt
  rw [edgeX_toInt, Int.bmod_def] at hhi
  rw [inRect_iff] at h ⊢
  omega

/-- The words of the pixels of the rectangle. -/
def Target (dc : GdiDc) (rect : Rect) (i : Int) : Prop :=
  ∃ px py, dc.InRect rect px py ∧ i = py * dc.stride + px

/-- The columns of a row, where the distance of the edges does not wrap. -/
theorem drawn_iff (hwidth : 0 ≤ dc.width.toInt)
    (hfits : (∃ py, dc.RowInEdges rect py) →
      -2 ^ 31 ≤ (dc.edgeX rect.right).toInt - max 0 (dc.edgeX rect.left).toInt) (i : Int) :
    Drawn dc rect i ↔ ∃ px py, dc.InEdges rect px py ∧
      i = (py * dc.stride).bmod (2 ^ 32) + px := by
  have hlt := dc.width.toInt_lt
  have hleft := (dc.edgeX rect.left).toInt_lt
  constructor
  · rintro ⟨row, col, hrow, hlo, hhi, rfl⟩
    have hdist := hfits ⟨row, hrow⟩
    rw [bmod_of_fits (by omega) (by omega)] at hhi
    obtain ⟨htop, hbottom, htop', hbottom'⟩ := hrow
    refine ⟨max 0 (dc.edgeX rect.left).toInt + col, row, ?_, by omega⟩
    exact ⟨⟨by omega, by omega, htop, hbottom⟩, by omega, by omega, htop', hbottom'⟩
  · rintro ⟨px, py, ⟨⟨hlo, hhi, htop, hbottom⟩, hl, hr, ht, hb⟩, rfl⟩
    have hrow : dc.RowInEdges rect py := ⟨htop, hbottom, ht, hb⟩
    have hdist := hfits ⟨py, hrow⟩
    refine ⟨py, px - max 0 (dc.edgeX rect.left).toInt, hrow, by omega, ?_, by omega⟩
    rw [bmod_of_fits (by omega) (by omega)]
    omega

/-- If the right words are painted, the distance of the edges has not wrapped. -/
theorem width_of_exact (hwidth : 0 ≤ dc.width.toInt) (hstride : dc.width.toInt ≤ dc.stride)
    (hexact : ∀ i, Drawn dc rect i ↔ Target dc rect i) {row : Int}
    (hrow : dc.RowInEdges rect row) :
    -2 ^ 31 ≤ (dc.edgeX rect.right).toInt - max 0 (dc.edgeX rect.left).toInt := by
  by_contra hwraps
  have hlt := dc.width.toInt_lt
  have hleft := (dc.edgeX rect.left).toInt_lt
  have hright := (dc.edgeX rect.right).le_toInt
  -- the columns go from the left edge to behind the surface
  have hcount : (min dc.width.toInt (dc.edgeX rect.right).toInt -
      max 0 (dc.edgeX rect.left).toInt).bmod (2 ^ 32) =
        (dc.edgeX rect.right).toInt - (dc.edgeX rect.left).toInt + 2 ^ 32 := by
    rw [Int.bmod_def]
    omega
  have hdraw : ∀ col, 0 ≤ col →
      col < (dc.edgeX rect.right).toInt - (dc.edgeX rect.left).toInt + 2 ^ 32 →
        Target dc rect ((row * dc.stride).bmod (2 ^ 32) + (dc.edgeX rect.left).toInt + col) := by
    intro col hlo hhi
    apply (hexact _).mp
    exact ⟨row, col, hrow, hlo, by rw [hcount]; exact hhi, by omega⟩
  obtain ⟨px, py, hin, hpx⟩ := hdraw 0 (Int.le_refl 0) (by omega)
  have hin' := inRect_iff.mp hin
  have hl := edgeX_toInt dc rect.left
  have hr := edgeX_toInt dc rect.right
  rw [Int.bmod_def] at hl hr
  have hll := rect.left.le_toInt
  have hrl := rect.right.toInt_lt
  have hvl := dc.vpOrgX.toInt_lt
  have hvl' := dc.vpOrgX.le_toInt
  have hwl := dc.winOrgX.toInt_lt
  have hwl' := dc.winOrgX.le_toInt
  -- the rectangle ends behind the surface and begins at the left edge, which is not 0
  have hlong : dc.width.toInt <
      (dc.edgeX rect.right).toInt + 2 ^ 32 := by omega
  have hstart : (dc.edgeX rect.left).toInt ≤ px := by omega
  -- so the first word behind the row would be a word of the rectangle
  obtain ⟨px', py', hin'', hpx'⟩ := hdraw (dc.width.toInt - px) (by omega) (by omega)
  have hbehind : py * dc.stride + dc.width.toInt = py' * dc.stride + px' := by omega
  have hin''' := inRect_iff.mp hin''
  by_cases hfull : dc.width.toInt = dc.stride
  · have hnext : (py + 1) * dc.stride + 0 = py' * dc.stride + px' := by
      rw [Int.add_mul, Int.one_mul, Int.add_zero, ← hfull]
      rw [← hfull] at hbehind
      exact hbehind
    obtain ⟨-, hzero⟩ := index_inj (Int.le_refl 0) (by omega) hin'''.1.1 (by omega) hnext
    omega
  · obtain ⟨-, hcol⟩ := index_inj hwidth (by omega) hin'''.1.1 (by omega) hbehind
    omega

/-- If the right words are painted, no row of the rectangle has wrapped. -/
theorem rows_of_exact (hwidth : 0 ≤ dc.width.toInt)
    (hfits : (∃ py, dc.RowInEdges rect py) →
      -2 ^ 31 ≤ (dc.edgeX rect.right).toInt - max 0 (dc.edgeX rect.left).toInt)
    (hexact : ∀ i, Drawn dc rect i ↔ Target dc rect i) {px py : Int}
    (hin : dc.InRect rect px py) : py * dc.stride < 2 ^ 31 := by
  -- the last pixel of the row is behind all columns that are drawn
  have hlast : dc.InRect rect
      (min dc.width.toInt (rect.right.toInt + dc.vpOrgX.toInt - dc.winOrgX.toInt) - 1) py := by
    rw [inRect_iff] at hin ⊢
    omega
  obtain ⟨col, row, ⟨⟨hcol, hcolw, -, -⟩, -, hcolr, -, -⟩, hi⟩ :=
    (drawn_iff hwidth hfits _).mp ((hexact _).mpr ⟨_, py, hlast, rfl⟩)
  have hbehind := inRect_iff.mp (inRect_col hin hcol (by omega))
  have hmod := Int.bmod_def (row * dc.stride) (2 ^ 32)
  omega

/-- A row up to one of the rectangle does not wrap either. -/
theorem row_fits (hwidth : 0 ≤ dc.width.toInt) (hstride : dc.width.toInt ≤ dc.stride)
    (hrows : ∀ px py, dc.InRect rect px py → py * dc.stride < 2 ^ 31) {px py row : Int}
    (hin : dc.InRect rect px py) (hrow : dc.RowInEdges rect row) :
    (row * dc.stride).bmod (2 ^ 32) = row * dc.stride := by
  have hlast := hrows px _ (inRect_row hin hrow)
  have hlo : 0 ≤ row * dc.stride := Int.mul_nonneg hrow.1 (by omega)
  have hle : row * dc.stride ≤ max py row * dc.stride :=
    Int.mul_le_mul_of_nonneg_right (by omega) (by omega)
  exact bmod_of_fits (by omega) (by omega)

/-- Exactly the right words are painted exactly if the edges fit. -/
theorem drawn_eq_target_iff (hwidth : 0 ≤ dc.width.toInt) (hstride : dc.width.toInt ≤ dc.stride) :
    (∀ i, Drawn dc rect i ↔ Target dc rect i) ↔ EdgesFit dc rect := by
  constructor
  · intro hexact
    have hfits : (∃ py, dc.RowInEdges rect py) →
        -2 ^ 31 ≤ (dc.edgeX rect.right).toInt - max 0 (dc.edgeX rect.left).toInt :=
      fun ⟨_, hrow⟩ => width_of_exact hwidth hstride hexact hrow
    have hrows : ∀ px py, dc.InRect rect px py → py * dc.stride < 2 ^ 31 :=
      fun px py hin => rows_of_exact hwidth hfits hexact hin
    refine ⟨?_, hfits, hrows⟩
    intro px py
    constructor
    · intro hin
      obtain ⟨col, row, hedges, hi⟩ :=
        (drawn_iff hwidth hfits _).mp ((hexact _).mpr ⟨px, py, hin, rfl⟩)
      obtain ⟨⟨hlo, hhi, htop, hbottom⟩, hl, hr, ht, hb⟩ := hedges
      rw [row_fits hwidth hstride hrows hin ⟨htop, hbottom, ht, hb⟩] at hi
      obtain ⟨hpx, hpxw, -⟩ := hin.1
      obtain ⟨rfl, rfl⟩ := index_inj hpx (by omega) hlo (by omega) hi
      exact ⟨⟨hlo, hhi, htop, hbottom⟩, hl, hr, ht, hb⟩
    · intro hedges
      obtain ⟨col, row, hin, hi⟩ :=
        (hexact _).mp ((drawn_iff hwidth hfits _).mpr ⟨px, py, hedges, rfl⟩)
      obtain ⟨⟨hlo, hhi, htop, hbottom⟩, -, -, ht, hb⟩ := hedges
      rw [row_fits hwidth hstride hrows hin ⟨htop, hbottom, ht, hb⟩] at hi
      obtain ⟨hcol, hcolw, -⟩ := hin.1
      obtain ⟨rfl, rfl⟩ := index_inj hlo (by omega) hcol (by omega) hi
      exact hin
  · intro hfit i
    rw [drawn_iff hwidth hfit.width]
    constructor
    · rintro ⟨px, py, hedges, rfl⟩
      have hin := (hfit.same px py).mpr hedges
      obtain ⟨⟨-, -, htop, hbottom⟩, -, -, ht, hb⟩ := hedges
      rw [row_fits hwidth hstride hfit.rows hin ⟨htop, hbottom, ht, hb⟩]
      exact ⟨px, py, hin, rfl⟩
    · rintro ⟨px, py, hin, rfl⟩
      have hedges := (hfit.same px py).mp hin
      have hrow : dc.RowInEdges rect py :=
        ⟨hedges.1.2.2.1, hedges.1.2.2.2, hedges.2.2.2.1, hedges.2.2.2.2⟩
      refine ⟨px, py, hedges, ?_⟩
      rw [row_fits hwidth hstride hfit.rows hin hrow]

end Words

section Exact

/-- A fill paints exactly the pixels of the surface in the rectangle if its edges fit, and only
then. -/
theorem gdiFillRect_exact_iff (hbuf : dc.pixels = some buf) (hwidth : 0 ≤ dc.width.toInt)
    (hheight : 0 ≤ dc.height.toInt) (hstride : dc.width.toInt ≤ dc.stride)
    (hstyle : brush.style ≠ bsNull) : FillsExactly dc buf rect brush ↔ EdgesFit dc rect := by
  have hpaints : Paints (gdiFillRect dc rect (some brush)) buf (colorrefToArgb brush.color)
      (Drawn dc rect) := gdiFillRect_paints hbuf hwidth hheight hstyle
  rw [← drawn_eq_target_iff hwidth hstride]
  constructor
  · intro h
    apply hpaints.unique
    · rintro m i ⟨px, py, hin, rfl⟩
      exact h.filled m px py hin
    · intro m i hno
      exact h.rest m buf i fun _ px py hin hi => hno ⟨px, py, hin, hi⟩
  · intro hexact
    constructor
    · intro m px py hin
      exact (hpaints m buf _).1 ⟨rfl, (hexact _).mpr ⟨px, py, hin, rfl⟩⟩
    · intro m b i hno
      apply (hpaints m b i).2
      rintro ⟨hb, hdraw⟩
      obtain ⟨px, py, hin, hi⟩ := (hexact i).mp hdraw
      exact hno hb px py hin hi

/-- The edges fit if the origins move them to `int`s, the width is one, too, and the surface has
less than 2^31 words. -/
theorem edgesFit_of_fits (hwidth : 0 ≤ dc.width.toInt) (hstride : dc.width.toInt ≤ dc.stride)
    (hx : ∀ x ∈ [rect.left, rect.right],
      -2 ^ 31 ≤ x.toInt + dc.vpOrgX.toInt - dc.winOrgX.toInt ∧
        x.toInt + dc.vpOrgX.toInt - dc.winOrgX.toInt < 2 ^ 31)
    (hy : ∀ y ∈ [rect.top, rect.bottom],
      -2 ^ 31 ≤ y.toInt + dc.vpOrgY.toInt - dc.winOrgY.toInt ∧
        y.toInt + dc.vpOrgY.toInt - dc.winOrgY.toInt < 2 ^ 31)
    (hdist : -2 ^ 31 ≤ rect.right.toInt - rect.left.toInt)
    (hspace : dc.height.toInt * dc.stride < 2 ^ 31) : EdgesFit dc rect := by
  have hl := hx rect.left (by simp)
  have hr := hx rect.right (by simp)
  have ht := hy rect.top (by simp)
  have hb := hy rect.bottom (by simp)
  have hle := edgeX_toInt dc rect.left
  have hre := edgeX_toInt dc rect.right
  have hte := edgeY_toInt dc rect.top
  have hbe := edgeY_toInt dc rect.bottom
  rw [bmod_of_fits hl.1 hl.2] at hle
  rw [bmod_of_fits hr.1 hr.2] at hre
  rw [bmod_of_fits ht.1 ht.2] at hte
  rw [bmod_of_fits hb.1 hb.2] at hbe
  constructor
  · intro px py
    rw [inRect_iff, GdiDc.InEdges, GdiDc.OnSurface, hle, hre, hte, hbe]
  · intro _
    rw [hle, hre]
    omega
  · intro px py hin
    obtain ⟨-, -, hpy, hpyh⟩ := hin.1
    have hrows : py * dc.stride ≤ dc.height.toInt * dc.stride :=
      Int.mul_le_mul_of_nonneg_right (by omega) (by omega)
    omega

/-- A surface of four pixels. -/
def smallSurface : GdiDc := { width := 2, height := 2, pitch := 8, pixels := some 0 }

/-- A solid brush. -/
def solidBrush : GdiBrush := { style := 0, color := 0xFF }

theorem gdiFillRect_exact_small : FillsExactly smallSurface 0 ⟨-1, -1, 1, 1⟩ solidBrush := by
  have hwidth : (0 : Int) ≤ smallSurface.width.toInt := by decide
  have hheight : (0 : Int) ≤ smallSurface.height.toInt := by decide
  have hstride : smallSurface.width.toInt ≤ smallSurface.stride := by decide
  have hends : ∀ x ∈ [(-1 : Int32), 1], -2 ^ 31 ≤ x.toInt + (0 : Int32).toInt - (0 : Int32).toInt ∧
      x.toInt + (0 : Int32).toInt - (0 : Int32).toInt < 2 ^ 31 := by
    simp
  have hfits : EdgesFit smallSurface ⟨-1, -1, 1, 1⟩ :=
    edgesFit_of_fits hwidth hstride hends hends (by decide) (by decide)
  exact (gdiFillRect_exact_iff rfl hwidth hheight hstride (by decide)).mpr hfits

/-- A rectangle that ends far left of where it begins has no pixel, but its width wraps to
2^31 - 1, and so many words are painted in each row. -/
theorem gdiFillRect_reversed :
    (∀ px py, ¬ smallSurface.InRect ⟨1, 0, -0x80000000, 2⟩ px py) ∧
      ¬ FillsExactly smallSurface 0 ⟨1, 0, -0x80000000, 2⟩ solidBrush := by
  have hempty : ∀ px py, ¬ smallSurface.InRect ⟨1, 0, -0x80000000, 2⟩ px py := by
    intro px py hin
    have hright : px < (-0x80000000 : Int32).toInt + smallSurface.vpOrgX.toInt -
        smallSurface.winOrgX.toInt := (inRect_iff.mp hin).2.2.1
    have hleft := hin.1.1
    have hend : (-0x80000000 : Int32).toInt + smallSurface.vpOrgX.toInt -
        smallSurface.winOrgX.toInt = -2 ^ 31 := by decide
    omega
  have hdrawn : Drawn smallSurface ⟨1, 0, -0x80000000, 2⟩ 1000 :=
    ⟨0, 999, ⟨by decide, by decide, by decide, by decide⟩, by decide, by decide, by decide⟩
  refine ⟨hempty, ?_⟩
  intro hexact
  have hpaints : Paints (gdiFillRect smallSurface ⟨1, 0, -0x80000000, 2⟩ (some solidBrush)) 0
      (colorrefToArgb solidBrush.color) (Drawn smallSurface ⟨1, 0, -0x80000000, 2⟩) :=
    gdiFillRect_paints rfl (by decide) (by decide) (by decide)
  have hpainted := (hpaints (fun _ _ => 0) 0 1000).1 ⟨rfl, hdrawn⟩
  have hleft := hexact.rest (fun _ _ => 0) 0 1000 fun _ px py hin => absurd hin (hempty px py)
  rw [hleft] at hpainted
  exact absurd hpainted (by decide)

end Exact

end Wbox.Gdi
