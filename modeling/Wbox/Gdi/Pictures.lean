import Wbox.Gdi.Bounds
import Wbox.Gdi.Rops

/-!
# Pictures of raster operations

`gdi_bit_blt` and `gdi_stretch_blt` to a rectangle of the same size (`src/gdi/gdi_drawing.c:331–456`)
go over the same pixels, in the same order. What each of them leaves in the buffers is told by what
it makes of a single pixel; so their pictures are the same where their branches agree.
-/

namespace Wbox.Gdi

open Wbox.Lib Wbox.Lib.Logged

variable {words : Nat → Nat} {dst src : GdiDc} {buf sbuf : Nat} {b : Box} {srcX srcY : Int32}
variable {f g : UInt32 → UInt32 → UInt32} {qs : List (Int × Int)} {m : PixelMem}

section Blending

/-- A pixel of one buffer, drawn over with a pixel of another. -/
def blend (buf sbuf : Nat) (f : UInt32 → UInt32 → UInt32) (m : PixelMem) (q : Int × Int) :
    PixelMem :=
  Function.update m buf (Function.update (m buf) q.1 (f (m buf q.1) (m sbuf q.2)))

/-- No pixel is drawn twice, and none is read after it has been drawn. -/
abbrev DrawnOnce (buf sbuf : Nat) (qs : List (Int × Int)) : Prop :=
  qs.Pairwise fun q q' => q.1 ≠ q'.1 ∧ (buf = sbuf → q.1 ≠ q'.2)

theorem blend_other {buf' : Nat} (h : buf' ≠ buf) (q : Int × Int) :
    blend buf sbuf f m q buf' = m buf' := Function.update_of_ne h _ m

theorem blend_off {q : Int × Int} {i : Int} (h : q.1 ≠ i) :
    blend buf sbuf f m q buf i = m buf i := by
  unfold blend
  rw [Function.update_self, Function.update_of_ne (Ne.symm h)]

theorem blend_at (q : Int × Int) :
    blend buf sbuf f m q buf q.1 = f (m buf q.1) (m sbuf q.2) := by
  unfold blend
  rw [Function.update_self, Function.update_self]

/-- Another buffer is left alone. -/
theorem blends_other {buf' : Nat} (h : buf' ≠ buf) :
    qs.foldl (blend buf sbuf f) m buf' = m buf' := by
  induction qs generalizing m with
  | nil => rfl
  | cons q qs ih => rw [List.foldl_cons, ih, blend_other h]

/-- So are the pixels that are not drawn. -/
theorem blends_off {i : Int} (h : ∀ q ∈ qs, q.1 ≠ i) :
    qs.foldl (blend buf sbuf f) m buf i = m buf i := by
  induction qs generalizing m with
  | nil => rfl
  | cons q qs ih =>
    rw [List.foldl_cons, ih fun q' hq' => h q' (List.mem_cons_of_mem q hq'),
      blend_off (h q List.mem_cons_self)]

/-- A pixel that is drawn is made of the pixels from before. -/
theorem blends_at (h : DrawnOnce buf sbuf qs) {q : Int × Int} (hq : q ∈ qs) :
    qs.foldl (blend buf sbuf f) m buf q.1 = f (m buf q.1) (m sbuf q.2) := by
  induction qs generalizing m with
  | nil => cases hq
  | cons q' qs ih =>
    rw [List.foldl_cons]
    cases h with
    | cons hfirst hrest =>
      rcases List.mem_cons.mp hq with rfl | hmem
      · rw [blends_off fun q' hq' => Ne.symm (hfirst q' hq').1, blend_at]
      · obtain ⟨hdrawn, hread⟩ := hfirst q hmem
        rw [ih hrest hmem, blend_off hdrawn]
        by_cases hsame : sbuf = buf
        · subst hsame
          rw [blend_off (hread rfl)]
        · rw [blend_other hsame]

/-- Two pictures made of the same pixels are the same exactly if each pixel is. -/
theorem blends_colour_iff (h : DrawnOnce buf sbuf qs) :
    (∀ buf' i, colour (qs.foldl (blend buf sbuf f) m buf' i) =
        colour (qs.foldl (blend buf sbuf g) m buf' i)) ↔
      ∀ q ∈ qs, colour (f (m buf q.1) (m sbuf q.2)) = colour (g (m buf q.1) (m sbuf q.2)) := by
  constructor
  · intro hsame q hq
    have heq := hsame buf q.1
    rw [blends_at h hq, blends_at h hq] at heq
    exact heq
  · intro hpixels buf' i
    by_cases hbuf : buf' = buf
    · subst hbuf
      by_cases hdrawn : ∃ q ∈ qs, q.1 = i
      · obtain ⟨q, hq, rfl⟩ := hdrawn
        rw [blends_at h hq, blends_at h hq]
        exact hpixels q hq
      · have hoff : ∀ q ∈ qs, q.1 ≠ i := fun q hq heq => hdrawn ⟨q, hq, heq⟩
        rw [blends_off hoff, blends_off hoff]
    · rw [blends_other hbuf, blends_other hbuf]

/-- A row that is copied at once is one that is copied pixel by pixel. -/
theorem copyPixels_after {d s : Int} {n : Nat}
    (h : buf = sbuf → ∀ j k : Nat, j < n → k < n → d + j ≠ s + k) :
    (copyPixels buf d sbuf s n).after m =
      ((List.range n).map fun k : Nat => (d + k, s + k)).foldl
        (blend buf sbuf fun _ new => new) m := by
  have honce : DrawnOnce buf sbuf ((List.range n).map fun k : Nat => (d + k, s + k)) := by
    apply List.pairwise_map.mpr
    apply List.pairwise_lt_range.imp_of_mem
    intro j k hj hk hlt
    exact ⟨by dsimp only; omega, fun hsame => h hsame j k (List.mem_range.mp hj) (List.mem_range.mp hk)⟩
  show Function.update m buf _ = _
  funext buf' i
  by_cases hbuf : buf' = buf
  · subst hbuf
    rw [Function.update_self]
    split
    · next hin =>
      have hmem : (i, s + (i - d)) ∈ (List.range n).map fun k : Nat => (d + k, s + k) := by
        apply List.mem_map.mpr
        refine ⟨(i - d).toNat, List.mem_range.mpr (by omega), ?_⟩
        have hnat : ((i - d).toNat : Int) = i - d := by omega
        have hsum : d + (i - d) = i := by omega
        rw [hnat, hsum]
      have hat := blends_at (f := fun _ new => new) (m := m) honce hmem
      exact hat.symm
    · next hout =>
      apply (blends_off ?_).symm
      intro q hq heq
      obtain ⟨k, hk, rfl⟩ := List.mem_map.mp hq
      have hlt : k < n := List.mem_range.mp hk
      apply hout
      dsimp only at heq
      omega
  · rw [Function.update_of_ne hbuf, blends_other hbuf]

end Blending

section Axes

/-- One axis of a transfer: so many steps, from a position of the source to one of the destination,
each inside a bound. -/
structure Axis where
  pos : Int32
  extent : Int32
  bound : Int32
  source : Int32
  sourceBound : Int32

/-- A step that stays inside both bounds. -/
def Axis.Visible (a : Axis) (k : Int) : Prop :=
  (0 ≤ k ∧ k < a.extent.toInt) ∧ (0 ≤ a.pos.toInt + k ∧ a.pos.toInt + k < a.bound.toInt) ∧
    0 ≤ a.source.toInt + k ∧ a.source.toInt + k < a.sourceBound.toInt

instance (a : Axis) (k : Int) : Decidable (a.Visible k) := inferInstanceAs (Decidable (_ ∧ _))

/-- The visible steps. -/
def Axis.steps (a : Axis) : List Nat :=
  (List.range a.extent.toInt.toNat).filter fun k : Nat => decide (a.Visible k)

/-- The first visible step, if there is one. -/
def Axis.first (a : Axis) : Int := max 0 (max (-a.pos.toInt) (-a.source.toInt))

/-- The end of the visible steps. -/
def Axis.last (a : Axis) : Int :=
  min a.extent.toInt (min (a.bound.toInt - a.pos.toInt) (a.sourceBound.toInt - a.source.toInt))

/-- No sum along an axis wraps, nor does the product that a stretched transfer makes of a step that
it draws. -/
structure Axis.Fits (a : Axis) : Prop where
  bound : 0 ≤ a.bound.toInt
  sourceBound : 0 ≤ a.sourceBound.toInt
  low : -2 ^ 31 ≤ a.pos.toInt + a.extent.toInt
  high : a.pos.toInt + a.extent.toInt < 2 ^ 31
  source : a.source.toInt + a.extent.toInt < 2 ^ 31
  scaled : ∀ k : Int, 0 ≤ k → k < a.extent.toInt → 0 ≤ a.pos.toInt + k →
    a.pos.toInt + k < a.bound.toInt → k * a.extent.toInt < 2 ^ 31

/-- No sum along an axis wraps. -/
structure Axis.SumsFit (a : Axis) : Prop where
  bound : 0 ≤ a.bound.toInt
  sourceBound : 0 ≤ a.sourceBound.toInt
  low : -2 ^ 31 ≤ a.pos.toInt + a.extent.toInt
  high : a.pos.toInt + a.extent.toInt < 2 ^ 31
  source : a.source.toInt + a.extent.toInt < 2 ^ 31

theorem Axis.Fits.sums {a : Axis} (h : a.Fits) : a.SumsFit :=
  ⟨h.bound, h.sourceBound, h.low, h.high, h.source⟩

/-- The numbers of an interval. -/
theorem filter_range_interval (lo hi n : Nat) :
    (List.range n).filter (fun k => decide (lo ≤ k ∧ k < hi)) = List.range' lo (min n hi - lo) := by
  induction n with
  | zero => simp
  | succ n ih =>
    rw [List.range_succ, List.filter_append, ih]
    by_cases hin : lo ≤ n ∧ n < hi
    · have hlen : min (n + 1) hi - lo = (min n hi - lo) + 1 := by omega
      have hend : lo + (min n hi - lo) = n := by omega
      rw [hlen, List.range'_concat, Nat.one_mul, hend]
      simp [hin]
    · have hlen : min (n + 1) hi - lo = min n hi - lo := by omega
      rw [hlen]
      simp [hin]

variable {a : Axis}

theorem Axis.mem_steps {k : Nat} : k ∈ a.steps ↔ a.Visible k := by
  unfold Axis.steps
  rw [List.mem_filter, List.mem_range, decide_eq_true_iff]
  constructor
  · exact fun ⟨_, hvisible⟩ => hvisible
  · exact fun hvisible => ⟨by have hlt := hvisible.1.2; omega, hvisible⟩

/-- The steps from the first on and before the last are visible. -/
theorem Axis.visible_add {k : Int} (hk : 0 ≤ k) (hlt : k < a.last - a.first) :
    a.Visible (a.first + k) := by
  unfold Axis.last Axis.first at hlt
  unfold Axis.Visible Axis.first
  omega

/-- The visible steps follow one another. -/
theorem Axis.steps_eq (a : Axis) :
    a.steps = (List.range (a.last - a.first).toNat).map (a.first.toNat + ·) := by
  have hfirst : 0 ≤ a.first := Int.le_max_left _ _
  have hvisible : ∀ k ∈ List.range a.extent.toInt.toNat,
      decide (a.Visible k) = decide (a.first.toNat ≤ k ∧ k < a.last.toNat) := by
    intro k hk
    have hlt : k < a.extent.toInt.toNat := List.mem_range.mp hk
    rw [decide_eq_decide]
    unfold Axis.Visible Axis.first Axis.last
    omega
  have hlen : min a.extent.toInt.toNat a.last.toNat - a.first.toNat = (a.last - a.first).toNat := by
    have hlast : a.last ≤ a.extent.toInt := Int.min_le_left _ _
    omega
  unfold Axis.steps
  rw [List.filter_congr hvisible, filter_range_interval, hlen, List.range'_eq_map_range]

/-- A comparison with 0. -/
theorem toInt_ite_neg (c x y : Int32) :
    (if c < 0 then x else y).toInt = if c.toInt < 0 then x.toInt else y.toInt := by
  simp only [Int32.lt_iff_toInt_lt, Int32.toInt_zero]
  split <;> rfl

/-- An extent that is cut where it leaves a bound. -/
theorem toInt_cut {p n m : Int32} (hp : 0 ≤ p.toInt) (hm : 0 ≤ m.toInt)
    (hfits : p.toInt + n.toInt < 2 ^ 31) :
    (if p + n > m then m - p else n).toInt = min n.toInt (m.toInt - p.toInt) := by
  have hn := n.le_toInt
  have hmlt := m.toInt_lt
  have hplt := p.toInt_lt
  have hsum : (p + n).toInt = p.toInt + n.toInt := int_add_of_fits (by omega) hfits
  have hdiff : (m - p).toInt = m.toInt - p.toInt := int_sub_of_fits (by omega) (by omega)
  split
  · next hgt =>
    rw [gt_iff_lt, Int32.lt_iff_toInt_lt, hsum] at hgt
    omega
  · next hle =>
    rw [gt_iff_lt, Int32.lt_iff_toInt_lt, hsum] at hle
    omega

/-- The first visible step, where the axis has been clipped to the destination before. -/
theorem Axis.first_eq (a : Axis) {s₁ : Int}
    (hs₁ : s₁ = a.source.toInt + max 0 (-a.pos.toInt)) :
    a.first = max 0 (-a.pos.toInt) + max 0 (-s₁) := by
  unfold Axis.first
  omega

/-- What is left of an axis that has been clipped to the destination. -/
theorem Axis.SumsFit.clip_dst (h : a.SumsFit) {p₁ n₁ n₂ : Int32}
    (hp₁ : p₁ = if a.pos < 0 then 0 else a.pos)
    (hn₁ : n₁ = if a.pos < 0 then a.extent + a.pos else a.extent)
    (hn₂ : n₂ = if p₁ + n₁ > a.bound then a.bound - p₁ else n₁) :
    p₁.toInt = a.pos.toInt + max 0 (-a.pos.toInt) ∧
      n₂.toInt = min a.extent.toInt (a.bound.toInt - a.pos.toInt) - max 0 (-a.pos.toInt) := by
  have hlow := h.low
  have hhigh := h.high
  have hnlt := a.extent.toInt_lt
  have hp₁' : p₁.toInt = a.pos.toInt + max 0 (-a.pos.toInt) := by
    rw [hp₁, toInt_ite_neg, Int32.toInt_zero]
    omega
  have hn₁' : n₁.toInt = a.extent.toInt - max 0 (-a.pos.toInt) := by
    rw [hn₁, toInt_ite_neg]
    split
    · rw [int_add_of_fits (by omega) (by omega)]
      omega
    · omega
  refine ⟨hp₁', ?_⟩
  rw [hn₂, toInt_cut (by omega) h.bound (by omega)]
  omega

/-- What is left of it when it has been clipped to the source, too. -/
theorem Axis.SumsFit.clip_source (h : a.SumsFit) {p₁ n₂ s₁ p₂ s₂ n₃ n₄ : Int32}
    (hp₁ : p₁.toInt = a.pos.toInt + max 0 (-a.pos.toInt))
    (hn₂ : n₂.toInt = min a.extent.toInt (a.bound.toInt - a.pos.toInt) - max 0 (-a.pos.toInt))
    (hs₁ : s₁ = a.source + (p₁ - a.pos))
    (hp₂ : p₂ = if s₁ < 0 then p₁ - s₁ else p₁)
    (hs₂ : s₂ = if s₁ < 0 then 0 else s₁)
    (hn₃ : n₃ = if s₁ < 0 then n₂ + s₁ else n₂)
    (hn₄ : n₄ = if s₂ + n₃ > a.sourceBound then a.sourceBound - s₂ else n₃) (hpos : 0 < n₂.toInt) :
    n₄.toInt = a.last - a.first ∧ (0 < n₄.toInt →
      p₂.toInt = a.pos.toInt + a.first ∧ s₂.toInt = a.source.toInt + a.first) := by
  have hsource := h.source
  have hnlt := a.extent.toInt_lt
  have hslo := a.source.le_toInt
  have hmlt := a.bound.toInt_lt
  generalize hskip : max 0 (-a.pos.toInt) = skip at hp₁ hn₂
  have hskip0 : 0 ≤ skip := by omega
  have hshift : (p₁ - a.pos).toInt = skip := by
    rw [int_sub_of_fits (by omega) (by omega)]
    omega
  have hs₁' : s₁.toInt = a.source.toInt + skip := by
    rw [hs₁, int_add_of_fits (by omega) (by omega), hshift]
  have hfirst := a.first_eq (hs₁'.trans (by rw [hskip]))
  rw [hskip] at hfirst
  have hs₂' : s₂.toInt = a.source.toInt + a.first := by
    rw [hs₂, toInt_ite_neg, Int32.toInt_zero]
    omega
  have hn₃' : n₃.toInt = n₂.toInt - (a.first - skip) := by
    rw [hn₃, toInt_ite_neg]
    split
    · rw [int_add_of_fits (by omega) (by omega)]
      omega
    · omega
  have hn₄' : n₄.toInt = min n₃.toInt (a.sourceBound.toInt - s₂.toInt) := by
    rw [hn₄]
    exact toInt_cut (by omega) h.sourceBound (by omega)
  have hlast : a.last = min (min a.extent.toInt (a.bound.toInt - a.pos.toInt))
      (a.sourceBound.toInt - a.source.toInt) := by
    unfold Axis.last
    omega
  refine ⟨by omega, ?_⟩
  intro hleft
  refine ⟨?_, hs₂'⟩
  rw [hp₂, toInt_ite_neg]
  split
  · rw [int_sub_of_fits (by omega) (by omega)]
    omega
  · omega

/-- Nothing is left of an axis that is empty after it has been clipped to the destination. -/
theorem Axis.last_le_first {n₂ : Int32} (hn₂ : n₂.toInt =
      min a.extent.toInt (a.bound.toInt - a.pos.toInt) - max 0 (-a.pos.toInt))
    (hempty : n₂.toInt ≤ 0) : a.last ≤ a.first := by
  have hfirst : max 0 (-a.pos.toInt) ≤ a.first := by
    unfold Axis.first
    omega
  have hlast : a.last ≤ min a.extent.toInt (a.bound.toInt - a.pos.toInt) := by
    unfold Axis.last
    omega
  omega

theorem Axis.steps_nil (h : a.last ≤ a.first) : a.steps = [] := by
  have hnone : (a.last - a.first).toNat = 0 := by omega
  rw [a.steps_eq, hnone]
  rfl

/-- A stretched transfer of the same size takes a step of the source for a step of the
destination. -/
theorem Axis.Fits.scaled_eq (h : a.Fits) {i : Int32} (hlo : 0 ≤ i.toInt) (hhi : i.toInt < a.extent.toInt)
    (hpos : 0 ≤ a.pos.toInt + i.toInt) (hbound : a.pos.toInt + i.toInt < a.bound.toInt) :
    (a.source + i * a.extent / a.extent).toInt = a.source.toInt + i.toInt := by
  have hsource := h.source
  have hslo := a.source.le_toInt
  have hnlt := a.extent.toInt_lt
  have hprod := h.scaled i.toInt hlo hhi hpos hbound
  have hnonneg : 0 ≤ i.toInt * a.extent.toInt := Int.mul_nonneg hlo (by omega)
  have hquot : (i * a.extent / a.extent).toInt = i.toInt := by
    rw [Int32.toInt_div, int_mul_of_fits (by omega) hprod,
      Int.mul_tdiv_cancel _ (by omega), bmod_of_fits (by omega) (by omega)]
  rw [int_add_of_fits (by omega) (by omega), hquot]

/-- A step along an axis of a rectangle, as a coordinate. -/
theorem Axis.Fits.coordinate (h : a.Fits) {i : Int32} (hlo : 0 ≤ i.toInt)
    (hhi : i.toInt < a.extent.toInt) : (a.pos + i).toInt = a.pos.toInt + i.toInt := by
  have hhigh := h.high
  have hplo := a.pos.le_toInt
  exact int_add_of_fits (by omega) (by omega)

/-- A loop along an axis that skips the steps that are not visible. -/
theorem Axis.foldl_steps {σ : Type} (g : σ → Int → σ) (s : σ) :
    (countUp 0 a.extent).foldl (fun s i => if a.Visible i.toInt then g s i.toInt else s) s =
      a.steps.foldl (fun s (k : Nat) => g s k) s := by
  rw [foldl_countUp fun s k => if a.Visible k then g s k else s]
  unfold Axis.steps
  rw [List.foldl_filter]
  simp only [decide_eq_true_eq]

end Axes

section Transfers

/-- A transfer from one surface to a rectangle of the same size on another. -/
structure Transfer where
  dst : GdiDc
  src : GdiDc
  box : Box
  srcX : Int32
  srcY : Int32

variable {t : Transfer} {rop : UInt32}

/-- `gdi_bit_blt`. -/
def Transfer.bitBlt (t : Transfer) (rop : UInt32) : DrawM (Bool × GdiDc) :=
  gdiBitBlt t.dst t.box (some t.src) t.srcX t.srcY rop

/-- A `memcpy` of words. -/
abbrev Memcpy := Nat → Int → Nat → Int → Nat → DrawM PUnit

/-- One row of a transfer, which any `memcpy` copies. -/
def blitRowBy (memcpy : Memcpy) (dst src : GdiDc) (buf sbuf : Nat) (b : Blit) (rop : UInt32)
    (row : Int32) : DrawM PUnit :=
  if rop = ropSrccopy then
    memcpy buf (((b.dstY + row) * (dst.pitch / 4)).toInt + b.dstX.toInt) sbuf
      (((b.srcY + row) * (src.pitch / 4)).toInt + b.srcX.toInt) (sizeT (b.width * 4) / 4)
  else blitRow dst src buf sbuf b rop row

/-- `gdi_bit_blt` with any `memcpy`. -/
def gdiBitBltBy (memcpy : Memcpy) (dst : GdiDc) (b : Box) (src : Option GdiDc) (srcX srcY : Int32)
    (rop : UInt32) : DrawM (Bool × GdiDc) :=
  match dst.pixels, GdiDc.source src with
  | none, _ => pure (false, dst)
  | some _, none => gdiPatBlt dst b rop
  | some buf, some (src, sbuf) =>
      let clip := gdiClipRect dst b
      if clip.2 then
        let blit := (blitOf b clip.1 srcX srcY).clipLow.clipHigh src
        if blit.width ≤ 0 ∨ blit.height ≤ 0 then pure (true, dst)
        else do
          (countUp 0 blit.height).forM (blitRowBy memcpy dst src buf sbuf blit rop)
          pure (true, { dst with dirty := true })
      else pure (true, dst)

def Transfer.bitBltBy (memcpy : Memcpy) (t : Transfer) (rop : UInt32) : DrawM (Bool × GdiDc) :=
  gdiBitBltBy memcpy t.dst t.box (some t.src) t.srcX t.srcY rop

theorem blitRowBy_copyPixels : blitRowBy copyPixels = blitRow := by
  funext dst src buf sbuf b rop row
  unfold blitRowBy blitRow
  dsimp only
  split <;> rfl

theorem Transfer.bitBltBy_copyPixels (t : Transfer) (rop : UInt32) :
    t.bitBltBy copyPixels rop = t.bitBlt rop := by
  unfold Transfer.bitBltBy gdiBitBltBy
  rw [blitRowBy_copyPixels]
  rfl

/-- `gdi_stretch_blt` to a rectangle of the same size. -/
def Transfer.stretchBlt (t : Transfer) (rop : UInt32) : DrawM (Bool × GdiDc) :=
  gdiStretchBlt t.dst t.box (some t.src) ⟨t.srcX, t.srcY, t.box.width, t.box.height⟩ rop

def Transfer.cols (t : Transfer) : Axis :=
  { pos := t.box.x, extent := t.box.width, bound := t.dst.width
    source := t.srcX, sourceBound := t.src.width }

def Transfer.rows (t : Transfer) : Axis :=
  { pos := t.box.y, extent := t.box.height, bound := t.dst.height
    source := t.srcY, sourceBound := t.src.height }

/-- The index of a pixel of a surface. -/
def GdiDc.pixelAt (dc : GdiDc) (x y : Int) : Int := y * dc.stride + x

/-- The pixel of the destination and the pixel of the source, so many steps into the transfer. -/
def Transfer.pixels (t : Transfer) (c r : Int) : Int × Int :=
  (t.dst.pixelAt (t.box.x.toInt + c) (t.box.y.toInt + r),
    t.src.pixelAt (t.srcX.toInt + c) (t.srcY.toInt + r))

/-- The pixels of a transfer, row by row. -/
def Transfer.pairs (t : Transfer) : List (Int × Int) :=
  t.rows.steps.flatMap fun r : Nat => t.cols.steps.map fun c : Nat => t.pixels c r

/-- A step of a transfer that is drawn. -/
def Transfer.Drawn (t : Transfer) (c r : Int) : Prop := t.cols.Visible c ∧ t.rows.Visible r

/-- Both surfaces fit their buffers, the destination has no origin of its own, and no sum wraps. -/
structure Transfer.Fits (words : Nat → Nat) (t : Transfer) : Prop where
  dst : SurfaceFits words t.dst
  src : SurfaceFits words t.src
  originX : t.dst.vpOrgX = t.dst.winOrgX
  originY : t.dst.vpOrgY = t.dst.winOrgY
  cols : t.cols.Fits
  rows : t.rows.Fits

/-- The same without the products of a stretched transfer. -/
structure Transfer.SumsFit (words : Nat → Nat) (t : Transfer) : Prop where
  dst : SurfaceFits words t.dst
  src : SurfaceFits words t.src
  originX : t.dst.vpOrgX = t.dst.winOrgX
  originY : t.dst.vpOrgY = t.dst.winOrgY
  cols : t.cols.SumsFit
  rows : t.rows.SumsFit

theorem Transfer.Fits.sums (h : t.Fits words) : t.SumsFit words :=
  ⟨h.dst, h.src, h.originX, h.originY, h.cols.sums, h.rows.sums⟩

/-- No pixel of the source has been drawn over before it is read; and no row that `memcpy` copies
overlaps with its source. -/
def Transfer.Apart (t : Transfer) (buf sbuf : Nat) (rop : UInt32) : Prop :=
  buf = sbuf → ∀ c r c' r' : Int, t.Drawn c r → t.Drawn c' r' →
    rop = ropSrccopy ∨ r < r' ∨ r = r' ∧ c < c' → (t.pixels c r).1 ≠ (t.pixels c' r').2

/-- What is left of a transfer after it has been clipped. -/
structure Transfer.Clipped (t : Transfer) (blit : Blit) : Prop where
  dstX : blit.dstX.toInt = t.box.x.toInt + t.cols.first
  dstY : blit.dstY.toInt = t.box.y.toInt + t.rows.first
  srcX : blit.srcX.toInt = t.srcX.toInt + t.cols.first
  srcY : blit.srcY.toInt = t.srcY.toInt + t.rows.first
  width : blit.width.toInt = t.cols.last - t.cols.first
  height : blit.height.toInt = t.rows.last - t.rows.first
  wide : 0 < blit.width.toInt
  high : 0 < blit.height.toInt

/-- The buffers of the two surfaces. -/
structure Transfer.On (t : Transfer) (buf sbuf : Nat) : Prop where
  dst : t.dst.pixels = some buf
  src : t.src.pixels = some sbuf

/-- A row of the destination, and one of the source, from its first pixel that is drawn on. -/
theorem Transfer.row_index (ht : t.SumsFit words) (hon : t.On buf sbuf) {x y sx sy : Int32} {r : Int}
    (hx : x.toInt = t.box.x.toInt + t.cols.first) (hsx : sx.toInt = t.srcX.toInt + t.cols.first)
    (hy : y.toInt = t.box.y.toInt + r) (hsy : sy.toInt = t.srcY.toInt + r)
    (hcols : t.cols.Visible t.cols.first) (hrows : t.rows.Visible r) (k : Int) :
    (y * (t.dst.pitch / 4)).toInt + x.toInt + k = (t.pixels (t.cols.first + k) r).1 ∧
      (sy * (t.src.pitch / 4)).toInt + sx.toInt + k = (t.pixels (t.cols.first + k) r).2 := by
  obtain ⟨-, ⟨hc, hcw⟩, hsc, hscw⟩ := hcols
  obtain ⟨-, ⟨hr, hrh⟩, hsr, hsrh⟩ := hrows
  dsimp only [Transfer.cols, Transfer.rows] at hc hcw hsc hscw hr hrh hsr hsrh hx hsx
  obtain ⟨hmul, -⟩ := ht.dst.index hon.dst (x := x) (y := y) (by omega) (by omega) (by omega)
    (by omega)
  obtain ⟨hsmul, -⟩ := ht.src.index hon.src (x := sx) (y := sy) (by omega) (by omega) (by omega)
    (by omega)
  rw [hmul, hsmul, hx, hsx, hy, hsy]
  unfold Transfer.pixels GdiDc.pixelAt
  dsimp only [Transfer.cols, Transfer.rows]
  omega

/-- Where a row of a transfer starts on both surfaces, after clipping, and how long it is. -/
theorem Transfer.row_start (ht : t.SumsFit words) (hon : t.On buf sbuf) {blit : Blit}
    (hclip : t.Clipped blit) {row : Int32} (hlo : 0 ≤ row.toInt)
    (hhi : row.toInt < blit.height.toInt) :
    ((blit.dstY + row) * (t.dst.pitch / 4)).toInt + blit.dstX.toInt =
        (t.pixels t.cols.first (t.rows.first + row.toInt)).1 ∧
      ((blit.srcY + row) * (t.src.pitch / 4)).toInt + blit.srcX.toInt =
        (t.pixels t.cols.first (t.rows.first + row.toInt)).2 ∧
      sizeT (blit.width * 4) / 4 = blit.width.toInt.toNat := by
  obtain ⟨hdx, hdy, hsx, hsy, hwidth, hheight, hwide, -⟩ := hclip
  have hrow := t.rows.visible_add hlo (by omega)
  have hcol := t.cols.visible_add (Int.le_refl 0) (by omega)
  rw [Int.add_zero] at hcol
  have hdh := t.dst.height.toInt_lt
  have hsh := t.src.height.toInt_lt
  have hy : (blit.dstY + row).toInt = t.box.y.toInt + (t.rows.first + row.toInt) := by
    have hbound := hrow.2.1
    dsimp only [Transfer.rows] at hbound hdy hheight ⊢
    rw [int_add_of_fits (by omega) (by omega)]
    omega
  have hsy : (blit.srcY + row).toInt = t.srcY.toInt + (t.rows.first + row.toInt) := by
    have hbound := hrow.2.2
    dsimp only [Transfer.rows] at hbound hsy hheight ⊢
    rw [int_add_of_fits (by omega) (by omega)]
    omega
  obtain ⟨hd, hs⟩ := t.row_index ht hon hdx hsx hy hsy hcol hrow 0
  rw [Int.add_zero, Int.add_zero] at hd hs
  have hfits : blit.width.toInt < 2 ^ 29 := by
    have hstride := stride_lt t.dst
    have hright := ht.dst.right
    have hlast : t.cols.last ≤ t.dst.width.toInt - t.box.x.toInt := by
      unfold Axis.last
      dsimp only [Transfer.cols]
      omega
    have hstart := hcol.2.1
    dsimp only [Transfer.cols] at hstart hlast hwidth ⊢
    omega
  exact ⟨hd, hs, sizeT_row hwide hfits⟩

theorem Transfer.pixels_add (t : Transfer) (c r k : Int) :
    t.pixels (c + k) r = ((t.pixels c r).1 + k, (t.pixels c r).2 + k) := by
  unfold Transfer.pixels GdiDc.pixelAt
  dsimp only
  ext <;> dsimp only <;> omega

/-- The pixels of a row, counted from its first one. -/
theorem Transfer.row_pixels (t : Transfer) (r : Int) :
    (t.cols.steps.map fun c : Nat => t.pixels c r) =
      (List.range (t.cols.last - t.cols.first).toNat).map fun k : Nat =>
        ((t.pixels t.cols.first r).1 + k, (t.pixels t.cols.first r).2 + k) := by
  have hfirst : (t.cols.first.toNat : Int) = t.cols.first := by
    have hnonneg : 0 ≤ t.cols.first := Int.le_max_left _ _
    omega
  rw [Axis.steps_eq, List.map_map]
  apply List.map_congr_left
  intro k _
  have hcast : ((t.cols.first.toNat + k : Nat) : Int) = t.cols.first + k := by omega
  show t.pixels ((t.cols.first.toNat + k : Nat) : Int) r = _
  rw [hcast, t.pixels_add]

/-- A row of a transfer, pixel by pixel. -/
theorem Transfer.row_after (ht : t.SumsFit words) (hon : t.On buf sbuf) {blit : Blit}
    (hclip : t.Clipped blit) (hapart : rop = ropSrccopy → t.Apart buf sbuf rop) {row : Int32}
    (hlo : 0 ≤ row.toInt) (hhi : row.toInt < blit.height.toInt) :
    (blitRow t.dst t.src buf sbuf blit rop row).after m =
      (t.cols.steps.map fun c : Nat => t.pixels c (t.rows.first + row.toInt)).foldl
        (blend buf sbuf (bitBltPixel rop (bitBltPattern t.dst))) m := by
  obtain ⟨hd, hs, hsize⟩ := t.row_start ht hon hclip hlo hhi
  have hwidth := hclip.width
  have hheight := hclip.height
  unfold blitRow
  dsimp only
  rw [hd, hs, hsize, t.row_pixels, hwidth]
  generalize hr : t.rows.first + row.toInt = r
  split
  · next hcopy =>
    have hpixel : bitBltPixel rop (bitBltPattern t.dst) = fun _ new => new := by
      funext old new
      exact if_pos hcopy
    have hrow : t.rows.Visible r := hr ▸ t.rows.visible_add hlo (by omega)
    rw [hpixel]
    apply copyPixels_after
    intro hsame j k hj hk
    have hapart' := hapart hcopy hsame (t.cols.first + j) r (t.cols.first + k) r
      ⟨t.cols.visible_add (by omega) (by omega), hrow⟩
      ⟨t.cols.visible_add (by omega) (by omega), hrow⟩ (.inl hcopy)
    rw [t.pixels_add, t.pixels_add] at hapart'
    exact hapart'
  · rw [List.foldl_map, ← hwidth, ← foldl_countUp (fun m k =>
      blend buf sbuf (bitBltPixel rop (bitBltPattern t.dst)) m
        ((t.pixels t.cols.first r).1 + k, (t.pixels t.cols.first r).2 + k))]
    exact after_forM (fun _ _ _ => rfl) m

/-- The columns of the destination after it has been clipped. -/
theorem Transfer.cols_clip (ht : t.SumsFit words) :
    (gdiClipRect t.dst t.box).1.x.toInt = t.box.x.toInt + max 0 (-t.box.x.toInt) ∧
      (gdiClipRect t.dst t.box).1.width.toInt =
        min t.box.width.toInt (t.dst.width.toInt - t.box.x.toInt) - max 0 (-t.box.x.toInt) := by
  have horigin : t.box.x + t.dst.vpOrgX - t.dst.winOrgX = t.cols.pos := by
    rw [ht.originX, Int32.add_sub_cancel]
    rfl
  have hpos : (t.dst.clipLow t.box).x = if t.cols.pos < 0 then 0 else t.cols.pos := by
    rw [← horigin]
    rfl
  have hextent : (t.dst.clipLow t.box).width =
      if t.cols.pos < 0 then t.cols.extent + t.cols.pos else t.cols.extent := by
    rw [← horigin]
    rfl
  exact ht.cols.clip_dst hpos hextent rfl

/-- The rows. -/
theorem Transfer.rows_clip (ht : t.SumsFit words) :
    (gdiClipRect t.dst t.box).1.y.toInt = t.box.y.toInt + max 0 (-t.box.y.toInt) ∧
      (gdiClipRect t.dst t.box).1.height.toInt =
        min t.box.height.toInt (t.dst.height.toInt - t.box.y.toInt) - max 0 (-t.box.y.toInt) := by
  have horigin : t.box.y + t.dst.vpOrgY - t.dst.winOrgY = t.rows.pos := by
    rw [ht.originY, Int32.add_sub_cancel]
    rfl
  have hpos : (t.dst.clipLow t.box).y = if t.rows.pos < 0 then 0 else t.rows.pos := by
    rw [← horigin]
    rfl
  have hextent : (t.dst.clipLow t.box).height =
      if t.rows.pos < 0 then t.rows.extent + t.rows.pos else t.rows.extent := by
    rw [← horigin]
    rfl
  exact ht.rows.clip_dst hpos hextent rfl

/-- What is left of a transfer after clipping. -/
def Transfer.blit (t : Transfer) : Blit :=
  (blitOf t.box (gdiClipRect t.dst t.box).1 t.srcX t.srcY).clipLow.clipHigh t.src

theorem Transfer.blit_width (ht : t.SumsFit words)
    (hpos : 0 < (gdiClipRect t.dst t.box).1.width.toInt) :
    t.blit.width.toInt = t.cols.last - t.cols.first ∧ (0 < t.blit.width.toInt →
      t.blit.dstX.toInt = t.box.x.toInt + t.cols.first ∧
        t.blit.srcX.toInt = t.srcX.toInt + t.cols.first) := by
  obtain ⟨hx, hwidth⟩ := t.cols_clip ht
  generalize hclip : (gdiClipRect t.dst t.box).1 = clip at hpos hx hwidth
  have hblit : t.blit = (blitOf t.box clip t.srcX t.srcY).clipLow.clipHigh t.src := by
    rw [← hclip]
    rfl
  rw [hblit]
  exact ht.cols.clip_source hx hwidth rfl rfl rfl rfl rfl hpos

theorem Transfer.blit_height (ht : t.SumsFit words)
    (hpos : 0 < (gdiClipRect t.dst t.box).1.height.toInt) :
    t.blit.height.toInt = t.rows.last - t.rows.first ∧ (0 < t.blit.height.toInt →
      t.blit.dstY.toInt = t.box.y.toInt + t.rows.first ∧
        t.blit.srcY.toInt = t.srcY.toInt + t.rows.first) := by
  obtain ⟨hy, hheight⟩ := t.rows_clip ht
  generalize hclip : (gdiClipRect t.dst t.box).1 = clip at hpos hy hheight
  have hblit : t.blit = (blitOf t.box clip t.srcX t.srcY).clipLow.clipHigh t.src := by
    rw [← hclip]
    rfl
  rw [hblit]
  exact ht.rows.clip_source hy hheight rfl rfl rfl rfl rfl hpos

/-- Nothing is drawn if one of the axes is empty. -/
theorem Transfer.pairs_nil (h : t.cols.last ≤ t.cols.first ∨ t.rows.last ≤ t.rows.first) :
    t.pairs = [] := by
  unfold Transfer.pairs
  rcases h with hcols | hrows
  · rw [Axis.steps_nil hcols]
    simp
  · rw [Axis.steps_nil hrows]
    rfl

/-- The rows of a transfer, one after the other. -/
theorem Transfer.rows_after (ht : t.SumsFit words) (hon : t.On buf sbuf) {blit : Blit}
    (hclip : t.Clipped blit) (hapart : rop = ropSrccopy → t.Apart buf sbuf rop) :
    ((countUp 0 blit.height).forM (blitRow t.dst t.src buf sbuf blit rop)).after m =
      t.pairs.foldl (blend buf sbuf (bitBltPixel rop (bitBltPattern t.dst))) m := by
  have hfirst : (t.rows.first.toNat : Int) = t.rows.first := by
    have hnonneg : 0 ≤ t.rows.first := Int.le_max_left _ _
    omega
  have hrow : ∀ row ∈ countUp 0 blit.height, ∀ m,
      (blitRow t.dst t.src buf sbuf blit rop row).after m =
        (t.cols.steps.map fun c : Nat => t.pixels c (t.rows.first + row.toInt)).foldl
          (blend buf sbuf (bitBltPixel rop (bitBltPattern t.dst))) m := by
    intro row hmem m
    obtain ⟨hlo, hhi⟩ := mem_countUp.mp hmem
    rw [Int32.toInt_zero] at hlo
    exact t.row_after ht hon hclip hapart hlo hhi
  rw [after_forM hrow, foldl_countUp (fun m k =>
    (t.cols.steps.map fun c : Nat => t.pixels c (t.rows.first + k)).foldl
      (blend buf sbuf (bitBltPixel rop (bitBltPattern t.dst))) m)]
  unfold Transfer.pairs
  rw [List.foldl_flatMap, Axis.steps_eq t.rows, List.foldl_map, hclip.height]
  apply List.foldl_ext
  intro m k _
  rw [Int.natCast_add, hfirst]

/-- `gdi_bit_blt` draws nothing, or the rows that are left after clipping. -/
theorem Transfer.bitBltBy_rows (memcpy : Memcpy) (rop : UInt32) (ht : t.SumsFit words)
    (hon : t.On buf sbuf) :
    (t.pairs = [] ∧ (t.bitBltBy memcpy rop).after m = m) ∨
      ∃ blit, t.Clipped blit ∧ (t.bitBltBy memcpy rop).after m =
        ((countUp 0 blit.height).forM (blitRowBy memcpy t.dst t.src buf sbuf blit rop)).after m := by
  have hsource : GdiDc.source (some t.src) = some (t.src, sbuf) := by
    unfold GdiDc.source
    rw [Option.bind_some, hon.src, Option.map_some]
  obtain ⟨-, hcwidth⟩ := t.cols_clip ht
  obtain ⟨-, hcheight⟩ := t.rows_clip ht
  unfold Transfer.bitBltBy gdiBitBltBy
  rw [hon.dst, hsource]
  have hblit : (blitOf t.box (gdiClipRect t.dst t.box).1 t.srcX t.srcY).clipLow.clipHigh t.src =
    t.blit := rfl
  dsimp only
  rw [hblit]
  split
  · next hvisible =>
    obtain ⟨hwidth, hheight⟩ := (visible_iff t.dst t.box).mp hvisible
    obtain ⟨hblitWidth, hcols⟩ := t.blit_width ht hwidth
    obtain ⟨hblitHeight, hrows⟩ := t.blit_height ht hheight
    split
    · next hempty =>
      simp only [Int32.le_iff_toInt_le, Int32.toInt_zero] at hempty
      exact .inl ⟨t.pairs_nil (hempty.imp (by omega) (by omega)), rfl⟩
    · next hleft =>
      simp only [not_or, Int32.le_iff_toInt_le, Int32.toInt_zero, Int.not_le] at hleft
      obtain ⟨hwide, hhigh⟩ := hleft
      have hclip : t.Clipped t.blit :=
        { dstX := (hcols hwide).1, srcX := (hcols hwide).2
          dstY := (hrows hhigh).1, srcY := (hrows hhigh).2
          width := hblitWidth, height := hblitHeight, wide := hwide, high := hhigh }
      rw [after_bind, after_pure]
      exact .inr ⟨t.blit, hclip, rfl⟩
  · next hhidden =>
    have hempty := (not_congr (visible_iff t.dst t.box)).mp hhidden
    refine .inl ⟨t.pairs_nil ?_, rfl⟩
    by_cases hwidth : 0 < (gdiClipRect t.dst t.box).1.width.toInt
    · exact .inr (Axis.last_le_first hcheight (by omega))
    · exact .inl (Axis.last_le_first hcwidth (by omega))

/-- `gdi_bit_blt` draws the pixels of the transfer with what it makes of a pixel. -/
theorem Transfer.bitBlt_after (ht : t.SumsFit words) (hon : t.On buf sbuf)
    (hapart : rop = ropSrccopy → t.Apart buf sbuf rop) :
    (t.bitBlt rop).after m =
      t.pairs.foldl (blend buf sbuf (bitBltPixel rop (bitBltPattern t.dst))) m := by
  rw [← t.bitBltBy_copyPixels]
  rcases t.bitBltBy_rows (m := m) copyPixels rop ht hon with ⟨hnil, hafter⟩ | ⟨blit, hclip, hafter⟩
  · rw [hafter, hnil, List.foldl_nil]
  · rw [hafter, blitRowBy_copyPixels]
    exact t.rows_after ht hon hclip hapart

/-- The rectangle that a transfer of the same size reads. -/
def Transfer.sourceBox (t : Transfer) : Box := ⟨t.srcX, t.srcY, t.box.width, t.box.height⟩

/-- Nothing is drawn in a row outside the destination. -/
theorem Transfer.stretchPixel_hidden {dx dy sy : Int32}
    (hrow : ¬ (0 ≤ (t.box.y + dy).toInt ∧ (t.box.y + dy).toInt < t.dst.height.toInt)) :
    (stretchPixel t.dst t.src buf sbuf t.box t.sourceBox rop sy dy dx).after m = m := by
  unfold stretchPixel
  dsimp only
  rw [if_pos]
  · rfl
  · simp only [ge_iff_le, Int32.le_iff_toInt_le, Int32.lt_iff_toInt_lt, Int32.toInt_zero]
    omega

/-- In a row that is visible on both surfaces, the visible columns are drawn. -/
theorem Transfer.stretchPixel_after (ht : t.Fits words) (hon : t.On buf sbuf) {dx dy sy : Int32}
    (hlo : 0 ≤ dx.toInt) (hhi : dx.toInt < t.box.width.toInt) (hrow : t.rows.Visible dy.toInt)
    (hsy : sy.toInt = t.srcY.toInt + dy.toInt) :
    (stretchPixel t.dst t.src buf sbuf t.box t.sourceBox rop sy dy dx).after m =
      if t.cols.Visible dx.toInt then
        blend buf sbuf (stretchBltPixel rop (stretchBltPattern t.dst)) m
          (t.pixels dx.toInt dy.toInt)
      else m := by
  obtain ⟨⟨hrlo, hrhi⟩, ⟨hy, hyh⟩, hsyLo, hsyHi⟩ := hrow
  have hpx : (t.box.x + dx).toInt = t.box.x.toInt + dx.toInt := ht.cols.coordinate hlo hhi
  have hpy : (t.box.y + dy).toInt = t.box.y.toInt + dy.toInt := ht.rows.coordinate hrlo hrhi
  dsimp only [Transfer.rows] at hy hyh hsyLo hsyHi
  unfold stretchPixel
  dsimp only
  simp only [ge_iff_le, Int32.le_iff_toInt_le, Int32.lt_iff_toInt_lt, Int32.toInt_zero, hpx, hpy]
  by_cases hdst : 0 ≤ t.box.x.toInt + dx.toInt ∧ t.box.x.toInt + dx.toInt < t.dst.width.toInt
  · have hsx : (t.sourceBox.x + dx * t.sourceBox.width / t.box.width).toInt =
        t.srcX.toInt + dx.toInt := ht.cols.scaled_eq hlo hhi hdst.1 hdst.2
    rw [hsx]
    by_cases hvisible : t.cols.Visible dx.toInt
    · have hin := hvisible.2.2
      dsimp only [Transfer.cols] at hin
      rw [if_pos hvisible, if_neg (by omega)]
      obtain ⟨-, -, -, hd⟩ := ht.dst.index hon.dst (x := t.box.x + dx) (y := t.box.y + dy)
        (by omega) (by omega) (by omega) (by omega)
      obtain ⟨-, -, -, hs⟩ := ht.src.index hon.src (x := t.sourceBox.x + dx * t.sourceBox.width /
        t.box.width) (y := sy) (by omega) (by omega) (by omega) (by omega)
      rw [hd, hs, hpx, hpy, hsx, hsy]
      show _ = blend buf sbuf _ m (_, _)
      unfold blend stretchBltPixel
      by_cases hcopy : rop = ropSrccopy
      · simp only [if_pos hcopy]
        rfl
      · simp only [if_neg hcopy]
        rfl
    · have hskip : t.srcX.toInt + dx.toInt < 0 ∨ t.src.width.toInt ≤ t.srcX.toInt + dx.toInt := by
        apply Classical.byContradiction
        intro hin
        exact hvisible ⟨⟨hlo, hhi⟩, hdst, by dsimp only [Transfer.cols]; omega⟩
      rw [if_neg hvisible, if_pos (by omega)]
      rfl
  · have hhidden : ¬ t.cols.Visible dx.toInt := fun hvisible => hdst hvisible.2.1
    rw [if_neg hhidden, if_pos (by omega)]
    rfl

/-- A row of a stretched transfer. -/
theorem Transfer.stretchRow_after (ht : t.Fits words) (hon : t.On buf sbuf) {dy : Int32}
    (hlo : 0 ≤ dy.toInt) (hhi : dy.toInt < t.box.height.toInt) :
    (let sy := t.srcY + dy * t.box.height / t.box.height
      if sy < 0 ∨ sy ≥ t.src.height then pure ⟨⟩
      else (countUp 0 t.box.width).forM
        (stretchPixel t.dst t.src buf sbuf t.box t.sourceBox rop sy dy)).after m =
      if t.rows.Visible dy.toInt then
        t.cols.steps.foldl (fun m (c : Nat) =>
          blend buf sbuf (stretchBltPixel rop (stretchBltPattern t.dst)) m
            (t.pixels c dy.toInt)) m
      else m := by
  have hpy : (t.box.y + dy).toInt = t.box.y.toInt + dy.toInt := ht.rows.coordinate hlo hhi
  dsimp only
  by_cases hdst : 0 ≤ t.box.y.toInt + dy.toInt ∧ t.box.y.toInt + dy.toInt < t.dst.height.toInt
  · have hsy : (t.srcY + dy * t.box.height / t.box.height).toInt = t.srcY.toInt + dy.toInt :=
      ht.rows.scaled_eq hlo hhi hdst.1 hdst.2
    have hout : (t.srcY + dy * t.box.height / t.box.height < 0 ∨
        t.srcY + dy * t.box.height / t.box.height ≥ t.src.height) ↔ ¬ t.rows.Visible dy.toInt := by
      rw [ge_iff_le, Int32.lt_iff_toInt_lt, Int32.le_iff_toInt_le, hsy, Int32.toInt_zero]
      unfold Axis.Visible
      dsimp only [Transfer.rows]
      omega
    by_cases hvisible : t.rows.Visible dy.toInt
    · rw [if_neg (mt hout.mp (not_not_intro hvisible)), if_pos hvisible, ← Axis.foldl_steps
        (fun m c => blend buf sbuf (stretchBltPixel rop (stretchBltPattern t.dst)) m
          (t.pixels c dy.toInt))]
      apply after_forM
      intro dx hdx m
      obtain ⟨hxlo, hxhi⟩ := mem_countUp.mp hdx
      rw [Int32.toInt_zero] at hxlo
      exact t.stretchPixel_after ht hon hxlo hxhi hvisible hsy
    · rw [if_pos (hout.mpr hvisible), if_neg hvisible]
      rfl
  · have hhidden : ¬ t.rows.Visible dy.toInt := fun hvisible => hdst hvisible.2.1
    rw [if_neg hhidden]
    split
    · rfl
    · have hskip : ∀ dx ∈ countUp 0 t.box.width, ∀ m, (stretchPixel t.dst t.src buf sbuf t.box
          t.sourceBox rop (t.srcY + dy * t.box.height / t.box.height) dy dx).after m = m := by
        intro dx _ m
        exact t.stretchPixel_hidden (by rw [hpy]; exact hdst)
      rw [after_forM hskip]
      exact List.foldl_fixed _

/-- `gdi_stretch_blt` draws the pixels of the transfer with what it makes of a pixel. -/
theorem Transfer.stretchBlt_after (ht : t.Fits words) (hon : t.On buf sbuf) :
    (t.stretchBlt rop).after m =
      t.pairs.foldl (blend buf sbuf (stretchBltPixel rop (stretchBltPattern t.dst))) m := by
  have hsource : GdiDc.source (some t.src) = some (t.src, sbuf) := by
    unfold GdiDc.source
    rw [Option.bind_some, hon.src, Option.map_some]
  unfold Transfer.stretchBlt gdiStretchBlt
  rw [hon.dst, hsource]
  dsimp only
  rw [after_bind, after_pure]
  unfold Transfer.pairs
  rw [List.foldl_flatMap]
  simp only [List.foldl_map]
  rw [← Axis.foldl_steps (fun m r => t.cols.steps.foldl (fun m (c : Nat) =>
    blend buf sbuf (stretchBltPixel rop (stretchBltPattern t.dst)) m (t.pixels c r)) m)]
  apply after_forM
  intro dy hdy m
  obtain ⟨hlo, hhi⟩ := mem_countUp.mp hdy
  rw [Int32.toInt_zero] at hlo
  exact t.stretchRow_after ht hon hlo hhi

/-- A pixel that is drawn later has a greater index. -/
theorem Transfer.pixels_lt (ht : t.SumsFit words) {c r c' r' : Int} (h : t.Drawn c r)
    (h' : t.Drawn c' r') (hlt : r < r' ∨ r = r' ∧ c < c') :
    (t.pixels c r).1 < (t.pixels c' r').1 := by
  have hc := h.1.2.1
  have hc' := h'.1.2.1
  have hright := ht.dst.right
  have hleft := ht.dst.left
  unfold Transfer.pixels GdiDc.pixelAt
  dsimp only [Transfer.cols] at hc hc' ⊢
  rcases hlt with hrow | ⟨rfl, hcol⟩
  · have hnext : (t.box.y.toInt + r + 1) * t.dst.stride ≤ (t.box.y.toInt + r') * t.dst.stride :=
      Int.mul_le_mul_of_nonneg_right (by omega) (by omega)
    have hstep : (t.box.y.toInt + r + 1) * t.dst.stride =
        (t.box.y.toInt + r) * t.dst.stride + t.dst.stride := by
      rw [Int.add_mul, Int.one_mul]
    omega
  · omega

theorem Transfer.mem_pairs {q : Int × Int} :
    q ∈ t.pairs ↔ ∃ c r : Int, t.Drawn c r ∧ q = t.pixels c r := by
  unfold Transfer.pairs
  rw [List.mem_flatMap]
  constructor
  · intro ⟨r, hr, hq⟩
    obtain ⟨c, hc, rfl⟩ := List.mem_map.mp hq
    exact ⟨c, r, ⟨Axis.mem_steps.mp hc, Axis.mem_steps.mp hr⟩, rfl⟩
  · intro ⟨c, r, ⟨hc, hr⟩, hq⟩
    have hc0 : ((c.toNat : Nat) : Int) = c := by
      have hlo := hc.1.1
      omega
    have hr0 : ((r.toNat : Nat) : Int) = r := by
      have hlo := hr.1.1
      omega
    rw [← hc0] at hc hq
    rw [← hr0] at hr hq
    exact ⟨r.toNat, Axis.mem_steps.mpr hr,
      List.mem_map.mpr ⟨c.toNat, Axis.mem_steps.mpr hc, hq.symm⟩⟩

/-- The steps of an axis go up. -/
theorem Axis.pairwise_steps (a : Axis) {R : Nat → Nat → Prop}
    (h : ∀ j k : Nat, a.Visible j → a.Visible k → j < k → R j k) : a.steps.Pairwise R := by
  have hlt : a.steps.Pairwise (· < ·) := List.pairwise_lt_range.filter _
  exact hlt.imp_of_mem fun hj hk => h _ _ (Axis.mem_steps.mp hj) (Axis.mem_steps.mp hk)

theorem Transfer.drawnOnce (ht : t.SumsFit words) (hapart : t.Apart buf sbuf rop) :
    DrawnOnce buf sbuf t.pairs := by
  have hbefore : ∀ {c r c' r' : Int}, t.Drawn c r → t.Drawn c' r' → r < r' ∨ r = r' ∧ c < c' →
      (t.pixels c r).1 ≠ (t.pixels c' r').1 ∧ (buf = sbuf → (t.pixels c r).1 ≠ (t.pixels c' r').2) :=
    fun h h' hlt => ⟨Int.ne_of_lt (t.pixels_lt ht h h' hlt),
      fun hsame => hapart hsame _ _ _ _ h h' (.inr hlt)⟩
  apply List.pairwise_flatMap.mpr
  constructor
  · intro r hr
    apply List.pairwise_map.mpr
    apply Axis.pairwise_steps
    intro j k hj hk hlt
    have hrow := Axis.mem_steps.mp hr
    exact hbefore ⟨hj, hrow⟩ ⟨hk, hrow⟩ (.inr ⟨rfl, by omega⟩)
  · apply Axis.pairwise_steps
    intro r r' hr hr' hlt q hq q' hq'
    obtain ⟨c, hc, rfl⟩ := List.mem_map.mp hq
    obtain ⟨c', hc', rfl⟩ := List.mem_map.mp hq'
    exact hbefore ⟨Axis.mem_steps.mp hc, hr⟩ ⟨Axis.mem_steps.mp hc', hr'⟩ (.inl (by omega))

/-- The operations that `gdi_bit_blt` has a branch for. -/
def bitBltRops : List UInt32 := [ropSrccopy, ropSrcand, ropSrcpaint, ropSrcinvert]

/-- The others are left to `gdi_apply_rop3` by both routines. -/
theorem bitBltPixel_eq {pat : UInt32} (h : rop ∉ bitBltRops) :
    bitBltPixel rop pat = stretchBltPixel rop pat := by
  simp only [bitBltRops, List.mem_cons, List.not_mem_nil, or_false, not_or] at h
  obtain ⟨hcopy, hand, hpaint, hinvert⟩ := h
  funext old new
  unfold bitBltPixel stretchBltPixel
  rw [if_neg hcopy, if_neg hand, if_neg hpaint, if_neg hinvert, if_neg hcopy]

/-- What `gdi_stretch_blt` makes of a pixel is always what `gdi_apply_rop3` does. -/
theorem stretchBltPixel_eq (rop pat dst src : UInt32) :
    stretchBltPixel rop pat dst src = gdiApplyRop3 dst src pat rop := by
  unfold stretchBltPixel
  split
  · next hcopy =>
    rw [hcopy, applyRop3_srccopy]
  · rfl

/-- The two routines draw the same picture exactly if their branches agree on each pixel that is
drawn. -/
theorem Transfer.picture_iff (ht : t.Fits words) (hon : t.On buf sbuf)
    (hpat : rop = ropSrccopy ∨ bitBltPattern t.dst = stretchBltPattern t.dst)
    (hapart : rop ∈ bitBltRops → t.Apart buf sbuf rop) :
    (∀ buf' i, colour ((t.bitBlt rop).after m buf' i) =
        colour ((t.stretchBlt rop).after m buf' i)) ↔
      ∀ c r, t.Drawn c r → BitBltAgrees rop (bitBltPattern t.dst)
        (m buf (t.pixels c r).1) (m sbuf (t.pixels c r).2) := by
  have hcopy : rop = ropSrccopy → t.Apart buf sbuf rop :=
    fun heq => hapart (heq ▸ List.mem_cons_self)
  have hpattern : stretchBltPixel rop (stretchBltPattern t.dst) =
      stretchBltPixel rop (bitBltPattern t.dst) := by
    rcases hpat with heq | heq
    · funext old new
      rw [stretchBltPixel, stretchBltPixel, if_pos heq, if_pos heq]
    · rw [heq]
  rw [t.bitBlt_after ht.sums hon hcopy, t.stretchBlt_after ht hon, hpattern]
  by_cases hspecial : rop ∈ bitBltRops
  · rw [blends_colour_iff (t.drawnOnce ht.sums (hapart hspecial))]
    simp only [Transfer.mem_pairs, stretchBltPixel_eq, bitBltPixel_agrees_iff]
    constructor
    · exact fun h c r hdrawn => h _ ⟨c, r, hdrawn, rfl⟩
    · intro h q ⟨c, r, hdrawn, hq⟩
      rw [hq]
      exact h c r hdrawn
  · rw [bitBltPixel_eq hspecial]
    apply iff_of_true (fun _ _ => rfl)
    intro c r _
    rw [← bitBltPixel_agrees_iff, bitBltPixel_eq hspecial, stretchBltPixel_eq]

end Transfers

section Results

/-- The branches of `gdi_bit_blt` and `gdi_pat_blt` give a pixel the colour that `gdi_apply_rop3`
gives it exactly where they agree; so do the pictures of `gdi_bit_blt` and `gdi_stretch_blt`. -/
theorem rops_agree_iff (rop pat dst src : UInt32) :
    (colour (bitBltPixel rop pat dst src) = colour (gdiApplyRop3 dst src pat rop) ↔
      BitBltAgrees rop pat dst src) ∧
    (rop ∈ patBltRops ∨ src = 0 →
      (colour (patBltPixel rop pat dst) = colour (gdiApplyRop3 dst src pat rop) ↔
        PatBltAgrees rop pat dst)) ∧
    ∀ (words : Nat → Nat) (t : Transfer) (buf sbuf : Nat) (m : PixelMem),
      t.Fits words → t.On buf sbuf →
      rop = ropSrccopy ∨ bitBltPattern t.dst = stretchBltPattern t.dst →
      (rop ∈ bitBltRops → t.Apart buf sbuf rop) →
        ((∀ buf' i, colour ((t.bitBlt rop).after m buf' i) =
            colour ((t.stretchBlt rop).after m buf' i)) ↔
          ∀ c r, t.Drawn c r → BitBltAgrees rop (bitBltPattern t.dst)
            (m buf (t.pixels c r).1) (m sbuf (t.pixels c r).2)) := by
  refine ⟨bitBltPixel_agrees_iff rop pat dst src, ?_, ?_⟩
  · intro hsrc
    exact patBltPixel_agrees_iff rop pat dst hsrc
  · intro words t buf sbuf m ht hon hpat hapart
    exact t.picture_iff ht hon hpat hapart

/-- A transfer between two surfaces of one row of two pixels, of which one is left to draw. -/
def smallTransfer : Transfer where
  dst := { width := 2, height := 1, pitch := 8, pixels := some 0 }
  src := { width := 2, height := 1, pitch := 8, pixels := some 1 }
  box := ⟨1, 0, 2, 1⟩
  srcX := 0
  srcY := 0

/-- A white source and a black destination. -/
def blackAndWhite : PixelMem := fun buf _ => if buf = 1 then 0xFFFFFFFF else 0xFF000000

theorem smallTransfer_fits : smallTransfer.Fits fun _ => 2 where
  dst := ⟨by decide, by decide, by decide, fun _ _ => by decide, by decide⟩
  src := ⟨by decide, by decide, by decide, fun _ _ => by decide, by decide⟩
  originX := rfl
  originY := rfl
  cols := by
    refine ⟨by decide, by decide, by decide, by decide, by decide, ?_⟩
    have hextent : smallTransfer.cols.extent.toInt = 2 := by decide
    intro k _ hk _ _
    rw [hextent] at hk ⊢
    omega
  rows := by
    refine ⟨by decide, by decide, by decide, by decide, by decide, ?_⟩
    have hextent : smallTransfer.rows.extent.toInt = 1 := by decide
    intro k _ hk _ _
    rw [hextent] at hk ⊢
    omega

/-- `BLACKNESS` on a pixel, and a source that is copied. -/
theorem rops_agree_copy :
    colour (patBltPixel ropBlackness 0xFFFFFFFF 0xFF123456) =
      colour (gdiApplyRop3 0xFF123456 0 0xFFFFFFFF ropBlackness) ∧
    ∀ buf i, colour ((smallTransfer.bitBlt ropSrccopy).after blackAndWhite buf i) =
      colour ((smallTransfer.stretchBlt ropSrccopy).after blackAndWhite buf i) := by
  constructor
  · apply ((rops_agree_iff ropBlackness 0xFFFFFFFF 0xFF123456 0).2.1 (.inr rfl)).mpr
    exact fun h => absurd h (by decide)
  · apply ((rops_agree_iff ropSrccopy 0 0 0).2.2 _ smallTransfer 0 1 blackAndWhite smallTransfer_fits ⟨rfl, rfl⟩
      (.inl rfl) fun _ hsame => absurd hsame (by decide)).mpr
    exact fun _ _ _ => trivial

/-- `SRCAND` and `PATCOPY` where the destination is not what the pattern is: on a pixel, and in a
picture. -/
theorem rops_disagree :
    colour (bitBltPixel ropSrcand 0xFFFFFFFF 0xFF000000 0xFFFFFFFF) ≠
      colour (gdiApplyRop3 0xFF000000 0xFFFFFFFF 0xFFFFFFFF ropSrcand) ∧
    colour (patBltPixel ropPatcopy 0xFFFF0000 0xFF000000) ≠
      colour (gdiApplyRop3 0xFF000000 0 0xFFFF0000 ropPatcopy) ∧
    colour ((smallTransfer.bitBlt ropSrcand).after blackAndWhite 0 1) ≠
      colour ((smallTransfer.stretchBlt ropSrcand).after blackAndWhite 0 1) := by
  decide +kernel

end Results

end Wbox.Gdi
