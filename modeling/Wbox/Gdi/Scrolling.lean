import Wbox.Gdi.Blits

/-!
# Scrolling

`gdi_bit_blt` (`src/gdi/gdi_drawing.c:331–415`) with `SRCCOPY` from a surface to itself. The rows
are copied from the first to the last (`378–384`), each by one `memcpy`: so a row of the source can
have been drawn over before it is read, and a row that overlaps with its source is not one that
`memcpy` has to copy.
-/

namespace Wbox.Gdi

open Wbox.Lib Wbox.Lib.Logged

variable {words : Nat → Nat} {t : Transfer} {buf : Nat} {m : PixelMem} {i j dx dy : Int}
variable {qs : List (Int × Int)} {q : Int × Int} {memcpy : Memcpy}

section Copying

/-- The ranges of a copy have no word in common. -/
def RangesApart (d s : Int) (n : Nat) : Prop := d + n ≤ s ∨ s + n ≤ d

instance (d s : Int) (n : Nat) : Decidable (RangesApart d s n) :=
  inferInstanceAs (Decidable (_ ∨ _))

/-- What C says of `memcpy`: it copies a range to one that does not overlap with it. -/
def Memcpy.Copies (memcpy : Memcpy) : Prop :=
  ∀ (dst : Nat) (d : Int) (src : Nat) (s : Int) (n : Nat) (m : PixelMem),
    (dst = src → RangesApart d s n) →
      (memcpy dst d src s n).after m = (copyPixels dst d src s n).after m

theorem copyPixels_copies : Memcpy.Copies copyPixels := fun _ _ _ _ _ _ _ => rfl

/-- A `memcpy` that fills a range which overlaps with its source. -/
def memcpyOrFill : Memcpy := fun dst d src s n =>
  if dst = src ∧ ¬ RangesApart d s n then
    .op ((List.range n).map fun k : Nat => .write dst (d + k))
      fun m => (⟨⟩, Function.update m dst fun i => if d ≤ i ∧ i < d + n then 1 else m dst i)
  else copyPixels dst d src s n

theorem memcpyOrFill_copies : memcpyOrFill.Copies := by
  intro dst d src s n m hapart
  unfold memcpyOrFill
  rw [if_neg fun ⟨hsame, hnot⟩ => hnot (hapart hsame)]

theorem memcpyOrFill_off {d s k : Int} {n : Nat} (h : ¬ (d ≤ k ∧ k < d + n)) (m : PixelMem) :
    (memcpyOrFill buf d buf s n).after m buf k = m buf k := by
  have hoff : ∀ g : Int → UInt32, Function.update m buf
      (fun i => if d ≤ i ∧ i < d + n then g i else m buf i) buf k = m buf k := by
    intro g
    rw [Function.update_self, if_neg h]
  unfold memcpyOrFill
  split
  · exact hoff fun _ => 1
  · exact hoff fun i => m buf (s + (i - d))

theorem memcpyOrFill_fills {d s k : Int} {n : Nat} (hover : ¬ RangesApart d s n)
    (h : d ≤ k ∧ k < d + n) (m : PixelMem) :
    (memcpyOrFill buf d buf s n).after m buf k = 1 := by
  have hin : Function.update m buf
      (fun i => if d ≤ i ∧ i < d + n then 1 else m buf i) buf k = 1 := by
    rw [Function.update_self, if_pos h]
  unfold memcpyOrFill
  rw [if_pos ⟨rfl, hover⟩]
  exact hin

/-- What one round of a loop brings about, and every round keeps, holds after the loop. -/
theorem foldl_settles {σ ι : Type} (P : σ → Prop) {g : σ → ι → σ} {is : List ι} {i : ι}
    (hkeep : ∀ j ∈ is, ∀ s, P s → P (g s j)) (hi : i ∈ is) (hset : ∀ s, P (g s i)) (s : σ) :
    P (is.foldl g s) := by
  obtain ⟨before, behind, rfl⟩ := List.append_of_mem hi
  rw [List.foldl_append, List.foldl_cons]
  have hbehind : ∀ j ∈ behind, ∀ s, P s → P (g s j) := fun j hj =>
    hkeep j (List.mem_append_right _ (List.mem_cons_of_mem _ hj))
  clear hkeep hi
  generalize hstart : g (before.foldl g s) i = start
  have hmarked : P start := hstart ▸ hset _
  clear hstart
  induction behind generalizing start with
  | nil => exact hmarked
  | cons j behind ih =>
    exact ih (fun k hk => hbehind k (List.mem_cons_of_mem _ hk)) _
      (hbehind j List.mem_cons_self _ hmarked)

/-- Pixels that are copied from the lowest to the highest: one that comes from below gets what has
been drawn there, any other what was there before. -/
theorem blends_ascending (h : qs.Pairwise fun q q' => q.1 < q'.1) (hq : q ∈ qs) :
    qs.foldl (blend buf buf fun _ new => new) m buf q.1 =
      if q.2 < q.1 then qs.foldl (blend buf buf fun _ new => new) m buf q.2 else m buf q.2 := by
  induction qs generalizing m with
  | nil => cases hq
  | cons p qs ih =>
    obtain ⟨hfirst, hrest⟩ := List.pairwise_cons.mp h
    rw [List.foldl_cons]
    rcases List.mem_cons.mp hq with rfl | hmem
    · -- the first pixel is drawn at once, and nothing below it is drawn at all
      have hkeep : ∀ k, k ≤ q.1 → ∀ m,
        qs.foldl (blend buf buf fun _ new => new) m buf k = m buf k := by
        intro k hk m
        apply blends_off
        intro p hp heq
        have hlt := hfirst p hp
        omega
      rw [hkeep _ (Int.le_refl _), blend_at]
      split
      · next hbelow => rw [hkeep _ (by omega), blend_off (by omega)]
      · rfl
    · have hlt := hfirst q hmem
      rw [ih hrest hmem]
      split
      · rfl
      · exact blend_off (by omega)

end Copying

section Overlap

/-- Every pixel that is covered gets what the source had before, and no other changes. The source is
counted from a position of its own. -/
structure ScrollsExactly (t : Transfer) (buf : Nat) (dx dy : Int) : Prop where
  copied : ∀ memcpy : Memcpy, memcpy.Copies → ∀ m i j, t.Copied dx dy i j →
    (t.bitBltBy memcpy ropSrccopy).after m buf (t.target i j) = m buf (t.origin dx dy i j)
  rest : ∀ memcpy : Memcpy, memcpy.Copies → ∀ m b k,
    (b = buf → ∀ i j, t.Copied dx dy i j → k ≠ t.target i j) →
      (t.bitBltBy memcpy ropSrccopy).after m b k = m b k

/-- A pixel is both drawn and read only if the rectangle moves up. -/
def Transfer.InOrder (t : Transfer) : Prop :=
  ∀ i j i' j', t.Copied t.originX t.originY i j → t.Copied t.originX t.originY i' j' →
    t.target i j = t.origin t.originX t.originY i' j' → t.box.y.toInt < t.srcY.toInt

/-- One row of a transfer, from its first column that is visible on. -/
def Transfer.copyRow (memcpy : Memcpy) (t : Transfer) (buf : Nat) (r : Int) : DrawM PUnit :=
  memcpy buf (t.pixels t.cols.first r).1 buf (t.pixels t.cols.first r).2
    (t.cols.last - t.cols.first).toNat

/-- No row of the transfer overlaps with its source. -/
def Transfer.RowsApart (t : Transfer) : Prop :=
  ∀ r, t.rows.Visible r → RangesApart (t.pixels t.cols.first r).1 (t.pixels t.cols.first r).2
    (t.cols.last - t.cols.first).toNat

/-- The rows of a transfer are copied one after the other. -/
theorem Transfer.bitBltBy_after (memcpy : Memcpy) (ht : t.SumsFit words) (hon : t.On buf buf)
    (hdrawn : t.pairs ≠ []) (m : PixelMem) : (t.bitBltBy memcpy ropSrccopy).after m =
      t.rows.steps.foldl (fun m (r : Nat) => (t.copyRow memcpy buf r).after m) m := by
  rcases t.bitBltBy_rows (m := m) memcpy ropSrccopy ht hon with
    ⟨hnil, -⟩ | ⟨blit, hclip, hafter⟩
  · exact absurd hnil hdrawn
  · have hfirst : (t.rows.first.toNat : Int) = t.rows.first := by
      have hnonneg : 0 ≤ t.rows.first := Int.le_max_left _ _
      omega
    have hrow : ∀ row ∈ countUp 0 blit.height, ∀ m,
        (blitRowBy memcpy t.dst t.src buf buf blit ropSrccopy row).after m =
          (t.copyRow memcpy buf (t.rows.first + row.toInt)).after m := by
      intro row hmem m
      obtain ⟨hlo, hhi⟩ := mem_countUp.mp hmem
      rw [Int32.toInt_zero] at hlo
      obtain ⟨hd, hs, hsize⟩ := t.row_start ht hon hclip hlo hhi
      unfold blitRowBy Transfer.copyRow
      rw [if_pos rfl, hd, hs, hsize, hclip.width]
    rw [hafter, after_forM hrow, foldl_countUp (fun m k =>
      (t.copyRow memcpy buf (t.rows.first + k)).after m), Axis.steps_eq, List.foldl_map,
      hclip.height]
    apply List.foldl_ext
    intro m k _
    rw [Int.natCast_add, hfirst]

/-- Where the rows do not overlap with their sources, they are copied pixel by pixel. -/
theorem Transfer.bitBltBy_apart (hcopies : memcpy.Copies) (ht : t.SumsFit words)
    (hon : t.On buf buf) (hapart : t.RowsApart) (m : PixelMem) :
    (t.bitBltBy memcpy ropSrccopy).after m =
      t.pairs.foldl (blend buf buf fun _ new => new) m := by
  have hrow : ∀ m, ∀ r ∈ t.rows.steps, (t.copyRow memcpy buf r).after m =
      (t.cols.steps.map fun c : Nat => t.pixels c r).foldl (blend buf buf fun _ new => new) m := by
    intro m r hr
    have hranges := hapart r (Axis.mem_steps.mp hr)
    unfold Transfer.copyRow
    rw [hcopies _ _ _ _ _ _ fun _ => hranges, t.row_pixels]
    apply copyPixels_after
    intro _ j k hj hk
    unfold RangesApart at hranges
    omega
  by_cases hnil : t.pairs = []
  · rcases t.bitBltBy_rows (m := m) memcpy ropSrccopy ht hon with
      ⟨-, hafter⟩ | ⟨blit, hclip, -⟩
    · rw [hafter, hnil, List.foldl_nil]
    · have hmem : t.pixels t.cols.first t.rows.first ∈ t.pairs := by
        have hwidth := hclip.width
        have hheight := hclip.height
        have hwide := hclip.wide
        have hhigh := hclip.high
        have hcol := t.cols.visible_add (Int.le_refl 0) (by omega)
        have hrow := t.rows.visible_add (Int.le_refl 0) (by omega)
        rw [Int.add_zero] at hcol hrow
        exact Transfer.mem_pairs.mpr ⟨_, _, ⟨hcol, hrow⟩, rfl⟩
      rw [hnil] at hmem
      cases hmem
  · rw [t.bitBltBy_after memcpy ht hon hnil]
    unfold Transfer.pairs
    rw [List.foldl_flatMap]
    exact List.foldl_ext _ _ _ hrow

/-- The pixels of a transfer are drawn from the lowest to the highest. -/
theorem Transfer.pairs_ascending (ht : t.SumsFit words) :
    t.pairs.Pairwise fun q q' => q.1 < q'.1 := by
  apply List.pairwise_flatMap.mpr
  constructor
  · intro r hr
    apply List.pairwise_map.mpr
    apply Axis.pairwise_steps
    intro j k hj hk hlt
    have hrow := Axis.mem_steps.mp hr
    exact t.pixels_lt ht ⟨hj, hrow⟩ ⟨hk, hrow⟩ (.inr ⟨rfl, by omega⟩)
  · apply Axis.pairwise_steps
    intro r r' hr hr' hlt q hq q' hq'
    obtain ⟨c, hc, rfl⟩ := List.mem_map.mp hq
    obtain ⟨c', hc', rfl⟩ := List.mem_map.mp hq'
    exact t.pixels_lt ht ⟨Axis.mem_steps.mp hc, hr⟩ ⟨Axis.mem_steps.mp hc', hr'⟩ (.inl (by omega))

theorem Axis.Visible.bounds {a : Axis} {k : Int} (h : a.Visible k) : a.first ≤ k ∧ k < a.last := by
  unfold Axis.Visible at h
  unfold Axis.first Axis.last
  omega

theorem Transfer.pixels_from (t : Transfer) (c r : Int) :
    t.pixels c r = ((t.pixels t.cols.first r).1 + (c - t.cols.first),
      (t.pixels t.cols.first r).2 + (c - t.cols.first)) := by
  have hsum : t.cols.first + (c - t.cols.first) = c := by omega
  rw [← t.pixels_add, hsum]

/-- A row overlaps with its source if a pixel is both drawn and read in it. -/
theorem Transfer.rowsApart_iff (t : Transfer) : t.RowsApart ↔
    ∀ c c' r, t.Drawn c r → t.Drawn c' r → (t.pixels c r).1 ≠ (t.pixels c' r).2 := by
  constructor
  · intro hapart c c' r h h' heq
    obtain ⟨hc, hclast⟩ := h.1.bounds
    obtain ⟨hc', hclast'⟩ := h'.1.bounds
    have hranges := hapart r h.2
    rw [t.pixels_from c, t.pixels_from c'] at heq
    unfold RangesApart at hranges
    dsimp only at heq
    omega
  · intro hnone r hr
    apply Classical.byContradiction
    intro hover
    unfold RangesApart at hover
    generalize hd : (t.pixels t.cols.first r).1 = d at hover
    generalize hs : (t.pixels t.cols.first r).2 = s at hover
    -- the first word that both ranges have
    have hpixel := t.pixels_add t.cols.first r (max 0 (s - d))
    have hpixel' := t.pixels_add t.cols.first r (max 0 (d - s))
    apply hnone (t.cols.first + max 0 (s - d)) (t.cols.first + max 0 (d - s)) r
    · exact ⟨t.cols.visible_add (by omega) (by omega), hr⟩
    · exact ⟨t.cols.visible_add (by omega) (by omega), hr⟩
    · rw [hpixel, hpixel', hd, hs]
      dsimp only
      omega

/-- A row that overlaps with its source need not be copied. -/
theorem Transfer.filled (ht : t.SumsFit words) (hon : t.On buf buf) {c r : Int} (h : t.Drawn c r)
    (hover : ¬ RangesApart (t.pixels t.cols.first r).1 (t.pixels t.cols.first r).2
      (t.cols.last - t.cols.first).toNat) (m : PixelMem) :
    (t.bitBltBy memcpyOrFill ropSrccopy).after m buf (t.pixels c r).1 = 1 := by
  have hmem : t.pixels c r ∈ t.pairs := Transfer.mem_pairs.mpr ⟨c, r, h, rfl⟩
  have hpixel : ∀ c r, (t.pixels c r).1 = (t.pixels t.cols.first r).1 + (c - t.cols.first) := by
    intro c r
    rw [t.pixels_from c]
  have hr : ((r.toNat : Nat) : Int) = r := by
    have hlo := h.2.1.1
    omega
  obtain ⟨hc, hclast⟩ := h.1.bounds
  have hset : ∀ m, (t.copyRow memcpyOrFill buf r).after m buf (t.pixels c r).1 = 1 := by
    apply memcpyOrFill_fills hover
    rw [hpixel c r]
    omega
  rw [t.bitBltBy_after memcpyOrFill ht hon (List.ne_nil_of_mem hmem)]
  refine foldl_settles (fun m : PixelMem => m buf (t.pixels c r).1 = 1) ?_ (?_ : r.toNat ∈ _) ?_ m
  · intro r' hr' m hm
    by_cases hsame : (r' : Int) = r
    · rw [hsame]
      exact hset m
    · rw [← hm]
      apply memcpyOrFill_off
      intro hin
      -- the word would be drawn in two rows
      generalize hk : (t.pixels c r).1 - (t.pixels t.cols.first r').1 = k at *
      have hdrawn : t.Drawn (t.cols.first + k) r' :=
        ⟨t.cols.visible_add (by omega) (by omega), Axis.mem_steps.mp hr'⟩
      have heq := hpixel (t.cols.first + k) r'
      rcases Int.lt_or_gt_of_ne hsame with hlt | hgt
      · have hless := t.pixels_lt ht hdrawn h (.inl hlt)
        omega
      · have hless := t.pixels_lt ht h hdrawn (.inl hgt)
        omega
  · exact Axis.mem_steps.mpr (by rw [hr]; exact h.2)
  · intro m
    rw [hr]
    exact hset m

end Overlap

section Results

/-- Both surfaces are rows of one buffer, and no coordinate overflows. -/
structure Transfer.Scrolls (words : Nat → Nat) (t : Transfer) (buf : Nat) : Prop where
  on : t.On buf buf
  pitch : t.src.pitch = t.dst.pitch
  dst : SurfaceFits words t.dst
  src : SurfaceFits words t.src
  small : t.Small

theorem Transfer.Scrolls.sums (h : t.Scrolls words buf) : t.moved.SumsFit words :=
  t.moved_sums h.dst h.src h.small

theorem Transfer.Scrolls.on_moved (h : t.Scrolls words buf) : t.moved.On buf buf :=
  ⟨h.on.dst, h.on.src⟩

theorem Transfer.Scrolls.mem_pairs (h : t.Scrolls words buf) : q ∈ t.moved.pairs ↔
    ∃ i j, t.Copied t.originX t.originY i j ∧
      q = (t.target i j, t.origin t.originX t.originY i j) := by
  rw [Transfer.mem_pairs]
  apply exists_congr
  intro i
  apply exists_congr
  intro j
  rw [t.moved_drawn h.small, t.moved_pixels h.small]

/-- A word that is drawn and read is in one row of the surface. -/
theorem Transfer.Scrolls.same_row (h : t.Scrolls words buf) {dx' dy' i' j' : Int}
    (hin : t.Copied dx dy i j) (hin' : t.Copied dx' dy' i' j')
    (heq : t.target i j = t.origin dx' dy' i' j') :
    t.box.y.toInt + t.originY + j = t.srcY.toInt + dy' + j' := by
  have hright := h.dst.right
  have hright' := h.src.right
  have hstride : t.src.stride = t.dst.stride := by
    unfold GdiDc.stride
    rw [h.pitch]
  obtain ⟨hl, hr, -, -⟩ := hin.target
  obtain ⟨hl', hr', -, -⟩ := hin'.origin
  unfold Transfer.target Transfer.origin GdiDc.pixelAt at heq
  rw [hstride] at heq hright'
  exact (index_inj hl (by omega) hl' (by omega) heq).1

/-- A transfer in order has no row that overlaps with its source. -/
theorem Transfer.Scrolls.rowsApart (h : t.Scrolls words buf) (horder : t.InOrder) :
    t.moved.RowsApart := by
  rw [Transfer.rowsApart_iff]
  intro c c' r hc hc' heq
  rw [t.moved_pixels h.small, t.moved_pixels h.small] at heq
  have hin := (t.moved_drawn h.small).mp hc
  have hin' := (t.moved_drawn h.small).mp hc'
  have hup := horder _ _ _ _ hin hin' heq
  have hrow := h.same_row hin hin' heq
  omega

/-- What is copied is what was there, or what has been drawn there if the source is below. -/
theorem Transfer.Scrolls.copied_after (h : t.Scrolls words buf) (hcopies : memcpy.Copies)
    (hapart : t.moved.RowsApart) (m : PixelMem) (hin : t.Copied t.originX t.originY i j) :
    (t.bitBltBy memcpy ropSrccopy).after m buf (t.target i j) =
      if t.origin t.originX t.originY i j < t.target i j then
        (t.bitBltBy memcpy ropSrccopy).after m buf (t.origin t.originX t.originY i j)
      else m buf (t.origin t.originX t.originY i j) := by
  rw [t.moved_afterBy memcpy ropSrccopy h.on.dst h.on.src,
    t.moved.bitBltBy_apart hcopies h.sums h.on_moved hapart]
  exact blends_ascending (t.moved.pairs_ascending h.sums) (h.mem_pairs.mpr ⟨i, j, hin, rfl⟩)

/-- Nothing else changes. -/
theorem Transfer.Scrolls.rest_after (h : t.Scrolls words buf) (hcopies : memcpy.Copies)
    (hapart : t.moved.RowsApart) (m : PixelMem) {b : Nat} {k : Int}
    (hout : b = buf → ∀ i j, t.Copied t.originX t.originY i j → k ≠ t.target i j) :
    (t.bitBltBy memcpy ropSrccopy).after m b k = m b k := by
  rw [t.moved_afterBy memcpy ropSrccopy h.on.dst h.on.src,
    t.moved.bitBltBy_apart hcopies h.sums h.on_moved hapart]
  by_cases hb : b = buf
  · subst hb
    apply blends_off
    intro q hq
    obtain ⟨i, j, hin, rfl⟩ := h.mem_pairs.mp hq
    exact (hout rfl i j hin).symm
  · rw [blends_other hb]

/-- A transfer in order copies what was there before. -/
theorem Transfer.Scrolls.exact (h : t.Scrolls words buf) (horder : t.InOrder) :
    ScrollsExactly t buf t.originX t.originY := by
  have hapart := h.rowsApart horder
  constructor
  · intro memcpy hcopies m i j hin
    rw [h.copied_after hcopies hapart m hin]
    split
    · next hbelow =>
      apply h.rest_after hcopies hapart
      intro _ i' j' hin' heq
      -- the word is drawn: so the rectangle moves up, and the word is behind its target
      have hup := horder _ _ _ _ hin' hin heq.symm
      have hrow := h.same_row hin' hin heq.symm
      have hlt := t.moved.pixels_lt h.sums ((t.moved_drawn h.small).mpr hin)
        ((t.moved_drawn h.small).mpr hin') (.inl (by omega))
      rw [t.moved_pixels h.small, t.moved_pixels h.small] at hlt
      dsimp only at hlt
      omega
    · rfl
  · exact fun memcpy hcopies m b k hout => h.rest_after hcopies hapart m hout

theorem oneWord_self (b : Nat) (k : Int) : oneWord b k b k = 1 := if_pos ⟨rfl, rfl⟩

theorem eq_of_oneWord {b : Nat} {k k' : Int} (h : oneWord b k b k' = 1) : k' = k := by
  apply Classical.byContradiction
  intro hother
  have hzero : oneWord b k b k' = 0 := if_neg fun hsame => hother hsame.2
  exact absurd (hzero.symm.trans h) (by decide)

/-- What an exact transfer makes of a pixel that is drawn. -/
theorem Transfer.Scrolls.value (h : t.Scrolls words buf) (hexact : ScrollsExactly t buf dx dy)
    (hcopies : memcpy.Copies) (m : PixelMem) (hin : t.Copied t.originX t.originY i j) :
    (t.Copied dx dy i j ∧
        (t.bitBltBy memcpy ropSrccopy).after m buf (t.target i j) = m buf (t.origin dx dy i j)) ∨
      (t.bitBltBy memcpy ropSrccopy).after m buf (t.target i j) = m buf (t.target i j) := by
  by_cases hcopied : t.Copied dx dy i j
  · exact .inl ⟨hcopied, hexact.copied memcpy hcopies m i j hcopied⟩
  · right
    apply hexact.rest memcpy hcopies
    intro _ i' j' hcopied' heq
    obtain ⟨rfl, rfl⟩ := t.target_inj h.dst hin hcopied' heq
    exact hcopied hcopied'

/-- An exact transfer has no row that overlaps with its source: such a row may be filled. -/
theorem Transfer.Scrolls.exact_apart (h : t.Scrolls words buf)
    (hexact : ScrollsExactly t buf dx dy) : t.moved.RowsApart := by
  intro r hr
  apply Classical.byContradiction
  intro hover
  have hwide : 0 < (t.moved.cols.last - t.moved.cols.first).toNat := by
    unfold RangesApart at hover
    omega
  have hcol := t.moved.cols.visible_add (Int.le_refl 0) (by omega)
  rw [Int.add_zero] at hcol
  have hin := (t.moved_drawn h.small).mp ⟨hcol, hr⟩
  have hfilled := t.moved.filled h.sums h.on_moved ⟨hcol, hr⟩ hover fun _ _ => 0
  rw [← t.moved_afterBy memcpyOrFill ropSrccopy h.on.dst h.on.src,
    t.moved_pixels h.small] at hfilled
  rcases h.value hexact memcpyOrFill_copies (fun _ _ => 0) hin with ⟨-, hvalue⟩ | hvalue
  · exact absurd (hfilled.symm.trans hvalue) (by decide)
  · exact absurd (hfilled.symm.trans hvalue) (by decide)

/-- The first pixel that is drawn gets what was there, wherever it comes from. -/
theorem Transfer.Scrolls.first_after (h : t.Scrolls words buf) (hapart : t.moved.RowsApart)
    (hin : t.Copied t.originX t.originY i j) :
    ∃ i' j', t.Copied t.originX t.originY i' j' ∧
      ∀ m, (t.bitBltBy copyPixels ropSrccopy).after m buf (t.target i' j') =
        m buf (t.origin t.originX t.originY i' j') := by
  have hdrawn := (t.moved_drawn h.small).mpr hin
  obtain ⟨hc, hclast⟩ := hdrawn.1.bounds
  obtain ⟨hr, hrlast⟩ := hdrawn.2.bounds
  have hcol := t.moved.cols.visible_add (Int.le_refl 0) (by omega)
  have hrow := t.moved.rows.visible_add (Int.le_refl 0) (by omega)
  rw [Int.add_zero] at hcol hrow
  have hfirst := (t.moved_drawn h.small).mp ⟨hcol, hrow⟩
  refine ⟨_, _, hfirst, fun m => ?_⟩
  rw [h.copied_after copyPixels_copies hapart m hfirst]
  split
  · next hbelow =>
    apply h.rest_after copyPixels_copies hapart
    intro _ i' j' hin' heq
    -- no pixel is drawn below the first one
    have hdrawn' := (t.moved_drawn h.small).mpr hin'
    have hc' := hdrawn'.1.bounds.1
    have hr' := hdrawn'.2.bounds.1
    have hle : t.target t.moved.cols.first t.moved.rows.first ≤ t.target i' j' := by
      by_cases hsame : t.moved.cols.first = i' ∧ t.moved.rows.first = j'
      · obtain ⟨hi, hj⟩ := hsame
        exact Int.le_of_eq (by rw [hi, hj])
      · have hlt := t.moved.pixels_lt h.sums ⟨hcol, hrow⟩ hdrawn' (by omega)
        rw [t.moved_pixels h.small, t.moved_pixels h.small] at hlt
        exact Int.le_of_lt hlt
    omega
  · rfl

/-- The source of an exact transfer that draws anything has moved by the origin. -/
theorem Transfer.Scrolls.exact_origin (h : t.Scrolls words buf)
    (hexact : ScrollsExactly t buf dx dy) (hin : t.Copied t.originX t.originY i j) :
    dx = t.originX ∧ dy = t.originY := by
  have hapart := h.exact_apart hexact
  obtain ⟨i', j', hin', hafter⟩ := h.first_after hapart hin
  have hone := hafter (oneWord buf (t.origin t.originX t.originY i' j'))
  rw [oneWord_self] at hone
  rcases h.value hexact copyPixels_copies _ hin' with ⟨hcopied, hvalue⟩ | hvalue
  · exact t.origin_inj h.src hcopied hin' (eq_of_oneWord (hvalue.symm.trans hone))
  · have hsame := eq_of_oneWord (hvalue.symm.trans hone)
    have hdrawn := (t.moved_drawn h.small).mpr hin'
    have hapart' := (Transfer.rowsApart_iff t.moved).mp hapart _ _ _ hdrawn hdrawn
    rw [t.moved_pixels h.small] at hapart'
    exact absurd hsame hapart'

/-- An exact transfer is in order: otherwise a row is read after it has been drawn over. -/
theorem Transfer.Scrolls.exact_inOrder (h : t.Scrolls words buf)
    (hexact : ScrollsExactly t buf t.originX t.originY) : t.InOrder := by
  have hapart := h.exact_apart hexact
  intro i j i' j' hin hin' heq
  have hrow := h.same_row hin hin' heq
  apply Classical.byContradiction
  intro hdown
  have hdrawn := (t.moved_drawn h.small).mpr hin
  have hdrawn' := (t.moved_drawn h.small).mpr hin'
  by_cases hsame : j = j'
  · subst hsame
    have hapart' := (Transfer.rowsApart_iff t.moved).mp hapart _ _ _ hdrawn hdrawn'
    rw [t.moved_pixels h.small, t.moved_pixels h.small] at hapart'
    exact hapart' heq
  · have hbelow : t.target i j < t.target i' j' := by
      have hlt := t.moved.pixels_lt h.sums hdrawn hdrawn' (.inl (by omega))
      rw [t.moved_pixels h.small, t.moved_pixels h.small] at hlt
      exact hlt
    -- what the later row gets is what the earlier one has got
    have hvalue : ∀ m : PixelMem, m buf (t.target i j) =
        m buf (t.origin t.originX t.originY i j) := by
      intro m
      have hlater := h.copied_after copyPixels_copies hapart m hin'
      rw [hexact.copied copyPixels copyPixels_copies m i' j' hin', ← heq, if_pos hbelow,
        hexact.copied copyPixels copyPixels_copies m i j hin] at hlater
      exact hlater
    have hone := hvalue (oneWord buf (t.target i j))
    rw [oneWord_self] at hone
    have hword := (eq_of_oneWord hone.symm).symm
    have hself := h.same_row hin hin hword
    omega

/-- A transfer that draws nothing is exact if the pixels that are to be copied are where they are to
go. -/
theorem Transfer.Scrolls.exact_none (h : t.Scrolls words buf)
    (hnone : ∀ i j, ¬ t.Copied t.originX t.originY i j) :
    ScrollsExactly t buf dx dy ↔ ∀ i j, t.Copied dx dy i j → t.target i j = t.origin dx dy i j := by
  have horder : t.InOrder := fun i j _ _ hin => absurd hin (hnone i j)
  have hkeep : ∀ memcpy : Memcpy, memcpy.Copies → ∀ m b k,
      (t.bitBltBy memcpy ropSrccopy).after m b k = m b k := fun memcpy hcopies m b k =>
    (h.exact horder).rest memcpy hcopies m b k fun _ i j hin => absurd hin (hnone i j)
  constructor
  · intro hexact i j hin
    have hvalue := hexact.copied copyPixels copyPixels_copies
      (oneWord buf (t.origin dx dy i j)) i j hin
    rw [hkeep copyPixels copyPixels_copies, oneWord_self] at hvalue
    exact eq_of_oneWord hvalue
  · intro hstay
    constructor
    · intro memcpy hcopies m i j hin
      rw [hkeep memcpy hcopies, hstay i j hin]
    · exact fun memcpy hcopies m b k _ => hkeep memcpy hcopies m b k

/-- `SRCCOPY` from a buffer to itself copies what was there before if the source is meant to move
by the origin of the destination, and the rectangle moves up or nothing is both drawn and read; and
else only if nothing is drawn and nothing is to be. -/
theorem gdiBitBlt_scrolls_iff (h : t.Scrolls words buf) : ScrollsExactly t buf dx dy ↔
    dx = t.originX ∧ dy = t.originY ∧ t.InOrder ∨
      (∀ i j, ¬ t.Copied t.originX t.originY i j) ∧
        ∀ i j, t.Copied dx dy i j → t.target i j = t.origin dx dy i j := by
  constructor
  · intro hexact
    by_cases hdrawn : ∃ i j, t.Copied t.originX t.originY i j
    · obtain ⟨i, j, hin⟩ := hdrawn
      obtain ⟨rfl, rfl⟩ := h.exact_origin hexact hin
      exact .inl ⟨rfl, rfl, h.exact_inOrder hexact⟩
    · have hnone : ∀ i j, ¬ t.Copied t.originX t.originY i j := fun i j hin => hdrawn ⟨i, j, hin⟩
      exact .inr ⟨hnone, (h.exact_none hnone).mp hexact⟩
  · rintro (⟨rfl, rfl, horder⟩ | ⟨hnone, hstay⟩)
    · exact h.exact horder
    · exact (h.exact_none hnone).mpr hstay

/-- Two rows of a column of three pixels, moved up or down by one. -/
def scrolling (y srcY : Int32) : Transfer where
  dst := { width := 1, height := 3, pitch := 4, pixels := some 0 }
  src := { width := 1, height := 3, pitch := 4, pixels := some 0 }
  box := ⟨0, y, 1, 2⟩
  srcX := 0
  srcY := srcY

theorem scrolling_up_scrolls : (scrolling 0 1).Scrolls (fun _ => 3) 0 where
  on := ⟨rfl, rfl⟩
  pitch := rfl
  dst := ⟨by decide, by decide, by decide, fun _ _ => by decide, by decide⟩
  src := ⟨by decide, by decide, by decide, fun _ _ => by decide, by decide⟩
  small :=
    { cols := ⟨by decide, by decide, by decide, by decide⟩
      rows := ⟨by decide, by decide, by decide, by decide⟩ }

theorem scrolling_down_scrolls : (scrolling 1 0).Scrolls (fun _ => 3) 0 where
  on := ⟨rfl, rfl⟩
  pitch := rfl
  dst := ⟨by decide, by decide, by decide, fun _ _ => by decide, by decide⟩
  src := ⟨by decide, by decide, by decide, fun _ _ => by decide, by decide⟩
  small :=
    { cols := ⟨by decide, by decide, by decide, by decide⟩
      rows := ⟨by decide, by decide, by decide, by decide⟩ }

theorem gdiBitBlt_scrolls_up : ScrollsExactly (scrolling 0 1) 0 0 0 := by
  apply (gdiBitBlt_scrolls_iff scrolling_up_scrolls).mpr
  exact .inl ⟨by decide, by decide, fun _ _ _ _ _ _ _ => by decide⟩

/-- Moved down, the last row gets what the first one has been copied over. -/
theorem gdiBitBlt_scrolls_down :
    (scrolling 1 0).Scrolls (fun _ => 3) 0 ∧ (scrolling 1 0).Copied 0 0 0 1 ∧
      ((scrolling 1 0).bitBltBy copyPixels ropSrccopy).after (oneWord 0 0) 0 2 = 1 ∧
      ¬ ScrollsExactly (scrolling 1 0) 0 0 0 := by
  have hin : (scrolling 1 0).Copied 0 0 0 1 :=
    ⟨by decide, by decide, by decide, by decide, ⟨by decide, by decide, by decide, by decide⟩,
      ⟨by decide, by decide, by decide, by decide⟩⟩
  have hafter : ((scrolling 1 0).bitBltBy copyPixels ropSrccopy).after (oneWord 0 0) 0 2 = 1 := by
    decide +kernel
  refine ⟨scrolling_down_scrolls, hin, hafter, ?_⟩
  intro hexact
  have hcopied := hexact.copied copyPixels copyPixels_copies (oneWord 0 0) 0 1 hin
  have htarget : (scrolling 1 0).target 0 1 = 2 := by decide
  have horigin : (scrolling 1 0).origin 0 0 0 1 = 1 := by decide
  rw [htarget, horigin, hafter] at hcopied
  exact absurd hcopied (by decide)

end Results

end Wbox.Gdi
