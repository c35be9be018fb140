import Wbox.Gdi.Drawing
import Wbox.Lib.Bits

/-!
# Raster operations

`gdi_apply_rop3` looks up each bit of a pixel in the code of a raster operation, at an index built
with the destination in the place that the codes give to the pattern
(`src/gdi/gdi_drawing.c:93–113`). What it makes of the codes that `gdi_pat_blt` and `gdi_bit_blt`
have branches of their own for, and where those branches agree with it on the colour of a pixel.
-/

namespace Wbox.Gdi

open Wbox.Lib

/-- The colour of a pixel, without its alpha. -/
def colour (pixel : UInt32) : UInt32 := pixel &&& 0xFFFFFF

variable {dst src pat rop v w : UInt32} {k : Nat}

theorem bit_colour (hk : k < 32) : bit (colour v) k = (bit v k && decide (k < 24)) := by
  have hmask : ∀ k < 32, bit 0xFFFFFF k = decide (k < 24) := by decide
  unfold colour
  rw [bit_and, hmask k hk]

theorem colour_eq_iff : colour v = colour w ↔ ∀ k < 24, bit v k = bit w k := by
  constructor
  · intro heq k hk
    have hbit : bit (colour v) k = bit (colour w) k := by rw [heq]
    rw [bit_colour (by omega), bit_colour (by omega), decide_eq_true hk] at hbit
    rw [Bool.and_true, Bool.and_true] at hbit
    exact hbit
  · intro hbits
    apply bit_ext
    intro k hk
    rw [bit_colour hk, bit_colour hk]
    by_cases hlow : k < 24
    · rw [hbits k hlow]
    · rw [decide_eq_false hlow, Bool.and_false, Bool.and_false]

theorem colour_eq_zero_iff : colour v = 0 ↔ ∀ k < 24, bit v k = false := by
  have hzero : colour 0 = 0 := by decide
  rw [← hzero, colour_eq_iff]
  simp only [bit_zero]

/-- Alpha is no part of the colour. -/
theorem colour_alpha (v : UInt32) : colour (v ||| 0xFF000000) = colour v := by
  have halpha : ∀ k < 24, bit 0xFF000000 k = false := by decide
  apply colour_eq_iff.mpr
  intro k hk
  rw [bit_or, halpha k hk, Bool.or_false]

section Table

/-- The place of three bits in the code of a raster operation, `gdi_drawing.c:106`. -/
def rop3Index (d s p : Bool) : Nat := 4 * d.toNat + 2 * s.toNat + p.toNat

/-- Each bit is looked up in the code. -/
theorem bit_applyRop3 (dst src pat rop : UInt32) (hk : k < 32) :
    bit (gdiApplyRop3 dst src pat rop) k =
      bit (rop >>> 16 &&& 0xFF) (rop3Index (bit dst k) (bit src k) (bit pat k)) := by
  unfold gdiApplyRop3
  dsimp only
  rw [bit_setBits _ (Nat.le_refl 32)]
  simp only [hk, true_and, and_mask_ne_zero _ hk]
  have hindex : ∀ d s p : Bool, (if d = true then (1 : UInt32) else 0) <<< 2 |||
      (if s = true then (1 : UInt32) else 0) <<< 1 ||| (if p = true then (1 : UInt32) else 0) =
      UInt32.ofNat (rop3Index d s p) := by decide
  have hlt : ∀ d s p : Bool, rop3Index d s p < 32 := by decide
  rw [hindex, Bool.eq_iff_iff, decide_eq_true_iff]
  exact and_mask_ne_zero _ (hlt _ _ _)

/-- What an operation does is told by its code. -/
theorem applyRop3_eq {f : Bool → Bool → Bool → Bool}
    (hcode : ∀ d s p, bit (rop >>> 16 &&& 0xFF) (rop3Index d s p) = f d s p)
    (hw : ∀ k < 32, bit w k = f (bit dst k) (bit src k) (bit pat k)) :
    gdiApplyRop3 dst src pat rop = w := by
  apply bit_ext
  intro k hk
  rw [bit_applyRop3 _ _ _ _ hk, hcode, hw k hk]

theorem applyRop3_srccopy : gdiApplyRop3 dst src pat ropSrccopy = src :=
  applyRop3_eq (f := fun _ s _ => s) (by decide) fun _ _ => rfl

theorem applyRop3_srcand : gdiApplyRop3 dst src pat ropSrcand = src &&& pat :=
  applyRop3_eq (f := fun _ s p => s && p) (by decide) fun k _ => bit_and src pat k

theorem applyRop3_srcpaint : gdiApplyRop3 dst src pat ropSrcpaint = src ||| pat :=
  applyRop3_eq (f := fun _ s p => s || p) (by decide) fun k _ => bit_or src pat k

theorem applyRop3_srcinvert : gdiApplyRop3 dst src pat ropSrcinvert = src ^^^ pat :=
  applyRop3_eq (f := fun _ s p => s ^^ p) (by decide) fun k _ => bit_xor src pat k

theorem applyRop3_patcopy : gdiApplyRop3 dst src pat ropPatcopy = dst :=
  applyRop3_eq (f := fun d _ _ => d) (by decide) fun _ _ => rfl

theorem applyRop3_patinvert : gdiApplyRop3 dst src pat ropPatinvert = dst ^^^ pat :=
  applyRop3_eq (f := fun d _ p => d ^^ p) (by decide) fun k _ => bit_xor dst pat k

theorem applyRop3_dstinvert : gdiApplyRop3 dst src pat ropDstinvert = ~~~pat :=
  applyRop3_eq (f := fun _ _ p => !p) (by decide) fun _ hk => bit_not pat hk

theorem applyRop3_blackness : gdiApplyRop3 dst src pat ropBlackness = 0 :=
  applyRop3_eq (f := fun _ _ _ => false) (by decide) fun k _ => bit_zero k

theorem applyRop3_whiteness : gdiApplyRop3 dst src pat ropWhiteness = 0xFFFFFFFF :=
  applyRop3_eq (f := fun _ _ _ => true) (by decide) (by decide)

end Table

section Agreement

/-- Where a branch of `gdi_bit_blt` agrees with `gdi_apply_rop3`. -/
def BitBltAgrees (rop pat dst src : UInt32) : Prop :=
  if rop = ropSrcand then colour ((dst ^^^ pat) &&& src) = 0
  else if rop = ropSrcpaint then colour ((dst ^^^ pat) &&& ~~~src) = 0
  else if rop = ropSrcinvert then colour dst = colour pat
  else True

/-- Where a branch of `gdi_pat_blt` does. -/
def PatBltAgrees (rop pat dst : UInt32) : Prop :=
  rop = ropPatcopy ∨ rop = ropDstinvert → colour dst = colour pat

/-- Colours that differ in the bits of a word. -/
theorem colour_eq_iff_diff {diff : UInt32}
    (h : ∀ k < 32, (bit v k = bit w k ↔ bit diff k = false)) :
    colour v = colour w ↔ colour diff = 0 := by
  rw [colour_eq_iff, colour_eq_zero_iff]
  constructor
  · exact fun heq k hk => (h k (by omega)).mp (heq k hk)
  · exact fun hzero k hk => (h k (by omega)).mpr (hzero k hk)

theorem srcand_agrees_iff :
    colour (dst &&& src) = colour (src &&& pat) ↔ colour ((dst ^^^ pat) &&& src) = 0 := by
  apply colour_eq_iff_diff
  intro k _
  rw [bit_and, bit_and, bit_and, bit_xor]
  cases bit dst k <;> cases bit src k <;> cases bit pat k <;> decide

theorem srcpaint_agrees_iff :
    colour (dst ||| src) = colour (src ||| pat) ↔ colour ((dst ^^^ pat) &&& ~~~src) = 0 := by
  apply colour_eq_iff_diff
  intro k hk
  rw [bit_or, bit_or, bit_and, bit_xor, bit_not _ hk]
  cases bit dst k <;> cases bit src k <;> cases bit pat k <;> decide

theorem srcinvert_agrees_iff :
    colour (dst ^^^ src) = colour (src ^^^ pat) ↔ colour dst = colour pat := by
  rw [colour_eq_iff, colour_eq_iff]
  apply forall₂_congr
  intro k _
  rw [bit_xor, bit_xor]
  cases bit dst k <;> cases bit src k <;> cases bit pat k <;> decide

theorem dstinvert_agrees_iff : colour (~~~dst) = colour (~~~pat) ↔ colour dst = colour pat := by
  rw [colour_eq_iff, colour_eq_iff]
  apply forall₂_congr
  intro k hk
  rw [bit_not _ (by omega), bit_not _ (by omega), Bool.not_inj_iff]

/-- The branches of `gdi_bit_blt`. -/
theorem bitBltPixel_agrees_iff (rop pat dst src : UInt32) :
    colour (bitBltPixel rop pat dst src) = colour (gdiApplyRop3 dst src pat rop) ↔
      BitBltAgrees rop pat dst src := by
  unfold bitBltPixel BitBltAgrees
  by_cases hcopy : rop = ropSrccopy
  · subst hcopy
    have hagrees : BitBltAgrees ropSrccopy pat dst src := trivial
    rw [if_pos rfl, applyRop3_srccopy]
    exact iff_of_true rfl hagrees
  rw [if_neg hcopy]
  by_cases hand : rop = ropSrcand
  · subst hand
    rw [if_pos rfl, if_pos rfl, colour_alpha, applyRop3_srcand]
    exact srcand_agrees_iff
  rw [if_neg hand, if_neg hand]
  by_cases hpaint : rop = ropSrcpaint
  · subst hpaint
    rw [if_pos rfl, if_pos rfl, colour_alpha, applyRop3_srcpaint]
    exact srcpaint_agrees_iff
  rw [if_neg hpaint, if_neg hpaint]
  by_cases hinvert : rop = ropSrcinvert
  · subst hinvert
    rw [if_pos rfl, if_pos rfl, colour_alpha, applyRop3_srcinvert]
    exact srcinvert_agrees_iff
  rw [if_neg hinvert, if_neg hinvert]
  exact iff_of_true rfl trivial

/-- The operations that `gdi_pat_blt` has a branch for. -/
def patBltRops : List UInt32 :=
  [ropBlackness, ropWhiteness, ropPatcopy, ropPatinvert, ropDstinvert]

/-- The branches of `gdi_pat_blt`; for the others the source is 0. -/
theorem patBltPixel_agrees_iff (rop pat dst : UInt32) (hsrc : rop ∈ patBltRops ∨ src = 0) :
    colour (patBltPixel rop pat dst) = colour (gdiApplyRop3 dst src pat rop) ↔
      PatBltAgrees rop pat dst := by
  unfold patBltPixel PatBltAgrees
  by_cases hblack : rop = ropBlackness
  · subst hblack
    rw [if_pos rfl, applyRop3_blackness]
    exact iff_of_true (by decide) fun h => absurd h (by decide)
  rw [if_neg hblack]
  by_cases hwhite : rop = ropWhiteness
  · subst hwhite
    rw [if_pos rfl, applyRop3_whiteness]
    exact iff_of_true rfl fun h => absurd h (by decide)
  rw [if_neg hwhite]
  by_cases hcopy : rop = ropPatcopy
  · subst hcopy
    rw [if_pos rfl, applyRop3_patcopy, eq_comm]
    exact ⟨fun heq _ => heq, fun h => h (.inl rfl)⟩
  rw [if_neg hcopy]
  by_cases hinvert : rop = ropPatinvert
  · subst hinvert
    rw [if_pos rfl, colour_alpha, applyRop3_patinvert]
    exact iff_of_true rfl fun h => absurd h (by decide)
  rw [if_neg hinvert]
  by_cases hdst : rop = ropDstinvert
  · subst hdst
    rw [if_pos rfl, colour_alpha, applyRop3_dstinvert, dstinvert_agrees_iff]
    exact ⟨fun heq _ => heq, fun h => h (.inr rfl)⟩
  rw [if_neg hdst]
  have hzero : src = 0 := by
    apply hsrc.resolve_left
    intro hmem
    simp only [patBltRops, List.mem_cons, List.not_mem_nil, hblack, hwhite, hcopy, hinvert, hdst,
      or_self] at hmem
  rw [hzero]
  exact iff_of_true rfl fun h => (h.elim hcopy hdst).elim

end Agreement

end Wbox.Gdi
