import Wbox.Gdi.HandleTable
import Wbox.Gdi.Objects
import Wbox.Lib.Pool
import Wbox.Lib.Rectangles

/-!
# Regions

A region is one rectangle, and combining regions works on corners (`src/gdi/gdi_drawing.c:729–822`).
The list of rectangles that a region could have is never made and is left out.
-/

namespace Wbox.Gdi

open Wbox.Lib

/-- `gdi_region_t`. -/
structure GdiRegion where
  handle : UInt32 := 0
  bounds : Rect := ⟨0, 0, 0, 0⟩
  rectCount : Int32 := 0
  inUse : Bool := false
  deriving DecidableEq, Repr

instance : PoolObject GdiRegion where
  zero := {}
  inUse := GdiRegion.inUse
  setInUse := fun b rgn => { rgn with inUse := b }
  inUse_setInUse := fun _ _ => rfl

/-- The handle table and the regions. -/
structure RegionState where
  table : GdiHandleTable
  regions : Pool GdiRegion

/-- `NULLREGION`. -/
def nullRegion : Int32 := 1
/-- `SIMPLEREGION`. -/
def simpleRegion : Int32 := 2

/-- `RGN_AND`. -/
def rgnAnd : Int32 := 1
/-- `RGN_OR`. -/
def rgnOr : Int32 := 2
/-- `RGN_COPY`. -/
def rgnCopy : Int32 := 5

/-- The test for an empty rectangle, `gdi_drawing.c:803–807`, `817–821`. -/
def Rect.complexity (rc : Rect) : Int32 :=
  if rc.left ≥ rc.right ∨ rc.top ≥ rc.bottom then nullRegion else simpleRegion

namespace RegionState

/-- The region that a handle denotes. -/
def region (s : RegionState) (hrgn : UInt32) : Option Nat :=
  match gdiGetObject s.table hrgn gdiObjRegion with
  | some (.object a) => some a
  | _ => none

/-- The rectangle of a region. -/
def bounds (s : RegionState) (a : Nat) : Rect := (s.regions.object a).bounds

/-- Store the rectangle of a region. -/
def setBounds (s : RegionState) (a : Nat) (rc : Rect) : RegionState :=
  { s with regions := s.regions.set a { s.regions.object a with bounds := rc } }

end RegionState

/-- `gdi_create_rect_rgn`, `gdi_drawing.c:733–753`; `answer` is what `calloc` has to offer when the
pool is full, and `none` that a freed block would be freed. -/
def gdiCreateRectRgn (s : RegionState) (answer : Option Nat) (left top right bottom : Int32) :
    Option (RegionState × UInt32) :=
  match s.regions.alloc answer with
  | none => some (s, 0)
  | some (regions, a) =>
      let rgn := { regions.object a with bounds := ⟨left, top, right, bottom⟩, rectCount := 1 }
      let regions := regions.set a rgn
      match gdiAllocHandle s.table (some (.object a)) gdiObjRegion with
      | (table, handle) =>
          if handle = 0 then (regions.free a).map fun regions => ({ table, regions }, 0)
          else some ({ table, regions := regions.set a { rgn with handle } }, handle)

/-- `gdi_set_rect_rgn`, `gdi_drawing.c:755–766`. -/
def gdiSetRectRgn (s : RegionState) (hrgn : UInt32) (left top right bottom : Int32) :
    RegionState × Bool :=
  match s.region hrgn with
  | none => (s, false)
  | some a => (s.setBounds a ⟨left, top, right, bottom⟩, true)

/-- The assignments of one case of `gdi_combine_rgn`: the sides are stored one after the other, and
the sources are read again for each of them. -/
def storeSides (leftTop rightBottom : Int32 → Int32 → Int32) (s : RegionState)
    (dest src1 src2 : Nat) : RegionState :=
  let s := s.setBounds dest { s.bounds dest with
    left := leftTop (s.bounds src1).left (s.bounds src2).left }
  let s := s.setBounds dest { s.bounds dest with
    top := leftTop (s.bounds src1).top (s.bounds src2).top }
  let s := s.setBounds dest { s.bounds dest with
    right := rightBottom (s.bounds src1).right (s.bounds src2).right }
  s.setBounds dest { s.bounds dest with
    bottom := rightBottom (s.bounds src1).bottom (s.bounds src2).bottom }

/-- The case `RGN_AND`, `gdi_drawing.c:785–790`. -/
def combineAnd (s : RegionState) (dest src1 src2 : Nat) : RegionState :=
  storeSides (fun v w => if v > w then v else w) (fun v w => if v < w then v else w) s
    dest src1 src2

/-- The case `RGN_OR`, `gdi_drawing.c:792–797`. -/
def combineOr (s : RegionState) (dest src1 src2 : Nat) : RegionState :=
  storeSides (fun v w => if v < w then v else w) (fun v w => if v > w then v else w) s
    dest src1 src2

/-- `gdi_combine_rgn`, `gdi_drawing.c:768–808`. -/
def gdiCombineRgn (s : RegionState) (hrgnDest hrgnSrc1 hrgnSrc2 : UInt32) (mode : Int32) :
    RegionState × Int32 :=
  match s.region hrgnDest, s.region hrgnSrc1 with
  | some dest, some src1 =>
      if mode = rgnCopy then (s.setBounds dest (s.bounds src1), simpleRegion)
      else
        match s.region hrgnSrc2 with
        | none => (s, 0)
        | some src2 =>
            if mode = rgnAnd then
              let s := combineAnd s dest src1 src2
              (s, (s.bounds dest).complexity)
            else if mode = rgnOr then
              let s := combineOr s dest src1 src2
              (s, (s.bounds dest).complexity)
            else (s, 0)
  | _, _ => (s, 0)

/-- `gdi_get_rgn_box`, `gdi_drawing.c:810–822`: the rectangle it stores, and the complexity. -/
def gdiGetRgnBox (s : RegionState) (hrgn : UInt32) : Option Rect × Int32 :=
  match s.region hrgn with
  | none => (none, 0)
  | some a => (some (s.bounds a), (s.bounds a).complexity)

variable {s s' : RegionState} {a b d x : Nat} {hrgn : UInt32}

section Stores

theorem bounds_setBounds (s : RegionState) (a b : Nat) (rc : Rect) :
    (s.setBounds a rc).bounds b = if b = a then rc else s.bounds b := by
  unfold RegionState.bounds RegionState.setBounds
  dsimp only
  rw [Pool.set_object]
  split
  · next h =>
    rw [h, Function.update_self]
  · next h =>
    rw [Function.update_of_ne h]

@[simp] theorem bounds_setBounds_self (s : RegionState) (a : Nat) (rc : Rect) :
    (s.setBounds a rc).bounds a = rc := by
  rw [bounds_setBounds, if_pos rfl]

@[simp] theorem region_setBounds (s : RegionState) (a : Nat) (rc : Rect) (hrgn : UInt32) :
    (s.setBounds a rc).region hrgn = s.region hrgn := rfl

/-- Storing twice in one region is storing the second rectangle. -/
@[simp] theorem setBounds_setBounds (s : RegionState) (a : Nat) (rc rc' : Rect) :
    (s.setBounds a rc).setBounds a rc' = s.setBounds a rc' := by
  unfold RegionState.setBounds
  simp [Pool.set, Function.update_idem]

/-- A region keeps a side that the store at any region, itself included, does not change. -/
theorem side_setBounds {α : Type} (side : Rect → α) {rc : Rect}
    (h : side rc = side (s.bounds d)) (x : Nat) :
    side ((s.setBounds d rc).bounds x) = side (s.bounds x) := by
  rw [bounds_setBounds]
  split
  · next hx =>
    rw [hx, h]
  · rfl

/-- The corners of a rectangle as numbers. -/
def Rect.corners (rc : Rect) : Rectangle Int :=
  ⟨rc.left.toInt, rc.top.toInt, rc.right.toInt, rc.bottom.toInt⟩

theorem toInt_larger (v w : Int32) : (if v > w then v else w).toInt = max v.toInt w.toInt := by
  split
  · next h =>
    exact (max_eq_left (Int32.lt_iff_toInt_lt.mp h).le).symm
  · next h =>
    exact (max_eq_right (Int.not_lt.mp (mt Int32.lt_iff_toInt_lt.mpr h))).symm

theorem toInt_smaller (v w : Int32) : (if v < w then v else w).toInt = min v.toInt w.toInt := by
  split
  · next h =>
    exact (min_eq_left (Int32.lt_iff_toInt_lt.mp h).le).symm
  · next h =>
    exact (min_eq_right (Int.not_lt.mp (mt Int32.lt_iff_toInt_lt.mpr h))).symm

/-- What the assignments leave, whichever of the sources the destination is: no side is read after
it has been stored. -/
theorem storeSides_eq (leftTop rightBottom : Int32 → Int32 → Int32) (s : RegionState)
    (d a b : Nat) : storeSides leftTop rightBottom s d a b = s.setBounds d
      { left := leftTop (s.bounds a).left (s.bounds b).left
        top := leftTop (s.bounds a).top (s.bounds b).top
        right := rightBottom (s.bounds a).right (s.bounds b).right
        bottom := rightBottom (s.bounds a).bottom (s.bounds b).bottom } := by
  unfold storeSides
  dsimp only
  simp only [setBounds_setBounds, bounds_setBounds_self]
  congr 2
  · exact congrArg₂ leftTop (side_setBounds Rect.top (by rfl) a)
      (side_setBounds Rect.top (by rfl) b)
  · exact congrArg₂ rightBottom (side_setBounds Rect.right (by rfl) a)
      (side_setBounds Rect.right (by rfl) b)
  · exact congrArg₂ rightBottom (side_setBounds Rect.bottom (by rfl) a)
      (side_setBounds Rect.bottom (by rfl) b)

/-- `RGN_AND` leaves the common corners. -/
theorem combineAnd_eq (s : RegionState) (d a b : Nat) :
    ∃ rc, combineAnd s d a b = s.setBounds d rc ∧
      rc.corners = (s.bounds a).corners.inner (s.bounds b).corners := by
  refine ⟨_, storeSides_eq _ _ s d a b, ?_⟩
  simp only [Rect.corners, Rectangle.inner, toInt_larger, toInt_smaller]

/-- `RGN_OR` leaves the outer corners. -/
theorem combineOr_eq (s : RegionState) (d a b : Nat) :
    ∃ rc, combineOr s d a b = s.setBounds d rc ∧
      rc.corners = (s.bounds a).corners.outer (s.bounds b).corners := by
  refine ⟨_, storeSides_eq _ _ s d a b, ?_⟩
  simp only [Rect.corners, Rectangle.outer, toInt_larger, toInt_smaller]

end Stores

/-- What combining two regions is meant to leave, as sets of points. -/
def IsCombined (mode : Int32) (first second result : Set (Int × Int)) : Prop :=
  (mode = rgnAnd → result = first ∩ second) ∧
    (mode = rgnOr → Rectangle.IsHull (first ∪ second) result) ∧
    (mode = rgnCopy → result = first)

/-- A call of `gdi_combine_rgn` does what it is meant to do: the points are the combined ones, no
other region changes, and the call returns what `gdi_get_rgn_box` reports afterwards. -/
structure Combines (s : RegionState) (hrgnDest hrgnSrc1 hrgnSrc2 : UInt32) (mode : Int32)
    (d a b : Nat) : Prop where
  points : IsCombined mode (s.bounds a).corners.points (s.bounds b).corners.points
    ((gdiCombineRgn s hrgnDest hrgnSrc1 hrgnSrc2 mode).1.bounds d).corners.points
  others : ∀ x ≠ d, (gdiCombineRgn s hrgnDest hrgnSrc1 hrgnSrc2 mode).1.bounds x = s.bounds x
  complexity : (gdiCombineRgn s hrgnDest hrgnSrc1 hrgnSrc2 mode).2 =
    (gdiGetRgnBox (gdiCombineRgn s hrgnDest hrgnSrc1 hrgnSrc2 mode).1 hrgnDest).2

/-- A region that is copied has points, and no corner of an empty region sticks out of the region
that it is united with. -/
def CombineFits (mode : Int32) (first second : Rectangle Int) : Prop :=
  (mode = rgnCopy → first.Proper) ∧ (mode = rgnOr → first.NoneSticksOut second)

variable {hrgnDest hrgnSrc1 hrgnSrc2 : UInt32} {mode : Int32}

/-- The complexity tells whether there are points. -/
theorem complexity_eq (rc : Rect) :
    rc.complexity = if rc.corners.Proper then simpleRegion else nullRegion := by
  have hle : ∀ v w : Int32, v ≥ w ↔ ¬v.toInt < w.toInt := by
    intro v w
    rw [not_lt]
    exact Int32.le_iff_toInt_le
  unfold Rect.complexity
  by_cases h : rc.corners.Proper
  · rw [if_pos h, if_neg]
    rw [hle, hle]
    rintro (hx | hy)
    · exact hx h.1
    · exact hy h.2
  · rw [if_neg h, if_pos]
    rw [hle, hle]
    exact not_and_or.mp h

/-- What `gdi_get_rgn_box` reports of a region. -/
theorem getRgnBox_setBounds (hd : s.region hrgnDest = some d) (rc : Rect) :
    (gdiGetRgnBox (s.setBounds d rc) hrgnDest).2 = rc.complexity := by
  unfold gdiGetRgnBox
  rw [region_setBounds, hd]
  dsimp only
  rw [bounds_setBounds_self]

theorem copy_eq (hd : s.region hrgnDest = some d) (ha : s.region hrgnSrc1 = some a) :
    gdiCombineRgn s hrgnDest hrgnSrc1 hrgnSrc2 rgnCopy =
      (s.setBounds d (s.bounds a), simpleRegion) := by
  unfold gdiCombineRgn
  rw [hd, ha]
  rfl

theorem and_eq (hd : s.region hrgnDest = some d) (ha : s.region hrgnSrc1 = some a)
    (hb : s.region hrgnSrc2 = some b) : ∃ rc,
      gdiCombineRgn s hrgnDest hrgnSrc1 hrgnSrc2 rgnAnd = (s.setBounds d rc, rc.complexity) ∧
        rc.corners = (s.bounds a).corners.inner (s.bounds b).corners := by
  obtain ⟨rc, hrc, hcorners⟩ := combineAnd_eq s d a b
  refine ⟨rc, ?_, hcorners⟩
  unfold gdiCombineRgn
  rw [hd, ha, hb]
  show (combineAnd s d a b, ((combineAnd s d a b).bounds d).complexity) = _
  rw [hrc, bounds_setBounds_self]

theorem or_eq (hd : s.region hrgnDest = some d) (ha : s.region hrgnSrc1 = some a)
    (hb : s.region hrgnSrc2 = some b) : ∃ rc,
      gdiCombineRgn s hrgnDest hrgnSrc1 hrgnSrc2 rgnOr = (s.setBounds d rc, rc.complexity) ∧
        rc.corners = (s.bounds a).corners.outer (s.bounds b).corners := by
  obtain ⟨rc, hrc, hcorners⟩ := combineOr_eq s d a b
  refine ⟨rc, ?_, hcorners⟩
  unfold gdiCombineRgn
  rw [hd, ha, hb]
  show (combineOr s d a b, ((combineOr s d a b).bounds d).complexity) = _
  rw [hrc, bounds_setBounds_self]

/-- A call that stores one rectangle in the destination. -/
theorem combines_iff {rc : Rect} {ret : Int32} (hd : s.region hrgnDest = some d)
    (h : gdiCombineRgn s hrgnDest hrgnSrc1 hrgnSrc2 mode = (s.setBounds d rc, ret)) :
    Combines s hrgnDest hrgnSrc1 hrgnSrc2 mode d a b ↔
      IsCombined mode (s.bounds a).corners.points (s.bounds b).corners.points rc.corners.points ∧
        ret = rc.complexity := by
  constructor
  · intro hc
    have hp := hc.points
    have hr := hc.complexity
    rw [h] at hp hr
    dsimp only at hp hr
    rw [bounds_setBounds_self] at hp
    rw [getRgnBox_setBounds hd] at hr
    exact ⟨hp, hr⟩
  · rintro ⟨hp, hr⟩
    refine ⟨?_, ?_, ?_⟩
    · rw [h]
      dsimp only
      rw [bounds_setBounds_self]
      exact hp
    · intro x hx
      rw [h]
      dsimp only
      rw [bounds_setBounds, if_neg hx]
    · rw [h]
      dsimp only
      rw [getRgnBox_setBounds hd]
      exact hr

/-- Combining regions works as meant, for any regions and whichever of them are the same, exactly if
a region that is copied is not empty and an empty region that is united does not stick out. -/
theorem combineRgn_iff (hd : s.region hrgnDest = some d) (ha : s.region hrgnSrc1 = some a)
    (hb : mode ≠ rgnCopy → s.region hrgnSrc2 = some b)
    (hmode : mode = rgnAnd ∨ mode = rgnOr ∨ mode = rgnCopy) :
    Combines s hrgnDest hrgnSrc1 hrgnSrc2 mode d a b ↔
      CombineFits mode (s.bounds a).corners (s.bounds b).corners := by
  rcases hmode with rfl | rfl | rfl
  · obtain ⟨rc, hcall, hcorners⟩ := and_eq hd ha (hb (by decide))
    rw [combines_iff hd hcall, hcorners, Rectangle.points_inner]
    have hor : rgnAnd ≠ rgnOr := by decide
    have hcopy : rgnAnd ≠ rgnCopy := by decide
    exact ⟨fun _ => ⟨fun h => absurd h hcopy, fun h => absurd h hor⟩,
      fun _ => ⟨⟨fun _ => rfl, fun h => absurd h hor, fun h => absurd h hcopy⟩, rfl⟩⟩
  · obtain ⟨rc, hcall, hcorners⟩ := or_eq hd ha (hb (by decide))
    rw [combines_iff hd hcall, hcorners]
    constructor
    · rintro ⟨⟨-, hor, -⟩, -⟩
      exact ⟨fun h => absurd h (by decide), fun _ => Rectangle.isHull_outer_iff.mp (hor rfl)⟩
    · rintro ⟨-, hor⟩
      exact ⟨⟨fun h => absurd h (by decide), fun _ => Rectangle.isHull_outer_iff.mpr (hor rfl),
        fun h => absurd h (by decide)⟩, rfl⟩
  · rw [combines_iff hd (copy_eq hd ha), complexity_eq]
    constructor
    · rintro ⟨-, hret⟩
      refine ⟨fun _ => ?_, fun h => absurd h (by decide)⟩
      by_contra hempty
      rw [if_neg hempty] at hret
      exact absurd hret (by decide)
    · rintro ⟨hcopy, -⟩
      rw [if_pos (hcopy rfl)]
      exact ⟨⟨fun h => absurd h (by decide), fun h => absurd h (by decide), fun _ => rfl⟩, rfl⟩

/-- Three regions: a square, an empty region away from it, and one for the result. -/
def threeRegions : RegionState :=
  let empty : RegionState := { table := gdiHandleTableInit, regions := Pool.init 128 }
  let made := do
    let (s, _) ← gdiCreateRectRgn empty none 0 0 10 10
    let (s, _) ← gdiCreateRectRgn s none 100 100 100 100
    let (s, _) ← gdiCreateRectRgn s none 0 0 0 0
    return s
  made.getD empty

/-- Their handles. -/
theorem threeRegions_region :
    threeRegions.region 0x01040001 = some 0 ∧ threeRegions.region 0x01040002 = some 1 ∧
      threeRegions.region 0x01040003 = some 2 := by
  decide +kernel

theorem threeRegions_bounds :
    threeRegions.bounds 0 = ⟨0, 0, 10, 10⟩ ∧ threeRegions.bounds 1 = ⟨100, 100, 100, 100⟩ := by
  decide +kernel

theorem combineRgn_iff_square :
    Combines threeRegions 0x01040003 0x01040001 0x01040002 rgnAnd 2 0 1 := by
  obtain ⟨h₁, h₂, h₃⟩ := threeRegions_region
  exact (combineRgn_iff h₃ h₁ (fun _ => h₂) (.inl rfl)).mpr
    ⟨fun h => absurd h (by decide), fun h => absurd h (by decide)⟩

/-- United with an empty region away from it, the square grows to the empty region. -/
theorem combineRgn_grows :
    threeRegions.region 0x01040003 = some 2 ∧ threeRegions.region 0x01040001 = some 0 ∧
      threeRegions.region 0x01040002 = some 1 ∧
      (gdiCombineRgn threeRegions 0x01040003 0x01040001 0x01040002 rgnOr).1.bounds 2 =
        ⟨0, 0, 100, 100⟩ ∧
      ¬Combines threeRegions 0x01040003 0x01040001 0x01040002 rgnOr 2 0 1 := by
  obtain ⟨h₁, h₂, h₃⟩ := threeRegions_region
  refine ⟨h₃, h₁, h₂, by decide +kernel, ?_⟩
  intro h
  have hbounds : (gdiCombineRgn threeRegions 0x01040003 0x01040001 0x01040002 rgnOr).1.bounds 2 =
      ⟨0, 0, 100, 100⟩ := by decide +kernel
  have hhull := h.points.2.1 rfl
  rw [hbounds, threeRegions_bounds.1, threeRegions_bounds.2,
    Rectangle.points_eq_empty (r := Rect.corners ⟨100, 100, 100, 100⟩) (by decide),
    Set.union_empty] at hhull
  -- The point is far from the square, and the smallest rectangle around the square is the square.
  have hpoint : ((50 : Int), (50 : Int)) ∈ (Rect.corners ⟨0, 0, 10, 10⟩).points := by
    rw [(Rectangle.isHull_self _).unique hhull]
    exact ⟨⟨by decide, by decide⟩, by decide, by decide⟩
  exact absurd hpoint.1.2 (by decide)

end Wbox.Gdi
