import Mathlib.Order.Bounds.Basic
import Mathlib.Order.Interval.Set.LinearOrder
import Mathlib.Data.Set.Prod

/-!
# Rectangles and the points in them

Rectangles by their corners, half open, over a linear order. Corners in the wrong order make an
empty rectangle, and corner-wise operations see the corners also of these: the common corners are
those of the common points, the outer corners are those of the smallest rectangle around both only
if no corner of an empty rectangle sticks out.
-/

namespace Wbox.Lib

/-- A rectangle by its corners. -/
structure Rectangle (α : Type) where
  left : α
  top : α
  right : α
  bottom : α

namespace Rectangle

variable {α : Type} [LinearOrder α] {r s t : Rectangle α}

/-- The points in a rectangle. -/
def points (r : Rectangle α) : Set (α × α) := Set.Ico r.left r.right ×ˢ Set.Ico r.top r.bottom

/-- The corners are in order. -/
def Proper (r : Rectangle α) : Prop := r.left < r.right ∧ r.top < r.bottom

instance (r : Rectangle α) : Decidable r.Proper := inferInstanceAs (Decidable (_ ∧ _))

/-- No corner lies outside the corners of another rectangle. -/
def Within (r s : Rectangle α) : Prop :=
  (s.left ≤ r.left ∧ r.right ≤ s.right) ∧ s.top ≤ r.top ∧ r.bottom ≤ s.bottom

/-- The common corners. -/
def inner (r s : Rectangle α) : Rectangle α :=
  ⟨max r.left s.left, max r.top s.top, min r.right s.right, min r.bottom s.bottom⟩

/-- The outer corners. -/
def outer (r s : Rectangle α) : Rectangle α :=
  ⟨min r.left s.left, min r.top s.top, max r.right s.right, max r.bottom s.bottom⟩

/-- A set of points is the smallest rectangle around others. -/
def IsHull (around hull : Set (α × α)) : Prop :=
  IsLeast {p | (∃ r : Rectangle α, r.points = p) ∧ around ⊆ p} hull

/-- In one direction every right side lies before every left side. -/
def Reversed (r s : Rectangle α) : Prop :=
  max r.right s.right ≤ min r.left s.left ∨ max r.bottom s.bottom ≤ min r.top s.top

/-- The corners of an empty rectangle do not stick out of the other one. -/
structure NoneSticksOut (r s : Rectangle α) : Prop where
  first : ¬r.Proper → s.Proper → r.Within s
  second : r.Proper → ¬s.Proper → s.Within r
  both : ¬r.Proper → ¬s.Proper → r.Reversed s

theorem points_nonempty : r.points.Nonempty ↔ r.Proper := by
  rw [points, Set.prod_nonempty_iff, Set.nonempty_Ico, Set.nonempty_Ico]
  exact Iff.rfl

theorem points_eq_empty (h : ¬r.Proper) : r.points = ∅ :=
  Set.not_nonempty_iff_eq_empty.mp (mt points_nonempty.mp h)

/-- The points of a rectangle with corners in order tell its corners. -/
theorem points_subset_iff (h : r.Proper) : r.points ⊆ s.points ↔ r.Within s := by
  unfold points Within
  constructor
  · intro hsub
    rcases Set.prod_subset_prod_iff.mp hsub with ⟨hx, hy⟩ | hx | hy
    · exact ⟨(Set.Ico_subset_Ico_iff h.1).mp hx, (Set.Ico_subset_Ico_iff h.2).mp hy⟩
    · exact absurd hx (Set.nonempty_Ico.mpr h.1).ne_empty
    · exact absurd hy (Set.nonempty_Ico.mpr h.2).ne_empty
  · rintro ⟨hx, hy⟩
    exact Set.prod_mono ((Set.Ico_subset_Ico_iff h.1).mpr hx) ((Set.Ico_subset_Ico_iff h.2).mpr hy)

/-- Between the common corners are the common points, whatever order the corners are in. -/
theorem points_inner (r s : Rectangle α) : (r.inner s).points = r.points ∩ s.points := by
  unfold points inner
  rw [Set.prod_inter_prod, Set.Ico_inter_Ico, Set.Ico_inter_Ico]

theorem within_outer_left (r s : Rectangle α) : r.Within (r.outer s) :=
  ⟨⟨min_le_left _ _, le_max_left _ _⟩, min_le_left _ _, le_max_left _ _⟩

theorem within_outer_right (r s : Rectangle α) : s.Within (r.outer s) :=
  ⟨⟨min_le_right _ _, le_max_right _ _⟩, min_le_right _ _, le_max_right _ _⟩

theorem outer_within (hr : r.Within t) (hs : s.Within t) : (r.outer s).Within t :=
  ⟨⟨le_min hr.1.1 hs.1.1, max_le hr.1.2 hs.1.2⟩, le_min hr.2.1 hs.2.1, max_le hr.2.2 hs.2.2⟩

theorem Within.proper (h : r.Within s) (hr : r.Proper) : s.Proper :=
  ⟨h.1.1.trans_lt (hr.1.trans_le h.1.2), h.2.1.trans_lt (hr.2.trans_le h.2.2)⟩

theorem Within.points_subset (h : r.Within s) : r.points ⊆ s.points := by
  by_cases hr : r.Proper
  · exact (points_subset_iff hr).mpr h
  · rw [points_eq_empty hr]
    exact Set.empty_subset _

/-- The outer corners are in order unless all sides are reversed in one direction. -/
theorem outer_proper : (r.outer s).Proper ↔ ¬r.Reversed s := by
  unfold Proper Reversed outer
  rw [not_or, not_le, not_le]

/-- A rectangle is the smallest one around its own points. -/
theorem isHull_self (r : Rectangle α) : IsHull r.points r.points :=
  ⟨⟨⟨r, rfl⟩, Set.Subset.rfl⟩, fun _ hp => hp.2⟩

/-- There is one smallest rectangle. -/
theorem IsHull.unique {around hull hull' : Set (α × α)} (h : IsHull around hull)
    (h' : IsHull around hull') : hull = hull' :=
  IsLeast.unique h h'

/-- The outer corners of two rectangles with points in them. -/
theorem isHull_outer (hr : r.Proper) (hs : s.Proper) :
    IsHull (r.points ∪ s.points) (r.outer s).points := by
  refine ⟨⟨⟨r.outer s, rfl⟩, Set.union_subset (within_outer_left r s).points_subset
    (within_outer_right r s).points_subset⟩, ?_⟩
  rintro p ⟨⟨t, rfl⟩, hsub⟩
  obtain ⟨hrt, hst⟩ := Set.union_subset_iff.mp hsub
  exact (outer_within ((points_subset_iff hr).mp hrt) ((points_subset_iff hs).mp hst)).points_subset

/-- An outer rectangle of an empty one is the other one if nothing sticks out. -/
theorem points_outer_eq_right (hs : s.Proper) : (r.outer s).points = s.points ↔ r.Within s := by
  have hproper : (r.outer s).Proper := (within_outer_right r s).proper hs
  constructor
  · intro h
    have hin := (points_subset_iff hproper).mp h.le
    have hr := within_outer_left r s
    exact ⟨⟨hin.1.1.trans hr.1.1, hr.1.2.trans hin.1.2⟩, hin.2.1.trans hr.2.1,
      hr.2.2.trans hin.2.2⟩
  · intro h
    exact (outer_within h ⟨⟨le_refl _, le_refl _⟩, le_refl _, le_refl _⟩).points_subset.antisymm
      (within_outer_right r s).points_subset

theorem outer_comm (r s : Rectangle α) : r.outer s = s.outer r := by
  unfold outer
  rw [min_comm, min_comm r.top, max_comm, max_comm r.bottom]

theorem points_outer_eq_left (hr : r.Proper) : (r.outer s).points = r.points ↔ s.Within r := by
  rw [outer_comm]
  exact points_outer_eq_right hr

/-- The outer corners are those of the smallest rectangle around both exactly if no corner of an
empty one sticks out. -/
theorem isHull_outer_iff :
    IsHull (r.points ∪ s.points) (r.outer s).points ↔ r.NoneSticksOut s := by
  by_cases hr : r.Proper
  · by_cases hs : s.Proper
    · exact ⟨fun _ => ⟨fun h => absurd hr h, fun _ h => absurd hs h, fun h => absurd hr h⟩,
        fun _ => isHull_outer hr hs⟩
    · rw [points_eq_empty hs, Set.union_empty]
      have heq : IsHull r.points (r.outer s).points ↔ s.Within r := by
        rw [← points_outer_eq_left hr]
        exact ⟨fun h => h.unique (isHull_self r), fun h => h ▸ isHull_self r⟩
      rw [heq]
      exact ⟨fun h => ⟨fun h' => absurd hr h', fun _ _ => h, fun h' => absurd hr h'⟩,
        fun h => h.second hr hs⟩
  · by_cases hs : s.Proper
    · rw [points_eq_empty hr, Set.empty_union]
      have heq : IsHull s.points (r.outer s).points ↔ r.Within s := by
        rw [← points_outer_eq_right hs]
        exact ⟨fun h => h.unique (isHull_self s), fun h => h ▸ isHull_self s⟩
      rw [heq]
      exact ⟨fun h => ⟨fun _ _ => h, fun h' => absurd h' hr, fun _ h' => absurd hs h'⟩,
        fun h => h.first hr hs⟩
    · rw [points_eq_empty hr, points_eq_empty hs, Set.union_empty]
      have heq : IsHull ∅ (r.outer s).points ↔ r.Reversed s := by
        have hempty : IsHull (∅ : Set (α × α)) ∅ := by
          have h := isHull_self r
          rw [points_eq_empty hr] at h
          exact h
        rw [← not_iff_not, ← outer_proper, ← points_nonempty, Set.nonempty_iff_ne_empty]
        exact not_congr ⟨fun h => h.unique hempty, fun h => h ▸ hempty⟩
      rw [heq]
      exact ⟨fun h => ⟨fun _ h' => absurd h' hs, fun h' => absurd h' hr, fun _ _ => h⟩,
        fun h => h.both hr hs⟩

end Rectangle

end Wbox.Lib
