import Mathlib.Data.List.Basic
import Mathlib.Data.List.Induction
import Mathlib.Data.List.Nodup

/-!
# Visiting a list, nothing twice

A pass over a list visits what a test lets through and has not been visited before. Every such
element is visited once, in the order of the first occurrences.
-/

namespace Wbox.Lib

variable {α : Type} [DecidableEq α] {p : α → Bool} {order visited : List α} {a b x : α}

/-- Visit an element unless the test or an earlier visit stops it. -/
def visit (p : α → Bool) (visited : List α) (x : α) : List α :=
  if p x = true ∧ x ∉ visited then visited ++ [x] else visited

/-- The visits of a pass. -/
def visits (p : α → Bool) (order : List α) : List α := order.foldl (visit p) []

/-- One element is before another one. -/
def Precedes (l : List α) (a b : α) : Prop := ∃ front back, l = front ++ b :: back ∧ a ∈ front

@[simp] theorem visits_nil (p : α → Bool) : visits p [] = [] := rfl

theorem visits_append_singleton (p : α → Bool) (order : List α) (x : α) :
    visits p (order ++ [x]) = visit p (visits p order) x := by
  unfold visits
  rw [List.foldl_append, List.foldl_cons, List.foldl_nil]

/-- What is visited is in the list and passes the test. -/
theorem mem_visits_iff : x ∈ visits p order ↔ x ∈ order ∧ p x = true := by
  induction order using List.reverseRecOn with
  | nil => simp
  | append_singleton order y ih =>
    rw [visits_append_singleton, visit]
    split
    · next hy =>
      simp only [List.mem_append, List.mem_singleton, ih]
      constructor
      · rintro (⟨hx, hp⟩ | rfl)
        · exact ⟨Or.inl hx, hp⟩
        · exact ⟨Or.inr rfl, hy.1⟩
      · rintro ⟨hx | rfl, hp⟩
        · exact Or.inl ⟨hx, hp⟩
        · exact Or.inr rfl
    · next hy =>
      simp only [List.mem_append, List.mem_singleton, ih]
      constructor
      · intro ⟨hx, hp⟩
        exact ⟨Or.inl hx, hp⟩
      · rintro ⟨hx | rfl, hp⟩
        · exact ⟨hx, hp⟩
        · exact ih.mp (Classical.not_not.mp fun hnot => hy ⟨hp, hnot⟩)

theorem nodup_visits (p : α → Bool) (order : List α) : (visits p order).Nodup := by
  induction order using List.reverseRecOn with
  | nil => exact List.nodup_nil
  | append_singleton order y ih =>
    rw [visits_append_singleton, visit]
    split
    · next hy =>
      rw [← List.concat_eq_append]
      exact ih.concat hy.2
    · exact ih

/-- What passes the test is visited once, if it is in the list at all. -/
theorem count_visits (p : α → Bool) (order : List α) (x : α) :
    (visits p order).count x = if x ∈ order ∧ p x = true then 1 else 0 := by
  split
  · next hx => exact List.count_eq_one_of_mem (nodup_visits p order) (mem_visits_iff.mpr hx)
  · next hx => exact List.count_eq_zero_of_not_mem fun hmem => hx (mem_visits_iff.mp hmem)

/-- The visits come in the order of the first occurrences. -/
theorem visits_sorted (p : α → Bool) (order : List α) :
    (visits p order).Pairwise fun a b => order.idxOf a < order.idxOf b := by
  induction order using List.reverseRecOn with
  | nil => exact List.Pairwise.nil
  | append_singleton order y ih =>
    have hold : ∀ a ∈ visits p order, (order ++ [y]).idxOf a = order.idxOf a := fun a ha =>
      List.idxOf_append_of_mem (mem_visits_iff.mp ha).1
    have hkeep : (visits p order).Pairwise fun a b =>
        (order ++ [y]).idxOf a < (order ++ [y]).idxOf b := by
      apply ih.imp_of_mem
      intro a b ha hb hlt
      rwa [hold a ha, hold b hb]
    rw [visits_append_singleton, visit]
    split
    · next hy =>
      apply List.pairwise_append.mpr
      refine ⟨hkeep, List.pairwise_singleton _ _, ?_⟩
      intro a ha b hb
      rw [List.mem_singleton.mp hb, hold a ha]
      have hnew : y ∉ order := fun hmem => hy.2 (mem_visits_iff.mpr ⟨hmem, hy.1⟩)
      rw [List.idxOf_append_of_notMem hnew]
      have hlt := List.idxOf_lt_length_of_mem (mem_visits_iff.mp ha).1
      omega
    · exact hkeep

omit [DecidableEq α] in
/-- In a list that is sorted by a number, what comes before is what has the lower number. -/
theorem precedes_iff_of_sorted {l : List α} {rank : α → Nat}
    (h : l.Pairwise fun a b => rank a < rank b) (ha : a ∈ l) (hb : b ∈ l) :
    Precedes l a b ↔ rank a < rank b := by
  constructor
  · rintro ⟨front, back, rfl, hfront⟩
    exact (List.pairwise_append.mp h).2.2 a hfront b List.mem_cons_self
  · intro hlt
    obtain ⟨front, back, rfl⟩ := List.append_of_mem hb
    refine ⟨front, back, rfl, ?_⟩
    rcases List.mem_append.mp ha with hfront | hback
    · exact hfront
    · exfalso
      rcases List.mem_cons.mp hback with rfl | hback
      · exact Nat.lt_irrefl _ hlt
      · have hle := (List.pairwise_cons.mp (List.pairwise_append.mp h).2.1).1 a hback
        omega

/-- Of two visits the first is the one whose element occurs first. -/
theorem precedes_visits_iff (ha : a ∈ order ∧ p a = true) (hb : b ∈ order ∧ p b = true) :
    Precedes (visits p order) a b ↔ order.idxOf a < order.idxOf b :=
  precedes_iff_of_sorted (visits_sorted p order) (mem_visits_iff.mpr ha) (mem_visits_iff.mpr hb)

end Wbox.Lib
