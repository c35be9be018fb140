import Mathlib.Data.List.Infix

/-!
# Interning up to a key

A table of bounded size keeps the first value that it was given for each key, and answers with the
place of that value. Nothing is taken out, so that a place once given stays that of its key.
-/

namespace Wbox.Lib

variable {α κ : Type} [DecidableEq κ] (key : α → κ) (cap : Nat)

/-- The place of the first value with the key of `a`. -/
def internIndex (seen : List α) (a : α) : Option Nat := seen.findIdx? fun b => key b = key a

/-- Keep a value unless one with its key is kept already or there is no place left. -/
def intern (seen : List α) (a : α) : List α :=
  if internIndex key seen a = none ∧ seen.length < cap then seen ++ [a] else seen

/-- Keep values one after the other. -/
def internAll (seen : List α) (as : List α) : List α := as.foldl (intern key cap) seen

variable {key cap} {seen seen' as bs : List α} {a b : α} {i : Nat}

theorem internAll_append :
    internAll key cap seen (as ++ bs) = internAll key cap (internAll key cap seen as) bs :=
  List.foldl_append

theorem internAll_concat :
    internAll key cap seen (as ++ [a]) = intern key cap (internAll key cap seen as) a :=
  internAll_append

/-- Values with one key have one place. -/
theorem internIndex_congr (h : key a = key b) :
    internIndex key seen a = internIndex key seen b := by
  unfold internIndex
  rw [h]

theorem internIndex_getElem (h : internIndex key seen a = some i) :
    ∃ b, seen[i]? = some b ∧ key b = key a := by
  obtain ⟨hlt, hkey, -⟩ := List.findIdx?_eq_some_iff_getElem.mp h
  exact ⟨seen[i], List.getElem?_eq_getElem hlt, of_decide_eq_true hkey⟩

theorem internIndex_lt (h : internIndex key seen a = some i) : i < seen.length :=
  (List.findIdx?_eq_some_iff_getElem.mp h).1

/-- Values with one place have one key. -/
theorem internIndex_inj (ha : internIndex key seen a = some i)
    (hb : internIndex key seen b = some i) : key a = key b := by
  obtain ⟨x, hx, hxa⟩ := internIndex_getElem ha
  obtain ⟨y, hy, hyb⟩ := internIndex_getElem hb
  obtain rfl : x = y := Option.some.inj (hx.symm.trans hy)
  exact hxa.symm.trans hyb

theorem internIndex_eq_none : internIndex key seen a = none ↔ ∀ b ∈ seen, key b ≠ key a := by
  unfold internIndex
  rw [List.findIdx?_eq_none_iff]
  simp only [decide_eq_false_iff_not]

/-- A place stays while values are added behind. -/
theorem internIndex_extends (hextends : seen <+: seen') (h : internIndex key seen a = some i) :
    internIndex key seen' a = some i := by
  obtain ⟨more, rfl⟩ := hextends
  unfold internIndex at h ⊢
  rw [List.findIdx?_append, h]
  rfl

theorem intern_extends (seen : List α) (a : α) : seen <+: intern key cap seen a := by
  unfold intern
  split
  · exact List.prefix_append _ _
  · exact List.prefix_rfl

theorem internAll_extends (seen as : List α) : seen <+: internAll key cap seen as := by
  induction as generalizing seen with
  | nil => exact List.prefix_rfl
  | cons a as ih => exact (intern_extends seen a).trans (ih _)

theorem intern_length (h : seen.length ≤ cap) : (intern key cap seen a).length ≤ cap := by
  unfold intern
  split
  · next hroom =>
    rw [List.length_append]
    exact hroom.2
  · exact h

theorem internAll_length (h : seen.length ≤ cap) : (internAll key cap seen as).length ≤ cap := by
  induction as generalizing seen with
  | nil => exact h
  | cons a as ih => exact ih (intern_length h)

/-- Only a new key without a place left is not kept. -/
theorem internIndex_intern_eq_none : internIndex key (intern key cap seen a) a = none ↔
    internIndex key seen a = none ∧ cap ≤ seen.length := by
  by_cases hroom : internIndex key seen a = none ∧ seen.length < cap
  · have hkept : internIndex key (intern key cap seen a) a ≠ none := by
      unfold intern
      rw [if_pos hroom, Ne, internIndex_eq_none]
      intro h
      exact h a (List.mem_append_right seen (List.mem_singleton_self a)) rfl
    exact iff_of_false hkept fun h => absurd hroom.2 (Nat.not_lt.mpr h.2)
  · unfold intern
    rw [if_neg hroom]
    constructor
    · exact fun hnone => ⟨hnone, Nat.not_lt.mp fun hlt => hroom ⟨hnone, hlt⟩⟩
    · exact fun h => h.1

/-- A value with a place is not kept again. -/
theorem intern_of_some (h : internIndex key seen a = some i) : intern key cap seen a = seen := by
  unfold intern
  rw [if_neg fun hroom => by rw [h] at hroom; cases hroom.1]

/-- A new value gets the next place. -/
theorem intern_of_none (h : internIndex key seen a = none) (hroom : seen.length < cap) :
    intern key cap seen a = seen ++ [a] ∧
      internIndex key (seen ++ [a]) a = some seen.length := by
  unfold intern
  refine ⟨if_pos ⟨h, hroom⟩, ?_⟩
  unfold internIndex at h ⊢
  rw [List.findIdx?_append, h, List.findIdx?_singleton, if_pos (decide_eq_true rfl),
    Option.none_or, Option.map_some, Nat.zero_add]

/-- Nothing is kept any more without a place left. -/
theorem intern_full (h : cap ≤ seen.length) : intern key cap seen a = seen := by
  unfold intern
  rw [if_neg fun hroom => absurd hroom.2 (Nat.not_lt.mpr h)]

theorem internAll_full (h : cap ≤ seen.length) : internAll key cap seen as = seen := by
  induction as with
  | nil => rfl
  | cons a as ih =>
    unfold internAll
    rw [List.foldl_cons, intern_full h]
    exact ih

/-- What a value is answered with when it is given stays the answer. -/
theorem internIndex_settled : internIndex key (internAll key cap (intern key cap seen a) as) a =
    internIndex key (intern key cap seen a) a := by
  cases hindex : internIndex key (intern key cap seen a) a with
  | some i => exact internIndex_extends (internAll_extends _ as) hindex
  | none =>
    have hfull := (internIndex_intern_eq_none.mp hindex).2
    rw [internAll_full (hfull.trans (intern_extends seen a).length_le), hindex]

/-- While there is a place left all values have theirs. -/
theorem internIndex_of_room (hroom : (internAll key cap [] as).length < cap) (ha : a ∈ as) :
    ∃ i, internIndex key (internAll key cap [] as) a = some i := by
  induction as using List.reverseRecOn with
  | nil => cases ha
  | append_singleton as x ih =>
    rw [internAll_concat] at hroom ⊢
    have hextends : internAll key cap [] as <+: intern key cap (internAll key cap [] as) x :=
      intern_extends _ x
    have hbefore := Nat.lt_of_le_of_lt hextends.length_le hroom
    obtain hin | heq := List.mem_append.mp ha
    · obtain ⟨i, hi⟩ := ih hbefore hin
      exact ⟨i, internIndex_extends hextends hi⟩
    · obtain rfl := List.mem_singleton.mp heq
      apply Option.ne_none_iff_exists'.mp
      intro hnone
      exact absurd hbefore (Nat.not_lt.mpr (internIndex_intern_eq_none.mp hnone).2)

/-- The value that is kept for a key is the first one that was given with it. -/
theorem internAll_getElem_first (h : internIndex key (internAll key cap [] as) a = some i) :
    (internAll key cap [] as)[i]? = as.find? fun b => key b = key a := by
  induction as using List.reverseRecOn with
  | nil => cases h
  | append_singleton as x ih =>
    rw [internAll_concat] at h ⊢
    rw [List.find?_append]
    cases hold : internIndex key (internAll key cap [] as) a with
    | some j =>
      have hextends : internAll key cap [] as <+: intern key cap (internAll key cap [] as) x :=
        intern_extends _ x
      obtain rfl : j = i := Option.some.inj ((internIndex_extends hextends hold).symm.trans h)
      have hfirst := ih hold
      obtain ⟨more, hmore⟩ := hextends
      rw [← hmore, List.getElem?_append_left (internIndex_lt hold), hfirst]
      obtain ⟨b, hb, -⟩ := internIndex_getElem hold
      rw [← hfirst, hb]
      rfl
    | none =>
      have hroom : internIndex key (internAll key cap [] as) x = none ∧
          (internAll key cap [] as).length < cap := by
        by_contra hno
        unfold intern at h
        rw [if_neg hno, hold] at h
        cases h
      unfold intern at h ⊢
      rw [if_pos hroom] at h ⊢
      have hlast : internIndex key [x] a = some 0 ∧ i = (internAll key cap [] as).length := by
        unfold internIndex at h hold ⊢
        rw [List.findIdx?_append, hold, List.findIdx?_singleton] at h
        rw [List.findIdx?_singleton]
        split at h
        · next hkey =>
          rw [if_pos hkey]
          exact ⟨rfl, by simpa using h.symm⟩
        · cases h
      have hnew : as.find? (fun b => decide (key b = key a)) = none := by
        rw [List.find?_eq_none]
        intro b hb hkey
        obtain ⟨j, hj⟩ := internIndex_of_room hroom.2 hb
        rw [internIndex_congr (of_decide_eq_true hkey), hold] at hj
        cases hj
      obtain ⟨y, hy, hkey⟩ := internIndex_getElem hlast.1
      obtain rfl : x = y := Option.some.inj hy
      rw [hlast.2, List.getElem?_concat_length, hnew, List.find?_singleton,
        if_pos (decide_eq_true hkey)]
      rfl

end Wbox.Lib
