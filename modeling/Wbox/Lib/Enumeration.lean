import Mathlib.Data.List.Nodup

/-!
# Enumerations by the previous result

A search that is given its previous result, first 0 and then each result in turn until it gives 0,
enumerates a list. A search that goes on behind the previous result in a list enumerates those
elements that match.
-/

namespace Wbox.Lib

variable {β : Type} [Zero β]

/-- The results of a search from one on. -/
inductive Enumerates (search : β → Option β) : β → List β → Prop where
  | done {b : β} (hsearch : search b = some 0) : Enumerates search b []
  | next {b c : β} {bs : List β} (hsearch : search b = some c) (hc : c ≠ 0)
      (hrest : Enumerates search c bs) : Enumerates search b (c :: bs)

variable {search : β → Option β} {b : β} {bs bs' : List β}

/-- There is one list of results. -/
theorem Enumerates.unique (h : Enumerates search b bs) (h' : Enumerates search b bs') :
    bs = bs' := by
  induction h generalizing bs' with
  | done hsearch =>
    cases h' with
    | done => rfl
    | next hsearch' hc => exact absurd (Option.some.inj (hsearch'.symm.trans hsearch)) hc
  | next hsearch hc _ ih =>
    cases h' with
    | done hsearch' => exact absurd (Option.some.inj (hsearch.symm.trans hsearch')) hc
    | next hsearch' _ hrest' =>
      obtain rfl := Option.some.inj (hsearch.symm.trans hsearch')
      rw [ih hrest']

section Behind

variable {α : Type} {key : α → β} {p : α → Bool} {xs : List α}

/-- The key of the first element that matches, 0 if there is none. -/
def firstKey (key : α → β) (p : α → Bool) (xs : List α) : β := ((xs.find? p).map key).getD 0

theorem firstKey_of_none (h : xs.find? p = none) : firstKey key p xs = 0 := by
  unfold firstKey
  rw [h]
  rfl

theorem firstKey_of_some {x : α} (h : xs.find? p = some x) : firstKey key p xs = key x := by
  unfold firstKey
  rw [h]
  rfl

theorem filter_of_find?_none (h : xs.find? p = none) : xs.filter p = [] :=
  List.filter_eq_nil_iff.mpr (List.find?_eq_none.mp h)

/-- The first element that matches is the first of those that match. -/
theorem filter_of_find?_some {x : α} (h : xs.find? p = some x) :
    ∃ as bs, xs = as ++ x :: bs ∧ xs.filter p = x :: bs.filter p := by
  obtain ⟨hx, as, bs, hxs, has⟩ := List.find?_eq_some_iff_append.mp h
  have hskip : as.filter p = [] := by
    rw [List.filter_eq_nil_iff]
    intro a ha
    simpa using has a ha
  refine ⟨as, bs, hxs, ?_⟩
  rw [hxs, List.filter_append, hskip, List.nil_append, List.filter_cons_of_pos hx]

/-- A search that goes on behind its previous result enumerates what matches behind it. -/
theorem enumerates_behind (hkey : ∀ x ∈ xs, key x ≠ 0)
    (hsearch : ∀ as x bs, xs = as ++ x :: bs → search (key x) = some (firstKey key p bs))
    {as bs : List α} {x : α} (hxs : xs = as ++ x :: bs) :
    Enumerates search (key x) ((bs.filter p).map key) := by
  induction hn : bs.length using Nat.strongRecOn generalizing as x bs with
  | ind n ih =>
    have hfirst := hsearch as x bs hxs
    cases hfind : bs.find? p with
    | none =>
      rw [firstKey_of_none hfind] at hfirst
      rw [filter_of_find?_none hfind]
      exact .done hfirst
    | some y =>
      obtain ⟨cs, ds, hbs, hfilter⟩ := filter_of_find?_some hfind
      have hmem : y ∈ xs := by
        rw [hxs, hbs]
        simp
      have hsplit : xs = (as ++ x :: cs) ++ y :: ds := by
        rw [hxs, hbs, List.append_assoc, List.cons_append]
      have hshort : ds.length < n := by
        rw [← hn, hbs, List.length_append, List.length_cons]
        omega
      rw [firstKey_of_some hfind] at hfirst
      rw [hfilter, List.map_cons]
      exact .next hfirst (hkey y hmem) (ih _ hshort hsplit rfl)

/-- From the start on it enumerates all that match. -/
theorem enumerates_all (hkey : ∀ x ∈ xs, key x ≠ 0) (hstart : search 0 = some (firstKey key p xs))
    (hsearch : ∀ as x bs, xs = as ++ x :: bs → search (key x) = some (firstKey key p bs)) :
    Enumerates search 0 ((xs.filter p).map key) := by
  cases hfind : xs.find? p with
  | none =>
    rw [firstKey_of_none hfind] at hstart
    rw [filter_of_find?_none hfind]
    exact .done hstart
  | some y =>
    obtain ⟨cs, ds, hxs, hfilter⟩ := filter_of_find?_some hfind
    rw [firstKey_of_some hfind] at hstart
    rw [hfilter, List.map_cons]
    exact .next hstart (hkey y (List.mem_of_find?_eq_some hfind))
      (enumerates_behind hkey hsearch hxs)

end Behind

end Wbox.Lib
