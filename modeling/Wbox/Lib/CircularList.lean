import Mathlib.Data.List.Nodup
import Mathlib.Logic.Function.Iterate

/-!
# Circular lists

Nodes with a forward and a backward link, closed through a head node that is on the list but not
an element of it. Several lists share one set of links; insertion at the tail of one of them
leaves the others as they are.
-/

namespace Wbox.Lib

/-- Forward and backward links. -/
structure Links (A : Type) where
  next : A → A
  prev : A → A

namespace Links

variable {A : Type}

/-- A node is linked to the one behind it, both ways. -/
def Joined (l : Links A) (a b : A) : Prop := l.next a = b ∧ l.prev b = a

/-- The head and the elements are linked into a circle, in this order. -/
structure Circle (l : Links A) (head : A) (xs : List A) : Prop where
  nodup : (head :: xs).Nodup
  joined : ∀ (i : Nat) (a b : A), (head :: xs)[i]? = some a →
    (head :: xs)[(i + 1) % (xs.length + 1)]? = some b → l.Joined a b

/-- The links after `e` has been put between the last node of a circle and its head. -/
def insertTail [DecidableEq A] (l : Links A) (head e : A) : Links A where
  next := Function.update (Function.update l.next e head) (l.prev head) e
  prev := Function.update (Function.update l.prev e (l.prev head)) head e

/-- What following the links shows: forward from the head come exactly the elements, in their
order, and then the head again; backward is the inverse. -/
structure Circular (l : Links A) (head : A) (xs : List A) : Prop where
  nodup : (head :: xs).Nodup
  visits : ∀ (k : Nat) (x : A), xs[k]? = some x → l.next^[k + 1] head = x
  returns : l.next^[xs.length + 1] head = head
  inverse : ∀ a ∈ head :: xs, l.prev (l.next a) = a ∧ l.next (l.prev a) = a

variable {l l' : Links A} {head head' a e : A} {xs ys : List A}

/-- A node linked to itself is an empty list. -/
theorem Circle.nil (hnext : l.next head = head) (hprev : l.prev head = head) :
    l.Circle head [] where
  nodup := List.nodup_singleton head
  joined i a b ha hb := by
    obtain ⟨hi, rfl⟩ := List.getElem?_eq_some_iff.mp ha
    obtain rfl : i = 0 := Nat.lt_one_iff.mp hi
    have hb' : b = head := by
      rw [List.length_nil, Nat.zero_add, Nat.mod_self] at hb
      exact (Option.some.inj hb).symm
    rw [hb']
    exact ⟨hnext, hprev⟩

namespace Circle

/-- Every node has one behind it. -/
theorem exists_next (h : l.Circle head xs) {i : Nat} (ha : (head :: xs)[i]? = some a) :
    ∃ b, (head :: xs)[(i + 1) % (xs.length + 1)]? = some b ∧ l.Joined a b := by
  have hlt : (i + 1) % (xs.length + 1) < (head :: xs).length := Nat.mod_lt _ (Nat.succ_pos _)
  exact ⟨_, List.getElem?_eq_getElem hlt, h.joined i a _ ha (List.getElem?_eq_getElem hlt)⟩

/-- The last node is in front of the head. -/
theorem prev_head (h : l.Circle head xs) : (head :: xs)[xs.length]? = some (l.prev head) := by
  have hlt : xs.length < (head :: xs).length := Nat.lt_succ_self _
  have hhead : (head :: xs)[(xs.length + 1) % (xs.length + 1)]? = some head := by
    rw [Nat.mod_self]
    rfl
  rw [(h.joined _ _ _ (List.getElem?_eq_getElem hlt) hhead).2]
  exact List.getElem?_eq_getElem hlt

theorem prev_head_mem (h : l.Circle head xs) : l.prev head ∈ head :: xs :=
  List.mem_of_getElem? h.prev_head

/-- A circle depends on the links of its nodes only. -/
theorem congr (h : l.Circle head xs) (hnext : ∀ a ∈ head :: xs, l'.next a = l.next a)
    (hprev : ∀ a ∈ head :: xs, l'.prev a = l.prev a) : l'.Circle head xs where
  nodup := h.nodup
  joined i a b ha hb := by
    obtain ⟨hab, hba⟩ := h.joined i a b ha hb
    exact ⟨(hnext a (List.mem_of_getElem? ha)).trans hab,
      (hprev b (List.mem_of_getElem? hb)).trans hba⟩

section Insert

variable [DecidableEq A]

/-- The new node comes behind all others. -/
theorem insertTail (h : l.Circle head xs) (he : e ∉ head :: xs) :
    (l.insertTail head e).Circle head (xs ++ [e]) where
  nodup := by
    rw [← List.cons_append]
    exact h.nodup.append (List.nodup_singleton e) (List.disjoint_singleton.mpr he)
  joined i a b ha hb := by
    rw [← List.cons_append] at ha hb
    rw [List.length_append, List.length_singleton] at hb
    have hlast := h.prev_head
    have hnewest : (head :: xs ++ [e])[xs.length + 1]? = some e := List.getElem?_concat_length
    have hlt : i < xs.length + 1 + 1 := by
      have hlen := (List.getElem?_eq_some_iff.mp ha).1
      rw [List.length_append] at hlen
      exact hlen
    by_cases hnew : i = xs.length + 1
    · -- the new node is in front of the head
      rw [hnew, hnewest] at ha
      rw [hnew, Nat.mod_self] at hb
      obtain rfl : e = a := Option.some.inj ha
      obtain rfl : head = b := Option.some.inj hb
      have hne : e ≠ l.prev head := fun heq => he (heq ▸ h.prev_head_mem)
      constructor
      · show Function.update (Function.update l.next e head) (l.prev head) e e = head
        rw [Function.update_of_ne hne, Function.update_self]
      · exact Function.update_self _ _ _
    · have hmod : (i + 1) % (xs.length + 1 + 1) = i + 1 := Nat.mod_eq_of_lt (by omega)
      rw [hmod] at hb
      rw [List.getElem?_append_left (by rw [List.length_cons]; omega)] at ha
      have hae : a ≠ e := fun heq => he (heq ▸ List.mem_of_getElem? ha)
      by_cases hend : i = xs.length
      · -- the last node is in front of the new one
        rw [hend, hnewest] at hb
        rw [hend, hlast] at ha
        obtain rfl : e = b := Option.some.inj hb
        obtain rfl := Option.some.inj ha
        have hne : e ≠ head := fun heq => he (heq ▸ List.mem_cons_self)
        constructor
        · exact Function.update_self _ _ _
        · show Function.update (Function.update l.prev e (l.prev head)) head e e = l.prev head
          rw [Function.update_of_ne hne, Function.update_self]
      · -- all other pairs are as they were
        rw [List.getElem?_append_left (by rw [List.length_cons]; omega)] at hb
        have hold : l.Joined a b := by
          apply h.joined i a b ha
          rw [Nat.mod_eq_of_lt (by omega)]
          exact hb
        have hal : a ≠ l.prev head := by
          intro heq
          have hil : i < (head :: xs).length := by rw [List.length_cons]; omega
          exact hend ((List.getElem?_inj hil h.nodup).mp (ha.trans (heq ▸ hlast.symm)))
        have hbe : b ≠ e := fun heq => he (heq ▸ List.mem_of_getElem? hb)
        have hbh : b ≠ head := by
          intro heq
          have hil : i + 1 < (head :: xs).length := by rw [List.length_cons]; omega
          exact Nat.succ_ne_zero i
            ((List.getElem?_inj hil h.nodup).mp (hb.trans (congrArg some heq)))
        constructor
        · show Function.update (Function.update l.next e head) (l.prev head) e a = b
          rw [Function.update_of_ne hal, Function.update_of_ne hae]
          exact hold.1
        · show Function.update (Function.update l.prev e (l.prev head)) head e b = a
          rw [Function.update_of_ne hbh, Function.update_of_ne hbe]
          exact hold.2

/-- An insertion into another list changes nothing. -/
theorem insertTail_of_disjoint (h : l.Circle head xs) (h' : l.Circle head' ys)
    (hdisjoint : (head :: xs).Disjoint (head' :: ys)) (he : e ∉ head' :: ys) :
    (l.insertTail head e).Circle head' ys := by
  have hlast : l.prev head ∉ head' :: ys := fun hmem => hdisjoint h.prev_head_mem hmem
  have hhead : head ∉ head' :: ys := fun hmem => hdisjoint List.mem_cons_self hmem
  apply h'.congr
  · intro a ha
    show Function.update (Function.update l.next e head) (l.prev head) e a = l.next a
    have hal : a ≠ l.prev head := fun heq => hlast (heq ▸ ha)
    have hae : a ≠ e := fun heq => he (heq ▸ ha)
    rw [Function.update_of_ne hal, Function.update_of_ne hae]
  · intro a ha
    show Function.update (Function.update l.prev e (l.prev head)) head e a = l.prev a
    have hah : a ≠ head := fun heq => hhead (heq ▸ ha)
    have hae : a ≠ e := fun heq => he (heq ▸ ha)
    rw [Function.update_of_ne hah, Function.update_of_ne hae]

end Insert

/-- Some steps forward from the head. -/
theorem iterate_next (h : l.Circle head xs) (k : Nat) :
    (head :: xs)[k % (xs.length + 1)]? = some (l.next^[k] head) := by
  induction k with
  | zero => rfl
  | succ k ih =>
    obtain ⟨b, hb, hjoined⟩ := h.exists_next ih
    rw [Function.iterate_succ_apply', hjoined.1, ← hb, Nat.mod_add_mod]

theorem circular (h : l.Circle head xs) : l.Circular head xs where
  nodup := h.nodup
  visits k x hx := by
    have hlt : k < xs.length := (List.getElem?_eq_some_iff.mp hx).1
    have hit := h.iterate_next (k + 1)
    rw [Nat.mod_eq_of_lt (by omega), List.getElem?_cons_succ, hx] at hit
    exact (Option.some.inj hit).symm
  returns := by
    have hit := h.iterate_next (xs.length + 1)
    rw [Nat.mod_self] at hit
    exact (Option.some.inj hit).symm
  inverse a ha := by
    obtain ⟨i, hi, rfl⟩ := List.getElem_of_mem ha
    have hai := List.getElem?_eq_getElem hi
    obtain ⟨b, -, hab⟩ := h.exists_next hai
    constructor
    · rw [hab.1, hab.2]
    · -- the node before it: the head is behind the last one
      by_cases hzero : i = 0
      · subst hzero
        obtain ⟨b, hb, hlast⟩ := h.exists_next h.prev_head
        rw [Nat.mod_self] at hb
        have hhead : b = head := (Option.some.inj hb).symm
        rw [hhead] at hlast
        exact hlast.1
      · have hlen : i < xs.length + 1 := hi
        have hlt : i - 1 < (head :: xs).length := by omega
        have hbehind : (head :: xs)[(i - 1 + 1) % (xs.length + 1)]? = some (head :: xs)[i] := by
          rw [Nat.sub_add_cancel (Nat.one_le_iff_ne_zero.mpr hzero), Nat.mod_eq_of_lt hlen]
          exact hai
        have hjoined := h.joined (i - 1) _ _ (List.getElem?_eq_getElem hlt) hbehind
        rw [hjoined.2]
        exact hjoined.1

end Circle

end Links

end Wbox.Lib
