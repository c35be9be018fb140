import Mathlib.Data.List.Nodup
import Mathlib.Data.List.Perm.Subperm
import Mathlib.Data.List.Basic

/-!
# Intrusive singly linked lists

Nodes carry their own link, so a list is a head pointer and a link function.
`Chain` relates both to the list of nodes visited. The walks take as many steps as
they are given nodes for; `none` is a walk that has not ended by then.
-/

namespace Wbox.Lib

variable {P : Type}

/-- Following `next` from `h` visits exactly `xs` and then reaches the null pointer. -/
def Chain (next : P → Option P) : Option P → List P → Prop
  | h, [] => h = none
  | h, x :: xs => h = some x ∧ Chain next (next x) xs

/-- A place that stores a pointer of the list: the head variable or the link of a node. -/
inductive Slot (P : Type) where
  | head
  | after (p : P)
  deriving DecidableEq, Repr

/-- Advance a pointer to a slot until the slot holds `x` or the null pointer. -/
def findSlot [DecidableEq P] (next : P → Option P) (x : P) :
    Nat → Slot P → Option P → Option (Option (Slot P))
  | _, _, none => some none
  | 0, _, some _ => none
  | n + 1, slot, some p =>
      if p = x then some (some slot) else findSlot next x n (.after p) (next p)

/-- The node whose link a slot is, none for the head variable. -/
def Slot.node (slot : Slot P) : Option P :=
  match slot with
  | .head => none
  | .after p => some p

/-- The head pointer once `v` has been stored in `slot`. -/
def Slot.setHead (slot : Slot P) (v h : Option P) : Option P :=
  match slot with
  | .head => v
  | .after _ => h

/-- The links once `v` has been stored in `slot`. -/
def Slot.setNext [DecidableEq P] (slot : Slot P) (v : Option P) (next : P → Option P) :
    P → Option P :=
  match slot with
  | .head => next
  | .after p => Function.update next p v

namespace Chain

variable {next next' : P → Option P} {h : Option P} {xs ys : List P}

/-- The empty chain is the null pointer. -/
@[simp] theorem nil_iff : Chain next h [] ↔ h = none := Iff.rfl

/-- A chain is its first node followed by the chain from its link. -/
@[simp] theorem cons_iff {x : P} :
    Chain next h (x :: xs) ↔ h = some x ∧ Chain next (next x) xs := Iff.rfl

/-- The head pointer is the first node. -/
theorem head_eq (hc : Chain next h xs) : h = xs.head? := by
  cases xs with
  | nil => exact hc
  | cons x xs => exact hc.1

/-- Links outside the chain do not matter. -/
theorem congr (hc : Chain next h xs) (hn : ∀ p ∈ xs, next' p = next p) :
    Chain next' h xs := by
  induction xs generalizing h with
  | nil => exact hc
  | cons x xs ih =>
    refine ⟨hc.1, ?_⟩
    rw [hn x (by simp)]
    exact ih hc.2 (fun p hp => hn p (by simp [hp]))

/-- Head and links determine the nodes visited. -/
theorem unique (hx : Chain next h xs) (hy : Chain next h ys) : xs = ys := by
  induction xs generalizing h ys with
  | nil =>
    cases ys with
    | nil => rfl
    | cons y ys =>
      have hh : h = none := hx
      simp [hh] at hy
  | cons x xs ih =>
    cases ys with
    | nil =>
      have hh : h = none := hy
      simp [hh] at hx
    | cons y ys =>
      have hxy : x = y := Option.some.inj (hx.1.symm.trans hy.1)
      subst hxy
      rw [ih hx.2 hy.2]

/-- The nodes from a member on form the chain of its link. -/
theorem suffix {x : P} (hc : Chain next h (xs ++ x :: ys)) : Chain next (next x) ys := by
  induction xs generalizing h with
  | nil => exact hc.2
  | cons z xs ih => exact ih hc.2

/-- A finite chain visits no node twice: the rest of the list is determined by the node. -/
theorem nodup (hc : Chain next h xs) : xs.Nodup := by
  induction xs generalizing h with
  | nil => exact List.nodup_nil
  | cons x xs ih =>
    refine List.nodup_cons.mpr ⟨?_, ih hc.2⟩
    intro hx
    obtain ⟨as, bs, hs⟩ := List.append_of_mem hx
    have hb : Chain next (next x) bs := suffix (hs ▸ hc.2)
    have hl := congrArg List.length ((unique hc.2 hb).symm.trans hs)
    simp at hl
    omega

/-- A chain whose nodes lie below `n` has at most `n` nodes. -/
theorem length_le {next : Nat → Option Nat} {h : Option Nat} {xs : List Nat} {n : Nat}
    (hc : Chain next h xs) (hb : ∀ p ∈ xs, p < n) : xs.length ≤ n := by
  have hs : xs ⊆ List.range n := fun p hp => List.mem_range.mpr (hb p hp)
  simpa using (List.subperm_of_subset hc.nodup hs).length_le

/-- Deleting the last node leaves the nodes before it. -/
theorem erase_last [DecidableEq P] (hc : Chain next h xs) {x : P} (hl : xs.getLast? = some x) :
    xs.erase x = xs.takeWhile (fun p => decide (p ≠ x)) := by
  obtain ⟨as, rfl⟩ := List.getLast?_eq_some_iff.mp hl
  have hx : x ∉ as := by
    have hn := hc.nodup
    simp only [List.nodup_append, List.mem_singleton] at hn
    exact fun hm => hn.2.2 x hm x rfl rfl
  have hall : ∀ p ∈ as, decide (p ≠ x) = true := by
    intro p hp
    simpa using fun he : p = x => hx (he ▸ hp)
  rw [List.erase_append_right [x] hx, List.takeWhile_append_of_pos hall]
  simp

/-- Deleting another node keeps the last one. -/
theorem getLast?_erase_ne [DecidableEq P] {x y : P} (hl : xs.getLast? = some y) (hxy : y ≠ x) :
    (xs.erase x).getLast? = some y := by
  obtain ⟨as, rfl⟩ := List.getLast?_eq_some_iff.mp hl
  by_cases hx : x ∈ as
  · rw [List.erase_append_left [y] hx]
    simp
  · rw [List.erase_append_right [y] hx, List.erase_of_not_mem (by simpa using hxy.symm)]
    simp

/-- Appending a node outside the chain to its last node. -/
theorem concat [DecidableEq P] {t y : P} (hc : Chain next h (xs ++ [t]))
    (hy : y ∉ xs ++ [t]) :
    Chain (Function.update (Function.update next y none) t (some y)) h (xs ++ [t] ++ [y]) := by
  have hty : y ≠ t := by
    rintro rfl
    simp at hy
  have hn := hc.nodup
  induction xs generalizing h with
  | nil => simp_all [Function.update]
  | cons x xs ih =>
    have hxt : x ≠ t := by
      rintro rfl
      simp at hn
    have hxy : x ≠ y := by
      rintro rfl
      simp at hy
    refine ⟨hc.1, ?_⟩
    rw [Function.update_of_ne hxt, Function.update_of_ne hxy]
    exact ih hc.2 (fun hm => hy (by simpa using Or.inr (by simpa using hm)))
      (List.nodup_cons.mp hn).2

variable [DecidableEq P]

-- The slot that holds `x`, with `slot` the one that leads to the list.
private def slotOf (x : P) : Slot P → List P → Option (Slot P)
  | _, [] => none
  | slot, p :: ps => if p = x then some slot else slotOf x (.after p) ps

private theorem findSlot_eq (hc : Chain next h xs) (x : P) (slot : Slot P) {n : Nat}
    (hn : xs.length ≤ n) : findSlot next x n slot h = some (slotOf x slot xs) := by
  induction xs generalizing h slot n with
  | nil =>
    have hh : h = none := hc
    subst hh
    cases n <;> rfl
  | cons p ps ih =>
    obtain ⟨rfl, hc⟩ := hc
    cases n with
    | zero => simp at hn
    | succ n =>
      simp only [findSlot, slotOf]
      split
      · rfl
      · exact ih hc _ (by simpa using hn)

private theorem slotOf_none_iff (x : P) (slot : Slot P) : slotOf x slot xs = none ↔ x ∉ xs := by
  induction xs generalizing slot with
  | nil => simp [slotOf]
  | cons p ps ih =>
    by_cases hp : p = x
    · simp [slotOf, hp]
    · simp [slotOf, hp, ih, Ne.symm hp]

private theorem slotOf_some {x : P} {slot found : Slot P} (hs : slotOf x slot xs = some found) :
    found = slot ∨ ∃ q ∈ xs, found = .after q := by
  induction xs generalizing slot with
  | nil => simp [slotOf] at hs
  | cons q qs ih =>
    by_cases hq : q = x
    · simp only [slotOf, hq, if_true, Option.some.injEq] at hs
      exact Or.inl hs.symm
    · simp only [slotOf, hq, if_false] at hs
      rcases ih hs with rfl | ⟨r, hr, rfl⟩
      · exact Or.inr ⟨q, by simp, rfl⟩
      · exact Or.inr ⟨r, by simp [hr], rfl⟩

private theorem slotOf_node {x : P} {slot found : Slot P} (hs : slotOf x slot xs = some found) :
    found.node = (xs.takeWhile (fun p => decide (p ≠ x))).getLast?.or slot.node := by
  induction xs generalizing slot with
  | nil => simp [slotOf] at hs
  | cons q qs ih =>
    by_cases hq : q = x
    · simp only [slotOf, hq, if_true, Option.some.injEq] at hs
      simp [hq, hs]
    · simp only [slotOf, hq, if_false] at hs
      rw [ih hs, List.takeWhile_cons_of_pos (by simpa using hq), List.getLast?_cons]
      cases (qs.takeWhile (fun p => decide (p ≠ x))).getLast? <;> rfl

-- Either the search stops at once, or it ends inside the list and the head is kept.
private theorem unlink_aux {x : P} {slot found : Slot P} (hc : Chain next h xs)
    (hs : slotOf x slot xs = some found) (hslot : ∀ p, slot = .after p → p ∉ xs) :
    (found = slot ∧ ∃ rest, xs = x :: rest) ∨
      (found ≠ slot ∧ found ≠ .head ∧
        Chain (found.setNext (next x) next) h (xs.erase x)) := by
  induction xs generalizing h slot with
  | nil => simp [slotOf] at hs
  | cons p ps ih =>
    obtain ⟨rfl, hps⟩ := hc
    by_cases hp : p = x
    · simp only [slotOf, hp, if_true, Option.some.injEq] at hs
      exact Or.inl ⟨hs.symm, ps, by rw [hp]⟩
    · simp only [slotOf, hp, if_false] at hs
      have hnd : p ∉ ps := (List.nodup_cons.mp (Chain.nodup (h := some p) ⟨rfl, hps⟩)).1
      have he : (p :: ps).erase x = p :: ps.erase x := List.erase_cons_tail (by simpa using hp)
      have hmem := slotOf_some hs
      refine Or.inr ⟨?_, ?_, ?_⟩
      · rintro rfl
        rcases hmem with rfl | ⟨q, hq, rfl⟩
        · exact hslot p rfl (by simp)
        · exact hslot q rfl (by simp [hq])
      · rcases hmem with rfl | ⟨q, hq, rfl⟩ <;> simp
      · rw [he]
        refine ⟨rfl, ?_⟩
        rcases ih hps hs (by rintro q ⟨rfl⟩; exact hnd) with ⟨rfl, rest, rfl⟩ | ⟨hne, -, hch⟩
        · have hr : p ∉ rest := fun hm => hnd (by simp [hm])
          simp only [Slot.setNext, Function.update_self, List.erase_cons_head]
          exact Chain.congr hps.2 (fun q hq => Function.update_of_ne
            (by rintro rfl; exact hr hq) _ _)
        · have hnp : found.setNext (next x) next p = next p := by
            cases found with
            | head => rfl
            | after q => exact Function.update_of_ne (by rintro rfl; exact hne rfl) _ _
          rw [hnp]
          exact hch

private theorem findSlot_link_aux {x p : P} {slot : Slot P} {n : Nat}
    (hslot : ∀ q, slot = .after q → next q = h)
    (hf : findSlot next x n slot h = some (some (.after p))) : next p = some x := by
  induction n generalizing slot h with
  | zero =>
    cases h with
    | none => simp [findSlot] at hf
    | some q => simp [findSlot] at hf
  | succ n ih =>
    cases h with
    | none => simp [findSlot] at hf
    | some q =>
      simp only [findSlot] at hf
      split at hf
      · next hq =>
        have hp : slot = .after p := by simpa using hf
        rw [hslot p hp, hq]
      · exact ih (by rintro r ⟨rfl⟩; rfl) hf

/-- The node before a slot that was found links to the node searched for. -/
theorem findSlot_link {x p : P} {n : Nat}
    (hf : findSlot next x n .head h = some (some (.after p))) : next p = some x :=
  findSlot_link_aux (by simp) hf

/-- Bypassing the node behind `p` takes no other node off any chain. -/
theorem bypass (hc : Chain next h xs) {p x : P} (hp : next p = some x) :
    ∃ ys, Chain (Function.update next p (next x)) h ys ∧ ys.Sublist xs ∧
      ∀ y ∈ xs, y ≠ x → y ∈ ys := by
  induction xs generalizing h with
  | nil => exact ⟨[], hc, List.Sublist.refl [], by simp⟩
  | cons z zs ih =>
    obtain ⟨rfl, hzs⟩ := hc
    by_cases hz : z = p
    · subst hz
      cases zs with
      | nil =>
        have hn : next z = none := hzs
        simp [hn] at hp
      | cons w ws =>
        have hw : w = x := Option.some.inj (hzs.1.symm.trans hp)
        subst hw
        have hnot : z ∉ w :: ws := (List.nodup_cons.mp (Chain.nodup (h := some z) ⟨rfl, hzs⟩)).1
        refine ⟨z :: ws, ⟨rfl, ?_⟩, by simp, ?_⟩
        swap
        · intro y hy hne
          simpa [hne] using hy
        rw [Function.update_self]
        apply Chain.congr hzs.2
        intro q hq
        exact Function.update_of_ne (by rintro rfl; exact hnot (by simp [hq])) _ _
    · obtain ⟨ys, hys, hsub, hmem⟩ := ih hzs
      refine ⟨z :: ys, ⟨rfl, by rwa [Function.update_of_ne hz]⟩, hsub.cons_cons z, ?_⟩
      intro y hy hne
      rcases List.mem_cons.mp hy with rfl | hy
      · exact List.mem_cons_self
      · exact List.mem_cons_of_mem z (hmem y hy hne)

/-- Storing the link of `x` in the slot that leads to it takes no other node off any chain. -/
theorem setNext (hc : Chain next h xs) {x : P} {slot : Slot P}
    (hslot : ∀ p, slot = .after p → next p = some x) :
    ∃ ys, Chain (slot.setNext (next x) next) h ys ∧ ys.Sublist xs ∧
      ∀ y ∈ xs, y ≠ x → y ∈ ys := by
  cases slot with
  | head => exact ⟨xs, hc, List.Sublist.refl xs, fun y hy _ => hy⟩
  | after p => exact bypass hc (hslot p rfl)

/-- The search for a node that is not in the chain ends without a slot. -/
theorem findSlot_of_not_mem (hc : Chain next h xs) {x : P} (hx : x ∉ xs) {n : Nat}
    (hn : xs.length ≤ n) : findSlot next x n .head h = some none := by
  rw [findSlot_eq hc x .head hn, (slotOf_none_iff x .head).mpr hx]

/-- The search for a member ends at the slot of its predecessor, and storing its link there
deletes exactly it. -/
theorem findSlot_of_mem (hc : Chain next h xs) {x : P} (hx : x ∈ xs) {n : Nat}
    (hn : xs.length ≤ n) :
    ∃ slot, findSlot next x n .head h = some (some slot) ∧
      Chain (slot.setNext (next x) next) (slot.setHead (next x) h) (xs.erase x) ∧
      slot.node = (xs.takeWhile (fun p => decide (p ≠ x))).getLast? := by
  cases hs : slotOf x .head xs with
  | none => exact absurd hx ((slotOf_none_iff x .head).mp hs)
  | some slot =>
    refine ⟨slot, by rw [findSlot_eq hc x .head hn, hs], ?_, by
      simpa [Slot.node] using slotOf_node hs⟩
    rcases unlink_aux hc hs (by simp) with ⟨rfl, rest, rfl⟩ | ⟨-, hne, hch⟩
    · simpa [Slot.setHead, Slot.setNext] using hc.2
    · cases slot with
      | head => exact absurd rfl hne
      | after p => exact hch

end Chain
end Wbox.Lib
