import Mathlib.Data.Nat.ModEq

/-!
# Ring buffers

A list kept in a buffer of fixed size, from a head on and around its end: what appending at the
tail, dropping the head, and closing the gap of an element in the middle do to the list.
-/

namespace Wbox.Lib

variable {α : Type} {cap head n k j : Nat} {buf : Nat → α}

/-- The elements of a ring buffer, in order. -/
def ringList (buf : Nat → α) (cap head n : Nat) : List α :=
  (List.range n).map fun k => buf ((head + k) % cap)

/-- The elements from `src` on, moved to `dst` on, one after the other. -/
def shiftDown (cap : Nat) : Nat → Nat → Nat → (Nat → α) → Nat → α
  | 0, _, _, buf => buf
  | n + 1, src, dst, buf =>
      shiftDown cap n ((src + 1) % cap) ((dst + 1) % cap) (Function.update buf dst (buf src))

@[simp] theorem ringList_length (buf : Nat → α) (cap head n : Nat) :
    (ringList buf cap head n).length = n := by
  unfold ringList
  rw [List.length_map, List.length_range]

theorem getElem?_ringList (h : k < n) : (ringList buf cap head n)[k]? = some (buf ((head + k) % cap)) := by
  unfold ringList
  rw [List.getElem?_map, List.getElem?_range h, Option.map_some]

/-- Different places of the list are different places of the buffer. -/
theorem ring_ne (hk : k < cap) (hj : j < cap) (hne : k ≠ j) :
    (head + k) % cap ≠ (head + j) % cap := by
  intro heq
  have hmod : k ≡ j [MOD cap] := Nat.ModEq.add_left_cancel' head heq
  exact hne (hmod.eq_of_lt_of_lt hk hj)

/-- The place after another one. -/
theorem ring_succ (head k cap : Nat) : ((head + k) % cap + 1) % cap = (head + (k + 1)) % cap := by
  rw [Nat.mod_add_mod, Nat.add_assoc]

theorem ringList_ext {xs : List α} (hlen : xs.length = n)
    (h : ∀ k < n, xs[k]? = some (buf ((head + k) % cap))) : xs = ringList buf cap head n := by
  apply List.ext_getElem?
  intro k
  by_cases hk : k < n
  · rw [h k hk, getElem?_ringList hk]
  · rw [List.getElem?_eq_none (by omega), List.getElem?_eq_none (by rw [ringList_length]; omega)]

/-- An element that is put in the place after the last one. -/
theorem ringList_push (h : n < cap) (a : α) :
    ringList (Function.update buf ((head + n) % cap) a) cap head (n + 1) =
      ringList buf cap head n ++ [a] := by
  symm
  apply ringList_ext
  · rw [List.length_append, ringList_length]
    rfl
  intro k hk
  by_cases hlast : k = n
  · subst hlast
    rw [List.getElem?_append_right (by rw [ringList_length]), ringList_length, Nat.sub_self,
      Function.update_self]
    rfl
  · rw [List.getElem?_append_left (by rw [ringList_length]; omega), getElem?_ringList (by omega),
      Function.update_of_ne (ring_ne (by omega) h hlast)]

/-- A head that moves on drops the first element. -/
theorem ringList_pop (buf : Nat → α) (cap head n : Nat) :
    ringList buf cap ((head + 1) % cap) n = (ringList buf cap head (n + 1)).eraseIdx 0 := by
  symm
  apply ringList_ext
  · rw [List.length_eraseIdx_of_lt (by rw [ringList_length]; omega), ringList_length]
    rfl
  intro k hk
  rw [List.getElem?_eraseIdx_of_ge (Nat.zero_le k), getElem?_ringList (by omega), Nat.mod_add_mod,
    Nat.add_assoc, Nat.add_comm k 1]

/-- What the elements become that are moved down by one place. -/
theorem shiftDown_at (h : k + n < cap) (hj : j < cap) :
    shiftDown cap n ((head + (k + 1)) % cap) ((head + k) % cap) buf ((head + j) % cap) =
      if k ≤ j ∧ j < k + n then buf ((head + (j + 1)) % cap) else buf ((head + j) % cap) := by
  induction n generalizing k buf with
  | zero =>
    rw [if_neg (by omega)]
    rfl
  | succ n ih =>
    rw [shiftDown, ring_succ, ring_succ, ih (by omega)]
    by_cases hlater : k + 1 ≤ j ∧ j < k + 1 + n
    · rw [if_pos hlater, if_pos (by omega),
        Function.update_of_ne (ring_ne (by omega) (by omega) (by omega))]
    · rw [if_neg hlater]
      by_cases hfirst : j = k
      · subst hfirst
        rw [Function.update_self, if_pos (by omega)]
      · rw [Function.update_of_ne (ring_ne hj (by omega) hfirst), if_neg (by omega)]

/-- Moving the elements behind one of them down erases it. -/
theorem ringList_shiftDown (hk : k < n) (hn : n ≤ cap) :
    ringList (shiftDown cap (n - k - 1) ((head + (k + 1)) % cap) ((head + k) % cap) buf) cap head
        (n - 1) = (ringList buf cap head n).eraseIdx k := by
  symm
  apply ringList_ext
  · rw [List.length_eraseIdx_of_lt (by rw [ringList_length]; exact hk), ringList_length]
  intro j hj
  rw [shiftDown_at (by omega) (by omega)]
  by_cases hbefore : j < k
  · rw [List.getElem?_eraseIdx_of_lt hbefore, getElem?_ringList (by omega), if_neg (by omega)]
  · rw [List.getElem?_eraseIdx_of_ge (by omega), getElem?_ringList (by omega), if_pos (by omega)]

end Wbox.Lib
