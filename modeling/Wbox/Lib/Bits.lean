import Mathlib.Data.List.Basic

/-!
# Bits of 32-bit words

A word is what its bits are. Bitwise operations act on each bit alone, and so does a loop over the
32 bits that sets some of them.
-/

namespace Wbox.Lib

/-- A bit of a word. -/
def bit (w : UInt32) (k : Nat) : Bool := w.toBitVec.getLsbD k

variable {v w : UInt32} {k n : Nat}

/-- Words with the same bits are the same. -/
theorem bit_ext (h : ∀ k < 32, bit v k = bit w k) : v = w := by
  apply UInt32.eq_of_toBitVec_eq
  ext k hk
  exact h k hk

@[simp] theorem bit_zero (k : Nat) : bit 0 k = false := BitVec.getLsbD_zero

@[simp] theorem bit_and (v w : UInt32) (k : Nat) : bit (v &&& w) k = (bit v k && bit w k) :=
  BitVec.getLsbD_and

@[simp] theorem bit_or (v w : UInt32) (k : Nat) : bit (v ||| w) k = (bit v k || bit w k) :=
  BitVec.getLsbD_or

@[simp] theorem bit_xor (v w : UInt32) (k : Nat) : bit (v ^^^ w) k = (bit v k ^^ bit w k) :=
  BitVec.getLsbD_xor

theorem bit_not (w : UInt32) (hk : k < 32) : bit (~~~w) k = !bit w k := by
  show (~~~w.toBitVec).getLsbD k = !w.toBitVec.getLsbD k
  rw [BitVec.getLsbD_not, decide_eq_true hk, Bool.true_and]

/-- The word of one bit. -/
theorem bit_mask (hn : n < 32) (k : Nat) : bit (1 <<< UInt32.ofNat n) k = decide (k = n) := by
  have hshift : (1 <<< UInt32.ofNat n : UInt32).toBitVec = BitVec.twoPow 32 n := by
    rw [UInt32.toBitVec_shiftLeft, BitVec.twoPow_eq]
    apply BitVec.eq_of_toNat_eq
    have hmod : n % 4294967296 % 32 = n := by omega
    simp [hmod]
  unfold bit
  rw [hshift, BitVec.getLsbD_twoPow]
  by_cases heq : k = n
  · simp [heq, hn]
  · simp [heq, Ne.symm heq]

/-- A word masked with one of its bits. -/
theorem and_mask_ne_zero (w : UInt32) (hn : n < 32) :
    w &&& 1 <<< UInt32.ofNat n ≠ 0 ↔ bit w n = true := by
  constructor
  · intro hne
    apply Classical.byContradiction
    intro hbit
    apply hne
    apply bit_ext
    intro k hk
    rw [bit_and, bit_mask hn, bit_zero]
    by_cases heq : k = n
    · rw [heq, Bool.eq_false_iff.mpr hbit, Bool.false_and]
    · rw [decide_eq_false heq, Bool.and_false]
  · intro hbit hzero
    have hmask : bit (w &&& 1 <<< UInt32.ofNat n) n = true := by
      rw [bit_and, bit_mask hn, hbit, decide_eq_true rfl, Bool.true_and]
    rw [hzero, bit_zero] at hmask
    cases hmask

/-- A loop over the lower bits that sets those with a property. -/
theorem bit_setBits (c : Nat → Prop) [DecidablePred c] (hn : n ≤ 32) (k : Nat) :
    bit ((List.range n).foldl
      (fun result i => if c i then result ||| 1 <<< UInt32.ofNat i else result) 0) k =
      decide (k < n ∧ c k) := by
  induction n with
  | zero => simp
  | succ n ih =>
    rw [List.range_succ, List.foldl_append, List.foldl_cons, List.foldl_nil]
    have hlow := ih (by omega)
    have hsplit : k < n + 1 ↔ k < n ∨ k = n := by omega
    split
    · next hc =>
      rw [bit_or, hlow, bit_mask (by omega)]
      by_cases heq : k = n
      · subst heq
        simp [hc]
      · simp [heq, hsplit]
    · next hc =>
      rw [hlow]
      by_cases heq : k = n
      · subst heq
        simp [hc]
      · simp [heq, hsplit]

end Wbox.Lib
