import Mathlib

/-!
# Words that agree on a mask

A register of which only some bits count is the same as another one if they agree on these bits.
Writing a part of a register replaces the bits of a mask and keeps the others.
-/

namespace Wbox.Lib

variable {n : Nat} {m k x y z v : BitVec n}

/-- The bits of `m` are the same in both words. -/
def Agree (m x y : BitVec n) : Prop := x &&& m = y &&& m

instance : Decidable (Agree m x y) := inferInstanceAs (Decidable (_ = _))

/-- The bits of `k` are replaced by those of `v`. -/
def merge (k x v : BitVec n) : BitVec n := (x &&& ~~~k) ||| (v &&& k)

/-- Every bit of `k` is one of `m`. -/
def MaskLe (k m : BitVec n) : Prop := k &&& m = k

instance : Decidable (MaskLe k m) := inferInstanceAs (Decidable (_ = _))

@[refl, simp] theorem Agree.refl (m x : BitVec n) : Agree m x x := rfl

theorem Agree.symm (h : Agree m x y) : Agree m y x := Eq.symm h

theorem Agree.trans (h : Agree m x y) (h' : Agree m y z) : Agree m x z := Eq.trans h h'

/-- Fewer bits agree as well. -/
theorem Agree.mono (h : Agree m x y) (hk : MaskLe k m) : Agree k x y := by
  unfold Agree MaskLe at *
  rw [← hk, BitVec.and_comm k m, ← BitVec.and_assoc, ← BitVec.and_assoc, h]

theorem agree_iff_getLsbD : Agree m x y ↔ ∀ i, m.getLsbD i → x.getLsbD i = y.getLsbD i := by
  constructor
  · intro h i hi
    have hbit := congrArg (BitVec.getLsbD · i) h
    simpa [hi] using hbit
  · intro h
    apply BitVec.eq_of_getLsbD_eq
    intro i _
    rw [BitVec.getLsbD_and, BitVec.getLsbD_and]
    cases hi : m.getLsbD i with
    | false => rw [Bool.and_false, Bool.and_false]
    | true => rw [h i hi]

theorem getLsbD_merge {i : Nat} (hi : i < n) :
    (merge k x v).getLsbD i = if k.getLsbD i then v.getLsbD i else x.getLsbD i := by
  unfold merge
  rw [BitVec.getLsbD_or, BitVec.getLsbD_and, BitVec.getLsbD_and, BitVec.getLsbD_not]
  cases k.getLsbD i <;> simp [hi]

/-- The bits that are written are those of the new word. -/
theorem merge_agree (k x v : BitVec n) : Agree k (merge k x v) v := by
  apply agree_iff_getLsbD.mpr
  intro i hi
  rw [getLsbD_merge (BitVec.lt_of_getLsbD hi), if_pos hi]

/-- What agrees before the same write agrees behind it. -/
theorem Agree.merge (h : Agree m x y) (k v : BitVec n) :
    Agree m (Lib.merge k x v) (Lib.merge k y v) := by
  apply agree_iff_getLsbD.mpr
  intro i hi
  rw [getLsbD_merge (BitVec.lt_of_getLsbD hi), getLsbD_merge (BitVec.lt_of_getLsbD hi),
    agree_iff_getLsbD.mp h i hi]

/-- The part of a word that is read. -/
theorem Agree.and_eq (h : Agree m x y) (hk : MaskLe k m) : x &&& k = y &&& k := h.mono hk

end Wbox.Lib
