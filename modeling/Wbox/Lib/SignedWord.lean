import Mathlib.Algebra.Ring.Int.Defs
import Mathlib.Algebra.Ring.Nat
import Mathlib.Data.List.Basic

/-!
# Signed 32-bit numbers

Sums and products of C `int`s, which wrap in 32 bits, where they do not; and the numbers that a
loop `for (i = lo; i < hi; i++)` goes through.
-/

namespace Wbox.Lib

variable {a b i lo hi : Int32}

theorem bmod_of_fits {x : Int} (hlo : -2 ^ 31 ≤ x) (hhi : x < 2 ^ 31) : x.bmod (2 ^ 32) = x := by
  rw [Int.bmod_def]
  omega

theorem int_add_of_fits (hlo : -2 ^ 31 ≤ a.toInt + b.toInt) (hhi : a.toInt + b.toInt < 2 ^ 31) :
    (a + b).toInt = a.toInt + b.toInt := by
  rw [Int32.toInt_add]
  exact bmod_of_fits hlo hhi

theorem int_sub_of_fits (hlo : -2 ^ 31 ≤ a.toInt - b.toInt) (hhi : a.toInt - b.toInt < 2 ^ 31) :
    (a - b).toInt = a.toInt - b.toInt := by
  rw [Int32.toInt_sub]
  exact bmod_of_fits hlo hhi

theorem int_mul_of_fits (hlo : -2 ^ 31 ≤ a.toInt * b.toInt) (hhi : a.toInt * b.toInt < 2 ^ 31) :
    (a * b).toInt = a.toInt * b.toInt := by
  rw [Int32.toInt_mul]
  exact bmod_of_fits hlo hhi

/-- A sum of two numbers that are not negative is negative if it wraps. -/
theorem int_add_wraps (ha : 0 ≤ a.toInt) (hb : 0 ≤ b.toInt) (h : 2 ^ 31 ≤ a.toInt + b.toInt) :
    (a + b).toInt < 0 := by
  have hlta := a.toInt_lt
  have hltb := b.toInt_lt
  rw [Int32.toInt_add, Int.bmod_def]
  omega

/-- An unsigned number that is a signed one, too. -/
theorem toInt_toInt32 {n : UInt32} (h : n.toNat < 2 ^ 31) : n.toInt32.toInt = n.toNat := by
  have hbits : n.toInt32.toInt = n.toBitVec.toInt := rfl
  have hnat : n.toBitVec.toNat = n.toNat := rfl
  rw [hbits, BitVec.toInt_eq_toNat_bmod, hnat]
  exact bmod_of_fits (by omega) (by omega)

/-- A signed number that is an unsigned one, too. -/
theorem toNat_toUInt32 (h : 0 ≤ a.toInt) : a.toUInt32.toNat = a.toInt.toNat := by
  have hle : 0 ≤ a := by
    rw [Int32.le_iff_toInt_le, Int32.toInt_zero]
    exact h
  exact Int32.toNat_toUInt32_of_le hle

/-- The numbers from `lo` on and before `hi`. -/
def countUp (lo hi : Int32) : List Int32 :=
  (List.range (hi.toInt - lo.toInt).toNat).map fun k : Nat => Int32.ofInt (lo.toInt + k)

theorem mem_countUp : i ∈ countUp lo hi ↔ lo.toInt ≤ i.toInt ∧ i.toInt < hi.toInt := by
  have hhi := hi.toInt_lt
  have hlo := lo.le_toInt
  unfold countUp
  rw [List.mem_map]
  constructor
  · intro ⟨k, hk, hki⟩
    have hlt : k < (hi.toInt - lo.toInt).toNat := List.mem_range.mp hk
    rw [← hki, Int32.toInt_ofInt_of_le (by omega) (by omega)]
    omega
  · intro ⟨hle, hlt⟩
    refine ⟨(i.toInt - lo.toInt).toNat, List.mem_range.mpr (by omega), ?_⟩
    apply Int32.toInt_inj.mp
    rw [Int32.toInt_ofInt_of_le (by omega) (by omega)]
    omega

/-- A loop that starts at 0, as one over natural numbers. -/
theorem foldl_countUp {σ : Type} (g : σ → Int → σ) (n : Int32) (s : σ) :
    (countUp 0 n).foldl (fun s i => g s i.toInt) s =
      (List.range n.toInt.toNat).foldl (fun s (k : Nat) => g s k) s := by
  have hlt := n.toInt_lt
  unfold countUp
  rw [List.foldl_map, Int32.toInt_zero, Int.sub_zero]
  apply List.foldl_ext
  intro s k hk
  have hkn : k < n.toInt.toNat := List.mem_range.mp hk
  rw [Int.zero_add, Int32.toInt_ofInt_of_le (by omega) (by omega)]

end Wbox.Lib
