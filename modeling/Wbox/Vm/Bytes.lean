import Wbox.Lib.Word
import Wbox.Vm.Memory

/-!
# Words in arrays of bytes

Words and half words are stored with their low bytes first, and are read back where no later store
has overwritten them.
-/

namespace Wbox.Vm

open Wbox.Lib

/-- The two bytes of a half word stored at an index of an array. -/
def storeHalf (ram : Nat → UInt8) (i : Nat) (val : UInt16) : Nat → UInt8 :=
  Function.update (Function.update ram i val.toUInt8) (i + 1) (val >>> 8).toUInt8

/-- The word at an index of an array. -/
def loadWord (ram : Nat → UInt8) (i : Nat) : UInt32 :=
  (ram i).toUInt32 ||| (ram (i + 1)).toUInt32 <<< 8 ||| (ram (i + 2)).toUInt32 <<< 16 |||
    (ram (i + 3)).toUInt32 <<< 24

/-- The half word at an index of an array. -/
def loadHalf (ram : Nat → UInt8) (i : Nat) : UInt16 :=
  (ram i).toUInt16 ||| (ram (i + 1)).toUInt16 <<< 8

variable {ram ram' : Nat → UInt8} {i j : Nat}

/-- A store changes the four bytes of its word. -/
theorem storeWord_of_ne (val : UInt32) (h : j < i ∨ i + 4 ≤ j) : storeWord ram i val j = ram j := by
  unfold storeWord
  rw [Function.update_of_ne (by omega), Function.update_of_ne (by omega),
    Function.update_of_ne (by omega), Function.update_of_ne (by omega)]

theorem storeHalf_of_ne (val : UInt16) (h : j < i ∨ i + 2 ≤ j) : storeHalf ram i val j = ram j := by
  unfold storeHalf
  rw [Function.update_of_ne (by omega), Function.update_of_ne (by omega)]

theorem storeHalf_low (ram : Nat → UInt8) (i : Nat) (val : UInt16) :
    storeHalf ram i val i = val.toUInt8 := by
  simp [storeHalf]

/-- A word depends on its four bytes. -/
theorem loadWord_congr (h : ∀ k < 4, ram' (i + k) = ram (i + k)) :
    loadWord ram' i = loadWord ram i := by
  have h0 : ram' i = ram i := h 0 (by omega)
  unfold loadWord
  rw [h0, h 1 (by omega), h 2 (by omega), h 3 (by omega)]

theorem loadHalf_congr (h : ∀ k < 2, ram' (i + k) = ram (i + k)) :
    loadHalf ram' i = loadHalf ram i := by
  have h0 : ram' i = ram i := h 0 (by omega)
  unfold loadHalf
  rw [h0, h 1 (by omega)]

theorem loadWord_storeWord (ram : Nat → UInt8) (i : Nat) (val : UInt32) :
    loadWord (storeWord ram i val) i = val := by
  have h0 : storeWord ram i val i = val.toUInt8 := by simp [storeWord]
  have h1 : storeWord ram i val (i + 1) = (val >>> 8).toUInt8 := by simp [storeWord]
  have h2 : storeWord ram i val (i + 2) = (val >>> 16).toUInt8 := by simp [storeWord]
  have h3 : storeWord ram i val (i + 3) = (val >>> 24).toUInt8 := by simp [storeWord]
  unfold loadWord
  rw [h0, h1, h2, h3]
  exact word_of_bytes val

theorem loadHalf_storeHalf (ram : Nat → UInt8) (i : Nat) (val : UInt16) :
    loadHalf (storeHalf ram i val) i = val := by
  have hlow : storeHalf ram i val i = val.toUInt8 := storeHalf_low ram i val
  have hhigh : storeHalf ram i val (i + 1) = (val >>> 8).toUInt8 := by simp [storeHalf]
  unfold loadHalf
  rw [hlow, hhigh]
  exact half_of_bytes val

theorem loadWord_storeWord_of_ne (val : UInt32) (h : j + 4 ≤ i ∨ i + 4 ≤ j) :
    loadWord (storeWord ram i val) j = loadWord ram j := by
  apply loadWord_congr
  intro k hk
  apply storeWord_of_ne
  omega

end Wbox.Vm
