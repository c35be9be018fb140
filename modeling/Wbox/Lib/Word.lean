import Mathlib.Data.Nat.Bitwise

/-!
# Masks of machine words

Bitwise operations that are arithmetic on the value of the word.
-/

namespace Wbox.Lib

/-- A mask of the bits from `k` up to `w` rounds a `w`-bit number down. -/
theorem and_highMask {x w k : Nat} (hx : x < 2 ^ w) :
    x &&& (2 ^ (w - k) - 1) * 2 ^ k = x / 2 ^ k * 2 ^ k := by
  apply Nat.eq_of_testBit_eq
  intro i
  rw [Nat.testBit_and, Nat.testBit_mul_two_pow, Nat.testBit_mul_two_pow,
    Nat.testBit_two_pow_sub_one, Nat.testBit_div_two_pow]
  by_cases hk : k ≤ i
  · by_cases hw : i - k < w - k
    · simp [hk, hw]
    · have hpow : 2 ^ w ≤ 2 ^ i := Nat.pow_le_pow_right (by omega) (by omega)
      simp [hk, hw, Nat.testBit_lt_two_pow (Nat.lt_of_lt_of_le hx hpow)]
  · simp [hk]

/-- A size is rounded up to a multiple of 4. -/
theorem toNat_roundUp4 {size : UInt32} (h : size.toNat + 3 < 2 ^ 32) :
    ((size + 3) &&& ~~~3).toNat = (size.toNat + 3) / 4 * 4 := by
  have hmask : (~~~(3 : UInt32)).toNat = (2 ^ (32 - 2) - 1) * 2 ^ 2 := by decide
  have hsum : (size + 3).toNat = size.toNat + 3 := by
    rw [UInt32.toNat_add]
    exact Nat.mod_eq_of_lt h
  rw [UInt32.toNat_and, hmask, hsum]
  exact and_highMask h

/-- A number below `2 ^ k` with another one above it. -/
theorem or_shiftLeft {lo k : Nat} (hi : Nat) (h : lo < 2 ^ k) :
    lo ||| hi <<< k = lo + hi * 2 ^ k := by
  rw [Nat.or_comm, ← Nat.shiftLeft_add_eq_or_of_lt h, Nat.shiftLeft_eq, Nat.add_comm]

/-- The four bytes of a word, put together again. -/
theorem word_of_bytes (v : UInt32) :
    v.toUInt8.toUInt32 ||| (v >>> 8).toUInt8.toUInt32 <<< 8 |||
      (v >>> 16).toUInt8.toUInt32 <<< 16 ||| (v >>> 24).toUInt8.toUInt32 <<< 24 = v := by
  have hv := v.toNat_lt
  have hfits : ∀ b k : Nat, b < 256 → k ≤ 24 → (b <<< k) % 2 ^ 32 = b <<< k := by
    intro b k hb hk
    apply Nat.mod_eq_of_lt
    rw [Nat.shiftLeft_eq]
    calc b * 2 ^ k < 2 ^ 8 * 2 ^ k := Nat.mul_lt_mul_of_pos_right hb (Nat.two_pow_pos k)
      _ = 2 ^ (8 + k) := (Nat.pow_add 2 8 k).symm
      _ ≤ 2 ^ 32 := Nat.pow_le_pow_right (by decide) (by omega)
  apply UInt32.toNat_inj.mp
  simp only [UInt32.toNat_or, UInt32.toNat_shiftLeft, UInt8.toNat_toUInt32, UInt32.toNat_toUInt8,
    UInt32.toNat_shiftRight, UInt32.reduceToNat, Nat.reduceMod, Nat.shiftRight_eq_div_pow]
  rw [hfits _ 8 (by omega) (by omega), hfits _ 16 (by omega) (by omega),
    hfits _ 24 (by omega) (by omega)]
  have htwo : v.toNat % 2 ^ 8 ||| (v.toNat / 2 ^ 8 % 2 ^ 8) <<< 8 = v.toNat % 2 ^ 16 := by
    rw [or_shiftLeft _ (by omega)]
    omega
  have hthree : v.toNat % 2 ^ 16 ||| (v.toNat / 2 ^ 16 % 2 ^ 8) <<< 16 = v.toNat % 2 ^ 24 := by
    rw [or_shiftLeft _ (by omega)]
    omega
  rw [htwo, hthree, or_shiftLeft _ (by omega)]
  omega

/-- The two bytes of a half word, put together again. -/
theorem half_of_bytes (v : UInt16) : v.toUInt8.toUInt16 ||| (v >>> 8).toUInt8.toUInt16 <<< 8 = v := by
  have hv := v.toNat_lt
  have hfits : (v.toNat / 2 ^ 8 % 2 ^ 8) <<< 8 % 2 ^ 16 = (v.toNat / 2 ^ 8 % 2 ^ 8) <<< 8 := by
    rw [Nat.shiftLeft_eq]
    omega
  apply UInt16.toNat_inj.mp
  simp only [UInt16.toNat_or, UInt16.toNat_shiftLeft, UInt8.toNat_toUInt16, UInt16.toNat_toUInt8,
    UInt16.toNat_shiftRight, UInt16.reduceToNat, Nat.reduceMod, Nat.shiftRight_eq_div_pow]
  rw [hfits, or_shiftLeft _ (by omega)]
  omega

/-- Two bytes that were put together are the bytes of the half word. -/
theorem bytes_of_half (lo hi : UInt8) :
    (lo.toUInt16 ||| hi.toUInt16 <<< 8).toUInt8 = lo ∧
      ((lo.toUInt16 ||| hi.toUInt16 <<< 8) >>> 8).toUInt8 = hi := by
  have hlo := lo.toNat_lt
  have hhi := hi.toNat_lt
  have hshift : hi.toNat <<< 8 % 2 ^ 16 = hi.toNat <<< 8 := by
    rw [Nat.shiftLeft_eq]
    omega
  constructor
  · apply UInt8.toNat_inj.mp
    simp only [UInt16.toNat_or, UInt16.toNat_shiftLeft, UInt8.toNat_toUInt16, UInt16.toNat_toUInt8,
      UInt16.reduceToNat, Nat.reduceMod]
    rw [hshift, or_shiftLeft _ hlo]
    omega
  · apply UInt8.toNat_inj.mp
    simp only [UInt16.toNat_or, UInt16.toNat_shiftLeft, UInt8.toNat_toUInt16, UInt16.toNat_toUInt8,
      UInt16.toNat_shiftRight, UInt16.reduceToNat, Nat.reduceMod, Nat.shiftRight_eq_div_pow]
    rw [hshift, or_shiftLeft _ hlo]
    omega

end Wbox.Lib
