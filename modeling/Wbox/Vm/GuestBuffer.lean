import Wbox.Lib.Word
import Wbox.Vm.Guest

/-!
# Buffers in guest memory

A buffer is filled from its first byte on; addresses are counted from there, so that nothing wraps
unless the buffer is as large as the address space.
-/

namespace Wbox.Vm

open Wbox.Lib

/-- A byte of a word, the lowest one first. -/
def wordByte (v : UInt32) (j : Nat) : UInt8 := (v >>> UInt32.ofNat (8 * j)).toUInt8

/-- A byte of a half word. -/
def halfByte (v : UInt16) (j : Nat) : UInt8 := (v >>> UInt16.ofNat (8 * j)).toUInt8

theorem halfByte_zero (j : Nat) : halfByte 0 j = 0 := by
  unfold halfByte
  rw [UInt16.zero_shiftRight]
  rfl

/-- The first bytes of a buffer have been written; all other bytes are as they were. -/
def Filled (m : GuestMem) (base : UInt32) (content : Nat → UInt8) (n : Nat) (m' : GuestMem) :
    Prop :=
  ∀ a, m' a = if (a - base).toNat < n then content (a - base).toNat else m a

variable {m m' : GuestMem} {base a : UInt32} {content : Nat → UInt8} {n k : Nat}

theorem toNat_add_sub (base : UInt32) (hk : k < 2 ^ 32) :
    (base + UInt32.ofNat k - base).toNat = k := by
  rw [UInt32.add_comm, UInt32.add_sub_cancel]
  exact UInt32.toNat_ofNat_of_lt' hk

/-- The address of a byte of the buffer. -/
theorem eq_add_of_toNat_sub (h : (a - base).toNat = k) : a = base + UInt32.ofNat k := by
  rw [← h, UInt32.ofNat_toNat, UInt32.add_comm, UInt32.sub_add_cancel]

theorem filled_zero (m : GuestMem) (base : UInt32) (content : Nat → UInt8) :
    Filled m base content 0 m := fun _ => rfl

theorem Filled.at (h : Filled m base content n m') (hk : k < n) (hn : n ≤ 2 ^ 32) :
    m' (base + UInt32.ofNat k) = content k := by
  rw [h, toNat_add_sub base (by omega), if_pos hk]

theorem Filled.off (h : Filled m base content n m') (hk : n ≤ (a - base).toNat) : m' a = m a := by
  rw [h, if_neg (by omega)]

/-- A byte that is as it should be need not be written. -/
theorem Filled.succ (h : Filled m base content n m')
    (hsame : m (base + UInt32.ofNat n) = content n) :
    Filled m base content (n + 1) m' := by
  intro a
  rw [h a]
  by_cases hlt : (a - base).toNat < n
  · rw [if_pos hlt, if_pos (by omega)]
  · rw [if_neg hlt]
    split
    · next hle =>
      have heq : (a - base).toNat = n := by omega
      rw [heq, eq_add_of_toNat_sub heq, hsame]
    · rfl

/-- The next byte is written. -/
theorem Filled.write (h : Filled m base content n m') (hn : n < 2 ^ 32) :
    Filled m base content (n + 1)
      (Function.update m' (base + UInt32.ofNat n) (content n)) := by
  intro a
  by_cases ha : a = base + UInt32.ofNat n
  · rw [ha, Function.update_self, toNat_add_sub base hn, if_pos (Nat.lt_succ_self n)]
  · have hne : (a - base).toNat ≠ n := fun heq => ha (eq_add_of_toNat_sub heq)
    rw [Function.update_of_ne ha, h a]
    by_cases hlt : (a - base).toNat < n
    · rw [if_pos hlt, if_pos (by omega)]
    · rw [if_neg hlt, if_neg (by omega)]

theorem add_ofNat_ofNat (base : UInt32) (n k : Nat) :
    base + UInt32.ofNat n + UInt32.ofNat k = base + UInt32.ofNat (n + k) := by
  rw [UInt32.ofNat_add, UInt32.add_assoc]

/-- The next half word is written. -/
theorem Filled.writewl (h : Filled m base content n m') (hn : n + 2 ≤ 2 ^ 32) {v : UInt16}
    (hv : ∀ j < 2, content (n + j) = halfByte v j) :
    Filled m base content (n + 2) (writememwl m' (base + UInt32.ofNat n) v) := by
  have h0 := h.write (by omega)
  have h1 := h0.write (by omega)
  have hv0 : content n = v.toUInt8 := hv 0 (by decide)
  have hv1 : content (n + 1) = (v >>> 8).toUInt8 := hv 1 (by decide)
  rw [hv0, hv1, ← add_ofNat_ofNat base n 1] at h1
  exact h1

/-- The next word is written. -/
theorem Filled.writell (h : Filled m base content n m') (hn : n + 4 ≤ 2 ^ 32) {v : UInt32}
    (hv : ∀ j < 4, content (n + j) = wordByte v j) :
    Filled m base content (n + 4) (writememll m' (base + UInt32.ofNat n) v) := by
  have h3 := (((h.write (by omega)).write (by omega)).write (by omega)).write (by omega)
  have hv0 : content n = v.toUInt8 := hv 0 (by decide)
  have hv1 : content (n + 1) = (v >>> 8).toUInt8 := hv 1 (by decide)
  have hv2 : content (n + 1 + 1) = (v >>> 16).toUInt8 := hv 2 (by decide)
  have hv3 : content (n + 1 + 1 + 1) = (v >>> 24).toUInt8 := hv 3 (by decide)
  have ha2 : base + UInt32.ofNat (n + 1 + 1) = base + UInt32.ofNat n + 2 :=
    (add_ofNat_ofNat base n 2).symm
  have ha3 : base + UInt32.ofNat (n + 1 + 1 + 1) = base + UInt32.ofNat n + 3 :=
    (add_ofNat_ofNat base n 3).symm
  rw [hv0, hv1, hv2, hv3, ← add_ofNat_ofNat base n 1, ha2, ha3] at h3
  exact h3

/-- Words at offsets from an address, one after the other. -/
def writeFields (m : GuestMem) (va : UInt32) (fields : List (UInt32 × UInt32)) : GuestMem :=
  fields.foldl (fun m field => writememll m (va + field.1) field.2) m

/-- The next words are written. -/
theorem Filled.fields {vals : List UInt32} {start : Nat}
    (h : Filled m base content (n + 4 * start) m')
    (hn : n + 4 * (start + vals.length) ≤ 2 ^ 32)
    (hv : ∀ i < vals.length, ∀ j < 4,
      content (n + 4 * (start + i) + j) = wordByte (vals.getD i 0) j) :
    Filled m base content (n + 4 * (start + vals.length))
      (writeFields m' (base + UInt32.ofNat n)
        ((vals.zipIdx start).map fun p => (UInt32.ofNat (4 * p.2), p.1))) := by
  induction vals generalizing start m' with
  | nil => exact h
  | cons v vals ih =>
    have hlen : start + (v :: vals).length = start + 1 + vals.length := by
      rw [List.length_cons]
      omega
    rw [hlen] at hn ⊢
    have hword : Filled m base content (n + 4 * (start + 1))
        (writememll m' (base + UInt32.ofNat n + UInt32.ofNat (4 * start)) v) := by
      rw [add_ofNat_ofNat]
      apply h.writell (by omega)
      exact fun j hj => hv 0 (Nat.succ_pos _) j hj
    apply ih hword hn
    intro i hi j hj
    have hnext := hv (i + 1) (Nat.succ_lt_succ hi) j hj
    rw [List.getD_cons_succ] at hnext
    have hidx : start + 1 + i = start + (i + 1) := by omega
    rw [hidx]
    exact hnext

/-- Words with their offsets. -/
def wordFields (vals : List UInt32) : List (UInt32 × UInt32) :=
  (vals.zipIdx 0).map fun p => (UInt32.ofNat (4 * p.2), p.1)

/-- The next words are written, with offsets from the first of them. -/
theorem Filled.words {vals : List UInt32} (h : Filled m base content n m')
    (hn : n + 4 * vals.length ≤ 2 ^ 32)
    (hv : ∀ i < vals.length, ∀ j < 4, content (n + 4 * i + j) = wordByte (vals.getD i 0) j) :
    Filled m base content (n + 4 * vals.length)
      (writeFields m' (base + UInt32.ofNat n) (wordFields vals)) := by
  have hstart : Filled m base content (n + 4 * 0) m' := h
  have hlen : 0 + vals.length = vals.length := Nat.zero_add _
  have hwritten := hstart.fields (by rwa [hlen]) fun i hi j hj => by
    rw [Nat.zero_add]
    exact hv i hi j hj
  rw [hlen] at hwritten
  exact hwritten

section Reading

variable {v : UInt16} {w : UInt32}

/-- The bytes of a half word that is read. -/
theorem halfByte_readmemwl {j : Nat} (hj : j < 2) :
    halfByte (readmemwl m a) j = m (a + UInt32.ofNat j) := by
  obtain ⟨hlow, hhigh⟩ := bytes_of_half (m a) (m (a + 1))
  match j, hj with
  | 0, _ =>
    have hzero : a + UInt32.ofNat 0 = a := UInt32.add_zero a
    rw [hzero]
    exact hlow
  | 1, _ => exact hhigh

/-- A half word is read if its bytes are there, and only then. -/
theorem readmemwl_eq_iff :
    readmemwl m a = v ↔ ∀ j < 2, m (a + UInt32.ofNat j) = halfByte v j := by
  constructor
  · rintro rfl j hj
    exact (halfByte_readmemwl hj).symm
  · intro h
    have h0 : m a = v.toUInt8 := by
      have hzero : a + UInt32.ofNat 0 = a := UInt32.add_zero a
      have hbyte := h 0 (by decide)
      rw [hzero] at hbyte
      exact hbyte
    have h1 : m (a + 1) = (v >>> 8).toUInt8 := h 1 (by decide)
    unfold readmemwl
    rw [h0, h1]
    exact half_of_bytes v

/-- A word is read if its bytes are there. -/
theorem readmemll_of_bytes (h : ∀ j < 4, m (a + UInt32.ofNat j) = wordByte w j) :
    readmemll m a = w := by
  have h0 : m a = w.toUInt8 := by
    have hzero : a + UInt32.ofNat 0 = a := UInt32.add_zero a
    have hbyte := h 0 (by decide)
    rw [hzero] at hbyte
    exact hbyte
  have h1 : m (a + 1) = (w >>> 8).toUInt8 := h 1 (by decide)
  have h2 : m (a + 2) = (w >>> 16).toUInt8 := h 2 (by decide)
  have h3 : m (a + 3) = (w >>> 24).toUInt8 := h 3 (by decide)
  unfold readmemll
  rw [h0, h1, h2, h3]
  exact word_of_bytes w

/-- A half word is its bytes. -/
theorem halfByte_ext {v' : UInt16} (h : ∀ j < 2, halfByte v j = halfByte v' j) : v = v' := by
  have h0 : v.toUInt8 = v'.toUInt8 := h 0 (by decide)
  have h1 : (v >>> 8).toUInt8 = (v' >>> 8).toUInt8 := h 1 (by decide)
  rw [← half_of_bytes v, h0, h1]
  exact half_of_bytes v'

theorem readmemwl_congr (h : ∀ j < 2, m' (a + UInt32.ofNat j) = m (a + UInt32.ofNat j)) :
    readmemwl m' a = readmemwl m a := by
  apply readmemwl_eq_iff.mpr
  intro j hj
  rw [halfByte_readmemwl hj, h j hj]

end Reading

section Frame

/-- A half word changes its two bytes only. -/
theorem writememwl_of_ne {b : UInt32} (v : UInt16) (h : b ≠ a) (h' : b ≠ a + 1) :
    writememwl m a v b = m b := by
  unfold writememwl
  rw [Function.update_of_ne h', Function.update_of_ne h]

/-- A word changes its four bytes only. -/
theorem writememll_of_ne {b : UInt32} (w : UInt32) (h : ∀ j < 4, b ≠ a + UInt32.ofNat j) :
    writememll m a w b = m b := by
  have h0 : b ≠ a := by
    have hzero : a + UInt32.ofNat 0 = a := UInt32.add_zero a
    have hne := h 0 (by decide)
    rwa [hzero] at hne
  have h1 : b ≠ a + 1 := h 1 (by decide)
  have h2 : b ≠ a + 2 := h 2 (by decide)
  have h3 : b ≠ a + 3 := h 3 (by decide)
  unfold writememll
  rw [Function.update_of_ne h3, Function.update_of_ne h2, Function.update_of_ne h1,
    Function.update_of_ne h0]

/-- The bytes of a half word that has been written. -/
theorem writememwl_bytes (v : UInt16) {j : Nat} (hj : j < 2) :
    writememwl m a v (a + UInt32.ofNat j) = halfByte v j := by
  have hne : a ≠ a + 1 := by
    intro heq
    have hsub := congrArg (· - a) heq
    simp [UInt32.add_comm a 1] at hsub
  unfold writememwl
  match j, hj with
  | 0, _ =>
    have hzero : a + UInt32.ofNat 0 = a := UInt32.add_zero a
    rw [hzero, Function.update_of_ne hne, Function.update_self]
    rfl
  | 1, _ => exact Function.update_self _ _ _

end Frame

end Wbox.Vm
