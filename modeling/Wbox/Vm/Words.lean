import Mathlib.Order.Interval.Set.Defs
import Wbox.Vm.Paging

/-!
# What writes to physical memory leave alone

Two memories agree on a set of bytes (`SameOn`). Each write, and each loop of writes, keeps the
bytes outside its range, and a read depends on the bytes it covers only.
-/

namespace Wbox.Vm

open Wbox.Lib

/-- `m'` has the size of `m`, and its bytes in a set. -/
structure SameOn (s : Set Nat) (m m' : PhysMem) : Prop where
  size : m'.ramSize = m.ramSize
  ram : ∀ x ∈ s, m'.ram x = m.ram x

/-- The bytes outside of `n` bytes from an address on. -/
def Outside (addr : UInt32) (n : Nat) : Set Nat := {x | x < addr.toNat ∨ addr.toNat + n ≤ x}

variable {s s' : Set Nat} {m m' m'' : PhysMem} {a addr : UInt32} {v : UInt32}

theorem SameOn.refl (s : Set Nat) (m : PhysMem) : SameOn s m m := ⟨rfl, fun _ _ => rfl⟩

theorem SameOn.trans (h : SameOn s m m') (h' : SameOn s m' m'') : SameOn s m m'' where
  size := h'.size.trans h.size
  ram x hx := (h'.ram x hx).trans (h.ram x hx)

theorem SameOn.mono (h : SameOn s m m') (hs : s' ⊆ s) : SameOn s' m m' :=
  ⟨h.size, fun x hx => h.ram x (hs hx)⟩

/-- A loop keeps what each of its writes keeps. -/
theorem SameOn.foldl {ι : Type} {f : PhysMem → ι → PhysMem} {l : List ι}
    (h : ∀ m, ∀ i ∈ l, SameOn s m (f m i)) (m : PhysMem) : SameOn s m (l.foldl f m) := by
  induction l generalizing m with
  | nil => exact .refl s m
  | cons i l ih =>
    have hfirst := h m i List.mem_cons_self
    exact hfirst.trans (ih (fun m j hj => h m j (List.mem_cons_of_mem i hj)) (f m i))

section Reads

/-- A byte read from a set of common bytes. -/
theorem SameOn.readb (h : SameOn s m m') (ha : a.toNat ∈ s) :
    memReadbPhys m' a = memReadbPhys m a := by
  unfold memReadbPhys
  rw [h.size, h.ram _ ha]

/-- A word read from a set of common bytes. -/
theorem SameOn.readl (h : SameOn s m m') (ha : ∀ k < 4, a.toNat + k ∈ s) :
    memReadlPhys m' a = memReadlPhys m a := by
  have h0 : m'.ram a.toNat = m.ram a.toNat := h.ram _ (ha 0 (by omega))
  unfold memReadlPhys
  rw [h.size, h0, h.ram _ (ha 1 (by omega)), h.ram _ (ha 2 (by omega)),
    h.ram _ (ha 3 (by omega))]

/-- A word is read back. -/
theorem memReadlPhys_writel (hfits : (a + 3).toNat < m.ramSize) (v : UInt32) :
    memReadlPhys (memWritelPhys m a v) a = v := by
  have hstore : ∀ k, k < 4 → storeWord m.ram a.toNat v (a.toNat + k) =
      (v >>> UInt32.ofNat (8 * k)).toUInt8 := by
    intro k hk
    have hcases : k = 0 ∨ k = 1 ∨ k = 2 ∨ k = 3 := by omega
    rcases hcases with rfl | rfl | rfl | rfl <;> simp [storeWord, Function.update]
  have h0 : storeWord m.ram a.toNat v a.toNat = v.toUInt8 := by
    simpa using hstore 0 (by omega)
  have h1 : storeWord m.ram a.toNat v (a.toNat + 1) = (v >>> 8).toUInt8 := hstore 1 (by omega)
  have h2 : storeWord m.ram a.toNat v (a.toNat + 2) = (v >>> 16).toUInt8 := hstore 2 (by omega)
  have h3 : storeWord m.ram a.toNat v (a.toNat + 3) = (v >>> 24).toUInt8 := hstore 3 (by omega)
  simp only [memReadlPhys, memWritelPhys, hfits, if_true, h0, h1, h2, h3]
  exact word_of_bytes v

/-- A write leaves the size of memory. -/
theorem memWritebPhys_ramSize (m : PhysMem) (a : UInt32) (v : UInt8) :
    (memWritebPhys m a v).ramSize = m.ramSize := by
  unfold memWritebPhys
  split <;> rfl

end Reads

section Writes

/-- `mem_writel_phys`. -/
theorem sameOn_writel (m : PhysMem) (a v : UInt32) :
    SameOn (Outside a 4) m (memWritelPhys m a v) := by
  unfold memWritelPhys
  split
  · refine ⟨rfl, ?_⟩
    intro x hx
    have hout : x < a.toNat ∨ a.toNat + 4 ≤ x := hx
    simp only [storeWord]
    rw [Function.update_of_ne (by omega), Function.update_of_ne (by omega),
      Function.update_of_ne (by omega), Function.update_of_ne (by omega)]
  · exact .refl _ m

/-- `mem_writeb_phys`. -/
theorem sameOn_writeb (m : PhysMem) (a : UInt32) (v : UInt8) :
    SameOn (Outside a 1) m (memWritebPhys m a v) := by
  unfold memWritebPhys
  split
  · refine ⟨rfl, ?_⟩
    intro x hx
    have hout : x < a.toNat ∨ a.toNat + 1 ≤ x := hx
    apply Function.update_of_ne
    omega
  · exact .refl _ m

/-- The address of a byte of a range that does not wrap. -/
theorem toNat_add_ofNat {n i : Nat} (hi : i < n) (hfits : a.toNat + n ≤ 2 ^ 32) :
    (a + UInt32.ofNat i).toNat = a.toNat + i := by
  have hlt : i < 2 ^ 32 := by omega
  rw [UInt32.toNat_add, UInt32.toNat_ofNat_of_lt' hlt]
  omega

/-- The address of an entry of a table that does not wrap. -/
theorem entry_toNat {i : UInt32} (hi : i.toNat < 1024) (hfits : a.toNat + 4096 ≤ 2 ^ 32) :
    (a + i * 4).toNat = a.toNat + 4 * i.toNat := by
  rw [UInt32.toNat_add, UInt32.toNat_mul]
  simp only [UInt32.reduceToNat]
  omega

/-- A word of an entry, at the entry's number. -/
private theorem entry_ofNat_toNat {i : Nat} (hi : i < 1024) :
    (UInt32.ofNat i).toNat = i :=
  UInt32.toNat_ofNat_of_lt' (Nat.lt_trans hi (by decide))

/-- Clearing a table. -/
theorem sameOn_clearTable (hfits : a.toNat + 4096 ≤ 2 ^ 32) (m : PhysMem) :
    SameOn (Outside a 4096) m (clearTable m a) := by
  apply SameOn.foldl
  intro m i hi
  have hlt : i < 1024 := List.mem_range.mp hi
  apply (sameOn_writel m (a + UInt32.ofNat i * 4) 0).mono
  intro x hx
  have hout : x < a.toNat ∨ a.toNat + 4096 ≤ x := hx
  have hnum := entry_ofNat_toNat hlt
  show x < (a + UInt32.ofNat i * 4).toNat ∨ (a + UInt32.ofNat i * 4).toNat + 4 ≤ x
  rw [entry_toNat (by omega) hfits]
  omega

/-- The entries of a cleared table are 0. -/
theorem clearTable_entry (hfits : a.toNat + 4096 ≤ 2 ^ 32) (hram : a.toNat + 4096 ≤ m.ramSize)
    {i : UInt32} (hi : i.toNat < 1024) : memReadlPhys (clearTable m a) (a + i * 4) = 0 := by
  -- the entries that the first rounds of the loop have met are 0
  have hloop : ∀ n ≤ 1024, ((List.range n).foldl
        (fun mem i => memWritelPhys mem (a + UInt32.ofNat i * 4) 0) m).ramSize = m.ramSize ∧
      ∀ i : UInt32, i.toNat < n → memReadlPhys ((List.range n).foldl
        (fun mem i => memWritelPhys mem (a + UInt32.ofNat i * 4) 0) m) (a + i * 4) = 0 := by
    intro n
    induction n with
    | zero => exact fun _ => ⟨rfl, fun _ hi => absurd hi (Nat.not_lt_zero _)⟩
    | succ n ih =>
      intro hn
      obtain ⟨hsize, hzero⟩ := ih (by omega)
      have hnum := entry_ofNat_toNat (i := n) (by omega)
      have haddr : (a + UInt32.ofNat n * 4).toNat = a.toNat + 4 * n := by
        rw [entry_toNat (by omega) hfits, hnum]
      rw [List.range_succ, List.foldl_append, List.foldl_cons, List.foldl_nil]
      generalize (List.range n).foldl _ m = mem at hsize hzero
      have hwrite := sameOn_writel mem (a + UInt32.ofNat n * 4) 0
      refine ⟨hwrite.size.trans hsize, ?_⟩
      intro i hi
      by_cases hin : i.toNat = n
      · have hi' : i = UInt32.ofNat n := UInt32.toNat_inj.mp (hin.trans hnum.symm)
        rw [hi']
        apply memReadlPhys_writel
        rw [hsize, UInt32.toNat_add, haddr]
        simp only [UInt32.reduceToNat]
        omega
      · rw [hwrite.readl, hzero i (by omega)]
        intro k hk
        show (a + i * 4).toNat + k < (a + UInt32.ofNat n * 4).toNat ∨
          (a + UInt32.ofNat n * 4).toNat + 4 ≤ (a + i * 4).toNat + k
        rw [haddr, entry_toNat (by omega) hfits]
        omega
  exact (hloop 1024 (Nat.le_refl _)).2 i hi

/-- Zeroing a region. -/
theorem sameOn_zeroPhys {size : UInt32} (hfits : addr.toNat + size.toNat ≤ 2 ^ 32) (m : PhysMem) :
    SameOn (Outside addr size.toNat) m (zeroPhys m addr size) := by
  apply SameOn.foldl
  intro m i hi
  have hlt : i < size.toNat := List.mem_range.mp hi
  apply (sameOn_writeb m (addr + UInt32.ofNat i) 0).mono
  intro x hx
  have hout : x < addr.toNat ∨ addr.toNat + size.toNat ≤ x := hx
  show x < (addr + UInt32.ofNat i).toNat ∨ (addr + UInt32.ofNat i).toNat + 1 ≤ x
  rw [toNat_add_ofNat hlt hfits]
  omega

end Writes

end Wbox.Vm
