import Mathlib.Data.Finset.Card
import Wbox.Vm.Frames
import Wbox.Vm.Words

/-!
# The tree of page tables

The page directory and its tables (`src/vm/paging.c:31–114`, `137–176`). As long as they lie apart
in the pages that `paging_init` reserves (`TableTree`), taking a table changes no entry, and
`paging_map_page` changes the entry of its page alone.
-/

namespace Wbox.Vm

open Wbox.Lib

/-- The present bit of an entry. -/
def Present (entry : UInt32) : Prop := entry &&& ptePresent ≠ 0

instance (entry : UInt32) : Decidable (Present entry) :=
  inferInstanceAs (Decidable (entry &&& ptePresent ≠ 0))

/-- An entry of the page directory. -/
def PagedVm.pde (vm : PagedVm) (i : UInt32) : UInt32 :=
  memReadlPhys vm.mem (vm.paging.pdPhys + i * 4)

/-- An entry of a page table. -/
def PagedVm.pte (vm : PagedVm) (table i : UInt32) : UInt32 :=
  memReadlPhys vm.mem (table + i * 4)

/-- `paging_get_phys` of the machine. -/
def PagedVm.translate (vm : PagedVm) (va : UInt32) : UInt32 :=
  pagingGetPhys vm.mem vm.paging.toPagingContext va

/-- The tables lie behind the directory and before the next one to be taken, each for one
directory entry. -/
structure TableTree (vm : PagedVm) : Prop where
  page : vm.paging.pdPhys.toNat % 4096 = 0
  nextPage : vm.paging.nextPtPhys.toNat % 4096 = 0
  first : vm.paging.pdPhys.toNat + 4096 ≤ vm.paging.nextPtPhys.toNat
  last : vm.paging.nextPtPhys.toNat ≤ vm.paging.physAllocBase.toNat
  ram : vm.paging.physAllocBase.toNat ≤ vm.mem.ramSize
  space : vm.paging.physAllocBase.toNat ≤ 2 ^ 32 - 4096
  table : ∀ i, i.toNat < 1024 → Present (vm.pde i) →
    vm.paging.pdPhys.toNat + 4096 ≤ (vm.pde i &&& pageMask).toNat ∧
      (vm.pde i &&& pageMask).toNat + 4096 ≤ vm.paging.nextPtPhys.toNat
  apart : ∀ i j, i.toNat < 1024 → j.toNat < 1024 → Present (vm.pde i) → Present (vm.pde j) →
    vm.pde i &&& pageMask = vm.pde j &&& pageMask → i = j

/-- The page table entry of a page, 0 if there is no table. -/
def PagedVm.entryAt (vm : PagedVm) (va : UInt32) : UInt32 :=
  if Present (vm.pde (vaPdeIndex (va &&& pageMask))) then
    vm.pte (vm.pde (vaPdeIndex (va &&& pageMask)) &&& pageMask) (vaPteIndex (va &&& pageMask))
  else 0

section Bits

/-- The page of an address. -/
theorem pageMask_toNat (x : UInt32) : (x &&& pageMask).toNat = x.toNat / 4096 * 4096 := by
  have hmask : pageMask.toNat = (2 ^ (32 - 12) - 1) * 2 ^ 12 := by decide
  rw [UInt32.toNat_and, hmask]
  exact and_highMask x.toNat_lt

theorem vaPdeIndex_toNat (va : UInt32) : (vaPdeIndex va).toNat = va.toNat / 2 ^ 22 := by
  have hva := va.toNat_lt
  have hmask : (0x3FF : UInt32).toNat = 2 ^ 10 - 1 := by decide
  rw [vaPdeIndex, UInt32.toNat_and, UInt32.toNat_shiftRight, hmask, Nat.and_two_pow_sub_one_eq_mod,
    Nat.shiftRight_eq_div_pow]
  simp only [UInt32.reduceToNat, Nat.reduceMod]
  omega

theorem vaPteIndex_toNat (va : UInt32) : (vaPteIndex va).toNat = va.toNat / 4096 % 1024 := by
  have hmask : (0x3FF : UInt32).toNat = 2 ^ 10 - 1 := by decide
  rw [vaPteIndex, UInt32.toNat_and, UInt32.toNat_shiftRight, hmask, Nat.and_two_pow_sub_one_eq_mod,
    Nat.shiftRight_eq_div_pow]
  simp only [UInt32.reduceToNat, Nat.reduceMod, Nat.reducePow]

theorem vaPdeIndex_lt (va : UInt32) : (vaPdeIndex va).toNat < 1024 := by
  have hva := va.toNat_lt
  rw [vaPdeIndex_toNat]
  omega

theorem vaPteIndex_lt (va : UInt32) : (vaPteIndex va).toNat < 1024 := by
  rw [vaPteIndex_toNat]
  omega

/-- The two indices of a page decide it. -/
theorem page_of_indices {a b : UInt32}
    (hd : vaPdeIndex (a &&& pageMask) = vaPdeIndex (b &&& pageMask))
    (ht : vaPteIndex (a &&& pageMask) = vaPteIndex (b &&& pageMask)) :
    a &&& pageMask = b &&& pageMask := by
  have hd' := congrArg UInt32.toNat hd
  have ht' := congrArg UInt32.toNat ht
  rw [vaPdeIndex_toNat, vaPdeIndex_toNat, pageMask_toNat, pageMask_toNat] at hd'
  rw [vaPteIndex_toNat, vaPteIndex_toNat, pageMask_toNat, pageMask_toNat] at ht'
  apply UInt32.toNat_inj.mp
  rw [pageMask_toNat, pageMask_toNat]
  omega

theorem and_or_right (a b c : UInt32) : (a ||| b) &&& c = a &&& c ||| b &&& c :=
  UInt32.toBitVec_inj.mp BitVec.and_or_distrib_right

/-- An entry of a page and flags. -/
theorem entry_page (page : UInt32) {flags : UInt32} (hflags : flags &&& pageMask = 0) :
    (page &&& pageMask ||| flags) &&& pageMask = page &&& pageMask := by
  rw [and_or_right, UInt32.and_assoc, UInt32.and_self, hflags, UInt32.or_zero]

/-- It is present if the flags say so. -/
theorem entry_present (page : UInt32) {flags : UInt32} (hflags : flags &&& ptePresent = 1) :
    Present (page &&& pageMask ||| flags) := by
  have hmask : pageMask &&& ptePresent = 0 := by decide
  rw [Present, and_or_right, UInt32.and_assoc, hmask, UInt32.and_zero, UInt32.zero_or, hflags]
  decide

/-- The flags of a directory entry. -/
theorem pde_eq (table : UInt32) : table ||| ptePresent ||| pteWritable ||| pteUser = table ||| 7 := by
  have hflags : ptePresent ||| (pteWritable ||| pteUser) = 7 := by decide
  rw [UInt32.or_assoc, UInt32.or_assoc, hflags]

/-- An aligned address is its page. -/
theorem eq_page {x : UInt32} (h : x.toNat % 4096 = 0) : x &&& pageMask = x := by
  apply UInt32.toNat_inj.mp
  rw [pageMask_toNat]
  omega

/-- The address in a frame that a page offset leads to. -/
theorem frame_or_offset_toNat (frame va : UInt32) :
    (frame &&& pageMask ||| va &&& 0xFFF).toNat =
      (frame &&& pageMask).toNat + va.toNat % 4096 := by
  have hmask : (0xFFF : UInt32).toNat = 2 ^ 12 - 1 := by decide
  have hoff : (va &&& 0xFFF).toNat = va.toNat % 4096 := by
    rw [UInt32.toNat_and, hmask, Nat.and_two_pow_sub_one_eq_mod]
  have hframe := pageMask_toNat frame
  rw [UInt32.toNat_or, hoff, hframe]
  have hlt : va.toNat % 4096 < 2 ^ 12 := by omega
  have hor := or_shiftLeft (frame.toNat / 4096) hlt
  have hpow : 2 ^ 12 = 4096 := by decide
  rw [Nat.shiftLeft_eq, Nat.or_comm, hpow] at hor
  omega

end Bits

variable {vm vm' : PagedVm} {m m' : PhysMem} {t virt phys flags va : UInt32}

section Entries

/-- A table that keeps its bytes keeps its entries. -/
theorem entry_congr {s : Set Nat} (hs : SameOn s m m') (hfits : t.toNat + 4096 ≤ 2 ^ 32)
    (hsub : ∀ x, t.toNat ≤ x → x < t.toNat + 4096 → x ∈ s) {i : UInt32} (hi : i.toNat < 1024) :
    memReadlPhys m' (t + i * 4) = memReadlPhys m (t + i * 4) := by
  apply hs.readl
  intro k hk
  have haddr := entry_toNat hi hfits
  apply hsub
  · omega
  · omega

/-- A write to one entry of a table. -/
theorem entry_write (hfits : t.toNat + 4096 ≤ 2 ^ 32) (hram : t.toNat + 4096 ≤ m.ramSize)
    {i j : UInt32} (hi : i.toNat < 1024) (hj : j.toNat < 1024) (v : UInt32) :
    memReadlPhys (memWritelPhys m (t + i * 4) v) (t + j * 4) =
      if j = i then v else memReadlPhys m (t + j * 4) := by
  have haddr := entry_toNat hi hfits
  split
  · next hji =>
    subst hji
    apply memReadlPhys_writel
    rw [UInt32.toNat_add, haddr]
    simp only [UInt32.reduceToNat]
    omega
  · next hji =>
    have hne : j.toNat ≠ i.toNat := fun heq => hji (UInt32.toNat_inj.mp heq)
    apply (sameOn_writel m (t + i * 4) v).readl
    intro k hk
    show (t + j * 4).toNat + k < (t + i * 4).toNat ∨ (t + i * 4).toNat + 4 ≤ (t + j * 4).toNat + k
    rw [haddr, entry_toNat hj hfits]
    omega

/-- An entry's bytes lie in its table. -/
theorem outside_entry (hfits : t.toNat + 4096 ≤ 2 ^ 32) {i : UInt32} (hi : i.toNat < 1024) :
    Outside t 4096 ⊆ Outside (t + i * 4) 4 := by
  intro x hx
  have hout : x < t.toNat ∨ t.toNat + 4096 ≤ x := hx
  show x < (t + i * 4).toNat ∨ (t + i * 4).toNat + 4 ≤ x
  rw [entry_toNat hi hfits]
  omega

/-- The page walk, in terms of the entries it reads. -/
theorem translate_eq (vm : PagedVm) (va : UInt32) :
    vm.translate va =
      if vm.pde (vaPdeIndex (va &&& pageMask)) &&& ptePresent = 0 then 0
      else if vm.pte (vm.pde (vaPdeIndex (va &&& pageMask)) &&& pageMask)
          (vaPteIndex (va &&& pageMask)) &&& ptePresent = 0 then 0
      else vm.pte (vm.pde (vaPdeIndex (va &&& pageMask)) &&& pageMask)
        (vaPteIndex (va &&& pageMask)) &&& pageMask ||| va &&& 0xFFF := rfl

/-- The same entries, the same translation. -/
theorem translate_congr (hd : vm'.pde (vaPdeIndex (va &&& pageMask)) =
      vm.pde (vaPdeIndex (va &&& pageMask)))
    (ht : Present (vm.pde (vaPdeIndex (va &&& pageMask))) →
      vm'.pte (vm.pde (vaPdeIndex (va &&& pageMask)) &&& pageMask) (vaPteIndex (va &&& pageMask)) =
        vm.pte (vm.pde (vaPdeIndex (va &&& pageMask)) &&& pageMask)
          (vaPteIndex (va &&& pageMask))) :
    vm'.translate va = vm.translate va := by
  rw [translate_eq, translate_eq, hd]
  split
  · rfl
  · next hpresent => rw [ht hpresent]

/-- The page walk, in terms of the entry it ends with. -/
theorem translate_eq_entry (vm : PagedVm) (va : UInt32) :
    vm.translate va =
      if Present (vm.entryAt va) then vm.entryAt va &&& pageMask ||| va &&& 0xFFF else 0 := by
  rw [translate_eq]
  unfold PagedVm.entryAt
  by_cases hd : Present (vm.pde (vaPdeIndex (va &&& pageMask)))
  · rw [if_neg hd, if_pos hd]
    by_cases ht : Present (vm.pte (vm.pde (vaPdeIndex (va &&& pageMask)) &&& pageMask)
        (vaPteIndex (va &&& pageMask)))
    · rw [if_neg ht, if_pos ht]
    · rw [if_pos (not_not.mp ht), if_neg ht]
  · have hzero : ¬ Present 0 := by decide
    rw [if_pos (not_not.mp hd), if_neg hd, if_neg hzero]

/-- `paging_is_mapped`, in terms of the entry. -/
theorem isMapped_iff_entry (vm : PagedVm) (va : UInt32) :
    pagingIsMapped vm.mem vm.paging.toPagingContext va = true ↔ Present (vm.entryAt va) := by
  have hwalk : pagingIsMapped vm.mem vm.paging.toPagingContext va =
      if vm.pde (vaPdeIndex (va &&& pageMask)) &&& ptePresent = 0 then false
      else decide (Present (vm.pte (vm.pde (vaPdeIndex (va &&& pageMask)) &&& pageMask)
        (vaPteIndex (va &&& pageMask)))) := rfl
  rw [hwalk]
  unfold PagedVm.entryAt
  by_cases hd : Present (vm.pde (vaPdeIndex (va &&& pageMask)))
  · rw [if_neg hd, if_pos hd]
    exact decide_eq_true_iff
  · rw [if_pos (not_not.mp hd), if_neg hd]
    decide

/-- The same directory entry and table entry, the same entry. -/
theorem entryAt_congr (hd : vm'.pde (vaPdeIndex (va &&& pageMask)) =
      vm.pde (vaPdeIndex (va &&& pageMask)))
    (ht : Present (vm.pde (vaPdeIndex (va &&& pageMask))) →
      vm'.pte (vm.pde (vaPdeIndex (va &&& pageMask)) &&& pageMask) (vaPteIndex (va &&& pageMask)) =
        vm.pte (vm.pde (vaPdeIndex (va &&& pageMask)) &&& pageMask)
          (vaPteIndex (va &&& pageMask))) : vm'.entryAt va = vm.entryAt va := by
  unfold PagedVm.entryAt
  rw [hd]
  split
  · next hpresent => exact ht hpresent
  · rfl

end Entries

section Tables

/-- The machine that has taken the next page table for a page. -/
def PagedVm.takeTable (vm : PagedVm) (virt : UInt32) : PagedVm where
  paging := { vm.paging with nextPtPhys := vm.paging.nextPtPhys + pageSize }
  mem := memWritelPhys (clearTable vm.mem vm.paging.nextPtPhys)
    (vm.paging.pdPhys + vaPdeIndex (virt &&& pageMask) * 4) (vm.paging.nextPtPhys ||| 7)

theorem pageTable_take (h : vm.needsTable virt = true) :
    vm.pageTable virt = (vm.takeTable virt, vm.paging.nextPtPhys) := by
  unfold PagedVm.pageTable
  simp only [h, if_true, allocPageTable, pde_eq]
  rfl

@[simp] theorem takeTable_mem (vm : PagedVm) (virt : UInt32) :
    (vm.takeTable virt).mem = memWritelPhys (clearTable vm.mem vm.paging.nextPtPhys)
      (vm.paging.pdPhys + vaPdeIndex (virt &&& pageMask) * 4) (vm.paging.nextPtPhys ||| 7) := by
  rw [PagedVm.takeTable]

@[simp] theorem takeTable_paging (vm : PagedVm) (virt : UInt32) :
    (vm.takeTable virt).paging =
      { vm.paging with nextPtPhys := vm.paging.nextPtPhys + pageSize } := by
  rw [PagedVm.takeTable]

/-- Where the directory and the next table are. -/
structure NextTable (vm : PagedVm) : Prop where
  fits : vm.paging.nextPtPhys.toNat + 4096 ≤ vm.paging.physAllocBase.toNat
  space : vm.paging.physAllocBase.toNat ≤ 2 ^ 32 - 4096
  ram : vm.paging.physAllocBase.toNat ≤ vm.mem.ramSize
  next : (vm.paging.nextPtPhys + pageSize).toNat = vm.paging.nextPtPhys.toNat + 4096

/-- There is a next table if one is left. -/
theorem TableTree.nextTable (h : TableTree vm)
    (hleft : vm.paging.nextPtPhys.toNat + 4096 ≤ vm.paging.physAllocBase.toNat) :
    NextTable vm := by
  have hspace := h.space
  have hsize : pageSize.toNat = 4096 := by decide
  refine ⟨hleft, hspace, h.ram, ?_⟩
  rw [UInt32.toNat_add, hsize]
  omega

theorem takeTable_pde (h : TableTree vm) (hn : NextTable vm) (virt : UInt32) {j : UInt32}
    (hj : j.toNat < 1024) :
    (vm.takeTable virt).pde j =
      if j = vaPdeIndex (virt &&& pageMask) then vm.paging.nextPtPhys ||| 7 else vm.pde j := by
  have hfirst := h.first
  have hfits := hn.fits
  have hspace := hn.space
  have hram := hn.ram
  have hclear := sameOn_clearTable (a := vm.paging.nextPtPhys) (by omega) vm.mem
  have hsame : memReadlPhys (clearTable vm.mem vm.paging.nextPtPhys)
      (vm.paging.pdPhys + j * 4) = vm.pde j := by
    refine entry_congr (t := vm.paging.pdPhys) hclear (by omega) ?_ hj
    intro x hlo hhi
    show x < vm.paging.nextPtPhys.toNat ∨ vm.paging.nextPtPhys.toNat + 4096 ≤ x
    omega
  have hwrite := entry_write (m := clearTable vm.mem vm.paging.nextPtPhys)
    (t := vm.paging.pdPhys) (by omega) (by rw [hclear.size]; omega)
    (vaPdeIndex_lt (virt &&& pageMask)) hj (vm.paging.nextPtPhys ||| 7)
  rw [PagedVm.pde, takeTable_mem, takeTable_paging, hwrite, hsame]

/-- The table that was taken is empty. -/
theorem takeTable_pte_new (h : TableTree vm) (hn : NextTable vm) (virt : UInt32) {j : UInt32}
    (hj : j.toNat < 1024) : (vm.takeTable virt).pte vm.paging.nextPtPhys j = 0 := by
  have hfirst := h.first
  have hfits := hn.fits
  have hspace := hn.space
  have hram := hn.ram
  have hwrite := (sameOn_writel (clearTable vm.mem vm.paging.nextPtPhys)
    (vm.paging.pdPhys + vaPdeIndex (virt &&& pageMask) * 4) (vm.paging.nextPtPhys ||| 7)).mono
    (outside_entry (by omega) (vaPdeIndex_lt (virt &&& pageMask)))
  rw [PagedVm.pte, takeTable_mem, entry_congr hwrite (by omega) ?_ hj]
  · exact clearTable_entry (by omega) (by omega) hj
  · intro x hlo hhi
    show x < vm.paging.pdPhys.toNat ∨ vm.paging.pdPhys.toNat + 4096 ≤ x
    omega

/-- The bytes a taken table and its directory entry leave alone. -/
theorem sameOn_takeTable (h : TableTree vm) (hn : NextTable vm) (virt : UInt32) :
    SameOn (Outside vm.paging.pdPhys 4096 ∩ Outside vm.paging.nextPtPhys 4096) vm.mem
      (vm.takeTable virt).mem := by
  have hfirst := h.first
  have hfits := hn.fits
  have hspace := hn.space
  have hclear := sameOn_clearTable (a := vm.paging.nextPtPhys) (by omega) vm.mem
  have hwrite := (sameOn_writel (clearTable vm.mem vm.paging.nextPtPhys)
    (vm.paging.pdPhys + vaPdeIndex (virt &&& pageMask) * 4) (vm.paging.nextPtPhys ||| 7)).mono
    (outside_entry (by omega) (vaPdeIndex_lt (virt &&& pageMask)))
  rw [takeTable_mem]
  exact (hclear.mono fun _ hx => hx.2).trans (hwrite.mono fun _ hx => hx.1)

/-- The other tables keep their entries. -/
theorem takeTable_pte_other (h : TableTree vm) (hn : NextTable vm) (virt : UInt32)
    (hlo : vm.paging.pdPhys.toNat + 4096 ≤ t.toNat)
    (hhi : t.toNat + 4096 ≤ vm.paging.nextPtPhys.toNat) {j : UInt32} (hj : j.toNat < 1024) :
    (vm.takeTable virt).pte t j = vm.pte t j := by
  have hfits := hn.fits
  have hspace := hn.space
  refine entry_congr (sameOn_takeTable h hn virt) (by omega) ?_ hj
  intro x hx hx'
  constructor
  · show x < vm.paging.pdPhys.toNat ∨ vm.paging.pdPhys.toNat + 4096 ≤ x
    omega
  · show x < vm.paging.nextPtPhys.toNat ∨ vm.paging.nextPtPhys.toNat + 4096 ≤ x
    omega

/-- The directory entry of a table that was taken. -/
theorem newPde (h : TableTree vm) :
    Present (vm.paging.nextPtPhys ||| 7) ∧
      (vm.paging.nextPtPhys ||| 7) &&& pageMask = vm.paging.nextPtPhys := by
  have hpage := eq_page h.nextPage
  have hpresent : Present (vm.paging.nextPtPhys &&& pageMask ||| 7) :=
    entry_present vm.paging.nextPtPhys (by decide)
  have hmask : (vm.paging.nextPtPhys &&& pageMask ||| 7) &&& pageMask =
      vm.paging.nextPtPhys &&& pageMask := entry_page vm.paging.nextPtPhys (by decide)
  rw [hpage] at hpresent hmask
  exact ⟨hpresent, hmask⟩

/-- Taking a table changes no entry of a page. -/
theorem TableTree.takeTable (h : TableTree vm) (hn : NextTable vm)
    (hneeds : vm.needsTable virt = true) :
    TableTree (vm.takeTable virt) ∧ ∀ va, (vm.takeTable virt).entryAt va = vm.entryAt va := by
  obtain ⟨hpresent, hmask⟩ := newPde h
  have hfirst := h.first
  have hfits := hn.fits
  have hnext := hn.next
  have habsent : ¬ Present (vm.pde (vaPdeIndex (virt &&& pageMask))) := by
    have hzero : vm.pde (vaPdeIndex (virt &&& pageMask)) &&& ptePresent = 0 :=
      of_decide_eq_true hneeds
    exact not_not.mpr hzero
  have hd : ∀ j, j.toNat < 1024 → j ≠ vaPdeIndex (virt &&& pageMask) →
      (vm.takeTable virt).pde j = vm.pde j := by
    intro j hj hne
    rw [takeTable_pde h hn virt hj, if_neg hne]
  have hnew : (vm.takeTable virt).pde (vaPdeIndex (virt &&& pageMask)) =
      vm.paging.nextPtPhys ||| 7 := by
    rw [takeTable_pde h hn virt (vaPdeIndex_lt _), if_pos rfl]
  have hother : ∀ i j, i.toNat < 1024 → j.toNat < 1024 → Present (vm.pde i) →
      (vm.takeTable virt).pte (vm.pde i &&& pageMask) j = vm.pte (vm.pde i &&& pageMask) j := by
    intro i j hi hj hp
    obtain ⟨hlo, hhi⟩ := h.table i hi hp
    exact takeTable_pte_other h hn virt hlo hhi hj
  have hram : (vm.takeTable virt).mem.ramSize = vm.mem.ramSize := (sameOn_takeTable h hn virt).size
  constructor
  · constructor
    case table =>
      intro i hi hp
      rw [takeTable_paging]
      dsimp only
      by_cases hii : i = vaPdeIndex (virt &&& pageMask)
      · rw [hii, hnew, hmask]
        omega
      · rw [hd i hi hii] at hp ⊢
        have htable := h.table i hi hp
        omega
    case apart =>
      intro i j hi hj hpi hpj heq
      -- the new table is behind all others
      have hlast : ∀ k, k.toNat < 1024 → k ≠ vaPdeIndex (virt &&& pageMask) →
          Present ((vm.takeTable virt).pde k) →
            (vm.takeTable virt).pde k &&& pageMask ≠ vm.paging.nextPtPhys := by
        intro k hk hne hp hk'
        rw [hd k hk hne] at hp hk'
        have htable := h.table k hk hp
        rw [hk'] at htable
        omega
      by_cases hii : i = vaPdeIndex (virt &&& pageMask)
      · by_cases hjj : j = vaPdeIndex (virt &&& pageMask)
        · exact hii.trans hjj.symm
        · rw [hii, hnew, hmask] at heq
          exact absurd heq.symm (hlast j hj hjj hpj)
      · by_cases hjj : j = vaPdeIndex (virt &&& pageMask)
        · rw [hjj, hnew, hmask] at heq
          exact absurd heq (hlast i hi hii hpi)
        · rw [hd i hi hii] at hpi heq
          rw [hd j hj hjj] at hpj heq
          exact h.apart i j hi hj hpi hpj heq
    case ram =>
      rw [takeTable_paging, hram]
      exact h.ram
    all_goals
      have hpage := h.page
      have hnextPage := h.nextPage
      have hspace := h.space
      rw [takeTable_paging]
      dsimp only
      omega
  · intro va
    have hi := vaPdeIndex_lt (va &&& pageMask)
    have hj := vaPteIndex_lt (va &&& pageMask)
    by_cases hii : vaPdeIndex (va &&& pageMask) = vaPdeIndex (virt &&& pageMask)
    · have hold : vm.entryAt va = 0 := by
        unfold PagedVm.entryAt
        rw [hii]
        exact if_neg habsent
      rw [hold]
      unfold PagedVm.entryAt
      rw [hii, hnew, hmask, if_pos hpresent, takeTable_pte_new h hn virt hj]
    · exact entryAt_congr (hd _ hi hii) fun hp => hother _ _ hi hj hp

end Tables

section Mapping

/-- The bytes that hold neither the directory nor a page table. -/
def PagedVm.NotTable (vm : PagedVm) : Set Nat :=
  {x | x < vm.paging.pdPhys.toNat ∨ vm.paging.physAllocBase.toNat ≤ x}

/-- The machine with a page table entry that has been written. -/
def PagedVm.writePte (vm : PagedVm) (table j entry : UInt32) : PagedVm :=
  { vm with mem := memWritelPhys vm.mem (table + j * 4) entry }

@[simp] theorem writePte_paging (vm : PagedVm) (table j entry : UInt32) :
    (vm.writePte table j entry).paging = vm.paging := by
  rw [PagedVm.writePte]

@[simp] theorem writePte_mem (vm : PagedVm) (table j entry : UInt32) :
    (vm.writePte table j entry).mem = memWritelPhys vm.mem (table + j * 4) entry := by
  rw [PagedVm.writePte]

variable {i₀ j₀ entry : UInt32}

/-- The entries after a write to a page table. -/
theorem writePte_entries (h : TableTree vm) (hi₀ : i₀.toNat < 1024) (hj₀ : j₀.toNat < 1024)
    (hp₀ : Present (vm.pde i₀)) (entry : UInt32) :
    (∀ i, i.toNat < 1024 →
      (vm.writePte (vm.pde i₀ &&& pageMask) j₀ entry).pde i = vm.pde i) ∧
    ∀ i j, i.toNat < 1024 → j.toNat < 1024 → Present (vm.pde i) →
      (vm.writePte (vm.pde i₀ &&& pageMask) j₀ entry).pte (vm.pde i &&& pageMask) j =
        if i = i₀ ∧ j = j₀ then entry else vm.pte (vm.pde i &&& pageMask) j := by
  have hspace := h.space
  have hlast := h.last
  have hram := h.ram
  have htable₀ := h.table i₀ hi₀ hp₀
  have hwrite := (sameOn_writel vm.mem ((vm.pde i₀ &&& pageMask) + j₀ * 4) entry).mono
    (outside_entry (by omega) hj₀)
  constructor
  · intro i hi
    rw [PagedVm.pde, writePte_mem, writePte_paging]
    refine entry_congr (t := vm.paging.pdPhys) hwrite (by omega) ?_ hi
    intro x hlo hhi
    show x < (vm.pde i₀ &&& pageMask).toNat ∨ (vm.pde i₀ &&& pageMask).toNat + 4096 ≤ x
    omega
  · intro i j hi hj hp
    have htable := h.table i hi hp
    rw [PagedVm.pte, writePte_mem]
    by_cases hii : i = i₀
    · rw [hii, entry_write (by omega) (by omega) hj₀ hj]
      simp only [true_and]
      rfl
    · rw [if_neg (fun hij => hii hij.1)]
      have hne : vm.pde i &&& pageMask ≠ vm.pde i₀ &&& pageMask :=
        fun heq => hii (h.apart i i₀ hi hi₀ hp hp₀ heq)
      -- two tables that are not the same are a page apart
      have hfar : (vm.pde i &&& pageMask).toNat + 4096 ≤ (vm.pde i₀ &&& pageMask).toNat ∨
          (vm.pde i₀ &&& pageMask).toNat + 4096 ≤ (vm.pde i &&& pageMask).toNat := by
        have hdiff : (vm.pde i &&& pageMask).toNat ≠ (vm.pde i₀ &&& pageMask).toNat :=
          fun heq => hne (UInt32.toNat_inj.mp heq)
        rw [pageMask_toNat, pageMask_toNat] at hdiff ⊢
        omega
      refine entry_congr hwrite (by omega) ?_ hj
      intro x hlo hhi
      show x < (vm.pde i₀ &&& pageMask).toNat ∨ (vm.pde i₀ &&& pageMask).toNat + 4096 ≤ x
      omega

/-- Writing a page table entry changes this entry alone. -/
theorem TableTree.writePte (h : TableTree vm) (virt : UInt32)
    (hp₀ : Present (vm.pde (vaPdeIndex (virt &&& pageMask)))) (entry : UInt32) :
    TableTree (vm.writePte (vm.pde (vaPdeIndex (virt &&& pageMask)) &&& pageMask)
        (vaPteIndex (virt &&& pageMask)) entry) ∧
      ∀ va, (vm.writePte (vm.pde (vaPdeIndex (virt &&& pageMask)) &&& pageMask)
          (vaPteIndex (virt &&& pageMask)) entry).entryAt va =
        if va &&& pageMask = virt &&& pageMask then entry else vm.entryAt va := by
  have hi₀ := vaPdeIndex_lt (virt &&& pageMask)
  have hj₀ := vaPteIndex_lt (virt &&& pageMask)
  obtain ⟨hd, ht⟩ := writePte_entries h hi₀ hj₀ hp₀ entry
  constructor
  · constructor
    case ram =>
      rw [writePte_paging, writePte_mem, (sameOn_writel _ _ _).size]
      exact h.ram
    case table =>
      intro i hi hp
      rw [writePte_paging]
      rw [hd i hi] at hp ⊢
      exact h.table i hi hp
    case apart =>
      intro i j hi hj hpi hpj heq
      rw [hd i hi] at hpi heq
      rw [hd j hj] at hpj heq
      exact h.apart i j hi hj hpi hpj heq
    all_goals
      rw [writePte_paging]
    · exact h.page
    · exact h.nextPage
    · exact h.first
    · exact h.last
    · exact h.space
  · intro va
    have hi := vaPdeIndex_lt (va &&& pageMask)
    have hj := vaPteIndex_lt (va &&& pageMask)
    split
    · next hpage =>
      have hpte := ht _ _ hi₀ hj₀ hp₀
      rw [if_pos ⟨rfl, rfl⟩] at hpte
      unfold PagedVm.entryAt
      rw [hpage, hd _ hi₀, if_pos hp₀, hpte]
    · next hpage =>
      apply entryAt_congr (hd _ hi)
      intro hp
      rw [ht _ _ hi hj hp, if_neg]
      exact fun hij => hpage (page_of_indices hij.1 hij.2)

/-- What a write to a page table leaves alone. -/
theorem TableTree.writePte_same (h : TableTree vm) (virt : UInt32)
    (hp₀ : Present (vm.pde (vaPdeIndex (virt &&& pageMask)))) (entry : UInt32) :
    SameOn vm.NotTable vm.mem (vm.writePte (vm.pde (vaPdeIndex (virt &&& pageMask)) &&& pageMask)
      (vaPteIndex (virt &&& pageMask)) entry).mem := by
  have hspace := h.space
  have hlast := h.last
  have htable := h.table _ (vaPdeIndex_lt _) hp₀
  rw [writePte_mem]
  apply (sameOn_writel vm.mem _ entry).mono
  intro x hx
  have hout : x < vm.paging.pdPhys.toNat ∨ vm.paging.physAllocBase.toNat ≤ x := hx
  apply outside_entry (by omega) (vaPteIndex_lt (virt &&& pageMask))
  show x < (vm.pde (vaPdeIndex (virt &&& pageMask)) &&& pageMask).toNat ∨
    (vm.pde (vaPdeIndex (virt &&& pageMask)) &&& pageMask).toNat + 4096 ≤ x
  omega

/-- The directory entry of a page is absent exactly if the page needs a table. -/
theorem needsTable_iff (vm : PagedVm) (virt : UInt32) :
    vm.needsTable virt = true ↔ ¬ Present (vm.pde (vaPdeIndex (virt &&& pageMask))) := by
  unfold Present
  rw [not_not]
  exact decide_eq_true_iff

/-- The page table of a page does not come out of the allocator. -/
theorem pageTable_alloc (vm : PagedVm) (virt : UInt32) :
    (vm.pageTable virt).1.paging.pdPhys = vm.paging.pdPhys ∧
      (vm.pageTable virt).1.paging.physAllocBase = vm.paging.physAllocBase ∧
      (vm.pageTable virt).1.paging.physAllocPtr = vm.paging.physAllocPtr ∧
      (vm.pageTable virt).1.paging.physMemSize = vm.paging.physMemSize := by
  rw [vm.pageTable_paging]
  split <;> exact ⟨rfl, rfl, rfl, rfl⟩

/-- The machine with the page table of a page, which maps what it did. -/
structure GivesTable (vm vm' : PagedVm) (virt table : UInt32) : Prop where
  tree : TableTree vm'
  next : vm'.paging.nextPtPhys.toNat =
    vm.paging.nextPtPhys.toNat + if vm.needsTable virt then 4096 else 0
  present : Present (vm'.pde (vaPdeIndex (virt &&& pageMask)))
  table : vm'.pde (vaPdeIndex (virt &&& pageMask)) &&& pageMask = table
  pdes : ∀ i, i.toNat < 1024 → i ≠ vaPdeIndex (virt &&& pageMask) → vm'.pde i = vm.pde i
  same : SameOn vm.NotTable vm.mem vm'.mem
  entries : ∀ va, vm'.entryAt va = vm.entryAt va

/-- The page table of a page, which is taken if there is none. -/
theorem TableTree.pageTable (h : TableTree vm) (hleft : vm.needsTable virt = true →
    vm.paging.nextPtPhys.toNat + 4096 ≤ vm.paging.physAllocBase.toNat) :
    GivesTable vm (vm.pageTable virt).1 virt (vm.pageTable virt).2 := by
  by_cases hneeds : vm.needsTable virt = true
  · have hn := h.nextTable (hleft hneeds)
    obtain ⟨htree, hentries⟩ := h.takeTable hn hneeds
    obtain ⟨hpresent, hmask⟩ := newPde h
    have hnew : (vm.takeTable virt).pde (vaPdeIndex (virt &&& pageMask)) =
        vm.paging.nextPtPhys ||| 7 := by
      rw [takeTable_pde h hn virt (vaPdeIndex_lt _), if_pos rfl]
    rw [pageTable_take hneeds]
    constructor
    case tree => exact htree
    case next =>
      rw [if_pos hneeds, takeTable_paging]
      exact hn.next
    case present =>
      rw [hnew]
      exact hpresent
    case table =>
      rw [hnew]
      exact hmask
    case pdes =>
      intro i hi hne
      rw [takeTable_pde h hn virt hi, if_neg hne]
    case same =>
      apply (sameOn_takeTable h hn virt).mono
      intro x hx
      have hfirst := h.first
      have hfits := hn.fits
      have hout : x < vm.paging.pdPhys.toNat ∨ vm.paging.physAllocBase.toNat ≤ x := hx
      constructor
      · show x < vm.paging.pdPhys.toNat ∨ vm.paging.pdPhys.toNat + 4096 ≤ x
        omega
      · show x < vm.paging.nextPtPhys.toNat ∨ vm.paging.nextPtPhys.toNat + 4096 ≤ x
        omega
    case entries => exact hentries
  · have hpresent : Present (vm.pde (vaPdeIndex (virt &&& pageMask))) :=
      not_not.mp (mt (needsTable_iff vm virt).mpr hneeds)
    have hkeep : vm.pageTable virt =
        (vm, vm.pde (vaPdeIndex (virt &&& pageMask)) &&& pageMask) := by
      unfold PagedVm.pageTable
      rw [if_neg hneeds]
      rfl
    rw [hkeep]
    exact ⟨h, by rw [if_neg hneeds, Nat.add_zero], hpresent, rfl, fun _ _ _ => rfl, .refl _ _,
      fun _ => rfl⟩

/-- The entry that maps a page: its frame and flags, present. -/
theorem mapEntry (phys flags : UInt32) :
    Present (phys &&& pageMask ||| ptePresent ||| flags &&& (pteWritable ||| pteUser)) ∧
      (phys &&& pageMask ||| ptePresent ||| flags &&& (pteWritable ||| pteUser)) &&& pageMask =
        phys &&& pageMask := by
  have hpage : (ptePresent ||| flags &&& (pteWritable ||| pteUser)) &&& pageMask = 0 := by
    have hlow : (pteWritable ||| pteUser) &&& pageMask = 0 := by decide
    have hone : ptePresent &&& pageMask = 0 := by decide
    rw [and_or_right, hone, UInt32.and_assoc, hlow, UInt32.and_zero, UInt32.or_zero]
  have hbit : (ptePresent ||| flags &&& (pteWritable ||| pteUser)) &&& ptePresent = 1 := by
    have hlow : (pteWritable ||| pteUser) &&& ptePresent = 0 := by decide
    have hone : ptePresent &&& ptePresent = 1 := by decide
    rw [and_or_right, hone, UInt32.and_assoc, hlow, UInt32.and_zero, UInt32.or_zero]
  rw [UInt32.or_assoc]
  exact ⟨entry_present phys hbit, entry_page phys hpage⟩

theorem pagingMapPage_eq (vm : PagedVm) (virt phys flags : UInt32) :
    pagingMapPage vm virt phys flags =
      (vm.pageTable virt).1.writePte (vm.pageTable virt).2 (vaPteIndex (virt &&& pageMask))
        (phys &&& pageMask ||| ptePresent ||| flags &&& (pteWritable ||| pteUser)) := by
  unfold pagingMapPage PagedVm.writePte
  rfl

/-- The machine in which the entry of a page has been set. -/
structure SetsEntry (vm vm' : PagedVm) (virt entry : UInt32) : Prop where
  tree : TableTree vm'
  pdPhys : vm'.paging.pdPhys = vm.paging.pdPhys
  base : vm'.paging.physAllocBase = vm.paging.physAllocBase
  ptr : vm'.paging.physAllocPtr = vm.paging.physAllocPtr
  memory : vm'.paging.physMemSize = vm.paging.physMemSize
  next : vm'.paging.nextPtPhys.toNat =
    vm.paging.nextPtPhys.toNat + if vm.needsTable virt then 4096 else 0
  present : Present (vm'.pde (vaPdeIndex (virt &&& pageMask)))
  pdes : ∀ i, i.toNat < 1024 → i ≠ vaPdeIndex (virt &&& pageMask) → vm'.pde i = vm.pde i
  same : SameOn vm.NotTable vm.mem vm'.mem
  entries : ∀ va, vm'.entryAt va =
    if va &&& pageMask = virt &&& pageMask then entry else vm.entryAt va

/-- `paging_map_page` sets the entry of its page. -/
theorem TableTree.mapPage (h : TableTree vm) (hleft : vm.needsTable virt = true →
      vm.paging.nextPtPhys.toNat + 4096 ≤ vm.paging.physAllocBase.toNat) (phys flags : UInt32) :
    SetsEntry vm (pagingMapPage vm virt phys flags) virt
      (phys &&& pageMask ||| ptePresent ||| flags &&& (pteWritable ||| pteUser)) := by
  obtain ⟨htree, hnext, hpresent, htable, hpdes, hsame, hentries⟩ := h.pageTable hleft
  obtain ⟨hpd, hbase, hptr, hmemory⟩ := pageTable_alloc vm virt
  have hi₀ := vaPdeIndex_lt (virt &&& pageMask)
  rw [pagingMapPage_eq, ← htable]
  generalize (vm.pageTable virt).1 = vm₁ at *
  generalize phys &&& pageMask ||| ptePresent ||| flags &&& (pteWritable ||| pteUser) = entry
  obtain ⟨htree₁, hentries₁⟩ := htree.writePte virt hpresent entry
  have hd := (writePte_entries htree hi₀ (vaPteIndex_lt (virt &&& pageMask)) hpresent entry).1
  constructor
  case tree => exact htree₁
  case present =>
    rw [hd _ hi₀]
    exact hpresent
  case pdes =>
    intro i hi hne
    rw [hd i hi]
    exact hpdes i hi hne
  case same =>
    have hsets : vm.NotTable = vm₁.NotTable := by
      unfold PagedVm.NotTable
      rw [hpd, hbase]
    exact hsame.trans (hsets ▸ htree.writePte_same virt hpresent entry)
  case entries =>
    intro va
    rw [hentries₁ va, hentries va]
  all_goals
    rw [writePte_paging]
    assumption

end Mapping

section Supply

variable {r r' : Finset UInt32}

/-- The directory entries among some that lead to no table yet. -/
def absentIn (vm : PagedVm) (r : Finset UInt32) : Finset UInt32 := {i ∈ r | ¬ Present (vm.pde i)}

/-- The tables for some directory entries are left in the reserved pages. -/
def TablesLeft (vm : PagedVm) (r : Finset UInt32) : Prop :=
  vm.paging.nextPtPhys.toNat + 4096 * (absentIn vm r).card ≤ vm.paging.physAllocBase.toNat

theorem TablesLeft.mono (h : TablesLeft vm r) (hsub : r' ⊆ r) : TablesLeft vm r' := by
  have hcard := Finset.card_le_card (Finset.filter_subset_filter (fun i => ¬ Present (vm.pde i)) hsub)
  unfold TablesLeft absentIn at *
  omega

/-- A page that needs one of them finds its table. -/
theorem TablesLeft.room (h : TablesLeft vm r) (hmem : vaPdeIndex (virt &&& pageMask) ∈ r)
    (hneeds : vm.needsTable virt = true) :
    vm.paging.nextPtPhys.toNat + 4096 ≤ vm.paging.physAllocBase.toNat := by
  have habsent : vaPdeIndex (virt &&& pageMask) ∈ absentIn vm r :=
    Finset.mem_filter.mpr ⟨hmem, (needsTable_iff vm virt).mp hneeds⟩
  have hpos := Finset.card_pos.mpr ⟨_, habsent⟩
  unfold TablesLeft at h
  omega

/-- A page that takes its table leaves those of the other entries. -/
theorem TablesLeft.step (h : TablesLeft vm r) (hr : ∀ i ∈ r, i.toNat < 1024)
    (hmem : vaPdeIndex (virt &&& pageMask) ∈ r)
    (hbase : vm'.paging.physAllocBase = vm.paging.physAllocBase)
    (hnext : vm'.paging.nextPtPhys.toNat =
      vm.paging.nextPtPhys.toNat + if vm.needsTable virt then 4096 else 0)
    (hpresent : Present (vm'.pde (vaPdeIndex (virt &&& pageMask))))
    (hpdes : ∀ i, i.toNat < 1024 → i ≠ vaPdeIndex (virt &&& pageMask) → vm'.pde i = vm.pde i) :
    TablesLeft vm' r := by
  have hsub : absentIn vm' r ⊆ (absentIn vm r).erase (vaPdeIndex (virt &&& pageMask)) := by
    intro i hi
    obtain ⟨hir, habsent⟩ := Finset.mem_filter.mp hi
    have hne : i ≠ vaPdeIndex (virt &&& pageMask) := by
      intro heq
      exact habsent (heq ▸ hpresent)
    apply Finset.mem_erase.mpr
    refine ⟨hne, Finset.mem_filter.mpr ⟨hir, ?_⟩⟩
    rwa [← hpdes i (hr i hir) hne]
  have hcard := Finset.card_le_card hsub
  unfold TablesLeft at h ⊢
  rw [hbase]
  split at hnext
  · next hneeds =>
    have habsent : vaPdeIndex (virt &&& pageMask) ∈ absentIn vm r :=
      Finset.mem_filter.mpr ⟨hmem, (needsTable_iff vm virt).mp hneeds⟩
    rw [Finset.card_erase_of_mem habsent] at hcard
    have hpos := Finset.card_pos.mpr ⟨_, habsent⟩
    omega
  · have hle := Finset.card_erase_le (s := absentIn vm r)
      (a := vaPdeIndex (virt &&& pageMask))
    omega

end Supply

end Wbox.Vm
