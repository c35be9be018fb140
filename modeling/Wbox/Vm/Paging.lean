import Wbox.Lib.Word
import Wbox.Vm.Memory

/-!
# Page tables and physical allocation

`src/vm/paging.c:11–135`: page tables are taken one after the other from the first pages behind
the page directory, everything else from a second pointer that starts 256 pages after it.
-/

namespace Wbox.Vm

open Wbox.Lib

/-- `PAGE_SIZE`. -/
def pageSize : UInt32 := 4096
/-- `PTE_WRITABLE`. -/
def pteWritable : UInt32 := 0x002
/-- `PTE_USER`. -/
def pteUser : UInt32 := 0x004
/-- `PDE_COUNT` and `PTE_COUNT`. -/
def pteCount : Nat := 1024

/-- `VA_PDE_INDEX`. -/
def vaPdeIndex (va : UInt32) : UInt32 := va >>> 22 &&& 0x3FF
/-- `VA_PTE_INDEX`. -/
def vaPteIndex (va : UInt32) : UInt32 := va >>> 12 &&& 0x3FF

/-- `paging_context_t`, `src/vm/paging.h:37–44`, all of it. -/
structure PagingState extends PagingContext where
  cr3 : UInt32
  nextPtPhys : UInt32
  physAllocBase : UInt32
  physAllocPtr : UInt32
  physMemSize : UInt32
  deriving DecidableEq, Repr

/-- The paging context and the physical memory. -/
structure PagedVm where
  paging : PagingState
  mem : PhysMem

/-- `(size + PAGE_SIZE - 1) & PAGE_MASK`. -/
def pageRound (size : UInt32) : UInt32 := (size + pageSize - 1) &&& pageMask

/-- Clear the 1024 entries of a table. -/
def clearTable (mem : PhysMem) (table : UInt32) : PhysMem :=
  (List.range pteCount).foldl
    (fun mem i => memWritelPhys mem (table + UInt32.ofNat i * 4) 0) mem

/-- `paging_init`, `paging.c:11–29`. -/
def pagingInit (mem : PhysMem) (physBase physSize : UInt32) : PagedVm :=
  let physBase := pageRound physBase
  { paging :=
      { pdPhys := physBase
        cr3 := physBase
        nextPtPhys := physBase + pageSize
        physAllocBase := physBase + 256 * pageSize
        physAllocPtr := physBase + 256 * pageSize
        physMemSize := physSize }
    mem := clearTable mem physBase }

/-- `alloc_page_table`, `paging.c:32–43`. -/
def allocPageTable (vm : PagedVm) : PagedVm × UInt32 :=
  let ptPhys := vm.paging.nextPtPhys
  ({ paging := { vm.paging with nextPtPhys := ptPhys + pageSize }
     mem := clearTable vm.mem ptPhys }, ptPhys)

/-- The address of the page directory entry of a page. -/
def PagedVm.pdeAddr (vm : PagedVm) (virt : UInt32) : UInt32 :=
  vm.paging.pdPhys + vaPdeIndex (virt &&& pageMask) * 4

/-- No page table is present for a page. -/
def PagedVm.needsTable (vm : PagedVm) (virt : UInt32) : Bool :=
  memReadlPhys vm.mem (vm.pdeAddr virt) &&& ptePresent = 0

/-- The page table of a page, made if there is none, `paging.c:53–67`. -/
def PagedVm.pageTable (vm : PagedVm) (virt : UInt32) : PagedVm × UInt32 :=
  if vm.needsTable virt then
    let (vm', ptPhys) := allocPageTable vm
    ({ vm' with
        mem := memWritelPhys vm'.mem (vm.pdeAddr virt)
          (ptPhys ||| ptePresent ||| pteWritable ||| pteUser) }, ptPhys)
  else (vm, memReadlPhys vm.mem (vm.pdeAddr virt) &&& pageMask)

/-- `paging_map_page`, `paging.c:45–74`, which never fails. -/
def pagingMapPage (vm : PagedVm) (virt phys flags : UInt32) : PagedVm :=
  let (vm, ptPhys) := vm.pageTable virt
  let pteAddr := ptPhys + vaPteIndex (virt &&& pageMask) * 4
  let pte := phys &&& pageMask ||| ptePresent ||| flags &&& (pteWritable ||| pteUser)
  { vm with mem := memWritelPhys vm.mem pteAddr pte }

/-- The virtual and physical pages the loop `while (virt < end)` of `paging_map_range` maps; as
the range is a whole number of pages, `virt` ends at `end` and the fuel of one step for every
page there is suffices. -/
def rangePages (endVa : UInt32) : Nat → UInt32 → UInt32 → List (UInt32 × UInt32)
  | 0, _, _ => []
  | fuel + 1, virt, phys =>
      if virt < endVa then
        (virt, phys) :: rangePages endVa fuel (virt + pageSize) (phys + pageSize)
      else []

/-- The pages of a call of `paging_map_range`. -/
def pagesOfRange (virt phys size : UInt32) : List (UInt32 × UInt32) :=
  rangePages (virt + pageRound size) (2 ^ 20) virt phys

/-- `paging_map_range`, `paging.c:76–92`. -/
def pagingMapRange (vm : PagedVm) (virt phys size flags : UInt32) : PagedVm :=
  (pagesOfRange virt phys size).foldl (fun vm page => pagingMapPage vm page.1 page.2 flags) vm

/-- Zero the bytes of a region, `paging.c:130–132`. -/
def zeroPhys (mem : PhysMem) (addr size : UInt32) : PhysMem :=
  (List.range size.toNat).foldl (fun mem i => memWritebPhys mem (addr + UInt32.ofNat i) 0) mem

/-- `paging_alloc_phys`, `paging.c:116–135`; 0 says that memory ran out. -/
def pagingAllocPhys (vm : PagedVm) (size : UInt32) : PagedVm × UInt32 :=
  let size := pageRound size
  if vm.paging.physAllocPtr + size > vm.paging.physMemSize then (vm, 0)
  else
    let addr := vm.paging.physAllocPtr
    ({ paging := { vm.paging with physAllocPtr := addr + size }
       mem := zeroPhys vm.mem addr size }, addr)

/-- Rounding up to whole pages, with the wrap-around of the addition. -/
theorem pageRound_toNat (size : UInt32) :
    (pageRound size).toNat = (size.toNat + 4095) % 2 ^ 32 / 4096 * 4096 := by
  have hsub : size + pageSize - 1 = size + 4095 := by
    rw [pageSize, UInt32.sub_eq_add_neg, UInt32.add_assoc]
    rfl
  have hmask : pageMask.toNat = (2 ^ (32 - 12) - 1) * 2 ^ 12 := by decide
  rw [pageRound, hsub, UInt32.toNat_and, UInt32.toNat_add, hmask]
  exact and_highMask (Nat.mod_lt _ (by omega))

private theorem rangePages_stop {endVa virt : UInt32} (hstop : ¬ virt < endVa) (fuel : Nat)
    (phys : UInt32) : rangePages endVa fuel virt phys = [] := by
  cases fuel with
  | zero => rfl
  | succ fuel => simp only [rangePages, hstop, if_false]

/-- A loop over `n` pages that does not wrap maps them in order. -/
theorem rangePages_eq {endVa : UInt32} (n : Nat) {fuel : Nat} (hfuel : n ≤ fuel)
    {virt : UInt32} (phys : UInt32) (hend : virt.toNat + 4096 * n = endVa.toNat) :
    rangePages endVa fuel virt phys =
      (List.range n).map fun i =>
        (virt + pageSize * UInt32.ofNat i, phys + pageSize * UInt32.ofNat i) := by
  induction n generalizing fuel virt phys with
  | zero =>
    have hstop : ¬ virt < endVa := by
      rw [UInt32.lt_iff_toNat_lt]
      omega
    exact rangePages_stop hstop fuel phys
  | succ n ih =>
    obtain ⟨fuel, rfl⟩ := Nat.exists_eq_add_of_le' (Nat.le_trans (Nat.succ_le_succ n.zero_le) hfuel)
    have hlt := endVa.toNat_lt
    have hgo : virt < endVa := by
      rw [UInt32.lt_iff_toNat_lt]
      omega
    have hnext : (virt + pageSize).toNat = virt.toNat + 4096 := by
      rw [UInt32.toNat_add, pageSize]
      simp only [UInt32.reduceToNat]
      omega
    have hzero : pageSize * UInt32.ofNat 0 = 0 := by decide
    have hstep : ∀ (a : UInt32) (i : Nat),
        a + pageSize * UInt32.ofNat (i + 1) = a + pageSize + pageSize * UInt32.ofNat i := by
      intro a i
      have hone : pageSize * UInt32.ofNat 1 = pageSize := by decide
      rw [UInt32.ofNat_add, UInt32.mul_add, hone, UInt32.add_comm (pageSize * _) pageSize,
        UInt32.add_assoc]
    rw [rangePages, if_pos hgo, ih (by omega) (phys + pageSize) (by omega),
      List.range_succ_eq_map, List.map_cons, List.map_map, hzero, UInt32.add_zero,
      UInt32.add_zero]
    simp only [Function.comp_def, Nat.succ_eq_add_one, hstep]

/-- A range that does not wrap is mapped page by page; one that does is not mapped at all. -/
theorem pagesOfRange_eq (virt phys size : UInt32) :
    pagesOfRange virt phys size =
      if virt.toNat + (pageRound size).toNat < 2 ^ 32 then
        (List.range ((pageRound size).toNat / 4096)).map fun i =>
          (virt + pageSize * UInt32.ofNat i, phys + pageSize * UInt32.ofNat i)
      else [] := by
  have hround := pageRound_toNat size
  have hlt := (pageRound size).toNat_lt
  unfold pagesOfRange
  split
  · next hfit =>
    apply rangePages_eq
    · omega
    · rw [UInt32.toNat_add]
      omega
  · next hwrap =>
    have hvirt := virt.toNat_lt
    have hstop : ¬ virt < virt + pageRound size := by
      rw [UInt32.lt_iff_toNat_lt, UInt32.toNat_add]
      omega
    exact rangePages_stop hstop _ phys

/-- The contexts differ at most in the next page table. -/
theorem PagedVm.pageTable_paging (vm : PagedVm) (virt : UInt32) :
    (vm.pageTable virt).1.paging =
      if vm.needsTable virt then
        { vm.paging with nextPtPhys := vm.paging.nextPtPhys + pageSize }
      else vm.paging := by
  unfold PagedVm.pageTable
  split
  · rfl
  · rfl

/-- Mapping a page takes the next page table if there is none for it, and nothing else. -/
theorem pagingMapPage_paging (vm : PagedVm) (virt phys flags : UInt32) :
    (pagingMapPage vm virt phys flags).paging =
      if vm.needsTable virt then
        { vm.paging with nextPtPhys := vm.paging.nextPtPhys + pageSize }
      else vm.paging :=
  vm.pageTable_paging virt

/-- Mapping a page leaves the allocator alone. -/
theorem pagingMapPage_alloc (vm : PagedVm) (virt phys flags : UInt32) :
    (pagingMapPage vm virt phys flags).paging.physAllocPtr = vm.paging.physAllocPtr ∧
      (pagingMapPage vm virt phys flags).paging.physMemSize = vm.paging.physMemSize := by
  rw [pagingMapPage_paging]
  split
  · exact ⟨rfl, rfl⟩
  · exact ⟨rfl, rfl⟩

/-- Mapping a range does. -/
theorem pagingMapRange_alloc (vm : PagedVm) (virt phys size flags : UInt32) :
    (pagingMapRange vm virt phys size flags).paging.physAllocPtr = vm.paging.physAllocPtr ∧
      (pagingMapRange vm virt phys size flags).paging.physMemSize = vm.paging.physMemSize := by
  unfold pagingMapRange
  induction pagesOfRange virt phys size generalizing vm with
  | nil => exact ⟨rfl, rfl⟩
  | cons page pages ih =>
    rw [List.foldl_cons]
    obtain ⟨hptr, hsize⟩ := ih (pagingMapPage vm page.1 page.2 flags)
    obtain ⟨hptr', hsize'⟩ := pagingMapPage_alloc vm page.1 page.2 flags
    exact ⟨hptr.trans hptr', hsize.trans hsize'⟩

end Wbox.Vm
