import Wbox.Vm.PageMap

/-!
# What `paging_map_range` maps

`src/vm/paging.c:76–92`. The end of the range is a 32-bit sum and the cursor keeps the offset of
the first address in its page: a range that ends with the address space is not mapped at all, and
the last page of a range that does not start with a page may be left out.
-/

namespace Wbox.Vm

open Wbox.Lib

/-- The machine with another end of the pages its tables are taken from. -/
def PagedVm.upTo (vm : PagedVm) (base : UInt32) : PagedVm :=
  { vm with paging := { vm.paging with physAllocBase := base } }

/-- The entries of the page directory. -/
def directoryIndices : Finset UInt32 := (Finset.range 1024).image UInt32.ofNat

/-- The page tables are a tree, and behind the next one is memory for all that are missing, be it
reserved for them or not. -/
def TableSpace (vm : PagedVm) : Prop :=
  ∃ base, TableTree (vm.upTo base) ∧ TablesLeft (vm.upTo base) directoryIndices

/-- Every byte of a range is on a mapped page, and if the range starts with a page it is where it
was mapped to (an address of 32 bits). -/
structure MapsRange (vm : PagedVm) (virt phys size : UInt32) : Prop where
  translates : virt.toNat % 4096 = 0 → ∀ i, i < size → vm.translate (virt + i) = phys + i
  mapped : ∀ i, i < size → vm.isMapped (virt + i) = true

/-- The range is empty; or its rounded size does not reach the end of the address space, and it
touches no more pages than that has, or the last of them is mapped already; or it is mapped as
asked already. -/
def RangeReached (vm : PagedVm) (virt phys size : UInt32) : Prop :=
  size = 0 ∨
    if virt.toNat + pagesFor size < 2 ^ 32 then
      virt.toNat % 4096 + size.toNat ≤ pagesFor size ∨ vm.isMapped (virt + (size - 1)) = true
    else MapsRange vm virt phys size

variable {vm vm' : PagedVm} {pages : PageMap} {range : List (UInt32 × UInt32)}
  {virt phys size flags va i : UInt32} {frame : UInt32}

section Space

@[simp] theorem upTo_pde (vm : PagedVm) (base i : UInt32) : (vm.upTo base).pde i = vm.pde i := rfl

theorem mem_directoryIndices {i : UInt32} : i ∈ directoryIndices ↔ i.toNat < 1024 := by
  unfold directoryIndices
  rw [Finset.mem_image]
  constructor
  · intro h
    obtain ⟨n, hn, rfl⟩ := h
    have hlt : n < 1024 := Finset.mem_range.mp hn
    have hsize : n < UInt32.size := by
      unfold UInt32.size
      omega
    rw [UInt32.toNat_ofNat_of_lt' hsize]
    exact hlt
  · intro h
    exact ⟨i.toNat, Finset.mem_range.mpr h, UInt32.ofNat_toNat⟩

theorem directoryIndices_card : directoryIndices.card ≤ 1024 := by
  unfold directoryIndices
  exact Finset.card_image_le.trans (Nat.le_of_eq (Finset.card_range 1024))

theorem absentIn_card_le (vm : PagedVm) (regions : Finset UInt32) :
    (absentIn vm regions).card ≤ regions.card := by
  unfold absentIn
  exact Finset.card_filter_le regions _

theorem pagingMapPage_upTo (vm : PagedVm) (base virt phys flags : UInt32) :
    pagingMapPage (vm.upTo base) virt phys flags = (pagingMapPage vm virt phys flags).upTo base := by
  have htable : (vm.upTo base).pageTable virt =
      ((vm.pageTable virt).1.upTo base, (vm.pageTable virt).2) := by
    unfold PagedVm.pageTable
    by_cases hneeds : vm.needsTable virt = true
    · have hneeds' : (vm.upTo base).needsTable virt = true := hneeds
      rw [if_pos hneeds, if_pos hneeds']
      simp only [allocPageTable, PagedVm.upTo, PagedVm.pdeAddr]
    · have hneeds' : ¬ (vm.upTo base).needsTable virt = true := hneeds
      rw [if_neg hneeds, if_neg hneeds']
      rfl
  unfold pagingMapPage
  rw [htable]
  rfl

/-- A page is mapped, whichever pages its table comes from. -/
theorem TableSpace.mapPage (h : TableSpace vm) (virt phys flags : UInt32) :
    TableSpace (pagingMapPage vm virt phys flags) ∧
      ∀ va, (pagingMapPage vm virt phys flags).frameAt va =
        if va &&& pageMask = virt &&& pageMask then some (phys &&& pageMask)
        else vm.frameAt va := by
  obtain ⟨base, htree, hleft⟩ := h
  have hmem : vaPdeIndex (virt &&& pageMask) ∈ directoryIndices :=
    mem_directoryIndices.mpr (vaPdeIndex_lt _)
  have hsets := htree.mapPage (hleft.room hmem) phys flags
  rw [pagingMapPage_upTo] at hsets
  refine ⟨⟨base, hsets.tree, ?_⟩, hsets.frameAt⟩
  exact hleft.step (fun i hi => mem_directoryIndices.mp hi) hmem hsets.base hsets.next
    hsets.present hsets.pdes

/-- Pages are mapped one after the other. -/
theorem TableSpace.mapPages (h : TableSpace vm) (flags : UInt32)
    (hframes : ∀ va, vm.frameAt va = (pages (va &&& pageMask)).map Prod.fst) :
    TableSpace (range.foldl (fun vm page => pagingMapPage vm page.1 page.2 flags) vm) ∧
      ∀ va, (range.foldl (fun vm page => pagingMapPage vm page.1 page.2 flags) vm).frameAt va =
        (pages.setAll range flags (va &&& pageMask)).map Prod.fst := by
  induction range generalizing vm pages with
  | nil => exact ⟨h, hframes⟩
  | cons page range ih =>
    obtain ⟨hspace, hframe⟩ := h.mapPage page.1 page.2 flags
    refine @ih _ (pages.set page.1 page.2 flags) hspace ?_
    intro va
    rw [hframe va, set_apply]
    split
    · rfl
    · exact hframes va

/-- The frames of a machine, as a map. -/
def PagedVm.frames (vm : PagedVm) : PageMap := fun va => (vm.frameAt va).map fun frame => (frame, 0)

theorem frameAt_eq_frames (vm : PagedVm) (va : UInt32) :
    vm.frameAt va = (vm.frames (va &&& pageMask)).map Prod.fst := by
  have hpage : vm.frameAt (va &&& pageMask) = vm.frameAt va := by
    unfold PagedVm.frameAt PagedVm.entryAt
    rw [page_page]
  unfold PagedVm.frames
  rw [hpage]
  cases vm.frameAt va <;> rfl

/-- `paging_init` leaves an empty tree, with memory behind it for the table of every entry of the
directory. -/
theorem pagingInit_space {mem : PhysMem} {physBase physSize : UInt32}
    (hroom : PagingRoom physBase physSize) (hram : physSize.toNat ≤ mem.ramSize)
    (hall : physBase.toNat + 4095 + 1025 * 4096 ≤ physSize.toNat) :
    TableSpace (pagingInit mem physBase physSize) := by
  have hempty : ∀ i, i.toNat < 1024 →
      ¬ Present (PagedVm.pde (pagingInit mem physBase physSize) i) := by
    intro i hi
    rw [pagingInit_pde hroom hram hi]
    decide
  have hround := hroom.directory
  have hhigh := hroom.high
  have hnext : (pageRound physBase + pageSize).toNat = (pageRound physBase).toNat + 4096 := by
    have hconst : pageSize.toNat = 4096 := by decide
    rw [UInt32.toNat_add, hconst]
    omega
  have hbase : (pageRound physBase + 1025 * pageSize).toNat =
      (pageRound physBase).toNat + 1025 * 4096 := by
    have hconst : (1025 * pageSize).toNat = 1025 * 4096 := by decide
    rw [UInt32.toNat_add, hconst]
    omega
  have hsize : (clearTable mem (pageRound physBase)).ramSize = mem.ramSize :=
    (sameOn_clearTable (by omega) mem).size
  refine ⟨pageRound physBase + 1025 * pageSize, ?_, ?_⟩
  · constructor
    case table =>
      intro i hi hp
      rw [upTo_pde] at hp
      exact absurd hp (hempty i hi)
    case apart =>
      intro i _ hi _ hp _ _
      rw [upTo_pde] at hp
      exact absurd hp (hempty i hi)
    all_goals
      unfold PagedVm.upTo pagingInit
      dsimp only
      omega
  · have hmissing := absentIn_card_le (PagedVm.upTo (pagingInit mem physBase physSize)
      (pageRound physBase + 1025 * pageSize)) directoryIndices
    have hcard := directoryIndices_card
    unfold TablesLeft
    generalize absentIn _ directoryIndices = missing at hmissing ⊢
    unfold PagedVm.upTo pagingInit
    dsimp only
    omega

end Space

section Bytes

theorem frameAt_isMapped (vm : PagedVm) (va : UInt32) :
    vm.isMapped va = true ↔ vm.frameAt va ≠ none := by
  cases hframe : vm.frameAt va with
  | none => simp [(walk_of_no_frame hframe).1]
  | some frame => simp [(walk_of_frame hframe).1]

/-- Addresses of one page are mapped together. -/
theorem isMapped_congr {va vb : UInt32} (h : va &&& pageMask = vb &&& pageMask) :
    vm.isMapped va = true ↔ vm.isMapped vb = true := by
  rw [frameAt_isMapped, frameAt_isMapped, frameAt_eq_frames, frameAt_eq_frames vm vb, h]

/-- The `k`th page of a range. -/
theorem rangePage_toNat (a : UInt32) {k : Nat} (hk : k < 2 ^ 20) :
    (a + pageSize * UInt32.ofNat k).toNat = (a.toNat + 4096 * k) % 2 ^ 32 := by
  have hnum : pageSize.toNat = 4096 := by decide
  have hsize : k < UInt32.size := by
    unfold UInt32.size
    omega
  rw [UInt32.toNat_add, UInt32.toNat_mul, UInt32.toNat_ofNat_of_lt' hsize, hnum]
  omega

/-- The page of a byte of a range, counted from the first one. -/
def pageNumber (virt i : UInt32) : Nat := (virt.toNat % 4096 + i.toNat) / 4096

/-- A byte whose page has a number below the rounded size is on that page. -/
theorem byte_mem_rangeOf (phys : UInt32) (hfits : virt.toNat + size.toNat ≤ 2 ^ 32) (hi : i < size)
    (h : pageNumber virt i < pagesFor size / 4096) :
    (virt + pageSize * UInt32.ofNat (pageNumber virt i),
        phys + pageSize * UInt32.ofNat (pageNumber virt i)) ∈ rangeOf virt phys size ∧
      (virt + i) &&& pageMask =
        (virt + pageSize * UInt32.ofNat (pageNumber virt i)) &&& pageMask := by
  have hilt := UInt32.lt_iff_toNat_lt.mp hi
  have hsum : (virt + i).toNat = virt.toNat + i.toNat := by
    rw [UInt32.toNat_add]
    omega
  have hcount : pagesFor size / 4096 ≤ 2 ^ 20 := by
    have hsize := size.toNat_lt
    unfold pagesFor
    omega
  constructor
  · exact List.mem_map.mpr ⟨pageNumber virt i, List.mem_range.mpr h, rfl⟩
  · apply UInt32.toNat_inj.mp
    rw [pageMask_toNat, pageMask_toNat, hsum, rangePage_toNat virt (by omega)]
    unfold pageNumber
    omega

/-- The other bytes are on none of the pages. -/
theorem byte_not_mem_rangeOf (hfits : virt.toNat + size.toNat ≤ 2 ^ 32) (hi : i < size)
    (h : ¬ pageNumber virt i < pagesFor size / 4096) :
    ∀ page ∈ rangeOf virt phys size, (virt + i) &&& pageMask ≠ page.1 &&& pageMask := by
  intro page hpage heq
  obtain ⟨k, hk, rfl⟩ := List.mem_map.mp hpage
  have hilt := UInt32.lt_iff_toNat_lt.mp hi
  have hsum : (virt + i).toNat = virt.toNat + i.toNat := by
    rw [UInt32.toNat_add]
    omega
  have hcount : pagesFor size / 4096 ≤ 2 ^ 20 := by
    have hsize := size.toNat_lt
    unfold pagesFor
    omega
  have hlt : k < pagesFor size / 4096 := List.mem_range.mp hk
  have hnat := congrArg UInt32.toNat heq
  dsimp only at hnat
  rw [pageMask_toNat, pageMask_toNat, hsum, rangePage_toNat virt (by omega)] at hnat
  unfold pageNumber at h
  omega

/-- The frames of a machine are those of another in which a range has been mapped. -/
def RangeFrames (vm vm' : PagedVm) (virt phys size flags : UInt32) : Prop :=
  ∀ va, vm'.frameAt va =
    (vm.frames.setAll (rangeOf virt phys size) flags (va &&& pageMask)).map Prod.fst

/-- The frames after a call whose range ends before the address space does. -/
theorem pagingMapRange_frameAt (h : TableSpace vm) (hend : virt.toNat + pagesFor size < 2 ^ 32)
    (flags : UInt32) :
    RangeFrames vm (pagingMapRange vm virt phys size flags) virt phys size flags := by
  unfold pagingMapRange
  rw [pagesOfRange_eq_rangeOf, if_pos hend]
  exact (h.mapPages flags (frameAt_eq_frames vm)).2

/-- The frames after a call that finds its page tables in the reserved pages. -/
theorem PageTables.mapRange_frames (h : PageTables vm) (hend : virt.toNat + pagesFor size < 2 ^ 32)
    (hfit : TablesFit vm (pagesOfRange virt phys size))
    (hframes : ∀ page ∈ pagesOfRange virt phys size,
      vm.paging.physAllocBase.toNat ≤ (page.2 &&& pageMask).toNat) (flags : UInt32) :
    RangeFrames vm (pagingMapRange vm virt phys size flags) virt phys size flags := by
  have hfirst := h.first
  have hlast := h.last
  have hnonzero : ∀ va, vm.frameAt va ≠ some 0 := by
    intro va hzero
    unfold PagedVm.frameAt at hzero
    split at hzero
    · next hpresent =>
      have hframe := (h.frames va hpresent).1
      rw [Option.some.inj hzero, UInt32.toNat_zero] at hframe
      omega
    · cases hzero
  have hholds : HoldsMap
      ((pagesOfRange virt phys size).map fun page => vaPdeIndex (page.1 &&& pageMask)).toFinset
      vm vm.frames := ⟨h.tree, (tablesFit_iff vm _).mp hfit, frameAt_eq_frames vm, hnonzero⟩
  have hne : ∀ page ∈ pagesOfRange virt phys size, page.2 &&& pageMask ≠ 0 := by
    intro page hpage hzero
    have hlo := hframes page hpage
    rw [hzero, UInt32.toNat_zero] at hlo
    omega
  have hmapped := hholds.mapPages (fun _ => pdeIndex_of_mem)
    (fun page hpage => List.mem_toFinset.mpr (List.mem_map_of_mem hpage)) hne flags
  have hrange : pagesOfRange virt phys size = rangeOf virt phys size := by
    rw [pagesOfRange_eq_rangeOf, if_pos hend]
  unfold RangeFrames pagingMapRange
  rw [← hrange]
  exact hmapped.frames

/-- A range that does not is not mapped. -/
theorem pagingMapRange_wraps (hend : ¬ virt.toNat + pagesFor size < 2 ^ 32) (flags : UInt32) :
    pagingMapRange vm virt phys size flags = vm := by
  unfold pagingMapRange
  rw [pagesOfRange_eq_rangeOf, if_neg hend]
  rfl

/-- A byte of a mapped page. -/
theorem RangeFrames.byte (h : RangeFrames vm vm' virt phys size flags)
    (hfits : virt.toNat + size.toNat ≤ 2 ^ 32) (hi : i < size)
    (hpage : pageNumber virt i < pagesFor size / 4096) :
    vm'.frameAt (virt + i) =
      some ((phys + pageSize * UInt32.ofNat (pageNumber virt i)) &&& pageMask) := by
  obtain ⟨hmem, heq⟩ := byte_mem_rangeOf phys hfits hi hpage
  rw [h (virt + i), heq, setAll_of_mem (rangeOf_pairwise virt phys size) hmem, Option.map_some]

/-- A byte of a page that is left out keeps its frame. -/
theorem RangeFrames.byte_out (h : RangeFrames vm vm' virt phys size flags)
    (hfits : virt.toNat + size.toNat ≤ 2 ^ 32) (hi : i < size)
    (hpage : ¬ pageNumber virt i < pagesFor size / 4096) :
    vm'.frameAt (virt + i) = vm.frameAt (virt + i) := by
  rw [h (virt + i), setAll_of_not_mem (byte_not_mem_rangeOf hfits hi hpage), ← frameAt_eq_frames]

/-- In a range that starts with a page a byte is where it was mapped to. -/
theorem RangeFrames.translate (h : RangeFrames vm vm' virt phys size flags)
    (hphys : phys.toNat % 4096 = 0) (hfits : virt.toNat + size.toNat ≤ 2 ^ 32)
    (hvirt : virt.toNat % 4096 = 0) (hi : i < size) : vm'.translate (virt + i) = phys + i := by
  have hilt := UInt32.lt_iff_toNat_lt.mp hi
  have hsize := size.toNat_lt
  have hpage : pageNumber virt i < pagesFor size / 4096 := by
    unfold pageNumber pagesFor
    omega
  have hnumber : pageNumber virt i = i.toNat / 4096 := by
    unfold pageNumber
    rw [hvirt, Nat.zero_add]
  have hframe := h.byte hfits hi hpage
  rw [(walk_of_frame hframe).2.1]
  apply UInt32.toNat_inj.mp
  rw [frame_or_offset_toNat, pageMask_toNat, rangePage_toNat phys (by omega), hnumber,
    UInt32.toNat_add, UInt32.toNat_add]
  omega

/-- The last byte is the one on the last page. -/
theorem byte_last_page (hfits : virt.toNat + size.toNat ≤ 2 ^ 32) (hi : i < size)
    (hpage : ¬ pageNumber virt i < pagesFor size / 4096) :
    (virt + i) &&& pageMask = (virt + (size - 1)) &&& pageMask := by
  have hilt := UInt32.lt_iff_toNat_lt.mp hi
  have hsize := size.toNat_lt
  have hlast : (size - 1).toNat = size.toNat - 1 := by
    apply UInt32.toNat_sub_of_le
    rw [UInt32.le_iff_toNat_le]
    simp only [UInt32.reduceToNat]
    omega
  unfold pageNumber pagesFor at hpage
  apply UInt32.toNat_inj.mp
  rw [pageMask_toNat, pageMask_toNat, UInt32.toNat_add, UInt32.toNat_add, hlast]
  omega

end Bytes

/-- An empty range asks for nothing. -/
theorem MapsRange.of_empty (hsize : size = 0) : MapsRange vm virt phys size := by
  have hnone : ∀ i, ¬ i < size := by
    intro i hi
    rw [hsize, UInt32.lt_iff_toNat_lt] at hi
    exact absurd hi (Nat.not_lt_zero _)
  exact ⟨fun _ i hi => absurd hi (hnone i), fun i hi => absurd hi (hnone i)⟩

/-- A call maps its range exactly if the range is reached: the rounded size is added to the
address without its carry, and the offset of the address is not counted. -/
theorem pagingMapRange_maps_iff (h : TableSpace vm) (hphys : phys.toNat % 4096 = 0)
    (hfits : virt.toNat + size.toNat ≤ 2 ^ 32) (flags : UInt32) :
    MapsRange (pagingMapRange vm virt phys size flags) virt phys size ↔
      RangeReached vm virt phys size := by
  unfold RangeReached
  by_cases hzero : size = 0
  · simp only [hzero, true_or, iff_true]
    exact .of_empty rfl
  have hpos : 0 < size.toNat := by
    apply Nat.pos_of_ne_zero
    intro hnat
    exact hzero (UInt32.toNat_inj.mp hnat)
  by_cases hend : virt.toNat + pagesFor size < 2 ^ 32
  · rw [if_pos hend]
    have hlast : (size - 1).toNat = size.toNat - 1 := by
      apply UInt32.toNat_sub_of_le
      rw [UInt32.le_iff_toNat_le]
      simp only [UInt32.reduceToNat]
      omega
    constructor
    · intro hmaps
      refine .inr ?_
      by_cases hoff : virt.toNat % 4096 + size.toNat ≤ pagesFor size
      · exact .inl hoff
      · -- the last byte is on the page behind the ones that are mapped
        have hi : size - 1 < size := by
          rw [UInt32.lt_iff_toNat_lt, hlast]
          omega
        have hout : ¬ pageNumber virt (size - 1) < pagesFor size / 4096 := by
          unfold pageNumber
          rw [hlast]
          unfold pagesFor at hoff ⊢
          omega
        have hmapped := hmaps.mapped (size - 1) hi
        rw [frameAt_isMapped, (pagingMapRange_frameAt h hend flags).byte_out hfits hi hout,
          ← frameAt_isMapped] at hmapped
        exact .inr hmapped
    · intro hreached
      have hreached := hreached.resolve_left hzero
      constructor
      · intro hvirt i hi
        exact (pagingMapRange_frameAt h hend flags).translate hphys hfits hvirt hi
      · intro i hi
        rw [frameAt_isMapped]
        by_cases hpage : pageNumber virt i < pagesFor size / 4096
        · rw [(pagingMapRange_frameAt h hend flags).byte hfits hi hpage]
          exact Option.some_ne_none _
        · rw [(pagingMapRange_frameAt h hend flags).byte_out hfits hi hpage, ← frameAt_isMapped]
          rcases hreached with hoff | hmapped
          · have hilt := UInt32.lt_iff_toNat_lt.mp hi
            unfold pageNumber pagesFor at hpage
            unfold pagesFor at hoff
            omega
          · exact (isMapped_congr (byte_last_page hfits hi hpage)).mpr hmapped
  · rw [if_neg hend, pagingMapRange_wraps hend]
    simp only [hzero, false_or]

/-- The machine as `vm_init` starts it has a tree with memory for every table. -/
theorem vmPages_space : TableSpace vmPages.vm :=
  pagingInit_space ⟨by decide, by decide⟩ (Nat.le_refl _) (by decide)

theorem pagingMapRange_maps_iff_code : MapsRange (pagingMapRange vmPages.vm 0x401ff0 0x200000 0x1010 6)
    0x401ff0 0x200000 0x1010 ↔ RangeReached vmPages.vm 0x401ff0 0x200000 0x1010 :=
  pagingMapRange_maps_iff vmPages_space (by decide) (by decide) 6

/-- The last page of the address space is not mapped; and of two bytes on two pages only the first
one is. -/
theorem pagingMapRange_not_maps :
    ((0xFFFFF000 : UInt32).toNat + (0x1000 : UInt32).toNat ≤ 2 ^ 32 ∧
      ¬ MapsRange (pagingMapRange vmPages.vm 0xFFFFF000 0x200000 0x1000 6)
        0xFFFFF000 0x200000 0x1000) ∧
    ¬ MapsRange (pagingMapRange vmPages.vm 0x400FFF 0x200000 2 6) 0x400FFF 0x200000 2 := by
  have hroom : PagingRoom 0x00100000 0x10000000 := ⟨by decide, by decide⟩
  have hholds : HoldsMap ∅ vmPages.vm vmPages.pages :=
    pageStart_holds hroom (Nat.le_refl _) (by simp)
  have hnone : ∀ va, vmPages.vm.isMapped va = false :=
    fun va => (hholds.answers.unmapped va rfl).1
  refine ⟨⟨by decide, ?_⟩, ?_⟩
  · intro hmaps
    have hmapped := hmaps.mapped 0 (by decide)
    rw [pagingMapRange_wraps (by decide), hnone] at hmapped
    cases hmapped
  · intro hmaps
    have hmapped := hmaps.mapped 1 (by decide)
    rw [frameAt_isMapped, (pagingMapRange_frameAt vmPages_space (by decide) 6).byte_out (by decide)
      (by decide) (by decide), ← frameAt_isMapped, hnone] at hmapped
    cases hmapped

end Wbox.Vm
