import Wbox.Vm.Translation

/-!
# The page tables as a finite map

What the page tables are for: a map from pages to frames and flags, which `paging_map_page`,
`paging_map_range` and `paging_unmap_page` (`src/vm/paging.c:45–114`) update and which
`paging_is_mapped` and `paging_get_phys` (`paging.c:137–176`) are asked for. `paging_map_range`
compares addresses that wrap, so a range that ends with the address space is not mapped; and
`paging_get_phys` says 0 of a page in frame 0.
-/

namespace Wbox.Vm

open Wbox.Lib

/-- `paging_unmap_page`, `paging.c:94–114`. -/
def pagingUnmapPage (vm : PagedVm) (virt : UInt32) : PagedVm :=
  let virt := virt &&& pageMask
  let pde := memReadlPhys vm.mem (vm.paging.pdPhys + vaPdeIndex virt * 4)
  if pde &&& ptePresent = 0 then vm
  else
    let ptPhys := pde &&& pageMask
    { vm with mem := memWritelPhys vm.mem (ptPhys + vaPteIndex virt * 4) 0 }

/-- A call that changes the page tables. -/
inductive PageOp where
  | mapPage (virt phys flags : UInt32)
  | mapRange (virt phys size flags : UInt32)
  | unmapPage (virt : UInt32)

/-- The frame and the flags of every page that is mapped. -/
abbrev PageMap := UInt32 → Option (UInt32 × UInt32)

section Spec

/-- No page is mapped. -/
def PageMap.empty : PageMap := fun _ => none

/-- Map the page of an address. -/
def PageMap.set (pages : PageMap) (virt phys flags : UInt32) : PageMap :=
  Function.update pages (virt &&& pageMask)
    (some (phys &&& pageMask, flags &&& (pteWritable ||| pteUser)))

/-- Unmap the page of an address. -/
def PageMap.erase (pages : PageMap) (virt : UInt32) : PageMap :=
  Function.update pages (virt &&& pageMask) none

/-- The pages of a range, and where they go. -/
def rangeOf (virt phys size : UInt32) : List (UInt32 × UInt32) :=
  (List.range (pagesFor size / 4096)).map fun i =>
    (virt + pageSize * UInt32.ofNat i, phys + pageSize * UInt32.ofNat i)

/-- Map some pages one after the other. -/
def PageMap.setAll (pages : PageMap) (range : List (UInt32 × UInt32)) (flags : UInt32) : PageMap :=
  range.foldl (fun pages page => pages.set page.1 page.2 flags) pages

/-- The map after a call. -/
def PageMap.step (pages : PageMap) : PageOp → PageMap
  | .mapPage virt phys flags => pages.set virt phys flags
  | .mapRange virt phys size flags => pages.setAll (rangeOf virt phys size) flags
  | .unmapPage virt => pages.erase virt

/-- The pages a call is to map. -/
def PageOp.range : PageOp → List (UInt32 × UInt32)
  | .mapPage virt phys _ => [(virt, phys)]
  | .mapRange virt phys size _ => rangeOf virt phys size
  | .unmapPage _ => []

/-- The regions of 4 MB that some calls are to map pages of. -/
def regionsOf (ops : List PageOp) : Finset UInt32 :=
  ((ops.flatMap PageOp.range).map fun page => vaPdeIndex (page.1 &&& pageMask)).toFinset

end Spec

/-- The machine, and the map its page tables stand for. -/
structure PageRun where
  vm : PagedVm
  pages : PageMap

/-- The machine after a call. -/
def PagedVm.call (vm : PagedVm) : PageOp → PagedVm
  | .mapPage virt phys flags => pagingMapPage vm virt phys flags
  | .mapRange virt phys size flags => pagingMapRange vm virt phys size flags
  | .unmapPage virt => pagingUnmapPage vm virt

/-- A call, on both sides. -/
def pageStep (r : PageRun) (op : PageOp) : Option PageRun := some ⟨r.vm.call op, r.pages.step op⟩

/-- `paging_init`, and no page mapped. -/
def pageStart (mem : PhysMem) (physBase physSize : UInt32) : PageRun :=
  ⟨pagingInit mem physBase physSize, PageMap.empty⟩

/-- `paging_is_mapped` of the machine. -/
def PagedVm.isMapped (vm : PagedVm) (va : UInt32) : Bool :=
  pagingIsMapped vm.mem vm.paging.toPagingContext va

/-- The page walks answer as the map does, and do not disagree. -/
structure Answers (vm : PagedVm) (pages : PageMap) : Prop where
  mapped : ∀ va frame flags, pages (va &&& pageMask) = some (frame, flags) →
    vm.isMapped va = true ∧ vm.translate va = frame ||| va &&& 0xFFF
  unmapped : ∀ va, pages (va &&& pageMask) = none →
    vm.isMapped va = false ∧ vm.translate va = 0
  agree : ∀ va, vm.isMapped va = true ↔ vm.translate va ≠ 0

/-- No page goes to frame 0; and a range that does not end before the address space does changes
the frame of no page. -/
def MapsWell (r : PageRun) : PageOp → Prop
  | .mapPage _ phys _ => phys &&& pageMask ≠ 0
  | .mapRange virt phys size _ =>
      (∀ page ∈ rangeOf virt phys size, page.2 &&& pageMask ≠ 0) ∧
        (2 ^ 32 ≤ virt.toNat + pagesFor size → ∀ page ∈ rangeOf virt phys size,
          (r.pages (page.1 &&& pageMask)).map Prod.fst = some (page.2 &&& pageMask))
  | .unmapPage _ => True

variable {vm vm' : PagedVm} {pages pages' : PageMap} {virt phys size flags va : UInt32}

section Lookup

@[simp] theorem set_apply (pages : PageMap) (virt phys flags va : UInt32) :
    pages.set virt phys flags (va &&& pageMask) =
      if va &&& pageMask = virt &&& pageMask then
        some (phys &&& pageMask, flags &&& (pteWritable ||| pteUser))
      else pages (va &&& pageMask) :=
  Function.update_apply pages _ _ _

@[simp] theorem erase_apply (pages : PageMap) (virt va : UInt32) :
    pages.erase virt (va &&& pageMask) =
      if va &&& pageMask = virt &&& pageMask then none else pages (va &&& pageMask) :=
  Function.update_apply pages _ _ _

/-- The pages outside of a range. -/
theorem setAll_of_not_mem {range : List (UInt32 × UInt32)}
    (h : ∀ page ∈ range, va &&& pageMask ≠ page.1 &&& pageMask) :
    pages.setAll range flags (va &&& pageMask) = pages (va &&& pageMask) := by
  induction range generalizing pages with
  | nil => rfl
  | cons page range ih =>
    have hrest : (pages.set page.1 page.2 flags).setAll range flags (va &&& pageMask) =
        pages.set page.1 page.2 flags (va &&& pageMask) :=
      ih fun next hnext => h next (List.mem_cons_of_mem page hnext)
    exact hrest.trans ((set_apply _ _ _ _ _).trans (if_neg (h page List.mem_cons_self)))

/-- The pages of a range that meets none twice. -/
theorem setAll_of_mem {range : List (UInt32 × UInt32)}
    (h : range.Pairwise fun a b => a.1 &&& pageMask ≠ b.1 &&& pageMask)
    {page : UInt32 × UInt32} (hpage : page ∈ range) :
    pages.setAll range flags (page.1 &&& pageMask) =
      some (page.2 &&& pageMask, flags &&& (pteWritable ||| pteUser)) := by
  induction range generalizing pages with
  | nil => cases hpage
  | cons first range ih =>
    obtain ⟨hfirst, hrange⟩ := List.pairwise_cons.mp h
    rcases List.mem_cons.mp hpage with rfl | hpage
    · have hrest : (pages.set page.1 page.2 flags).setAll range flags (page.1 &&& pageMask) =
          pages.set page.1 page.2 flags (page.1 &&& pageMask) := setAll_of_not_mem hfirst
      exact hrest.trans ((set_apply _ _ _ _ _).trans (if_pos rfl))
    · exact ih hrange hpage

/-- A range meets no page twice. -/
theorem rangeOf_pairwise (virt phys size : UInt32) :
    (rangeOf virt phys size).Pairwise fun a b => a.1 &&& pageMask ≠ b.1 &&& pageMask := by
  apply List.pairwise_map.mpr
  have hsize := size.toNat_lt
  refine (List.pairwise_lt_range (n := pagesFor size / 4096)).imp_of_mem ?_
  intro i j hi hj hij heq
  have hcount : pagesFor size / 4096 ≤ 2 ^ 20 := by
    unfold pagesFor
    omega
  have hlt : j < pagesFor size / 4096 := List.mem_range.mp hj
  have hi32 : i < 2 ^ 32 := by omega
  have hj32 : j < 2 ^ 32 := by omega
  have hpage := congrArg UInt32.toNat heq
  have hnum : pageSize.toNat = 4096 := by decide
  rw [pageMask_toNat, pageMask_toNat, UInt32.toNat_add, UInt32.toNat_add, UInt32.toNat_mul,
    UInt32.toNat_mul, UInt32.toNat_ofNat_of_lt' hi32, UInt32.toNat_ofNat_of_lt' hj32, hnum] at hpage
  omega

/-- `paging_map_range` maps its range, or nothing if that does not end before the address space
does. -/
theorem pagesOfRange_eq_rangeOf (virt phys size : UInt32) :
    pagesOfRange virt phys size =
      if virt.toNat + pagesFor size < 2 ^ 32 then rangeOf virt phys size else [] := by
  have hround := pageRound_toNat size
  have hsize := size.toNat_lt
  rw [pagesOfRange_eq]
  unfold rangeOf
  by_cases hwrap : size.toNat + 4095 < 2 ^ 32
  · have hpages : (pageRound size).toNat = pagesFor size := by
      rw [hround, Nat.mod_eq_of_lt hwrap, pagesFor]
    rw [hpages]
  · -- a size that is rounded to 0
    have hzero : (pageRound size).toNat = 0 := by omega
    have hall : ¬ virt.toNat + pagesFor size < 2 ^ 32 := by
      unfold pagesFor
      omega
    rw [hzero, if_neg hall]
    split <;> rfl

end Lookup

section Answers

/-- What the map gives a page that the walks find. -/
theorem Answers.frame_of_isMapped (h : Answers vm pages) (hmapped : vm.isMapped va = true) :
    ∃ frame flags, pages (va &&& pageMask) = some (frame, flags) := by
  cases hpage : pages (va &&& pageMask) with
  | none =>
    have habsent := (h.unmapped va hpage).1
    rw [hmapped] at habsent
    cases habsent
  | some entry => exact ⟨entry.1, entry.2, rfl⟩

/-- A page has no offset. -/
theorem page_offset (va : UInt32) : va &&& pageMask &&& 0xFFF = 0 := by
  have hmask : pageMask &&& 0xFFF = 0 := by decide
  rw [UInt32.and_assoc, hmask, UInt32.and_zero]

theorem page_page (va : UInt32) : va &&& pageMask &&& pageMask = va &&& pageMask := by
  rw [UInt32.and_assoc, UInt32.and_self]

/-- The walks lead a page to its frame. -/
theorem Answers.translate_page (h : Answers vm pages) {frame fl : UInt32}
    (hpage : pages (va &&& pageMask) = some (frame, fl)) :
    vm.isMapped (va &&& pageMask) = true ∧ vm.translate (va &&& pageMask) = frame := by
  have hwalk := h.mapped (va &&& pageMask) frame fl (by rw [page_page, hpage])
  rwa [page_offset, UInt32.or_zero] at hwalk

/-- Walks that answer as the map does have no page in frame 0. -/
theorem Answers.frame_ne_zero (h : Answers vm pages) {frame fl : UInt32}
    (hpage : pages (va &&& pageMask) = some (frame, fl)) : frame ≠ 0 := by
  obtain ⟨hmapped, hwalk⟩ := h.translate_page hpage
  rw [← hwalk]
  exact (h.agree _).mp hmapped

/-- Two maps that the same walks answer for have the same frames. -/
theorem Answers.frame_eq (h : Answers vm pages) (h' : Answers vm pages') {frame fl : UInt32}
    (hpage : pages' (va &&& pageMask) = some (frame, fl)) :
    (pages (va &&& pageMask)).map Prod.fst = some frame := by
  obtain ⟨hmapped, hwalk⟩ := h'.translate_page hpage
  obtain ⟨frame₁, fl₁, hpage₁⟩ := h.frame_of_isMapped hmapped
  rw [page_page] at hpage₁
  obtain ⟨-, hwalk₁⟩ := h.translate_page hpage₁
  rw [hpage₁]
  exact congrArg some (hwalk₁.symm.trans hwalk)

/-- After a call that is not answered well the walks and the map differ. -/
theorem Answers.mapsWell (h : Answers vm pages) (op : PageOp)
    (h' : Answers (vm.call op) (pages.step op)) : MapsWell ⟨vm, pages⟩ op := by
  cases op with
  | mapPage virt phys flags =>
    have hpage : pages.set virt phys flags (virt &&& pageMask) =
        some (phys &&& pageMask, flags &&& (pteWritable ||| pteUser)) :=
      (set_apply _ _ _ _ _).trans (if_pos rfl)
    exact h'.frame_ne_zero hpage
  | mapRange virt phys size flags =>
    have hpages : ∀ page ∈ rangeOf virt phys size,
        pages.setAll (rangeOf virt phys size) flags (page.1 &&& pageMask) =
          some (page.2 &&& pageMask, flags &&& (pteWritable ||| pteUser)) :=
      fun page hpage => setAll_of_mem (rangeOf_pairwise virt phys size) hpage
    constructor
    · intro page hpage
      exact h'.frame_ne_zero (hpages page hpage)
    · intro hwrap page hpage
      have hnone : pagesOfRange virt phys size = [] := by
        rw [pagesOfRange_eq_rangeOf, if_neg (Nat.not_lt.mpr hwrap)]
      have hkeep : vm.call (.mapRange virt phys size flags) = vm := by
        simp only [PagedVm.call, pagingMapRange, hnone, List.foldl_nil]
      rw [hkeep] at h'
      exact h.frame_eq h' (hpages page hpage)
  | unmapPage virt => trivial

end Answers

section Invariant

/-- The frame that the page walk of an address ends with. -/
def PagedVm.frameAt (vm : PagedVm) (va : UInt32) : Option UInt32 :=
  if Present (vm.entryAt va) then some (vm.entryAt va &&& pageMask) else none

/-- The tree of page tables holds the frames of the map, with room for the tables of some
regions. -/
structure HoldsMap (regions : Finset UInt32) (vm : PagedVm) (pages : PageMap) : Prop where
  tree : TableTree vm
  left : TablesLeft vm regions
  frames : ∀ va, vm.frameAt va = (pages (va &&& pageMask)).map Prod.fst
  nonzero : ∀ va, vm.frameAt va ≠ some 0

variable {regions : Finset UInt32} {frame entry : UInt32}

/-- What the walks say of a page with a frame. -/
theorem walk_of_frame (h : vm.frameAt va = some frame) :
    vm.isMapped va = true ∧ vm.translate va = frame ||| va &&& 0xFFF ∧
      (frame ≠ 0 → vm.translate va ≠ 0) := by
  unfold PagedVm.frameAt at h
  split at h
  · next hpresent =>
    have hframe : vm.entryAt va &&& pageMask = frame := Option.some.inj h
    have hwalk : vm.translate va = frame ||| va &&& 0xFFF := by
      rw [translate_eq_entry, if_pos hpresent, hframe]
    refine ⟨(isMapped_iff_entry vm va).mpr hpresent, hwalk, ?_⟩
    intro hne hzero
    have haddr := frame_or_offset_toNat (vm.entryAt va) va
    rw [hframe, ← hwalk, hzero, UInt32.toNat_zero] at haddr
    apply hne
    apply UInt32.toNat_inj.mp
    rw [UInt32.toNat_zero]
    omega
  · cases h

/-- What the walks say of a page without one. -/
theorem walk_of_no_frame (h : vm.frameAt va = none) :
    vm.isMapped va = false ∧ vm.translate va = 0 := by
  unfold PagedVm.frameAt at h
  split at h
  · cases h
  · next habsent =>
    constructor
    · apply Bool.eq_false_iff.mpr
      intro hmapped
      exact habsent ((isMapped_iff_entry vm va).mp hmapped)
    · rw [translate_eq_entry, if_neg habsent]

/-- The walks of a tree that holds the map answer as the map does. -/
theorem HoldsMap.answers (h : HoldsMap regions vm pages) : Answers vm pages := by
  constructor
  · intro va frame flags hpage
    have hframe : vm.frameAt va = some frame := by rw [h.frames va, hpage, Option.map_some]
    obtain ⟨hmapped, hwalk, -⟩ := walk_of_frame hframe
    exact ⟨hmapped, hwalk⟩
  · intro va hpage
    apply walk_of_no_frame
    rw [h.frames va, hpage, Option.map_none]
  · intro va
    cases hframe : vm.frameAt va with
    | none =>
      obtain ⟨hmapped, hwalk⟩ := walk_of_no_frame hframe
      simp [hmapped, hwalk]
    | some frame =>
      obtain ⟨hmapped, -, hne⟩ := walk_of_frame hframe
      have hframe0 : frame ≠ 0 := by
        intro hzero
        exact h.nonzero va (hzero ▸ hframe)
      simp [hmapped, hne hframe0]

/-- Setting the entry of a page changes its frame alone. -/
theorem SetsEntry.frameAt (h : SetsEntry vm vm' virt
      (phys &&& pageMask ||| ptePresent ||| flags &&& (pteWritable ||| pteUser))) (va : UInt32) :
    vm'.frameAt va =
      if va &&& pageMask = virt &&& pageMask then some (phys &&& pageMask) else vm.frameAt va := by
  obtain ⟨hpresent, hmask⟩ := mapEntry phys flags
  unfold PagedVm.frameAt
  rw [h.entries va]
  by_cases hpage : va &&& pageMask = virt &&& pageMask
  · rw [if_pos hpage, if_pos hpage, if_pos hpresent, hmask]
  · rw [if_neg hpage, if_neg hpage]

/-- Mapping a page to a frame that is not 0. -/
theorem HoldsMap.mapPage (h : HoldsMap regions vm pages) (hlt : ∀ i ∈ regions, i.toNat < 1024)
    (hmem : vaPdeIndex (virt &&& pageMask) ∈ regions) (hframe : phys &&& pageMask ≠ 0)
    (flags : UInt32) :
    HoldsMap regions (pagingMapPage vm virt phys flags) (pages.set virt phys flags) := by
  have hsets := h.tree.mapPage (h.left.room hmem) phys flags
  have hframes := hsets.frameAt
  constructor
  case tree => exact hsets.tree
  case left => exact h.left.step hlt hmem hsets.base hsets.next hsets.present hsets.pdes
  case frames =>
    intro va
    rw [hframes va, set_apply]
    split
    · rfl
    · exact h.frames va
  case nonzero =>
    intro va hzero
    rw [hframes va] at hzero
    split at hzero
    · exact hframe (Option.some.inj hzero)
    · exact h.nonzero va hzero

/-- Mapping pages one after the other. -/
theorem HoldsMap.mapPages {range : List (UInt32 × UInt32)} (h : HoldsMap regions vm pages)
    (hlt : ∀ i ∈ regions, i.toNat < 1024)
    (hmem : ∀ page ∈ range, vaPdeIndex (page.1 &&& pageMask) ∈ regions)
    (hframe : ∀ page ∈ range, page.2 &&& pageMask ≠ 0) (flags : UInt32) :
    HoldsMap regions (range.foldl (fun vm page => pagingMapPage vm page.1 page.2 flags) vm)
      (pages.setAll range flags) := by
  induction range generalizing vm pages with
  | nil => exact h
  | cons page range ih =>
    have hfirst := h.mapPage hlt (hmem page List.mem_cons_self) (hframe page List.mem_cons_self)
      flags
    exact ih hfirst (fun next hnext => hmem next (List.mem_cons_of_mem page hnext))
      (fun next hnext => hframe next (List.mem_cons_of_mem page hnext))

/-- A range whose pages are in their frames already. -/
theorem HoldsMap.setAll (h : HoldsMap regions vm pages)
    (hsame : ∀ page ∈ rangeOf virt phys size,
      (pages (page.1 &&& pageMask)).map Prod.fst = some (page.2 &&& pageMask)) (flags : UInt32) :
    HoldsMap regions vm (pages.setAll (rangeOf virt phys size) flags) := by
  refine ⟨h.tree, h.left, ?_, h.nonzero⟩
  intro va
  rw [h.frames va]
  by_cases hmem : ∃ page ∈ rangeOf virt phys size, va &&& pageMask = page.1 &&& pageMask
  · obtain ⟨page, hpage, hva⟩ := hmem
    rw [hva, hsame page hpage, setAll_of_mem (rangeOf_pairwise virt phys size) hpage,
      Option.map_some]
  · rw [setAll_of_not_mem]
    intro page hpage hva
    exact hmem ⟨page, hpage, hva⟩

/-- `paging_unmap_page` clears the entry of its page, if there is one. -/
theorem pagingUnmapPage_eq (vm : PagedVm) (virt : UInt32) :
    pagingUnmapPage vm virt =
      if Present (vm.pde (vaPdeIndex (virt &&& pageMask))) then
        vm.writePte (vm.pde (vaPdeIndex (virt &&& pageMask)) &&& pageMask)
          (vaPteIndex (virt &&& pageMask)) 0
      else vm := by
  by_cases hpresent : Present (vm.pde (vaPdeIndex (virt &&& pageMask)))
  · rw [if_pos hpresent]
    exact if_neg hpresent
  · rw [if_neg hpresent]
    exact if_pos (not_not.mp hpresent)

/-- It keeps the tree and its directory, and clears the entry of its page alone. -/
theorem TableTree.unmapPage (h : TableTree vm) (virt : UInt32) :
    TableTree (pagingUnmapPage vm virt) ∧
      (pagingUnmapPage vm virt).paging = vm.paging ∧
      (∀ i, i.toNat < 1024 → (pagingUnmapPage vm virt).pde i = vm.pde i) ∧
      ∀ va, (pagingUnmapPage vm virt).entryAt va =
        if va &&& pageMask = virt &&& pageMask then 0 else vm.entryAt va := by
  rw [pagingUnmapPage_eq]
  by_cases hpresent : Present (vm.pde (vaPdeIndex (virt &&& pageMask)))
  · obtain ⟨htree, hentries⟩ := h.writePte virt hpresent 0
    have hpdes := (writePte_entries h (vaPdeIndex_lt (virt &&& pageMask))
      (vaPteIndex_lt (virt &&& pageMask)) hpresent 0).1
    rw [if_pos hpresent]
    exact ⟨htree, writePte_paging _ _ _ _, hpdes, hentries⟩
  · rw [if_neg hpresent]
    refine ⟨h, rfl, fun _ _ => rfl, ?_⟩
    intro va
    split
    · next hpage =>
      unfold PagedVm.entryAt
      rw [hpage, if_neg hpresent]
    · rfl

/-- The tables left depend on the directory, the next table and the end of the tables. -/
theorem TablesLeft.of_pdes (h : TablesLeft vm regions) (hlt : ∀ i ∈ regions, i.toNat < 1024)
    (hnext : vm'.paging.nextPtPhys = vm.paging.nextPtPhys)
    (hbase : vm'.paging.physAllocBase = vm.paging.physAllocBase)
    (hpdes : ∀ i, i.toNat < 1024 → vm'.pde i = vm.pde i) : TablesLeft vm' regions := by
  have hsame : absentIn vm' regions = absentIn vm regions := by
    apply Finset.filter_congr
    intro i hi
    rw [hpdes i (hlt i hi)]
  unfold TablesLeft at h ⊢
  rwa [hsame, hnext, hbase]

/-- Unmapping a page takes no table. -/
theorem HoldsMap.unmapPage (h : HoldsMap regions vm pages) (hlt : ∀ i ∈ regions, i.toNat < 1024)
    (virt : UInt32) : HoldsMap regions (pagingUnmapPage vm virt) (pages.erase virt) := by
  obtain ⟨htree, hpaging, hpdes, hentries⟩ := h.tree.unmapPage virt
  have hframes : ∀ va, (pagingUnmapPage vm virt).frameAt va =
      if va &&& pageMask = virt &&& pageMask then none else vm.frameAt va := by
    intro va
    have hzero : ¬ Present 0 := by decide
    unfold PagedVm.frameAt
    rw [hentries va]
    by_cases hpage : va &&& pageMask = virt &&& pageMask
    · rw [if_pos hpage, if_pos hpage, if_neg hzero]
    · rw [if_neg hpage, if_neg hpage]
  constructor
  case tree => exact htree
  case left => exact h.left.of_pdes hlt (by rw [hpaging]) (by rw [hpaging]) hpdes
  case frames =>
    intro va
    rw [hframes va, erase_apply]
    split
    · rfl
    · exact h.frames va
  case nonzero =>
    intro va hzero
    rw [hframes va] at hzero
    split at hzero
    · cases hzero
    · exact h.nonzero va hzero

/-- A call that maps well keeps the tree and the map together. -/
theorem HoldsMap.call (h : HoldsMap regions vm pages) (hlt : ∀ i ∈ regions, i.toNat < 1024)
    {op : PageOp} (hmem : ∀ page ∈ op.range, vaPdeIndex (page.1 &&& pageMask) ∈ regions)
    (hok : MapsWell ⟨vm, pages⟩ op) : HoldsMap regions (vm.call op) (pages.step op) := by
  cases op with
  | mapPage virt phys flags => exact h.mapPage hlt (hmem _ List.mem_cons_self) hok flags
  | mapRange virt phys size flags =>
    have hrun : vm.call (.mapRange virt phys size flags) =
        (pagesOfRange virt phys size).foldl (fun vm page => pagingMapPage vm page.1 page.2 flags)
          vm := rfl
    rw [hrun, pagesOfRange_eq_rangeOf]
    split
    · exact h.mapPages hlt hmem hok.1 flags
    · next hwrap => exact h.setAll (hok.2 (Nat.not_lt.mp hwrap)) flags
  | unmapPage virt => exact h.unmapPage hlt virt

/-- After `paging_init` no page is mapped, and there are 255 tables. -/
theorem pageStart_holds {mem : PhysMem} {physBase physSize : UInt32}
    (hroom : PagingRoom physBase physSize) (hram : physSize.toNat ≤ mem.ramSize)
    (hcard : regions.card ≤ 255) :
    HoldsMap regions (pagingInit mem physBase physSize) PageMap.empty := by
  have habsent : ¬ Present 0 := by decide
  have hframes : ∀ va, PagedVm.frameAt (pagingInit mem physBase physSize) va = none := by
    intro va
    unfold PagedVm.frameAt PagedVm.entryAt
    rw [pagingInit_pde hroom hram (vaPdeIndex_lt (va &&& pageMask)), if_neg habsent,
      if_neg habsent]
  constructor
  case tree => exact (pagingInit_tables hroom hram).tree
  case left =>
    have hle := Finset.card_filter_le regions
      (fun i => ¬ Present (PagedVm.pde (pagingInit mem physBase physSize) i))
    have hbase := hroom.base
    have hlow := hroom.low
    have hhigh := hroom.high
    have hround := hroom.directory
    have hnext : (pageRound physBase + pageSize).toNat = (pageRound physBase).toNat + 4096 := by
      have hconst : pageSize.toNat = 4096 := by decide
      rw [UInt32.toNat_add, hconst]
      omega
    show (pageRound physBase + pageSize).toNat + 4096 *
      (absentIn (pagingInit mem physBase physSize) regions).card ≤
        (pageRound physBase + 256 * pageSize).toNat
    unfold absentIn
    omega
  case frames =>
    intro va
    rw [hframes va]
    rfl
  case nonzero =>
    intro va hzero
    rw [hframes va] at hzero
    cases hzero

end Invariant

section Runs

/-- The regions of the calls of a run are numbers of directory entries. -/
theorem regionsOf_lt {ops : List PageOp} {i : UInt32} (hi : i ∈ regionsOf ops) : i.toNat < 1024 :=
  pdeIndex_of_mem hi

theorem mem_regionsOf {ops : List PageOp} {op : PageOp} (hop : op ∈ ops) {page : UInt32 × UInt32}
    (hpage : page ∈ op.range) : vaPdeIndex (page.1 &&& pageMask) ∈ regionsOf ops := by
  apply List.mem_toFinset.mpr
  exact List.mem_map.mpr ⟨page, List.mem_flatMap.mpr ⟨op, hop, hpage⟩, rfl⟩

/-- In a run that maps pages of at most 255 regions, the page walks answer as the map does,
exactly if every call maps well. -/
theorem pageRun_answers_iff {mem : PhysMem} {physBase physSize : UInt32}
    (hroom : PagingRoom physBase physSize) (hram : physSize.toNat ≤ mem.ramSize)
    {ops : List PageOp} (hregions : (regionsOf ops).card ≤ 255) {tr : List PageRun}
    (h : trace pageStep (pageStart mem physBase physSize) ops = some tr) :
    (∀ r ∈ tr, Answers r.vm r.pages) ↔
      Guarded pageStep MapsWell (pageStart mem physBase physSize) ops := by
  have hlt : ∀ i ∈ regionsOf ops, i.toNat < 1024 := fun i hi => regionsOf_lt hi
  apply trace_forall_iff_guarded_mem (I := fun r => HoldsMap (regionsOf ops) r.vm r.pages)
  · exact fun r hr => hr.answers
  · intro a op b hop ha hok hab
    obtain rfl : ⟨a.vm.call op, a.pages.step op⟩ = b := Option.some.inj hab
    exact ha.call hlt (fun page hpage => mem_regionsOf hop hpage) hok
  · intro a op b hop ha hok hab hans
    obtain rfl : ⟨a.vm.call op, a.pages.step op⟩ = b := Option.some.inj hab
    exact hok (ha.answers.mapsWell op hans)
  · exact pageStart_holds hroom hram hregions
  · exact h

/-- The machine as `vm_init` starts it, with no page mapped. -/
def vmPages : PageRun :=
  pageStart { ram := fun _ => 0, ramSize := 0x10000000 } 0x00100000 0x10000000

/-- Two pages are mapped, one of them is unmapped and the other one moved. -/
theorem pageRun_answers_twoPages : ∃ tr,
    trace pageStep vmPages [.mapRange 0x400000 0x200000 0x1234 6, .unmapPage 0x401fff,
      .mapPage 0x400000 0x300000 4] = some tr ∧ ∀ r ∈ tr, Answers r.vm r.pages := by
  have hroom : PagingRoom 0x00100000 0x10000000 := ⟨by decide, by decide⟩
  have hregions : (regionsOf [.mapRange 0x400000 0x200000 0x1234 6, .unmapPage 0x401fff,
      .mapPage 0x400000 0x300000 4]).card ≤ 255 := by decide +kernel
  refine ⟨_, rfl, (pageRun_answers_iff hroom (Nat.le_refl _) hregions rfl).mpr ?_⟩
  have hframes : (rangeOf 0x400000 0x200000 0x1234).all fun page => page.2 &&& pageMask ≠ 0 := by
    decide +kernel
  have hrange : MapsWell vmPages (.mapRange 0x400000 0x200000 0x1234 6) :=
    ⟨fun page hpage => of_decide_eq_true (List.all_eq_true.mp hframes page hpage),
      fun hwrap => absurd hwrap (by decide)⟩
  have hmove : (0x300000 : UInt32) &&& pageMask ≠ 0 := by decide
  exact ⟨hrange, fun _ _ => ⟨trivial, fun _ _ => ⟨hmove, fun _ _ => trivial⟩⟩⟩

/-- A call that does not map well is not answered well. -/
theorem not_answers_of_call {op : PageOp} (h : Answers vm pages) (hop : ¬ MapsWell ⟨vm, pages⟩ op) :
    ∃ tr, trace pageStep ⟨vm, pages⟩ [op] = some tr ∧ ¬ ∀ r ∈ tr, Answers r.vm r.pages := by
  refine ⟨[⟨vm, pages⟩, ⟨vm.call op, pages.step op⟩], rfl, ?_⟩
  intro hall
  have hlast := hall ⟨vm.call op, pages.step op⟩ (List.mem_cons_of_mem _ List.mem_cons_self)
  exact hop (h.mapsWell op hlast)

/-- The low memory that `vm_setup_paging` maps has frame 0, which `paging_get_phys` cannot tell
from a page that is not mapped; and `paging_map_range` maps nothing of a range that ends with the
address space. -/
theorem pageRun_not_answers :
    ((regionsOf [.mapRange 0 0 0x100000 pteWritable]).card ≤ 255 ∧
      (∀ page ∈ rangeOf 0 0 0x100000, page.2.toNat + 4096 ≤ 0x00100000) ∧
      ∃ tr, trace pageStep vmPages [.mapRange 0 0 0x100000 pteWritable] = some tr ∧
        ¬ ∀ r ∈ tr, Answers r.vm r.pages) ∧
    ((regionsOf [.mapRange 0xFFFFF000 0x200000 0x1000 6]).card ≤ 255 ∧
      (∀ page ∈ rangeOf 0xFFFFF000 0x200000 0x1000, 0x00100000 + 256 * 4096 ≤ page.2.toNat) ∧
      ∃ tr, trace pageStep vmPages [.mapRange 0xFFFFF000 0x200000 0x1000 6] = some tr ∧
        ¬ ∀ r ∈ tr, Answers r.vm r.pages) := by
  have hroom : PagingRoom 0x00100000 0x10000000 := ⟨by decide, by decide⟩
  have hholds : HoldsMap ∅ vmPages.vm vmPages.pages :=
    pageStart_holds hroom (Nat.le_refl _) (by simp)
  have hstart := hholds.answers
  constructor
  · have hlow : (rangeOf 0 0 0x100000).all fun page => page.2.toNat + 4096 ≤ 0x00100000 := by
      decide +kernel
    refine ⟨by decide +kernel, fun page hpage => ?_, not_answers_of_call hstart ?_⟩
    · exact of_decide_eq_true (List.all_eq_true.mp hlow page hpage)
    intro hwell
    have hmem : ((0 : UInt32), (0 : UInt32)) ∈ rangeOf 0 0 0x100000 := by decide +kernel
    exact hwell.1 _ hmem (by decide)
  · have hhigh : (rangeOf 0xFFFFF000 0x200000 0x1000).all fun page =>
        0x00100000 + 256 * 4096 ≤ page.2.toNat := by
      decide +kernel
    refine ⟨by decide +kernel, fun page hpage => ?_, not_answers_of_call hstart ?_⟩
    · exact of_decide_eq_true (List.all_eq_true.mp hhigh page hpage)
    intro hwell
    have hmem : ((0xFFFFF000 : UInt32), (0x200000 : UInt32)) ∈ rangeOf 0xFFFFF000 0x200000 0x1000 :=
      by decide +kernel
    have hframe := hwell.2 (by decide) _ hmem
    cases hframe

end Runs

end Wbox.Vm
