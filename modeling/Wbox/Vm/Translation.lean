import Mathlib.Data.Finset.Dedup
import Wbox.Vm.TableTree

/-!
# Address translation

What the page walk of `paging_get_phys` (`src/vm/paging.c:155–176`) finds after the calls that
build the tables. The directory, its tables and the frames handed out lie apart (`PageTables`), so
that `paging_map_page` changes the translation of its page alone, and no write to a frame changes
any translation.
-/

namespace Wbox.Vm

open Wbox.Lib

/-- The byte the guest reads at an address, if it is mapped. -/
def PagedVm.readVirt (vm : PagedVm) (va : UInt32) : Option UInt8 :=
  if vm.translate va = 0 then none else some (memReadbPhys vm.mem (vm.translate va))

/-- Page tables lie behind the directory and before the next one to be taken, each for one
directory entry; what is mapped has been allocated. -/
structure PageTables (vm : PagedVm) : Prop where
  page : vm.paging.pdPhys.toNat % 4096 = 0
  nextPage : vm.paging.nextPtPhys.toNat % 4096 = 0
  basePage : vm.paging.physAllocBase.toNat % 4096 = 0
  ptrPage : vm.paging.physAllocPtr.toNat % 4096 = 0
  first : vm.paging.pdPhys.toNat + 4096 ≤ vm.paging.nextPtPhys.toNat
  last : vm.paging.nextPtPhys.toNat ≤ vm.paging.physAllocBase.toNat
  low : vm.paging.physAllocBase.toNat ≤ vm.paging.physAllocPtr.toNat
  high : vm.paging.physAllocPtr.toNat ≤ vm.paging.physMemSize.toNat
  ram : vm.paging.physMemSize.toNat ≤ vm.mem.ramSize
  memory : vm.paging.physMemSize.toNat ≤ 2 ^ 32 - 4096
  table : ∀ i, i.toNat < 1024 → Present (vm.pde i) →
    vm.paging.pdPhys.toNat + 4096 ≤ (vm.pde i &&& pageMask).toNat ∧
      (vm.pde i &&& pageMask).toNat + 4096 ≤ vm.paging.nextPtPhys.toNat
  apart : ∀ i j, i.toNat < 1024 → j.toNat < 1024 → Present (vm.pde i) → Present (vm.pde j) →
    vm.pde i &&& pageMask = vm.pde j &&& pageMask → i = j
  frame : ∀ i j, i.toNat < 1024 → j.toNat < 1024 → Present (vm.pde i) →
    Present (vm.pte (vm.pde i &&& pageMask) j) →
      vm.paging.physAllocBase.toNat ≤ (vm.pte (vm.pde i &&& pageMask) j &&& pageMask).toNat ∧
        (vm.pte (vm.pde i &&& pageMask) j &&& pageMask).toNat + 4096 ≤
          vm.paging.physAllocPtr.toNat

/-- The directory entries of some pages that lead to no table yet. -/
def missingTables (vm : PagedVm) (pages : List (UInt32 × UInt32)) : Finset UInt32 :=
  {i ∈ (pages.map fun page => vaPdeIndex (page.1 &&& pageMask)).toFinset | ¬ Present (vm.pde i)}

/-- The tables some pages need are left in the reserved pages. -/
def TablesFit (vm : PagedVm) (pages : List (UInt32 × UInt32)) : Prop :=
  vm.paging.nextPtPhys.toNat + 4096 * (missingTables vm pages).card ≤
    vm.paging.physAllocBase.toNat

/-- No more tables are missing than there are pages. -/
theorem TablesFit.of_length {vm : PagedVm} {pages : List (UInt32 × UInt32)}
    (h : vm.paging.nextPtPhys.toNat + 4096 * pages.length ≤ vm.paging.physAllocBase.toNat) :
    TablesFit vm pages := by
  have hcard : (missingTables vm pages).card ≤ pages.length := by
    calc (missingTables vm pages).card
        ≤ (pages.map fun page => vaPdeIndex (page.1 &&& pageMask)).toFinset.card :=
          Finset.card_filter_le _ _
      _ ≤ (pages.map fun page => vaPdeIndex (page.1 &&& pageMask)).length :=
          List.toFinset_card_le _
      _ = pages.length := List.length_map _
  unfold TablesFit
  omega
variable {vm vm' : PagedVm} {m m' : PhysMem} {t virt phys flags va : UInt32}

section Mapping

/-- The tables of the machine are a tree of page tables. -/
theorem PageTables.tree (h : PageTables vm) : TableTree vm := by
  have hmemory := h.memory
  have hhigh := h.high
  have hlow := h.low
  have hram := h.ram
  exact ⟨h.page, h.nextPage, h.first, h.last, by omega, by omega, h.table, h.apart⟩

/-- Every pair of indices is one of a page. -/
theorem exists_page {i j : UInt32} (hi : i.toNat < 1024) (hj : j.toNat < 1024) :
    ∃ va, vaPdeIndex (va &&& pageMask) = i ∧ vaPteIndex (va &&& pageMask) = j := by
  have hva : (UInt32.ofNat (i.toNat * 2 ^ 22 + j.toNat * 4096)).toNat =
      i.toNat * 2 ^ 22 + j.toNat * 4096 := by
    apply UInt32.toNat_ofNat_of_lt'
    simp only [UInt32.size]
    omega
  refine ⟨UInt32.ofNat (i.toNat * 2 ^ 22 + j.toNat * 4096), ?_, ?_⟩
  · apply UInt32.toNat_inj.mp
    rw [vaPdeIndex_toNat, pageMask_toNat, hva]
    omega
  · apply UInt32.toNat_inj.mp
    rw [vaPteIndex_toNat, pageMask_toNat, hva]
    omega

/-- A tree of page tables whose pages are in allocated frames. -/
theorem TableTree.pageTables (h : TableTree vm)
    (hbase : vm.paging.physAllocBase.toNat % 4096 = 0)
    (hptr : vm.paging.physAllocPtr.toNat % 4096 = 0)
    (hlow : vm.paging.physAllocBase.toNat ≤ vm.paging.physAllocPtr.toNat)
    (hhigh : vm.paging.physAllocPtr.toNat ≤ vm.paging.physMemSize.toNat)
    (hram : vm.paging.physMemSize.toNat ≤ vm.mem.ramSize)
    (hmemory : vm.paging.physMemSize.toNat ≤ 2 ^ 32 - 4096)
    (hframes : ∀ va, Present (vm.entryAt va) →
      vm.paging.physAllocBase.toNat ≤ (vm.entryAt va &&& pageMask).toNat ∧
        (vm.entryAt va &&& pageMask).toNat + 4096 ≤ vm.paging.physAllocPtr.toNat) :
    PageTables vm := by
  refine ⟨h.page, h.nextPage, hbase, hptr, h.first, h.last, hlow, hhigh, hram, hmemory, h.table,
    h.apart, ?_⟩
  intro i j hi hj hpi hpj
  obtain ⟨va, rfl, rfl⟩ := exists_page hi hj
  have hentry := hframes va
  unfold PagedVm.entryAt at hentry
  rw [if_pos hpi] at hentry
  exact hentry hpj

/-- The entries of the tables lead to allocated frames. -/
theorem PageTables.frames (h : PageTables vm) (va : UInt32) (hp : Present (vm.entryAt va)) :
    vm.paging.physAllocBase.toNat ≤ (vm.entryAt va &&& pageMask).toNat ∧
      (vm.entryAt va &&& pageMask).toNat + 4096 ≤ vm.paging.physAllocPtr.toNat := by
  unfold PagedVm.entryAt at hp ⊢
  split at hp
  · next hd =>
    rw [if_pos hd]
    exact h.frame _ _ (vaPdeIndex_lt _) (vaPteIndex_lt _) hd hp
  · exact absurd hp (by decide)

/-- What is mapped has been allocated. -/
theorem PageTables.translate_frame (h : PageTables vm) (hva : vm.translate va ≠ 0) :
    vm.paging.physAllocBase.toNat ≤ (vm.translate va).toNat ∧
      (vm.translate va).toNat < vm.paging.physAllocPtr.toNat := by
  rw [translate_eq_entry] at hva ⊢
  split at hva
  · next hp =>
    have hframe := h.frames va hp
    rw [if_pos hp, frame_or_offset_toNat]
    omega
  · exact absurd rfl hva

/-- The machine in which a page has been mapped. -/
structure MapsPage (vm vm' : PagedVm) (virt phys : UInt32) : Prop where
  tables : PageTables vm'
  pdPhys : vm'.paging.pdPhys = vm.paging.pdPhys
  base : vm'.paging.physAllocBase = vm.paging.physAllocBase
  ptr : vm'.paging.physAllocPtr = vm.paging.physAllocPtr
  memory : vm'.paging.physMemSize = vm.paging.physMemSize
  next : vm'.paging.nextPtPhys.toNat =
    vm.paging.nextPtPhys.toNat + if vm.needsTable virt then 4096 else 0
  present : Present (vm'.pde (vaPdeIndex (virt &&& pageMask)))
  pdes : ∀ i, i.toNat < 1024 → i ≠ vaPdeIndex (virt &&& pageMask) → vm'.pde i = vm.pde i
  same : SameOn vm.NotTable vm.mem vm'.mem
  translate : ∀ va, vm'.translate va =
    if va &&& pageMask = virt &&& pageMask then phys &&& pageMask ||| va &&& 0xFFF
    else vm.translate va

/-- It takes one page table at most. -/
theorem MapsPage.next_le {virt phys : UInt32} (h : MapsPage vm vm' virt phys) :
    vm'.paging.nextPtPhys.toNat ≤ vm.paging.nextPtPhys.toNat + 4096 := by
  rw [h.next]
  split <;> omega

/-- `paging_map_page` of an allocated frame changes the translation of its page alone. -/
theorem PageTables.mapPage (h : PageTables vm) (hleft : vm.needsTable virt = true →
      vm.paging.nextPtPhys.toNat + 4096 ≤ vm.paging.physAllocBase.toNat) (flags : UInt32)
    (hlo : vm.paging.physAllocBase.toNat ≤ (phys &&& pageMask).toNat)
    (hhi : (phys &&& pageMask).toNat + 4096 ≤ vm.paging.physAllocPtr.toNat) :
    MapsPage vm (pagingMapPage vm virt phys flags) virt phys := by
  obtain ⟨hentry, hmask⟩ := mapEntry phys flags
  have hsets := h.tree.mapPage hleft phys flags
  generalize phys &&& pageMask ||| ptePresent ||| flags &&& (pteWritable ||| pteUser) = entry
    at hentry hmask hsets
  generalize pagingMapPage vm virt phys flags = vm₁ at hsets ⊢
  constructor
  case tables =>
    apply hsets.tree.pageTables
    · rw [hsets.base]
      exact h.basePage
    · rw [hsets.ptr]
      exact h.ptrPage
    · rw [hsets.base, hsets.ptr]
      exact h.low
    · rw [hsets.ptr, hsets.memory]
      exact h.high
    · rw [hsets.memory, hsets.same.size]
      exact h.ram
    · rw [hsets.memory]
      exact h.memory
    · intro va hp
      rw [hsets.base, hsets.ptr]
      rw [hsets.entries va] at hp ⊢
      split at hp
      · next hpage =>
        rw [if_pos hpage, hmask]
        exact ⟨hlo, hhi⟩
      · next hpage =>
        rw [if_neg hpage]
        exact h.frames va hp
  case translate =>
    intro va
    rw [translate_eq_entry, hsets.entries va, translate_eq_entry vm]
    by_cases hpage : va &&& pageMask = virt &&& pageMask
    · simp only [hpage, if_true, hentry, hmask]
    · simp only [hpage, if_false]
  case pdPhys => exact hsets.pdPhys
  case base => exact hsets.base
  case ptr => exact hsets.ptr
  case memory => exact hsets.memory
  case next => exact hsets.next
  case present => exact hsets.present
  case pdes => exact hsets.pdes
  case same => exact hsets.same

end Mapping

section Frames

/-- Writes to memory that is not before the allocation area. -/
theorem PageTables.sameOn (h : PageTables vm) (hs : SameOn {x | x < vm.paging.physAllocBase.toNat}
    vm.mem m') : PageTables { vm with mem := m' } ∧
      ∀ va, PagedVm.translate { vm with mem := m' } va = vm.translate va := by
  have hmemory := h.memory
  have hhigh := h.high
  have hlow := h.low
  have hlast := h.last
  have hfirst := h.first
  have hd : ∀ i, i.toNat < 1024 → PagedVm.pde { vm with mem := m' } i = vm.pde i := by
    intro i hi
    refine entry_congr (t := vm.paging.pdPhys) hs (by omega) ?_ hi
    intro x hlo hhi
    show x < vm.paging.physAllocBase.toNat
    omega
  have ht : ∀ i j, i.toNat < 1024 → j.toNat < 1024 → Present (vm.pde i) →
      PagedVm.pte { vm with mem := m' } (vm.pde i &&& pageMask) j =
        vm.pte (vm.pde i &&& pageMask) j := by
    intro i j hi hj hp
    have htable := h.table i hi hp
    refine entry_congr hs (by omega) ?_ hj
    intro x hlo hhi
    show x < vm.paging.physAllocBase.toNat
    omega
  constructor
  · refine ⟨h.page, h.nextPage, h.basePage, h.ptrPage, hfirst, hlast, hlow, hhigh, ?_, hmemory, ?_, ?_, ?_⟩
    · exact hs.size ▸ h.ram
    · intro i hi hp
      rw [hd i hi] at hp ⊢
      exact h.table i hi hp
    · intro i j hi hj hpi hpj heq
      rw [hd i hi] at hpi heq
      rw [hd j hj] at hpj heq
      exact h.apart i j hi hj hpi hpj heq
    · intro i j hi hj hpi hpj
      rw [hd i hi] at hpi hpj ⊢
      rw [ht i j hi hj hpi] at hpj ⊢
      exact h.frame i j hi hj hpi hpj
  · intro va
    have hi := vaPdeIndex_lt (va &&& pageMask)
    exact translate_congr (hd _ hi) fun hp => ht _ _ hi (vaPteIndex_lt _) hp

/-- `paging_alloc_phys` of memory that is left. -/
theorem PageTables.allocPhys (h : PageTables vm) {size : UInt32}
    (hle : vm.paging.physAllocPtr.toNat + pagesFor size ≤ vm.paging.physMemSize.toNat) :
    PageTables (pagingAllocPhys vm size).1 ∧
      (pagingAllocPhys vm size).2 = vm.paging.physAllocPtr ∧
      (pagingAllocPhys vm size).1.paging =
        { vm.paging with physAllocPtr := vm.paging.physAllocPtr + pageRound size } ∧
      (vm.paging.physAllocPtr + pageRound size).toNat =
        vm.paging.physAllocPtr.toNat + pagesFor size ∧
      SameOn {x | x < vm.paging.physAllocPtr.toNat} vm.mem (pagingAllocPhys vm size).1.mem ∧
      ∀ va, (pagingAllocPhys vm size).1.translate va = vm.translate va := by
  have hmemory := h.memory
  have hlow := h.low
  have hptrPage := h.ptrPage
  have hround := pageRound_toNat size
  have hsize := size.toNat_lt
  have hpages : (pageRound size).toNat = pagesFor size := by
    have hlt : size.toNat + 4095 < 2 ^ 32 := by
      unfold pagesFor at hle
      omega
    rw [hround, Nat.mod_eq_of_lt hlt, pagesFor]
  have hsum : (vm.paging.physAllocPtr + pageRound size).toNat =
      vm.paging.physAllocPtr.toNat + pagesFor size := by
    rw [UInt32.toNat_add, hpages]
    omega
  have hfits : ¬ vm.paging.physAllocPtr + pageRound size > vm.paging.physMemSize := by
    rw [gt_iff_lt, UInt32.lt_iff_toNat_lt, hsum]
    omega
  have hspace : vm.paging.physAllocPtr.toNat + (pageRound size).toNat ≤ 2 ^ 32 := by omega
  have hzero := (sameOn_zeroPhys hspace vm.mem).mono
    (fun x (hx : x < vm.paging.physAllocPtr.toNat) => Or.inl hx)
  have halloc : pagingAllocPhys vm size =
      ({ paging := { vm.paging with physAllocPtr := vm.paging.physAllocPtr + pageRound size }
         mem := zeroPhys vm.mem vm.paging.physAllocPtr (pageRound size) },
        vm.paging.physAllocPtr) := by
    unfold pagingAllocPhys
    simp only [hfits, if_false]
  obtain ⟨htables, htranslate⟩ := h.sameOn
    (hzero.mono fun x (hx : x < vm.paging.physAllocBase.toNat) => Nat.lt_of_lt_of_le hx hlow)
  rw [halloc]
  refine ⟨?_, rfl, rfl, hsum, hzero, htranslate⟩
  constructor
  case ptrPage =>
    dsimp only
    rw [hsum]
    unfold pagesFor
    omega
  case low =>
    dsimp only
    omega
  case high =>
    dsimp only
    omega
  case frame =>
    intro i j hi hj hpi hpj
    obtain ⟨hlo, hhi⟩ := htables.frame i j hi hj hpi hpj
    refine ⟨hlo, Nat.le_trans hhi ?_⟩
    dsimp only
    omega
  · exact htables.page
  · exact htables.nextPage
  · exact htables.basePage
  · exact htables.first
  · exact htables.last
  · exact htables.ram
  · exact htables.memory
  · exact htables.table
  · exact htables.apart

/-- The machine in which some pages have been mapped. -/
structure MapsPages (vm vm' : PagedVm) (pages : List (UInt32 × UInt32)) : Prop where
  tables : PageTables vm'
  pdPhys : vm'.paging.pdPhys = vm.paging.pdPhys
  base : vm'.paging.physAllocBase = vm.paging.physAllocBase
  ptr : vm'.paging.physAllocPtr = vm.paging.physAllocPtr
  memory : vm'.paging.physMemSize = vm.paging.physMemSize
  same : SameOn vm.NotTable vm.mem vm'.mem
  translate : ∀ va, (∀ page ∈ pages, va &&& pageMask ≠ page.1 &&& pageMask) →
    vm'.translate va = vm.translate va

/-- The directory entries of some pages are numbers of entries. -/
theorem pdeIndex_of_mem {pages : List (UInt32 × UInt32)} {i : UInt32}
    (hi : i ∈ (pages.map fun page => vaPdeIndex (page.1 &&& pageMask)).toFinset) :
    i.toNat < 1024 := by
  obtain ⟨page, -, rfl⟩ := List.mem_map.mp (List.mem_toFinset.mp hi)
  exact vaPdeIndex_lt _

theorem tablesFit_iff (vm : PagedVm) (pages : List (UInt32 × UInt32)) : TablesFit vm pages ↔
    TablesLeft vm (pages.map fun page => vaPdeIndex (page.1 &&& pageMask)).toFinset := Iff.rfl

/-- The directory entry of the first page. -/
theorem pdeIndex_head (page : UInt32 × UInt32) (pages : List (UInt32 × UInt32)) :
    vaPdeIndex (page.1 &&& pageMask) ∈
      ((page :: pages).map fun page => vaPdeIndex (page.1 &&& pageMask)).toFinset := by
  rw [List.mem_toFinset, List.map_cons]
  exact List.mem_cons_self

/-- The tables of the first page and of the others. -/
theorem TablesFit.cons {vm' : PagedVm} {page : UInt32 × UInt32} {pages : List (UInt32 × UInt32)}
    (hfit : TablesFit vm (page :: pages)) (hmaps : MapsPage vm vm' page.1 page.2) :
    TablesFit vm' pages := by
  rw [tablesFit_iff] at hfit ⊢
  have hleft := hfit.step (fun _ => pdeIndex_of_mem) (pdeIndex_head page pages) hmaps.base
    hmaps.next hmaps.present hmaps.pdes
  apply hleft.mono
  intro i hi
  rw [List.mem_toFinset] at hi ⊢
  exact List.mem_cons_of_mem _ hi

/-- The first page has its table left. -/
theorem TablesFit.head {page : UInt32 × UInt32} {pages : List (UInt32 × UInt32)}
    (hfit : TablesFit vm (page :: pages)) (hneeds : vm.needsTable page.1 = true) :
    vm.paging.nextPtPhys.toNat + 4096 ≤ vm.paging.physAllocBase.toNat := by
  rw [tablesFit_iff] at hfit
  exact hfit.room (pdeIndex_head page pages) hneeds

/-- A loop of mappings of allocated frames. -/
theorem PageTables.mapPages {pages : List (UInt32 × UInt32)} (h : PageTables vm)
    (hfit : TablesFit vm pages) (flags : UInt32)
    (hframes : ∀ page ∈ pages, vm.paging.physAllocBase.toNat ≤ (page.2 &&& pageMask).toNat ∧
      (page.2 &&& pageMask).toNat + 4096 ≤ vm.paging.physAllocPtr.toNat) :
    MapsPages vm (pages.foldl (fun vm page => pagingMapPage vm page.1 page.2 flags) vm) pages := by
  induction pages generalizing vm with
  | nil => exact ⟨h, rfl, rfl, rfl, rfl, .refl _ _, fun _ _ => rfl⟩
  | cons page pages ih =>
    obtain ⟨hlo, hhi⟩ := hframes page List.mem_cons_self
    have hfirst := h.mapPage hfit.head flags hlo hhi
    have hframes' : ∀ next ∈ pages,
        (pagingMapPage vm page.1 page.2 flags).paging.physAllocBase.toNat ≤
            (next.2 &&& pageMask).toNat ∧
          (next.2 &&& pageMask).toNat + 4096 ≤
            (pagingMapPage vm page.1 page.2 flags).paging.physAllocPtr.toNat := by
      intro next hnext
      rw [hfirst.base, hfirst.ptr]
      exact hframes next (List.mem_cons_of_mem page hnext)
    have hrest := ih hfirst.tables (hfit.cons hfirst) hframes'
    rw [List.foldl_cons]
    constructor
    case same =>
      have hsets : vm.NotTable = (pagingMapPage vm page.1 page.2 flags).NotTable := by
        unfold PagedVm.NotTable
        rw [hfirst.pdPhys, hfirst.base]
      exact hfirst.same.trans (hsets ▸ hrest.same)
    case translate =>
      intro va hva
      rw [hrest.translate va fun next hnext => hva next (List.mem_cons_of_mem page hnext),
        hfirst.translate va, if_neg (hva page List.mem_cons_self)]
    case tables => exact hrest.tables
    case pdPhys => exact hrest.pdPhys.trans hfirst.pdPhys
    case base => exact hrest.base.trans hfirst.base
    case ptr => exact hrest.ptr.trans hfirst.ptr
    case memory => exact hrest.memory.trans hfirst.memory

/-- The frames of a range are those of its physical region. -/
theorem pagesOfRange_frames (hphys : phys.toNat % 4096 = 0) {size : UInt32}
    (hfits : phys.toNat + pagesFor size ≤ 2 ^ 32 - 4096) {page : UInt32 × UInt32}
    (hpage : page ∈ pagesOfRange virt phys size) :
    phys.toNat ≤ (page.2 &&& pageMask).toNat ∧
      (page.2 &&& pageMask).toNat + 4096 ≤ phys.toNat + pagesFor size := by
  have hround : (pageRound size).toNat = pagesFor size := by
    have hlt : size.toNat + 4095 < 2 ^ 32 := by
      unfold pagesFor at hfits
      omega
    rw [pageRound_toNat, Nat.mod_eq_of_lt hlt, pagesFor]
  rw [pagesOfRange_eq] at hpage
  split at hpage
  · obtain ⟨i, hi, rfl⟩ := List.mem_map.mp hpage
    have hlt : i < (pageRound size).toNat / 4096 := List.mem_range.mp hi
    have hi32 : i < 2 ^ 32 := by omega
    have hnum : (UInt32.ofNat i).toNat = i := UInt32.toNat_ofNat_of_lt' hi32
    have hsize : pageSize.toNat = 4096 := by decide
    dsimp only
    rw [pageMask_toNat, UInt32.toNat_add, UInt32.toNat_mul, hnum, hsize]
    omega
  · cases hpage

/-- What is missing depends on the directory only. -/
theorem missingTables_congr (hd : ∀ i, i.toNat < 1024 → vm'.pde i = vm.pde i)
    (pages : List (UInt32 × UInt32)) : missingTables vm' pages = missingTables vm pages := by
  apply Finset.filter_congr
  intro i hi
  rw [hd i (pdeIndex_of_mem hi)]

/-- A region is refused for want of memory; or its end does not wrap in 32 bits, and the page
tables it needs are left. -/
def RegionFits (vm : PagedVm) (va size : UInt32) : Prop :=
  vm.paging.physMemSize.toNat < (vm.paging.physAllocPtr.toNat + pagesFor size) % 2 ^ 32 ∨
    vm.paging.physAllocPtr.toNat + pagesFor size < 2 ^ 32 ∧
      TablesFit vm (pagesOfRange va vm.paging.physAllocPtr size)

/-- A region that fits and is not refused has memory and tables. -/
theorem RegionFits.of_alloc {size : UInt32} (hfit : RegionFits vm va size)
    (halloc : (pagingAllocPhys vm size).2 ≠ 0) :
    vm.paging.physAllocPtr.toNat + pagesFor size ≤ vm.paging.physMemSize.toNat ∧
      TablesFit vm (pagesOfRange va vm.paging.physAllocPtr size) := by
  rcases pagingAllocPhys_cases vm size with ⟨-, hfail⟩ | ⟨hle, -, -⟩
  · rw [hfail] at halloc
    exact absurd rfl halloc
  · rcases hfit with hout | ⟨hwrap, htables⟩
    · exact absurd hle (Nat.not_le.mpr hout)
    · rw [Nat.mod_eq_of_lt hwrap] at hle
      exact ⟨hle, htables⟩

/-- Memory that has been allocated and filled. -/
theorem PageTables.allocFill (h : PageTables vm) {size : UInt32}
    (hle : vm.paging.physAllocPtr.toNat + pagesFor size ≤ vm.paging.physMemSize.toNat)
    {vm₁ : PagedVm} (hpaging : vm₁.paging = (pagingAllocPhys vm size).1.paging)
    (hfill : SameOn {x | x < vm.paging.physAllocPtr.toNat} (pagingAllocPhys vm size).1.mem
      vm₁.mem) :
    PageTables vm₁ ∧ (∀ va, vm₁.translate va = vm.translate va) ∧
      SameOn {x | x < vm.paging.physAllocPtr.toNat} vm.mem vm₁.mem := by
  obtain ⟨hpt, -, halloc, -, hsame, htranslate⟩ := h.allocPhys hle
  have hlow := h.low
  have hbase : (pagingAllocPhys vm size).1.paging.physAllocBase = vm.paging.physAllocBase := by
    rw [halloc]
  have hbelow : SameOn {x | x < (pagingAllocPhys vm size).1.paging.physAllocBase.toNat}
      (pagingAllocPhys vm size).1.mem vm₁.mem := by
    apply hfill.mono
    intro x hx
    have hlt : x < (pagingAllocPhys vm size).1.paging.physAllocBase.toNat := hx
    rw [hbase] at hlt
    exact Nat.lt_of_lt_of_le hlt hlow
  have heq : vm₁ = ⟨(pagingAllocPhys vm size).1.paging, vm₁.mem⟩ := by
    rw [← hpaging]
  obtain ⟨hpt₁, htranslate₁⟩ := hpt.sameOn hbelow
  rw [← heq] at hpt₁ htranslate₁
  exact ⟨hpt₁, fun va => (htranslate₁ va).trans (htranslate va), hsame.trans hfill⟩

/-- A region that has been allocated and filled can be mapped: its tables are left, and its frames
have been allocated. -/
theorem PageTables.allocRegion (h : PageTables vm) {size : UInt32} (hfit : RegionFits vm va size)
    (halloc : (pagingAllocPhys vm size).2 ≠ 0) {vm₁ : PagedVm}
    (hpaging : vm₁.paging = (pagingAllocPhys vm size).1.paging)
    (hfill : SameOn {x | x < vm.paging.physAllocPtr.toNat} (pagingAllocPhys vm size).1.mem
      vm₁.mem) :
    PageTables vm₁ ∧ TablesFit vm₁ (pagesOfRange va vm.paging.physAllocPtr size) ∧
      ∀ page ∈ pagesOfRange va vm.paging.physAllocPtr size,
        vm₁.paging.physAllocBase.toNat ≤ (page.2 &&& pageMask).toNat ∧
          (page.2 &&& pageMask).toNat + 4096 ≤ vm₁.paging.physAllocPtr.toNat := by
  obtain ⟨hle, htables⟩ := hfit.of_alloc halloc
  obtain ⟨-, -, hpaging', hsum, -, -⟩ := h.allocPhys hle
  obtain ⟨hpt, -, hsame⟩ := h.allocFill hle hpaging hfill
  rw [hpaging'] at hpaging
  have hbase : vm₁.paging.physAllocBase = vm.paging.physAllocBase := by rw [hpaging]
  have hnext : vm₁.paging.nextPtPhys = vm.paging.nextPtPhys := by rw [hpaging]
  have hpd : vm₁.paging.pdPhys = vm.paging.pdPhys := by rw [hpaging]
  have hptr₁ : vm₁.paging.physAllocPtr.toNat =
      vm.paging.physAllocPtr.toNat + pagesFor size := by
    rw [hpaging]
    exact hsum
  have hlow := h.low
  have hlast := h.last
  have hfirst := h.first
  have hmemory := h.memory
  have hpdes : ∀ i, i.toNat < 1024 → vm₁.pde i = vm.pde i := by
    intro i hi
    unfold PagedVm.pde
    rw [hpd]
    refine entry_congr hsame (by omega) ?_ hi
    intro x hlo hhi
    show x < vm.paging.physAllocPtr.toNat
    omega
  refine ⟨hpt, ?_, ?_⟩
  · unfold TablesFit
    rw [missingTables_congr hpdes, hnext, hbase]
    exact htables
  · intro page hpage
    have hrange := pagesOfRange_frames h.ptrPage (by omega) hpage
    rw [hbase, hptr₁]
    omega

/-- A region that is allocated, filled and mapped changes what is read at no address outside its
pages. -/
theorem PageTables.mapRegion (h : PageTables vm) {size : UInt32} (hfit : RegionFits vm va size)
    (halloc : (pagingAllocPhys vm size).2 ≠ 0) {vm₁ : PagedVm}
    (hpaging : vm₁.paging = (pagingAllocPhys vm size).1.paging)
    (hfill : SameOn {x | x < vm.paging.physAllocPtr.toNat} (pagingAllocPhys vm size).1.mem vm₁.mem)
    (flags : UInt32) :
    PageTables (pagingMapRange vm₁ va (pagingAllocPhys vm size).2 size flags) ∧
      ∀ x, (∀ page ∈ pagesOfRange va vm.paging.physAllocPtr size,
          x &&& pageMask ≠ page.1 &&& pageMask) → vm.readVirt x ≠ none →
        (pagingMapRange vm₁ va (pagingAllocPhys vm size).2 size flags).readVirt x =
          vm.readVirt x := by
  obtain ⟨hpt, hfit₁, hframes⟩ := h.allocRegion hfit halloc hpaging hfill
  obtain ⟨hle, -⟩ := hfit.of_alloc halloc
  obtain ⟨-, hptr, hpaging', -, -, -⟩ := h.allocPhys hle
  obtain ⟨-, htranslate, hsame⟩ := h.allocFill hle hpaging hfill
  have hbase : vm₁.paging.physAllocBase = vm.paging.physAllocBase := by
    rw [hpaging, hpaging']
  have hmaps := hpt.mapPages hfit₁ flags hframes
  rw [hptr]
  refine ⟨hmaps.tables, ?_⟩
  intro x hx hmapped
  have hne : vm.translate x ≠ 0 := by
    intro hzero
    exact hmapped (if_pos hzero)
  obtain ⟨hlo, hhi⟩ := h.translate_frame hne
  have hwalk : (pagingMapRange vm₁ va vm.paging.physAllocPtr size flags).translate x =
      vm.translate x := (hmaps.translate x hx).trans (htranslate x)
  have hread : memReadbPhys (pagingMapRange vm₁ va vm.paging.physAllocPtr size flags).mem
      (vm.translate x) = memReadbPhys vm.mem (vm.translate x) := by
    refine (hmaps.same.readb ?_).trans (hsame.readb hhi)
    show (vm.translate x).toNat < vm₁.paging.pdPhys.toNat ∨
      vm₁.paging.physAllocBase.toNat ≤ (vm.translate x).toNat
    rw [hbase]
    exact Or.inr hlo
  unfold PagedVm.readVirt
  rw [hwalk, hread]

/-- `paging_init` leaves the directory empty. -/
theorem pagingInit_pde {mem : PhysMem} {physBase physSize : UInt32}
    (hroom : PagingRoom physBase physSize) (hram : physSize.toNat ≤ mem.ramSize) {i : UInt32}
    (hi : i.toNat < 1024) : PagedVm.pde (pagingInit mem physBase physSize) i = 0 := by
  have hlow := hroom.low
  have hhigh := hroom.high
  have hround := hroom.directory
  have hentry := clearTable_entry (a := pageRound physBase) (m := mem) (by omega) (by omega) hi
  simp only [PagedVm.pde, pagingInit, hentry]

/-- After `paging_init` nothing is mapped. -/
theorem pagingInit_tables {mem : PhysMem} {physBase physSize : UInt32}
    (hroom : PagingRoom physBase physSize) (hram : physSize.toNat ≤ mem.ramSize) :
    PageTables (pagingInit mem physBase physSize) := by
  have hlow := hroom.low
  have hhigh := hroom.high
  have hround := hroom.directory
  have hbase := hroom.base
  have hnext : (pageRound physBase + pageSize).toNat = (pageRound physBase).toNat + 4096 := by
    have hconst : pageSize.toNat = 4096 := by decide
    rw [UInt32.toNat_add, hconst]
    omega
  have hempty : ∀ i, i.toNat < 1024 →
      ¬ Present (PagedVm.pde (pagingInit mem physBase physSize) i) := by
    intro i hi
    rw [pagingInit_pde hroom hram hi]
    decide
  constructor
  case table => exact fun i hi hp => absurd hp (hempty i hi)
  case apart => exact fun i _ hi _ hp _ _ => absurd hp (hempty i hi)
  case frame => exact fun i _ hi _ hp _ => absurd hp (hempty i hi)
  case ram =>
    show physSize.toNat ≤ (clearTable mem (pageRound physBase)).ramSize
    rw [(sameOn_clearTable (by omega) mem).size]
    exact hram
  all_goals
    unfold pagingInit
    dsimp only
    omega

end Frames

end Wbox.Vm
