import Wbox.Lib.Trace
import Wbox.Vm.Paging

/-!
# Physical frames

Runs of `paging_alloc_phys`, `paging_map_page` and `paging_map_range` after `paging_init`, with
the regions returned and the page tables taken. `alloc_page_table` has no bound: the 256th table
is the first page of the allocation area. `paging_alloc_phys` adds in 32 bits.
-/

namespace Wbox.Vm

open Wbox.Lib

/-- The paging calls, and anything else that writes to physical memory between them. -/
inductive PagingOp where
  | alloc (size : UInt32)
  | mapPage (virt phys flags : UInt32)
  | mapRange (virt phys size flags : UInt32)
  | write (mem : PhysMem)

/-- An address that was returned for a request of `size` bytes. -/
structure Region where
  addr : UInt32
  size : UInt32
  deriving DecidableEq, Repr

/-- The bytes of a region. -/
def Region.Covers (g : Region) (x : Nat) : Prop :=
  g.addr.toNat ≤ x ∧ x < g.addr.toNat + g.size.toNat

/-- The bytes of a page. -/
def PageCovers (page : UInt32) (x : Nat) : Prop := page.toNat ≤ x ∧ x < page.toNat + 4096

/-- The machine, the page tables taken and the regions returned so far, the latest first. -/
structure PagingRun where
  vm : PagedVm
  tables : List UInt32
  regions : List Region

/-- Map a page and record the table it takes. -/
def PagingRun.mapPage (r : PagingRun) (virt phys flags : UInt32) : PagingRun :=
  { r with
    vm := pagingMapPage r.vm virt phys flags
    tables := if r.vm.needsTable virt then r.vm.paging.nextPtPhys :: r.tables else r.tables }

/-- One call, or other writes. -/
def pagingStep (r : PagingRun) : PagingOp → Option PagingRun
  | .alloc size =>
      let alloc := pagingAllocPhys r.vm size
      some
        { r with
          vm := alloc.1
          regions := if alloc.2 = 0 then r.regions else ⟨alloc.2, size⟩ :: r.regions }
  | .mapPage virt phys flags => some (r.mapPage virt phys flags)
  | .mapRange virt phys size flags =>
      some ((pagesOfRange virt phys size).foldl (fun r page => r.mapPage page.1 page.2 flags) r)
  | .write mem => some { r with vm := { r.vm with mem := mem } }

/-- The machine after `paging_init`. -/
def pagingStart (mem : PhysMem) (physBase physSize : UInt32) : PagingRun :=
  { vm := pagingInit mem physBase physSize, tables := [], regions := [] }

/-- All regions are aligned, in the allocation area, and apart from each other, from the page
directory and from every page table. -/
structure FramesApart (r : PagingRun) : Prop where
  aligned : ∀ g ∈ r.regions, g.addr.toNat % 4096 = 0
  inside : ∀ g ∈ r.regions, r.vm.paging.physAllocBase.toNat ≤ g.addr.toNat ∧
    g.addr.toNat + g.size.toNat ≤ r.vm.paging.physMemSize.toNat
  disjoint : r.regions.Pairwise fun g g' => ∀ x, ¬ (g.Covers x ∧ g'.Covers x)
  directory : ∀ g ∈ r.regions, ∀ x, ¬ (g.Covers x ∧ PageCovers r.vm.paging.pdPhys x)
  tables : ∀ g ∈ r.regions, ∀ t ∈ r.tables, ∀ x, ¬ (g.Covers x ∧ PageCovers t x)

/-- The size rounded up to whole pages, as a number. -/
def pagesFor (size : UInt32) : Nat := (size.toNat + 4095) / 4096 * 4096

/-- A page that needs a table finds one of the first 255, or nothing has been allocated yet. -/
def TableFits (r : PagingRun) (virt : UInt32) : Prop :=
  r.vm.needsTable virt = true →
    r.tables.length < 255 ∨ r.vm.paging.physAllocPtr = r.vm.paging.physAllocBase

/-- An allocation runs out of memory; or its end does not wrap in 32 bits, and at most 255 page
tables have been taken unless it is for no byte. A mapping takes its tables as above. -/
def FrameFits (r : PagingRun) : PagingOp → Prop
  | .alloc size =>
      r.vm.paging.physMemSize.toNat < (r.vm.paging.physAllocPtr.toNat + pagesFor size) % 2 ^ 32 ∨
        r.vm.paging.physAllocPtr.toNat + pagesFor size < 2 ^ 32 ∧
          (size = 0 ∨ r.tables.length ≤ 255)
  | .mapPage virt _ _ => TableFits r virt
  | .mapRange virt phys size flags =>
      Guarded (fun r page => some (r.mapPage page.1 page.2 flags)) (fun r page => TableFits r page.1)
        r (pagesOfRange virt phys size)
  | .write _ => True

/-- The directory and the reserved pages behind it lie in memory, which ends before the last page
of the address space. -/
structure PagingRoom (physBase physSize : UInt32) : Prop where
  low : physBase.toNat + 4095 + 256 * 4096 ≤ physSize.toNat
  high : physSize.toNat ≤ 2 ^ 32 - 4096

/-- The directory starts at the next page. -/
theorem PagingRoom.directory {physBase physSize : UInt32} (h : PagingRoom physBase physSize) :
    (pageRound physBase).toNat = (physBase.toNat + 4095) / 4096 * 4096 := by
  have hlow := h.low
  have hhigh := h.high
  rw [pageRound_toNat]
  omega

/-- The allocation area starts 256 pages behind it. -/
theorem PagingRoom.base {physBase physSize : UInt32} (h : PagingRoom physBase physSize) :
    (pageRound physBase + 256 * pageSize).toNat = (pageRound physBase).toNat + 256 * 4096 := by
  have hlow := h.low
  have hhigh := h.high
  have hround := h.directory
  have hconst : (256 * pageSize).toNat = 256 * 4096 := by decide
  rw [UInt32.toNat_add, hconst]
  omega

/-- The address of the `k`th page table behind a directory. -/
def tableAt (pdPhys : UInt32) (k : Nat) : UInt32 := pdPhys + pageSize * UInt32.ofNat (k + 1)

/-- The tables follow the directory; the regions fill the allocation area up to its pointer; and
the tables stay out of the area once something is in it. -/
structure FrameInv (p : PagingState) (tables : List UInt32) (regions : List Region) : Prop where
  page : p.pdPhys.toNat % 4096 = 0
  base : p.physAllocBase.toNat = p.pdPhys.toNat + 256 * 4096
  memory : p.physMemSize.toNat ≤ 2 ^ 32 - 4096
  next : p.nextPtPhys = tableAt p.pdPhys tables.length
  taken : ∀ t, t ∈ tables ↔ ∃ k, k < tables.length ∧ t = tableAt p.pdPhys k
  aligned : p.physAllocPtr.toNat % 4096 = 0
  low : p.physAllocBase.toNat ≤ p.physAllocPtr.toNat
  high : p.physAllocPtr.toNat ≤ p.physMemSize.toNat
  room : p.physAllocPtr = p.physAllocBase ∨ tables.length ≤ 255
  first : p.physAllocPtr = p.physAllocBase ∨ ∃ g ∈ regions, g.addr = p.physAllocBase ∧
    0 < g.size.toNat
  inside : ∀ g ∈ regions, g.addr.toNat % 4096 = 0 ∧ p.physAllocBase.toNat ≤ g.addr.toNat ∧
    g.addr.toNat + g.size.toNat ≤ p.physAllocPtr.toNat
  disjoint : regions.Pairwise fun g g' => ∀ x, ¬ (g.Covers x ∧ g'.Covers x)

variable {p : PagingState} {tables : List UInt32} {regions : List Region}

/-- Up to the first page of the allocation area, the tables do not wrap. -/
theorem FrameInv.tableAt_toNat (hi : FrameInv p tables regions) {k : Nat} (hk : k ≤ 255) :
    (tableAt p.pdPhys k).toNat = p.pdPhys.toNat + 4096 * (k + 1) := by
  have hbase := hi.base
  have hlow := hi.low
  have hhigh := hi.high
  have hmem := hi.memory
  have hcount : (UInt32.ofNat (k + 1)).toNat = k + 1 := by
    rw [UInt32.toNat_ofNat']
    omega
  rw [tableAt, UInt32.toNat_add, UInt32.toNat_mul, hcount, pageSize]
  simp only [UInt32.reduceToNat]
  omega

/-- The 256th table is the first page of the allocation area. -/
theorem FrameInv.tableAt_base (hi : FrameInv p tables regions) :
    tableAt p.pdPhys 255 = p.physAllocBase := by
  apply UInt32.toNat_inj.mp
  rw [hi.tableAt_toNat (Nat.le_refl 255), hi.base]

/-- Nothing is in the allocation area while its pointer is at the start. -/
theorem FrameInv.size_zero (hi : FrameInv p tables regions)
    (hptr : p.physAllocPtr = p.physAllocBase) {g : Region} (hg : g ∈ regions) :
    g.size.toNat = 0 := by
  have hregion := hi.inside g hg
  rw [hptr] at hregion
  omega

/-- A table that fits can be taken. -/
theorem FrameInv.takeTable (hi : FrameInv p tables regions)
    (hfit : tables.length < 255 ∨ p.physAllocPtr = p.physAllocBase) :
    FrameInv { p with nextPtPhys := p.nextPtPhys + pageSize } (p.nextPtPhys :: tables) regions where
  page := by
    dsimp only
    exact hi.page
  base := hi.base
  memory := hi.memory
  next := by
    have hone : pageSize * UInt32.ofNat 1 = pageSize := by decide
    dsimp only [tableAt]
    rw [hi.next, tableAt, List.length_cons, UInt32.ofNat_add (tables.length + 1) 1,
      UInt32.mul_add, hone, UInt32.add_assoc]
  taken := by
    intro t
    rw [List.mem_cons, List.length_cons, hi.taken, hi.next]
    constructor
    · rintro (rfl | ⟨k, hk, rfl⟩)
      · exact ⟨tables.length, Nat.lt_succ_self _, rfl⟩
      · exact ⟨k, Nat.lt_succ_of_lt hk, rfl⟩
    · rintro ⟨k, hk, rfl⟩
      rcases Nat.lt_succ_iff_lt_or_eq.mp hk with hk | rfl
      · exact Or.inr ⟨k, hk, rfl⟩
      · exact Or.inl rfl
  aligned := hi.aligned
  low := hi.low
  high := hi.high
  room := by
    rcases hfit with hlen | hptr
    · exact Or.inr hlen
    · exact Or.inl hptr
  first := hi.first
  inside := hi.inside
  disjoint := hi.disjoint

/-- A region that fits can be allocated. -/
theorem FrameInv.allocate (hi : FrameInv p tables regions) {size : UInt32}
    (hwrap : p.physAllocPtr.toNat + pagesFor size < 2 ^ 32)
    (hfit : p.physAllocPtr.toNat + pagesFor size ≤ p.physMemSize.toNat)
    (htables : size = 0 ∨ tables.length ≤ 255) :
    FrameInv { p with physAllocPtr := p.physAllocPtr + pageRound size } tables
      (⟨p.physAllocPtr, size⟩ :: regions) := by
  have hptr : (p.physAllocPtr + pageRound size).toNat =
      p.physAllocPtr.toNat + pagesFor size := by
    have hsize := size.toNat_lt
    rw [UInt32.toNat_add, pageRound_toNat]
    unfold pagesFor at hwrap ⊢
    omega
  have haligned := hi.aligned
  have hlow := hi.low
  have hcover : size.toNat ≤ pagesFor size := by
    unfold pagesFor
    omega
  refine ⟨hi.page, hi.base, hi.memory, hi.next, hi.taken, ?_, ?_, ?_, ?_, ?_, ?_, ?_⟩
  · rw [hptr]
    unfold pagesFor
    omega
  · rw [hptr]
    dsimp only
    omega
  · rw [hptr]
    exact hfit
  · rcases htables with rfl | hlen
    · have hround : pageRound 0 = 0 := by decide
      simpa only [hround, UInt32.add_zero] using hi.room
    · exact Or.inr hlen
  · dsimp only
    by_cases hsize : size.toNat = 0
    · have hzero : size = 0 := UInt32.toNat_inj.mp hsize
      have hround : pageRound 0 = 0 := by decide
      subst hzero
      rw [hround, UInt32.add_zero]
      exact hi.first.imp_right fun ⟨g, hg, hrest⟩ => ⟨g, List.mem_cons_of_mem _ hg, hrest⟩
    · right
      rcases hi.first with heq | ⟨g, hg, hrest⟩
      · exact ⟨_, List.mem_cons_self, heq, Nat.pos_of_ne_zero hsize⟩
      · exact ⟨g, List.mem_cons_of_mem _ hg, hrest⟩
  · rw [hptr]
    intro g hg
    rcases List.mem_cons.mp hg with rfl | hg
    · dsimp only
      exact ⟨hi.aligned, hi.low, by omega⟩
    · have hregion := hi.inside g hg
      dsimp only
      omega
  · refine List.pairwise_cons.mpr ⟨?_, hi.disjoint⟩
    rintro g hg x ⟨⟨hlo, -⟩, -, hhi⟩
    have hregion := hi.inside g hg
    dsimp only at hlo
    omega

/-- The tables stay out of the regions. -/
theorem FrameInv.table_below (hi : FrameInv p tables regions) {g : Region} (hg : g ∈ regions)
    {t : UInt32} (ht : t ∈ tables) : ∀ x, ¬ (g.Covers x ∧ PageCovers t x) := by
  rintro x ⟨⟨hlo, hhi⟩, -, hend⟩
  rcases hi.room with hptr | hlen
  · have hzero := hi.size_zero hptr hg
    omega
  · obtain ⟨k, hk, rfl⟩ := (hi.taken t).mp ht
    have hbase := hi.base
    have hregion := hi.inside g hg
    rw [hi.tableAt_toNat (by omega)] at hend
    omega

/-- A run is in the invariant's states. -/
def PagingInv (r : PagingRun) : Prop := FrameInv r.vm.paging r.tables r.regions

variable {r r' : PagingRun} {op : PagingOp}

/-- The invariant contains that the frames are apart. -/
theorem PagingInv.apart (hi : PagingInv r) : FramesApart r where
  aligned := fun g hg => (hi.inside g hg).1
  inside := by
    intro g hg
    have hregion := hi.inside g hg
    have hhigh := hi.high
    omega
  disjoint := hi.disjoint
  directory := by
    rintro g hg x ⟨⟨hlo, -⟩, -, hend⟩
    have hregion := hi.inside g hg
    have hbase := hi.base
    omega
  tables := fun g hg t ht => hi.table_below hg ht

/-- `paging_alloc_phys` runs out of memory, or returns the pointer and moves it. -/
theorem pagingAllocPhys_cases (vm : PagedVm) (size : UInt32) :
    (vm.paging.physMemSize.toNat < (vm.paging.physAllocPtr.toNat + pagesFor size) % 2 ^ 32 ∧
      pagingAllocPhys vm size = (vm, 0)) ∨
    ((vm.paging.physAllocPtr.toNat + pagesFor size) % 2 ^ 32 ≤ vm.paging.physMemSize.toNat ∧
      (pagingAllocPhys vm size).2 = vm.paging.physAllocPtr ∧
      (pagingAllocPhys vm size).1.paging =
        { vm.paging with physAllocPtr := vm.paging.physAllocPtr + pageRound size }) := by
  have hsum : (vm.paging.physAllocPtr + pageRound size).toNat =
      (vm.paging.physAllocPtr.toNat + pagesFor size) % 2 ^ 32 := by
    have hsize := size.toNat_lt
    rw [UInt32.toNat_add, pageRound_toNat, pagesFor]
    omega
  rw [← hsum]
  unfold pagingAllocPhys
  by_cases h : vm.paging.physAllocPtr + pageRound size > vm.paging.physMemSize
  · left
    exact ⟨UInt32.lt_iff_toNat_lt.mp h, by simp only [h, if_true]⟩
  · right
    simp only [h, if_false]
    exact ⟨UInt32.le_iff_toNat_le.mp (UInt32.not_lt.mp h), trivial, trivial⟩

/-- The allocation pointer is not 0. -/
theorem PagingInv.ptr_ne_zero (hi : PagingInv r) : r.vm.paging.physAllocPtr ≠ 0 := by
  intro hzero
  have hbase := hi.base
  have hlow := hi.low
  rw [hzero, UInt32.toNat_zero] at hlow
  omega

/-- Mapping a page with a table that fits keeps the invariant. -/
theorem PagingInv.mapPage (hi : PagingInv r) {virt : UInt32} (hf : TableFits r virt)
    (phys flags : UInt32) : PagingInv (r.mapPage virt phys flags) := by
  unfold PagingInv PagingRun.mapPage
  rw [pagingMapPage_paging]
  by_cases hneeds : r.vm.needsTable virt = true
  · simp only [hneeds, if_true]
    exact FrameInv.takeTable hi (hf hneeds)
  · simp only [hneeds, Bool.false_eq_true, if_false]
    exact hi

/-- A call whose frames fit keeps the invariant. -/
theorem PagingInv.step (hi : PagingInv r) (hf : FrameFits r op) (h : pagingStep r op = some r') :
    PagingInv r' := by
  cases op with
  | alloc size =>
    rw [← Option.some.inj h]
    rcases pagingAllocPhys_cases r.vm size with ⟨-, hfail⟩ | ⟨hle, haddr, hpaging⟩
    · simpa only [hfail, if_true] using hi
    · simp only [haddr, hi.ptr_ne_zero, if_false]
      unfold PagingInv
      rw [hpaging]
      rcases hf with hout | ⟨hwrap, htables⟩
      · exact absurd hle (Nat.not_le.mpr hout)
      · rw [Nat.mod_eq_of_lt hwrap] at hle
        exact FrameInv.allocate hi hwrap hle htables
  | mapPage virt phys flags =>
    rw [← Option.some.inj h]
    exact hi.mapPage hf phys flags
  | mapRange virt phys size flags =>
    rw [← Option.some.inj h]
    exact foldl_of_guarded (I := PagingInv) (fun a page ha hok => ha.mapPage hok page.2 flags) hi hf
  | write mem =>
    rw [← Option.some.inj h]
    exact hi

/-- A page table lies in a region. -/
def TableInRegion (r : PagingRun) : Prop :=
  ∃ g ∈ r.regions, ∃ t ∈ r.tables, ∃ x, g.Covers x ∧ PageCovers t x

theorem TableInRegion.not_apart (h : TableInRegion r) : ¬ FramesApart r := by
  obtain ⟨g, hg, t, ht, x, hx⟩ := h
  exact fun hapart => hapart.tables g hg t ht x hx

/-- Tables are not given back. -/
theorem TableInRegion.mapPage (h : TableInRegion r) (virt phys flags : UInt32) :
    TableInRegion (r.mapPage virt phys flags) := by
  obtain ⟨g, hg, t, ht, hx⟩ := h
  refine ⟨g, hg, t, ?_, hx⟩
  unfold PagingRun.mapPage
  dsimp only
  split
  · exact List.mem_cons_of_mem _ ht
  · exact ht

/-- The 256th table is taken from the first region. -/
theorem PagingInv.mapPage_spoils (hi : PagingInv r) {virt : UInt32} (hf : ¬ TableFits r virt)
    (phys flags : UInt32) : TableInRegion (r.mapPage virt phys flags) := by
  unfold TableFits at hf
  rw [Classical.not_imp, not_or] at hf
  obtain ⟨hneeds, hlen, hptr⟩ := hf
  obtain ⟨g, hg, haddr, hsize⟩ := hi.first.resolve_left hptr
  have hroom := hi.room.resolve_left hptr
  have hcount : r.tables.length = 255 := by omega
  have htable : r.vm.paging.nextPtPhys = r.vm.paging.physAllocBase := by
    rw [hi.next, hcount, hi.tableAt_base]
  refine ⟨g, hg, r.vm.paging.nextPtPhys, ?_, r.vm.paging.physAllocBase.toNat, ?_, ?_⟩
  · simp only [PagingRun.mapPage, hneeds, if_true, List.mem_cons, true_or]
  · rw [← haddr]
    exact ⟨Nat.le_refl _, by omega⟩
  · rw [htable]
    exact ⟨Nat.le_refl _, by omega⟩

/-- An allocation that does not fit returns a region outside memory, or over a page table. -/
theorem PagingInv.alloc_spoils (hi : PagingInv r) {size : UInt32}
    (hf : ¬ FrameFits r (.alloc size)) (h : pagingStep r (.alloc size) = some r') :
    ¬ FramesApart r' := by
  unfold FrameFits at hf
  rw [not_or, not_and, not_or] at hf
  obtain ⟨hle, hbad⟩ := hf
  rcases pagingAllocPhys_cases r.vm size with ⟨hout, -⟩ | ⟨-, haddr, hpaging⟩
  · exact absurd hout hle
  have hr' : (⟨r.vm.paging.physAllocPtr, size⟩ : Region) ∈ r'.regions ∧
      r'.vm.paging.physMemSize = r.vm.paging.physMemSize ∧ r'.tables = r.tables := by
    rw [← Option.some.inj h]
    simp only [haddr, hi.ptr_ne_zero, if_false, List.mem_cons, true_or, hpaging, and_self]
  obtain ⟨hmem, hsize, htables⟩ := hr'
  intro hapart
  by_cases hwrap : r.vm.paging.physAllocPtr.toNat + pagesFor size < 2 ^ 32
  · obtain ⟨hne, hlen⟩ := hbad hwrap
    have hptr := hi.room.resolve_right hlen
    have hpos : 0 < size.toNat := by
      apply Nat.pos_of_ne_zero
      intro hzero
      exact hne (UInt32.toNat_inj.mp hzero)
    have htable : r.vm.paging.physAllocBase ∈ r'.tables := by
      rw [htables, hi.taken]
      exact ⟨255, by omega, hi.tableAt_base.symm⟩
    refine hapart.tables _ hmem _ htable r.vm.paging.physAllocBase.toNat ⟨?_, ?_⟩
    · rw [← hptr]
      exact ⟨Nat.le_refl _, Nat.lt_add_of_pos_right hpos⟩
    · exact ⟨Nat.le_refl _, by omega⟩
  · have hend := (hapart.inside _ hmem).2
    have hmemory := hi.memory
    rw [hsize] at hend
    unfold pagesFor at hwrap
    dsimp only at hend
    omega

/-- A call whose frames do not fit leaves frames that are not apart. -/
theorem PagingInv.spoils (hi : PagingInv r) (hf : ¬ FrameFits r op)
    (h : pagingStep r op = some r') : ¬ FramesApart r' := by
  cases op with
  | alloc size => exact hi.alloc_spoils hf h
  | mapPage virt phys flags =>
    rw [← Option.some.inj h]
    exact (hi.mapPage_spoils hf phys flags).not_apart
  | mapRange virt phys size flags =>
    rw [← Option.some.inj h]
    exact (foldl_of_not_guarded (I := PagingInv) (B := TableInRegion)
      (fun a page ha hok => ha.mapPage hok page.2 flags)
      (fun a page ha hok => ha.mapPage_spoils hok page.2 flags)
      (fun a page ha => ha.mapPage page.1 page.2 flags) hi hf).not_apart
  | write mem => exact absurd trivial hf

/-- `paging_init` leaves the allocation area empty. -/
theorem pagingStart_inv {physBase physSize : UInt32} (hroom : PagingRoom physBase physSize)
    (mem : PhysMem) : PagingInv (pagingStart mem physBase physSize) := by
  have hlow := hroom.low
  have hhigh := hroom.high
  have hround := hroom.directory
  have hbase := hroom.base
  refine ⟨?_, hbase, hhigh, ?_, ?_, ?_, Nat.le_refl _, ?_, Or.inl rfl, Or.inl rfl, ?_,
    List.Pairwise.nil⟩
  · dsimp only [pagingStart, pagingInit]
    omega
  · have hone : pageSize * UInt32.ofNat (0 + 1) = pageSize := by decide
    dsimp only [pagingStart, pagingInit, tableAt, List.length_nil]
    rw [hone]
  · simp [pagingStart]
  · dsimp only [pagingStart, pagingInit]
    omega
  · dsimp only [pagingStart, pagingInit]
    omega
  · simp [pagingStart]

/-- In a run after `paging_init` all frames are apart, exactly if every call's frames fit. -/
theorem pagingRun_framesApart_iff {mem : PhysMem} {physBase physSize : UInt32}
    (hroom : PagingRoom physBase physSize) {ops : List PagingOp} {tr : List PagingRun}
    (h : trace pagingStep (pagingStart mem physBase physSize) ops = some tr) :
    (∀ a ∈ tr, FramesApart a) ↔
      Guarded pagingStep FrameFits (pagingStart mem physBase physSize) ops :=
  trace_forall_iff_guarded (fun _ ha => ha.apart) (fun _ _ _ ha hok hab => ha.step hok hab)
    (fun _ _ _ ha hok hab => ha.spoils hok hab) (pagingStart_inv hroom mem) h

/-- The machine as `vm_init` starts it: the directory at 1 MiB of 256 MiB. -/
def vmStart : PagingRun :=
  pagingStart { ram := fun _ => 0, ramSize := 0x10000000 } 0x00100000 0x10000000

/-- An allocation of two pages, the first of which is mapped. -/
theorem pagingRun_framesApart_twoPages : ∃ tr,
    trace pagingStep vmStart [.alloc 5000, .mapPage 0x400000 0x200000 6] = some tr ∧
      ∀ a ∈ tr, FramesApart a := by
  have hroom : PagingRoom 0x00100000 0x10000000 := ⟨by decide, by decide⟩
  have hrun : (trace pagingStep vmStart [.alloc 5000, .mapPage 0x400000 0x200000 6]).isSome =
      true := rfl
  obtain ⟨tr, htr⟩ := Option.isSome_iff_exists.mp hrun
  refine ⟨tr, htr, (pagingRun_framesApart_iff hroom htr).mpr ⟨?_, ?_⟩⟩
  · exact Or.inr ⟨by decide +kernel, Or.inr (by decide)⟩
  · intro r hr
    have htables : r.tables = [] := by
      rw [← Option.some.inj hr]
      rfl
    refine ⟨fun _ => Or.inl ?_, fun _ _ => trivial⟩
    rw [htables]
    decide

/-- A request for all but one of the 2^32 bytes is rounded to 0 and granted. -/
theorem pagingAllocPhys_wraps : ∃ tr,
    trace pagingStep vmStart [.alloc 0xFFFFFFFF] = some tr ∧ ¬ ∀ a ∈ tr, FramesApart a := by
  have hrun : (trace pagingStep vmStart [.alloc 0xFFFFFFFF]).isSome = true := rfl
  obtain ⟨tr, htr⟩ := Option.isSome_iff_exists.mp hrun
  refine ⟨tr, htr, ?_⟩
  intro hall
  obtain ⟨r, rest, hs, hrest, rfl⟩ := trace_cons htr
  have hr : r ∈ rest := List.mem_of_getElem? (trace_head hrest)
  have hregions : ((pagingStep vmStart (.alloc 0xFFFFFFFF)).map PagingRun.regions) =
      some [⟨0x200000, 0xFFFFFFFF⟩] := by decide +kernel
  have hsize : ((pagingStep vmStart (.alloc 0xFFFFFFFF)).map fun r => r.vm.paging.physMemSize) =
      some 0x10000000 := by decide +kernel
  rw [hs] at hregions hsize
  have hmem : (⟨0x200000, 0xFFFFFFFF⟩ : Region) ∈ r.regions := by
    have hg : r.regions = [⟨0x200000, 0xFFFFFFFF⟩] := Option.some.inj hregions
    simp [hg]
  have hin := ((hall r (List.mem_cons_of_mem _ hr)).inside _ hmem).2
  have hbound : r.vm.paging.physMemSize = 0x10000000 := Option.some.inj hsize
  rw [hbound] at hin
  exact absurd hin (by decide)

end Wbox.Vm
