import Wbox.Nt.Heap
import Wbox.Vm.Bytes
import Wbox.Vm.RangeMapping

/-!
# The memory of the process heap

`heap_init` (`src/nt/heap.c:49–83`) maps the pages of the region one after the other to memory that
is in one piece. As long as they stay there, what the heap reads and writes through
`paging_get_phys` are the bytes of that piece.
-/

namespace Wbox.Nt

open Wbox.Vm

/-- The loop of `heap_init` over the pages of the region, `heap.c:66–72`. -/
def mapHeap (vm : PagedVm) (basePhys size : UInt32) : PagedVm :=
  (List.range ((size + pageSize - 1) / pageSize).toNat).foldl
    (fun vm i => pagingMapPage vm (heapRegionVa + UInt32.ofNat i * pageSize)
      (basePhys + UInt32.ofNat i * pageSize) (ptePresent ||| pteWritable ||| pteUser)) vm

/-- The loop that clears the region, `heap.c:75–77`. -/
def clearHeap (mem : PhysMem) (basePhys size : UInt32) : PhysMem :=
  forBytes size (fun mem i => memWritebPhys mem (basePhys + i) 0) mem

/-- The heap after these loops. -/
def heapOn (vm : PagedVm) (basePhys size : UInt32) : HeapVm where
  heap := heapInit basePhys
  mem := clearHeap (mapHeap vm basePhys size).mem basePhys size
  paging := (mapHeap vm basePhys size).paging.toPagingContext

/-- `heap_init`, `heap.c:49–83`; `none` says that memory ran out. -/
def heapInitVm (vm : PagedVm) : Option HeapVm :=
  if (pagingAllocPhys vm heapRegionSize).2 = 0 then none
  else
    some (heapOn (pagingAllocPhys vm heapRegionSize).1 (pagingAllocPhys vm heapRegionSize).2
      heapRegionSize)

/-- The bytes outside of a range. -/
def Beside (lo hi : Nat) : Set Nat := {x | x < lo ∨ hi ≤ x}

/-- `n` bytes from an address on lie in the region. -/
def HeapState.Holds (heap : HeapState) (va : UInt32) (n : Nat) : Prop :=
  heap.baseVa.toNat ≤ va.toNat ∧ va.toNat + n ≤ heap.baseVa.toNat + heap.size.toNat

/-- Where a byte of the region is in memory. -/
def HeapState.physOf (heap : HeapState) (va : UInt32) : Nat :=
  heap.basePhys.toNat + (va.toNat - heap.baseVa.toNat)

/-- The bytes of memory that are not in the region. -/
def HeapState.outside (heap : HeapState) : Set Nat :=
  Beside heap.basePhys.toNat (heap.basePhys.toNat + heap.size.toNat)

/-- The pages of the region lead to its memory, whatever is written there. -/
structure RegionMapped (vm : HeapVm) : Prop where
  nonzero : vm.heap.basePhys ≠ 0
  space : vm.heap.baseVa.toNat + vm.heap.size.toNat < 2 ^ 32
  fits : vm.heap.basePhys.toNat + vm.heap.size.toNat < 2 ^ 32
  ram : vm.heap.basePhys.toNat + vm.heap.size.toNat ≤ vm.mem.ramSize
  walks : ∀ mem, SameOn vm.heap.outside vm.mem mem → ∀ va, vm.heap.Holds va 1 →
    (pagingGetPhys mem vm.paging va).toNat = vm.heap.physOf va

/-- The byte the guest finds at an address. -/
def HeapVm.byteAt (vm : HeapVm) (va : UInt32) : Option UInt8 :=
  if pagingGetPhys vm.mem vm.paging va = 0 then none
  else some (memReadbPhys vm.mem (pagingGetPhys vm.mem vm.paging va))

variable {vm vm' : HeapVm} {va : UInt32} {lo hi lo' hi' n : Nat} {m m' : PhysMem}

section Region

theorem HeapState.Holds.mono {heap : HeapState} (h : heap.Holds va n) (hle : hi ≤ n) :
    heap.Holds va hi := by
  obtain ⟨hlo, hhi⟩ := h
  exact ⟨hlo, by omega⟩

theorem beside_mono (hlo : lo' ≤ lo) (hhi : hi ≤ hi') : Beside lo' hi' ⊆ Beside lo hi := by
  intro x hx
  have hout : x < lo' ∨ hi' ≤ x := hx
  show x < lo ∨ hi ≤ x
  omega

theorem below_beside (hlo : n ≤ lo) : {x | x < n} ⊆ Beside lo hi := by
  intro x hx
  have hlt : x < n := hx
  show x < lo ∨ hi ≤ x
  omega

/-- The physical address of a byte of the region. -/
theorem RegionMapped.walk (hm : RegionMapped vm) (hva : vm.heap.Holds va n) (hn : 0 < n) :
    (pagingGetPhys vm.mem vm.paging va).toNat = vm.heap.physOf va ∧
      pagingGetPhys vm.mem vm.paging va ≠ 0 := by
  have hwalk := hm.walks vm.mem (.refl _ _) va (hva.mono hn)
  refine ⟨hwalk, ?_⟩
  intro hzero
  rw [hzero, UInt32.toNat_zero, HeapState.physOf] at hwalk
  apply hm.nonzero
  apply UInt32.toNat_inj.mp
  rw [UInt32.toNat_zero]
  omega

/-- A word of the region. -/
theorem RegionMapped.readVirtL (hm : RegionMapped vm) (hva : vm.heap.Holds va 4) :
    vm.readVirtL va = loadWord vm.mem.ram (vm.heap.physOf va) := by
  obtain ⟨hphys, hne⟩ := hm.walk hva (by omega)
  obtain ⟨hlo, hhi⟩ := hva
  have hfits := hm.fits
  have hram := hm.ram
  have hend : (pagingGetPhys vm.mem vm.paging va + 3).toNat < vm.mem.ramSize := by
    rw [UInt32.toNat_add, hphys]
    simp only [HeapState.physOf, UInt32.reduceToNat]
    omega
  unfold HeapVm.readVirtL
  simp only [hne, ne_eq, not_false_eq_true, if_true]
  unfold memReadlPhys
  rw [if_pos hend, hphys, loadWord]

/-- Writing a word of the region. -/
theorem RegionMapped.writeVirtL (hm : RegionMapped vm) (hva : vm.heap.Holds va 4) (val : UInt32) :
    vm.writeVirtL va val =
      { vm with mem := { vm.mem with ram := storeWord vm.mem.ram (vm.heap.physOf va) val } } := by
  obtain ⟨hphys, hne⟩ := hm.walk hva (by omega)
  obtain ⟨hlo, hhi⟩ := hva
  have hfits := hm.fits
  have hram := hm.ram
  have hend : (pagingGetPhys vm.mem vm.paging va + 3).toNat < vm.mem.ramSize := by
    rw [UInt32.toNat_add, hphys]
    simp only [HeapState.physOf, UInt32.reduceToNat]
    omega
  unfold HeapVm.writeVirtL
  simp only [hne, ne_eq, not_false_eq_true, if_true]
  unfold memWritelPhys
  rw [if_pos hend, hphys]

/-- A byte of the region. -/
theorem RegionMapped.byteAt (hm : RegionMapped vm) (hva : vm.heap.Holds va 1) :
    vm.byteAt va = some (vm.mem.ram (vm.heap.physOf va)) := by
  obtain ⟨hphys, hne⟩ := hm.walk hva (by omega)
  obtain ⟨hlo, hhi⟩ := hva
  have hram := hm.ram
  have hend : (pagingGetPhys vm.mem vm.paging va).toNat < vm.mem.ramSize := by
    rw [hphys, HeapState.physOf]
    omega
  unfold HeapVm.byteAt
  rw [if_neg hne, memReadbPhys, if_pos hend, hphys]

/-- Writing a word changes its four bytes. -/
theorem sameOn_storeWord (m : PhysMem) (i : Nat) (val : UInt32) :
    SameOn (Beside i (i + 4)) m { m with ram := storeWord m.ram i val } :=
  ⟨rfl, fun _ hx => storeWord_of_ne val hx⟩

/-- The heap has the same region. -/
structure SameRegion (vm vm' : HeapVm) : Prop where
  baseVa : vm'.heap.baseVa = vm.heap.baseVa
  basePhys : vm'.heap.basePhys = vm.heap.basePhys
  size : vm'.heap.size = vm.heap.size
  paging : vm'.paging = vm.paging

theorem SameRegion.refl (vm : HeapVm) : SameRegion vm vm := ⟨rfl, rfl, rfl, rfl⟩

theorem SameRegion.trans {vm'' : HeapVm} (h : SameRegion vm vm') (h' : SameRegion vm' vm'') :
    SameRegion vm vm'' where
  baseVa := h'.baseVa.trans h.baseVa
  basePhys := h'.basePhys.trans h.basePhys
  size := h'.size.trans h.size
  paging := h'.paging.trans h.paging

theorem SameRegion.holds (h : SameRegion vm vm') : vm'.heap.Holds va n ↔ vm.heap.Holds va n := by
  unfold HeapState.Holds
  rw [h.baseVa, h.size]

theorem SameRegion.physOf (h : SameRegion vm vm') (va : UInt32) :
    vm'.heap.physOf va = vm.heap.physOf va := by
  unfold HeapState.physOf
  rw [h.baseVa, h.basePhys]

theorem SameRegion.outside (h : SameRegion vm vm') : vm'.heap.outside = vm.heap.outside := by
  unfold HeapState.outside
  rw [h.basePhys, h.size]

/-- Writes to the region leave it mapped. -/
theorem RegionMapped.of_same (hm : RegionMapped vm) (hr : SameRegion vm vm')
    (hs : SameOn vm.heap.outside vm.mem vm'.mem) : RegionMapped vm' where
  nonzero := hr.basePhys ▸ hm.nonzero
  space := by
    rw [hr.baseVa, hr.size]
    exact hm.space
  fits := by
    rw [hr.basePhys, hr.size]
    exact hm.fits
  ram := by
    rw [hr.basePhys, hr.size, hs.size]
    exact hm.ram
  walks := by
    intro mem hmem va hva
    rw [hr.outside] at hmem
    rw [hr.paging, hr.physOf]
    exact hm.walks mem (hs.trans hmem) va (hr.holds.mp hva)

/-- An address further on in the region. -/
theorem RegionMapped.further (hm : RegionMapped vm) {k : UInt32}
    (hva : vm.heap.Holds va (k.toNat + n)) :
    vm.heap.Holds (va + k) n ∧ vm.heap.physOf (va + k) = vm.heap.physOf va + k.toNat := by
  obtain ⟨hlo, hhi⟩ := hva
  have hspace := hm.space
  have hsum : (va + k).toNat = va.toNat + k.toNat := by
    rw [UInt32.toNat_add]
    omega
  unfold HeapState.Holds HeapState.physOf
  rw [hsum]
  omega

/-- What a write of a word of the region does. -/
structure WritesWord (vm vm' : HeapVm) (va val : UInt32) : Prop where
  region : SameRegion vm vm'
  same : SameOn (Beside (vm.heap.physOf va) (vm.heap.physOf va + 4)) vm.mem vm'.mem
  word : loadWord vm'.mem.ram (vm.heap.physOf va) = val
  mapped : RegionMapped vm'

/-- The bytes of a part of the region are not outside of it. -/
theorem outside_subset {heap : HeapState} (hva : heap.Holds va n) :
    heap.outside ⊆ Beside (heap.physOf va) (heap.physOf va + n) := by
  obtain ⟨hlo, hhi⟩ := hva
  apply beside_mono
  · exact Nat.le_add_right _ _
  · unfold HeapState.physOf
    omega

/-- A write of a word of the region. -/
theorem RegionMapped.write (hm : RegionMapped vm) (hva : vm.heap.Holds va 4) (val : UInt32) :
    WritesWord vm (vm.writeVirtL va val) va val := by
  have hregion : SameRegion vm (vm.writeVirtL va val) := by
    rw [hm.writeVirtL hva val]
    exact ⟨rfl, rfl, rfl, rfl⟩
  have hsame : SameOn (Beside (vm.heap.physOf va) (vm.heap.physOf va + 4)) vm.mem
      (vm.writeVirtL va val).mem := by
    rw [hm.writeVirtL hva val]
    exact sameOn_storeWord vm.mem _ val
  refine ⟨hregion, hsame, ?_, hm.of_same hregion (hsame.mono (outside_subset hva))⟩
  rw [hm.writeVirtL hva val]
  exact loadWord_storeWord vm.mem.ram _ val

end Region

section Loops

/-- A loop that writes one byte after the other changes these. -/
theorem sameOn_forBytes {n dst : UInt32} (hfits : dst.toNat + n.toNat ≤ 2 ^ 32)
    (val : PhysMem → UInt32 → UInt8) (m : PhysMem) :
    SameOn (Beside dst.toNat (dst.toNat + n.toNat)) m
      (forBytes n (fun mem i => memWritebPhys mem (dst + i) (val mem i)) m) := by
  apply SameOn.foldl
  intro m i hi
  have hlt : i < n.toNat := List.mem_range.mp hi
  apply (sameOn_writeb m (dst + UInt32.ofNat i) _).mono
  intro x hx
  have hout : x < dst.toNat ∨ dst.toNat + n.toNat ≤ x := hx
  show x < (dst + UInt32.ofNat i).toNat ∨ (dst + UInt32.ofNat i).toNat + 1 ≤ x
  rw [toNat_add_ofNat hlt hfits]
  omega

/-- The byte that a loop has copied is the one it was copied from. -/
theorem forBytes_copy {k src dst : UInt32} (hsrc : src.toNat + k.toNat ≤ m.ramSize)
    (hdst : dst.toNat + k.toNat ≤ m.ramSize) (hsrc32 : src.toNat + k.toNat ≤ 2 ^ 32)
    (hdst32 : dst.toNat + k.toNat ≤ 2 ^ 32)
    (hapart : src.toNat + k.toNat ≤ dst.toNat ∨ dst.toNat + k.toNat ≤ src.toNat) :
    ∀ i < k.toNat, (forBytes k (fun mem i =>
      memWritebPhys mem (dst + i) (memReadbPhys mem (src + i))) m).ram (dst.toNat + i) =
        m.ram (src.toNat + i) := by
  unfold forBytes
  generalize k.toNat = n at hsrc hdst hsrc32 hdst32 hapart ⊢
  -- the rounds so far have copied the bytes they met and left the source alone
  have hloop : ∀ r ≤ n, ((List.range r).foldl (fun mem i => memWritebPhys mem
        (dst + UInt32.ofNat i) (memReadbPhys mem (src + UInt32.ofNat i))) m).ramSize = m.ramSize ∧
      ∀ x, ((List.range r).foldl (fun mem i => memWritebPhys mem (dst + UInt32.ofNat i)
          (memReadbPhys mem (src + UInt32.ofNat i))) m).ram x =
        if dst.toNat ≤ x ∧ x < dst.toNat + r then m.ram (src.toNat + (x - dst.toNat))
        else m.ram x := by
    intro r
    induction r with
    | zero =>
      intro _
      refine ⟨rfl, ?_⟩
      intro x
      rw [if_neg (by omega), List.range_zero, List.foldl_nil]
    | succ r ih =>
      intro hr
      obtain ⟨hsize, hram⟩ := ih (by omega)
      rw [List.range_succ, List.foldl_append, List.foldl_cons, List.foldl_nil]
      generalize (List.range r).foldl _ m = mem at hsize hram ⊢
      have hs : (src + UInt32.ofNat r).toNat = src.toNat + r := toNat_add_ofNat (by omega) hsrc32
      have hd : (dst + UInt32.ofNat r).toNat = dst.toNat + r := toNat_add_ofNat (by omega) hdst32
      have hread : memReadbPhys mem (src + UInt32.ofNat r) = m.ram (src.toNat + r) := by
        unfold memReadbPhys
        rw [hs, hsize, if_pos (by omega), hram, if_neg (by omega)]
      refine ⟨(memWritebPhys_ramSize _ _ _).trans hsize, ?_⟩
      intro x
      unfold memWritebPhys
      rw [hd, hsize, if_pos (by omega), hread]
      dsimp only
      by_cases hx : x = dst.toNat + r
      · subst hx
        rw [Function.update_self, if_pos (by omega), Nat.add_sub_cancel_left]
      · rw [Function.update_of_ne hx, hram]
        by_cases hin : dst.toNat ≤ x ∧ x < dst.toNat + r
        · rw [if_pos hin, if_pos (by omega)]
        · rw [if_neg hin, if_neg (by omega)]
  intro i hi
  rw [(hloop n (Nat.le_refl n)).2, if_pos (by omega), Nat.add_sub_cancel_left]

/-- A loop without a round. -/
theorem forBytes_zero (body : PhysMem → UInt32 → PhysMem) (m : PhysMem) :
    forBytes 0 body m = m := rfl

end Loops

section Init

@[simp] theorem heapInit_basePhys (basePhys : UInt32) : (heapInit basePhys).basePhys = basePhys :=
  rfl

/-- The pages of the region. -/
theorem heapPages_eq (basePhys : UInt32) :
    ((List.range ((heapRegionSize + pageSize - 1) / pageSize).toNat).map fun i =>
        (heapRegionVa + UInt32.ofNat i * pageSize, basePhys + UInt32.ofNat i * pageSize)) =
      pagesOfRange heapRegionVa basePhys heapRegionSize := by
  have hend : heapRegionVa.toNat + pagesFor heapRegionSize < 2 ^ 32 := by decide
  have hcount : ((heapRegionSize + pageSize - 1) / pageSize).toNat =
      pagesFor heapRegionSize / 4096 := by decide
  rw [pagesOfRange_eq_rangeOf, if_pos hend, rangeOf, hcount]
  apply List.map_congr_left
  intro i _
  rw [UInt32.mul_comm]

theorem mapHeap_eq (vm : PagedVm) (basePhys : UInt32) :
    mapHeap vm basePhys heapRegionSize = pagingMapRange vm heapRegionVa basePhys heapRegionSize
      (ptePresent ||| pteWritable ||| pteUser) := by
  unfold pagingMapRange mapHeap
  rw [← heapPages_eq, List.foldl_map]

/-- What the loops leave in memory and in the page tables. -/
theorem heapOn_loops (vm : PagedVm) (basePhys size : UInt32)
    (hfits : basePhys.toNat + size.toNat ≤ 2 ^ 32) :
    (heapOn vm basePhys size).heap = heapInit basePhys ∧
      (heapOn vm basePhys size).paging = (mapHeap vm basePhys size).paging.toPagingContext ∧
      SameOn (Beside basePhys.toNat (basePhys.toNat + size.toNat)) (mapHeap vm basePhys size).mem
        (heapOn vm basePhys size).mem :=
  ⟨rfl, rfl, sameOn_forBytes hfits (fun _ _ => 0) (mapHeap vm basePhys size).mem⟩

/-- A byte of the region is where its page has been mapped to. -/
theorem heapPage_phys {vm vm' : PagedVm} {basePhys flags va : UInt32}
    (h : RangeFrames vm vm' heapRegionVa basePhys heapRegionSize flags)
    (hpage : basePhys.toNat % 4096 = 0) (hend : basePhys.toNat + heapRegionSize.toNat ≤ 2 ^ 32)
    (hlo : heapRegionVa.toNat ≤ va.toNat)
    (hhi : va.toNat + 1 ≤ heapRegionVa.toNat + heapRegionSize.toNat) :
    (vm'.translate va).toNat = basePhys.toNat + (va.toNat - heapRegionVa.toNat) := by
  have hva := va.toNat_lt
  have hoff : (va - heapRegionVa).toNat = va.toNat - heapRegionVa.toNat :=
    UInt32.toNat_sub_of_le _ _ (UInt32.le_iff_toNat_le.mpr hlo)
  have hi : va - heapRegionVa < heapRegionSize := by
    rw [UInt32.lt_iff_toNat_lt, hoff]
    omega
  have hsum : heapRegionVa + (va - heapRegionVa) = va := by
    rw [UInt32.add_comm, UInt32.sub_add_cancel]
  have hwalk := h.translate hpage (by decide) (by decide) hi
  rw [hsum] at hwalk
  rw [hwalk, UInt32.toNat_add, hoff]
  omega

theorem translate_withMem (vm : PagedVm) (mem : PhysMem) (va : UInt32) :
    PagedVm.translate { vm with mem := mem } va =
      pagingGetPhys mem vm.paging.toPagingContext va := rfl

/-- The region is mapped to what was allocated for it, and `heap_init` changes no other page; so it
stays as long as the page tables do. -/
structure HeapMapped (vm : PagedVm) (hv : HeapVm) : Prop where
  heap : hv.heap = heapInit vm.paging.physAllocPtr
  region : ∀ mem, SameOn {x | x < vm.paging.physAllocBase.toNat} hv.mem mem →
    RegionMapped { hv with mem := mem }
  walks : ∀ mem, SameOn {x | x < vm.paging.physAllocBase.toNat} hv.mem mem → ∀ va,
    (∀ page ∈ pagesOfRange heapRegionVa vm.paging.physAllocPtr heapRegionSize,
      va &&& pageMask ≠ page.1 &&& pageMask) →
    pagingGetPhys mem hv.paging va = vm.translate va

/-- With memory and page tables for the region `heap_init` maps it. -/
theorem heapInitVm_mapped {vm : PagedVm} {hv : HeapVm} (ht : PageTables vm)
    (hfit : RegionFits vm heapRegionVa heapRegionSize) (h : heapInitVm vm = some hv) :
    HeapMapped vm hv := by
  have halloc : (pagingAllocPhys vm heapRegionSize).2 ≠ 0 := by
    intro hzero
    rw [heapInitVm, if_pos hzero] at h
    cases h
  rw [heapInitVm, if_neg halloc] at h
  have hv' := Option.some.inj h
  obtain ⟨hpt, htables, hframes⟩ := ht.allocRegion hfit halloc rfl (.refl _ _)
  obtain ⟨hle, -⟩ := hfit.of_alloc halloc
  obtain ⟨-, hptr, hpaging, hsum, -, htranslate⟩ := ht.allocPhys hle
  have hpages : pagesFor heapRegionSize = heapRegionSize.toNat := by decide
  have hlow := ht.low
  have hfirst := ht.first
  have hlast := ht.last
  have hram := hpt.ram
  have hmemory := ht.memory
  have hmaps := hpt.mapPages htables (ptePresent ||| pteWritable ||| pteUser) hframes
  have hrange := hpt.mapRange_frames (by decide) htables (fun page hp => (hframes page hp).1)
    (ptePresent ||| pteWritable ||| pteUser)
  have hend : vm.paging.physAllocPtr.toNat + heapRegionSize.toNat ≤ 2 ^ 32 := by
    rw [← hpages]
    omega
  have hmap := mapHeap_eq (pagingAllocPhys vm heapRegionSize).1 vm.paging.physAllocPtr
  obtain ⟨hheap, hctx, hclear⟩ :=
    heapOn_loops (pagingAllocPhys vm heapRegionSize).1 vm.paging.physAllocPtr heapRegionSize hend
  rw [hpaging] at hram
  rw [hptr] at hv'
  change MapsPages _ (pagingMapRange _ _ _ _ _) _ at hmaps
  rw [← hmap] at hmaps hrange
  rw [hv'] at hheap hctx hclear
  generalize mapHeap (pagingAllocPhys vm heapRegionSize).1 vm.paging.physAllocPtr heapRegionSize =
    vm₂ at hmaps hrange hctx hclear
  have hbase : vm₂.paging.physAllocBase = vm.paging.physAllocBase := by
    rw [hmaps.base, hpaging]
  -- the page tables are below the region
  have hwalks : ∀ mem, SameOn {x | x < vm.paging.physAllocBase.toNat} hv.mem mem →
      ∀ va, pagingGetPhys mem hv.paging va = vm₂.translate va := by
    intro mem hmem va
    have hsame : SameOn {x | x < vm₂.paging.physAllocBase.toNat} vm₂.mem mem := by
      rw [hbase]
      exact (hclear.mono (below_beside hlow)).trans hmem
    rw [hctx, ← translate_withMem]
    exact (hmaps.tables.sameOn hsame).2 va
  have hregion : heapRegionVa.toNat + heapRegionSize.toNat < 2 ^ 32 := by decide
  have htop := hmaps.tables.ram
  rw [hmaps.memory, hpaging, ← hclear.size] at htop
  rw [hpages] at hle
  refine ⟨hheap, ?_, ?_⟩
  · intro mem hsame
    rw [← hsame.size] at htop
    constructor
    case nonzero =>
      rw [hheap]
      intro hzero
      have hzero' : vm.paging.physAllocPtr.toNat = 0 := congrArg UInt32.toNat hzero
      omega
    case space =>
      rw [hheap]
      exact hregion
    case fits =>
      rw [hheap]
      exact Nat.lt_of_le_of_lt (Nat.le_trans hle hmemory) (by decide)
    case ram =>
      rw [hheap]
      exact Nat.le_trans hle htop
    case walks =>
      rw [hheap]
      intro mem' hmem va hva
      obtain ⟨hlo, hhi⟩ := hva
      rw [hwalks mem' (hsame.trans (hmem.mono (below_beside hlow))) va]
      exact heapPage_phys hrange ht.ptrPage hend hlo hhi
  · intro mem hmem va hva
    rw [hwalks mem hmem va, hmaps.translate va hva, htranslate va]

/-- `heap_init` succeeds if memory suffices. -/
theorem heapInitVm_some {vm : PagedVm} (ht : PageTables vm)
    (hle : vm.paging.physAllocPtr.toNat + pagesFor heapRegionSize ≤ vm.paging.physMemSize.toNat) :
    ∃ hv, heapInitVm vm = some hv := by
  obtain ⟨-, hptr, -⟩ := ht.allocPhys hle
  have hlow := ht.low
  have hfirst := ht.first
  have hlast := ht.last
  refine ⟨_, if_neg ?_⟩
  rw [hptr]
  intro hzero
  rw [hzero, UInt32.toNat_zero] at hlow
  omega

/-- The region needs at most four page tables. -/
theorem heapTables_fit {vm : PagedVm} (phys : UInt32)
    (h : vm.paging.nextPtPhys.toNat + 4 * 4096 ≤ vm.paging.physAllocBase.toNat) :
    TablesFit vm (pagesOfRange heapRegionVa phys heapRegionSize) := by
  have hend : heapRegionVa.toNat + pagesFor heapRegionSize < 2 ^ 32 := by decide
  have hcount : pagesFor heapRegionSize / 4096 = 4096 := by decide
  have hva : heapRegionVa.toNat = 64 * 2 ^ 22 := by decide
  have hsub : missingTables vm (pagesOfRange heapRegionVa phys heapRegionSize) ⊆
      {64, 65, 66, 67} := by
    intro i hi
    obtain ⟨hmem, -⟩ := Finset.mem_filter.mp hi
    obtain ⟨page, hpage, rfl⟩ := List.mem_map.mp (List.mem_toFinset.mp hmem)
    rw [pagesOfRange_eq_rangeOf, if_pos hend] at hpage
    obtain ⟨k, hk, rfl⟩ := List.mem_map.mp hpage
    rw [List.mem_range, hcount] at hk
    have hindex : (vaPdeIndex ((heapRegionVa + pageSize * UInt32.ofNat k) &&& pageMask)).toNat =
        64 + k / 1024 := by
      rw [vaPdeIndex_toNat, pageMask_toNat, rangePage_toNat heapRegionVa (by omega), hva]
      omega
    have hcases : k / 1024 = 0 ∨ k / 1024 = 1 ∨ k / 1024 = 2 ∨ k / 1024 = 3 := by omega
    simp only [Finset.mem_insert, Finset.mem_singleton, ← UInt32.toNat_inj, hindex,
      UInt32.reduceToNat]
    omega
  have hcard := Finset.card_le_card hsub
  have hfour : ({64, 65, 66, 67} : Finset UInt32).card ≤ 4 := Finset.card_le_four
  unfold TablesFit
  omega

/-- Addresses below the region are not on its pages. -/
theorem heapPage_ne {va phys : UInt32} (hva : va.toNat < heapRegionVa.toNat) :
    ∀ page ∈ pagesOfRange heapRegionVa phys heapRegionSize,
      va &&& pageMask ≠ page.1 &&& pageMask := by
  have hend : heapRegionVa.toNat + pagesFor heapRegionSize < 2 ^ 32 := by decide
  have hcount : pagesFor heapRegionSize / 4096 = 4096 := by decide
  have hregion : heapRegionVa.toNat = 64 * 2 ^ 22 := by decide
  intro page hpage heq
  rw [pagesOfRange_eq_rangeOf, if_pos hend] at hpage
  obtain ⟨k, hk, rfl⟩ := List.mem_map.mp hpage
  rw [List.mem_range, hcount] at hk
  have hnum := congrArg UInt32.toNat heq
  rw [pageMask_toNat, pageMask_toNat, rangePage_toNat heapRegionVa (by omega)] at hnum
  omega

end Init

end Wbox.Nt
