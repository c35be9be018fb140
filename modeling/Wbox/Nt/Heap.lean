import Wbox.Lib.Word
import Wbox.Vm.Memory

/-!
# The process heap

The bump allocator of `src/nt/heap.c` behind RtlAllocateHeap, RtlFreeHeap and
RtlReAllocateHeap. All sizes and offsets are `uint32_t`.
-/

namespace Wbox.Nt

open Wbox.Lib Wbox.Vm

/-- `HEAP_REGION_VA`. -/
def heapRegionVa : UInt32 := 0x10000000

/-- `HEAP_REGION_SIZE`. -/
def heapRegionSize : UInt32 := 16 * 1024 * 1024

/-- `HEAP_ALLOC_MAGIC`. -/
def heapAllocMagic : UInt32 := 0xABCD1234

/-- `HEAP_FREE_MAGIC`. -/
def heapFreeMagic : UInt32 := 0xDEAD5678

/-- `sizeof(heap_alloc_header_t)`. -/
def heapHeaderSize : UInt32 := 12

/-- `heap_state_t`, `src/nt/heap.h:35–46`. -/
structure HeapState where
  baseVa : UInt32
  basePhys : UInt32
  size : UInt32
  allocPtr : UInt32
  totalAllocated : UInt32
  totalFreed : UInt32
  numAllocations : UInt32
  deriving DecidableEq, Repr

/-- The heap and the memory it is in. -/
structure HeapVm where
  heap : HeapState
  mem : PhysMem
  paging : PagingContext

/-- `heap_init`, `heap.c:49–83`: the state, once physical memory has been found and mapped. -/
def heapInit (basePhys : UInt32) : HeapState where
  baseVa := heapRegionVa
  basePhys := basePhys
  size := heapRegionSize
  allocPtr := 0
  totalAllocated := 0
  totalFreed := 0
  numAllocations := 0

/-- `write_virt_l`, `heap.c:31–37`. -/
def HeapVm.writeVirtL (vm : HeapVm) (virt val : UInt32) : HeapVm :=
  let phys := pagingGetPhys vm.mem vm.paging virt
  if phys ≠ 0 then { vm with mem := memWritelPhys vm.mem phys val } else vm

/-- `read_virt_l`, `heap.c:40–47`. -/
def HeapVm.readVirtL (vm : HeapVm) (virt : UInt32) : UInt32 :=
  let phys := pagingGetPhys vm.mem vm.paging virt
  if phys ≠ 0 then memReadlPhys vm.mem phys else 0

/-- `for (i = 0; i < n; i++)` over the bytes of memory. -/
def forBytes (n : UInt32) (body : PhysMem → UInt32 → PhysMem) (mem : PhysMem) : PhysMem :=
  (List.range n.toNat).foldl (fun mem i => body mem (UInt32.ofNat i)) mem

/-- `(size + 7) & ~7`. -/
def align8 (size : UInt32) : UInt32 := (size + 7) &&& 0xFFFFFFF8

/-- The header of a block, `heap.c:104–106`. -/
def HeapVm.writeHeader (vm : HeapVm) (headerVa size flags : UInt32) : HeapVm :=
  ((vm.writeVirtL headerVa heapAllocMagic).writeVirtL (headerVa + 4) size).writeVirtL
    (headerVa + 8) flags

/-- Zero a block if HEAP_ZERO_MEMORY is set, `heap.c:108–114`. -/
def HeapVm.zeroBlock (vm : HeapVm) (dataVa size flags : UInt32) : HeapVm :=
  if flags &&& 0x08 ≠ 0 then
    let phys := pagingGetPhys vm.mem vm.paging dataVa
    { vm with mem := forBytes size (fun mem i => memWritebPhys mem (phys + i) 0) vm.mem }
  else vm

/-- Advance the allocator and its statistics, `heap.c:116–118`. -/
def HeapState.advance (heap : HeapState) (size totalSize : UInt32) : HeapState :=
  { heap with
    allocPtr := heap.allocPtr + totalSize
    totalAllocated := heap.totalAllocated + size
    numAllocations := heap.numAllocations + 1 }

/-- `heap_alloc`, `heap.c:85–121`. -/
def heapAlloc (vm : HeapVm) (flags size : UInt32) : HeapVm × UInt32 :=
  let size := align8 size
  let totalSize := size + heapHeaderSize
  if vm.heap.allocPtr + totalSize > vm.heap.size then (vm, 0)
  else
    let headerVa := vm.heap.baseVa + vm.heap.allocPtr
    let dataVa := headerVa + heapHeaderSize
    let vm := (vm.writeHeader headerVa size flags).zeroBlock dataVa size flags
    ({ vm with heap := vm.heap.advance size totalSize }, dataVa)

/-- `heap_free`, `heap.c:123–162`. -/
def heapFree (vm : HeapVm) (ptr : UInt32) : HeapVm × Bool :=
  if ptr = 0 then (vm, true)
  else if ptr < vm.heap.baseVa + heapHeaderSize ∨ ptr ≥ vm.heap.baseVa + vm.heap.size then
    (vm, false)
  else
    let headerVa := ptr - heapHeaderSize
    let size := vm.readVirtL (headerVa + 4)
    if vm.readVirtL headerVa ≠ heapAllocMagic then (vm, false)
    else
      let vm := vm.writeVirtL headerVa heapFreeMagic
      ({ vm with heap := { vm.heap with totalFreed := vm.heap.totalFreed + size } }, true)

/-- Copy the old block to the new one, `heap.c:195–201`. -/
def HeapVm.copyBlock (vm : HeapVm) (src dst copySize : UInt32) : HeapVm :=
  let srcPhys := pagingGetPhys vm.mem vm.paging src
  let dstPhys := pagingGetPhys vm.mem vm.paging dst
  let body (mem : PhysMem) (i : UInt32) : PhysMem :=
    memWritebPhys mem (dstPhys + i) (memReadbPhys mem (srcPhys + i))
  { vm with mem := forBytes copySize body vm.mem }

/-- `heap_realloc`, `heap.c:164–207`. -/
def heapRealloc (vm : HeapVm) (flags ptr size : UInt32) : HeapVm × UInt32 :=
  if ptr = 0 then heapAlloc vm flags size
  else if size = 0 then ((heapFree vm ptr).1, 0)
  else
    let headerVa := ptr - heapHeaderSize
    let oldSize := vm.readVirtL (headerVa + 4)
    if vm.readVirtL headerVa ≠ heapAllocMagic then (vm, 0)
    else
      let (vm, newPtr) := heapAlloc vm flags size
      if newPtr = 0 then (vm, 0)
      else
        let vm := vm.copyBlock ptr newPtr (if size < oldSize then size else oldSize)
        ((heapFree vm ptr).1, newPtr)

/-- `heap_size`, `heap.c:209–232`; -1 is a pointer that is no block. -/
def heapSize (vm : HeapVm) (ptr : UInt32) : UInt32 :=
  if ptr = 0 then 0
  else if ptr < vm.heap.baseVa + heapHeaderSize ∨ ptr ≥ vm.heap.baseVa + vm.heap.size then
    0xFFFFFFFF
  else
    let headerVa := ptr - heapHeaderSize
    let size := vm.readVirtL (headerVa + 4)
    if vm.readVirtL headerVa ≠ heapAllocMagic then 0xFFFFFFFF else size

@[simp] theorem HeapVm.writeVirtL_heap (vm : HeapVm) (virt val : UInt32) :
    (vm.writeVirtL virt val).heap = vm.heap := by
  unfold HeapVm.writeVirtL
  dsimp only
  split
  · rfl
  · rfl

@[simp] theorem HeapVm.writeHeader_heap (vm : HeapVm) (headerVa size flags : UInt32) :
    (vm.writeHeader headerVa size flags).heap = vm.heap := by
  simp [HeapVm.writeHeader]

@[simp] theorem HeapVm.zeroBlock_heap (vm : HeapVm) (dataVa size flags : UInt32) :
    (vm.zeroBlock dataVa size flags).heap = vm.heap := by
  unfold HeapVm.zeroBlock
  split
  · rfl
  · rfl

/-- `heap_free` leaves the allocator where it is. -/
theorem heapFree_heap (vm : HeapVm) (ptr : UInt32) :
    ∃ freed, (heapFree vm ptr).1.heap = { vm.heap with totalFreed := freed } := by
  unfold heapFree
  split
  · exact ⟨vm.heap.totalFreed, rfl⟩
  · split
    · exact ⟨vm.heap.totalFreed, rfl⟩
    · dsimp only
      split
      · exact ⟨vm.heap.totalFreed, rfl⟩
      · refine ⟨vm.heap.totalFreed + vm.readVirtL (ptr - heapHeaderSize + 4), ?_⟩
        rw [HeapVm.writeVirtL_heap]

/-- Rounding up to a multiple of 8, with the wrap-around of the addition. -/
theorem align8_toNat (n : UInt32) : (align8 n).toNat = (n.toNat + 7) % 2 ^ 32 / 8 * 8 := by
  have hmask : (0xFFFFFFF8 : UInt32).toNat = (2 ^ (32 - 3) - 1) * 2 ^ 3 := by decide
  rw [align8, UInt32.toNat_and, UInt32.toNat_add, hmask]
  exact and_highMask (Nat.mod_lt _ (by omega))

end Wbox.Nt
