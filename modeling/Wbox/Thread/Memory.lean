import Wbox.Thread.Machine
import Wbox.Vm.Frames

/-!
# Stacks and TEBs of threads

The memory side of `thread_create` (`src/thread/thread.c:82–205`, `398–487`): TEBs and stacks are
taken downwards from two static addresses. The stacks start at the top of the main thread's
stack, which `vm_load_pe_with_dlls` (`src/vm/vm.c:943–962`) maps as a whole.
-/

namespace Wbox.Thread

open Wbox.Cpu Wbox.Nt Wbox.Lib Wbox.Vm

/-- `MAIN_THREAD_TEB_ADDR`. -/
def mainThreadTebAddr : UInt32 := 0x7FFDF000
/-- `TEB_ALLOCATION_STEP`. -/
def tebAllocationStep : UInt32 := 0x3000
/-- `STACK_REGION_BASE`. -/
def stackRegionBase : UInt32 := 0x04000000
/-- `STACK_REGION_END`. -/
def stackRegionEnd : UInt32 := 0x08000000
/-- `VM_STACK_TOP`. -/
def vmStackTop : UInt32 := 0x08000000
/-- `VM_STACK_BASE`. -/
def vmStackBase : UInt32 := vmStackTop - 64 * 1024 * 1024
/-- `VM_PEB_ADDR`. -/
def vmPebAddr : UInt32 := 0x7FFDE000
/-- `THREAD_DEFAULT_STACK_SIZE`. -/
def threadDefaultStackSize : UInt32 := 64 * 1024
/-- `WBOX_PROCESS_ID`. -/
def wboxProcessId : UInt32 := 0x1000

/-- The virtual machine, the scheduler and the static counters of `thread.c`. -/
structure ThreadVm where
  vm : PagedVm
  sched : WboxScheduler
  nextStackAddr : UInt32
  nextTebAddr : UInt32

/-- `thread_allocate_teb`, `thread.c:398–437`; 0 is a failure. -/
def threadAllocateTeb (v : ThreadVm) : ThreadVm × UInt32 :=
  let tebAddr := v.nextTebAddr
  let v := { v with nextTebAddr := tebAddr - tebAllocationStep }
  if tebAddr < 0x7FF00000 then (v, 0)
  else
    let alloc := pagingAllocPhys v.vm pageSize
    if alloc.2 = 0 then ({ v with vm := alloc.1 }, 0)
    else
      let vm := pagingMapPage alloc.1 tebAddr alloc.2 (pteUser ||| pteWritable)
      ({ v with vm := { vm with mem := clearTable vm.mem alloc.2 } }, tebAddr)

/-- Map a fresh page at each address, `thread.c:467–479`; stops when memory runs out. -/
def mapStack : List UInt32 → PagedVm → PagedVm × Bool
  | [], vm => (vm, true)
  | addr :: rest, vm =>
      let alloc := pagingAllocPhys vm pageSize
      if alloc.2 = 0 then (alloc.1, false)
      else mapStack rest (pagingMapPage alloc.1 addr alloc.2 (pteUser ||| pteWritable))

/-- The pages of a stack, `for (addr = stack_base; addr < stack_top; addr += 0x1000)`. -/
def stackPages (stackBase stackTop : UInt32) : List UInt32 :=
  (rangePages stackTop (2 ^ 20) stackBase 0).map Prod.fst

/-- `thread_allocate_stack`, `thread.c:439–487`: the values for `stack_base` and `stack_limit`. -/
def threadAllocateStack (v : ThreadVm) (size : UInt32) : ThreadVm × Option (UInt32 × UInt32) :=
  let size := pageRound size
  let totalSize := size + 0x1000
  if v.nextStackAddr - totalSize < stackRegionBase then (v, none)
  else
    let stackTop := v.nextStackAddr
    let stackBase := stackTop - size
    let guardPage := stackBase - 0x1000
    let (vm, mapped) := mapStack (stackPages stackBase stackTop) v.vm
    ({ v with vm := vm, nextStackAddr := guardPage },
      if mapped then some (stackTop, stackBase) else none)

/-- Write a word if the address is mapped. -/
def writePhysIf (mem : PhysMem) (phys offset val : UInt32) : PhysMem :=
  if phys = 0 then mem else memWritelPhys mem (phys + offset) val

/-- The fields of a TEB, `thread.c:118–127`. -/
def writeTeb (vm : PagedVm) (tebAddr stackBase stackLimit threadId : UInt32) : PagedVm :=
  let phys := pagingGetPhys vm.mem vm.paging.toPagingContext tebAddr
  let mem := writePhysIf vm.mem phys 0x18 tebAddr
  let mem := writePhysIf mem phys 0x04 stackBase
  let mem := writePhysIf mem phys 0x08 stackLimit
  let mem := writePhysIf mem phys 0x20 wboxProcessId
  let mem := writePhysIf mem phys 0x24 threadId
  { vm with mem := writePhysIf mem phys 0x30 vmPebAddr }

/-- The parameter and the return address on the new stack, `thread.c:138–152`. -/
def writeStartFrame (vm : PagedVm) (stackBase parameter : UInt32) : PagedVm :=
  let esp := stackBase - 8
  let phys := pagingGetPhys vm.mem vm.paging.toPagingContext (esp + 4)
  let mem := writePhysIf vm.mem phys 0 parameter
  let phys := pagingGetPhys mem vm.paging.toPagingContext esp
  { vm with mem := writePhysIf mem phys 0 0 }

/-- Where a thread's memory is. -/
structure ThreadMemory where
  stackBase : UInt32
  stackLimit : UInt32
  guardPage : Option UInt32
  tebAddr : UInt32
  deriving DecidableEq, Repr

/-- `thread_create`, `thread.c:82–205`, the structure and the memory of the thread. `allocOk`
says whether `calloc` succeeds. -/
def threadCreateVm (v : ThreadVm) (allocOk : Bool) (startAddress parameter stackSize : UInt32)
    (suspended : Bool) : ThreadVm × Option (Ptr × ThreadMemory) :=
  let stackSize := if stackSize = 0 then threadDefaultStackSize else stackSize
  if allocOk = false then (v, none)
  else
    let threadId := v.sched.nextThreadId
    let failed (v : ThreadVm) : ThreadVm :=
      { v with sched := { v.sched with nextThreadId := threadId + 4 } }
    let (v, tebAddr) := threadAllocateTeb v
    if tebAddr = 0 then (failed v, none)
    else
      match threadAllocateStack v stackSize with
      | (v, none) => (failed v, none)
      | (v, some (stackBase, stackLimit)) =>
          let vm := writeTeb v.vm tebAddr stackBase stackLimit threadId
          let vm := writeStartFrame vm stackBase parameter
          let (sched, thread) := threadCreate v.sched startAddress stackBase tebAddr suspended
          ({ v with vm := vm, sched := sched },
            some (thread,
              { stackBase := stackBase, stackLimit := stackLimit
                guardPage := some (stackLimit - 0x1000), tebAddr := tebAddr }))

/-- The memory of the main thread, `thread.c:47–53`; it has no guard page. -/
def mainThreadMemory : ThreadMemory where
  stackBase := vmStackTop
  stackLimit := vmStackBase
  guardPage := none
  tebAddr := mainThreadTebAddr

/-- The addresses from `first` up to `last` in the 32-bit address space; the ordinary interval
unless `first` is above `last`. -/
structure AddrRange where
  first : UInt32
  last : UInt32
  deriving DecidableEq, Repr

/-- The address is in the range. -/
def AddrRange.Has (range : AddrRange) (x : UInt32) : Prop :=
  x - range.first < range.last - range.first

instance (range : AddrRange) (x : UInt32) : Decidable (range.Has x) :=
  inferInstanceAs (Decidable (x - range.first < range.last - range.first))

/-- The stack of a thread. -/
def ThreadMemory.stack (m : ThreadMemory) : AddrRange := ⟨m.stackLimit, m.stackBase⟩

/-- The TEB page of a thread. -/
def ThreadMemory.teb (m : ThreadMemory) : AddrRange := ⟨m.tebAddr, m.tebAddr + 0x1000⟩

/-- The stack, the TEB page and the guard page of a thread. -/
def ThreadMemory.ranges (m : ThreadMemory) : List AddrRange :=
  m.stack :: m.teb :: (m.guardPage.map fun page => (⟨page, page + 0x1000⟩ : AddrRange)).toList

/-- The machine and the memory of its threads, the latest first. -/
structure ThreadRun where
  v : ThreadVm
  threads : List ThreadMemory

/-- The arguments of a call of `thread_create`. -/
structure CreateArgs where
  startAddress : UInt32
  parameter : UInt32
  stackSize : UInt32
  suspended : Bool

/-- A successful call of `thread_create`. -/
def createStep (r : ThreadRun) (a : CreateArgs) : Option ThreadRun :=
  match threadCreateVm r.v true a.startAddress a.parameter a.stackSize a.suspended with
  | (_, none) => none
  | (v, some (_, memory)) => some { v := v, threads := memory :: r.threads }

/-- The machine when the main thread has been created. -/
def threadStart (vm : PagedVm) (sched : WboxScheduler) : ThreadRun where
  v :=
    { vm := vm
      sched := sched
      nextStackAddr := stackRegionEnd
      nextTebAddr := mainThreadTebAddr - tebAllocationStep }
  threads := [mainThreadMemory]

/-- All ranges of all threads are disjoint. -/
def ThreadsApart (r : ThreadRun) : Prop :=
  (r.threads.flatMap ThreadMemory.ranges).Pairwise fun a b => ∀ x, ¬ (a.Has x ∧ b.Has x)

/-- Every address in a stack or TEB of the first state keeps its physical page. -/
def PagesKept (r r' : ThreadRun) : Prop :=
  ∀ m ∈ r.threads, ∀ x, m.stack.Has x ∨ m.teb.Has x →
    pagingGetPhys r'.v.vm.mem r'.v.vm.paging.toPagingContext x =
      pagingGetPhys r.v.vm.mem r.v.vm.paging.toPagingContext x

/-- Thread memory is private all along a run. -/
def MemoryPrivate (tr : List ThreadRun) : Prop :=
  (∀ r ∈ tr, ThreadsApart r) ∧ tr.IsChain PagesKept

variable {v : ThreadVm} {r r' : ThreadRun}

/-- Allocating a TEB does not touch the stacks' address. -/
theorem threadAllocateTeb_stack (v : ThreadVm) :
    (threadAllocateTeb v).1.nextStackAddr = v.nextStackAddr := by
  unfold threadAllocateTeb
  dsimp only
  split
  · rfl
  · split <;> rfl

/-- A stack that was allocated ends at the static address, and starts its rounded size before. -/
theorem threadAllocateStack_some {size base limit : UInt32}
    (h : (threadAllocateStack v size).2 = some (base, limit)) :
    base = v.nextStackAddr ∧ limit = v.nextStackAddr - pageRound size := by
  unfold threadAllocateStack at h
  dsimp only at h
  split at h
  · cases h
  · dsimp only at h
    split at h
    · have hpair := Prod.ext_iff.mp (Option.some.inj h)
      exact ⟨hpair.1.symm, hpair.2.symm⟩
    · cases h

/-- A created thread has the addresses below the static address, whatever its size. -/
theorem threadCreateVm_some {allocOk suspended : Bool} {start parameter stackSize : UInt32}
    {thread : Ptr} {m : ThreadMemory}
    (h : (threadCreateVm v allocOk start parameter stackSize suspended).2 = some (thread, m)) :
    ∃ size, m.stackBase = v.nextStackAddr ∧ m.stackLimit = v.nextStackAddr - size ∧
      m.guardPage = some (v.nextStackAddr - size - 0x1000) := by
  unfold threadCreateVm at h
  dsimp only at h
  split at h
  · cases h
  · split at h
    · cases h
    · split at h
      · cases h
      · next v' base limit hstack =>
        obtain ⟨hbase, hlimit⟩ := threadAllocateStack_some (congrArg Prod.snd hstack)
        rw [threadAllocateTeb_stack] at hbase hlimit
        have hm := (Prod.ext_iff.mp (Option.some.inj h)).2
        dsimp only at hm
        rw [← hm]
        exact ⟨_, hbase, hlimit, by rw [hlimit]⟩

/-- A step adds a thread whose stack ends at the static address. -/
theorem createStep_threads {a : CreateArgs} (h : createStep r a = some r') :
    ∃ m size, r'.threads = m :: r.threads ∧ m.stackBase = r.v.nextStackAddr ∧
      m.stackLimit = r.v.nextStackAddr - size ∧
      m.guardPage = some (r.v.nextStackAddr - size - 0x1000) := by
  unfold createStep at h
  split at h
  · cases h
  · next v thread m hcreate =>
    obtain ⟨size, hm⟩ := threadCreateVm_some (congrArg Prod.snd hcreate)
    rw [← Option.some.inj h]
    exact ⟨m, size, rfl, hm⟩

/-- A range that does not wrap is an interval. -/
theorem AddrRange.has_iff {range : AddrRange} (h : range.first ≤ range.last) (x : UInt32) :
    range.Has x ↔ range.first ≤ x ∧ x < range.last := by
  rw [UInt32.le_iff_toNat_le] at h
  rw [AddrRange.Has, UInt32.lt_iff_toNat_lt, UInt32.le_iff_toNat_le, UInt32.lt_iff_toNat_lt,
    UInt32.toNat_sub, UInt32.toNat_sub]
  have hx := x.toNat_lt
  have hlast := range.last.toNat_lt
  omega

/-- The stack or the guard page below the top of the main thread's stack lies in it. -/
theorem overlaps_main {m : ThreadMemory} {size : UInt32} (hbase : m.stackBase = stackRegionEnd)
    (hlimit : m.stackLimit = stackRegionEnd - size)
    (hguard : m.guardPage = some (stackRegionEnd - size - 0x1000)) :
    ∃ range ∈ m.ranges, ∃ x, range.Has x ∧ mainThreadMemory.stack.Has x := by
  by_cases hsize : size = 0
  · subst hsize
    refine ⟨⟨0x07FFF000, 0x08000000⟩, ?_, 0x07FFF000, by decide, by decide⟩
    have hpage : stackRegionEnd - 0 - 0x1000 = 0x07FFF000 := by decide
    have hend : (0x07FFF000 : UInt32) + 0x1000 = 0x08000000 := by decide
    simp only [ThreadMemory.ranges, hguard, Option.map_some, Option.toList_some, hpage, hend,
      List.mem_cons, true_or, or_true]
  · refine ⟨m.stack, List.mem_cons_self, 0x07FFFFFF, ?_, by decide⟩
    have hpos : size.toNat ≠ 0 := fun hzero => hsize (UInt32.toNat_inj.mp hzero)
    have hlt := size.toNat_lt
    rw [AddrRange.Has, UInt32.lt_iff_toNat_lt]
    simp only [ThreadMemory.stack, hbase, hlimit, stackRegionEnd, UInt32.toNat_sub,
      UInt32.reduceToNat]
    omega

/-- The first thread created shares addresses with the main thread. -/
theorem createStep_not_apart {a : CreateArgs} (hnext : r.v.nextStackAddr = stackRegionEnd)
    (hmain : mainThreadMemory ∈ r.threads) (h : createStep r a = some r') :
    ¬ ThreadsApart r' := by
  obtain ⟨m, size, hthreads, hbase, hlimit, hguard⟩ := createStep_threads h
  rw [hnext] at hbase hlimit hguard
  obtain ⟨range, hrange, x, hx⟩ := overlaps_main hbase hlimit hguard
  intro hapart
  unfold ThreadsApart at hapart
  rw [hthreads, List.flatMap_cons, List.pairwise_append] at hapart
  have hstack : mainThreadMemory.stack ∈ r.threads.flatMap ThreadMemory.ranges :=
    List.mem_flatMap.mpr ⟨_, hmain, List.mem_cons_self⟩
  exact hapart.2.2 range hrange _ hstack x hx

/-- The main thread's ranges are apart. -/
theorem threadStart_apart (vm : PagedVm) (sched : WboxScheduler) :
    ThreadsApart (threadStart vm sched) := by
  unfold ThreadsApart
  rw [threadStart]
  refine List.pairwise_cons.mpr ⟨?_, List.pairwise_singleton _ _⟩
  intro teb hteb x hx
  have htebEq : teb = mainThreadMemory.teb := by simpa [mainThreadMemory] using hteb
  subst htebEq
  have hstack := (AddrRange.has_iff (by decide) x).mp hx.1
  have hpage := (AddrRange.has_iff (by decide) x).mp hx.2
  have hle : mainThreadTebAddr ≤ vmStackTop :=
    UInt32.le_of_lt (UInt32.lt_of_le_of_lt hpage.1 hstack.2)
  exact absurd hle (by decide)

/-- In a run of successful calls, thread memory is private exactly if no thread is created. -/
theorem threadRun_private_iff {vm : PagedVm} {sched : WboxScheduler} {calls : List CreateArgs}
    {tr : List ThreadRun} (h : trace createStep (threadStart vm sched) calls = some tr) :
    MemoryPrivate tr ↔ calls = [] := by
  constructor
  · rintro ⟨hapart, -⟩
    cases calls with
    | nil => rfl
    | cons a calls =>
      obtain ⟨r, rest, hs, hrest, rfl⟩ := trace_cons h
      have hr : r ∈ rest := List.mem_of_getElem? (trace_head hrest)
      exact absurd (hapart r (List.mem_cons_of_mem _ hr))
        (createStep_not_apart rfl (List.mem_singleton.mpr rfl) hs)
  · rintro rfl
    have htr : tr = [threadStart vm sched] := (Option.some.inj h).symm
    subst htr
    refine ⟨?_, List.IsChain.singleton _⟩
    intro r hr
    rw [List.mem_singleton.mp hr]
    exact threadStart_apart vm sched

/-- One more page can be allocated. -/
theorem pagingAllocPhys_page {vm : PagedVm} (hpos : 0 < vm.paging.physAllocPtr.toNat)
    (hroom : vm.paging.physAllocPtr.toNat + 4096 ≤ vm.paging.physMemSize.toNat) :
    (pagingAllocPhys vm pageSize).2 ≠ 0 ∧
      (pagingAllocPhys vm pageSize).1.paging.physAllocPtr.toNat =
        vm.paging.physAllocPtr.toNat + 4096 ∧
      (pagingAllocPhys vm pageSize).1.paging.physMemSize = vm.paging.physMemSize := by
  have hlt := vm.paging.physMemSize.toNat_lt
  have hpages : pagesFor pageSize = 4096 := by decide
  rcases pagingAllocPhys_cases vm pageSize with ⟨hout, -⟩ | ⟨-, haddr, hpaging⟩
  · rw [hpages] at hout
    omega
  · have hround : (pageRound pageSize).toNat = 4096 := by decide
    rw [haddr, hpaging]
    refine ⟨?_, ?_, rfl⟩
    · intro hzero
      rw [hzero, UInt32.toNat_zero] at hpos
      omega
    · dsimp only
      rw [UInt32.toNat_add, hround]
      omega

/-- A stack is mapped if there is memory for its pages. -/
theorem mapStack_ok {pages : List UInt32} {vm : PagedVm} (hpos : 0 < vm.paging.physAllocPtr.toNat)
    (hroom : vm.paging.physAllocPtr.toNat + pages.length * 4096 ≤ vm.paging.physMemSize.toNat) :
    (mapStack pages vm).2 = true := by
  induction pages generalizing vm with
  | nil => rfl
  | cons addr rest ih =>
    rw [List.length_cons] at hroom
    obtain ⟨hne, hptr, hsize⟩ := pagingAllocPhys_page hpos (by omega)
    obtain ⟨hptr', hsize'⟩ := pagingMapPage_alloc (pagingAllocPhys vm pageSize).1 addr
      (pagingAllocPhys vm pageSize).2 (pteUser ||| pteWritable)
    simp only [mapStack, hne, if_false]
    apply ih
    · rw [hptr', hptr]
      omega
    · rw [hptr', hsize', hptr, hsize]
      omega

/-- A TEB is allocated if there is an address and a page for it. -/
theorem threadAllocateTeb_ok (haddr : (0x7FF00000 : UInt32) ≤ v.nextTebAddr)
    (hpos : 0 < v.vm.paging.physAllocPtr.toNat)
    (hroom : v.vm.paging.physAllocPtr.toNat + 4096 ≤ v.vm.paging.physMemSize.toNat) :
    (threadAllocateTeb v).2 = v.nextTebAddr ∧
      (threadAllocateTeb v).1.vm.paging.physAllocPtr.toNat =
        v.vm.paging.physAllocPtr.toNat + 4096 ∧
      (threadAllocateTeb v).1.vm.paging.physMemSize = v.vm.paging.physMemSize := by
  obtain ⟨hne, hptr, hsize⟩ := pagingAllocPhys_page hpos hroom
  obtain ⟨hptr', hsize'⟩ := pagingMapPage_alloc (pagingAllocPhys v.vm pageSize).1 v.nextTebAddr
    (pagingAllocPhys v.vm pageSize).2 (pteUser ||| pteWritable)
  unfold threadAllocateTeb
  simp only [UInt32.not_lt.mpr haddr, hne, if_false]
  exact ⟨trivial, by rw [hptr', hptr], by rw [hsize', hsize]⟩

/-- A stack is allocated if there are addresses and pages for it. -/
theorem threadAllocateStack_ok {size : UInt32}
    (haddr : stackRegionBase.toNat + (pageRound size).toNat + 4096 ≤ v.nextStackAddr.toNat)
    (hpos : 0 < v.vm.paging.physAllocPtr.toNat)
    (hroom : v.vm.paging.physAllocPtr.toNat + (pageRound size).toNat ≤
      v.vm.paging.physMemSize.toNat) : (threadAllocateStack v size).2.isSome = true := by
  have hround := pageRound_toNat size
  have htop := v.nextStackAddr.toNat_lt
  have hbase : (v.nextStackAddr - pageRound size).toNat =
      v.nextStackAddr.toNat - (pageRound size).toNat := by
    rw [UInt32.toNat_sub]
    omega
  have hcheck : ¬ v.nextStackAddr - (pageRound size + 0x1000) < stackRegionBase := by
    rw [UInt32.lt_iff_toNat_lt, UInt32.toNat_sub, UInt32.toNat_add]
    simp only [UInt32.reduceToNat]
    omega
  have hlen : (stackPages (v.nextStackAddr - pageRound size) v.nextStackAddr).length =
      (pageRound size).toNat / 4096 := by
    rw [stackPages, rangePages_eq ((pageRound size).toNat / 4096) (by omega) 0 (by omega),
      List.length_map, List.length_map, List.length_range]
  have hmap : (mapStack (stackPages (v.nextStackAddr - pageRound size) v.nextStackAddr)
      v.vm).2 = true := mapStack_ok hpos (by rw [hlen]; omega)
  unfold threadAllocateStack
  simp only [hcheck, hmap, if_false, if_true, Option.isSome_some]

/-- A call succeeds if there are addresses and pages for its TEB and its stack. -/
theorem createStep_ok {a : CreateArgs} (hstack : a.stackSize ≠ 0)
    (hteb : (0x7FF00000 : UInt32) ≤ r.v.nextTebAddr)
    (haddr : stackRegionBase.toNat + (pageRound a.stackSize).toNat + 4096 ≤
      r.v.nextStackAddr.toNat)
    (hpos : 0 < r.v.vm.paging.physAllocPtr.toNat)
    (hroom : r.v.vm.paging.physAllocPtr.toNat + 4096 + (pageRound a.stackSize).toNat ≤
      r.v.vm.paging.physMemSize.toNat) : (createStep r a).isSome = true := by
  obtain ⟨htebAddr, hptr, hsize⟩ := threadAllocateTeb_ok hteb hpos (by omega)
  have hne : r.v.nextTebAddr ≠ 0 := by
    intro hzero
    rw [hzero] at hteb
    exact absurd hteb (by decide)
  have halloc : (threadAllocateStack (threadAllocateTeb r.v).1 a.stackSize).2.isSome = true :=
    threadAllocateStack_ok (by rwa [threadAllocateTeb_stack]) (by omega)
      (by rw [hptr, hsize]; exact hroom)
  obtain ⟨⟨base, limit⟩, hsome⟩ := Option.isSome_iff_exists.mp halloc
  have hpair : threadAllocateStack (threadAllocateTeb r.v).1 a.stackSize =
      ((threadAllocateStack (threadAllocateTeb r.v).1 a.stackSize).1, some (base, limit)) :=
    Prod.ext rfl hsome
  unfold createStep threadCreateVm
  simp only [hstack, if_false, Bool.true_eq_false, htebAddr, hne]
  rw [hpair]
  rfl

/-- So many more pages can be allocated one after the other. -/
def PagesLeft (physMemSize : UInt32) : Nat → UInt32 → Prop
  | 0, _ => True
  | pages + 1, physAllocPtr =>
      physAllocPtr ≠ 0 ∧ physAllocPtr + pageSize ≤ physMemSize ∧
        PagesLeft physMemSize pages (physAllocPtr + pageSize)

/-- The pages of the next stack of the default size. -/
def nextStackPages (v : ThreadVm) : List UInt32 :=
  stackPages (v.nextStackAddr - threadDefaultStackSize) v.nextStackAddr

/-- There are addresses and pages for the TEB and the stack of another thread. -/
structure RoomForThread (v : ThreadVm) : Prop where
  teb : (0x7FF00000 : UInt32) ≤ v.nextTebAddr
  stack : stackRegionBase ≤ v.nextStackAddr - (threadDefaultStackSize + 0x1000)
  pages : PagesLeft v.vm.paging.physMemSize ((nextStackPages v).length + 1) v.vm.paging.physAllocPtr

/-- One page is allocated exactly if there is one left. -/
theorem pagingAllocPhys_page_iff (vm : PagedVm) :
    (pagingAllocPhys vm pageSize).2 ≠ 0 ↔
      vm.paging.physAllocPtr ≠ 0 ∧ vm.paging.physAllocPtr + pageSize ≤ vm.paging.physMemSize := by
  have hround : pageRound pageSize = pageSize := by decide
  unfold pagingAllocPhys
  simp only [hround, gt_iff_lt, ← UInt32.not_le]
  split
  · next hout => simp [hout]
  · next hfits => simp [not_not.mp hfits]

/-- It leaves one page less. -/
theorem pagingAllocPhys_page_paging {vm : PagedVm} (h : (pagingAllocPhys vm pageSize).2 ≠ 0) :
    (pagingAllocPhys vm pageSize).1.paging.physAllocPtr = vm.paging.physAllocPtr + pageSize ∧
      (pagingAllocPhys vm pageSize).1.paging.physMemSize = vm.paging.physMemSize := by
  have hround : pageRound pageSize = pageSize := by decide
  unfold pagingAllocPhys at h ⊢
  simp only [hround] at h ⊢
  split
  · next hout =>
    rw [if_pos hout] at h
    exact absurd rfl h
  · exact ⟨rfl, rfl⟩

/-- A stack is mapped exactly if there are pages left for it. -/
theorem mapStack_iff (pages : List UInt32) (vm : PagedVm) :
    (mapStack pages vm).2 = true ↔
      PagesLeft vm.paging.physMemSize pages.length vm.paging.physAllocPtr := by
  induction pages generalizing vm with
  | nil => simp [mapStack, PagesLeft]
  | cons addr rest ih =>
    have hpage := pagingAllocPhys_page_iff vm
    rw [List.length_cons, PagesLeft, ← and_assoc, ← hpage, mapStack]
    by_cases hzero : (pagingAllocPhys vm pageSize).2 = 0
    · simp [hzero]
    · obtain ⟨hptr, hsize⟩ := pagingAllocPhys_page_paging hzero
      obtain ⟨hptr', hsize'⟩ := pagingMapPage_alloc (pagingAllocPhys vm pageSize).1 addr
        (pagingAllocPhys vm pageSize).2 (pteUser ||| pteWritable)
      rw [if_neg hzero, ih, hptr', hsize', hptr, hsize]
      simp [hzero]

/-- A TEB is allocated exactly if there is an address and a page for it. -/
theorem threadAllocateTeb_iff (v : ThreadVm) :
    (threadAllocateTeb v).2 ≠ 0 ↔
      (0x7FF00000 : UInt32) ≤ v.nextTebAddr ∧ (pagingAllocPhys v.vm pageSize).2 ≠ 0 := by
  unfold threadAllocateTeb
  dsimp only
  rw [← UInt32.not_lt]
  split
  · next hlow => simp [hlow]
  · next hhigh =>
    split
    · next hzero => simp [hzero]
    · next hpage =>
      have hne : v.nextTebAddr ≠ 0 := by
        intro hzero
        rw [hzero] at hhigh
        exact hhigh (by decide)
      simp [hhigh, hpage, hne]

/-- What a TEB takes. -/
theorem threadAllocateTeb_paging (h : (threadAllocateTeb v).2 ≠ 0) :
    (threadAllocateTeb v).1.vm.paging.physAllocPtr = v.vm.paging.physAllocPtr + pageSize ∧
      (threadAllocateTeb v).1.vm.paging.physMemSize = v.vm.paging.physMemSize := by
  obtain ⟨haddr, hpage⟩ := (threadAllocateTeb_iff v).mp h
  obtain ⟨hptr, hsize⟩ := pagingAllocPhys_page_paging hpage
  obtain ⟨hptr', hsize'⟩ := pagingMapPage_alloc (pagingAllocPhys v.vm pageSize).1 v.nextTebAddr
    (pagingAllocPhys v.vm pageSize).2 (pteUser ||| pteWritable)
  unfold threadAllocateTeb
  simp only [UInt32.not_lt.mpr haddr, hpage, if_false]
  exact ⟨hptr'.trans hptr, hsize'.trans hsize⟩

/-- A stack of the default size is allocated exactly if there are addresses and pages for it. -/
theorem threadAllocateStack_iff (v : ThreadVm) :
    (threadAllocateStack v threadDefaultStackSize).2.isSome = true ↔
      stackRegionBase ≤ v.nextStackAddr - (threadDefaultStackSize + 0x1000) ∧
        PagesLeft v.vm.paging.physMemSize (nextStackPages v).length
          v.vm.paging.physAllocPtr := by
  have hround : pageRound threadDefaultStackSize = threadDefaultStackSize := by decide
  unfold nextStackPages
  rw [← mapStack_iff, ← UInt32.not_lt]
  unfold threadAllocateStack
  simp only [hround]
  split
  · next hlow => simp [hlow]
  · next hhigh =>
    cases (mapStack (stackPages _ v.nextStackAddr) v.vm).2 <;> simp [hhigh]

/-- A thread with a stack of the default size is created exactly if there is room for it. -/
theorem threadCreateVm_iff (v : ThreadVm) (startAddress parameter : UInt32) (suspended : Bool) :
    (threadCreateVm v true startAddress parameter 0 suspended).2.isSome = true ↔
      RoomForThread v := by
  have hroom : RoomForThread v ↔ (threadAllocateTeb v).2 ≠ 0 ∧
      (threadAllocateStack (threadAllocateTeb v).1 threadDefaultStackSize).2.isSome = true := by
    constructor
    · rintro ⟨haddr, hstack, hne, hfits, hpages⟩
      have hteb : (threadAllocateTeb v).2 ≠ 0 :=
        (threadAllocateTeb_iff v).mpr ⟨haddr, (pagingAllocPhys_page_iff v.vm).mpr ⟨hne, hfits⟩⟩
      refine ⟨hteb, (threadAllocateStack_iff _).mpr ?_⟩
      obtain ⟨hptr, hsize⟩ := threadAllocateTeb_paging hteb
      unfold nextStackPages
      rw [threadAllocateTeb_stack, hptr, hsize]
      exact ⟨hstack, hpages⟩
    · rintro ⟨hteb, halloc⟩
      obtain ⟨hptr, hsize⟩ := threadAllocateTeb_paging hteb
      have hrest := (threadAllocateStack_iff _).mp halloc
      unfold nextStackPages at hrest
      rw [threadAllocateTeb_stack, hptr, hsize] at hrest
      obtain ⟨haddr, hpage⟩ := (threadAllocateTeb_iff v).mp hteb
      obtain ⟨hne, hfits⟩ := (pagingAllocPhys_page_iff v.vm).mp hpage
      exact ⟨haddr, hrest.1, hne, hfits, hrest.2⟩
  rw [hroom]
  unfold threadCreateVm
  simp only [if_true, Bool.true_eq_false, if_false]
  by_cases hteb : (threadAllocateTeb v).2 = 0
  · simp [hteb]
  · simp only [hteb, if_false]
    rcases hstack : threadAllocateStack (threadAllocateTeb v).1 threadDefaultStackSize with
      ⟨w, _ | ⟨base, limit⟩⟩
    · simp
    · simpa using hteb

/-- Allocating a TEB does not touch the scheduler. -/
theorem threadAllocateTeb_sched (v : ThreadVm) : (threadAllocateTeb v).1.sched = v.sched := by
  unfold threadAllocateTeb
  dsimp only
  split
  · rfl
  · split <;> rfl

/-- Neither does allocating a stack. -/
theorem threadAllocateStack_sched (v : ThreadVm) (size : UInt32) :
    (threadAllocateStack v size).1.sched = v.sched := by
  unfold threadAllocateStack
  dsimp only
  split <;> rfl

/-- A creation that succeeds makes its thread with `thread_create`'s scheduler part. -/
theorem threadCreateVm_made {allocOk suspended : Bool} {start parameter stackSize : UInt32}
    {w : ThreadVm} {thread : Ptr} {m : ThreadMemory}
    (h : threadCreateVm v allocOk start parameter stackSize suspended = (w, some (thread, m))) :
    w.sched = (threadCreate v.sched start m.stackBase m.tebAddr suspended).1 ∧
      thread = v.sched.heapNext := by
  unfold threadCreateVm at h
  dsimp only at h
  split at h
  · cases h
  · split at h
    · cases h
    · split at h
      · cases h
      · next v' base limit hstack =>
        have hsched := threadAllocateStack_sched (threadAllocateTeb v).1
          (if stackSize = 0 then threadDefaultStackSize else stackSize)
        rw [hstack, threadAllocateTeb_sched] at hsched
        dsimp only at hsched
        obtain ⟨hw, hm⟩ := Prod.ext_iff.mp h
        dsimp only at hw hm
        obtain ⟨hthread, hm⟩ := Prod.ext_iff.mp (Option.some.inj hm)
        dsimp only at hthread hm
        rw [← hw, ← hthread, ← hm, hsched]
        exact ⟨rfl, rfl⟩

/-- A failed creation takes at most a thread id from the scheduler's side. -/
theorem threadCreateVm_none {allocOk suspended : Bool} {start parameter stackSize : UInt32}
    (h : (threadCreateVm v allocOk start parameter stackSize suspended).2 = none) :
    ∃ id, (threadCreateVm v allocOk start parameter stackSize suspended).1.sched =
      { v.sched with nextThreadId := id } := by
  unfold threadCreateVm at h ⊢
  dsimp only at h ⊢
  split
  · exact ⟨v.sched.nextThreadId, rfl⟩
  · next halloc =>
    rw [if_neg halloc] at h
    split
    · exact ⟨v.sched.nextThreadId + 4, by rw [threadAllocateTeb_sched]⟩
    · next hteb =>
      rw [if_neg hteb] at h
      split
      · next w hstack =>
        have hsched := threadAllocateStack_sched (threadAllocateTeb v).1
          (if stackSize = 0 then threadDefaultStackSize else stackSize)
        rw [hstack, threadAllocateTeb_sched] at hsched
        exact ⟨v.sched.nextThreadId + 4, by rw [← hsched]⟩
      · next w base limit hstack =>
        rw [hstack] at h
        cases h

/-- The machine with the paging of `vm_init` and the main thread. -/
def bootThreads : ThreadRun := threadStart vmStart.vm (schedulerInit default fun _ => 0)

/-- As long as no thread is created, thread memory is private. -/
theorem threadRun_private_main : ∃ tr, trace createStep bootThreads [] = some tr ∧
    MemoryPrivate tr :=
  ⟨[bootThreads], rfl, (threadRun_private_iff rfl).mpr rfl⟩

/-- A thread with the default stack size gets the top of the main thread's stack. -/
theorem threadCreate_overlaps_main : ∃ tr,
    trace createStep bootThreads [⟨0x401000, 0, 0x10000, false⟩] = some tr ∧
      ¬ MemoryPrivate tr := by
  have hok : (createStep bootThreads ⟨0x401000, 0, 0x10000, false⟩).isSome = true :=
    createStep_ok (by decide) (by decide) (by decide) (by decide) (by decide)
  obtain ⟨r, hr⟩ := Option.isSome_iff_exists.mp hok
  refine ⟨[bootThreads, r], by simp [trace, hr], ?_⟩
  rintro ⟨hapart, -⟩
  exact createStep_not_apart rfl (List.mem_singleton.mpr rfl) hr (hapart r (by simp))

end Wbox.Thread
