import Wbox.Lib.Trace
import Wbox.Nt.Heap

/-!
# Blocks of the process heap

Runs of heap calls with arbitrary sizes, and the blocks they have returned. The size check of
`heap_alloc` (`src/nt/heap.c:88–98`) adds in 32 bits: a sum that wraps into the region passes
it.
-/

namespace Wbox.Nt

open Wbox.Vm Wbox.Lib

/-- The heap calls, and guest code between them, which may leave any memory. -/
inductive HeapOp where
  | alloc (flags size : UInt32)
  | free (ptr : UInt32)
  | realloc (flags ptr size : UInt32)
  | guest (mem : PhysMem)

/-- A pointer that was returned for a request of `size` bytes. -/
structure Block where
  ptr : UInt32
  size : UInt32
  deriving DecidableEq, Repr

/-- The bytes of a block and of the header before it. -/
def Block.Covers (b : Block) (addr : Nat) : Prop :=
  b.ptr.toNat ≤ addr + heapHeaderSize.toNat ∧ addr < b.ptr.toNat + b.size.toNat

/-- No byte belongs to both blocks. -/
def Block.Disjoint (b c : Block) : Prop := ∀ addr, ¬ (b.Covers addr ∧ c.Covers addr)

/-- The machine and the blocks returned so far, the latest first. -/
structure HeapRun where
  vm : HeapVm
  blocks : List Block

/-- Record a returned pointer unless it is null. -/
def HeapRun.record (r : HeapRun) (vm : HeapVm) (ptr size : UInt32) : HeapRun :=
  { vm := vm, blocks := if ptr = 0 then r.blocks else ⟨ptr, size⟩ :: r.blocks }

/-- One call, or guest code. -/
def heapStep (r : HeapRun) : HeapOp → Option HeapRun
  | .alloc flags size =>
      let alloc := heapAlloc r.vm flags size
      some (r.record alloc.1 alloc.2 size)
  | .free ptr => some { r with vm := (heapFree r.vm ptr).1 }
  | .realloc flags ptr size =>
      let realloc := heapRealloc r.vm flags ptr size
      some (r.record realloc.1 realloc.2 size)
  | .guest mem => some { r with vm := { r.vm with mem := mem } }

/-- The size for which a call asks the allocator. -/
def HeapOp.request (vm : HeapVm) : HeapOp → Option UInt32
  | .alloc _ size => some size
  | .realloc _ ptr size =>
      if ptr = 0 ∨ size ≠ 0 ∧ vm.readVirtL (ptr - heapHeaderSize) = heapAllocMagic then some size
      else none
  | .free _ => none
  | .guest _ => none

/-- The allocation offset after a request of `n` bytes, as a number. -/
def offsetAfter (vm : HeapVm) (n : UInt32) : Nat :=
  vm.heap.allocPtr.toNat + (n.toNat + 7) / 8 * 8 + heapHeaderSize.toNat

/-- If the call allocates, the new offset fits in 32 bits or misses the region when it wraps. -/
def OffsetFits (r : HeapRun) (op : HeapOp) : Prop :=
  ∀ n, op.request r.vm = some n →
    offsetAfter r.vm n < 2 ^ 32 ∨ 2 ^ 32 + r.vm.heap.size.toNat < offsetAfter r.vm n

/-- All blocks lie inside the region and, with their headers, apart; so does the offset. -/
structure HeapSound (r : HeapRun) : Prop where
  inside : ∀ b ∈ r.blocks, r.vm.heap.baseVa.toNat ≤ b.ptr.toNat ∧
    b.ptr.toNat + b.size.toNat ≤ r.vm.heap.baseVa.toNat + r.vm.heap.size.toNat
  disjoint : r.blocks.Pairwise Block.Disjoint
  offset : r.vm.heap.allocPtr ≤ r.vm.heap.size

/-- The machine after `heap_init`. -/
def heapStart (basePhys : UInt32) (mem : PhysMem) (paging : PagingContext) : HeapRun :=
  { vm := { heap := heapInit basePhys, mem := mem, paging := paging }, blocks := [] }

/-- The heap has its region, and every block lies below the allocation offset. -/
structure HeapInv (r : HeapRun) : Prop where
  base : r.vm.heap.baseVa = heapRegionVa
  size : r.vm.heap.size = heapRegionSize
  offset : r.vm.heap.allocPtr.toNat ≤ heapRegionSize.toNat
  below : ∀ b ∈ r.blocks, heapRegionVa.toNat + heapHeaderSize.toNat ≤ b.ptr.toNat ∧
    b.ptr.toNat + b.size.toNat ≤ heapRegionVa.toNat + r.vm.heap.allocPtr.toNat
  disjoint : r.blocks.Pairwise Block.Disjoint

/-- The fields of the allocator are the same. -/
structure SameAllocator (h h' : HeapState) : Prop where
  baseVa : h'.baseVa = h.baseVa
  size : h'.size = h.size
  allocPtr : h'.allocPtr = h.allocPtr

variable {r r' : HeapRun} {op : HeapOp}

private theorem heapFree_same (vm : HeapVm) (ptr : UInt32) :
    SameAllocator vm.heap (heapFree vm ptr).1.heap := by
  obtain ⟨freed, h⟩ := heapFree_heap vm ptr
  rw [h]
  exact ⟨rfl, rfl, rfl⟩

/-- A call of `heap_realloc` allocates its size, or leaves the allocator as it is. -/
theorem heapRealloc_cases (vm : HeapVm) (flags ptr size : UInt32) :
    ((HeapOp.realloc flags ptr size).request vm = none ∧ (heapRealloc vm flags ptr size).2 = 0 ∧
      SameAllocator vm.heap (heapRealloc vm flags ptr size).1.heap) ∨
    ((HeapOp.realloc flags ptr size).request vm = some size ∧
      (heapRealloc vm flags ptr size).2 = (heapAlloc vm flags size).2 ∧
      SameAllocator (heapAlloc vm flags size).1.heap (heapRealloc vm flags ptr size).1.heap) := by
  by_cases hp : ptr = 0
  · have heq : heapRealloc vm flags ptr size = heapAlloc vm flags size := by
      simp only [heapRealloc, hp, if_true]
    rw [heq]
    exact Or.inr ⟨by simp [HeapOp.request, hp], rfl, rfl, rfl, rfl⟩
  by_cases hs : size = 0
  · have heq : heapRealloc vm flags ptr size = ((heapFree vm ptr).1, 0) := by
      simp only [heapRealloc, hp, hs, if_true, if_false]
    rw [heq]
    exact Or.inl ⟨by simp [HeapOp.request, hp, hs], rfl, heapFree_same vm ptr⟩
  by_cases hm : vm.readVirtL (ptr - heapHeaderSize) = heapAllocMagic
  · right
    refine ⟨by simp [HeapOp.request, hs, hm], ?_⟩
    unfold heapRealloc
    simp only [hp, hs, hm, if_false, not_true_eq_false, ne_eq]
    by_cases hz : (heapAlloc vm flags size).2 = 0
    · simp only [hz, if_true, true_and]
      exact ⟨rfl, rfl, rfl⟩
    · simp only [hz, if_false, true_and]
      exact heapFree_same ((heapAlloc vm flags size).1.copyBlock ptr
        (heapAlloc vm flags size).2 (if size < vm.readVirtL (ptr - heapHeaderSize + 4) then size
          else vm.readVirtL (ptr - heapHeaderSize + 4))) ptr
  · have heq : heapRealloc vm flags ptr size = (vm, 0) := by
      simp only [heapRealloc, hp, hs, hm, if_false, ne_eq, not_false_eq_true, if_true]
    rw [heq]
    exact Or.inl ⟨by simp [HeapOp.request, hp, hm], rfl, rfl, rfl, rfl⟩

/-- A step allocates the size it requests, or leaves the allocator and the blocks alone. -/
theorem heapStep_cases (h : heapStep r op = some r') :
    (op.request r.vm = none ∧ SameAllocator r.vm.heap r'.vm.heap ∧ r'.blocks = r.blocks) ∨
      ∃ flags n, op.request r.vm = some n ∧
        SameAllocator (heapAlloc r.vm flags n).1.heap r'.vm.heap ∧
        r'.blocks = (r.record r'.vm (heapAlloc r.vm flags n).2 n).blocks := by
  cases op with
  | alloc flags size =>
    rw [← Option.some.inj h]
    exact Or.inr ⟨flags, size, rfl, ⟨rfl, rfl, rfl⟩, rfl⟩
  | free ptr =>
    rw [← Option.some.inj h]
    exact Or.inl ⟨rfl, heapFree_same r.vm ptr, rfl⟩
  | realloc flags ptr size =>
    rw [← Option.some.inj h]
    rcases heapRealloc_cases r.vm flags ptr size with ⟨hreq, hzero, hsame⟩ | ⟨hreq, hptr, hsame⟩
    · refine Or.inl ⟨hreq, hsame, ?_⟩
      simp only [HeapRun.record, hzero, if_true]
    · refine Or.inr ⟨flags, size, hreq, hsame, ?_⟩
      simp only [HeapRun.record, hptr]
  | guest mem =>
    rw [← Option.some.inj h]
    exact Or.inl ⟨rfl, ⟨rfl, rfl, rfl⟩, rfl⟩

/-- The offset `heap_alloc` computes is the true one modulo 2^32. -/
theorem allocSum_toNat (vm : HeapVm) (n : UInt32) :
    (vm.heap.allocPtr + (align8 n + heapHeaderSize)).toNat = offsetAfter vm n % 2 ^ 32 := by
  rw [UInt32.toNat_add, UInt32.toNat_add, align8_toNat, offsetAfter]
  have hn := n.toNat_lt
  omega

/-- `heap_alloc` fails and changes nothing, or returns the address behind the next header. -/
theorem heapAlloc_cases (vm : HeapVm) (flags n : UInt32) :
    (vm.heap.size.toNat < offsetAfter vm n % 2 ^ 32 ∧ heapAlloc vm flags n = (vm, 0)) ∨
      (offsetAfter vm n % 2 ^ 32 ≤ vm.heap.size.toNat ∧
        (heapAlloc vm flags n).2 = vm.heap.baseVa + vm.heap.allocPtr + heapHeaderSize ∧
        (heapAlloc vm flags n).1.heap.baseVa = vm.heap.baseVa ∧
        (heapAlloc vm flags n).1.heap.size = vm.heap.size ∧
        (heapAlloc vm flags n).1.heap.allocPtr.toNat = offsetAfter vm n % 2 ^ 32) := by
  rw [← allocSum_toNat]
  unfold heapAlloc
  by_cases h : vm.heap.allocPtr + (align8 n + heapHeaderSize) > vm.heap.size
  · left
    exact ⟨UInt32.lt_iff_toNat_lt.mp h, by simp only [h, if_true]⟩
  · right
    simp only [h, if_false, HeapState.advance, HeapVm.zeroBlock_heap, HeapVm.writeHeader_heap]
    exact ⟨UInt32.le_iff_toNat_le.mp (UInt32.not_lt.mp h), trivial, trivial, trivial, trivial⟩

/-- The heap starts empty. -/
theorem heapStart_inv (basePhys : UInt32) (mem : PhysMem) (paging : PagingContext) :
    HeapInv (heapStart basePhys mem paging) where
  base := rfl
  size := rfl
  offset := Nat.zero_le _
  below := by simp [heapStart]
  disjoint := List.Pairwise.nil

/-- The address behind the next header does not wrap. -/
theorem HeapInv.nextPtr (hi : HeapInv r) :
    (r.vm.heap.baseVa + r.vm.heap.allocPtr + heapHeaderSize).toNat =
      heapRegionVa.toNat + r.vm.heap.allocPtr.toNat + heapHeaderSize.toNat := by
  have hoff := hi.offset
  rw [hi.base, UInt32.toNat_add, UInt32.toNat_add]
  simp only [heapRegionVa, heapRegionSize, heapHeaderSize, UInt32.reduceMul, UInt32.reduceToNat]
    at hoff ⊢
  omega

/-- A returned pointer is not null. -/
theorem HeapInv.nextPtr_ne_zero (hi : HeapInv r) :
    ¬ r.vm.heap.baseVa + r.vm.heap.allocPtr + heapHeaderSize = 0 := by
  intro hzero
  have hnext := hi.nextPtr
  rw [hzero] at hnext
  simp only [heapRegionVa, UInt32.reduceToNat] at hnext
  omega

/-- The invariant is about the allocator and the blocks. -/
theorem HeapInv.of_same (hi : HeapInv r) (hs : SameAllocator r.vm.heap r'.vm.heap)
    (hb : r'.blocks = r.blocks) : HeapInv r' where
  base := hs.baseVa.trans hi.base
  size := hs.size.trans hi.size
  offset := hs.allocPtr ▸ hi.offset
  below := by
    rw [hb, hs.allocPtr]
    exact hi.below
  disjoint := hb ▸ hi.disjoint

/-- A block that starts where the last one ends is apart from all of them. -/
private theorem disjoint_of_below {b c : Block} {limit : Nat}
    (hb : limit + heapHeaderSize.toNat ≤ b.ptr.toNat) (hc : c.ptr.toNat + c.size.toNat ≤ limit) :
    b.Disjoint c := by
  rintro addr ⟨⟨hlow, -⟩, -, hhigh⟩
  omega

/-- The state after the allocator returned the next block and moved its offset behind it. -/
theorem HeapInv.grow (hi : HeapInv r) {n : UInt32}
    (hbase : r'.vm.heap.baseVa = r.vm.heap.baseVa) (hsize : r'.vm.heap.size = r.vm.heap.size)
    (hptr : r'.vm.heap.allocPtr.toNat = offsetAfter r.vm n)
    (hfit : offsetAfter r.vm n ≤ r.vm.heap.size.toNat)
    (hb : r'.blocks =
      ⟨r.vm.heap.baseVa + r.vm.heap.allocPtr + heapHeaderSize, n⟩ :: r.blocks) : HeapInv r' where
  base := hbase.trans hi.base
  size := hsize.trans hi.size
  offset := by
    rw [hptr, ← hi.size]
    exact hfit
  below := by
    rw [hb, hptr]
    intro b hmem
    rcases List.mem_cons.mp hmem with rfl | hmem
    · dsimp only
      rw [hi.nextPtr, offsetAfter]
      omega
    · have hold := hi.below b hmem
      rw [offsetAfter]
      omega
  disjoint := by
    rw [hb]
    refine List.pairwise_cons.mpr ⟨?_, hi.disjoint⟩
    intro c hc
    exact disjoint_of_below (Nat.le_of_eq hi.nextPtr.symm) (hi.below c hc).2

/-- An offset that fits and is not too large has not wrapped. -/
theorem HeapInv.no_wrap (hi : HeapInv r) (hf : OffsetFits r op) {n : UInt32}
    (hreq : op.request r.vm = some n) (hle : offsetAfter r.vm n % 2 ^ 32 ≤ r.vm.heap.size.toNat) :
    offsetAfter r.vm n % 2 ^ 32 = offsetAfter r.vm n := by
  have hn := n.toNat_lt
  have hoff := hi.offset
  have hfits := hf n hreq
  rw [hi.size] at hle hfits
  simp only [offsetAfter, heapRegionSize, heapHeaderSize, UInt32.reduceMul,
    UInt32.reduceToNat] at hle hfits hoff ⊢
  omega

/-- A step whose offset fits keeps the invariant and does not move the offset back. -/
theorem HeapInv.step (hi : HeapInv r) (hf : OffsetFits r op) (h : heapStep r op = some r') :
    HeapInv r' ∧ r.vm.heap.allocPtr ≤ r'.vm.heap.allocPtr := by
  rcases heapStep_cases h with ⟨-, hsame, hb⟩ | ⟨flags, n, hreq, hsame, hb⟩
  · exact ⟨hi.of_same hsame hb, hsame.allocPtr ▸ UInt32.le_refl _⟩
  rcases heapAlloc_cases r.vm flags n with ⟨-, hfail⟩ | ⟨hle, hptr, hbase, hsize, halloc⟩
  · rw [hfail] at hsame hb
    have hb' : r'.blocks = r.blocks := by simpa [HeapRun.record] using hb
    exact ⟨hi.of_same hsame hb', hsame.allocPtr ▸ UInt32.le_refl _⟩
  · have hnowrap := hi.no_wrap hf hreq hle
    rw [hnowrap] at hle halloc
    have hptr' : r'.vm.heap.allocPtr.toNat = offsetAfter r.vm n := by
      rw [hsame.allocPtr]
      exact halloc
    refine ⟨hi.grow (hsame.baseVa.trans hbase) (hsame.size.trans hsize) hptr' hle ?_, ?_⟩
    · rw [hb, hptr]
      simp only [HeapRun.record, hi.nextPtr_ne_zero, if_false]
    · apply UInt32.le_iff_toNat_le.mpr
      rw [hptr', offsetAfter]
      omega

/-- The invariant contains what the caller relies on. -/
theorem HeapInv.sound (hi : HeapInv r) : HeapSound r where
  inside := by
    intro b hb
    have hbelow := hi.below b hb
    have hoff := hi.offset
    rw [hi.base, hi.size]
    omega
  disjoint := hi.disjoint
  offset := by
    rw [hi.size]
    exact UInt32.le_iff_toNat_le.mpr hi.offset

/-- A request whose offset wraps into the region gets a block that leaves the region. -/
theorem HeapInv.unsound (hi : HeapInv r) (h : heapStep r op = some r') (hf : ¬ OffsetFits r op) :
    ¬ HeapSound r' := by
  intro hsound
  apply hf
  intro n hn
  by_contra hwrap
  rcases heapStep_cases h with ⟨hnone, -, -⟩ | ⟨flags, n', hreq, hsame, hb⟩
  · exact absurd (hnone.symm.trans hn) (by simp)
  have hnn : n' = n := Option.some.inj (hreq.symm.trans hn)
  subst hnn
  have hlt := n'.toNat_lt
  have hoff := hi.offset
  rw [hi.size] at hwrap
  rcases heapAlloc_cases r.vm flags n' with ⟨hbig, -⟩ | ⟨-, hptr, hbase, hsize, -⟩
  · rw [hi.size] at hbig
    simp only [offsetAfter, heapRegionSize, heapHeaderSize, UInt32.reduceMul,
      UInt32.reduceToNat] at hbig hwrap hoff
    omega
  · have hnext := hi.nextPtr
    have hmem : (⟨r.vm.heap.baseVa + r.vm.heap.allocPtr + heapHeaderSize, n'⟩ : Block) ∈
        r'.blocks := by
      rw [hb, hptr]
      simp only [HeapRun.record, hi.nextPtr_ne_zero, if_false, List.mem_cons, true_or]
    have hend := (hsound.inside _ hmem).2
    rw [hsame.baseVa, hsame.size, hbase, hsize, hnext, hi.base, hi.size] at hend
    simp only [offsetAfter, heapRegionVa, heapRegionSize, heapHeaderSize, UInt32.reduceMul,
      UInt32.reduceToNat] at hwrap hoff hend
    omega

/-- A run of heap calls keeps its blocks in the region and apart and its offset growing, exactly
if no request makes the offset wrap into the region. -/
theorem heapRun_sound_iff {basePhys : UInt32} {mem : PhysMem} {paging : PagingContext}
    {ops : List HeapOp} {tr : List HeapRun}
    (h : trace heapStep (heapStart basePhys mem paging) ops = some tr) :
    ((∀ a ∈ tr, HeapSound a) ∧
        tr.Pairwise fun a b => a.vm.heap.allocPtr ≤ b.vm.heap.allocPtr) ↔
      Guarded heapStep OffsetFits (heapStart basePhys mem paging) ops := by
  have hi := heapStart_inv basePhys mem paging
  revert h hi
  generalize heapStart basePhys mem paging = r
  intro h hi
  constructor
  · rintro ⟨hsound, -⟩
    induction ops generalizing r tr with
    | nil => trivial
    | cons op ops ih =>
      obtain ⟨r', rest, hs, hrest, rfl⟩ := trace_cons h
      have hr' : r' ∈ rest := List.mem_of_getElem? (trace_head hrest)
      have hf : OffsetFits r op := by
        by_contra hf
        exact hi.unsound hs hf (hsound r' (List.mem_cons_of_mem r hr'))
      refine ⟨hf, ?_⟩
      intro a ha
      have har : a = r' := Option.some.inj (ha.symm.trans hs)
      subst har
      exact ih a hrest (hi.step hf hs).1 fun x hx => hsound x (List.mem_cons_of_mem r hx)
  · intro hg
    constructor
    · intro a ha
      have hall := trace_invariant (I := HeapInv)
        (fun a e b ha hok hab => (ha.step hok hab).1) hi h hg
      exact (hall a ha).sound
    · exact trace_pairwise (I := HeapInv)
        (R := fun a b => a.vm.heap.allocPtr ≤ b.vm.heap.allocPtr)
        (fun a e b ha hok hab => ha.step hok hab)
        (fun a b c hab hbc => UInt32.le_trans hab hbc) hi h hg

/-- A fresh heap over empty memory. -/
def emptyHeap : HeapRun := heapStart 0x200000 { ram := fun _ => 0, ramSize := 0 } { pdPhys := 0 }

/-- Two requests of ordinary sizes. -/
theorem heapRun_sound_twoBlocks : ∃ tr,
    trace heapStep emptyHeap [.alloc 8 16, .realloc 0 0 24] = some tr ∧
      (∀ a ∈ tr, HeapSound a) ∧
        tr.Pairwise fun a b => a.vm.heap.allocPtr ≤ b.vm.heap.allocPtr := by
  have hrun : (trace heapStep emptyHeap [.alloc 8 16, .realloc 0 0 24]).isSome = true := by
    decide +kernel
  obtain ⟨tr, htr⟩ := Option.isSome_iff_exists.mp hrun
  refine ⟨tr, htr, (heapRun_sound_iff htr).mpr ⟨?_, ?_⟩⟩
  · intro n hn
    have hreq : n = 16 := (Option.some.inj hn).symm
    subst hreq
    left
    decide +kernel
  · intro r' hr'
    have hr : r' = (heapStep emptyHeap (.alloc 8 16)).get (by decide +kernel) := by
      simp only [emptyHeap, hr', Option.get_some]
    subst hr
    refine ⟨?_, fun _ _ => trivial⟩
    intro n hn
    have hreq : n = 24 := (Option.some.inj hn).symm
    subst hreq
    left
    decide +kernel

/-- A request for all but one of the 2^32 bytes gets a header without a byte behind it. -/
theorem heapAlloc_wraps : ∃ tr, trace heapStep emptyHeap [.alloc 0 0xFFFFFFFF] = some tr ∧
    ¬ ((∀ a ∈ tr, HeapSound a) ∧
        tr.Pairwise fun a b => a.vm.heap.allocPtr ≤ b.vm.heap.allocPtr) := by
  have hrun : (trace heapStep emptyHeap [.alloc 0 0xFFFFFFFF]).isSome = true := by decide +kernel
  obtain ⟨tr, htr⟩ := Option.isSome_iff_exists.mp hrun
  refine ⟨tr, htr, ?_⟩
  rintro ⟨hsound, -⟩
  obtain ⟨r', rest, hs, hrest, rfl⟩ := trace_cons htr
  have hblock : ((heapStep emptyHeap (.alloc 0 0xFFFFFFFF)).map HeapRun.blocks) =
      some [⟨0x1000000C, 0xFFFFFFFF⟩] := by decide +kernel
  have hregion : ((heapStep emptyHeap (.alloc 0 0xFFFFFFFF)).map fun r =>
      (r.vm.heap.baseVa, r.vm.heap.size)) = some (heapRegionVa, heapRegionSize) := by
    decide +kernel
  rw [hs] at hblock hregion
  have hb : r'.blocks = [⟨0x1000000C, 0xFFFFFFFF⟩] := Option.some.inj hblock
  have hreg := Prod.ext_iff.mp (Option.some.inj hregion)
  have hr' : r' ∈ rest := List.mem_of_getElem? (trace_head hrest)
  have hin := (hsound r' (List.mem_cons_of_mem _ hr')).inside ⟨0x1000000C, 0xFFFFFFFF⟩
    (by simp [hb])
  dsimp only at hreg
  rw [hreg.1, hreg.2] at hin
  exact absurd hin (by decide)

end Wbox.Nt
