import Wbox.Nt.HeapBlocks
import Wbox.Nt.HeapRegion

/-!
# Reallocation

What `heap_realloc` (`src/nt/heap.c:164–207`) does to the old block, the new one and all others.
It looks for the magic word before its pointer as `heap_free` and `heap_size` do, but not whether
the pointer is in the region.
-/

namespace Wbox.Nt

open Wbox.Vm Wbox.Lib

/-- The bytes that are set aside for a block behind its header. -/
def Block.room (b : Block) : Nat := (b.size.toNat + 7) / 8 * 8

/-- A block ends before the header of another one. -/
def Block.Before (b c : Block) : Prop :=
  b.ptr.toNat + b.room + heapHeaderSize.toNat ≤ c.ptr.toNat

/-- A block has been returned and not been freed since. -/
def Live (vm : HeapVm) (b : Block) : Prop :=
  vm.readVirtL (b.ptr - heapHeaderSize) = heapAllocMagic

/-- The bytes `heap_realloc` copies. -/
def copySize (vm : HeapVm) (ptr size : UInt32) : UInt32 :=
  if size < vm.readVirtL (ptr - heapHeaderSize + 4) then size
  else vm.readVirtL (ptr - heapHeaderSize + 4)

/-- What the caller of a successful `heap_realloc` relies on. -/
structure Reallocated (r : HeapRun) (ptr size : UInt32) (vm' : HeapVm) (newPtr : UInt32) : Prop where
  accepted : (heapFree r.vm ptr).2 = true
  copied : ∀ i < min (heapSize r.vm ptr).toNat size.toNat,
    vm'.byteAt (newPtr + UInt32.ofNat i) = r.vm.byteAt (ptr + UInt32.ofNat i)
  freed : vm'.readVirtL (ptr - heapHeaderSize) = heapFreeMagic
  others : ∀ c ∈ r.blocks, Live r.vm c → c.ptr ≠ ptr → ∀ i < heapHeaderSize.toNat + c.room,
    vm'.byteAt (c.ptr - heapHeaderSize + UInt32.ofNat i) =
      r.vm.byteAt (c.ptr - heapHeaderSize + UInt32.ofNat i)

/-- A call of `heap_realloc` succeeds for a block that `heap_free` accepts, moves it, and frees it;
or it changes nothing. -/
def ReallocKeeps (r : HeapRun) (flags ptr size : UInt32) : Prop :=
  ((heapRealloc r.vm flags ptr size).2 = 0 → (heapRealloc r.vm flags ptr size).1 = r.vm) ∧
    ((heapRealloc r.vm flags ptr size).2 ≠ 0 →
      Reallocated r ptr size (heapRealloc r.vm flags ptr size).1
        (heapRealloc r.vm flags ptr size).2)

/-- The pointer is in the region; no other live block has a byte of its magic word; and neither that
word nor the bytes to copy are among those of the new block. -/
structure BlockFits (r : HeapRun) (ptr size : UInt32) : Prop where
  low : r.vm.heap.baseVa.toNat + heapHeaderSize.toNat ≤ ptr.toNat
  high : ptr.toNat < r.vm.heap.baseVa.toNat + r.vm.heap.size.toNat
  bytes : ptr.toNat + (copySize r.vm ptr size).toNat ≤
    r.vm.heap.baseVa.toNat + r.vm.heap.size.toNat
  others : ∀ c ∈ r.blocks, Live r.vm c → c.ptr ≠ ptr →
    ptr.toNat + 4 ≤ c.ptr.toNat ∨ c.ptr.toNat + c.room + heapHeaderSize.toNat ≤ ptr.toNat
  next : ptr.toNat + (copySize r.vm ptr size).toNat ≤
      r.vm.heap.baseVa.toNat + r.vm.heap.allocPtr.toNat ∨
    r.vm.heap.baseVa.toNat + offsetAfter r.vm size + heapHeaderSize.toNat ≤ ptr.toNat

/-- A pointer behind the magic word of a block is such a pointer, if there is room for a new
block. -/
def ReallocFits (r : HeapRun) (ptr size : UInt32) : Prop :=
  r.vm.readVirtL (ptr - heapHeaderSize) = heapAllocMagic →
    offsetAfter r.vm size ≤ r.vm.heap.size.toNat → BlockFits r ptr size

/-- No request wraps, and guest code leaves the region mapped. -/
structure StepFits (r : HeapRun) (op : HeapOp) : Prop where
  offset : OffsetFits r op
  region : ∀ mem, op = .guest mem → RegionMapped { r.vm with mem := mem }

/-- The region is mapped, and the bytes of all blocks lie below the allocation offset. -/
structure RegionInv (r : HeapRun) : Prop where
  heap : HeapInv r
  mapped : RegionMapped r.vm
  rooms : ∀ b ∈ r.blocks, b.ptr.toNat + b.room ≤ heapRegionVa.toNat + r.vm.heap.allocPtr.toNat
  order : r.blocks.Pairwise fun b c => c.Before b

variable {vm vm' : HeapVm} {va : UInt32} {r r' : HeapRun} {op : HeapOp} {flags n ptr size : UInt32}

section Allocation

/-- The header of a block. -/
structure WritesHeader (vm vm' : HeapVm) (headerVa size : UInt32) : Prop where
  region : SameRegion vm vm'
  same : SameOn (Beside (vm.heap.physOf headerVa) (vm.heap.physOf headerVa + 12)) vm.mem vm'.mem
  magic : loadWord vm'.mem.ram (vm.heap.physOf headerVa) = heapAllocMagic
  word : loadWord vm'.mem.ram (vm.heap.physOf headerVa + 4) = size
  mapped : RegionMapped vm'

/-- A word keeps its value where its bytes are kept. -/
theorem loadWord_sameOn {m m' : PhysMem} {s : Set Nat} (h : SameOn s m m') {i : Nat}
    (hi : ∀ k < 4, i + k ∈ s) : loadWord m'.ram i = loadWord m.ram i :=
  loadWord_congr fun k hk => h.ram _ (hi k hk)

theorem RegionMapped.writeHeader (hm : RegionMapped vm) (hva : vm.heap.Holds va 12)
    (size flags : UInt32) : WritesHeader vm (vm.writeHeader va size flags) va size := by
  unfold HeapVm.writeHeader
  have hfirst := hm.write (hva.mono (by omega)) heapAllocMagic
  obtain ⟨hva₁, hphys₁⟩ := hm.further (k := 4) (n := 8) hva
  obtain ⟨hva₂, hphys₂⟩ := hm.further (k := 8) (n := 4) hva
  have hfour : (4 : UInt32).toNat = 4 := rfl
  have height : (8 : UInt32).toNat = 8 := rfl
  rw [hfour] at hphys₁
  rw [height] at hphys₂
  generalize vm.writeVirtL va heapAllocMagic = vm₁ at hfirst ⊢
  have hsecond := hfirst.mapped.write ((hfirst.region.holds.mpr hva₁).mono (by omega)) size
  generalize vm₁.writeVirtL (va + 4) size = vm₂ at hsecond ⊢
  have hregion := hfirst.region.trans hsecond.region
  have hthird := hsecond.mapped.write (hregion.holds.mpr hva₂) flags
  generalize vm₂.writeVirtL (va + 8) flags = vm₃ at hthird ⊢
  have hsame₁ := hfirst.same
  have hsame₂ := hsecond.same
  have hsame₃ := hthird.same
  have hmagic := hfirst.word
  have hword := hsecond.word
  rw [hfirst.region.physOf, hphys₁] at hsame₂ hword
  rw [hregion.physOf, hphys₂] at hsame₃
  constructor
  case region => exact hregion.trans hthird.region
  case mapped => exact hthird.mapped
  case same =>
    exact ((hsame₁.mono (beside_mono (by omega) (by omega))).trans
      (hsame₂.mono (beside_mono (by omega) (by omega)))).trans
        (hsame₃.mono (beside_mono (by omega) (by omega)))
  case magic =>
    rw [loadWord_sameOn hsame₃ fun k hk => Or.inl (by omega),
      loadWord_sameOn hsame₂ fun k hk => Or.inl (by omega), hmagic]
  case word =>
    rw [loadWord_sameOn hsame₃ fun k hk => Or.inl (by omega), hword]

/-- The bytes of a block. -/
structure WritesBytes (vm vm' : HeapVm) (va : UInt32) (n : Nat) : Prop where
  region : SameRegion vm vm'
  same : SameOn (Beside (vm.heap.physOf va) (vm.heap.physOf va + n)) vm.mem vm'.mem
  mapped : RegionMapped vm'

theorem WritesBytes.refl (hm : RegionMapped vm) (va : UInt32) (n : Nat) : WritesBytes vm vm va n :=
  ⟨.refl vm, .refl _ vm.mem, hm⟩

/-- A loop that writes the bytes of a block through the address of the first one. -/
theorem RegionMapped.writeBytes (hm : RegionMapped vm) (hva : vm.heap.Holds va size.toNat)
    (val : PhysMem → UInt32 → UInt8) :
    WritesBytes vm { vm with
      mem := forBytes size (fun mem i =>
        memWritebPhys mem (pagingGetPhys vm.mem vm.paging va + i) (val mem i)) vm.mem }
      va size.toNat := by
  by_cases hzero : size = 0
  · subst hzero
    rw [forBytes_zero]
    exact .refl hm va 0
  have hpos : 0 < size.toNat := by
    apply Nat.pos_of_ne_zero
    intro h
    exact hzero (UInt32.toNat_inj.mp h)
  obtain ⟨hphys, -⟩ := hm.walk hva hpos
  have hfits := hm.fits
  have hend : (pagingGetPhys vm.mem vm.paging va).toNat + size.toNat ≤ 2 ^ 32 := by
    obtain ⟨hlo, hhi⟩ := hva
    rw [hphys, HeapState.physOf]
    omega
  have hsame := sameOn_forBytes hend val vm.mem
  rw [hphys] at hsame
  have hregion : SameRegion vm { vm with
      mem := forBytes size (fun mem i =>
        memWritebPhys mem (pagingGetPhys vm.mem vm.paging va + i) (val mem i)) vm.mem } :=
    ⟨rfl, rfl, rfl, rfl⟩
  exact ⟨hregion, hsame, hm.of_same hregion (hsame.mono (outside_subset hva))⟩

theorem RegionMapped.zeroBlock (hm : RegionMapped vm) (hva : vm.heap.Holds va size.toNat)
    (flags : UInt32) : WritesBytes vm (vm.zeroBlock va size flags) va size.toNat := by
  unfold HeapVm.zeroBlock
  split
  · exact hm.writeBytes hva fun _ _ => 0
  · exact .refl hm va size.toNat

/-- What `heap_alloc` does to memory: it writes a header and maybe the bytes behind it. -/
structure Allocates (vm vm' : HeapVm) (n : UInt32) : Prop where
  region : SameRegion vm vm'
  same : SameOn (Beside (vm.heap.basePhys.toNat + vm.heap.allocPtr.toNat)
    (vm.heap.basePhys.toNat + offsetAfter vm n)) vm.mem vm'.mem
  magic : loadWord vm'.mem.ram (vm.heap.basePhys.toNat + vm.heap.allocPtr.toNat) = heapAllocMagic
  word : loadWord vm'.mem.ram (vm.heap.basePhys.toNat + vm.heap.allocPtr.toNat + 4) = align8 n
  mapped : RegionMapped vm'

/-- The size that fits is not rounded to another one. -/
theorem align8_of_fits (hm : RegionMapped vm) (hfit : offsetAfter vm n ≤ vm.heap.size.toNat) :
    (align8 n).toNat = (n.toNat + 7) / 8 * 8 := by
  have hspace := hm.space
  unfold offsetAfter at hfit
  rw [align8_toNat]
  omega

/-- An allocation that fits in the region. -/
theorem RegionMapped.alloc (hm : RegionMapped vm) (hfit : offsetAfter vm n ≤ vm.heap.size.toNat)
    (flags : UInt32) : Allocates vm (heapAlloc vm flags n).1 n := by
  have hspace := hm.space
  have hround := align8_of_fits hm hfit
  have hheader : heapHeaderSize.toNat = 12 := rfl
  have hsum := allocSum_toNat vm n
  rw [Nat.mod_eq_of_lt (by omega)] at hsum
  have hroom : ¬ vm.heap.allocPtr + (align8 n + heapHeaderSize) > vm.heap.size := by
    rw [gt_iff_lt, UInt32.lt_iff_toNat_lt, hsum]
    omega
  have hoff : offsetAfter vm n = vm.heap.allocPtr.toNat + (12 + (align8 n).toNat) := by
    unfold offsetAfter
    rw [hround, hheader]
    omega
  have hva : (vm.heap.baseVa + vm.heap.allocPtr).toNat =
      vm.heap.baseVa.toNat + vm.heap.allocPtr.toNat := by
    rw [UInt32.toNat_add]
    omega
  have hholds : vm.heap.Holds (vm.heap.baseVa + vm.heap.allocPtr) (12 + (align8 n).toNat) := by
    unfold HeapState.Holds
    rw [hva]
    omega
  have hphys : vm.heap.physOf (vm.heap.baseVa + vm.heap.allocPtr) =
      vm.heap.basePhys.toNat + vm.heap.allocPtr.toNat := by
    unfold HeapState.physOf
    rw [hva, Nat.add_sub_cancel_left]
  obtain ⟨hdata, hdataPhys⟩ := hm.further (k := heapHeaderSize) hholds
  have hwrite := hm.writeHeader (hholds.mono (by omega)) (align8 n) flags
  unfold heapAlloc
  simp only [hroom, if_false]
  generalize vm.writeHeader (vm.heap.baseVa + vm.heap.allocPtr) (align8 n) flags = vm₁ at hwrite ⊢
  have hzero := hwrite.mapped.zeroBlock (hwrite.region.holds.mpr hdata) flags
  generalize vm₁.zeroBlock (vm.heap.baseVa + vm.heap.allocPtr + heapHeaderSize) (align8 n) flags =
    vm₂ at hzero ⊢
  have hregion := hwrite.region.trans hzero.region
  have hsame₁ := hwrite.same
  have hsame₂ := hzero.same
  have hmagic := hwrite.magic
  have hword := hwrite.word
  rw [hphys] at hsame₁ hmagic hword hdataPhys
  rw [hwrite.region.physOf, hdataPhys, hheader] at hsame₂
  have hsame : SameOn (Beside (vm.heap.basePhys.toNat + vm.heap.allocPtr.toNat)
      (vm.heap.basePhys.toNat + offsetAfter vm n)) vm.mem vm₂.mem := by
    rw [hoff]
    exact (hsame₁.mono (beside_mono (by omega) (by omega))).trans
      (hsame₂.mono (beside_mono (by omega) (by omega)))
  constructor
  case region => exact ⟨hregion.baseVa, hregion.basePhys, hregion.size, hregion.paging⟩
  case same => exact hsame
  case magic => rw [loadWord_sameOn hsame₂ fun k hk => Or.inl (by omega), hmagic]
  case word => rw [loadWord_sameOn hsame₂ fun k hk => Or.inl (by omega), hword]
  case mapped =>
    exact hzero.mapped.of_same ⟨rfl, rfl, rfl, rfl⟩ (.refl _ _)

end Allocation

section Free

/-- The pointers whose range `heap_free` accepts. -/
theorem heapRange_iff (hm : RegionMapped vm) (hsize : heapHeaderSize.toNat ≤ vm.heap.size.toNat) :
    ¬ (ptr < vm.heap.baseVa + heapHeaderSize ∨ ptr ≥ vm.heap.baseVa + vm.heap.size) ↔
      vm.heap.baseVa.toNat + heapHeaderSize.toNat ≤ ptr.toNat ∧
        ptr.toNat < vm.heap.baseVa.toNat + vm.heap.size.toNat := by
  have hspace := hm.space
  rw [UInt32.lt_iff_toNat_lt, ge_iff_le, UInt32.le_iff_toNat_le, UInt32.toNat_add,
    UInt32.toNat_add]
  omega

/-- The header before a pointer into the region. -/
theorem header_holds {heap : HeapState}
    (hlow : heap.baseVa.toNat + heapHeaderSize.toNat ≤ ptr.toNat)
    (hhigh : ptr.toNat + n.toNat ≤ heap.baseVa.toNat + heap.size.toNat) :
    heap.Holds (ptr - heapHeaderSize) (12 + n.toNat) ∧
      heap.physOf (ptr - heapHeaderSize) + 12 = heap.physOf ptr := by
  have hheader : heapHeaderSize.toNat = 12 := rfl
  have hsub : (ptr - heapHeaderSize).toNat = ptr.toNat - 12 := by
    apply UInt32.toNat_sub_of_le
    rw [UInt32.le_iff_toNat_le]
    omega
  unfold HeapState.Holds HeapState.physOf
  rw [hsub]
  omega

/-- A pointer behind a magic word in the region is accepted and marked. -/
theorem heapFree_accepts (hm : RegionMapped vm)
    (hlow : vm.heap.baseVa.toNat + heapHeaderSize.toNat ≤ ptr.toNat)
    (hhigh : ptr.toNat < vm.heap.baseVa.toNat + vm.heap.size.toNat)
    (hmagic : vm.readVirtL (ptr - heapHeaderSize) = heapAllocMagic) :
    (heapFree vm ptr).2 = true ∧
      WritesWord vm (heapFree vm ptr).1 (ptr - heapHeaderSize) heapFreeMagic := by
  have hne : ptr ≠ 0 := by
    intro hzero
    rw [hzero, UInt32.toNat_zero] at hlow
    simp only [heapHeaderSize, UInt32.reduceToNat] at hlow
    omega
  have hrange := (heapRange_iff hm (by omega)).mpr ⟨hlow, hhigh⟩
  have hheader := (header_holds (n := 0) hlow (by simpa using Nat.le_of_lt hhigh)).1
  have hwrite := hm.write (hheader.mono (by omega)) heapFreeMagic
  unfold heapFree
  simp only [hne, hrange, hmagic, if_false, ne_eq, not_true_eq_false, true_and]
  generalize vm.writeVirtL (ptr - heapHeaderSize) heapFreeMagic = vm₁ at hwrite ⊢
  have hregion := hwrite.region
  exact ⟨⟨hregion.baseVa, hregion.basePhys, hregion.size, hregion.paging⟩, hwrite.same,
    hwrite.word, hwrite.mapped.of_same ⟨rfl, rfl, rfl, rfl⟩ (.refl _ _)⟩

/-- `heap_free` leaves the region mapped. -/
theorem RegionMapped.free (hm : RegionMapped vm)
    (hsize : heapHeaderSize.toNat ≤ vm.heap.size.toNat) (ptr : UInt32) :
    SameRegion vm (heapFree vm ptr).1 ∧ RegionMapped (heapFree vm ptr).1 := by
  by_cases hrange : ptr < vm.heap.baseVa + heapHeaderSize ∨ ptr ≥ vm.heap.baseVa + vm.heap.size
  · have hsame : (heapFree vm ptr).1 = vm := by
      unfold heapFree
      simp only [hrange, if_true]
      split <;> rfl
    rw [hsame]
    exact ⟨.refl vm, hm⟩
  by_cases hmagic : vm.readVirtL (ptr - heapHeaderSize) = heapAllocMagic
  · obtain ⟨hlow, hhigh⟩ := (heapRange_iff hm hsize).mp hrange
    have hwrite := (heapFree_accepts hm hlow hhigh hmagic).2
    exact ⟨hwrite.region, hwrite.mapped⟩
  · have hsame : (heapFree vm ptr).1 = vm := by
      unfold heapFree
      simp only [hrange, hmagic, if_false, ne_eq, not_false_eq_true, if_true]
      split <;> rfl
    rw [hsame]
    exact ⟨.refl vm, hm⟩

/-- `heap_size` of a pointer that `heap_free` accepts is the word before it. -/
theorem heapSize_eq (hm : RegionMapped vm)
    (hlow : vm.heap.baseVa.toNat + heapHeaderSize.toNat ≤ ptr.toNat)
    (hhigh : ptr.toNat < vm.heap.baseVa.toNat + vm.heap.size.toNat)
    (hmagic : vm.readVirtL (ptr - heapHeaderSize) = heapAllocMagic) :
    heapSize vm ptr = vm.readVirtL (ptr - heapHeaderSize + 4) := by
  have hne : ptr ≠ 0 := by
    intro hzero
    rw [hzero, UInt32.toNat_zero] at hlow
    simp only [heapHeaderSize, UInt32.reduceToNat] at hlow
    omega
  have hrange := (heapRange_iff hm (by omega)).mpr ⟨hlow, hhigh⟩
  unfold heapSize
  simp only [hne, hrange, hmagic, if_false, ne_eq, not_true_eq_false]

end Free

section Copy

/-- The number of bytes copied. -/
theorem copySize_toNat (vm : HeapVm) (ptr size : UInt32) : (copySize vm ptr size).toNat =
    min (vm.readVirtL (ptr - heapHeaderSize + 4)).toNat size.toNat := by
  unfold copySize
  split
  · next hlt =>
    rw [UInt32.lt_iff_toNat_lt] at hlt
    omega
  · next hle =>
    rw [UInt32.lt_iff_toNat_lt] at hle
    omega

/-- Copying writes the bytes of the new block. -/
theorem RegionMapped.copyBlock (hm : RegionMapped vm) (src : UInt32) {dst k : UInt32}
    (hdst : vm.heap.Holds dst k.toNat) : WritesBytes vm (vm.copyBlock src dst k) dst k.toNat :=
  hm.writeBytes hdst fun mem i => memReadbPhys mem (pagingGetPhys vm.mem vm.paging src + i)

/-- The bytes that have been copied. -/
theorem RegionMapped.copyBlock_ram (hm : RegionMapped vm) {src dst k : UInt32}
    (hsrc : vm.heap.Holds src k.toNat) (hdst : vm.heap.Holds dst k.toNat)
    (hapart : vm.heap.physOf src + k.toNat ≤ vm.heap.physOf dst ∨
      vm.heap.physOf dst + k.toNat ≤ vm.heap.physOf src) :
    ∀ i < k.toNat, (vm.copyBlock src dst k).mem.ram (vm.heap.physOf dst + i) =
      vm.mem.ram (vm.heap.physOf src + i) := by
  intro i hi
  have hpos : 0 < k.toNat := by omega
  obtain ⟨hs, -⟩ := hm.walk hsrc hpos
  obtain ⟨hd, -⟩ := hm.walk hdst hpos
  obtain ⟨hsrcLo, hsrcHi⟩ := hsrc
  obtain ⟨hdstLo, hdstHi⟩ := hdst
  have hfits := hm.fits
  have hram := hm.ram
  have hsrcEnd : vm.heap.physOf src + k.toNat ≤
      vm.heap.basePhys.toNat + vm.heap.size.toNat := by
    unfold HeapState.physOf
    omega
  have hdstEnd : vm.heap.physOf dst + k.toNat ≤
      vm.heap.basePhys.toNat + vm.heap.size.toNat := by
    unfold HeapState.physOf
    omega
  have hcopy := @forBytes_copy vm.mem k (pagingGetPhys vm.mem vm.paging src)
    (pagingGetPhys vm.mem vm.paging dst)
  rw [hs, hd] at hcopy
  exact hcopy (by omega) (by omega) (by omega) (by omega) hapart i hi

end Copy

section Call

/-- The header of the next block. -/
theorem next_holds (hi : RegionInv r) (hfit : offsetAfter r.vm size ≤ r.vm.heap.size.toNat) :
    r.vm.heap.Holds (r.vm.heap.baseVa + r.vm.heap.allocPtr + heapHeaderSize) size.toNat ∧
      r.vm.heap.physOf (r.vm.heap.baseVa + r.vm.heap.allocPtr + heapHeaderSize) =
        r.vm.heap.basePhys.toNat + r.vm.heap.allocPtr.toNat + 12 := by
  have hheader : heapHeaderSize.toNat = 12 := rfl
  have hnext := hi.heap.nextPtr
  have hbase := hi.heap.base
  unfold HeapState.Holds HeapState.physOf
  unfold offsetAfter at hfit
  rw [hnext, hbase]
  omega

/-- A byte of the region, further on. -/
theorem RegionMapped.byteAt_add (hm : RegionMapped vm) {i k : Nat} (hva : vm.heap.Holds va k)
    (hi : i < k) :
    vm.byteAt (va + UInt32.ofNat i) = some (vm.mem.ram (vm.heap.physOf va + i)) := by
  have hspace := hm.space
  have hnum : (UInt32.ofNat i).toNat = i := by
    obtain ⟨-, hhi⟩ := hva
    exact UInt32.toNat_ofNat_of_lt' (Nat.lt_of_le_of_lt (by omega) hspace)
  have hnext : vm.heap.Holds va ((UInt32.ofNat i).toNat + 1) := hva.mono (by omega)
  obtain ⟨hholds, hphys⟩ := hm.further hnext
  rw [hm.byteAt hholds, hphys, hnum]

/-- Memory after a successful `heap_realloc`, byte by byte: those outside of the new block and of
the old magic word are as they were, and the new ones are the old ones. -/
structure Moves (vm vm' : HeapVm) (ptr size newPtr : UInt32) : Prop where
  region : SameRegion vm vm'
  mapped : RegionMapped vm'
  accepted : (heapFree vm ptr).2 = true
  same : SameOn (Beside (vm.heap.basePhys.toNat + vm.heap.allocPtr.toNat)
      (vm.heap.basePhys.toNat + offsetAfter vm size) ∩
    Beside (vm.heap.physOf (ptr - heapHeaderSize)) (vm.heap.physOf (ptr - heapHeaderSize) + 4))
    vm.mem vm'.mem
  copied : ∀ i < (copySize vm ptr size).toNat,
    vm'.mem.ram (vm.heap.physOf newPtr + i) = vm.mem.ram (vm.heap.physOf ptr + i)
  freed : loadWord vm'.mem.ram (vm.heap.physOf (ptr - heapHeaderSize)) = heapFreeMagic

/-- The new block is written, the old one is copied to it and marked. -/
theorem RegionInv.moves (hi : RegionInv r)
    (hfit : offsetAfter r.vm size ≤ r.vm.heap.size.toNat)
    (hmagic : r.vm.readVirtL (ptr - heapHeaderSize) = heapAllocMagic) (hb : BlockFits r ptr size)
    (flags : UInt32) :
    Moves r.vm
      (heapFree ((heapAlloc r.vm flags size).1.copyBlock ptr
        (r.vm.heap.baseVa + r.vm.heap.allocPtr + heapHeaderSize) (copySize r.vm ptr size)) ptr).1
      ptr size (r.vm.heap.baseVa + r.vm.heap.allocPtr + heapHeaderSize) := by
  have hheader : heapHeaderSize.toNat = 12 := rfl
  obtain ⟨hnew, hnewPhys⟩ := next_holds hi hfit
  have hcopy : (copySize r.vm ptr size).toNat ≤ size.toNat := by
    rw [copySize_toNat]
    omega
  have hlow := hb.low
  have hhigh := hb.high
  have hend : offsetAfter r.vm size = r.vm.heap.allocPtr.toNat + (size.toNat + 7) / 8 * 8 + 12 := rfl
  obtain ⟨hhead, hptrPhys⟩ := header_holds hlow hb.bytes
  have hptr : r.vm.heap.Holds ptr (copySize r.vm ptr size).toNat := ⟨by omega, hb.bytes⟩
  have hptrPhys' : r.vm.heap.physOf ptr =
      r.vm.heap.basePhys.toNat + (ptr.toNat - r.vm.heap.baseVa.toNat) := rfl
  have hnext := hb.next
  have halloc := hi.mapped.alloc hfit flags
  generalize r.vm.heap.baseVa + r.vm.heap.allocPtr + heapHeaderSize = newPtr at *
  generalize (heapAlloc r.vm flags size).1 = vm₁ at halloc ⊢
  have hregion₁ := halloc.region
  have hwrites := halloc.mapped.copyBlock ptr (hregion₁.holds.mpr (hnew.mono hcopy))
  have hcopied := halloc.mapped.copyBlock_ram (hregion₁.holds.mpr hptr)
    (hregion₁.holds.mpr (hnew.mono hcopy))
  rw [hregion₁.physOf, hregion₁.physOf] at hcopied
  generalize hk : copySize r.vm ptr size = k at *
  generalize vm₁.copyBlock ptr newPtr k = vm₂ at *
  have hregion₂ := hregion₁.trans hwrites.region
  have hsame₁ := halloc.same
  have hsame₂ := hwrites.same
  rw [hregion₁.physOf, hnewPhys] at hsame₂
  have hsame : SameOn (Beside (r.vm.heap.basePhys.toNat + r.vm.heap.allocPtr.toNat)
      (r.vm.heap.basePhys.toNat + offsetAfter r.vm size)) r.vm.mem vm₂.mem :=
    hsame₁.trans (hsame₂.mono (beside_mono (by omega) (by omega)))
  -- the magic word is not among the bytes of the new block
  have hmagic₂ : vm₂.readVirtL (ptr - heapHeaderSize) = heapAllocMagic := by
    rw [hwrites.mapped.readVirtL (hregion₂.holds.mpr (hhead.mono (by omega))), hregion₂.physOf,
      loadWord_sameOn hsame, ← hi.mapped.readVirtL (hhead.mono (by omega)), hmagic]
    intro j hj
    show _ < _ ∨ _ ≤ _
    omega
  have hlow₂ : vm₂.heap.baseVa.toNat + heapHeaderSize.toNat ≤ ptr.toNat := by
    rw [hregion₂.baseVa]
    exact hlow
  have hhigh₂ : ptr.toNat < vm₂.heap.baseVa.toNat + vm₂.heap.size.toNat := by
    rw [hregion₂.baseVa, hregion₂.size]
    exact hhigh
  have hfree := (heapFree_accepts hwrites.mapped hlow₂ hhigh₂ hmagic₂).2
  generalize (heapFree vm₂ ptr).1 = vm₃ at hfree ⊢
  have hsame₃ := hfree.same
  have hfreed := hfree.word
  rw [hregion₂.physOf] at hsame₃ hfreed
  constructor
  case region => exact hregion₂.trans hfree.region
  case mapped => exact hfree.mapped
  case accepted => exact (heapFree_accepts hi.mapped hlow hhigh hmagic).1
  case same =>
    exact (hsame.mono Set.inter_subset_left).trans (hsame₃.mono Set.inter_subset_right)
  case copied =>
    intro i hlt
    rw [hk] at hlt
    rw [hsame₃.ram _ (by show _ < _ ∨ _ ≤ _; omega), hcopied (by omega) i hlt,
      hsame₁.ram _ (by show _ < _ ∨ _ ≤ _; omega)]
  case freed => exact hfreed

/-- Moving a block is what the caller relies on. -/
theorem RegionInv.reallocated (hi : RegionInv r) {newPtr : UInt32}
    (hfit : offsetAfter r.vm size ≤ r.vm.heap.size.toNat)
    (hnewPtr : newPtr = r.vm.heap.baseVa + r.vm.heap.allocPtr + heapHeaderSize)
    (hmagic : r.vm.readVirtL (ptr - heapHeaderSize) = heapAllocMagic) (hb : BlockFits r ptr size)
    (hmoves : Moves r.vm vm' ptr size newPtr) : Reallocated r ptr size vm' newPtr := by
  have hheader : heapHeaderSize.toNat = 12 := rfl
  obtain ⟨hnew, hnewPhys⟩ := next_holds hi hfit
  rw [← hnewPtr] at hnew hnewPhys
  have hcopy := copySize_toNat r.vm ptr size
  have hlow := hb.low
  obtain ⟨hhead, hptrPhys⟩ := header_holds hlow hb.bytes
  have hregion := hmoves.region
  have hbase := hi.heap.base
  constructor
  case accepted => exact hmoves.accepted
  case freed =>
    rw [hmoves.mapped.readVirtL (hregion.holds.mpr (hhead.mono (by omega))), hregion.physOf]
    exact hmoves.freed
  case copied =>
    intro i hlt
    rw [heapSize_eq hi.mapped hlow hb.high hmagic, ← hcopy] at hlt
    have hptr : r.vm.heap.Holds ptr (copySize r.vm ptr size).toNat := ⟨by omega, hb.bytes⟩
    have hnew' : r.vm.heap.Holds newPtr (copySize r.vm ptr size).toNat := hnew.mono (by omega)
    rw [hmoves.mapped.byteAt_add (hregion.holds.mpr hnew') hlt, hregion.physOf,
      hi.mapped.byteAt_add hptr hlt, hmoves.copied i hlt]
  case others =>
    intro c hc hlive hne i hlt
    obtain ⟨hclow, -⟩ := hi.heap.below c hc
    have hcend := hi.rooms c hc
    have hoff := hi.heap.offset
    have hsize := hi.heap.size
    have hapart := hb.others c hc hlive hne
    have hcsub : (c.ptr - heapHeaderSize).toNat = c.ptr.toNat - 12 := by
      apply UInt32.toNat_sub_of_le
      rw [UInt32.le_iff_toNat_le]
      omega
    have hcholds : r.vm.heap.Holds (c.ptr - heapHeaderSize) (heapHeaderSize.toNat + c.room) := by
      unfold HeapState.Holds
      rw [hcsub, hbase, hsize]
      omega
    have hcphys : r.vm.heap.physOf (c.ptr - heapHeaderSize) =
        r.vm.heap.basePhys.toNat + (c.ptr.toNat - 12 - heapRegionVa.toNat) := by
      unfold HeapState.physOf
      rw [hcsub, hbase]
    have hptrPhys' : r.vm.heap.physOf ptr =
        r.vm.heap.basePhys.toNat + (ptr.toNat - heapRegionVa.toNat) := by
      unfold HeapState.physOf
      rw [hbase]
    rw [hbase] at hlow
    rw [hmoves.mapped.byteAt_add (hregion.holds.mpr hcholds) hlt, hregion.physOf,
      hi.mapped.byteAt_add hcholds hlt, hmoves.same.ram]
    constructor
    · show _ < _ ∨ _ ≤ _
      omega
    · show _ < _ ∨ _ ≤ _
      omega

/-- `heap_realloc` of a block to a size, its branches. -/
theorem heapRealloc_eq (vm : HeapVm) (flags : UInt32) (hp : ptr ≠ 0) (hs : size ≠ 0) :
    heapRealloc vm flags ptr size =
      if vm.readVirtL (ptr - heapHeaderSize) ≠ heapAllocMagic then (vm, 0)
      else if (heapAlloc vm flags size).2 = 0 then ((heapAlloc vm flags size).1, 0)
      else
        ((heapFree ((heapAlloc vm flags size).1.copyBlock ptr (heapAlloc vm flags size).2
          (copySize vm ptr size)) ptr).1, (heapAlloc vm flags size).2) := by
  unfold heapRealloc copySize
  simp only [hp, hs, if_false]

/-- A request is refused and changes nothing, or fits in the region. -/
theorem RegionInv.alloc_cases (hi : RegionInv r) (hf : OffsetFits r op)
    (hreq : op.request r.vm = some n) (flags : UInt32) :
    heapAlloc r.vm flags n = (r.vm, 0) ∨
      offsetAfter r.vm n ≤ r.vm.heap.size.toNat ∧
        (heapAlloc r.vm flags n).2 = r.vm.heap.baseVa + r.vm.heap.allocPtr + heapHeaderSize := by
  rcases heapAlloc_cases r.vm flags n with ⟨-, hfail⟩ | ⟨hle, hptr, -⟩
  · exact Or.inl hfail
  · have hnowrap := hi.heap.no_wrap hf hreq hle
    rw [hnowrap] at hle
    exact Or.inr ⟨hle, hptr⟩

/-- A call whose block fits is what the caller relies on. -/
theorem RegionInv.keeps (hi : RegionInv r) (hp : ptr ≠ 0) (hs : size ≠ 0)
    (hf : OffsetFits r (.realloc flags ptr size)) (hfits : ReallocFits r ptr size) :
    ReallocKeeps r flags ptr size := by
  have hfailed : heapRealloc r.vm flags ptr size = (r.vm, 0) → ReallocKeeps r flags ptr size := by
    intro hsame
    unfold ReallocKeeps
    rw [hsame]
    exact ⟨fun _ => rfl, fun hne => absurd rfl hne⟩
  by_cases hmagic : r.vm.readVirtL (ptr - heapHeaderSize) = heapAllocMagic
  · have hreq : (HeapOp.realloc flags ptr size).request r.vm = some size := by
      simp [HeapOp.request, hs, hmagic]
    rcases hi.alloc_cases hf hreq flags with hfail | ⟨hfit, hptr⟩
    · apply hfailed
      rw [heapRealloc_eq r.vm flags hp hs]
      simp only [hmagic, hfail, ne_eq, not_true_eq_false, if_false, if_true]
    · have hne := hi.heap.nextPtr_ne_zero
      have hcall : heapRealloc r.vm flags ptr size =
          ((heapFree ((heapAlloc r.vm flags size).1.copyBlock ptr
            (r.vm.heap.baseVa + r.vm.heap.allocPtr + heapHeaderSize) (copySize r.vm ptr size)) ptr).1,
            r.vm.heap.baseVa + r.vm.heap.allocPtr + heapHeaderSize) := by
        rw [heapRealloc_eq r.vm flags hp hs]
        simp only [hmagic, hptr, hne, ne_eq, not_true_eq_false, if_false]
      have hb := hfits hmagic hfit
      unfold ReallocKeeps
      rw [hcall]
      exact ⟨fun hzero => absurd hzero hne,
        fun _ => hi.reallocated hfit rfl hmagic hb (hi.moves hfit hmagic hb flags)⟩
  · apply hfailed
    rw [heapRealloc_eq r.vm flags hp hs, if_pos hmagic]

end Call

section Run

/-- An allocation leaves the region mapped. -/
theorem RegionInv.alloc_mapped (hi : RegionInv r) (hf : OffsetFits r op)
    (hreq : op.request r.vm = some n) (flags : UInt32) :
    RegionMapped (heapAlloc r.vm flags n).1 := by
  rcases hi.alloc_cases hf hreq flags with hfail | ⟨hfit, -⟩
  · rw [hfail]
    exact hi.mapped
  · exact (hi.mapped.alloc hfit flags).mapped

/-- A region has room for a header. -/
theorem RegionInv.header_fits (hi : RegionInv r) :
    heapHeaderSize.toNat ≤ r.vm.heap.size.toNat := by
  rw [hi.heap.size]
  decide

/-- So does a reallocation, of whatever pointer. -/
theorem RegionInv.realloc_mapped (hi : RegionInv r)
    (hf : OffsetFits r (.realloc flags ptr size)) :
    RegionMapped (heapRealloc r.vm flags ptr size).1 := by
  by_cases hp : ptr = 0
  · have hreq : (HeapOp.realloc flags ptr size).request r.vm = some size := by
      simp [HeapOp.request, hp]
    unfold heapRealloc
    rw [if_pos hp]
    exact hi.alloc_mapped hf hreq flags
  by_cases hs : size = 0
  · unfold heapRealloc
    rw [if_neg hp, if_pos hs]
    exact (hi.mapped.free hi.header_fits ptr).2
  rw [heapRealloc_eq r.vm flags hp hs]
  split
  · exact hi.mapped
  next hmagic =>
  have hreq : (HeapOp.realloc flags ptr size).request r.vm = some size := by
    simp [HeapOp.request, hs, not_not.mp hmagic]
  split
  · exact hi.alloc_mapped hf hreq flags
  next hne =>
  rcases hi.alloc_cases hf hreq flags with hfail | ⟨hfit, hptr⟩
  · rw [hfail] at hne
    exact absurd rfl hne
  have halloc := hi.mapped.alloc hfit flags
  have hnew := (next_holds hi hfit).1
  have hcopy : (copySize r.vm ptr size).toNat ≤ size.toNat := by
    rw [copySize_toNat]
    omega
  have hwrites := halloc.mapped.copyBlock ptr (halloc.region.holds.mpr (hnew.mono hcopy))
  rw [hptr]
  refine (hwrites.mapped.free ?_ ptr).2
  rw [(halloc.region.trans hwrites.region).size]
  exact hi.header_fits

/-- A step returns the next block, which ends at the new offset, or none. -/
theorem RegionInv.blocks_cases (hi : RegionInv r) (hf : OffsetFits r op)
    (h : heapStep r op = some r') :
    r'.blocks = r.blocks ∨ ∃ n,
      r'.blocks = ⟨r.vm.heap.baseVa + r.vm.heap.allocPtr + heapHeaderSize, n⟩ :: r.blocks ∧
        (r.vm.heap.baseVa + r.vm.heap.allocPtr + heapHeaderSize).toNat + (n.toNat + 7) / 8 * 8 =
          heapRegionVa.toNat + r'.vm.heap.allocPtr.toNat := by
  rcases heapStep_cases h with ⟨-, -, hb⟩ | ⟨flags, n, hreq, hsame, hb⟩
  · exact Or.inl hb
  rcases heapAlloc_cases r.vm flags n with ⟨-, hfail⟩ | ⟨hle, hptr, -, -, halloc⟩
  · rw [hfail] at hb
    left
    simpa [HeapRun.record] using hb
  · have hnowrap := hi.heap.no_wrap hf hreq hle
    have hnext := hi.heap.nextPtr
    rw [hnowrap] at halloc
    rw [hptr] at hb
    simp only [HeapRun.record, hi.heap.nextPtr_ne_zero, if_false] at hb
    refine Or.inr ⟨n, hb, ?_⟩
    rw [hsame.allocPtr, halloc, hnext, offsetAfter]
    omega

/-- A step whose request does not wrap keeps the region mapped and the blocks below the offset. -/
theorem RegionInv.step (hi : RegionInv r) (hf : StepFits r op) (h : heapStep r op = some r') :
    RegionInv r' := by
  obtain ⟨hheap, hgrow⟩ := hi.heap.step hf.offset h
  rw [UInt32.le_iff_toNat_le] at hgrow
  constructor
  case heap => exact hheap
  case mapped =>
    cases op with
    | alloc flags size =>
      rw [← Option.some.inj h]
      exact hi.alloc_mapped hf.offset rfl flags
    | free ptr =>
      rw [← Option.some.inj h]
      exact (hi.mapped.free hi.header_fits ptr).2
    | realloc flags ptr size =>
      rw [← Option.some.inj h]
      exact hi.realloc_mapped hf.offset
    | guest mem =>
      rw [← Option.some.inj h]
      exact hf.region mem rfl
  case rooms =>
    have hold : ∀ b ∈ r.blocks,
        b.ptr.toNat + b.room ≤ heapRegionVa.toNat + r'.vm.heap.allocPtr.toNat := by
      intro b hb
      have hroom := hi.rooms b hb
      omega
    rcases hi.blocks_cases hf.offset h with hb | ⟨n, hb, hnext⟩
    · rw [hb]
      exact hold
    · rw [hb]
      intro b hmem
      rcases List.mem_cons.mp hmem with rfl | hmem
      · exact Nat.le_of_eq hnext
      · exact hold b hmem
  case order =>
    rcases hi.blocks_cases hf.offset h with hb | ⟨n, hb, -⟩
    · rw [hb]
      exact hi.order
    · rw [hb]
      refine List.pairwise_cons.mpr ⟨?_, hi.order⟩
      intro c hc
      have hroom := hi.rooms c hc
      unfold Block.Before
      dsimp only
      rw [hi.heap.nextPtr]
      omega

/-- The invariant holds after `heap_init`. -/
theorem regionInv_start {vm : PagedVm} {hv : HeapVm} (h : HeapMapped vm hv) :
    RegionInv ⟨hv, []⟩ := by
  have hstart := heapStart_inv vm.paging.physAllocPtr hv.mem hv.paging
  unfold heapStart at hstart
  rw [← h.heap] at hstart
  exact ⟨hstart, h.region hv.mem (.refl _ _), by simp, List.Pairwise.nil⟩

/-- Of two blocks one comes before the other. -/
theorem RegionInv.before_or (hi : RegionInv r) {b c : Block} (hb : b ∈ r.blocks)
    (hc : c ∈ r.blocks) (hne : b ≠ c) : b.Before c ∨ c.Before b := by
  have hall := List.Pairwise.forall_of_forall_of_flip
    (R := fun b c : Block => b = c ∨ b.Before c ∨ c.Before b) (fun _ _ => Or.inl rfl)
    (hi.order.imp fun h => Or.inr (Or.inr h)) (hi.order.imp fun h => Or.inr (Or.inl h))
  exact (hall hb hc).resolve_left hne

/-- A returned pointer fits as long as the header before it has the size `heap_alloc` wrote. -/
theorem RegionInv.block_fits (hi : RegionInv r) {b : Block} (hb : b ∈ r.blocks)
    (hword : r.vm.readVirtL (b.ptr - heapHeaderSize + 4) = align8 b.size) (size : UInt32) :
    ReallocFits r b.ptr size := by
  intro _ hfit
  have hheader : heapHeaderSize.toNat = 12 := rfl
  obtain ⟨hlow, -⟩ := hi.heap.below b hb
  have hroom := hi.rooms b hb
  have hbase := hi.heap.base
  have hcopy := copySize_toNat r.vm b.ptr size
  have hround : (align8 b.size).toNat ≤ b.room := by
    rw [align8_toNat, Block.room]
    omega
  rw [hword] at hcopy
  unfold offsetAfter at hfit
  constructor
  case low =>
    rw [hbase]
    exact hlow
  case high =>
    rw [hbase]
    omega
  case bytes =>
    rw [hbase]
    omega
  case next =>
    rw [hbase]
    omega
  case others =>
    intro c hc _ hne
    rcases hi.before_or hc hb (fun heq => hne (congrArg Block.ptr heq)) with h | h
    · right
      exact h
    · left
      unfold Block.Before at h
      omega

end Run

section Programs

/-- The block of a request that fits. -/
theorem heapAlloc_fits (hm : RegionMapped vm) (hfit : offsetAfter vm n ≤ vm.heap.size.toNat)
    (flags : UInt32) :
    (heapAlloc vm flags n).2 = vm.heap.baseVa + vm.heap.allocPtr + heapHeaderSize := by
  have hspace := hm.space
  rcases heapAlloc_cases vm flags n with ⟨hbig, -⟩ | ⟨-, hptr, -⟩
  · rw [Nat.mod_eq_of_lt (by omega)] at hbig
    omega
  · exact hptr

/-- Its header has the rounded size. -/
theorem heapAlloc_word (hm : RegionMapped vm) (hfit : offsetAfter vm n ≤ vm.heap.size.toNat)
    (flags : UInt32) :
    (heapAlloc vm flags n).1.readVirtL (vm.heap.baseVa + vm.heap.allocPtr + 4) = align8 n := by
  have hspace := hm.space
  have hheader : heapHeaderSize.toNat = 12 := rfl
  have hfour : (4 : UInt32).toNat = 4 := rfl
  have halloc := hm.alloc hfit flags
  unfold offsetAfter at hfit
  have hva : (vm.heap.baseVa + vm.heap.allocPtr).toNat =
      vm.heap.baseVa.toNat + vm.heap.allocPtr.toNat := by
    rw [UInt32.toNat_add]
    omega
  have hholds : vm.heap.Holds (vm.heap.baseVa + vm.heap.allocPtr) ((4 : UInt32).toNat + 4) := by
    unfold HeapState.Holds
    rw [hva, hfour]
    omega
  obtain ⟨hword, hphys⟩ := hm.further hholds
  rw [halloc.mapped.readVirtL (halloc.region.holds.mpr hword), halloc.region.physOf, hphys,
    ← halloc.word]
  unfold HeapState.physOf
  rw [hva, Nat.add_sub_cancel_left, hfour]

/-- `heap_free` rejects an address below the region. -/
theorem heapFree_below (hm : RegionMapped vm)
    (hsize : heapHeaderSize.toNat ≤ vm.heap.size.toNat) (hp : ptr ≠ 0)
    (hlow : ptr.toNat < vm.heap.baseVa.toNat) : (heapFree vm ptr).2 = false := by
  have hrange : ptr < vm.heap.baseVa + heapHeaderSize ∨
      ptr ≥ vm.heap.baseVa + vm.heap.size := by
    by_contra hin
    have hin' := ((heapRange_iff hm hsize).mp hin).1
    omega
  unfold heapFree
  simp only [hp, hrange, if_true, if_false]

/-- `heap_realloc` takes it for a block if it stands behind the magic word. -/
theorem RegionInv.realloc_outside (hi : RegionInv r) (hp : ptr ≠ 0) (hs : size ≠ 0)
    (hlow : ptr.toNat < r.vm.heap.baseVa.toNat)
    (hmagic : r.vm.readVirtL (ptr - heapHeaderSize) = heapAllocMagic)
    (hfit : offsetAfter r.vm size ≤ r.vm.heap.size.toNat) (flags : UInt32) :
    ¬ ReallocKeeps r flags ptr size := by
  have hne : (heapRealloc r.vm flags ptr size).2 ≠ 0 := by
    rw [heapRealloc_eq r.vm flags hp hs]
    simp only [hmagic, heapAlloc_fits hi.mapped hfit flags, hi.heap.nextPtr_ne_zero, ne_eq,
      not_true_eq_false, if_false, not_false_eq_true]
  intro hkeeps
  have haccepted := (hkeeps.2 hne).accepted
  rw [heapFree_below hi.mapped hi.header_fits hp hlow] at haccepted
  cases haccepted

theorem trace_guest (hv : HeapVm) (mem : PhysMem) :
    trace heapStep ⟨hv, []⟩ [.guest mem] = some [⟨hv, []⟩, ⟨{ hv with mem := mem }, []⟩] := rfl

/-- So it is, once a program has written the magic word to a page of its own. -/
theorem HeapMapped.realloc_outside {vm : PagedVm} {hv : HeapVm} (h : HeapMapped vm hv)
    (hlow : va.toNat + 12 < heapRegionVa.toNat)
    (hbase : vm.paging.physAllocBase.toNat ≤ (vm.translate va).toNat)
    (hframe : (vm.translate va).toNat + 3 < vm.paging.physAllocPtr.toNat)
    (hne : vm.translate va ≠ 0) :
    ¬ ReallocKeeps
      ⟨{ hv with mem := memWritelPhys hv.mem (vm.translate va) heapAllocMagic }, []⟩ 0
      (va + heapHeaderSize) 8 := by
  have hi := regionInv_start h
  have hheap := h.heap
  have hheader : heapHeaderSize.toNat = 12 := rfl
  have hsum : (va + heapHeaderSize).toNat = va.toNat + 12 := by
    have hregion := heapRegionVa.toNat_lt
    rw [UInt32.toNat_add, hheader]
    omega
  generalize hmem : memWritelPhys hv.mem (vm.translate va) heapAllocMagic = mem
  have hsame : SameOn {x | x < vm.paging.physAllocBase.toNat} hv.mem mem := by
    rw [← hmem]
    apply (sameOn_writel hv.mem _ heapAllocMagic).mono
    intro x hx
    exact Or.inl (Nat.lt_of_lt_of_le hx hbase)
  have hstep : heapStep ⟨hv, []⟩ (.guest mem) = some ⟨{ hv with mem := mem }, []⟩ := rfl
  have hi' : RegionInv ⟨{ hv with mem := mem }, []⟩ := by
    apply hi.step _ hstep
    constructor
    · intro n hn
      cases hn
    · intro mem' heq
      cases heq
      exact h.region mem hsame
  have hword : HeapVm.readVirtL { hv with mem := mem } va = heapAllocMagic := by
    have hwalk := h.walks mem hsame va (heapPage_ne (by omega))
    have hram := hi.mapped.ram
    have hptr := vm.paging.physAllocPtr.toNat_lt
    dsimp only at hram
    rw [hheap, heapInit_basePhys] at hram
    unfold HeapVm.readVirtL
    dsimp only
    rw [hwalk, if_pos hne, ← hmem]
    apply memReadlPhys_writel
    have hend : (vm.translate va + 3).toNat = (vm.translate va).toNat + 3 := by
      rw [UInt32.toNat_add]
      simp only [UInt32.reduceToNat]
      omega
    omega
  apply hi'.realloc_outside
  case hp =>
    intro hzero
    rw [hzero, UInt32.toNat_zero] at hsum
    omega
  case hs => decide
  case hlow =>
    dsimp only
    rw [hheap, hsum]
    exact hlow
  case hmagic =>
    rw [UInt32.add_sub_cancel]
    exact hword
  case hfit =>
    unfold offsetAfter
    dsimp only
    rw [hheap]
    simp only [heapInit, heapRegionSize, heapHeaderSize, UInt32.reduceMul, UInt32.reduceToNat]
    omega

/-- Before a heap is there nothing has been allocated from the memory of `vm_init`. -/
theorem vmPages_tables : PageTables vmPages.vm :=
  pagingInit_tables ⟨by decide, by decide⟩ (Nat.le_refl _)

/-- The pages and tables of the region are there. -/
theorem vmPages_fits : RegionFits vmPages.vm heapRegionVa heapRegionSize :=
  Or.inr ⟨by decide, heapTables_fit _ (by decide)⟩

/-- In every state that heap calls reach from `heap_init`, with guest code between them that leaves
the region mapped and no request that wraps, `heap_realloc` of a pointer whose block fits succeeds
only if `heap_free` accepts it, moves the block and frees it, or else changes nothing. -/
theorem heapRealloc_keeps {vm : PagedVm} {hv : HeapVm} {ops : List HeapOp} {tr : List HeapRun}
    (ht : PageTables vm) (hfit : RegionFits vm heapRegionVa heapRegionSize)
    (hinit : heapInitVm vm = some hv) (h : trace heapStep ⟨hv, []⟩ ops = some tr)
    (hg : Guarded heapStep StepFits ⟨hv, []⟩ ops) :
    ∀ a ∈ tr, ∀ flags ptr size, ptr ≠ 0 → size ≠ 0 → OffsetFits a (.realloc flags ptr size) →
      ReallocFits a ptr size → ReallocKeeps a flags ptr size := by
  intro a ha flags ptr size hp hs hf hfits
  have hall := trace_invariant (I := RegionInv) (fun a e b ha hok hab => ha.step hok hab)
    (regionInv_start (heapInitVm_mapped ht hfit hinit)) h hg
  exact (hall a ha).keeps hp hs hf hfits

/-- A block of 16 bytes grows to 24. -/
theorem heapRealloc_keeps_grows : ∃ hv tr, heapInitVm vmPages.vm = some hv ∧
    trace heapStep ⟨hv, []⟩ [.alloc 0 16] = some tr ∧
    ∃ a ∈ tr, ReallocKeeps a 0 0x1000000C 24 := by
  obtain ⟨hv, hinit⟩ := heapInitVm_some vmPages_tables (by decide)
  have hmapped := heapInitVm_mapped vmPages_tables vmPages_fits hinit
  have hi := regionInv_start hmapped
  have hheap := hmapped.heap
  have hbase : hv.heap.baseVa + hv.heap.allocPtr = 0x10000000 := by
    rw [hheap]
    rfl
  have hoff : offsetAfter hv 16 = 28 := by
    unfold offsetAfter
    rw [hheap]
    rfl
  have hfit : offsetAfter hv 16 ≤ hv.heap.size.toNat := by
    rw [hoff, hheap]
    decide
  have hoffset : StepFits ⟨hv, []⟩ (.alloc 0 16) := by
    refine ⟨?_, fun mem h => nomatch h⟩
    intro n hn
    rw [← Option.some.inj hn]
    dsimp only
    rw [hoff]
    exact Or.inl (by decide)
  have hptr := heapAlloc_fits hi.mapped hfit 0
  have hword := heapAlloc_word hi.mapped hfit 0
  dsimp only at hptr hword
  rw [hbase] at hptr hword
  have hstep : heapStep ⟨hv, []⟩ (.alloc 0 16) =
      some ⟨(heapAlloc hv 0 16).1, [⟨0x1000000C, 16⟩]⟩ := by
    simp only [heapStep, HeapRun.record, hptr]
    rfl
  have hi' := hi.step hoffset hstep
  have htrace : trace heapStep ⟨hv, []⟩ [.alloc 0 16] =
      some [⟨hv, []⟩, ⟨(heapAlloc hv 0 16).1, [⟨0x1000000C, 16⟩]⟩] := by
    simp only [trace, hstep]
    rfl
  have hguard : Guarded heapStep StepFits ⟨hv, []⟩ [.alloc 0 16] := ⟨hoffset, fun _ _ => trivial⟩
  refine ⟨hv, _, hinit, htrace, _, List.mem_cons_of_mem _ List.mem_cons_self, ?_⟩
  apply heapRealloc_keeps vmPages_tables vmPages_fits hinit htrace hguard _
    (List.mem_cons_of_mem _ List.mem_cons_self) 0 0x1000000C 24 (by decide) (by decide)
  · intro n hn
    have hreq : n = 24 := (Option.some.inj (Option.ite_none_right_eq_some.mp hn).2).symm
    have hroom := hi'.heap.offset
    have hregion : heapRegionSize.toNat = 16777216 := rfl
    have hheader : heapHeaderSize.toNat = 12 := rfl
    have hnum : (24 : UInt32).toNat = 24 := rfl
    rw [hreq]
    left
    unfold offsetAfter
    omega
  · have hva : (0x1000000C : UInt32) - heapHeaderSize + 4 = 0x10000000 + 4 := by decide
    have hblock : (⟨0x1000000C, 16⟩ : Block) ∈ [(⟨0x1000000C, 16⟩ : Block)] := List.mem_cons_self
    apply hi'.block_fits hblock
    rw [hva]
    exact hword

/-- A machine with a page of a program at 0x400000. -/
def programVm : PagedVm :=
  pagingMapPage (pagingAllocPhys vmPages.vm pageSize).1 0x400000
    (pagingAllocPhys vmPages.vm pageSize).2 (pteWritable ||| pteUser)

theorem programVm_maps : MapsPage (pagingAllocPhys vmPages.vm pageSize).1 programVm 0x400000
    vmPages.vm.paging.physAllocPtr := by
  have hle : vmPages.vm.paging.physAllocPtr.toNat + pagesFor pageSize ≤
      vmPages.vm.paging.physMemSize.toNat := by decide
  obtain ⟨hpt, hptr, hpaging, -, -, -⟩ := vmPages_tables.allocPhys hle
  unfold programVm
  rw [hptr]
  apply hpt.mapPage
  · intro _
    rw [hpaging]
    decide
  · rw [hpaging]
    decide
  · rw [hpaging]
    decide

/-- Its page lies at the start of the allocation area. -/
theorem programVm_paging : programVm.translate 0x400000 = 0x200000 ∧
    programVm.paging.physAllocBase.toNat = 0x200000 ∧
    programVm.paging.physAllocPtr.toNat = 0x201000 ∧
    programVm.paging.physMemSize.toNat = 0x10000000 ∧
    programVm.paging.nextPtPhys.toNat ≤ 0x102000 := by
  have hmaps := programVm_maps
  have hle : vmPages.vm.paging.physAllocPtr.toNat + pagesFor pageSize ≤
      vmPages.vm.paging.physMemSize.toNat := by decide
  obtain ⟨-, -, hpaging, -, -, -⟩ := vmPages_tables.allocPhys hle
  have hnext := hmaps.next_le
  rw [hpaging] at hnext
  refine ⟨?_, ?_, ?_, ?_, ?_⟩
  · rw [hmaps.translate, if_pos rfl]
    decide
  · rw [hmaps.base, hpaging]
    decide
  · rw [hmaps.ptr, hpaging]
    decide
  · rw [hmaps.memory, hpaging]
    decide
  · exact Nat.le_trans hnext (by decide)

/-- The program has written the magic word at the start of its page: `heap_realloc` takes what is
behind it for a block, which `heap_free` rejects. -/
theorem heapRealloc_accepts_outside : ∃ hv tr, heapInitVm programVm = some hv ∧
    trace heapStep ⟨hv, []⟩ [.guest (memWritelPhys hv.mem (programVm.translate 0x400000)
      heapAllocMagic)] = some tr ∧
    ¬ ∀ a ∈ tr, ∀ flags ptr size, ptr ≠ 0 → size ≠ 0 → ReallocKeeps a flags ptr size := by
  obtain ⟨hframe, hbase, hptr, hmemory, hnext⟩ := programVm_paging
  have ht := programVm_maps.tables
  have hpages : pagesFor heapRegionSize = heapRegionSize.toNat := by decide
  have hsize : heapRegionSize.toNat = 16777216 := rfl
  have htables : programVm.paging.nextPtPhys.toNat + 4 * 4096 ≤
      programVm.paging.physAllocBase.toNat := by
    rw [hbase]
    generalize programVm.paging.nextPtPhys.toNat = next at hnext ⊢
    omega
  have hwrap : programVm.paging.physAllocPtr.toNat + pagesFor heapRegionSize < 2 ^ 32 := by
    rw [hptr, hpages, hsize]
    decide
  have hroom : programVm.paging.physAllocPtr.toNat + pagesFor heapRegionSize ≤
      programVm.paging.physMemSize.toNat := by
    rw [hptr, hpages, hsize, hmemory]
    decide
  have hfit : RegionFits programVm heapRegionVa heapRegionSize :=
    Or.inr ⟨hwrap, heapTables_fit _ htables⟩
  obtain ⟨hv, hinit⟩ := heapInitVm_some ht hroom
  have hmapped := heapInitVm_mapped ht hfit hinit
  have hout := @HeapMapped.realloc_outside 0x400000 programVm hv hmapped (by decide)
    (by rw [hbase, hframe]; decide) (by rw [hptr, hframe]; decide) (by rw [hframe]; decide)
  refine ⟨hv, _, hinit, trace_guest hv _, ?_⟩
  intro hall
  apply hout
  apply hall _ (List.mem_cons_of_mem _ List.mem_cons_self) 0 (0x400000 + heapHeaderSize) 8
  · decide
  · decide

end Programs

end Wbox.Nt
