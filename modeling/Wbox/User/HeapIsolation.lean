import Wbox.Lib.Trace
import Wbox.User.GuestWnd
import Wbox.Vm.GuestBuffer

/-!
# What the desktop heap gives and writes

`desktop_heap_alloc` hands out the heap from its first byte on, and the writes check an address and
a size against the heap before they go to physical memory (`src/user/desktop_heap.c:80–187`). The
sums that are checked are taken modulo 2^32.
-/

namespace Wbox.User

open Wbox.Lib Wbox.Vm

/-- The bytes that go to physical memory, in their order, `desktop_heap.c:112–131`: the address and
the size are checked first. -/
def heapStores (physBase va size : UInt32) (data : Nat → UInt8) : List (UInt32 × UInt8) :=
  if va < desktopHeapBaseVa ∨ va + size > desktopHeapLimitVa then []
  else (List.range size.toNat).map fun i =>
    (physBase + (va - desktopHeapBaseVa) + UInt32.ofNat i, data i)

/-- `desktop_heap_write`; there may be no data. -/
def desktopHeapWritePhys (physBase va : UInt32) (data : Option (Nat → UInt8)) (size : UInt32) :
    List (UInt32 × UInt8) :=
  match data with
  | none => []
  | some data => if size = 0 then [] else heapStores physBase va size data

/-- `desktop_heap_write32`. -/
def desktopHeapWrite32Phys (physBase va value : UInt32) : List (UInt32 × UInt8) :=
  heapStores physBase va 4 (wordByte value)

/-- `desktop_heap_write16`. -/
def desktopHeapWrite16Phys (physBase va : UInt32) (value : UInt16) : List (UInt32 × UInt8) :=
  heapStores physBase va 2 (halfByte value)

/-- `desktop_heap_write8`. -/
def desktopHeapWrite8Phys (physBase va : UInt32) (value : UInt8) : List (UInt32 × UInt8) :=
  heapStores physBase va 1 fun _ => value

/-- A block that has been returned: its address, what was asked for, and by how much the heap has
advanced for it. -/
structure HeapBlock where
  va : UInt32
  size : UInt32
  room : UInt32

/-- `desktop_heap_t` once it is initialized, and physical memory, with the blocks that have been
returned and the bytes that have been written. `paging_alloc_phys` gave the heap its memory. -/
structure PhysHeap where
  mem : PhysMem
  physBase : UInt32
  allocOffset : UInt32
  blocks : List HeapBlock
  written : List UInt32
  block : physBase.toNat + desktopHeapSize.toNat ≤ 2 ^ 32

/-- A call on the heap. -/
inductive HeapCall where
  | alloc (size : UInt32)
  | write (va : UInt32) (data : Option (Nat → UInt8)) (size : UInt32)
  | write32 (va value : UInt32)
  | write16 (va : UInt32) (value : UInt16)
  | write8 (va : UInt32) (value : UInt8)

namespace PhysHeap

/-- The heap after bytes have gone to memory. Bytes from `ram_size` on are not written. -/
def stored (s : PhysHeap) (stores : List (UInt32 × UInt8)) : PhysHeap :=
  { s with
    mem := stores.foldl (fun mem store => memWritebPhys mem store.1 store.2) s.mem
    written := (stores.map Prod.fst).filter (fun a => a.toNat < s.mem.ramSize) ++ s.written }

/-- `desktop_heap_alloc`. -/
def alloc (s : PhysHeap) (size : UInt32) : PhysHeap :=
  let result := desktopHeapAlloc { allocOffset := s.allocOffset } size
  { s with
    allocOffset := result.1.allocOffset
    blocks := if result.2 = 0 then s.blocks
      else ⟨result.2, size, result.1.allocOffset - s.allocOffset⟩ :: s.blocks }

/-- A call; they all return. -/
def step (s : PhysHeap) : HeapCall → Option PhysHeap
  | .alloc size => some (s.alloc size)
  | .write va data size => some (s.stored (desktopHeapWritePhys s.physBase va data size))
  | .write32 va value => some (s.stored (desktopHeapWrite32Phys s.physBase va value))
  | .write16 va value => some (s.stored (desktopHeapWrite16Phys s.physBase va value))
  | .write8 va value => some (s.stored (desktopHeapWrite8Phys s.physBase va value))

/-- The blocks hold what was asked for, lie in the heap and apart, the offset stays in the heap, and
so do the bytes that have been written. -/
structure Isolated (s : PhysHeap) : Prop where
  holds : ∀ b ∈ s.blocks, b.size.toNat ≤ b.room.toNat
  inside : ∀ b ∈ s.blocks, desktopHeapBaseVa.toNat ≤ b.va.toNat ∧
    b.va.toNat + b.room.toNat ≤ desktopHeapLimitVa.toNat
  apart : s.blocks.Pairwise fun b c => c.va.toNat + c.room.toNat ≤ b.va.toNat
  offset : s.allocOffset.toNat ≤ desktopHeapSize.toNat
  written : ∀ a ∈ s.written, s.physBase.toNat ≤ a.toNat ∧
    a.toNat < s.physBase.toNat + desktopHeapSize.toNat

/-- A range wraps around the address space, and ends below the limit again. -/
def Wraps (va size : UInt32) : Prop :=
  desktopHeapBaseVa ≤ va ∧ 2 ^ 32 ≤ va.toNat + size.toNat ∧ va + size ≤ desktopHeapLimitVa

/-- No sum of a call wraps into the heap. -/
def NoWrap (s : PhysHeap) : HeapCall → Prop
  | .alloc size => size.toNat + 3 < 2 ^ 32 ∧
      s.allocOffset.toNat + (size.toNat + 3) / 4 * 4 < 2 ^ 32
  | .write va _ size => ¬ Wraps va size
  | .write32 va _ => ¬ Wraps va 4
  | .write16 va _ => ¬ Wraps va 2
  | .write8 va _ => ¬ Wraps va 1

variable {s s' : PhysHeap} {va size a : UInt32} {data : Nat → UInt8}

/-- The bytes of an accepted range go to the heap. -/
theorem heapStores_inside (hwrap : ¬ Wraps va size)
    (ha : a ∈ (heapStores s.physBase va size data).map Prod.fst) :
    s.physBase.toNat ≤ a.toNat ∧ a.toNat < s.physBase.toNat + desktopHeapSize.toNat := by
  have hblock := s.block
  have hlimit : desktopHeapLimitVa.toNat = desktopHeapBaseVa.toNat + desktopHeapSize.toNat := by
    decide
  unfold heapStores at ha
  split at ha
  · cases ha
  · next hrange =>
    rw [not_or, GT.gt, UInt32.not_lt, UInt32.not_lt] at hrange
    obtain ⟨hlow, hhigh⟩ := hrange
    have hsum : va.toNat + size.toNat < 2 ^ 32 := by
      by_contra hge
      exact hwrap ⟨hlow, by omega, hhigh⟩
    rw [UInt32.le_iff_toNat_le, UInt32.toNat_add, Nat.mod_eq_of_lt hsum] at hhigh
    rw [List.map_map] at ha
    obtain ⟨i, hi, rfl⟩ := List.mem_map.mp ha
    have hlt : i < size.toNat := List.mem_range.mp hi
    have hlow' := UInt32.le_iff_toNat_le.mp hlow
    have hoffset := UInt32.toNat_sub_of_le _ _ hlow
    have hindex : (UInt32.ofNat i).toNat = i := UInt32.toNat_ofNat_of_lt' (by
      unfold UInt32.size
      omega)
    simp only [Function.comp_apply, UInt32.toNat_add, hoffset, hindex]
    omega

/-- What holds all along a run: the blocks end where the heap has been handed out. -/
structure HeapInv (s : PhysHeap) : Prop extends Isolated s where
  ends : ∀ b ∈ s.blocks,
    b.va.toNat + b.room.toNat ≤ desktopHeapBaseVa.toNat + s.allocOffset.toNat

/-- A write keeps the blocks, and writes to the heap. -/
theorem HeapInv.stored (h : HeapInv s) (hwrap : ¬ Wraps va size) :
    HeapInv (s.stored (heapStores s.physBase va size data)) where
  holds := h.holds
  inside := h.inside
  apart := h.apart
  offset := h.offset
  ends := h.ends
  written := by
    intro a ha
    rcases List.mem_append.mp ha with hnew | hold
    · exact heapStores_inside hwrap (List.mem_filter.mp hnew).1
    · exact h.written a hold

/-- A block is put behind those that have been returned. -/
theorem HeapInv.alloc (h : HeapInv s) (hsize : size.toNat + 3 < 2 ^ 32)
    (hsum : s.allocOffset.toNat + (size.toNat + 3) / 4 * 4 < 2 ^ 32) :
    HeapInv (s.alloc size) ∧ s.allocOffset ≤ (s.alloc size).allocOffset := by
  have hfits : DesktopHeap.Fits { allocOffset := s.allocOffset } := h.offset
  unfold PhysHeap.alloc
  by_cases hva : (desktopHeapAlloc { allocOffset := s.allocOffset } size).2 = 0
  · simp only [if_pos hva, alloc_zero hfits hva]
    exact ⟨⟨⟨h.holds, h.inside, h.apart, h.offset, h.written⟩, h.ends⟩, UInt32.le_refl _⟩
  · have hpos : 0 < size.toNat := by
      by_contra hzero
      have hsize : size = 0 := UInt32.toNat_inj.mp (by
        have h0 : (0 : UInt32).toNat = 0 := rfl
        omega)
      exact hva (by rw [hsize]; rfl)
    obtain ⟨-, hfits', hstart, hend⟩ := alloc_spec hfits hpos hsize hsum hva
    have hlimit : desktopHeapLimitVa.toNat = desktopHeapBaseVa.toNat + desktopHeapSize.toNat := by
      decide
    simp only [if_neg hva]
    generalize (desktopHeapAlloc { allocOffset := s.allocOffset } size).1 = heap at hfits' hend ⊢
    generalize (desktopHeapAlloc { allocOffset := s.allocOffset } size).2 = va at hva hstart ⊢
    unfold DesktopHeap.Fits at hfits'
    dsimp only at hstart hend
    have hle : s.allocOffset ≤ heap.allocOffset := by
      rw [UInt32.le_iff_toNat_le]
      omega
    have hroom : (heap.allocOffset - s.allocOffset).toNat = (size.toNat + 3) / 4 * 4 := by
      rw [UInt32.toNat_sub_of_le _ _ hle]
      omega
    refine ⟨⟨⟨?_, ?_, ?_, hfits', h.written⟩, ?_⟩, hle⟩
    · intro b hb
      rcases List.mem_cons.mp hb with rfl | hb
      · dsimp only
        omega
      · exact h.holds b hb
    · intro b hb
      rcases List.mem_cons.mp hb with rfl | hb
      · dsimp only
        omega
      · exact h.inside b hb
    · refine List.pairwise_cons.mpr ⟨fun c hc => ?_, h.apart⟩
      have hends := h.ends c hc
      dsimp only
      omega
    · intro b hb
      rcases List.mem_cons.mp hb with rfl | hb
      · dsimp only
        omega
      · have hends := h.ends b hb
        dsimp only
        omega

/-- A call without a sum that wraps. -/
theorem HeapInv.step {call : HeapCall} (h : HeapInv s) (hcall : s.NoWrap call)
    (hstep : s.step call = some s') : HeapInv s' ∧ s.allocOffset ≤ s'.allocOffset := by
  cases call with
  | alloc size =>
    obtain rfl := Option.some.inj hstep
    exact h.alloc hcall.1 hcall.2
  | write va data size =>
    obtain rfl := Option.some.inj hstep
    refine ⟨?_, UInt32.le_refl _⟩
    have hnone : HeapInv (s.stored []) := ⟨⟨h.holds, h.inside, h.apart, h.offset, h.written⟩, h.ends⟩
    unfold desktopHeapWritePhys
    cases data with
    | none => exact hnone
    | some data =>
      dsimp only
      split
      · exact hnone
      · exact h.stored hcall
  | write32 va value =>
    obtain rfl := Option.some.inj hstep
    exact ⟨h.stored hcall, UInt32.le_refl _⟩
  | write16 va value =>
    obtain rfl := Option.some.inj hstep
    exact ⟨h.stored hcall, UInt32.le_refl _⟩
  | write8 va value =>
    obtain rfl := Option.some.inj hstep
    exact ⟨h.stored hcall, UInt32.le_refl _⟩

/-- The heap as `desktop_heap_init` leaves it. -/
def fresh (mem : PhysMem) (physBase : UInt32)
    (block : physBase.toNat + desktopHeapSize.toNat ≤ 2 ^ 32) : PhysHeap where
  mem := mem
  physBase := physBase
  allocOffset := 0
  blocks := []
  written := []
  block := block

theorem heapInv_fresh (mem : PhysMem) (physBase : UInt32)
    (block : physBase.toNat + desktopHeapSize.toNat ≤ 2 ^ 32) :
    HeapInv (fresh mem physBase block) where
  holds b hb := by cases hb
  inside b hb := by cases hb
  apart := List.Pairwise.nil
  offset := Nat.zero_le _
  written a ha := by cases ha
  ends b hb := by cases hb

/-- In a run without a sum that wraps the blocks are isolated, the heap only grows, and nothing
besides it is written. -/
theorem desktopHeap_isolated {mem : PhysMem} {physBase : UInt32}
    {block : physBase.toNat + desktopHeapSize.toNat ≤ 2 ^ 32} {calls : List HeapCall}
    {tr : List PhysHeap} (h : trace step (fresh mem physBase block) calls = some tr)
    (hg : Guarded step NoWrap (fresh mem physBase block) calls) :
    (∀ s ∈ tr, s.Isolated) ∧
      ∀ (k : Nat) (s s' : PhysHeap), tr[k]? = some s → tr[k + 1]? = some s' →
        s.allocOffset ≤ s'.allocOffset := by
  have hinv : ∀ s ∈ tr, HeapInv s :=
    trace_invariant (fun s call s' hs hcall hstep => (hs.step hcall hstep).1)
      (heapInv_fresh mem physBase block) h hg
  refine ⟨fun s hs => (hinv s hs).toIsolated, ?_⟩
  intro k s s' hs hs'
  obtain ⟨call, hcall, hstep⟩ := trace_step h hg hs hs'
  exact ((hinv s (List.mem_of_getElem? hs)).step hcall hstep).2

/-- The heap in the second of 64 megabytes. -/
def freshAt : PhysHeap :=
  fresh { ram := fun _ => 0, ramSize := 0x4000000 } 0x100000 (by decide)

/-- A window of 228 bytes and the write of its handle. -/
theorem desktopHeap_isolated_window :
    (∀ s ∈ [freshAt, freshAt.alloc 228,
        (freshAt.alloc 228).stored (desktopHeapWrite32Phys 0x100000 0x01000000 0x10020)],
      s.Isolated) ∧
      ∀ (k : Nat) (s s' : PhysHeap),
        [freshAt, freshAt.alloc 228,
            (freshAt.alloc 228).stored
              (desktopHeapWrite32Phys 0x100000 0x01000000 0x10020)][k]? = some s →
        [freshAt, freshAt.alloc 228,
            (freshAt.alloc 228).stored
              (desktopHeapWrite32Phys 0x100000 0x01000000 0x10020)][k + 1]? = some s' →
        s.allocOffset ≤ s'.allocOffset := by
  have hrun : trace step (fresh { ram := fun _ => 0, ramSize := 0x4000000 } 0x100000 (by decide))
      [.alloc 228, .write32 0x01000000 0x10020] =
        some [freshAt, freshAt.alloc 228,
          (freshAt.alloc 228).stored (desktopHeapWrite32Phys 0x100000 0x01000000 0x10020)] := rfl
  refine desktopHeap_isolated hrun ⟨⟨by decide, by decide⟩, fun s hs => ⟨?_, fun _ _ => trivial⟩⟩
  intro hwraps
  exact absurd hwraps.2.1 (by decide)

/-- A request for all but one of the 2^32 bytes is rounded to 0 and granted. -/
theorem desktopHeap_not_isolated : ∃ tr, trace step freshAt [.alloc 0xFFFFFFFF] = some tr ∧
    ¬ ∀ s ∈ tr, s.Isolated := by
  refine ⟨[freshAt, freshAt.alloc 0xFFFFFFFF], rfl, fun hall => ?_⟩
  have hlast := hall (freshAt.alloc 0xFFFFFFFF) (by simp)
  have hblock : (⟨0x01000000, 0xFFFFFFFF, 0⟩ : HeapBlock) ∈
      (freshAt.alloc 0xFFFFFFFF).blocks := by
    have hblocks : (freshAt.alloc 0xFFFFFFFF).blocks = [⟨0x01000000, 0xFFFFFFFF, 0⟩] := rfl
    rw [hblocks]
    exact List.mem_cons_self
  exact absurd (hlast.holds _ hblock) (by decide)

end PhysHeap

end Wbox.User
