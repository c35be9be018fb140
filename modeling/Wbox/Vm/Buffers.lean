import Wbox.Lib.Events
import Wbox.Vm.Translation

/-!
# Guest buffers

The bytes of a buffer in guest memory through the page tables (`src/vm/paging.c:137–176`), and the
accesses of code that translates its first address only and goes on in physical memory. Both are
the same exactly if the pages of the buffer lie one after the other.
-/

namespace Wbox.Vm

open Wbox.Lib

/-- A byte of physical memory that is read or written. -/
inductive PhysAccess where
  | read (addr : UInt32)
  | write (addr : UInt32)
  deriving DecidableEq, Repr

/-- A computation on physical memory that logs its accesses. -/
abbrev PhysM := Logged PhysMem PhysAccess

/-- `n` addresses from one on. -/
def physRange (addr : UInt32) (n : Nat) : List UInt32 :=
  (List.range n).map fun i => addr + UInt32.ofNat i

/-- `mem_readb_phys`. -/
def readb (addr : UInt32) : PhysM UInt8 :=
  .op ((physRange addr 1).map .read) fun m => (memReadbPhys m addr, m)

/-- `mem_readw_phys`. -/
def readw (addr : UInt32) : PhysM UInt16 :=
  .op ((physRange addr 2).map .read) fun m => (memReadwPhys m addr, m)

/-- `mem_readl_phys`. -/
def readl (addr : UInt32) : PhysM UInt32 :=
  .op ((physRange addr 4).map .read) fun m => (memReadlPhys m addr, m)

/-- `mem_writeb_phys`. -/
def writeb (addr : UInt32) (val : UInt8) : PhysM PUnit :=
  .op ((physRange addr 1).map .write) fun m => (⟨⟩, memWritebPhys m addr val)

/-- `mem_writew_phys`. -/
def writew (addr : UInt32) (val : UInt16) : PhysM PUnit :=
  .op ((physRange addr 2).map .write) fun m => (⟨⟩, memWritewPhys m addr val)

/-- `mem_writel_phys`. -/
def writel (addr : UInt32) (val : UInt32) : PhysM PUnit :=
  .op ((physRange addr 4).map .write) fun m => (⟨⟩, memWritelPhys m addr val)

/-- `paging_get_phys`; what the page walk itself reads is not logged. -/
def getPhys (ctx : PagingContext) (virt : UInt32) : PhysM UInt32 :=
  .op [] fun m => (pagingGetPhys m ctx virt, m)

/-- The addresses a log reads. -/
def readsOf (log : List PhysAccess) : List UInt32 :=
  log.filterMap fun | .read addr => some addr | .write _ => none

/-- The addresses a log writes. -/
def writesOf (log : List PhysAccess) : List UInt32 :=
  log.filterMap fun | .read _ => none | .write addr => some addr

/-- A buffer of the guest, with the memory in which it is translated. -/
structure GuestBuffer where
  mem : PhysMem
  va : UInt32
  size : Nat

namespace GuestBuffer

/-- The bytes of the buffer through the page tables. -/
def bytes (ctx : PagingContext) (b : GuestBuffer) : List UInt32 :=
  (List.range b.size).map fun i => pagingGetPhys b.mem ctx (b.va + UInt32.ofNat i)

/-- All its pages are mapped. -/
def Mapped (ctx : PagingContext) (b : GuestBuffer) : Prop :=
  ∀ i < b.size, pagingIsMapped b.mem ctx (b.va + UInt32.ofNat i) = true

/-- The physical address of its first byte. -/
def phys (ctx : PagingContext) (b : GuestBuffer) : UInt32 := pagingGetPhys b.mem ctx b.va

/-- The frame of its page number `k`. -/
def frame (ctx : PagingContext) (b : GuestBuffer) (k : Nat) : UInt32 :=
  pagingGetPhys b.mem ctx ((b.va &&& pageMask) + UInt32.ofNat (4096 * k))

/-- Its pages lie in consecutive frames, and its first byte not at the physical address 0. -/
structure Consecutive (ctx : PagingContext) (b : GuestBuffer) : Prop where
  phys_ne_zero : b.phys ctx ≠ 0
  frames : ∀ k, 4096 * k < b.va.toNat % 4096 + b.size →
    b.frame ctx k = b.frame ctx 0 + UInt32.ofNat (4096 * k)

/-- The bytes touched by code that translates the first address only, if it goes on at all. -/
def touched (ctx : PagingContext) (ok : Prop) [Decidable ok] (b : GuestBuffer) : List UInt32 :=
  if ok then physRange (b.phys ctx) b.size else []

end GuestBuffer

variable {m : PhysMem} {ctx : PagingContext} {va : UInt32} {b : GuestBuffer}

section Ranges

theorem length_physRange (addr : UInt32) (n : Nat) : (physRange addr n).length = n := by
  rw [physRange, List.length_map, List.length_range]

/-- A range can be split anywhere. -/
theorem physRange_add (addr : UInt32) (n k : Nat) :
    physRange addr (n + k) = physRange addr n ++ physRange (addr + UInt32.ofNat n) k := by
  unfold physRange
  rw [List.range_add, List.map_append, List.map_map]
  congr 1
  apply List.map_congr_left
  intro i _
  rw [Function.comp_apply, UInt32.ofNat_add, UInt32.add_assoc]

/-- Elements of `w` bytes side by side make one range. -/
theorem flatMap_physRange (addr : UInt32) (w n : Nat) :
    (List.range n).flatMap (fun i => physRange (addr + UInt32.ofNat (i * w)) w) =
      physRange addr (n * w) := by
  induction n with
  | zero =>
    rw [Nat.zero_mul]
    rfl
  | succ n ih =>
    rw [List.range_succ, List.flatMap_append, ih, Nat.succ_mul, physRange_add]
    congr 1
    exact List.append_nil _

theorem readsOf_append (l l' : List PhysAccess) : readsOf (l ++ l') = readsOf l ++ readsOf l' :=
  List.filterMap_append

theorem writesOf_append (l l' : List PhysAccess) :
    writesOf (l ++ l') = writesOf l ++ writesOf l' :=
  List.filterMap_append

@[simp] theorem readsOf_reads (l : List UInt32) : readsOf (l.map .read) = l := by
  simp [readsOf, List.filterMap_map]

@[simp] theorem readsOf_writes (l : List UInt32) : readsOf (l.map .write) = [] := by
  simp [readsOf, List.filterMap_map]

@[simp] theorem writesOf_reads (l : List UInt32) : writesOf (l.map .read) = [] := by
  simp [writesOf, List.filterMap_map]

@[simp] theorem writesOf_writes (l : List UInt32) : writesOf (l.map .write) = l := by
  simp [writesOf, List.filterMap_map]

/-- What a loop reads, and what it writes. -/
theorem readsOf_flatMap {ι : Type} (log : ι → List PhysAccess) (is : List ι) :
    readsOf (is.flatMap log) = is.flatMap fun i => readsOf (log i) :=
  List.filterMap_flatMap

theorem writesOf_flatMap {ι : Type} (log : ι → List PhysAccess) (is : List ι) :
    writesOf (is.flatMap log) = is.flatMap fun i => writesOf (log i) :=
  List.filterMap_flatMap

end Ranges

section Frames

/-- A mapped address lies in its page's frame. -/
theorem pagingGetPhys_of_mapped (h : pagingIsMapped m ctx va = true) :
    (pagingGetPhys m ctx (va &&& pageMask)).toNat % 4096 = 0 ∧
      (pagingGetPhys m ctx va).toNat =
        (pagingGetPhys m ctx (va &&& pageMask)).toNat + va.toNat % 4096 := by
  have hpage : va &&& pageMask &&& pageMask = va &&& pageMask := by
    rw [UInt32.and_assoc, UInt32.and_self]
  unfold pagingIsMapped at h
  dsimp only at h
  split at h
  · cases h
  · next hpde =>
    have hpte := of_decide_eq_true h
    unfold pagingGetPhys
    dsimp only
    rw [hpage, if_neg hpde, if_neg hpte, if_neg hpde, if_neg hpte, frame_or_offset_toNat,
      frame_or_offset_toNat, pageMask_toNat, pageMask_toNat]
    omega

/-- The page of a byte of a buffer. -/
theorem GuestBuffer.page_eq (b : GuestBuffer) (i : Nat) :
    (b.va + UInt32.ofNat i) &&& pageMask =
      (b.va &&& pageMask) + UInt32.ofNat (4096 * ((b.va.toNat % 4096 + i) / 4096)) := by
  apply UInt32.toNat_inj.mp
  rw [pageMask_toNat, UInt32.toNat_add, UInt32.toNat_add, pageMask_toNat, UInt32.toNat_ofNat',
    UInt32.toNat_ofNat']
  omega

/-- The physical address of a byte of a mapped buffer, from the frame of its page. -/
theorem GuestBuffer.byte_toNat (hmapped : b.Mapped ctx) {i : Nat} (hi : i < b.size) :
    (b.frame ctx ((b.va.toNat % 4096 + i) / 4096)).toNat % 4096 = 0 ∧
      (pagingGetPhys b.mem ctx (b.va + UInt32.ofNat i)).toNat =
        (b.frame ctx ((b.va.toNat % 4096 + i) / 4096)).toNat + (b.va.toNat % 4096 + i) % 4096 := by
  have hbyte := pagingGetPhys_of_mapped (hmapped i hi)
  have hoffset : (b.va + UInt32.ofNat i).toNat % 4096 = (b.va.toNat % 4096 + i) % 4096 := by
    rw [UInt32.toNat_add, UInt32.toNat_ofNat']
    omega
  rw [page_eq, hoffset] at hbyte
  exact hbyte

/-- A buffer's bytes follow its first one exactly if its frames are consecutive. -/
theorem GuestBuffer.bytes_follow_iff (hmapped : b.Mapped ctx) (hsize : 0 < b.size) :
    (∀ i < b.size, pagingGetPhys b.mem ctx (b.va + UInt32.ofNat i) =
        b.phys ctx + UInt32.ofNat i) ↔
      ∀ k, 4096 * k < b.va.toNat % 4096 + b.size →
        b.frame ctx k = b.frame ctx 0 + UInt32.ofNat (4096 * k) := by
  have hfirst := byte_toNat hmapped hsize
  have hzero : b.va + UInt32.ofNat 0 = b.va := UInt32.add_zero b.va
  have hoff : (b.va.toNat % 4096 + 0) / 4096 = 0 := by omega
  rw [hzero, hoff] at hfirst
  obtain ⟨hframe, hphys⟩ := hfirst
  constructor
  · intro h k hk
    apply UInt32.toNat_inj.mp
    rw [UInt32.toNat_add, UInt32.toNat_ofNat']
    by_cases hpos : k = 0
    · have := (b.frame ctx 0).toNat_lt
      subst hpos
      omega
    · -- the first byte of page `k`
      have hi : 4096 * k - b.va.toNat % 4096 < b.size := by omega
      have hpage : (b.va.toNat % 4096 + (4096 * k - b.va.toNat % 4096)) / 4096 = k := by omega
      obtain ⟨-, hbyte⟩ := byte_toNat hmapped hi
      have heq := congrArg UInt32.toNat (h _ hi)
      rw [hbyte, hpage, UInt32.toNat_add, UInt32.toNat_ofNat', phys, hphys] at heq
      omega
  · intro h i hi
    apply UInt32.toNat_inj.mp
    obtain ⟨hpage, hbyte⟩ := byte_toNat hmapped hi
    have hframes := congrArg UInt32.toNat (h ((b.va.toNat % 4096 + i) / 4096) (by omega))
    rw [UInt32.toNat_add, UInt32.toNat_ofNat'] at hframes
    rw [hbyte, UInt32.toNat_add, UInt32.toNat_ofNat', phys, hphys]
    omega

/-- Nothing of an empty buffer is touched. -/
theorem GuestBuffer.touched_empty (b : GuestBuffer) (hsize : b.size = 0) {ok : Prop}
    [Decidable ok] : b.touched ctx ok = [] := by
  unfold touched physRange
  rw [hsize]
  split <;> rfl

/-- Code that translates the first address touches the bytes of a buffer exactly if the buffer is
empty, or the code goes on and the frames are consecutive. -/
theorem GuestBuffer.touched_iff (hmapped : b.Mapped ctx) {ok : Prop} [Decidable ok]
    (hok : ok → b.phys ctx ≠ 0) :
    b.touched ctx ok = b.bytes ctx ↔ b.size = 0 ∨ ok ∧ b.Consecutive ctx := by
  by_cases hsize : b.size = 0
  · have hbytes : b.bytes ctx = [] := by
      unfold bytes
      rw [hsize]
      rfl
    simp [hsize, hbytes, b.touched_empty hsize]
  · have hfollow : physRange (b.phys ctx) b.size = b.bytes ctx ↔
        ∀ k, 4096 * k < b.va.toNat % 4096 + b.size →
          b.frame ctx k = b.frame ctx 0 + UInt32.ofNat (4096 * k) := by
      rw [← bytes_follow_iff hmapped (Nat.pos_of_ne_zero hsize)]
      unfold physRange bytes
      rw [List.map_inj_left]
      constructor
      · exact fun h i hi => (h i (List.mem_range.mpr hi)).symm
      · exact fun h i hi => (h i (List.mem_range.mp hi)).symm
    unfold touched
    by_cases hgo : ok
    · rw [if_pos hgo, hfollow]
      constructor
      · exact fun h => Or.inr ⟨hgo, hok hgo, h⟩
      · intro h
        rcases h with h | ⟨-, h⟩
        · exact absurd h hsize
        · exact h.frames
    · rw [if_neg hgo]
      constructor
      · intro h
        have hlength := congrArg List.length h
        rw [bytes, List.length_map, List.length_range] at hlength
        exact absurd hlength.symm hsize
      · intro h
        rcases h with h | ⟨h, -⟩
        · exact absurd h hsize
        · exact absurd h hgo

/-- A buffer whose own translation decides whether the code goes on. -/
theorem GuestBuffer.touched_phys_iff (hmapped : b.Mapped ctx) :
    b.touched ctx (b.phys ctx ≠ 0) = b.bytes ctx ↔ (b.size ≠ 0 → b.Consecutive ctx) := by
  rw [touched_iff hmapped id]
  constructor
  · intro h hsize
    rcases h with h | ⟨-, h⟩
    · exact absurd h hsize
    · exact h
  · intro h
    by_cases hsize : b.size = 0
    · exact Or.inl hsize
    · exact Or.inr ⟨(h hsize).phys_ne_zero, h hsize⟩

/-- No more is touched than the buffer has bytes. -/
theorem GuestBuffer.length_touched_le (ctx : PagingContext) (b : GuestBuffer) (ok : Prop)
    [Decidable ok] :
    (b.touched ctx ok).length ≤ (b.bytes ctx).length := by
  have hbytes : (b.bytes ctx).length = b.size := by
    rw [bytes, List.length_map, List.length_range]
  unfold touched
  split
  · rw [length_physRange, hbytes]
  · exact Nat.zero_le _

/-- A copy from one buffer to another, both translated first, and a result written to a third
one: each is touched as it should be exactly if their frames are consecutive. -/
theorem GuestBuffer.copy_iff {src dst result : GuestBuffer} (hsrc : src.Mapped ctx)
    (hdst : dst.Mapped ctx) (hresult : result.Mapped ctx) (hsize : src.size = 0 ↔ dst.size = 0) :
    (src.touched ctx (src.phys ctx ≠ 0 ∧ dst.phys ctx ≠ 0) = src.bytes ctx ∧
        dst.touched ctx (src.phys ctx ≠ 0 ∧ dst.phys ctx ≠ 0) ++
            result.touched ctx (result.phys ctx ≠ 0) = dst.bytes ctx ++ result.bytes ctx) ↔
      (src.size ≠ 0 → src.Consecutive ctx) ∧ (dst.size ≠ 0 → dst.Consecutive ctx) ∧
        (result.size ≠ 0 → result.Consecutive ctx) := by
  have hsplit : dst.touched ctx (src.phys ctx ≠ 0 ∧ dst.phys ctx ≠ 0) ++
      result.touched ctx (result.phys ctx ≠ 0) = dst.bytes ctx ++ result.bytes ctx ↔
        dst.touched ctx (src.phys ctx ≠ 0 ∧ dst.phys ctx ≠ 0) = dst.bytes ctx ∧
          result.touched ctx (result.phys ctx ≠ 0) = result.bytes ctx := by
    constructor
    · intro h
      apply List.append_inj h
      -- neither part is longer than it should be
      have hlength := congrArg List.length h
      rw [List.length_append, List.length_append] at hlength
      have hle := dst.length_touched_le ctx (src.phys ctx ≠ 0 ∧ dst.phys ctx ≠ 0)
      have hle' := result.length_touched_le ctx (result.phys ctx ≠ 0)
      omega
    · intro ⟨h, h'⟩
      rw [h, h']
  rw [hsplit, touched_phys_iff hresult, touched_iff hsrc And.left, touched_iff hdst And.right]
  constructor
  · intro ⟨h, h', hres⟩
    refine ⟨?_, ?_, hres⟩
    · intro hne
      rcases h with h | ⟨-, h⟩
      · exact absurd h hne
      · exact h
    · intro hne
      rcases h' with h | ⟨-, h⟩
      · exact absurd h hne
      · exact h
  · intro ⟨h, h', hres⟩
    by_cases hne : src.size = 0
    · exact ⟨Or.inl hne, Or.inl (hsize.mp hne), hres⟩
    · have hsrc' := h hne
      have hdst' := h' fun hz => hne (hsize.mpr hz)
      have hok := And.intro hsrc'.phys_ne_zero hdst'.phys_ne_zero
      exact ⟨Or.inr ⟨hok, hsrc'⟩, Or.inr ⟨hok, hdst'⟩, hres⟩

end Frames

end Wbox.Vm
