import Wbox.Loader.Relocations

/-!
# What a load touches

Every write to guest memory and every byte of the file that `load_pe_internal` copies, in order
(`src/loader/loader.c:117–178`; `vm_load_pe`, `src/vm/vm.c:143–203`, does the same at the image's
own base). Nothing ties the addresses in the headers to the image's memory or to the file.
-/

namespace Wbox.Loader

open Wbox.Lib Wbox.Pe Wbox.Vm

/-- What the loader does: copy a byte of the file, clear a byte, add to a word. -/
inductive LoadAccess where
  | copy (src dst : UInt32)
  | zero (dst : UInt32)
  | add (dst : UInt32)
  deriving DecidableEq, Repr

/-- Its effect on memory. -/
def LoadAccess.apply (buf : Nat → UInt8) (delta : UInt32) (mem : PhysMem) : LoadAccess → PhysMem
  | .copy src dst => memWritebPhys mem dst (buf src.toNat)
  | .zero dst => memWritebPhys mem dst 0
  | .add dst => memWritelPhys mem dst (memReadlPhys mem dst + delta)

/-- The bytes it stores: none if it is dropped. -/
def LoadAccess.Stores (ramSize : Nat) (x : Nat) : LoadAccess → Prop
  | .copy _ dst => dst.toNat < ramSize ∧ x = dst.toNat
  | .zero dst => dst.toNat < ramSize ∧ x = dst.toNat
  | .add dst => (dst + 3).toNat < ramSize ∧ dst.toNat ≤ x ∧ x < dst.toNat + 4

/-- The byte of the file it copies. -/
def LoadAccess.Copies (x : Nat) : LoadAccess → Prop
  | .copy src _ => x = src.toNat
  | .zero _ => False
  | .add _ => False

/-- What is stored lies in the image, what is copied in the file. -/
structure LoadAccess.Inside (access : LoadAccess) (ramSize imagePhys imageSize fileSize : Nat) :
    Prop where
  stores : ∀ x, access.Stores ramSize x → imagePhys ≤ x ∧ x < imagePhys + imageSize
  copies : ∀ x, access.Copies x → x < fileSize

/-- The headers, `loader.c:118–120`. -/
def headerAccesses (pe : PeImage) (imagePhys : UInt32) : List LoadAccess :=
  (List.range pe.sizeOfHeaders.toNat).map fun i =>
    .copy (UInt32.ofNat i) (imagePhys + UInt32.ofNat i)

/-- The number of bytes copied for a section. -/
def copySizeOf (sec : PeSection) : UInt32 :=
  if sec.rawSize < sec.virtualSize then sec.rawSize else sec.virtualSize

/-- A section, `loader.c:123–143`. -/
def sectionAccesses (imagePhys : UInt32) (sec : PeSection) : List LoadAccess :=
  (List.range (copySizeOf sec).toNat).map (fun j =>
      .copy (sec.rawOffset + UInt32.ofNat j) (imagePhys + sec.virtualAddress + UInt32.ofNat j)) ++
    (List.range' (copySizeOf sec).toNat (sec.virtualSize.toNat - (copySizeOf sec).toNat)).map
      fun j => .zero (imagePhys + sec.virtualAddress + UInt32.ofNat j)

/-- The headers and the sections. -/
def copyAccesses (pe : PeImage) (imagePhys : UInt32) : List LoadAccess :=
  headerAccesses pe imagePhys ++ pe.sections.flatMap (sectionAccesses imagePhys)

/-- The relocations of the first rounds of the loop. -/
def relocAccesses (buf : Nat → UInt8) (pe : PeImage) (imagePhys baseVa : UInt32) (rounds : Nat) :
    List LoadAccess :=
  if Relocates pe baseVa then
    (relocRvas buf pe (relocDir pe).virtualAddress (relocDir pe).size rounds 0).map fun rva =>
      .add (imagePhys + rva)
  else []

/-- A load until some round of the loop over the relocation blocks. -/
def loadAccesses (buf : Nat → UInt8) (pe : PeImage) (imagePhys baseVa : UInt32) (rounds : Nat) :
    List LoadAccess :=
  copyAccesses pe imagePhys ++ relocAccesses buf pe imagePhys baseVa rounds

variable {buf : Nat → UInt8} {pe : PeImage} {imagePhys baseVa delta relocRva relocSize : UInt32}
  {mem mem' : PhysMem}

section Effect

end Effect

section Ranges

/-- Consecutive bytes lie in the image, where they are not dropped. -/
def RangeLands (ramSize imagePhys imageSize : Nat) (start : UInt32) (n : Nat) : Prop :=
  n = 0 ∨ start.toNat + n ≤ 2 ^ 32 ∧
    (ramSize ≤ start.toNat ∨ imagePhys ≤ start.toNat ∧
      (start.toNat + n ≤ imagePhys + imageSize ∨ ramSize ≤ imagePhys + imageSize))

/-- A word lies in the image, or is dropped. -/
def WordLands (ramSize imagePhys imageSize : Nat) (addr : UInt32) : Prop :=
  ramSize ≤ (addr + 3).toNat ∨
    imagePhys ≤ addr.toNat ∧ addr.toNat + 4 ≤ imagePhys + imageSize

/-- Consecutive bytes of the file, at offsets that wrap in 32 bits. -/
def RangeInFile (fileSize : Nat) (start : UInt32) (n : Nat) : Prop :=
  n = 0 ∨ start.toNat + n ≤ fileSize ∨ 2 ^ 32 ≤ fileSize

variable {ramSize image imageSize fileSize n : Nat} {start : UInt32}

/-- The address of a byte of a range. -/
theorem rangeAddr_toNat {j : Nat} (hj : j < 2 ^ 32) :
    (start + UInt32.ofNat j).toNat = (start.toNat + j) % 2 ^ 32 := by
  rw [UInt32.toNat_add, UInt32.toNat_ofNat_of_lt' hj]

/-- In terms of the addresses of the bytes. -/
theorem rangeLands_iff (himage : 0 < image) (hram : 0 < ramSize) (hn : n < 2 ^ 32) :
    (∀ j < n, (start + UInt32.ofNat j).toNat < ramSize →
        image ≤ (start + UInt32.ofNat j).toNat ∧
          (start + UInt32.ofNat j).toNat < image + imageSize) ↔
      RangeLands ramSize image imageSize start n := by
  have hstart := start.toNat_lt
  constructor
  · intro h
    have haddr : ∀ j < n, (start.toNat + j) % 2 ^ 32 < ramSize →
        image ≤ (start.toNat + j) % 2 ^ 32 ∧ (start.toNat + j) % 2 ^ 32 < image + imageSize := by
      intro j hj
      rw [← rangeAddr_toNat (Nat.lt_trans hj hn)]
      exact h j hj
    by_cases hzero : n = 0
    · exact Or.inl hzero
    · have hend : start.toNat + n ≤ 2 ^ 32 := by
        -- a range that wraps meets address 0, which is before the image
        by_contra hwrap
        have hfirst := haddr (2 ^ 32 - start.toNat) (by omega)
        have haround : (start.toNat + (2 ^ 32 - start.toNat)) % 2 ^ 32 = 0 := by
          rw [Nat.add_sub_cancel' (Nat.le_of_lt hstart), Nat.mod_self]
        rw [haround] at hfirst
        have hlo := (hfirst hram).1
        omega
      refine Or.inr ⟨hend, ?_⟩
      by_cases hdrop : ramSize ≤ start.toNat
      · exact Or.inl hdrop
      · have hlo := haddr 0 (by omega)
        rw [Nat.add_zero, Nat.mod_eq_of_lt hstart] at hlo
        obtain ⟨himg, hlt⟩ := hlo (by omega)
        refine Or.inr ⟨himg, ?_⟩
        -- the first byte behind the image is not in the range, or not in memory
        by_contra hout
        have hlast := haddr (image + imageSize - start.toNat) (by omega)
        rw [Nat.add_sub_cancel' (Nat.le_of_lt hlt), Nat.mod_eq_of_lt (by omega)] at hlast
        omega
  · rintro hlands j hj hlt
    rw [rangeAddr_toNat (Nat.lt_trans hj hn)] at hlt ⊢
    rcases hlands with hzero | ⟨hwrap, hlands⟩
    · omega
    · rw [Nat.mod_eq_of_lt (by omega)] at hlt ⊢
      omega

/-- In terms of the offsets of the bytes. -/
theorem rangeInFile_iff (hn : n < 2 ^ 32) :
    (∀ j < n, (start + UInt32.ofNat j).toNat < fileSize) ↔ RangeInFile fileSize start n := by
  have hstart := start.toNat_lt
  constructor
  · intro h
    have hoffset : ∀ j < n, (start.toNat + j) % 2 ^ 32 < fileSize := by
      intro j hj
      rw [← rangeAddr_toNat (Nat.lt_trans hj hn)]
      exact h j hj
    by_cases hzero : n = 0
    · exact Or.inl hzero
    · refine Or.inr ?_
      by_cases hwrap : start.toNat + n ≤ 2 ^ 32
      · have hlast := hoffset (n - 1) (by omega)
        rw [Nat.mod_eq_of_lt (by omega)] at hlast
        omega
      · have hlast := hoffset (2 ^ 32 - 1 - start.toNat) (by omega)
        have htop : (start.toNat + (2 ^ 32 - 1 - start.toNat)) % 2 ^ 32 = 2 ^ 32 - 1 := by
          rw [Nat.add_sub_cancel' (by omega)]
          exact Nat.mod_eq_of_lt (by omega)
        rw [htop] at hlast
        omega
  · rintro (hzero | hfits | hbig) j hj
    · omega
    · rw [rangeAddr_toNat (Nat.lt_trans hj hn)]
      exact Nat.lt_of_le_of_lt (Nat.mod_le _ _) (by omega)
    · exact Nat.lt_of_lt_of_le (UInt32.toNat_lt _) hbig

/-- In terms of the bytes of the word. -/
theorem wordLands_iff {addr : UInt32} :
    (∀ x, (LoadAccess.add addr).Stores ramSize x → image ≤ x ∧ x < image + imageSize) ↔
      WordLands ramSize image imageSize addr := by
  constructor
  · intro h
    by_cases hdrop : ramSize ≤ (addr + 3).toNat
    · exact Or.inl hdrop
    · have hfirst := h addr.toNat ⟨by omega, by omega, by omega⟩
      have hlast := h (addr.toNat + 3) ⟨by omega, by omega, by omega⟩
      exact Or.inr ⟨hfirst.1, by omega⟩
  · rintro hlands x ⟨hlt, hlo, hhi⟩
    rcases hlands with hdrop | ⟨hfirst, hlast⟩
    · omega
    · omega

end Ranges

section Inside

/-- The accesses of a load stay in the image and in the file. -/
def LoadStaysInside (buf : Nat → UInt8) (pe : PeImage) (ramSize : Nat) (imagePhys baseVa : UInt32)
    (fileSize : Nat) : Prop :=
  ∀ rounds, ∀ access ∈ loadAccesses buf pe imagePhys baseVa rounds,
    access.Inside ramSize imagePhys.toNat (pagesFor pe.sizeOfImage) fileSize

/-- What the file says of its headers, sections and relocations fits the image and the file. -/
structure ImageInside (buf : Nat → UInt8) (pe : PeImage) (ramSize : Nat)
    (imagePhys baseVa : UInt32) (fileSize : Nat) : Prop where
  headers : RangeLands ramSize imagePhys.toNat (pagesFor pe.sizeOfImage) imagePhys
    pe.sizeOfHeaders.toNat
  headersInFile : pe.sizeOfHeaders.toNat ≤ fileSize
  sections : ∀ sec ∈ pe.sections, RangeLands ramSize imagePhys.toNat (pagesFor pe.sizeOfImage)
    (imagePhys + sec.virtualAddress) sec.virtualSize.toNat
  sectionsInFile : ∀ sec ∈ pe.sections,
    RangeInFile fileSize sec.rawOffset (copySizeOf sec).toNat
  relocations : Relocates pe baseVa → ∀ n block, relocOffset buf pe n = some block →
    nextBlock buf pe (relocDir pe).virtualAddress (relocDir pe).size block ≠ none →
      ∀ rva ∈ blockRvas buf pe (relocDir pe).virtualAddress block,
        WordLands ramSize imagePhys.toNat (pagesFor pe.sizeOfImage) (imagePhys + rva)

variable {ramSize image imageSize fileSize : Nat}

theorem copy_inside_iff {src dst : UInt32} :
    (LoadAccess.copy src dst).Inside ramSize image imageSize fileSize ↔
      (dst.toNat < ramSize → image ≤ dst.toNat ∧ dst.toNat < image + imageSize) ∧
        src.toNat < fileSize := by
  constructor
  · intro h
    exact ⟨fun hlt => h.stores dst.toNat ⟨hlt, rfl⟩, h.copies src.toNat rfl⟩
  · rintro ⟨hstore, hcopy⟩
    constructor
    · rintro x ⟨hlt, rfl⟩
      exact hstore hlt
    · rintro x rfl
      exact hcopy

theorem zero_inside_iff {dst : UInt32} :
    (LoadAccess.zero dst).Inside ramSize image imageSize fileSize ↔
      (dst.toNat < ramSize → image ≤ dst.toNat ∧ dst.toNat < image + imageSize) := by
  constructor
  · intro h hlt
    exact h.stores dst.toNat ⟨hlt, rfl⟩
  · intro hstore
    constructor
    · rintro x ⟨hlt, rfl⟩
      exact hstore hlt
    · exact fun x hx => hx.elim

theorem add_inside_iff {dst : UInt32} :
    (LoadAccess.add dst).Inside ramSize image imageSize fileSize ↔
      WordLands ramSize image imageSize dst := by
  rw [← wordLands_iff]
  exact ⟨fun h => h.stores, fun h => ⟨h, fun x hx => hx.elim⟩⟩

/-- The headers: each byte is copied to its own offset. -/
theorem headerAccesses_inside_iff (himage : 0 < image) (hram : 0 < ramSize) :
    (∀ access ∈ headerAccesses pe imagePhys, access.Inside ramSize image imageSize fileSize) ↔
      RangeLands ramSize image imageSize imagePhys pe.sizeOfHeaders.toNat ∧
        pe.sizeOfHeaders.toNat ≤ fileSize := by
  have hsize := pe.sizeOfHeaders.toNat_lt
  have hsrc : (∀ i < pe.sizeOfHeaders.toNat, (UInt32.ofNat i).toNat < fileSize) ↔
      pe.sizeOfHeaders.toNat ≤ fileSize := by
    constructor
    · intro h
      by_contra hlt
      have hfile : fileSize < 2 ^ 32 := by omega
      have hlast := h fileSize (by omega)
      rw [UInt32.toNat_ofNat_of_lt' hfile] at hlast
      exact absurd hlast (Nat.lt_irrefl _)
    · intro hle i hi
      have hi32 : i < 2 ^ 32 := Nat.lt_trans hi hsize
      rw [UInt32.toNat_ofNat_of_lt' hi32]
      omega
  rw [← rangeLands_iff himage hram hsize, ← hsrc, ← forall₂_and]
  unfold headerAccesses
  rw [List.forall_mem_map]
  refine forall_congr' fun i => ?_
  rw [List.mem_range]
  exact forall_congr' fun _ => copy_inside_iff

/-- A section: its raw data, then zeros, over its virtual size. -/
theorem sectionAccesses_inside_iff (himage : 0 < image) (hram : 0 < ramSize) (sec : PeSection) :
    (∀ access ∈ sectionAccesses imagePhys sec, access.Inside ramSize image imageSize fileSize) ↔
      RangeLands ramSize image imageSize (imagePhys + sec.virtualAddress) sec.virtualSize.toNat ∧
        RangeInFile fileSize sec.rawOffset (copySizeOf sec).toNat := by
  have hsize : (copySizeOf sec).toNat ≤ sec.virtualSize.toNat := by
    unfold copySizeOf
    split
    · next hlt => exact Nat.le_of_lt (UInt32.lt_iff_toNat_lt.mp hlt)
    · exact Nat.le_refl _
  rw [← rangeLands_iff himage hram sec.virtualSize.toNat_lt,
    ← rangeInFile_iff (copySizeOf sec).toNat_lt]
  constructor
  · intro h
    have hcopy : ∀ j < (copySizeOf sec).toNat, (LoadAccess.copy (sec.rawOffset + UInt32.ofNat j)
        (imagePhys + sec.virtualAddress + UInt32.ofNat j)).Inside ramSize image imageSize
          fileSize := by
      intro j hj
      exact h _ (List.mem_append_left _ (List.mem_map.mpr ⟨j, List.mem_range.mpr hj, rfl⟩))
    constructor
    · intro j hj
      by_cases hcopied : j < (copySizeOf sec).toNat
      · exact (copy_inside_iff.mp (hcopy j hcopied)).1
      · apply zero_inside_iff.mp
        apply h
        refine List.mem_append_right _ (List.mem_map.mpr ⟨j, ?_, rfl⟩)
        rw [List.mem_range'_1]
        omega
    · exact fun j hj => (copy_inside_iff.mp (hcopy j hj)).2
  · rintro ⟨hstore, hcopy⟩ access haccess
    rcases List.mem_append.mp haccess with haccess | haccess
    · obtain ⟨j, hj, rfl⟩ := List.mem_map.mp haccess
      have hlt := List.mem_range.mp hj
      exact copy_inside_iff.mpr ⟨hstore j (by omega), hcopy j hlt⟩
    · obtain ⟨j, hj, rfl⟩ := List.mem_map.mp haccess
      have hlt := List.mem_range'_1.mp hj
      exact zero_inside_iff.mpr (hstore j (by omega))

/-- The relocations of any number of rounds. -/
theorem relocAccesses_inside_iff :
    (∀ rounds, ∀ access ∈ relocAccesses buf pe imagePhys baseVa rounds,
        access.Inside ramSize image imageSize fileSize) ↔
      (Relocates pe baseVa → ∀ n block, relocOffset buf pe n = some block →
        nextBlock buf pe (relocDir pe).virtualAddress (relocDir pe).size block ≠ none →
          ∀ rva ∈ blockRvas buf pe (relocDir pe).virtualAddress block,
            WordLands ramSize image imageSize (imagePhys + rva)) := by
  unfold relocAccesses
  constructor
  · intro h hruns n block hblock hnext rva hrva
    have hmem : rva ∈ relocRvas buf pe (relocDir pe).virtualAddress (relocDir pe).size (n + 1) 0 :=
      mem_relocRvas_iff.mpr ⟨n, block, n.lt_succ_self, hblock, hnext, hrva⟩
    apply add_inside_iff.mp
    apply h (n + 1)
    rw [if_pos hruns]
    exact List.mem_map.mpr ⟨rva, hmem, rfl⟩
  · intro h rounds access haccess
    split at haccess
    · next hruns =>
      obtain ⟨rva, hrva, rfl⟩ := List.mem_map.mp haccess
      obtain ⟨n, block, -, hblock, hnext, hentry⟩ := mem_relocRvas_iff.mp hrva
      exact add_inside_iff.mpr (h hruns n block hblock hnext rva hentry)
    · cases haccess

/-- A load stays in the memory it has been given and in its file exactly if what the file says of
its headers, sections and relocations does. -/
theorem loadStaysInside_iff (vm : PagedVm) (buf : Nat → UInt8) (pe : PeImage) (baseVa : UInt32)
    (fileSize : Nat) (hram : 0 < vm.mem.ramSize)
    (halloc : (pagingAllocPhys vm pe.sizeOfImage).2 ≠ 0) :
    LoadStaysInside buf pe vm.mem.ramSize (pagingAllocPhys vm pe.sizeOfImage).2 baseVa fileSize ↔
      ImageInside buf pe vm.mem.ramSize (pagingAllocPhys vm pe.sizeOfImage).2 baseVa fileSize := by
  generalize (pagingAllocPhys vm pe.sizeOfImage).2 = imagePhys at halloc ⊢
  have himage : 0 < imagePhys.toNat := by
    have hne : imagePhys.toNat ≠ 0 := fun h => halloc (UInt32.toNat_inj.mp h)
    omega
  have hsplit : LoadStaysInside buf pe vm.mem.ramSize imagePhys baseVa fileSize ↔
      ((∀ access ∈ headerAccesses pe imagePhys, access.Inside vm.mem.ramSize imagePhys.toNat
          (pagesFor pe.sizeOfImage) fileSize) ∧
        ∀ sec ∈ pe.sections, ∀ access ∈ sectionAccesses imagePhys sec,
          access.Inside vm.mem.ramSize imagePhys.toNat (pagesFor pe.sizeOfImage) fileSize) ∧
      ∀ rounds, ∀ access ∈ relocAccesses buf pe imagePhys baseVa rounds,
        access.Inside vm.mem.ramSize imagePhys.toNat (pagesFor pe.sizeOfImage) fileSize := by
    unfold LoadStaysInside loadAccesses copyAccesses
    simp only [List.forall_mem_append, List.forall_mem_flatMap]
    exact forall_and.trans (and_congr_left fun _ => forall_const _)
  rw [hsplit, headerAccesses_inside_iff himage hram, relocAccesses_inside_iff]
  simp only [sectionAccesses_inside_iff himage hram]
  constructor
  · rintro ⟨⟨⟨hheaders, hfile⟩, hsections⟩, hrelocs⟩
    exact ⟨hheaders, hfile, fun sec hsec => (hsections sec hsec).1,
      fun sec hsec => (hsections sec hsec).2, hrelocs⟩
  · intro h
    exact ⟨⟨⟨h.headers, h.headersInFile⟩, fun sec hsec => ⟨h.sections sec hsec,
      h.sectionsInFile sec hsec⟩⟩, h.relocations⟩

end Inside

section Example

/-- The section of one byte at RVA 0x2000 is cleared behind the image's only page. -/
theorem loadAccesses_leave_image :
    ¬ ∀ (heap : HostHeap) (content : List UInt8) (pe : PeImage) (vm : PagedVm) (baseVa : UInt32),
      (peLoad heap.pe content (fileBuffer content heap.behind)).2.toOption = some pe →
        0 < vm.mem.ramSize → (pagingAllocPhys vm pe.sizeOfImage).2 ≠ 0 →
          LoadStaysInside (fileBuffer content heap.behind) pe vm.mem.ramSize
            (pagingAllocPhys vm pe.sizeOfImage).2 baseVa content.length := by
  intro h
  have hpe : (peLoad roomyHeap.pe
      (peFile (peHeader 0x400000 0x1000 0) [] (namelessSection 1 0x2000 0 0) [])
      (fileBuffer (peFile (peHeader 0x400000 0x1000 0) [] (namelessSection 1 0x2000 0 0) [])
        roomyHeap.behind)).2.toOption =
      some (peImageOf (peHeader 0x400000 0x1000 0) [] (namelessSection 1 0x2000 0 0)) := by
    decide +kernel
  have hphys : (pagingAllocPhys (loaderStart fun _ => 0).vm 0x1000).2 = 0x200000 := by
    decide +kernel
  have hram : 0x202000 < (loaderStart fun _ => 0).vm.mem.ramSize := by
    rw [loaderStart_ramSize]
    decide
  have hinside := h roomyHeap _ _ (loaderStart fun _ => 0).vm 0x400000 hpe
    (Nat.zero_lt_of_lt hram)
    (fun hzero => absurd (hphys.symm.trans hzero) (by decide)) 0 (.zero 0x202000)
  have hsize : (peImageOf (peHeader 0x400000 0x1000 0) []
      (namelessSection 1 0x2000 0 0)).sizeOfImage = 0x1000 := rfl
  rw [hsize, hphys] at hinside
  have hstore := zero_inside_iff.mp (hinside (by decide +kernel)) hram
  exact absurd hstore.2 (by decide)

/-- The image whose section is empty stays inside. -/
theorem small_staysInside :
    LoadStaysInside (fileBuffer (smallPe 0x400000) fun _ => 0) (smallImage 0x400000)
      (loaderStart fun _ => 0).vm.mem.ramSize
      (pagingAllocPhys (loaderStart fun _ => 0).vm 0x1000).2 0x400000
      (smallPe 0x400000).length := by
  have halloc : (pagingAllocPhys (loaderStart fun _ => 0).vm 0x1000).2 ≠ 0 := by decide +kernel
  have hram : 0 < (loaderStart fun _ => 0).vm.mem.ramSize := by
    rw [loaderStart_ramSize]
    decide
  apply (loadStaysInside_iff (loaderStart fun _ => 0).vm _ (smallImage 0x400000) 0x400000 _ hram
    halloc).mpr
  have hown : ¬ Relocates (smallImage 0x400000) 0x400000 := by decide
  constructor
  · exact Or.inl rfl
  · exact Nat.zero_le _
  · intro sec hsec
    rw [List.mem_singleton.mp hsec]
    exact Or.inl rfl
  · intro sec hsec
    rw [List.mem_singleton.mp hsec]
    exact Or.inl rfl
  · exact fun hruns => absurd hruns hown

end Example

end Wbox.Loader
