import Wbox.Lib.Trace
import Wbox.Loader.Relocations

/-!
# Where images are placed

The range of an image is taken from its file: nothing looks for free addresses, and
`paging_map_range` replaces what is mapped. If every image finds its range free and its writes
stay in its own frames, the images are apart and a load changes no byte of another one.
-/

namespace Wbox.Loader

open Wbox.Lib Wbox.Nt Wbox.Pe Wbox.Vm

/-- The address is in a range of the address space. -/
def InRange (base size x : UInt32) : Prop := x - base < size

/-- The address is in the module. -/
def LoadedModule.Has (mod : LoadedModule) (x : UInt32) : Prop := InRange mod.baseVa mod.size x

/-- The address is in the heap region of the guest. -/
def InHeapRegion (x : UInt32) : Prop := InRange heapRegionVa heapRegionSize x

/-- The modules are apart from each other and from the heap region. -/
structure ImagesApart (r : ImageVm) : Prop where
  modules : r.modules.Pairwise fun mod mod' => ∀ x, ¬ (mod.Has x ∧ mod'.Has x)
  heap : ∀ mod ∈ r.modules, ∀ x, ¬ (mod.Has x ∧ InHeapRegion x)

/-- Every mapped address of a module of the first state reads the same. -/
def ImagesKept (r r' : ImageVm) : Prop :=
  ∀ mod ∈ r.modules, ∀ x, mod.Has x → r.vm.readVirt x ≠ none →
    r'.vm.readVirt x = r.vm.readVirt x

/-- In every state of a run the images are apart, and every load keeps what was loaded before. -/
structure ImagesSeparate (ops : List LoaderOp) (tr : List ImageVm) : Prop where
  apart : ∀ r ∈ tr, ImagesApart r
  kept : ∀ k op r r', ops[k]? = some op → op.IsLoad → tr[k]? = some r → tr[k + 1]? = some r' →
    ImagesKept r r'

/-- A range is free: no module and not the heap region has an address of it. -/
structure RangeFree (r : ImageVm) (base size : UInt32) : Prop where
  modules : ∀ mod ∈ r.modules, ∀ x, ¬ (InRange base size x ∧ mod.Has x)
  heap : ∀ x, ¬ (InRange base size x ∧ InHeapRegion x)

/-- The RVAs of the relocations of an image that is loaded at a base. -/
def relocTargets (buf : Nat → UInt8) (pe : PeImage) (baseVa : UInt32) : List UInt32 :=
  let dir := pe.dataDirs.getD imageDirectoryEntryBasereloc ⟨0, 0⟩
  if baseVa = pe.imageBase then []
  else relocRvas buf pe dir.virtualAddress dir.size (2 ^ 32 + 1) 0

/-- No header, section or relocation of an image leads to an address before its memory. -/
structure WritesAbove (buf : Nat → UInt8) (pe : PeImage) (baseVa imagePhys : UInt32) : Prop where
  headers : ∀ j < pe.sizeOfHeaders.toNat, imagePhys ≤ imagePhys + UInt32.ofNat j
  sections : ∀ sec ∈ pe.sections, ∀ j < sec.virtualSize.toNat,
    imagePhys ≤ imagePhys + sec.virtualAddress + UInt32.ofNat j
  relocations : ∀ rva ∈ relocTargets buf pe baseVa, imagePhys ≤ imagePhys + rva

/-- An image that is not refused finds its range free, shares no page with another module and
stays in its own memory. -/
structure ImageFits (r : ImageVm) (buf : Nat → UInt8) (pe : PeImage) (baseVa : UInt32) :
    Prop where
  free : RangeFree r baseVa pe.sizeOfImage
  pages : ∀ page ∈ pagesOfRange baseVa r.vm.paging.physAllocPtr pe.sizeOfImage,
    ∀ mod ∈ r.modules, ∀ x, mod.Has x → x &&& pageMask ≠ page.1 &&& pageMask
  writes : WritesAbove buf pe baseVa r.vm.paging.physAllocPtr

/-- The image of a file, if it is one and there is memory for it. -/
def LoaderHost.imageOf (host : LoaderHost) (r : ImageVm) (heap : HostHeap) (path : List UInt8) :
    Option ((Nat → UInt8) × PeImage) :=
  match host.parse heap path with
  | none => none
  | some (buf, pe) =>
      if heap.module = false ∨ (pagingAllocPhys r.vm pe.sizeOfImage).2 = 0 then none
      else some (buf, pe)

/-- The file a load is for, and the base it asks for. -/
def LoaderHost.target (host : LoaderHost) (r : ImageVm) :
    LoaderOp → Option (HostHeap × List UInt8 × UInt32)
  | .loadExecutable heap path => some (heap, path, 0)
  | .loadByName heap dllName =>
      if (moduleFindByName r.modules dllName).isSome then none
      else (host.request dllName).map fun found => (heap, found.1, found.2)
  | _ => none

/-- The range of an image that is going to be loaded is free. -/
def LoadsApart (host : LoaderHost) (r : ImageVm) (op : LoaderOp) : Prop :=
  ∀ heap path preferredBase buf pe, host.target r op = some (heap, path, preferredBase) →
    host.imageOf r heap path = some (buf, pe) →
      RangeFree r (loadBase preferredBase pe) pe.sizeOfImage

/-- An image that is going to be loaded fits; so does a region; and what is written to a region
is not before the allocation area. -/
def LoadFits (host : LoaderHost) (r : ImageVm) (op : LoaderOp) : Prop :=
  (∀ heap path preferredBase buf pe, host.target r op = some (heap, path, preferredBase) →
    host.imageOf r heap path = some (buf, pe) →
      ImageFits r buf pe (loadBase preferredBase pe) ∧
        RegionFits r.vm (loadBase preferredBase pe) pe.sizeOfImage) ∧
  match op with
  | .region va size _ => RegionFits r.vm va size
  | .writeRegion addr _ => r.vm.paging.physAllocBase ≤ addr
  | _ => True

/-- The invariant: the page tables are in order, and the images apart. -/
structure ImagesInv (r : ImageVm) : Prop where
  tables : PageTables r.vm
  apart : ImagesApart r

variable {host : LoaderHost} {r r' : ImageVm} {op : LoaderOp} {buf : Nat → UInt8} {pe : PeImage}
  {imagePhys delta relocRva relocSize : UInt32} {mem mem' : PhysMem}

section Writes

/-- The bytes before an image's memory. -/
def BelowImage (imagePhys : UInt32) : Set Nat := {x | x < imagePhys.toNat}

/-- A write that is not before the image's memory. -/
theorem sameOn_above_writeb {a : UInt32} (ha : imagePhys ≤ a) (mem : PhysMem) (v : UInt8) :
    SameOn (BelowImage imagePhys) mem (memWritebPhys mem a v) := by
  apply (sameOn_writeb mem a v).mono
  intro x hx
  have hlt : x < imagePhys.toNat := hx
  have hle := UInt32.le_iff_toNat_le.mp ha
  exact Or.inl (Nat.lt_of_lt_of_le hlt hle)

theorem sameOn_above_writel {a : UInt32} (ha : imagePhys ≤ a) (mem : PhysMem) (v : UInt32) :
    SameOn (BelowImage imagePhys) mem (memWritelPhys mem a v) := by
  apply (sameOn_writel mem a v).mono
  intro x hx
  have hlt : x < imagePhys.toNat := hx
  have hle := UInt32.le_iff_toNat_le.mp ha
  exact Or.inl (Nat.lt_of_lt_of_le hlt hle)

theorem sameOn_copyBytes {dst : UInt32} {src : Nat → UInt8} {js : List Nat}
    (h : ∀ j ∈ js, imagePhys ≤ dst + UInt32.ofNat j) (mem : PhysMem) :
    SameOn (BelowImage imagePhys) mem (copyBytes mem dst src js) :=
  .foldl (fun mem j hj => sameOn_above_writeb (h j hj) mem (src j)) mem

/-- The headers and sections stay in the image's memory, or lie behind it. -/
theorem sameOn_copyImage {baseVa : UInt32} (h : WritesAbove buf pe baseVa imagePhys)
    (mem : PhysMem) : SameOn (BelowImage imagePhys) mem (copyImage buf pe imagePhys mem) := by
  have hheaders : SameOn (BelowImage imagePhys) mem
      (copyBytes mem imagePhys buf (List.range pe.sizeOfHeaders.toNat)) :=
    sameOn_copyBytes (fun j hj => h.headers j (List.mem_range.mp hj)) mem
  refine hheaders.trans (.foldl ?_ _)
  intro mem sec hsec
  have hsize : (if sec.rawSize < sec.virtualSize then sec.rawSize else sec.virtualSize).toNat ≤
      sec.virtualSize.toNat := by
    split
    · next hlt => exact Nat.le_of_lt (UInt32.lt_iff_toNat_lt.mp hlt)
    · exact Nat.le_refl _
  unfold copySection
  dsimp only
  refine (sameOn_copyBytes ?_ mem).trans (sameOn_copyBytes ?_ _)
  · intro j hj
    have hlt := List.mem_range.mp hj
    exact h.sections sec hsec j (by omega)
  · intro j hj
    have hlt := List.mem_range'_1.mp hj
    exact h.sections sec hsec j (by omega)

/-- The loop over the relocation blocks writes at the RVAs it meets. -/
theorem sameOn_relocBlocks {fuel : Nat} {offset : UInt32}
    (h : ∀ rva ∈ relocRvas buf pe relocRva relocSize fuel offset, imagePhys ≤ imagePhys + rva)
    (hrun : relocBlocks buf pe imagePhys delta relocRva relocSize fuel offset mem = some mem') :
    SameOn (BelowImage imagePhys) mem mem' := by
  induction fuel generalizing offset mem with
  | zero => cases hrun
  | succ fuel ih =>
    rw [relocBlocks] at hrun
    rw [relocRvas] at h
    split at hrun
    · next hoffset =>
      rw [if_pos hoffset] at h
      dsimp only at h hrun
      split at hrun
      · rw [← Option.some.inj hrun]
        exact .refl _ mem
      · next hblock =>
        rw [if_neg hblock] at h
        rw [foldl_relocEntry] at hrun
        refine (SameOn.foldl (fun mem rva hrva => ?_) mem).trans (ih ?_ hrun)
        · exact sameOn_above_writel (h rva (List.mem_append_left _ hrva)) _ _
        exact fun rva hrva => h rva (List.mem_append_right _ hrva)
    · rw [← Option.some.inj hrun]
      exact .refl _ mem

theorem sameOn_applyRelocations {baseVa : UInt32} (h : WritesAbove buf pe baseVa imagePhys)
    (hrun : applyRelocations buf pe imagePhys baseVa mem = some mem') :
    SameOn (BelowImage imagePhys) mem mem' := by
  unfold applyRelocations at hrun
  dsimp only at hrun
  split at hrun
  · next happlies =>
    have htargets := h.relocations
    unfold relocTargets at htargets
    rw [if_neg happlies.2] at htargets
    exact sameOn_relocBlocks htargets hrun
  · rw [← Option.some.inj hrun]
    exact .refl _ mem

end Writes

section Steps

variable {heap : HostHeap} {path : List UInt8} {preferredBase : UInt32} {isMainExe : Bool}

/-- The module a load makes of an image. -/
def LoadedModule.ofImage (r : ImageVm) (path : List UInt8) (preferredBase : UInt32)
    (isMainExe : Bool) (pe : PeImage) : LoadedModule :=
  newModule path pe (loadBase preferredBase pe) (pagingAllocPhys r.vm pe.sizeOfImage).2 isMainExe

/-- A load leaves the modules, or places the image of its file. -/
theorem loadPeInternal_cases
    (h : loadPeInternal host r heap path preferredBase isMainExe = some r') :
    (host.imageOf r heap path = none ∧ r'.modules = r.modules ∧
        (r.vm.paging.physAllocPtr ≠ 0 → r' = r)) ∨
      ∃ buf pe, host.imageOf r heap path = some (buf, pe) ∧
        (pagingAllocPhys r.vm pe.sizeOfImage).2 ≠ 0 ∧
        placeImage r buf (pagingAllocPhys r.vm pe.sizeOfImage).1
          (.ofImage r path preferredBase isMainExe pe) = some r' := by
  unfold loadPeInternal at h
  unfold LoaderHost.imageOf
  cases hparse : host.parse heap path with
  | none =>
    rw [hparse] at h
    have hsame : r' = r := (Option.some.inj h).symm
    exact Or.inl ⟨rfl, congrArg ImageVm.modules hsame, fun _ => hsame⟩
  | some found =>
    obtain ⟨buf, pe⟩ := found
    rw [hparse] at h
    dsimp only at h ⊢
    split at h
    · next hmodule =>
      have hsame : r' = r := (Option.some.inj h).symm
      exact Or.inl ⟨if_pos (Or.inl hmodule), congrArg ImageVm.modules hsame, fun _ => hsame⟩
    · next hmodule =>
      split at h
      · next hfull =>
        left
        refine ⟨if_pos (Or.inr hfull), by rw [← Option.some.inj h], ?_⟩
        intro hptr
        rcases pagingAllocPhys_cases r.vm pe.sizeOfImage with ⟨-, hfail⟩ | ⟨-, hok, -⟩
        · rw [hfail] at h
          exact (Option.some.inj h).symm
        · exact absurd (hok.symm.trans hfull) hptr
      · next hroom =>
        right
        refine ⟨buf, pe, if_neg (not_or.mpr ⟨hmodule, hroom⟩), hroom, ?_⟩
        rw [LoadedModule.ofImage]
        exact h

/-- A step leaves the modules, and a load then everything; or it places the image of the file it
is for. -/
theorem loaderStep_cases (h : loaderStep host r op = some r') :
    ((∀ heap path preferredBase, host.target r op = some (heap, path, preferredBase) →
          host.imageOf r heap path = none) ∧
        r'.modules = r.modules ∧ (op.IsLoad → r.vm.paging.physAllocPtr ≠ 0 → r' = r)) ∨
      ∃ heap path preferredBase isMainExe buf pe,
        host.target r op = some (heap, path, preferredBase) ∧
        host.imageOf r heap path = some (buf, pe) ∧
        (pagingAllocPhys r.vm pe.sizeOfImage).2 ≠ 0 ∧
        placeImage r buf (pagingAllocPhys r.vm pe.sizeOfImage).1
          (.ofImage r path preferredBase isMainExe pe) = some r' := by
  cases op with
  | region va size flags =>
    left
    refine ⟨fun _ _ _ htarget => (nomatch htarget), ?_, fun hload => hload.elim⟩
    simp only [loaderStep] at h
    split at h
    · rw [← Option.some.inj h]
    · rw [← Option.some.inj h]
  | writeRegion addr val =>
    left
    refine ⟨fun _ _ _ htarget => (nomatch htarget), ?_, fun hload => hload.elim⟩
    rw [← Option.some.inj h]
  | writeVirt va val =>
    left
    refine ⟨fun _ _ _ htarget => (nomatch htarget), ?_, fun hload => hload.elim⟩
    simp only [loaderStep] at h
    split at h
    · rw [← Option.some.inj h]
    · rw [← Option.some.inj h]
  | loadExecutable heap path =>
    rcases loadPeInternal_cases h with ⟨himage, hmodules, hsame⟩ | ⟨buf, pe, himage, hplaced⟩
    · left
      refine ⟨?_, hmodules, fun _ => hsame⟩
      intro heap' path' base' htarget
      cases htarget
      exact himage
    · exact Or.inr ⟨heap, path, 0, true, buf, pe, rfl, himage, hplaced⟩
  | loadByName heap dllName =>
    have hload : moduleLoadByName host r heap dllName = some r' := h
    unfold moduleLoadByName at hload
    cases hfind : moduleFindByName r.modules dllName with
    | some mod =>
      have htarget : host.target r (.loadByName heap dllName) = none := by
        simp only [LoaderHost.target, hfind, Option.isSome_some, if_true]
      rw [hfind] at hload
      have hsame : r' = r := (Option.some.inj hload).symm
      rw [htarget]
      exact Or.inl ⟨fun _ _ _ hnone => (nomatch hnone), congrArg ImageVm.modules hsame,
        fun _ _ => hsame⟩
    | none =>
      have htarget : host.target r (.loadByName heap dllName) =
          (host.request dllName).map fun found => (heap, found.1, found.2) := by
        simp only [LoaderHost.target, hfind, Option.isSome_none, Bool.false_eq_true, if_false]
      rw [hfind] at hload
      rw [htarget]
      cases hrequest : host.request dllName with
      | none =>
        rw [hrequest] at hload
        have hsame : r' = r := (Option.some.inj hload).symm
        exact Or.inl ⟨fun _ _ _ hnone => (nomatch hnone),
          congrArg ImageVm.modules hsame, fun _ _ => hsame⟩
      | some found =>
        obtain ⟨path, preferredBase⟩ := found
        rw [hrequest] at hload
        rcases loadPeInternal_cases hload with
          ⟨himage, hmodules, hsame⟩ | ⟨buf, pe, himage, hplaced⟩
        · left
          refine ⟨?_, hmodules, fun _ => hsame⟩
          intro heap' path' base' hsome
          cases hsome
          exact himage
        · exact Or.inr ⟨heap, path, preferredBase, false, buf, pe, rfl, himage, hplaced⟩

/-- Placing an image adds its module. -/
theorem placeImage_modules {vm : PagedVm} {mod : LoadedModule}
    (h : placeImage r buf vm mod = some r') : r'.modules = mod :: r.modules := by
  unfold placeImage at h
  obtain ⟨mem, -, rfl⟩ := Option.map_eq_some_iff.mp h
  rfl

/-- With a new module the images are apart if they were and its range was free. -/
theorem imagesApart_cons {mod : LoadedModule} (hmodules : r'.modules = mod :: r.modules) :
    ImagesApart r' ↔ RangeFree r mod.baseVa mod.size ∧ ImagesApart r := by
  constructor
  · intro h
    have hmods := h.modules
    have hheap := h.heap
    rw [hmodules] at hmods hheap
    obtain ⟨hnew, hold⟩ := List.pairwise_cons.mp hmods
    exact ⟨⟨hnew, hheap mod List.mem_cons_self⟩,
      ⟨hold, fun other hother => hheap other (List.mem_cons_of_mem mod hother)⟩⟩
  · rintro ⟨hfree, hold⟩
    constructor
    · rw [hmodules]
      exact List.pairwise_cons.mpr ⟨hfree.modules, hold.modules⟩
    · rw [hmodules]
      intro other hother
      rcases List.mem_cons.mp hother with rfl | hother
      · exact hfree.heap
      · exact hold.heap other hother

/-- The images are apart after a step exactly if they were and the load, if it is one that places
an image, finds its range free. -/
theorem loaderStep_apart (h : loaderStep host r op = some r') :
    ImagesApart r' ↔ LoadsApart host r op ∧ ImagesApart r := by
  rcases loaderStep_cases h with ⟨hnone, hmodules, -⟩ |
    ⟨heap, path, preferredBase, isMainExe, buf, pe, htarget, himage, -, hplaced⟩
  · have hloads : LoadsApart host r op := by
      intro heap path preferredBase buf pe htarget himage
      rw [hnone heap path preferredBase htarget] at himage
      cases himage
    constructor
    · intro hapart
      exact ⟨hloads, ⟨hmodules ▸ hapart.modules, hmodules ▸ hapart.heap⟩⟩
    · rintro ⟨-, hapart⟩
      exact ⟨hmodules ▸ hapart.modules, hmodules ▸ hapart.heap⟩
  · rw [imagesApart_cons (placeImage_modules hplaced)]
    refine and_congr_left fun _ => ?_
    constructor
    · intro hfree heap' path' base' buf' pe' htarget' himage'
      obtain ⟨rfl, rfl, rfl⟩ : heap = heap' ∧ path = path' ∧ preferredBase = base' := by
        rw [htarget] at htarget'
        cases htarget'
        exact ⟨rfl, rfl, rfl⟩
      rw [himage] at himage'
      cases himage'
      exact hfree
    · intro hloads
      exact hloads heap path preferredBase buf pe htarget himage

/-- An image that fits is placed without changing what was mapped elsewhere. -/
theorem placeImage_kept (h : PageTables r.vm) {baseVa : UInt32} {mod : LoadedModule}
    (halloc : (pagingAllocPhys r.vm pe.sizeOfImage).2 ≠ 0) (hfits : ImageFits r buf pe baseVa)
    (hregion : RegionFits r.vm baseVa pe.sizeOfImage)
    (hpe : mod.pe = pe) (hbase : mod.baseVa = baseVa) (hsize : mod.size = pe.sizeOfImage)
    (hphys : mod.physBase = (pagingAllocPhys r.vm pe.sizeOfImage).2)
    (hplaced : placeImage r buf (pagingAllocPhys r.vm pe.sizeOfImage).1 mod = some r') :
    PageTables r'.vm ∧ ImagesKept r r' := by
  obtain ⟨hle, -⟩ := hregion.of_alloc halloc
  obtain ⟨-, hptr, -⟩ := h.allocPhys hle
  unfold placeImage at hplaced
  obtain ⟨mem, hmem, hr'⟩ := Option.map_eq_some_iff.mp hplaced
  rw [hpe, hbase, hphys, hptr] at hmem
  have hfill : SameOn {x | x < r.vm.paging.physAllocPtr.toNat}
      (pagingAllocPhys r.vm pe.sizeOfImage).1.mem mem :=
    (sameOn_copyImage hfits.writes _).trans (sameOn_applyRelocations hfits.writes hmem)
  obtain ⟨htables, hreads⟩ := h.mapRegion hregion halloc
    (show PagedVm.paging ⟨(pagingAllocPhys r.vm pe.sizeOfImage).1.paging, mem⟩ = _ from rfl) hfill
    (pteUser ||| pteWritable)
  rw [hbase, hphys, hsize] at hr'
  subst hr'
  refine ⟨htables, ?_⟩
  intro other hother x hx hmapped
  exact hreads x (fun page hpage => hfits.pages page hpage other hother x hx) hmapped

/-- A step that meets its condition keeps the page tables in order, and a load what was loaded. -/
theorem loaderStep_tables (h : PageTables r.vm) (hfit : LoadFits host r op)
    (hstep : loaderStep host r op = some r') :
    PageTables r'.vm ∧ (op.IsLoad → ImagesKept r r') := by
  have hptr : r.vm.paging.physAllocPtr ≠ 0 := by
    have hfirst := h.first
    have hlast := h.last
    have hlow := h.low
    intro hzero
    rw [hzero] at hlow
    simp only [UInt32.toNat_zero] at hlow
    omega
  rcases loaderStep_cases hstep with ⟨-, -, hsame⟩ |
    ⟨heap, path, preferredBase, isMainExe, buf, pe, htarget, himage, halloc, hplaced⟩
  · by_cases hload : op.IsLoad
    · rw [hsame hload hptr]
      exact ⟨h, fun _ _ _ _ _ _ => rfl⟩
    · refine ⟨?_, fun hl => absurd hl hload⟩
      cases op with
      | region va size flags =>
        simp only [loaderStep] at hstep
        split at hstep
        · next hfull =>
          rcases pagingAllocPhys_cases r.vm size with ⟨-, hfail⟩ | ⟨-, hok, -⟩
          · rw [← Option.some.inj hstep, hfail]
            exact h
          · exact absurd (hok.symm.trans hfull) hptr
        · next halloc =>
          rw [← Option.some.inj hstep]
          exact (h.mapRegion hfit.2 halloc rfl (.refl _ _) flags).1
      | writeRegion addr val =>
        rw [← Option.some.inj hstep]
        exact (h.sameOn (sameOn_above_writel hfit.2 r.vm.mem val)).1
      | writeVirt va val =>
        simp only [loaderStep] at hstep
        split at hstep
        · rw [← Option.some.inj hstep]
          exact h
        · next hmapped =>
          have habove := UInt32.le_iff_toNat_le.mpr (h.translate_frame hmapped).1
          rw [← Option.some.inj hstep]
          exact (h.sameOn (sameOn_above_writel habove r.vm.mem val)).1
      | loadExecutable heap path => exact absurd trivial hload
      | loadByName heap dllName => exact absurd trivial hload
  · obtain ⟨hfits, hregion⟩ := hfit.1 heap path preferredBase buf pe htarget himage
    obtain ⟨htables, hkept⟩ := placeImage_kept h halloc hfits hregion rfl rfl rfl rfl hplaced
    exact ⟨htables, fun _ => hkept⟩

end Steps

section Runs

variable {ops : List LoaderOp} {tr : List ImageVm}

/-- After `vm_init` the page tables are in order and nothing is loaded. -/
theorem loaderStart_inv (ram : Nat → UInt8) : ImagesInv (loaderStart ram) := by
  constructor
  · refine pagingInit_tables ⟨by decide, by decide⟩ (Nat.le_refl _)
  · exact ⟨List.Pairwise.nil, fun _ hmod => (nomatch hmod)⟩

/-- What fits finds its range free. -/
theorem LoadFits.apart (h : LoadFits host r op) : LoadsApart host r op :=
  fun heap path preferredBase buf pe htarget himage =>
    (h.1 heap path preferredBase buf pe htarget himage).1.free

/-- A run stays apart exactly as long as every image finds its range free. -/
theorem loaderRun_apart_iff (hrun : trace (loaderStep host) r ops = some tr) (h : ImagesApart r) :
    (∀ s ∈ tr, ImagesApart s) ↔ Guarded (loaderStep host) (LoadsApart host) r ops :=
  trace_forall_iff_guarded (fun _ h => h)
    (fun _ _ _ hi hok hs => (loaderStep_apart hs).mpr ⟨hok, hi⟩)
    (fun _ _ _ _ hbad hs hb => hbad ((loaderStep_apart hs).mp hb).1) h hrun

/-- A run whose steps meet their condition keeps the images apart and what was loaded. -/
theorem loaderRun_separate (hrun : trace (loaderStep host) r ops = some tr) (h : ImagesInv r)
    (hg : Guarded (loaderStep host) (LoadFits host) r ops) : ImagesSeparate ops tr := by
  have hstep : ∀ a e b, ImagesInv a → LoadFits host a e → loaderStep host a e = some b →
      ImagesInv b := by
    intro a e b hi hok hs
    exact ⟨(loaderStep_tables hi.tables hok hs).1, (loaderStep_apart hs).mpr ⟨hok.apart, hi.apart⟩⟩
  have hinv := trace_invariant hstep h hrun hg
  constructor
  · intro s hs
    exact (hinv s hs).apart
  · intro k op a b hop hload ha hb
    obtain ⟨e, he, hok, hs⟩ := trace_step_at hrun hg ha hb
    obtain rfl : op = e := Option.some.inj (hop.symm.trans he)
    exact (loaderStep_tables (hinv a (List.mem_of_getElem? ha)).tables hok hs).2 hload

/-- After `vm_init` the images stay apart exactly as long as every load finds its range free; if
regions and images also fit, and images stay in their own memory, no load changes another image. -/
theorem loaderRun_images_iff (ram : Nat → UInt8)
    (hrun : trace (loaderStep host) (loaderStart ram) ops = some tr) :
    ((∀ r ∈ tr, ImagesApart r) ↔
        Guarded (loaderStep host) (LoadsApart host) (loaderStart ram) ops) ∧
      (Guarded (loaderStep host) (LoadFits host) (loaderStart ram) ops → ImagesSeparate ops tr) :=
  ⟨loaderRun_apart_iff hrun (loaderStart_inv ram).apart,
    loaderRun_separate hrun (loaderStart_inv ram)⟩

end Runs

section Example

/-- The machine in which nothing is loaded and memory is 0. -/
def zeroStart : ImageVm := loaderStart fun _ => 0

/-- The file /a is loaded. -/
def loadA : LoaderOp := .loadExecutable roomyHeap (ascii "/a")

/-- The host whose only file is the small image. -/
def smallHost (imageBase : UInt32) : LoaderHost := hostOf (smallPe imageBase)

variable {imageBase : UInt32}

theorem smallHost_imageOf
    (h : (peLoad ⟨true, true⟩ (smallPe imageBase)
      (fileBuffer (smallPe imageBase) fun _ => 0)).2.toOption = some (smallImage imageBase)) :
    (smallHost imageBase).imageOf zeroStart roomyHeap (ascii "/a") =
      some (fileBuffer (smallPe imageBase) fun _ => 0, smallImage imageBase) := by
  have halloc : (pagingAllocPhys zeroStart.vm 0x1000).2 ≠ 0 := by decide +kernel
  unfold LoaderHost.imageOf smallHost
  rw [hostOf_parse h]
  exact if_neg (not_or.mpr ⟨by decide, halloc⟩)

/-- The small image is loaded. -/
theorem smallHost_trace
    (h : (peLoad ⟨true, true⟩ (smallPe imageBase)
      (fileBuffer (smallPe imageBase) fun _ => 0)).2.toOption = some (smallImage imageBase)) :
    ∃ r, loaderStep (smallHost imageBase) zeroStart loadA = some r ∧
      trace (loaderStep (smallHost imageBase)) zeroStart [loadA] = some [zeroStart, r] := by
  have halloc : (pagingAllocPhys zeroStart.vm 0x1000).2 ≠ 0 := by decide +kernel
  have hstep : (loaderStep (smallHost imageBase) zeroStart loadA).isSome = true := by
    show (loadPeInternal (smallHost imageBase) zeroStart roomyHeap (ascii "/a") 0 true).isSome = true
    unfold loadPeInternal smallHost
    rw [hostOf_parse h]
    simp only [show (smallImage imageBase).sizeOfImage = 0x1000 from rfl, if_neg halloc]
    rfl
  obtain ⟨r, hr⟩ := Option.isSome_iff_exists.mp hstep
  exact ⟨r, hr, by simp [trace, hr]⟩

/-- An executable with the base of the heap region is loaded there. -/
theorem loaderRun_overlaps_heap :
    ¬ ∀ host ram ops tr, trace (loaderStep host) (loaderStart ram) ops = some tr →
      ImagesSeparate ops tr := by
  intro h
  have hpe : (peLoad ⟨true, true⟩ (smallPe heapRegionVa)
      (fileBuffer (smallPe heapRegionVa) fun _ => 0)).2.toOption =
        some (smallImage heapRegionVa) := by decide +kernel
  obtain ⟨r, hstep, htrace⟩ := smallHost_trace hpe
  have hapart : ImagesApart r := (h _ _ _ _ htrace).apart r (by simp)
  have hloads := ((loaderStep_apart hstep).mp hapart).1
  have hfree := hloads roomyHeap (ascii "/a") 0 _ _ rfl (smallHost_imageOf hpe)
  refine hfree.heap heapRegionVa ⟨?_, ?_⟩
  · show heapRegionVa - heapRegionVa < 0x1000
    decide
  · show heapRegionVa - heapRegionVa < heapRegionSize
    decide

/-- The image fits at 4 MB, which is free. -/
theorem small_imageFits :
    ImageFits zeroStart (fileBuffer (smallPe 0x400000) fun _ => 0) (smallImage 0x400000)
      (loadBase 0 (smallImage 0x400000)) := by
  have hbase : loadBase 0 (smallImage 0x400000) = 0x400000 := by decide
  rw [hbase]
  constructor
  · constructor
    · exact fun mod hmod => nomatch hmod
    · intro x ⟨hx, hheap⟩
      have hlow : x - 0x400000 < 0x1000 := hx
      have hhigh : x - heapRegionVa < heapRegionSize := hheap
      have hva : heapRegionVa.toNat = 0x10000000 := by decide
      have hsize : heapRegionSize.toNat = 0x1000000 := by decide
      rw [UInt32.lt_iff_toNat_lt, UInt32.toNat_sub] at hlow hhigh
      rw [hva, hsize] at hhigh
      simp only [UInt32.reduceToNat] at hlow
      omega
  · exact fun page _ mod hmod => nomatch hmod
  · constructor
    · exact fun j hj => absurd hj (Nat.not_lt_zero j)
    · intro sec hsec j hj
      rw [List.mem_singleton.mp hsec] at hj
      exact absurd hj (Nat.not_lt_zero j)
    · exact fun rva hrva => nomatch hrva

/-- The small image at 4 MB is apart from everything. -/
theorem loaderRun_small_separate :
    ∃ tr, trace (loaderStep (smallHost 0x400000)) (loaderStart fun _ => 0) [loadA] = some tr ∧
      ImagesSeparate [loadA] tr := by
  have hpe : (peLoad ⟨true, true⟩ (smallPe 0x400000)
      (fileBuffer (smallPe 0x400000) fun _ => 0)).2.toOption = some (smallImage 0x400000) := by
    decide +kernel
  obtain ⟨r, hstep, htrace⟩ := smallHost_trace hpe
  refine ⟨_, htrace, (loaderRun_images_iff _ htrace).2 ⟨⟨?_, trivial⟩, fun _ _ => trivial⟩⟩
  intro heap path preferredBase buf pe htarget himage
  cases htarget
  have himage' := smallHost_imageOf hpe
  unfold zeroStart at himage'
  rw [himage'] at himage
  obtain ⟨rfl, rfl⟩ := Prod.mk.inj (Option.some.inj himage)
  refine ⟨small_imageFits, Or.inr ⟨by decide +kernel, .of_length ?_⟩⟩
  decide +kernel

end Example

end Wbox.Loader
