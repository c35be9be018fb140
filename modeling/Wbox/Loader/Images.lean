import Wbox.Nt.DllSearch
import Wbox.Nt.Heap
import Wbox.Pe.Load
import Wbox.Vm.Translation

/-!
# Loading images

`load_pe_internal` and `module_load_by_name` of `src/loader/loader.c:52–243`: an image is copied
to fresh memory, relocated and mapped at its own base. Between the loads the loader maps regions
for itself and patches the import tables.
-/

namespace Wbox.Loader

open Wbox.Host Wbox.Lib Wbox.Nt Wbox.Pe Wbox.Vm

/-- `IMAGE_DIRECTORY_ENTRY_BASERELOC`. -/
def imageDirectoryEntryBasereloc : Nat := 5
/-- `IMAGE_REL_BASED_HIGHLOW`. -/
def imageRelBasedHighlow : UInt16 := 3
/-- `NTDLL_DEFAULT_BASE`. -/
def ntdllDefaultBase : UInt32 := 0x7C800000
/-- `MAX_DLL_NAME`. -/
def maxDllName : Nat := 260
/-- The backslash. -/
def backslash : UInt8 := 0x5C

/-- `pe_get_section_by_rva`, `src/pe/pe_loader.c:260–273`. -/
def peGetSectionByRva (pe : PeImage) (rva : UInt32) : Option PeSection :=
  pe.sections.find? fun s =>
    let sectionSize := if s.virtualSize = 0 then s.rawSize else s.virtualSize
    decide (s.virtualAddress ≤ rva ∧ rva < s.virtualAddress + sectionSize)

/-- `pe_rva_to_file_offset`, `pe_loader.c:275–294`. -/
def peRvaToFileOffset (pe : PeImage) (rva : UInt32) : UInt32 :=
  if rva < pe.sizeOfHeaders then rva
  else match peGetSectionByRva pe rva with
    | none => 0
    | some s =>
        if s.rawSize = 0 then 0
        else
          let offsetInSection := rva - s.virtualAddress
          if s.rawSize ≤ offsetInSection then 0 else s.rawOffset + offsetInSection

/-- Copy bytes to physical memory one after the other. -/
def copyBytes (mem : PhysMem) (dst : UInt32) (src : Nat → UInt8) (js : List Nat) : PhysMem :=
  js.foldl (fun mem j => memWritebPhys mem (dst + UInt32.ofNat j) (src j)) mem

/-- The raw data of a section, and zeros up to its virtual size, `loader.c:122–142`. -/
def copySection (buf : Nat → UInt8) (imagePhys : UInt32) (mem : PhysMem) (sec : PeSection) :
    PhysMem :=
  let secPhys := imagePhys + sec.virtualAddress
  let copySize := if sec.rawSize < sec.virtualSize then sec.rawSize else sec.virtualSize
  let mem := copyBytes mem secPhys (fun j => buf (sec.rawOffset + UInt32.ofNat j).toNat)
    (List.range copySize.toNat)
  copyBytes mem secPhys (fun _ => 0)
    (List.range' copySize.toNat (sec.virtualSize.toNat - copySize.toNat))

/-- The headers and the sections, `loader.c:117–143`. -/
def copyImage (buf : Nat → UInt8) (pe : PeImage) (imagePhys : UInt32) (mem : PhysMem) : PhysMem :=
  let mem := copyBytes mem imagePhys buf (List.range pe.sizeOfHeaders.toNat)
  pe.sections.foldl (copySection buf imagePhys) mem

/-- Add `delta` to the word a relocation is for, `loader.c:171–174`. -/
def relocate (imagePhys delta : UInt32) (mem : PhysMem) (rva : UInt32) : PhysMem :=
  let addrPhys := imagePhys + rva
  memWritelPhys mem addrPhys (memReadlPhys mem addrPhys + delta)

/-- The RVA an entry of a relocation block names, if it is for a word, `loader.c:165–171`. -/
def relocEntry (buf : Nat → UInt8) (pe : PeImage) (blockRva entriesRva : UInt32) (i : Nat) :
    Option UInt32 :=
  let entry := u16At buf (peRvaToFileOffset pe (entriesRva + UInt32.ofNat i * 2)).toNat
  if entry >>> 12 = imageRelBasedHighlow then some (blockRva + (entry &&& 0xFFF).toUInt32) else none

/-- The loop over the blocks, `loader.c:155–178`; `none` if the fuel does not suffice. -/
def relocBlocks (buf : Nat → UInt8) (pe : PeImage) (imagePhys delta relocRva relocSize : UInt32) :
    Nat → UInt32 → PhysMem → Option PhysMem
  | 0, _, _ => none
  | fuel + 1, offset, mem =>
      if offset < relocSize then
        let blockRva := u32At buf (peRvaToFileOffset pe (relocRva + offset)).toNat
        let blockSize := u32At buf (peRvaToFileOffset pe (relocRva + offset + 4)).toNat
        if blockSize = 0 then some mem
        else
          let entryCount := (blockSize - 8) / 2
          let mem := (List.range entryCount.toNat).foldl (fun mem i =>
            match relocEntry buf pe blockRva (relocRva + offset + 8) i with
            | some rva => relocate imagePhys delta mem rva
            | none => mem) mem
          relocBlocks buf pe imagePhys delta relocRva relocSize fuel (offset + blockSize) mem
      else some mem

/-- The words that the entries of a block name are patched one after the other. -/
theorem foldl_relocEntry {buf : Nat → UInt8} {pe : PeImage} {blockRva entriesRva : UInt32}
    (imagePhys delta : UInt32) (is : List Nat) (mem : PhysMem) :
    is.foldl (fun mem i =>
        match relocEntry buf pe blockRva entriesRva i with
        | some rva => relocate imagePhys delta mem rva
        | none => mem) mem =
      (is.filterMap (relocEntry buf pe blockRva entriesRva)).foldl (relocate imagePhys delta) mem := by
  induction is generalizing mem with
  | nil => rfl
  | cons i is ih =>
    rw [List.foldl_cons, ih]
    cases hentry : relocEntry buf pe blockRva entriesRva i with
    | none => rw [List.filterMap_cons_none hentry]
    | some rva => rw [List.filterMap_cons_some hentry, List.foldl_cons]

/-- Apply the base relocations if the image is not at its own base, `loader.c:145–181`. An offset
that comes again after `2 ^ 32` rounds comes for ever: the loop does not end. -/
def applyRelocations (buf : Nat → UInt8) (pe : PeImage) (imagePhys baseVa : UInt32)
    (mem : PhysMem) : Option PhysMem :=
  let dir := pe.dataDirs.getD imageDirectoryEntryBasereloc ⟨0, 0⟩
  if 0 < dir.size ∧ baseVa ≠ pe.imageBase then
    relocBlocks buf pe imagePhys (baseVa - pe.imageBase) dir.virtualAddress dir.size (2 ^ 32 + 1) 0
      mem
  else some mem

/-- `loaded_module_t`, `src/loader/module.h:81–105`: what `load_pe_internal` sets. -/
structure LoadedModule where
  name : List UInt8
  pe : PeImage
  baseVa : UInt32
  physBase : UInt32
  size : UInt32
  entryPoint : UInt32
  isMainExe : Bool

/-- The virtual machine and the list of modules. -/
structure ImageVm where
  vm : PagedVm
  modules : List LoadedModule

/-- The host: its files, the C: drive of the guest and the path given for ntdll. -/
structure LoaderHost where
  tree : HostTree
  vfsJail : VfsJail
  ntdllPath : Option (List UInt8)

/-- The host's heap at a load: which of its allocations succeed, and what lies behind the buffer
the file is read to. -/
structure HostHeap where
  pe : PeAllocs
  module : Bool
  behind : Nat → UInt8

/-- What follows the last separator. -/
def afterLast (sep : UInt8) (path : List UInt8) : Option (List UInt8) :=
  if sep ∈ path then some (path.reverse.takeWhile (· ≠ sep)).reverse else none

/-- The last component of a path, `loader.c:74–86`. -/
def baseName (path : List UInt8) : List UInt8 :=
  ((afterLast slash path).orElse fun _ => afterLast backslash path).getD path

/-- Where an image is loaded, `loader.c:93–101`. -/
def loadBase (preferredBase : UInt32) (pe : PeImage) : UInt32 :=
  if preferredBase ≠ 0 then preferredBase
  else if pe.imageBase ≠ 0 then pe.imageBase
  else 0x00400000

/-- The buffer and the image `pe_load` makes of the file a path leads to. -/
def LoaderHost.parse (host : LoaderHost) (heap : HostHeap) (path : List UInt8) :
    Option ((Nat → UInt8) × PeImage) :=
  match host.tree.stat path with
  | some (.file content) =>
      match (peLoad heap.pe content (fileBuffer content heap.behind)).2 with
      | .ok pe => some (fileBuffer content heap.behind, pe)
      | .error _ => none
  | _ => none

/-- The module of an image, `loader.c:74–104`, `115`. -/
def newModule (path : List UInt8) (pe : PeImage) (baseVa physBase : UInt32) (isMainExe : Bool) :
    LoadedModule where
  name := (baseName path).take (maxDllName - 1)
  pe := pe
  baseVa := baseVa
  physBase := physBase
  size := pe.sizeOfImage
  entryPoint := if pe.entryPointRva ≠ 0 then baseVa + pe.entryPointRva else 0
  isMainExe := isMainExe

/-- The part of `load_pe_internal` that follows the allocation, `loader.c:117–202`. -/
def placeImage (r : ImageVm) (buf : Nat → UInt8) (vm : PagedVm) (mod : LoadedModule) :
    Option ImageVm :=
  (applyRelocations buf mod.pe mod.physBase mod.baseVa
      (copyImage buf mod.pe mod.physBase vm.mem)).map fun mem =>
    { vm := pagingMapRange { vm with mem := mem } mod.baseVa mod.physBase mod.size
        (pteUser ||| pteWritable)
      modules := mod :: r.modules }

/-- `load_pe_internal`, `loader.c:52–203`; what it returns is the first module if there is a new
one. -/
def loadPeInternal (host : LoaderHost) (r : ImageVm) (heap : HostHeap) (path : List UInt8)
    (preferredBase : UInt32) (isMainExe : Bool) : Option ImageVm :=
  match host.parse heap path with
  | none => some r
  | some (buf, pe) =>
      if heap.module = false then some r
      else
        let baseVa := loadBase preferredBase pe
        let alloc := pagingAllocPhys r.vm pe.sizeOfImage
        if alloc.2 = 0 then some { r with vm := alloc.1 }
        else placeImage r buf alloc.1 (newModule path pe baseVa alloc.2 isMainExe)

/-- `module_find_by_name`, `src/loader/module.c:330–367`. -/
def moduleFindByName (modules : List LoadedModule) (name : List UInt8) : Option LoadedModule :=
  modules.find? fun mod => sameIcase (baseName name) (baseName mod.name)

/-- The file and the base `module_load_by_name` passes on for a name, `loader.c:216–241`. -/
def LoaderHost.request (host : LoaderHost) (dllName : List UInt8) :
    Option (List UInt8 × UInt32) :=
  if sameIcase dllName (ascii "ntdll.dll") = true ∨ sameIcase dllName (ascii "ntdll") = true then
    host.ntdllPath.map fun path => (path, ntdllDefaultBase)
  else (vfsFindDll host.vfsJail host.tree dllName).map fun path => (path, 0)

/-- `module_load_by_name`, `loader.c:206–243`. -/
def moduleLoadByName (host : LoaderHost) (r : ImageVm) (heap : HostHeap) (dllName : List UInt8) :
    Option ImageVm :=
  match moduleFindByName r.modules dllName with
  | some _ => some r
  | none =>
      match host.request dllName with
      | none => some r
      | some (path, preferredBase) => loadPeInternal host r heap path preferredBase false

/-- What happens to the machine while an executable is loaded: a region is allocated and mapped
(`loader_init`, the PEB, stacks, TEBs, the heap), a word of such a region is written, a word is
written by its virtual address (import tables, the loader's lists), an image is loaded. -/
inductive LoaderOp where
  | region (va size flags : UInt32)
  | writeRegion (addr val : UInt32)
  | writeVirt (va val : UInt32)
  | loadExecutable (heap : HostHeap) (path : List UInt8)
  | loadByName (heap : HostHeap) (dllName : List UInt8)

/-- The operation is a load. -/
def LoaderOp.IsLoad : LoaderOp → Prop
  | .loadExecutable _ _ => True
  | .loadByName _ _ => True
  | _ => False

/-- One step; `none` is a load that does not return. -/
def loaderStep (host : LoaderHost) (r : ImageVm) : LoaderOp → Option ImageVm
  | .region va size flags =>
      let alloc := pagingAllocPhys r.vm size
      if alloc.2 = 0 then some { r with vm := alloc.1 }
      else some { r with vm := pagingMapRange alloc.1 va alloc.2 size flags }
  | .writeRegion addr val => some { r with vm := { r.vm with mem := memWritelPhys r.vm.mem addr val } }
  | .writeVirt va val =>
      if r.vm.translate va = 0 then some r
      else some { r with vm := { r.vm with mem := memWritelPhys r.vm.mem (r.vm.translate va) val } }
  | .loadExecutable heap path => loadPeInternal host r heap path 0 true
  | .loadByName heap dllName => moduleLoadByName host r heap dllName

/-- `VM_PHYS_MEM_SIZE`. -/
def vmPhysMemSize : UInt32 := 256 * 1024 * 1024
/-- `PAGING_PHYS_BASE`. -/
def pagingPhysBase : UInt32 := 0x00100000

/-- The machine after `vm_init`, `src/vm/vm.c:86–97`. -/
def loaderStart (ram : Nat → UInt8) : ImageVm where
  vm := pagingInit { ram := ram, ramSize := vmPhysMemSize.toNat } pagingPhysBase vmPhysMemSize
  modules := []

/-- Clearing the page directory leaves the size of memory. -/
theorem loaderStart_ramSize (ram : Nat → UInt8) :
    (loaderStart ram).vm.mem.ramSize = vmPhysMemSize.toNat :=
  (sameOn_clearTable (a := pageRound pagingPhysBase) (by decide)
    { ram := ram, ramSize := vmPhysMemSize.toNat }).size

section Example

/-- The bytes of a word. -/
def wordBytes (v : UInt32) : List UInt8 :=
  [v.toUInt8, (v >>> 8).toUInt8, (v >>> 16).toUInt8, (v >>> 24).toUInt8]

/-- A file with one section of the given sizes, addresses and offset, and what follows the
headers. -/
def peFile (header : OptionalHeader) (dirs : List PeDataDirectory) (sec : PeSection)
    (rest : List UInt8) : List UInt8 :=
  [0x4D, 0x5A] ++ List.replicate 58 0 ++ wordBytes 64 ++ wordBytes imageNtSignature ++
    [0x4C, 0x01, 1, 0] ++ List.replicate 12 0 ++
    (wordBytes (UInt32.ofNat (96 + 8 * dirs.length))).take 2 ++ [0, 0] ++
    [0x0B, 0x01] ++ List.replicate 26 0 ++ wordBytes header.imageBase ++ List.replicate 24 0 ++
    wordBytes header.sizeOfImage ++ wordBytes header.sizeOfHeaders ++ List.replicate 28 0 ++
    wordBytes (UInt32.ofNat dirs.length) ++
    dirs.flatMap (fun dir => wordBytes dir.virtualAddress ++ wordBytes dir.size) ++
    sec.name ++ wordBytes sec.virtualSize ++ wordBytes sec.virtualAddress ++
    wordBytes sec.rawSize ++ wordBytes sec.rawOffset ++ List.replicate 16 0 ++ rest

/-- Headers that are 0 but for three fields. -/
def peHeader (imageBase sizeOfImage sizeOfHeaders : UInt32) : OptionalHeader where
  imageBase := imageBase
  entryPointRva := 0
  sizeOfImage := sizeOfImage
  sizeOfHeaders := sizeOfHeaders
  sectionAlignment := 0
  fileAlignment := 0
  subsystem := 0
  dllCharacteristics := 0
  sizeOfStackReserve := 0
  sizeOfStackCommit := 0
  sizeOfHeapReserve := 0
  sizeOfHeapCommit := 0

/-- A section without a name. -/
def namelessSection (virtualSize virtualAddress rawSize rawOffset : UInt32) : PeSection :=
  ⟨List.replicate 8 0, virtualSize, virtualAddress, rawSize, rawOffset, 0⟩

/-- The image `pe_load` makes of such a file. -/
def peImageOf (header : OptionalHeader) (dirs : List PeDataDirectory) (sec : PeSection) : PeImage :=
  { header with
    sections := [sec]
    dataDirs := dirs ++ List.replicate (16 - dirs.length) ⟨0, 0⟩ }

/-- A file with an image of one page and one section without data. -/
def smallPe (imageBase : UInt32) : List UInt8 :=
  peFile (peHeader imageBase 0x1000 0) [] (namelessSection 0 0 0 0) []

/-- The image `pe_load` makes of it. -/
def smallImage (imageBase : UInt32) : PeImage :=
  peImageOf (peHeader imageBase 0x1000 0) [] (namelessSection 0 0 0 0)

/-- A host whose only file is /a. -/
def oneFile (content : List UInt8) : HostTree where
  node path := if path = [ascii "a"] then some (.file content) else none
  cwd := []
  openFds := []
  refuses := fun _ _ => none
  entries dir := dotName :: dotdotName :: if dir = [] then [ascii "a"] else []
  entries_iff := by
    intro dir n
    have hname : IsComponent isSlash (ascii "a") ∧ ascii "a" ≠ dotName ∧ ascii "a" ≠ dotdotName := by
      decide
    cases dir with
    | nil => grind
    | cons d dir => grind

/-- The loader on it. -/
def hostOf (content : List UInt8) : LoaderHost where
  tree := oneFile content
  vfsJail := vfsInit
  ntdllPath := none

/-- A heap whose allocations succeed. -/
def roomyHeap : HostHeap where
  pe := ⟨true, true⟩
  module := true
  behind := fun _ => 0

theorem hostOf_stat (content : List UInt8) :
    (oneFile content).stat (ascii "/a") = some (.file content) := by
  have hlookup : (oneFile content).lookup true (ascii "/a") = .found [ascii "a"] := rfl
  rw [HostFs.stat, hlookup]
  rfl

/-- A result that is there. -/
theorem ok_of_toOption {ε α : Type} {result : Except ε α} {a : α}
    (h : result.toOption = some a) : result = .ok a := by
  cases result with
  | error e => exact nomatch h
  | ok b => exact congrArg _ (Option.some.inj h)

/-- The only file is parsed as `pe_load` parses it. -/
theorem hostOf_parse {content : List UInt8} {pe : PeImage}
    (h : (peLoad ⟨true, true⟩ content (fileBuffer content fun _ => 0)).2.toOption = some pe) :
    (hostOf content).parse roomyHeap (ascii "/a") =
      some (fileBuffer content fun _ => 0, pe) := by
  have hok : (peLoad roomyHeap.pe content (fileBuffer content roomyHeap.behind)).2 = .ok pe :=
    ok_of_toOption h
  unfold LoaderHost.parse
  rw [show (hostOf content).tree = oneFile content from rfl, hostOf_stat]
  simp only [hok]
  rfl

end Example

end Wbox.Loader
