import Wbox.Loader.Forwarders
import Wbox.Loader.Imports

/-!
# What import resolution does to the machine
-/

namespace Wbox.Loader

open Wbox.Host Wbox.Lib Wbox.Nt Wbox.Pe Wbox.Vm

variable {host : LinkHost} {s s' : LinkVm} {found : Option LinkModule} {path dll : List UInt8}
  {preferredBase : UInt32} {isMainExe : Bool} {buf : Nat → UInt8} {pe : PeImage}

section Loads

/-- The module a load makes of an image. -/
def LinkVm.newModule (host : LinkHost) (s : LinkVm) (path : List UInt8) (preferredBase : UInt32)
    (isMainExe : Bool) (pe : PeImage) : LinkModule :=
  host.linkModule (host.heaps s.loads) path
    (.ofImage s.image path preferredBase isMainExe pe)

/-- A load that makes a module of an image. -/
structure Places (host : LinkHost) (s : LinkVm) (path : List UInt8) (preferredBase : UInt32)
    (isMainExe : Bool) (buf : Nat → UInt8) (pe : PeImage) (s' : LinkVm) : Prop where
  image : host.imageOf s.image (host.heaps s.loads).1 path = some (buf, pe)
  memory : (pagingAllocPhys s.vm pe.sizeOfImage).2 ≠ 0
  placed : placeImage s.image buf (pagingAllocPhys s.vm pe.sizeOfImage).1
    (.ofImage s.image path preferredBase isMainExe pe) = some s'.image
  modules : s'.modules = s.newModule host path preferredBase isMainExe pe :: s.modules

/-- A load leaves the modules, or places an image. -/
theorem LinkVm.loadPe_cases (h : s.loadPe host path preferredBase isMainExe = some (s', found)) :
    s'.loads = s.loads + 1 ∧ s'.stubs = s.stubs ∧ s'.stubRegion = s.stubRegion ∧
      ((found = none ∧ s'.modules = s.modules ∧
          host.imageOf s.image (host.heaps s.loads).1 path = none ∧
          (s.vm.paging.physAllocPtr ≠ 0 → s'.vm = s.vm)) ∨
        ∃ buf pe, found = some (s.newModule host path preferredBase isMainExe pe) ∧
          Places host s path preferredBase isMainExe buf pe s') := by
  unfold LinkVm.loadPe at h
  obtain ⟨r, hr, hnew⟩ := Option.map_eq_some_iff.mp h
  have hlength : s.image.modules.length = s.modules.length := List.length_map _
  rcases loadPeInternal_cases hr with ⟨himage, hmodules, hsame⟩ | ⟨buf, pe, himage, halloc, hplaced⟩
  · rw [hmodules, hlength, decide_eq_false (Nat.lt_irrefl _)] at hnew
    split at hnew
    · next hcontra => cases hcontra
    · cases hnew
      refine ⟨rfl, rfl, rfl, Or.inl ⟨rfl, rfl, himage, ?_⟩⟩
      intro hptr
      exact congrArg ImageVm.vm (hsame hptr)
  · have hmodules := placeImage_modules hplaced
    rw [hmodules, List.head?_cons, List.length_cons, hlength,
      decide_eq_true (Nat.lt_succ_self _)] at hnew
    dsimp only at hnew
    cases hnew
    refine ⟨rfl, rfl, rfl, Or.inr ⟨buf, pe, rfl, himage, halloc, ?_, rfl⟩⟩
    apply hplaced.trans
    cases r
    cases hmodules
    rfl

/-- An image without relocations to apply is placed. -/
theorem LinkVm.loadPe_of_image
    (himage : host.imageOf s.image (host.heaps s.loads).1 path = some (buf, pe))
    (hrelocs : ¬ Relocates pe (loadBase preferredBase pe)) (isMainExe : Bool) :
    ∃ s', s.loadPe host path preferredBase isMainExe =
        some (s', some (s.newModule host path preferredBase isMainExe pe)) ∧
      s'.loads = s.loads + 1 ∧ Places host s path preferredBase isMainExe buf pe s' := by
  cases hload : s.loadPe host path preferredBase isMainExe with
  | none =>
    exfalso
    obtain ⟨buf', pe', himage', hrelocates, -⟩ :=
      loadPeInternal_eq_none_iff.mp (Option.map_eq_none_iff.mp hload)
    obtain ⟨-, rfl⟩ := Prod.mk.inj (Option.some.inj (himage.symm.trans himage'))
    exact hrelocs hrelocates
  | some loaded =>
    obtain ⟨s', found⟩ := loaded
    obtain ⟨hloads, -, -, hnone | ⟨buf', pe', rfl, hplaces⟩⟩ := LinkVm.loadPe_cases hload
    · exact nomatch himage.symm.trans hnone.2.2.1
    · obtain ⟨rfl, rfl⟩ := Prod.mk.inj (Option.some.inj (himage.symm.trans hplaces.image))
      exact ⟨s', rfl, hloads, hplaces⟩

/-- Placing an image takes its pages from the allocator. -/
theorem Places.alloc (h : Places host s path preferredBase isMainExe buf pe s') :
    s'.vm.paging.physAllocPtr = s.vm.paging.physAllocPtr + pageRound pe.sizeOfImage ∧
      s'.vm.paging.physMemSize = s.vm.paging.physMemSize := by
  have hplaced := h.placed
  unfold placeImage at hplaced
  obtain ⟨mem, -, hr⟩ := Option.map_eq_some_iff.mp hplaced
  have hvm : s'.vm = pagingMapRange { (pagingAllocPhys s.vm pe.sizeOfImage).1 with mem := mem } _ _ _
      (pteUser ||| pteWritable) := (congrArg ImageVm.vm hr).symm
  obtain ⟨hptr, hsize⟩ := pagingMapRange_alloc
    { (pagingAllocPhys s.vm pe.sizeOfImage).1 with mem := mem }
    (LoadedModule.ofImage s.image path preferredBase isMainExe pe).baseVa
    (LoadedModule.ofImage s.image path preferredBase isMainExe pe).physBase
    (LoadedModule.ofImage s.image path preferredBase isMainExe pe).size (pteUser ||| pteWritable)
  rcases pagingAllocPhys_cases s.vm pe.sizeOfImage with ⟨-, hfail⟩ | ⟨-, -, hpaging⟩
  · exact absurd (congrArg Prod.snd hfail) h.memory
  · rw [hvm, hptr, hsize, hpaging]
    exact ⟨rfl, rfl⟩

/-- An executable that is loaded and whose table is processed. -/
theorem loaderLoadExecutable_of_load {fuel : Nat} {mod : LinkModule} {done : TableState}
    (hload : s.loadPe host path 0 true = some (s', some mod))
    (hdone : importsResolve host fuel s' mod = some done) :
    loaderLoadExecutable host fuel s path =
      (importPasses host fuel fuel ((LoaderRun.start s').table s.modules.length mod done)).map
        some := by
  unfold loaderLoadExecutable
  rw [hload]
  dsimp only
  rw [hdone]

end Loads

section Example

/-- The headers of an image with its entry point at 16 and an import directory. -/
def importerHeader (imageBase : UInt32) : OptionalHeader :=
  { peHeader imageBase 0x1000 308 with entryPointRva := 16 }

/-- An export and an import directory. -/
def importerDirs (importSize : UInt32) : List PeDataDirectory := [⟨0, 0⟩, ⟨240, importSize⟩]

/-- The image of such a file. -/
def importerImage (imageBase importSize : UInt32) : PeImage :=
  peImageOf (importerHeader imageBase) (importerDirs importSize) (namelessSection 0 0 0 0)

/-- A file with an import table for one DLL, or an empty one, and its entry point at 16. -/
def importerPe (imageBase importSize : UInt32) (dll : List UInt8) : List UInt8 :=
  let file := peFile (peHeader imageBase 0x1000 308) (importerDirs importSize)
    (namelessSection 0 0 0 0)
    (wordBytes 300 ++ wordBytes 0 ++ wordBytes 0 ++ wordBytes (if dll = [] then 0 else 280) ++
      wordBytes 304 ++ List.replicate 20 0 ++ dll ++ List.replicate (28 - dll.length) 0)
  file.take 104 ++ wordBytes 16 ++ file.drop 108

/-- A host with an executable /x and two DLLs on the C: drive. -/
def driveNode (exe a b : List UInt8) (path : List Name) : Option Node :=
  if path = [ascii "x"] then some (.file exe)
  else if path = [ascii "c"] then some .dir
  else if path = [ascii "c", ascii "windows"] then some .dir
  else if path = [ascii "c", ascii "windows", ascii "a.dll"] then some (.file a)
  else if path = [ascii "c", ascii "windows", ascii "b.dll"] then some (.file b)
  else none

/-- What its directories list. -/
def driveEntries (dir : List Name) : List Name :=
  dotName :: dotdotName ::
    if dir = [] then [ascii "x", ascii "c"]
    else if dir = [ascii "c"] then [ascii "windows"]
    else if dir = [ascii "c", ascii "windows"] then [ascii "a.dll", ascii "b.dll"]
    else []

/-- A place in it is an entry of its parent. -/
theorem driveNode_iff (exe a b : List UInt8) (dir : List Name) (n : Name) :
    driveNode exe a b (dir ++ [n]) ≠ none ↔ n ∈ (driveEntries dir).drop 2 := by
  unfold driveNode driveEntries
  rcases dir with _ | ⟨c, _ | ⟨d, _ | ⟨e, below⟩⟩⟩ <;> grind

/-- The host as a tree. -/
def driveTree (exe a b : List UInt8) : HostTree where
  node := driveNode exe a b
  cwd := []
  openFds := []
  refuses := fun _ _ => none
  entries := driveEntries
  entries_iff := by
    intro dir n
    have hentry : n ∈ driveEntries dir ↔
        n = dotName ∨ n = dotdotName ∨ n ∈ (driveEntries dir).drop 2 := by
      simp [driveEntries]
    have hname : n ∈ (driveEntries dir).drop 2 →
        IsComponent isSlash n ∧ n ≠ dotName ∧ n ≠ dotdotName := by
      have hall : ∀ m ∈ [ascii "x", ascii "c", ascii "windows", ascii "a.dll", ascii "b.dll"],
          IsComponent isSlash m ∧ m ≠ dotName ∧ m ≠ dotdotName := by
        decide
      intro hn
      apply hall
      unfold driveEntries at hn
      grind
    rw [hentry, driveNode_iff]
    tauto

private theorem driveRoot_names : ∀ n ∈ [ascii "c"], IsComponent isSlash n :=
  isComponent_of_mem_singleton (by decide)

/-- A jail with C: at /c. -/
def driveJail : VfsJail := vfsInit.mapDrive driveC [ascii "c"] driveRoot_names

/-- The resolver on it, with memory for 16 modules. -/
def driveHost (exe a b : List UInt8) : LinkHost where
  tree := driveTree exe a b
  vfsJail := driveJail
  ntdllPath := none
  ntdllStubs := []
  win32kStubs := []
  heaps := fun n => ({ roomyHeap with module := decide (n < 16) }, true)

theorem driveTree_stat_x (exe a b : List UInt8) :
    (driveTree exe a b).stat (ascii "/x") = some (.file exe) := rfl

theorem driveTree_stat_a (exe a b : List UInt8) :
    (driveTree exe a b).stat (ascii "/c/windows/a.dll") = some (.file a) := rfl

theorem driveTree_stat_b (exe a b : List UInt8) :
    (driveTree exe a b).stat (ascii "/c/windows/b.dll") = some (.file b) := rfl

theorem driveHost_request_a (exe a b : List UInt8) :
    (driveHost exe a b).request (ascii "a.dll") = some (ascii "/c/windows/a.dll", 0) := rfl

theorem driveHost_request_b (exe a b : List UInt8) :
    (driveHost exe a b).request (ascii "b.dll") = some (ascii "/c/windows/b.dll", 0) := rfl

/-- What `parse` makes of a file. -/
theorem LoaderHost.parse_of_stat {host : LoaderHost} {heap : HostHeap} {content : List UInt8}
    (hstat : host.tree.stat path = some (.file content))
    (hpe : (peLoad heap.pe content (fileBuffer content heap.behind)).2.toOption = some pe) :
    host.parse heap path = some (fileBuffer content heap.behind, pe) := by
  unfold LoaderHost.parse
  rw [hstat]
  simp only [ok_of_toOption hpe]

/-- The loader before anything is loaded, in memory that is 0. -/
def emptyLink : LinkVm where
  vm := (loaderStart fun _ => 0).vm
  modules := []
  stubs := stubsInit
  stubRegion := fun _ => 0
  loads := 0

/-- The module of an importer's file. -/
structure Importer (m : LinkModule) (name : Name) (imageBase importSize : UInt32)
    (dll : List UInt8) (isMainExe : Bool) : Prop where
  name : m.name = name
  pe : m.pe = importerImage imageBase importSize
  baseVa : m.baseVa = imageBase
  entryPoint : m.entryPoint = imageBase + 16
  isMainExe : m.isMainExe = isMainExe
  fileData : m.fileData = fileBuffer (importerPe imageBase importSize dll) fun _ => 0
  fileSize : m.fileSize = (importerPe imageBase importSize dll).length

/-- A number of modules of one page have been loaded. -/
structure Loaded (s : LinkVm) (n : Nat) : Prop where
  loads : s.loads = n
  ptr : s.vm.paging.physAllocPtr = 0x200000 + 0x1000 * UInt32.ofNat n
  memory : s.vm.paging.physMemSize = vmPhysMemSize

theorem emptyLink_loaded : Loaded emptyLink 0 := ⟨rfl, rfl, rfl⟩

/-- An importer's file on the drive is loaded. -/
theorem Loaded.load {exe a b : List UInt8} {n : Nat} {imageBase importSize : UInt32}
    (h : Loaded s n) (hn : n < 16) (hbase : imageBase ≠ 0)
    (hstat : (driveTree exe a b).stat path = some (.file (importerPe imageBase importSize dll)))
    (hpe : (peLoad ⟨true, true⟩ (importerPe imageBase importSize dll)
      (fileBuffer (importerPe imageBase importSize dll) fun _ => 0)).2.toOption =
        some (importerImage imageBase importSize)) (isMainExe : Bool) :
    ∃ s' m, s.loadPe (driveHost exe a b) path 0 isMainExe = some (s', some m) ∧
      s'.modules = m :: s.modules ∧ Loaded s' (n + 1) ∧
      Importer m ((baseName path).take 259) imageBase importSize dll isMainExe := by
  have hsize : (importerImage imageBase importSize).sizeOfImage = 0x1000 := rfl
  have hload : loadBase 0 (importerImage imageBase importSize) = imageBase := if_pos hbase
  have hptrs : ∀ n < 16, ¬ 0x200000 + 0x1000 * UInt32.ofNat n + pageRound 0x1000 > vmPhysMemSize ∧
      0x200000 + 0x1000 * UInt32.ofNat n ≠ 0 ∧
        0x200000 + 0x1000 * UInt32.ofNat n + pageRound 0x1000 =
          0x200000 + 0x1000 * UInt32.ofNat (n + 1) := by decide
  obtain ⟨hfits, hne, hnext⟩ := hptrs n hn
  have hroom : (pagingAllocPhys s.vm 0x1000).2 ≠ 0 := by
    unfold pagingAllocPhys
    simp only [h.ptr, h.memory, if_neg hfits]
    exact hne
  have himage : (driveHost exe a b).imageOf s.image ((driveHost exe a b).heaps s.loads).1 path =
      some (fileBuffer (importerPe imageBase importSize dll) fun _ => 0,
        importerImage imageBase importSize) := by
    have hheap : ((driveHost exe a b).heaps s.loads).1 = roomyHeap := by
      rw [h.loads]
      show { roomyHeap with module := decide (n < 16) } = roomyHeap
      rw [decide_eq_true hn]
      rfl
    rw [hheap]
    unfold LoaderHost.imageOf
    have hstat' : (driveHost exe a b).toLoaderHost.tree.stat path =
        some (.file (importerPe imageBase importSize dll)) := hstat
    have hparse : (driveHost exe a b).parse roomyHeap path =
        some (fileBuffer (importerPe imageBase importSize dll) fun _ => 0,
          importerImage imageBase importSize) := LoaderHost.parse_of_stat hstat' hpe
    rw [hparse]
    exact if_neg (not_or.mpr ⟨by decide, hroom⟩)
  have hrelocs : ¬ Relocates (importerImage imageBase importSize)
      (loadBase 0 (importerImage imageBase importSize)) := fun hrelocates => hrelocates.2 hload
  obtain ⟨s', hs', hloads, hplaces⟩ := LinkVm.loadPe_of_image himage hrelocs isMainExe
  obtain ⟨hptr, hmemory⟩ := hplaces.alloc
  refine ⟨s', _, hs', hplaces.modules, ⟨?_, ?_, ?_⟩, ?_⟩
  · rw [hloads, h.loads]
  · rw [hptr, h.ptr, hsize, hnext]
  · rw [hmemory, h.memory]
  · have hfile : (driveHost exe a b).fileAt ((driveHost exe a b).heaps s.loads) path =
        (fileBuffer (importerPe imageBase importSize dll) fun _ => 0,
          (importerPe imageBase importSize dll).length) := by
      unfold LinkHost.fileAt
      rw [show (driveHost exe a b).tree = driveTree exe a b from rfl, hstat]
      rfl
    constructor
    case name => rfl
    case pe => rfl
    case baseVa => exact hload
    case isMainExe => rfl
    case entryPoint =>
      show (if (importerImage imageBase importSize).entryPointRva ≠ 0 then
        loadBase 0 (importerImage imageBase importSize) +
          (importerImage imageBase importSize).entryPointRva else 0) = imageBase + 16
      rw [hload]
      rfl
    case fileData =>
      show ((driveHost exe a b).fileAt ((driveHost exe a b).heaps s.loads) path).1 = _
      rw [hfile]
    case fileSize =>
      show ((driveHost exe a b).fileAt ((driveHost exe a b).heaps s.loads) path).2 = _
      rw [hfile]

/-- The descriptor of an importer. -/
def importerDescriptor : ImportDescriptor := ⟨300, 280, 304⟩

/-- The import table of a module is for one DLL and no function of it. -/
structure OneImport (m : LinkModule) (dll : List UInt8) : Prop where
  directory : importsGetDirectory m = some 240
  descriptors : ∀ fuel, importDescriptors (fuel + 2) m 240 = some [importerDescriptor]
  dllName : stringAt m.fileData m.pe m.fileSize 280 = some dll
  int : intPtr m importerDescriptor = some 300
  thunks : ∀ fuel, importThunks (fuel + 1) m 300 = some []

/-- What a file has to hold for this. -/
structure OneImportFile (imageBase importSize : UInt32) (dll : List UInt8) : Prop where
  length : (importerPe imageBase importSize dll).length = 308
  first : descriptorAt (fileBuffer (importerPe imageBase importSize dll) fun _ => 0) 240 =
    importerDescriptor
  last : (descriptorAt (fileBuffer (importerPe imageBase importSize dll) fun _ => 0) 260).name = 0
  dllName : stringAt (fileBuffer (importerPe imageBase importSize dll) fun _ => 0)
    (importerImage imageBase importSize) 308 280 = some dll
  int : u32At (fileBuffer (importerPe imageBase importSize dll) fun _ => 0) 300 = 0

/-- The import directory of an importer. -/
theorem Importer.directory {m : LinkModule} {name : Name} {imageBase importSize : UInt32}
    (h : Importer m name imageBase importSize dll isMainExe)
    (hlength : (importerPe imageBase importSize dll).length = 308) :
    importsGetDirectory m = some 240 := by
  unfold importsGetDirectory
  rw [h.pe, h.fileSize, hlength]
  rfl

theorem Importer.oneImport {m : LinkModule} {name : Name} {imageBase importSize : UInt32}
    (h : Importer m name imageBase importSize dll isMainExe)
    (hfile : OneImportFile imageBase importSize dll) : OneImport m dll := by
  have hsize : m.fileSize = 308 := h.fileSize.trans hfile.length
  constructor
  case directory => exact h.directory hfile.length
  case descriptors =>
    intro fuel
    have hfirst : (descriptorAt m.fileData ((240 : UInt32).toNat + 20 * 0)) = importerDescriptor := by
      rw [h.fileData]
      exact hfile.first
    have hlast : (descriptorAt m.fileData ((240 : UInt32).toNat + 20 * (0 + 1))).name = 0 := by
      rw [h.fileData]
      exact hfile.last
    have hname : importerDescriptor.name ≠ 0 := by decide
    simp only [importDescriptors, entriesUntil, hfirst, hname, decide_false, Bool.false_eq_true,
      if_false, hlast, decide_true, if_true, Option.map_some]
  case dllName =>
    rw [h.fileData, h.pe, hsize]
    exact hfile.dllName
  case int =>
    unfold intPtr
    rw [h.pe, hsize]
    rfl
  case thunks =>
    intro fuel
    have hint : u32At m.fileData ((300 : UInt32).toNat + 4 * 0) = 0 := by
      rw [h.fileData]
      exact hfile.int
    simp only [importThunks, entriesUntil, hint, decide_true, if_true]

/-- Processing such a table finds or loads the DLL. -/
theorem OneImport.resolve {m d : LinkModule} {vm vm' : LinkVm} (h : OneImport m dll)
    (hdll : importDll host vm dll = some (vm', some d)) (fuel : Nat) :
    importsResolve host (fuel + 2) vm m =
      some ⟨vm', .zero, [⟨importerDescriptor, some d, []⟩]⟩ := by
  have hone : resolveDescriptor host (fuel + 2) m ⟨vm, .zero, []⟩ importerDescriptor =
      some ⟨vm', .zero, [⟨importerDescriptor, some d, []⟩]⟩ := by
    unfold resolveDescriptor
    rw [show importerDescriptor.name = 280 from rfl, h.dllName]
    dsimp only
    rw [hdll]
    dsimp only
    unfold resolveDllImports
    rw [h.int]
    dsimp only
    rw [h.thunks (fuel + 1)]
    rfl
  unfold importsResolve
  rw [h.directory]
  dsimp only
  rw [h.descriptors fuel]
  dsimp only
  rw [List.foldlM_cons, hone]
  rfl

/-- A DLL that is not found is loaded. -/
theorem importDll_of_load {vm : LinkVm} {loaded : LinkVm × Option LinkModule}
    (hfind : vm.find dll = none) (hrequest : host.request dll = some (path, 0))
    (hload : vm.loadPe host path 0 false = some loaded) : importDll host vm dll = some loaded := by
  unfold importDll LinkVm.load
  rw [hfind]
  dsimp only
  rw [hrequest]
  exact hload

/-- A host whose executable imports a.dll, which imports b.dll; the size of the import directory
of a.dll is a parameter. -/
def chainHost (importSize : UInt32) : LinkHost :=
  driveHost (importerPe 0x400000 40 (ascii "a.dll")) (importerPe 0x500000 importSize (ascii "b.dll"))
    (importerPe 0x600000 0 [])

/-- The executable and a.dll on such a host, which a.dll has been loaded for. -/
structure ChainStart (importSize : UInt32) (r : LoaderRun) (x a : LinkModule) : Prop where
  modules : r.link.modules = [a, x]
  loaded : Loaded r.link 2
  flags : r.importsResolved = fun _ => false
  tables : r.tables = [⟨0, x, [⟨importerDescriptor, some a, []⟩]⟩]
  exe : Importer x (ascii "x") 0x400000 40 (ascii "a.dll") true
  dll : Importer a (ascii "a.dll") 0x500000 importSize (ascii "b.dll") false

theorem chainHost_start (importSize : UInt32)
    (hpe : (peLoad ⟨true, true⟩ (importerPe 0x500000 importSize (ascii "b.dll"))
      (fileBuffer (importerPe 0x500000 importSize (ascii "b.dll")) fun _ => 0)).2.toOption =
        some (importerImage 0x500000 importSize)) :
    ∃ r x a, ChainStart importSize r x a ∧ ∀ fuel,
      loaderLoadExecutable (chainHost importSize) (fuel + 2) emptyLink (ascii "/x") =
        (importPasses (chainHost importSize) (fuel + 2) (fuel + 2) r).map some := by
  have hpeX : (peLoad ⟨true, true⟩ (importerPe 0x400000 40 (ascii "a.dll"))
      (fileBuffer (importerPe 0x400000 40 (ascii "a.dll")) fun _ => 0)).2.toOption =
        some (importerImage 0x400000 40) := by decide +kernel
  have hfileX : OneImportFile 0x400000 40 (ascii "a.dll") := by
    constructor <;> decide +kernel
  unfold chainHost
  generalize importerPe 0x600000 0 [] = contentB
  have hstatX := driveTree_stat_x (importerPe 0x400000 40 (ascii "a.dll"))
    (importerPe 0x500000 importSize (ascii "b.dll")) contentB
  have hstatA := driveTree_stat_a (importerPe 0x400000 40 (ascii "a.dll"))
    (importerPe 0x500000 importSize (ascii "b.dll")) contentB
  have hrequest := driveHost_request_a (importerPe 0x400000 40 (ascii "a.dll"))
    (importerPe 0x500000 importSize (ascii "b.dll")) contentB
  obtain ⟨s₁, x, hload₁, hmodules₁, hloaded₁, hx⟩ :=
    emptyLink_loaded.load (by decide) (by decide) hstatX hpeX true
  obtain ⟨s₂, a, hload₂, hmodules₂, hloaded₂, ha⟩ :=
    hloaded₁.load (by decide) (by decide) hstatA hpe false
  have hnameX : (baseName (ascii "/x")).take 259 = ascii "x" := by decide
  have hnameA : (baseName (ascii "/c/windows/a.dll")).take 259 = ascii "a.dll" := by decide
  rw [hnameX] at hx
  rw [hnameA] at ha
  have hfind : s₁.find (ascii "a.dll") = none := by
    have hother : ¬ sameIcase (baseName (ascii "a.dll")) (baseName (ascii "x")) = true := by decide
    unfold LinkVm.find
    rw [hmodules₁, List.find?_cons_of_neg (by rw [hx.name]; exact hother)]
    rfl
  have hdll := importDll_of_load hfind hrequest hload₂
  refine ⟨(LoaderRun.start s₁).table 0 x ⟨s₂, .zero, [⟨importerDescriptor, some a, []⟩]⟩, x, a,
    ⟨?_, hloaded₂, rfl, rfl, hx, ha⟩, ?_⟩
  · show s₂.modules = [a, x]
    rw [hmodules₂, hmodules₁]
    rfl
  · intro fuel
    exact loaderLoadExecutable_of_load hload₁ ((hx.oneImport hfileX).resolve hdll fuel)

end Example

end Wbox.Loader
