import Wbox.Loader.Exports

/-!
# Import tables

`imports_resolve` (`src/loader/imports.c:132–278`) and the import loops of
`loader_load_executable` (`src/loader/loader.c:256–312`). The tables are read from the files, the
slots are written by their virtual addresses. The loader's own lists, which lie in its heap, are
left out. Beside the machine a record is kept of every table that is processed.
-/

namespace Wbox.Loader

open Wbox.Host Wbox.Lib Wbox.Nt Wbox.Pe Wbox.Vm

/-- `IMAGE_DIRECTORY_ENTRY_IMPORT`. -/
def imageDirectoryEntryImport : Nat := 1
/-- `IMAGE_ORDINAL_FLAG32`. -/
def imageOrdinalFlag32 : UInt32 := 0x80000000

/-- `IMAGE_IMPORT_DESCRIPTOR`, `src/loader/imports.h:18–27`, without the fields nothing reads. -/
structure ImportDescriptor where
  originalFirstThunk : UInt32
  name : UInt32
  firstThunk : UInt32
  deriving DecidableEq, Repr

/-- `import_stats_t`, `imports.h:48–53`. -/
structure ImportStats where
  totalImports : UInt32
  stubbedImports : UInt32
  directImports : UInt32
  failedImports : UInt32
  deriving DecidableEq, Repr

/-- Statistics that count nothing. -/
def ImportStats.zero : ImportStats := ⟨0, 0, 0, 0⟩

/-- An import that failed. -/
def ImportStats.fail (stats : ImportStats) : ImportStats :=
  { stats with failedImports := stats.failedImports + 1 }

/-- An import that was bound, `imports.c:204–209`. -/
def ImportStats.bind (stats : ImportStats) (isStub : Bool) : ImportStats :=
  { stats with
    totalImports := stats.totalImports + 1
    stubbedImports := if isStub then stats.stubbedImports + 1 else stats.stubbedImports
    directImports := if isStub then stats.directImports else stats.directImports + 1 }

/-- The sums of `loader.c:304–307`. -/
def ImportStats.add (stats stats' : ImportStats) : ImportStats :=
  ⟨stats.totalImports + stats'.totalImports, stats.stubbedImports + stats'.stubbedImports,
    stats.directImports + stats'.directImports, stats.failedImports + stats'.failedImports⟩

/-- The import directory of an image. -/
def importDir (pe : PeImage) : PeDataDirectory := pe.dataDirs.getD imageDirectoryEntryImport ⟨0, 0⟩

/-- `imports_get_directory`, `imports.c:18–26`. -/
def importsGetDirectory (mod : LinkModule) : Option UInt32 :=
  if (importDir mod.pe).virtualAddress = 0 then none
  else peRvaToPtr mod.pe mod.fileSize (importDir mod.pe).virtualAddress

/-- The entries of a table from an index on, up to the one it ends with; `none` if that is not
reached within the fuel. -/
def entriesUntil {α : Type} (last : α → Bool) (entry : Nat → α) : Nat → Nat → Option (List α)
  | 0, _ => none
  | fuel + 1, i =>
      if last (entry i) then some []
      else (entriesUntil last entry fuel (i + 1)).map fun rest => entry i :: rest

/-- An import descriptor of a file. -/
def descriptorAt (buf : Nat → UInt8) (offset : Nat) : ImportDescriptor :=
  ⟨u32At buf offset, u32At buf (offset + 12), u32At buf (offset + 16)⟩

/-- The import descriptors at an offset of a module's file, up to the one without a name. -/
def importDescriptors (fuel : Nat) (mod : LinkModule) (dir : UInt32) :
    Option (List ImportDescriptor) :=
  entriesUntil (fun desc => decide (desc.name = 0))
    (fun i => descriptorAt mod.fileData (dir.toNat + 20 * i)) fuel 0

/-- The import name table of a descriptor: the address table if it has none, `imports.c:137–154`. -/
def intPtr (mod : LinkModule) (desc : ImportDescriptor) : Option UInt32 :=
  peRvaToPtr mod.pe mod.fileSize
    (if desc.originalFirstThunk = 0 then desc.firstThunk else desc.originalFirstThunk)

/-- The entries of an import name table, up to 0. -/
def importThunks (fuel : Nat) (mod : LinkModule) (int : UInt32) : Option (List UInt32) :=
  entriesUntil (fun thunk => decide (thunk = 0))
    (fun i => u32At mod.fileData (int.toNat + 4 * i)) fuel 0

/-- What an entry of an import name table asks for, `imports.c:161–178`. -/
def thunkFunc (mod : LinkModule) (thunk : UInt32) : Option FuncRef :=
  if thunk &&& imageOrdinalFlag32 ≠ 0 then some (.ordinal (thunk &&& 0xFFFF).toUInt16)
  else (peRvaToPtr mod.pe mod.fileSize thunk).map fun entry =>
    .name (cString mod.fileData (2 ^ 32) (entry.toNat + 2))

/-- The slot of an entry in the address table, `imports.c:156–157`, `197`. -/
def slotVa (mod : LinkModule) (desc : ImportDescriptor) (i : Nat) : UInt32 :=
  mod.baseVa + desc.firstThunk + 4 * UInt32.ofNat i

/-- A call made for an entry, and the address it gave. -/
structure SlotRun where
  index : Nat
  call : ResolveCall
  va : UInt32

/-- A descriptor that was processed: the DLL it got, and the calls made. -/
structure DescriptorRun where
  desc : ImportDescriptor
  dll : Option LinkModule
  slots : List SlotRun

/-- The import table of a module that was processed. -/
structure TableRun where
  node : Nat
  mod : LinkModule
  descs : List DescriptorRun

/-- Write a word by its virtual address. -/
def LinkVm.patch (s : LinkVm) (va val : UInt32) : LinkVm :=
  { s with vm := { s.vm with mem := memWritelPhys s.vm.mem (s.vm.translate va) val } }

/-- The machine and the statistics while a descriptor is processed, and the calls made for it. -/
structure SlotsState where
  vm : LinkVm
  stats : ImportStats
  slots : List SlotRun

/-- A round of the loop of `resolve_dll_imports`, `imports.c:160–222`. -/
def resolveThunk (host : LinkHost) (fuel : Nat) (mod dllMod : LinkModule) (desc : ImportDescriptor)
    (r : SlotsState) (entry : UInt32 × Nat) : Option SlotsState :=
  match thunkFunc mod entry.1 with
  | none => some { r with stats := r.stats.fail }
  | some func =>
      (importsResolveFunction host fuel ⟨r.vm, dllMod, func⟩).map fun answer =>
        let slots := r.slots ++ [⟨entry.2, ⟨r.vm, dllMod, func⟩, answer.2.1⟩]
        if answer.2.1 = 0 ∨ answer.1.vm.translate (slotVa mod desc entry.2) = 0 then
          ⟨answer.1, r.stats.fail, slots⟩
        else ⟨answer.1.patch (slotVa mod desc entry.2) answer.2.1, r.stats.bind answer.2.2, slots⟩

/-- `resolve_dll_imports`, `imports.c:132–225`. -/
def resolveDllImports (host : LinkHost) (fuel : Nat) (mod dllMod : LinkModule)
    (desc : ImportDescriptor) (vm : LinkVm) (stats : ImportStats) : Option SlotsState :=
  match intPtr mod desc with
  | none => some ⟨vm, stats, []⟩
  | some int =>
      match importThunks fuel mod int with
      | none => none
      | some thunks => thunks.zipIdx.foldlM (resolveThunk host fuel mod dllMod desc) ⟨vm, stats, []⟩

/-- The machine and the statistics while a table is processed, and its descriptors. -/
structure TableState where
  vm : LinkVm
  stats : ImportStats
  descs : List DescriptorRun

/-- The DLL of a descriptor, found or loaded, `imports.c:245–265`. -/
def importDll (host : LinkHost) (vm : LinkVm) (dllName : List UInt8) :
    Option (LinkVm × Option LinkModule) :=
  match vm.find dllName with
  | some dllMod => some (vm, some dllMod)
  | none => vm.load host dllName

/-- A round of the loop of `imports_resolve`, `imports.c:246–271`. -/
def resolveDescriptor (host : LinkHost) (fuel : Nat) (mod : LinkModule) (r : TableState)
    (desc : ImportDescriptor) : Option TableState :=
  match stringAt mod.fileData mod.pe mod.fileSize desc.name with
  | none => some { r with descs := r.descs ++ [⟨desc, none, []⟩] }
  | some dllName =>
      match importDll host r.vm dllName with
      | none => none
      | some (vm, none) => some ⟨vm, r.stats.fail, r.descs ++ [⟨desc, none, []⟩]⟩
      | some (vm, some dllMod) =>
          (resolveDllImports host fuel mod dllMod desc vm r.stats).map fun done =>
            ⟨done.vm, done.stats, r.descs ++ [⟨desc, some dllMod, done.slots⟩]⟩

/-- `imports_resolve`, `imports.c:227–278`; it returns -1 if the statistics have a failure. -/
def importsResolve (host : LinkHost) (fuel : Nat) (vm : LinkVm) (mod : LinkModule) :
    Option TableState :=
  match importsGetDirectory mod with
  | none => some ⟨vm, .zero, []⟩
  | some dir =>
      match importDescriptors fuel mod dir with
      | none => none
      | some descs => descs.foldlM (resolveDescriptor host fuel mod) ⟨vm, .zero, []⟩

/-- The loader: the machine, the `imports_resolved` flags of the modules, each known by the number
of modules loaded before it, the statistics, and the tables processed so far. -/
structure LoaderRun where
  link : LinkVm
  importsResolved : Nat → Bool
  stats : ImportStats
  tables : List TableRun

/-- A module by the number of modules loaded before it: the list grows at its head. -/
def LinkVm.node (s : LinkVm) (k : Nat) : Option LinkModule := s.modules.reverse[k]?

/-- The condition of `loader.c:298–299`. -/
def LoaderRun.needsImports (r : LoaderRun) (k : Nat) : Bool :=
  match r.link.node k with
  | none => false
  | some mod => !mod.isMainExe && !r.importsResolved k && decide (0 < (importDir mod.pe).size)

/-- The import table of a module is processed. -/
def LoaderRun.table (r : LoaderRun) (k : Nat) (mod : LinkModule) (done : TableState) : LoaderRun :=
  { r with
    link := done.vm
    stats := r.stats.add done.stats
    tables := r.tables ++ [⟨k, mod, done.descs⟩] }

/-- The imports of a module in the loop, `loader.c:300–307`. -/
def LoaderRun.resolve (host : LinkHost) (fuel : Nat) (r : LoaderRun) (k : Nat) :
    Option LoaderRun :=
  match r.link.node k with
  | none => some r
  | some mod => (importsResolve host fuel r.link mod).map fun done =>
      { r.table k mod done with importsResolved := Function.update r.importsResolved k true }

/-- The walk over the first modules of the list, the latest first, with the number of those that
were resolved, `loader.c:294–310`. Modules that are loaded meanwhile lie before it. -/
def importWalk (host : LinkHost) (fuel : Nat) : Nat → LoaderRun → Nat → Option (LoaderRun × Nat)
  | 0, r, resolved => some (r, resolved)
  | k + 1, r, resolved =>
      if r.needsImports k then
        match r.resolve host fuel k with
        | none => none
        | some r => importWalk host fuel k r (resolved + 1)
      else importWalk host fuel k r resolved

/-- The passes, `loader.c:292–311`; `none` if they have not ended within the fuel. -/
def importPasses (host : LinkHost) (fuel : Nat) : Nat → LoaderRun → Option LoaderRun
  | 0, _ => none
  | passes + 1, r =>
      match importWalk host fuel r.link.modules.length r 0 with
      | none => none
      | some (r, 0) => some r
      | some (r, _ + 1) => importPasses host fuel passes r

/-- The module of an image with its exports and its file. -/
def LinkHost.linkModule (host : LinkHost) (heap : HostHeap × Bool) (path : List UInt8)
    (mod : LoadedModule) : LinkModule :=
  { mod with
    exports := host.exportsOf heap path mod
    fileData := (host.fileAt heap path).1
    fileSize := (host.fileAt heap path).2 }

/-- `load_pe_internal` with the exports of the new module, which it returns. -/
def LinkVm.loadPe (host : LinkHost) (s : LinkVm) (path : List UInt8) (preferredBase : UInt32)
    (isMainExe : Bool) : Option (LinkVm × Option LinkModule) :=
  (loadPeInternal host.toLoaderHost s.image (host.heaps s.loads).1 path preferredBase
    isMainExe).map fun r =>
      match r.modules.head?, decide (s.modules.length < r.modules.length) with
      | some mod, true =>
          let new := host.linkModule (host.heaps s.loads) path mod
          ({ s with vm := r.vm, modules := new :: s.modules, loads := s.loads + 1 }, some new)
      | _, _ => ({ s with vm := r.vm, loads := s.loads + 1 }, none)

/-- The loader with an executable that is just loaded. -/
def LoaderRun.start (s : LinkVm) : LoaderRun := ⟨s, fun _ => false, .zero, []⟩

/-- `loader_load_executable` up to the end of the import loops, `loader.c:256–312`. The outer
`none` is a run that has not ended within the fuel, the inner one an executable that is refused. -/
def loaderLoadExecutable (host : LinkHost) (fuel : Nat) (s : LinkVm) (exePath : List UInt8) :
    Option (Option LoaderRun) :=
  match s.loadPe host exePath 0 true with
  | none => none
  | some (_, none) => some none
  | some (link, some mod) =>
      match importsResolve host fuel link mod with
      | none => none
      | some done =>
          (importPasses host fuel fuel ((LoaderRun.start link).table s.modules.length mod done)).map
            some

end Wbox.Loader
