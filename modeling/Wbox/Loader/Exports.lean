import Wbox.Loader.Stubs
import Wbox.Loader.Views

/-!
# Exports and forwarders

The export table of a module (`src/loader/exports.c`) and `imports_resolve_function`
(`src/loader/imports.c:37–130`), which follows forwarders from module to module and loads what is
missing.
-/

namespace Wbox.Loader

open Wbox.Host Wbox.Lib Wbox.Nt Wbox.Pe Wbox.Vm

/-- `export_entry_t`, `src/loader/module.h:72–78`; a forwarder is its string. -/
structure ExportEntry where
  name : Option (List UInt8)
  ordinal : UInt16
  rva : UInt32
  forwarder : Option (List UInt8)
  deriving DecidableEq, Repr

/-- The export table cache of a module, `module.h:96–99`. -/
structure ExportTable where
  ordinalBase : UInt32
  entries : List ExportEntry
  deriving DecidableEq, Repr

/-- `IMAGE_DIRECTORY_ENTRY_EXPORT`. -/
def imageDirectoryEntryExport : Nat := 0

/-- A string of the host, without its NUL; the buffers have less than `2 ^ 32` bytes. -/
def cString (buf : Nat → UInt8) : Nat → Nat → List UInt8
  | 0, _ => []
  | fuel + 1, offset =>
      if buf offset = 0 then [] else buf offset :: cString buf fuel (offset + 1)

/-- The string `pe_rva_to_ptr` leads to. -/
def stringAt (buf : Nat → UInt8) (pe : PeImage) (fileSize : Nat) (rva : UInt32) :
    Option (List UInt8) :=
  (peRvaToPtr pe fileSize rva).map fun offset => cString buf (2 ^ 32) offset.toNat

/-- The name the table of names gives an entry, `exports.c:85–95`: later names replace earlier
ones. -/
def nameEntry (buf : Nat → UInt8) (pe : PeImage) (fileSize : Nat) (namePtrs ordinals : UInt32)
    (entries : List ExportEntry) (i : Nat) : List ExportEntry :=
  match stringAt buf pe fileSize (u32At buf (namePtrs.toNat + 4 * i)) with
  | some name => entries.modify (u16At buf (ordinals.toNat + 2 * i)).toNat
      fun entry => { entry with name := some name }
  | none => entries

/-- An entry without its name, `exports.c:64–81`. -/
def exportEntry (buf : Nat → UInt8) (pe : PeImage) (fileSize : Nat) (dir : PeDataDirectory)
    (base eat : UInt32) (i : Nat) : ExportEntry :=
  let rva := u32At buf (eat.toNat + 4 * i)
  { name := none
    ordinal := (base + UInt32.ofNat i).toUInt16
    rva := rva
    forwarder :=
      if dir.virtualAddress ≤ rva ∧ rva < dir.virtualAddress + dir.size then
        stringAt buf pe fileSize rva
      else none }

/-- `exports_parse`, `exports.c:21–106`; `allocOk` says whether there is memory for the table. -/
def exportsParse (allocOk : Bool) (buf : Nat → UInt8) (pe : PeImage) (fileSize : Nat) :
    ExportTable :=
  let dir := pe.dataDirs.getD imageDirectoryEntryExport ⟨0, 0⟩
  if dir.virtualAddress = 0 then ⟨0, []⟩
  else match peRvaToPtr pe fileSize dir.virtualAddress with
    | none => ⟨0, []⟩
    | some exp =>
        let base := u32At buf (exp.toNat + 16)
        let numFunctions := u32At buf (exp.toNat + 20)
        let numNames := u32At buf (exp.toNat + 24)
        let addressOfNames := u32At buf (exp.toNat + 32)
        let addressOfNameOrdinals := u32At buf (exp.toNat + 36)
        if numFunctions = 0 ∨ allocOk = false then ⟨base, []⟩
        else match peRvaToPtr pe fileSize (u32At buf (exp.toNat + 28)) with
          | none => ⟨base, []⟩
          | some eat =>
              let entries := (List.range numFunctions.toNat).map
                (exportEntry buf pe fileSize dir base eat)
              let namePtrs := if addressOfNames = 0 then none
                else peRvaToPtr pe fileSize addressOfNames
              let ordinals := if addressOfNameOrdinals = 0 then none
                else peRvaToPtr pe fileSize addressOfNameOrdinals
              match namePtrs, ordinals with
              | some namePtrs, some ordinals =>
                  ⟨base, (List.range numNames.toNat).foldl
                    (nameEntry buf pe fileSize namePtrs ordinals) entries⟩
              | _, _ => ⟨base, entries⟩

/-- What a function is asked for by. -/
inductive FuncRef where
  | name (name : List UInt8)
  | ordinal (ordinal : UInt16)
  deriving DecidableEq, Repr

/-- `exports_lookup_by_name`, `exports.c:108–129`. -/
def exportsLookupByName (table : ExportTable) (name : List UInt8) : Option ExportEntry :=
  table.entries.find? fun entry => decide (entry.name = some name)

/-- `exports_lookup_by_ordinal`, `exports.c:131–160`. -/
def exportsLookupByOrdinal (table : ExportTable) (ordinal : UInt16) : Option ExportEntry :=
  if ordinal.toUInt32 < table.ordinalBase then none
  else match table.entries[(ordinal.toUInt32 - table.ordinalBase).toNat]? with
    | none => none
    | some entry => if entry.rva = 0 then none else some entry

/-- The lookup of `imports.c:71–76`. -/
def ExportTable.lookup (table : ExportTable) : FuncRef → Option ExportEntry
  | .name name => exportsLookupByName table name
  | .ordinal ordinal => exportsLookupByOrdinal table ordinal

/-- The white space `atoi` skips. -/
def isSpace (b : UInt8) : Bool := b = 0x20 ∨ 0x09 ≤ b ∧ b ≤ 0x0D

/-- A decimal digit. -/
def isDigit (b : UInt8) : Bool := 0x30 ≤ b ∧ b ≤ 0x39

/-- The number that digits make. -/
def digitsValue (digits : List UInt8) : Nat :=
  digits.foldl (fun n b => 10 * n + (b - 0x30).toNat) 0

/-- `(uint16_t)atoi(text)`: the host reads a `long`, which stays in its range. -/
def atoi16 (text : List UInt8) : UInt16 :=
  let text := text.dropWhile isSpace
  let digits := fun text : List UInt8 => digitsValue (text.takeWhile isDigit)
  if text.head? = some 0x2D then
    UInt16.ofInt (max (-2 ^ 63) (-(digits (text.drop 1) : Int)))
  else if text.head? = some 0x2B then UInt16.ofNat (min (2 ^ 63 - 1) (digits (text.drop 1)))
  else UInt16.ofNat (min (2 ^ 63 - 1) (digits text))

/-- The DLL and the function a forwarder names, `imports.c:84–107`, `119–126`; both are cut to
buffers of 256 bytes. -/
def parseForwarder (forwarder : List UInt8) : Option (List UInt8 × FuncRef) :=
  let dot : UInt8 := 0x2E
  if dot ∈ forwarder then
    let dll := (forwarder.takeWhile (· ≠ dot)).take 255
    let func := ((forwarder.dropWhile (· ≠ dot)).drop 1).take 255
    some ((dll ++ ascii ".dll").take 255,
      if func.head? = some 0x23 then .ordinal (atoi16 (func.drop 1)) else .name func)
  else none

/-- A module with its exports and the file it has been made of. -/
structure LinkModule extends LoadedModule where
  exports : ExportTable
  fileData : Nat → UInt8
  fileSize : Nat

/-- The machine as the import resolver sees it, with the stub region. `loads` counts the calls of
`module_load_by_name`. -/
structure LinkVm where
  vm : PagedVm
  modules : List LinkModule
  stubs : StubManager
  stubRegion : GuestMem
  loads : Nat

/-- The host of the resolver: the tables of known stubs, and the heap at each load, with what it
says to the allocation of the export table. -/
structure LinkHost extends LoaderHost where
  ntdllStubs : List StubDef
  win32kStubs : List StubDef
  heaps : Nat → HostHeap × Bool

/-- The machine without exports and stubs. -/
def LinkVm.image (s : LinkVm) : ImageVm where
  vm := s.vm
  modules := s.modules.map LinkModule.toLoadedModule

/-- `module_find_by_name`. -/
def LinkVm.find (s : LinkVm) (name : List UInt8) : Option LinkModule :=
  s.modules.find? fun mod => sameIcase (baseName name) (baseName mod.name)

/-- The exports of the file a module has been made of. -/
def LinkHost.exportsOf (host : LinkHost) (heap : HostHeap × Bool) (path : List UInt8)
    (mod : LoadedModule) : ExportTable :=
  match host.tree.stat path with
  | some (.file content) =>
      exportsParse heap.2 (fileBuffer content heap.1.behind) mod.pe content.length
  | _ => ⟨0, []⟩

/-- The buffer and the size of the file at a path, as `pe_load` leaves them. -/
def LinkHost.fileAt (host : LinkHost) (heap : HostHeap × Bool) (path : List UInt8) :
    (Nat → UInt8) × Nat :=
  match host.tree.stat path with
  | some (.file content) => (fileBuffer content heap.1.behind, content.length)
  | _ => (fun _ => 0, 0)

/-- `module_load_by_name` of a name that is not found, `loader.c:216–242`, with the exports of the
new module (`loader.c:192–194`); `none` is a load that does not return. -/
def LinkVm.load (host : LinkHost) (s : LinkVm) (dllName : List UInt8) :
    Option (LinkVm × Option LinkModule) :=
  match host.request dllName with
  | none => some ({ s with loads := s.loads + 1 }, none)
  | some (path, preferredBase) =>
      (loadPeInternal host.toLoaderHost s.image (host.heaps s.loads).1 path preferredBase false).map
        fun r =>
          match r.modules.head?, decide (s.modules.length < r.modules.length) with
          | some mod, true =>
              let new := { mod with
                exports := host.exportsOf (host.heaps s.loads) path mod
                fileData := (host.fileAt (host.heaps s.loads) path).1
                fileSize := (host.fileAt (host.heaps s.loads) path).2 }
              ({ s with vm := r.vm, modules := new :: s.modules, loads := s.loads + 1 }, some new)
          | _, _ => ({ s with vm := r.vm, loads := s.loads + 1 }, none)

/-- `stubs_get_or_create`, `src/loader/stubs.c:165–176`; there is memory for the registry. -/
def stubsGetOrCreate (mgr : StubManager) (region : GuestMem) (stub : StubDef) :
    StubManager × GuestMem × UInt32 :=
  match mgr.registry.find? fun entry => decide (entry.1 = stub.name) with
  | some (_, va) => if va ≠ 0 then (mgr, region, va) else stubsGenerate mgr region true stub
  | none => stubsGenerate mgr region true stub

/-- The known stub of a function, `imports.c:47–61`. -/
def LinkHost.stubDef (host : LinkHost) (mod : LinkModule) (name : List UInt8) : Option StubDef :=
  if sameIcase mod.name (ascii "ntdll.dll") ∨ sameIcase mod.name (ascii "ntdll") then
    host.ntdllStubs.find? fun stub => decide (stub.name = name)
  else if sameIcase mod.name (ascii "win32u.dll") ∨ sameIcase mod.name (ascii "win32u") then
    host.win32kStubs.find? fun stub => decide (stub.name = name)
  else none

/-- A call of `imports_resolve_function`. -/
structure ResolveCall where
  vm : LinkVm
  mod : LinkModule
  func : FuncRef

/-- What a call comes to: an address (0 is none), or a call for a forwarder. -/
inductive ResolveStep where
  | done (vm : LinkVm) (va : UInt32) (isStub : Bool)
  | forward (next : ResolveCall)

/-- The stub a call is answered with, `imports.c:46–68`. -/
def ResolveCall.stub (host : LinkHost) (call : ResolveCall) : Option (LinkVm × UInt32) :=
  match call.func with
  | .ordinal _ => none
  | .name name =>
      match host.stubDef call.mod name with
      | none => none
      | some stub =>
          let made := stubsGetOrCreate call.vm.stubs call.vm.stubRegion stub
          if made.2.2 ≠ 0 then
            some ({ call.vm with stubs := made.1, stubRegion := made.2.1 }, made.2.2)
          else none

/-- One call of `imports_resolve_function` up to its own recursive call, `imports.c:37–130`;
`none` is a load that does not return. -/
def ResolveCall.step (host : LinkHost) (call : ResolveCall) : Option ResolveStep :=
  match call.stub host with
  | some (vm, va) => some (.done vm va true)
  | none =>
      match call.mod.exports.lookup call.func with
      | none => some (.done call.vm 0 false)
      | some entry =>
          match entry.forwarder with
          | none => some (.done call.vm (call.mod.baseVa + entry.rva) false)
          | some forwarder =>
              match parseForwarder forwarder with
              | none => some (.done call.vm 0 false)
              | some (dll, func) =>
                  match call.vm.find dll with
                  | some mod => some (.forward ⟨call.vm, mod, func⟩)
                  | none =>
                      (call.vm.load host dll).map fun loaded =>
                        match loaded.2 with
                        | some mod => .forward ⟨loaded.1, mod, func⟩
                        | none => .done loaded.1 0 false

/-- `imports_resolve_function`; `none` if it has not returned within the fuel. -/
def importsResolveFunction (host : LinkHost) : Nat → ResolveCall → Option (LinkVm × UInt32 × Bool)
  | 0, _ => none
  | fuel + 1, call =>
      match call.step host with
      | none => none
      | some (.done vm va isStub) => some (vm, va, isStub)
      | some (.forward next) => importsResolveFunction host fuel next

end Wbox.Loader
