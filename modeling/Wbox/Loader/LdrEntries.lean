import Wbox.Lib.CircularList
import Wbox.Lib.Trace
import Wbox.Loader.Images
import Wbox.Vm.Strings

/-!
# The loader's module lists

`PEB_LDR_DATA`, the `LDR_DATA_TABLE_ENTRY` of each module and the hash table of ntdll, as
`src/loader/module.c` builds them in guest memory. A run makes the calls of
`module_create_ldr_entry` and `module_link_to_hash_table` in any order and remembers what each
list has been given.
-/

namespace Wbox.Loader

open Wbox.Lib Wbox.Vm

/-- `write_virt_l`, `src/loader/module.c:17–24`. -/
def writeVirtL (m : PhysMem) (ctx : PagingContext) (virt val : UInt32) : PhysMem :=
  let phys := pagingGetPhys m ctx virt
  if phys ≠ 0 then memWritelPhys m phys val else m

/-- `write_virt_w`, `module.c:26–33`. -/
def writeVirtW (m : PhysMem) (ctx : PagingContext) (virt : UInt32) (val : UInt16) : PhysMem :=
  let phys := pagingGetPhys m ctx virt
  if phys ≠ 0 then memWritewPhys m phys val else m

/-- `write_virt_b`, `module.c:35–42`. -/
def writeVirtB (m : PhysMem) (ctx : PagingContext) (virt : UInt32) (val : UInt8) : PhysMem :=
  let phys := pagingGetPhys m ctx virt
  if phys ≠ 0 then memWritebPhys m phys val else m

/-- `LOADER_HEAP_VA`. -/
def loaderHeapVa : UInt32 := 0x7F010000

/-- `LOADER_HEAP_SIZE`. -/
def loaderHeapSize : UInt32 := 0x10000

/-- `PEB_LDR`. -/
def pebLdr : UInt32 := 0x0C

/-- The fields of `module_manager_t` that the allocator and the lists use. -/
structure ModuleManager where
  loaderHeapVa : UInt32
  loaderHeapPtr : UInt32
  loaderHeapSize : UInt32
  ldrDataVa : UInt32
  deriving DecidableEq, Repr

/-- The fields of `loaded_module_t` that an entry is made of. The name is a string that fits
into its array. -/
structure LdrModule where
  name : List UInt8
  nameFits : name.length < maxDllName
  baseVa : UInt32
  size : UInt32
  entryPoint : UInt32
  ldrEntryVa : UInt32

/-- The guest's memory and the manager. -/
structure LdrVm where
  mem : PhysMem
  mgr : ModuleManager

/-- `module_heap_alloc`, `module.c:85–99`; 0 is a heap that is full. -/
def moduleHeapAlloc (mgr : ModuleManager) (size : UInt32) : UInt32 × ModuleManager :=
  let size := (size + 3) &&& ~~~3
  if mgr.loaderHeapPtr + size > mgr.loaderHeapSize then (0, mgr)
  else
    (mgr.loaderHeapVa + mgr.loaderHeapPtr, { mgr with loaderHeapPtr := mgr.loaderHeapPtr + size })

/-- `write_wide_string`, `module.c:101–108`: the string with its end. -/
def writeWideString (m : PhysMem) (ctx : PagingContext) (va : UInt32) (str : List UInt8) :
    PhysMem :=
  ((str ++ [0]).zipIdx).foldl
    (fun m (c : UInt8 × Nat) => writeVirtW m ctx (va + UInt32.ofNat c.2 * 2) c.1.toUInt16) m

/-- `list_insert_tail`, `module.c:110–142`. -/
def listInsertTail (m : PhysMem) (ctx : PagingContext) (listHeadVa entryVa : UInt32) : PhysMem :=
  let listHeadPhys := pagingGetPhys m ctx listHeadVa
  let lastEntryVa := memReadlPhys m (listHeadPhys + 4)
  if lastEntryVa = 0 ∨ lastEntryVa = listHeadVa then
    let m := memWritelPhys m (listHeadPhys + 0) entryVa
    let m := memWritelPhys m (listHeadPhys + 4) entryVa
    let entryPhys := pagingGetPhys m ctx entryVa
    let m := memWritelPhys m (entryPhys + 0) listHeadVa
    memWritelPhys m (entryPhys + 4) listHeadVa
  else
    let lastEntryPhys := pagingGetPhys m ctx lastEntryVa
    let entryPhys := pagingGetPhys m ctx entryVa
    let m := memWritelPhys m (entryPhys + 0) listHeadVa
    let m := memWritelPhys m (entryPhys + 4) lastEntryVa
    let m := memWritelPhys m (lastEntryPhys + 0) entryVa
    memWritelPhys m (listHeadPhys + 4) entryVa

/-- A field that is written at an offset. -/
inductive FieldWrite where
  | long (offset val : UInt32)
  | half (offset : UInt32) (val : UInt16)
  | byte (offset : UInt32) (val : UInt8)

/-- Write a field of a structure. -/
def writeField (ctx : PagingContext) (va : UInt32) (m : PhysMem) : FieldWrite → PhysMem
  | .long offset val => writeVirtL m ctx (va + offset) val
  | .half offset val => writeVirtW m ctx (va + offset) val
  | .byte offset val => writeVirtB m ctx (va + offset) val

/-- Write fields of a structure, in this order. -/
def writeStruct (m : PhysMem) (ctx : PagingContext) (va : UInt32) (fields : List FieldWrite) :
    PhysMem :=
  fields.foldl (writeField ctx va) m

/-- The fields that `module_init_peb_ldr` writes, `module.c:155–178`: the three lists point to
themselves. -/
def pebLdrFields (ldrVa : UInt32) : List FieldWrite :=
  [.long 0x00 0x28, .byte 0x04 1, .long 0x08 0,
    .long 0x0C (ldrVa + 0x0C), .long 0x10 (ldrVa + 0x0C),
    .long 0x14 (ldrVa + 0x14), .long 0x18 (ldrVa + 0x14),
    .long 0x1C (ldrVa + 0x1C), .long 0x20 (ldrVa + 0x1C),
    .long 0x24 0]

/-- `module_init_peb_ldr`, `module.c:144–186`, and whether it returns 0. -/
def moduleInitPebLdr (ctx : PagingContext) (pebAddr : UInt32) (s : LdrVm) : Bool × LdrVm :=
  match moduleHeapAlloc s.mgr 0x28 with
  | (ldrVa, mgr) =>
      if ldrVa = 0 then (false, { s with mgr })
      else
        let m := writeStruct s.mem ctx ldrVa (pebLdrFields ldrVa)
        (true,
          { mem := writeVirtL m ctx (pebAddr + pebLdr) ldrVa
            mgr := { mgr with ldrDataVa := ldrVa } })

/-- The fields of an entry up to the lists, `module.c:208–247`. -/
def ldrEntryFields (mod : LdrModule) (entryVa nameVa : UInt32) : List FieldWrite :=
  let nameBytes := UInt16.ofNat (2 * mod.name.length)
  [.long 0x18 mod.baseVa, .long 0x1C mod.entryPoint, .long 0x20 mod.size,
    .half 0x24 nameBytes, .half 0x26 (nameBytes + 2), .long 0x28 nameVa,
    .half 0x2C nameBytes, .half 0x2E (nameBytes + 2), .long 0x30 nameVa,
    .long 0x34 0x00004000, .half 0x38 1, .half 0x3A 0,
    .long 0x3C (entryVa + 0x3C), .long 0x40 (entryVa + 0x3C),
    .long 0x44 0, .long 0x48 0, .long 0x4C 0]

/-- The lists are joined, and the third link points to itself, `module.c:249–259`. -/
def linkLdrEntry (m : PhysMem) (ctx : PagingContext) (ldrDataVa entryVa : UInt32) : PhysMem :=
  let m := listInsertTail m ctx (ldrDataVa + 0x0C) (entryVa + 0x00)
  let m := listInsertTail m ctx (ldrDataVa + 0x14) (entryVa + 0x08)
  writeStruct m ctx entryVa [.long 0x10 (entryVa + 0x10), .long 0x14 (entryVa + 0x10)]

/-- `module_create_ldr_entry`, `module.c:188–266`; `none` in front is a return of -1. -/
def moduleCreateLdrEntry (ctx : PagingContext) (s : LdrVm) (mod : LdrModule) :
    Option LdrModule × LdrVm :=
  match moduleHeapAlloc s.mgr 0x50 with
  | (entryVa, mgr) =>
      if entryVa = 0 then (none, { s with mgr })
      else
        match moduleHeapAlloc mgr (UInt32.ofNat (2 * (mod.name.length + 1))) with
        | (nameVa, mgr) =>
            if nameVa = 0 then (none, { s with mgr })
            else
              let m := writeWideString s.mem ctx nameVa mod.name
              let m := writeStruct m ctx entryVa (ldrEntryFields mod entryVa nameVa)
              (some { mod with ldrEntryVa := entryVa },
                { mem := linkLdrEntry m ctx mgr.ldrDataVa entryVa, mgr })

/-- The fields of an empty bucket. -/
def bucketFields (bucketVa : UInt32) : List FieldWrite := [.long 0 bucketVa, .long 4 bucketVa]

/-- A bucket is made an empty list, `module.c:284–290`. -/
def initBucket (ctx : PagingContext) (hashTableVa : UInt32) (m : PhysMem) (i : Nat) : PhysMem :=
  let bucketVa := hashTableVa + UInt32.ofNat i * 8
  writeStruct m ctx bucketVa (bucketFields bucketVa)

/-- `module_init_ldrp_hash_table`, `module.c:274–293`; the table is at a fixed RVA of ntdll. -/
def moduleInitLdrpHashTable (m : PhysMem) (ctx : PagingContext) (hashTableVa : UInt32) : PhysMem :=
  (List.range 32).foldl (initBucket ctx hashTableVa) m

/-- `ldrp_hash_module_name`, `module.c:298–309`. A `char` is signed, and so is its remainder. -/
def ldrpHashModuleName : List UInt8 → Int32
  | [] => 0
  | first :: _ =>
      let c := first.toInt8
      let c := if 97 ≤ c ∧ c ≤ 122 then c - 97 + 65 else c
      c.toInt32 % 32

/-- The bucket that `module_link_to_hash_table` links a module into, `module.c:319–321`. -/
def bucketVa (hashTableVa : UInt32) (name : List UInt8) : UInt32 :=
  hashTableVa + (ldrpHashModuleName name * 8).toUInt32

/-- `module_link_to_hash_table`, `module.c:314–328`; `none` is a return of -1. -/
def moduleLinkToHashTable (m : PhysMem) (ctx : PagingContext) (hashTableVa : UInt32)
    (mod : LdrModule) : Option PhysMem :=
  if mod.ldrEntryVa = 0 then none
  else some (listInsertTail m ctx (bucketVa hashTableVa mod.name) (mod.ldrEntryVa + 0x3C))

/-- The calls of a run; modules are numbered. -/
inductive LdrCall where
  | create (mod : Nat)
  | link (mod : Nat)

/-- The machine, the modules, and what `list_insert_tail` has been given for each head. -/
structure LdrRun where
  vm : LdrVm
  modules : Nat → LdrModule
  inserted : UInt32 → List UInt32

/-- An entry is inserted into a list. -/
def LdrRun.insert (r : LdrRun) (head entry : UInt32) : LdrRun :=
  { r with inserted := Function.update r.inserted head (r.inserted head ++ [entry]) }

/-- One call. -/
def ldrStep (ctx : PagingContext) (hashTableVa : UInt32) (r : LdrRun) : LdrCall → LdrRun
  | .create mod =>
      match moduleCreateLdrEntry ctx r.vm (r.modules mod) with
      | (none, vm) => { r with vm }
      | (some m, vm) =>
          ({ r with vm, modules := Function.update r.modules mod m }.insert
            (vm.mgr.ldrDataVa + 0x0C) m.ldrEntryVa).insert
              (vm.mgr.ldrDataVa + 0x14) (m.ldrEntryVa + 0x08)
  | .link mod =>
      match moduleLinkToHashTable r.vm.mem ctx hashTableVa (r.modules mod) with
      | none => r
      | some mem =>
          { r with vm := { r.vm with mem } }.insert (bucketVa hashTableVa (r.modules mod).name)
            ((r.modules mod).ldrEntryVa + 0x3C)

/-- What `module_manager_init` leaves of the manager, `module.c:44–82`. -/
def moduleManagerInit : ModuleManager :=
  { loaderHeapVa := loaderHeapVa, loaderHeapPtr := 0, loaderHeapSize := loaderHeapSize
    ldrDataVa := 0 }

/-- Both tables are initialised, and no module has an entry yet. -/
def ldrStart (ctx : PagingContext) (pebAddr hashTableVa : UInt32) (mem : PhysMem)
    (modules : Nat → LdrModule) : LdrRun :=
  let s := (moduleInitPebLdr ctx pebAddr { mem, mgr := moduleManagerInit }).2
  { vm := { s with mem := moduleInitLdrpHashTable s.mem ctx hashTableVa }
    modules := fun mod => { modules mod with ldrEntryVa := 0 }
    inserted := fun _ => [] }

/-- The links of a list as the guest sees them: `Flink` at an address and `Blink` behind it. -/
def guestLinks (m : PhysMem) (ctx : PagingContext) : Links UInt32 where
  next va := guestWord m ctx va
  prev va := guestWord m ctx (va + 4)

/-- The heads of the two lists of modules and of the 32 buckets. -/
def listHeads (hashTableVa : UInt32) : List UInt32 :=
  [loaderHeapVa + 0x0C, loaderHeapVa + 0x14] ++
    (List.range 32).map fun i => hashTableVa + UInt32.ofNat i * 8

/-- Every list is circular: those that have been initialised and those that something has been
inserted into. -/
def ListsCircular (ctx : PagingContext) (hashTableVa : UInt32) (r : LdrRun) : Prop :=
  ∀ head, head ∈ listHeads hashTableVa ∨ r.inserted head ≠ [] →
    (guestLinks r.vm.mem ctx).Circular head (r.inserted head)

end Wbox.Loader
