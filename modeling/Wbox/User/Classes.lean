import Wbox.User.Atoms
import Wbox.User.DesktopHeap
import Wbox.Vm.Bytes

/-!
# Window classes

The list of window classes with their atoms (`src/user/user_class.c`), and the copies of class
records in the desktop heap (`src/user/guest_cls.c`).
-/

namespace Wbox.User

open Wbox.Vm

/-- `CS_GLOBALCLASS`. -/
def csGlobalClass : UInt32 := 0x4000
/-- `CSF_SYSTEMCLASS`. -/
def csfSystemClass : UInt32 := 0x0002
/-- `ICLS_CTL_MAX`. -/
def iclsCtlMax : Nat := 17
/-- `ICLS_DIALOG`. -/
def iclsDialog : Nat := 16

/-- `WBOX_CLS`, but for the menu name and the extra bytes of the class. -/
structure Cls where
  atomClassName : UInt16 := 0
  atomNVClassName : UInt16 := 0
  style : UInt32 := 0
  lpfnWndProc : UInt32 := 0
  cbClsExtra : Int32 := 0
  cbWndExtra : Int32 := 0
  hModule : UInt32 := 0
  hIcon : UInt32 := 0
  hIconSm : UInt32 := 0
  hCursor : UInt32 := 0
  hbrBackground : UInt32 := 0
  szClassName : WideName
  fnid : UInt32 := 0
  flags : UInt32 := 0
  cWndReferenceCount : Nat := 0
  guestClsVa : UInt32 := 0
  deriving DecidableEq

/-- What a window is made from. -/
def Cls.toWndClass (cls : Cls) : WndClass where
  lpfnWndProc := cls.lpfnWndProc
  cbWndExtra := cls.cbWndExtra
  fnid := cls.fnid
  guestClsVa := cls.guestClsVa

/-- Global and system classes match any instance, `user_class.c:235–246`. -/
def Cls.Matches (cls : Cls) (hInstance : UInt32) : Prop :=
  cls.style &&& csGlobalClass ≠ 0 ∨ cls.flags &&& csfSystemClass ≠ 0 ∨
    cls.hModule = hInstance ∨ hInstance = 0

instance (cls : Cls) (hInstance : UInt32) : Decidable (cls.Matches hInstance) :=
  inferInstanceAs (Decidable (_ ∨ _))

section Guest

/-! The offsets of the fields of a guest `CLS`, `desktop_heap.h:75–97`. -/

def clsPclsNext : UInt32 := 0x00
def clsAtomClassName : UInt32 := 0x04
def clsAtomNVClassName : UInt32 := 0x06
def clsStyle : UInt32 := 0x08
def clsLpfnWndProc : UInt32 := 0x0C
def clsCbClsExtra : UInt32 := 0x10
def clsCbWndExtra : UInt32 := 0x14
def clsHModule : UInt32 := 0x18
def clsSpIcn : UInt32 := 0x1C
def clsSpIcnSm : UInt32 := 0x20
def clsHIcon : UInt32 := 0x24
def clsHIconSm : UInt32 := 0x28
def clsHCursor : UInt32 := 0x2C
def clsHbrBackground : UInt32 := 0x30
def clsLpszMenuName : UInt32 := 0x34
def clsLpszAnsiClassName : UInt32 := 0x38
def clsSpcpdcFirst : UInt32 := 0x3C
def clsPclsBase : UInt32 := 0x40
def clsCWndReferenceCount : UInt32 := 0x44
def clsFnid : UInt32 := 0x48
def clsCsfFlags : UInt32 := 0x4C
def clsLpfnWndProcExtra : UInt32 := 0x50
def clsSize : UInt32 := 0x54

/-- `desktop_heap_write16`, `desktop_heap.c:154–170`. -/
def desktopHeapWrite16 (heap : DesktopHeap) (va : UInt32) (value : UInt16) : DesktopHeap :=
  if va < desktopHeapBaseVa ∨ va + 2 > desktopHeapLimitVa then heap
  else { heap with bytes := storeHalf heap.bytes va.toNat value }

/-- The words that `guest_cls_create` writes behind the two atoms, `guest_cls.c:32–50`. -/
def guestClsFields (cls : Cls) (guestVa : UInt32) : List (UInt32 × UInt32) :=
  [(clsStyle, cls.style), (clsLpfnWndProc, cls.lpfnWndProc),
    (clsCbClsExtra, cls.cbClsExtra.toUInt32), (clsCbWndExtra, cls.cbWndExtra.toUInt32),
    (clsHModule, cls.hModule), (clsSpIcn, 0), (clsSpIcnSm, 0), (clsHIcon, cls.hIcon),
    (clsHIconSm, cls.hIconSm), (clsHCursor, cls.hCursor), (clsHbrBackground, cls.hbrBackground),
    (clsLpszMenuName, 0), (clsLpszAnsiClassName, 0), (clsSpcpdcFirst, 0), (clsPclsBase, guestVa),
    (clsCWndReferenceCount, UInt32.ofNat cls.cWndReferenceCount), (clsFnid, cls.fnid),
    (clsCsfFlags, cls.flags), (clsLpfnWndProcExtra, cls.lpfnWndProc)]

/-- `guest_cls_create`, `guest_cls.c:9–56`. -/
def guestClsCreate (heap : DesktopHeap) (cls : Cls) : DesktopHeap × UInt32 :=
  let (heap, va) := desktopHeapAlloc heap clsSize
  if va = 0 then (heap, 0)
  else
    let heap := desktopHeapWrite32 heap (va + clsPclsNext) 0
    let heap := desktopHeapWrite16 heap (va + clsAtomClassName) cls.atomClassName
    let heap := desktopHeapWrite16 heap (va + clsAtomNVClassName) cls.atomNVClassName
    (desktopHeapWrites heap va (guestClsFields cls va), va)

/-- `guest_cls_destroy`, `guest_cls.c:58–65`. -/
def guestClsDestroy (heap : DesktopHeap) (va : UInt32) : DesktopHeap :=
  if va ≠ 0 ∧ desktopHeapContains va then desktopHeapWrite16 heap (va + clsAtomClassName) 0
  else heap

end Guest

/-- The classes at their addresses, `g_class_list` from its first class on, `g_system_classes` and
`g_atom_table`. -/
structure ClassTable where
  cls : Int → Cls
  list : List Int
  systemClasses : Nat → Int
  atoms : AtomTable

namespace ClassTable

/-- Change a class. -/
def set (t : ClassTable) (c : Int) (cls : Cls) : ClassTable :=
  { t with cls := Function.update t.cls c cls }

/-- `user_class_find_by_atom`, `user_class.c:253–266`; 0 is `NULL`. -/
def userClassFindByAtom (t : ClassTable) (atom : UInt16) : Int :=
  if atom = 0 then 0
  else (t.list.find? fun c => (t.cls c).atomClassName = atom).getD 0

/-- `user_class_find`, `user_class.c:222–251`, of a string at a host address, which is taken for
an atom when the upper half of its lower word is zero. -/
def userClassFind (t : ClassTable) (addr : UInt64) (className : WideName) (hInstance : UInt32) :
    Int :=
  if addr = 0 then 0
  else if addr &&& 0xFFFF0000 = 0 then t.userClassFindByAtom addr.toUInt16
  else
    (t.list.find? fun c => wcsicmpLocal (t.cls c).szClassName.chars className.chars = 0 ∧
      (t.cls c).Matches hInstance).getD 0

/-- `user_class_register`, `user_class.c:135–174`, of a new class at an address, with the host
address of its name. -/
def userClassRegister (t : ClassTable) (heap : Option DesktopHeap) (c : Int) (addr : UInt64)
    (cls : Cls) : ClassTable × Option DesktopHeap × UInt16 :=
  if cls.szClassName.chars = [] then (t, heap, 0)
  else if t.userClassFind addr cls.szClassName cls.hModule ≠ 0 then (t, heap, 0)
  else
    let (atoms, atom) :=
      if cls.atomClassName = 0 then t.atoms.userClassAddAtom cls.szClassName
      else (t.atoms, cls.atomClassName)
    if atom = 0 then ({ t with atoms }, heap, 0)
    else
      let cls := { cls with atomClassName := atom }
      let t := { t with atoms, list := c :: t.list }
      match heap with
      | none => (t.set c cls, none, atom)
      | some heap =>
        let (heap, va) := guestClsCreate heap cls
        (t.set c { cls with guestClsVa := va }, some heap, atom)

/-- The loop of `user_class_unregister`, `user_class.c:178–217`: the class that is freed, and the
list without it. -/
def unregisterLoop (t : ClassTable) (className : WideName) (hInstance : UInt32) :
    List Int → Option (Int × List Int)
  | [] => none
  | c :: rest =>
    let cls := t.cls c
    let next := (t.unregisterLoop className hInstance rest).map fun r => (r.1, c :: r.2)
    if wcsicmpLocal cls.szClassName.chars className.chars = 0 then
      if cls.flags &&& csfSystemClass ≠ 0 then none
      else if cls.style &&& csGlobalClass = 0 ∧ cls.hModule ≠ hInstance then next
      else if cls.cWndReferenceCount > 0 then none
      else some (c, rest)
    else next

/-- `user_class_unregister`, `user_class.c:176–220`; with the class that is freed, if one is. -/
def userClassUnregister (t : ClassTable) (heap : Option DesktopHeap) (className : WideName)
    (hInstance : UInt32) : ClassTable × Option DesktopHeap × Option Int :=
  match t.unregisterLoop className hInstance t.list with
  | none => (t, heap, none)
  | some (c, rest) =>
    let va := (t.cls c).guestClsVa
    ({ t with list := rest }, if va ≠ 0 then heap.map fun heap => guestClsDestroy heap va else heap,
      some c)

/-- `user_class_add_ref`, `user_class.c:295–300`. -/
def userClassAddRef (t : ClassTable) (c : Int) : ClassTable :=
  if c = 0 then t
  else t.set c { t.cls c with cWndReferenceCount := (t.cls c).cWndReferenceCount + 1 }

/-- `user_class_release`, `user_class.c:302–307`. -/
def userClassRelease (t : ClassTable) (c : Int) : ClassTable :=
  if c ≠ 0 ∧ (t.cls c).cWndReferenceCount > 0 then
    t.set c { t.cls c with cWndReferenceCount := (t.cls c).cWndReferenceCount - 1 }
  else t

/-- `user_class_get_system_class`, `user_class.c:324–330`. -/
def userClassGetSystemClass (t : ClassTable) (icls : Nat) : Int :=
  if icls ≥ iclsCtlMax then 0 else t.systemClasses icls

end ClassTable

section SystemClasses

/-- A string literal. -/
def wide (cs : List Char) : WideName where
  chars := (cs.map Char.val).filter (· ≠ 0)
  noNul h := by simpa using (List.mem_filter.mp h).2

/-- An element of `system_class_defs`. -/
structure SystemClassDef where
  name : WideName
  icls : Nat
  fnid : UInt32
  style : UInt32
  cbWndExtra : Int32

/-- `system_class_defs`, `user_class.c:26–44`. -/
def systemClassDefs : List SystemClassDef :=
  [⟨wide ['B', 'u', 't', 't', 'o', 'n'], 0, 0x029A, 0x008B, 0⟩,
    ⟨wide ['E', 'd', 'i', 't'], 1, 0x029B, 0x4088, 6⟩,
    ⟨wide ['S', 't', 'a', 't', 'i', 'c'], 2, 0x029C, 0x4088, 0⟩,
    ⟨wide ['L', 'i', 's', 't', 'B', 'o', 'x'], 3, 0x029D, 0x4088, 0⟩,
    ⟨wide ['S', 'c', 'r', 'o', 'l', 'l', 'B', 'a', 'r'], 4, 0x029E, 0x008B, 0⟩,
    ⟨wide ['C', 'o', 'm', 'b', 'o', 'B', 'o', 'x'], 5, 0x029F, 0x4088, 0⟩,
    ⟨wide ['M', 'D', 'I', 'C', 'l', 'i', 'e', 'n', 't'], 6, 0x02A0, 0x4000, 0⟩,
    ⟨wide ['C', 'o', 'm', 'b', 'o', 'L', 'B', 'o', 'x'], 7, 0x02A1, 0x4808, 0⟩]

/-- A round of `user_class_register_system_classes`, `user_class.c:336–378`, with the memory that
`calloc` gives. -/
def ClassTable.registerSystemClass (t : ClassTable) (d : SystemClassDef) (c : Int) : ClassTable :=
  let name := d.name.copied (maxClassName - 1)
  let (atoms, atom) := t.atoms.userClassAddAtom name
  { cls := Function.update t.cls c
      { szClassName := name, style := d.style ||| csGlobalClass, fnid := d.fnid
        cbWndExtra := d.cbWndExtra, flags := csfSystemClass, atomClassName := atom }
    list := c :: t.list
    systemClasses := if d.icls < iclsCtlMax then Function.update t.systemClasses d.icls c
      else t.systemClasses
    atoms }

/-- `user_class_register_system_classes`, `user_class.c:332–381`; `calloc` gives these addresses,
or 0. -/
def ClassTable.userClassRegisterSystemClasses (t : ClassTable) :
    List SystemClassDef → List Int → ClassTable × Int
  | [], _ => (t, 0)
  | d :: ds, blocks =>
    if blocks.headD 0 = 0 then (t, -1)
    else (t.registerSystemClass d (blocks.headD 0)).userClassRegisterSystemClasses ds blocks.tail

/-- `user_class_init`, `user_class.c:59–73`. -/
def userClassInit (blocks : List Int) : ClassTable × Int :=
  ClassTable.userClassRegisterSystemClasses
    { cls := fun _ => { szClassName := wide [] }, list := [], systemClasses := fun _ => 0
      atoms := AtomTable.clear }
    systemClassDefs blocks

end SystemClasses

end Wbox.User
