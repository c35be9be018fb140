import Wbox.User.Window
import Wbox.Vm.Memory

/-!
# The desktop heap and the windows in it

A bump allocator over guest memory (`src/user/desktop_heap.c`), and the copies of window records
that user32 reads there (`src/user/guest_wnd.c`). The heap is one block of physical memory mapped
at `DESKTOP_HEAP_BASE_VA`, so its bytes stand at their guest addresses.
-/

namespace Wbox.User

open Wbox.Vm

/-- `DESKTOP_HEAP_BASE_VA`. -/
def desktopHeapBaseVa : UInt32 := 0x01000000
/-- `DESKTOP_HEAP_SIZE`. -/
def desktopHeapSize : UInt32 := 1024 * 1024
/-- `DESKTOP_HEAP_LIMIT_VA`. -/
def desktopHeapLimitVa : UInt32 := desktopHeapBaseVa + desktopHeapSize

/-- `desktop_heap_t` once it is initialized, with the bytes of the heap. -/
structure DesktopHeap where
  bytes : Nat → UInt8 := fun _ => 0
  allocOffset : UInt32 := 0

/-- `desktop_heap_alloc`, `desktop_heap.c:77–107`. -/
def desktopHeapAlloc (heap : DesktopHeap) (size : UInt32) : DesktopHeap × UInt32 :=
  if size = 0 then (heap, 0)
  else
    let size := (size + 3) &&& ~~~3
    if heap.allocOffset + size > desktopHeapSize then (heap, 0)
    else
      ({ heap with allocOffset := heap.allocOffset + size }, desktopHeapBaseVa + heap.allocOffset)

/-- `desktop_heap_write32`, `desktop_heap.c:134–153`. -/
def desktopHeapWrite32 (heap : DesktopHeap) (va value : UInt32) : DesktopHeap :=
  if va < desktopHeapBaseVa ∨ va + 4 > desktopHeapLimitVa then heap
  else { heap with bytes := storeWord heap.bytes va.toNat value }

/-- `desktop_heap_write8`, `desktop_heap.c:174–189`. -/
def desktopHeapWrite8 (heap : DesktopHeap) (va : UInt32) (value : UInt8) : DesktopHeap :=
  if va < desktopHeapBaseVa ∨ va + 1 > desktopHeapLimitVa then heap
  else { heap with bytes := Function.update heap.bytes va.toNat value }

/-- `desktop_heap_contains`, `desktop_heap.c:191–198`. -/
def desktopHeapContains (va : UInt32) : Bool := va ≥ desktopHeapBaseVa ∧ va < desktopHeapLimitVa

/-! The offsets of the fields of a guest `WND`, `desktop_heap.h:29–70`. -/

def wndHeadH : UInt32 := 0x00
def wndHeadCLockObj : UInt32 := 0x04
def wndHeadPti : UInt32 := 0x08
def wndHeadRpDesk : UInt32 := 0x0C
def wndHeadPSelf : UInt32 := 0x10
def wndState : UInt32 := 0x14
def wndState2 : UInt32 := 0x18
def wndExStyle : UInt32 := 0x1C
def wndStyle : UInt32 := 0x20
def wndHModule : UInt32 := 0x24
def wndFnid : UInt32 := 0x28
def wndSpwndNext : UInt32 := 0x2C
def wndSpwndPrev : UInt32 := 0x30
def wndSpwndParent : UInt32 := 0x34
def wndSpwndChild : UInt32 := 0x38
def wndSpwndOwner : UInt32 := 0x3C
def wndRcWindow : UInt32 := 0x40
def wndRcClient : UInt32 := 0x50
def wndLpfnWndProc : UInt32 := 0x60
def wndPcls : UInt32 := 0x64
def wndHrgnUpdate : UInt32 := 0x68
def wndPropListHead : UInt32 := 0x6C
def wndPropListItems : UInt32 := 0x74
def wndPSBInfo : UInt32 := 0x78
def wndSystemMenu : UInt32 := 0x7C
def wndIdMenu : UInt32 := 0x80
def wndHrgnClip : UInt32 := 0x84
def wndHrgnNewFrame : UInt32 := 0x88
def wndStrName : UInt32 := 0x8C
def wndCbWndExtra : UInt32 := 0x98
def wndSpwndLastActive : UInt32 := 0x9C
def wndHImc : UInt32 := 0xA0
def wndDwUserData : UInt32 := 0xA4
def wndPActCtx : UInt32 := 0xA8
def wndSpwndClipboard : UInt32 := 0xAC
def wndExStyle2 : UInt32 := 0xB0
def wndInternalPos : UInt32 := 0xB4
def wndFlags : UInt32 := 0xD0
def wndPSBInfoEx : UInt32 := 0xD4
def wndThreadListEntry : UInt32 := 0xD8
def wndDialogPointer : UInt32 := 0xE0
def wndBaseSize : UInt32 := 0xE4

/-- A series of `desktop_heap_write32` calls at offsets from an address. -/
def desktopHeapWrites (heap : DesktopHeap) (va : UInt32) (fields : List (UInt32 × UInt32)) :
    DesktopHeap :=
  fields.foldl (fun heap f => desktopHeapWrite32 heap (va + f.1) f.2) heap

/-- The four words of a rectangle. -/
def rectFields (offset : UInt32) (rc : WboxRect) : List (UInt32 × UInt32) :=
  [(offset + 0, rc.left.toUInt32), (offset + 4, rc.top.toUInt32),
    (offset + 8, rc.right.toUInt32), (offset + 12, rc.bottom.toUInt32)]

/-- The fields that `guest_wnd_create` writes, `guest_wnd.c:38–128`. -/
def guestWndFields (wnd : Wnd) (guestVa : UInt32) : List (UInt32 × UInt32) :=
  [(wndHeadH, wnd.hwnd), (wndHeadCLockObj, 1), (wndHeadPti, 0), (wndHeadRpDesk, 0),
    (wndHeadPSelf, guestVa), (wndState, wnd.state), (wndState2, wnd.state2),
    (wndExStyle, wnd.exStyle), (wndStyle, wnd.style), (wndHModule, wnd.hInstance),
    (wndFnid, (wnd.pcls.map WndClass.fnid).getD 0),
    (wndSpwndNext, 0), (wndSpwndPrev, 0), (wndSpwndParent, 0), (wndSpwndChild, 0),
    (wndSpwndOwner, 0)] ++
  rectFields wndRcWindow wnd.rcWindow ++ rectFields wndRcClient wnd.rcClient ++
  [(wndLpfnWndProc, wnd.lpfnWndProc), (wndPcls, (wnd.pcls.map WndClass.guestClsVa).getD 0),
    (wndHrgnUpdate, wnd.hrgnUpdate), (wndPropListHead + 0, 0), (wndPropListHead + 4, 0),
    (wndPropListItems, 0), (wndPSBInfo, 0), (wndSystemMenu, 0), (wndIdMenu, wnd.idMenu),
    (wndHrgnClip, 0), (wndHrgnNewFrame, 0), (wndStrName + 0, 0), (wndStrName + 4, 0),
    (wndStrName + 8, 0), (wndCbWndExtra, wnd.cbWndExtra.toUInt32), (wndSpwndLastActive, 0),
    (wndHImc, 0), (wndDwUserData, wnd.dwUserData), (wndPActCtx, 0), (wndSpwndClipboard, 0),
    (wndExStyle2, 0), (wndInternalPos + 0, 0), (wndInternalPos + 4, 0), (wndInternalPos + 8, 0),
    (wndInternalPos + 12, 0), (wndInternalPos + 16, 0), (wndInternalPos + 20, 0),
    (wndInternalPos + 24, 0), (wndFlags, 0), (wndPSBInfoEx, 0), (wndThreadListEntry + 0, 0),
    (wndThreadListEntry + 4, 0), (wndDialogPointer, 0)]

/-- `guest_wnd_create`, `guest_wnd.c:12–142`. -/
def guestWndCreate (heap : DesktopHeap) (wnd : Wnd) : DesktopHeap × UInt32 :=
  let size := if wnd.cbWndExtra > 0 then wndBaseSize + wnd.cbWndExtra.toUInt32 else wndBaseSize
  let (heap, va) := desktopHeapAlloc heap size
  if va = 0 then (heap, 0)
  else
    let heap := desktopHeapWrites heap va (guestWndFields wnd va)
    let extra := List.range wnd.cbWndExtra.toInt.toNat
    (extra.foldl (fun heap i => desktopHeapWrite8 heap (va + wndBaseSize + UInt32.ofNat i) 0) heap,
      va)

/-- `guest_wnd_destroy`, `guest_wnd.c:144–152`. -/
def guestWndDestroy (heap : DesktopHeap) (va : UInt32) : DesktopHeap :=
  if va ≠ 0 ∧ desktopHeapContains va then desktopHeapWrite32 heap (va + wndHeadH) 0 else heap

end Wbox.User
