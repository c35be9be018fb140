import Mathlib.Data.Finset.Insert
import Wbox.Lib.Forest
import Wbox.User.DesktopHeap
import Wbox.Vm.Bytes

/-!
# The windows in memory

Creating, linking, unlinking and destroying windows (`src/user/user_window.c:19–349`), with what
these write to the handle tables and to the desktop heap. The windows are host memory: a call that
touches a window after it has been freed has no result, and neither has one that does not return.
-/

namespace Wbox.User

open Wbox.Lib Wbox.Vm

/-- `CW_USEDEFAULT`. -/
def cwUseDefault : Int32 := -0x80000000

/-- `GUEST_HANDLE_ENTRY_SIZE`. -/
def guestHandleEntrySize : Nat := 12

/-- The value of a `USER_HANDLE_TYPE`. -/
def UserHandleType.value (type : UserHandleType) : UInt8 := UInt8.ofNat type.ctorIdx

/-- `user_handle_set_guest_ptr`, `user_handle_table.c:305–341`: the bytes from
`GUEST_HANDLE_ENTRIES_VA` on. The flags of an entry are always 0. -/
def userHandleSetGuestPtr (t : UserHandleTable) (bytes : Nat → UInt8) (handle guestPtr : UInt32) :
    Nat → UInt8 :=
  let i := userHandleIndex handle
  let gen := userHandleGen handle
  let entry := t.entries i
  if handle = 0 then bytes
  else if i ≥ userMaxHandles then bytes
  else if entry.generation ≠ gen ∨ entry.type = .free then bytes
  else
    let entryVa := i * guestHandleEntrySize
    let bytes := storeWord bytes (entryVa + 0) guestPtr
    let bytes := storeWord bytes (entryVa + 4) 0
    let bytes := storeHalf bytes (entryVa + 8) entry.type.value.toUInt16
    storeHalf bytes (entryVa + 10) gen

/-- The windows at their addresses, those that are allocated, the desktop, the handle table, the
guest's handle entries and the desktop heap once it is initialized. -/
structure WindowStore where
  wnd : Int → Wnd
  live : Finset Int
  desktop : Int
  handles : UserHandleTable
  guestEntries : Nat → UInt8
  heap : Option DesktopHeap

/-- What `calloc` gives for a window, and whether it gives the extra bytes. -/
structure WndMemory where
  wnd : Int
  extraBytes : Bool
  deriving DecidableEq, Repr

/-- The arguments of `window_create_internal` but the title. -/
structure WndArgs where
  pcls : Option WndClass := none
  style : UInt32 := 0
  exStyle : UInt32 := 0
  x : Int32 := 0
  y : Int32 := 0
  cx : Int32 := 0
  cy : Int32 := 0
  hInstance : UInt32 := 0
  hMenu : UInt32 := 0
  dwExtraParam : UInt32 := 0
  deriving DecidableEq, Repr

/-- The place and the size with their defaults, `user_window.c:177–181`. -/
def WndArgs.withDefaults (a : WndArgs) : WndArgs :=
  { a with
    x := if a.x = cwUseDefault then 100 else a.x
    y := if a.y = cwUseDefault then 100 else a.y
    cx := if a.cx = cwUseDefault then 400 else a.cx
    cy := if a.cy = cwUseDefault then 300 else a.cy }

/-- The state of a new window, `user_window.c:87–98`. -/
def initialState (style : UInt32) : UInt32 :=
  let state := if style &&& wsVisible ≠ 0 then wndsVisible else 0
  let state := if style &&& wsDisabled ≠ 0 then state ||| wndsDisabled else state
  let state := if style &&& wsMaximize ≠ 0 then state ||| wndsMaximized else state
  if style &&& wsMinimize ≠ 0 then state ||| wndsMinimized else state

/-- The fields of a new window, `user_window.c:52–98`. -/
def newWnd (hwnd : UInt32) (a : WndArgs) : Wnd :=
  let rcWindow : WboxRect := { left := a.x, top := a.y, right := a.x + a.cx, bottom := a.y + a.cy }
  let cbExtra := (a.pcls.map WndClass.cbWndExtra).getD 0
  { hwnd, pcls := a.pcls, lpfnWndProc := (a.pcls.map WndClass.lpfnWndProc).getD 0
    style := a.style, exStyle := a.exStyle, hInstance := a.hInstance, idMenu := a.hMenu
    dwExtraParam := a.dwExtraParam, rcWindow, rcClient := calcClientRect a.style a.exStyle rcWindow
    cbWndExtra := if cbExtra > 0 then cbExtra else 0, state := initialState a.style }

namespace WindowStore

/-- A window that has not been freed. -/
def read (s : WindowStore) (w : Int) : Option Wnd := if w ∈ s.live then some (s.wnd w) else none

/-- Change a window. -/
def set (s : WindowStore) (w : Int) (f : Wnd → Wnd) : WindowStore :=
  { s with wnd := Function.update s.wnd w (f (s.wnd w)) }

/-- Change a window that has not been freed. -/
def modify (s : WindowStore) (w : Int) (f : Wnd → Wnd) : Option WindowStore :=
  if w ∈ s.live then some (s.set w f) else none

/-- Change the window that a link goes to, if it goes to one. -/
def modifyAt (s : WindowStore) (w : Int) (f : Wnd → Wnd) : Option WindowStore :=
  if w = 0 then some s else s.modify w f

/-- A new window in memory, with its guest `WND` if there is a heap, `user_window.c:102–112`. -/
def place (s : WindowStore) (w : Int) (wnd : Wnd) : WindowStore :=
  match s.heap with
  | none => { s with wnd := Function.update s.wnd w wnd, live := insert w s.live }
  | some heap =>
    let (heap, va) := guestWndCreate heap wnd
    { s with
      wnd := Function.update s.wnd w { wnd with guestWndVa := va }
      live := insert w s.live
      heap := some heap
      guestEntries :=
        if va ≠ 0 then userHandleSetGuestPtr s.handles s.guestEntries wnd.hwnd va
        else s.guestEntries }

/-- `window_create_internal`, `user_window.c:22–112`. -/
def windowCreateInternal (s : WindowStore) (mem : WndMemory) (a : WndArgs) : WindowStore × Int :=
  if mem.wnd = 0 then (s, 0)
  else
    let (handles, hwnd) := userHandleAlloc s.handles mem.wnd .window 0
    if hwnd = 0 then ({ s with handles }, 0)
    else if (a.pcls.map WndClass.cbWndExtra).getD 0 > 0 ∧ mem.extraBytes = false then
      ({ s with handles := (userHandleFree handles hwnd).1 }, 0)
    else (place { s with handles } mem.wnd (newWnd hwnd a), mem.wnd)

/-- `user_window_init`, `user_window.c:114–139`. -/
def userWindowInit (s : WindowStore) (mem : WndMemory) (desktopCls : Option WndClass) :
    WindowStore × Int :=
  let (s, w) := s.windowCreateInternal mem
    { pcls := desktopCls, style := wsPopup ||| wsVisible ||| wsClipChildren, cx := 800, cy := 600 }
  ({ s with desktop := w }, if w = 0 then -1 else 0)

/-- `guest_wnd_get_va`, `guest_wnd.c:211–217`. -/
def guestWndGetVa (s : WindowStore) (w : Int) : Option UInt32 :=
  if w = 0 then some 0 else (s.read w).map Wnd.guestWndVa

/-- `guest_wnd_update_hierarchy`, `guest_wnd.c:182–202`. -/
def guestWndUpdateHierarchy (s : WindowStore) (w : Int) : Option WindowStore :=
  if w = 0 then some s
  else do
    let host ← s.read w
    if host.guestWndVa = 0 then return s
    let nextVa ← s.guestWndGetVa host.spwndNext
    let prevVa ← s.guestWndGetVa host.spwndPrev
    let parentVa ← s.guestWndGetVa host.spwndParent
    let childVa ← s.guestWndGetVa host.spwndChild
    let ownerVa ← s.guestWndGetVa host.spwndOwner
    return { s with
      heap := s.heap.map fun heap => desktopHeapWrites heap host.guestWndVa
        [(wndSpwndNext, nextVa), (wndSpwndPrev, prevVa), (wndSpwndParent, parentVa),
          (wndSpwndChild, childVa), (wndSpwndOwner, ownerVa)] }

/-- The link of a parent to its first child, `user_window.c:319–321`. -/
def unlinkFirst (s : WindowStore) (w parent next : Int) : Option WindowStore :=
  if parent = 0 then some s
  else do
    let wnd ← s.read parent
    if wnd.spwndChild = w then s.modify parent fun wnd => { wnd with spwndChild := next }
    else some s

/-- `user_window_unlink`, `user_window.c:304–335`. -/
def userWindowUnlink (s : WindowStore) (w : Int) : Option WindowStore :=
  if w = 0 then some s
  else do
    let old ← s.read w
    let s ← s.modifyAt old.spwndPrev fun prev => { prev with spwndNext := old.spwndNext }
    let wnd ← s.read w
    let s ← s.modifyAt wnd.spwndNext fun next => { next with spwndPrev := wnd.spwndPrev }
    let wnd ← s.read w
    let s ← s.unlinkFirst w wnd.spwndParent wnd.spwndNext
    let s ← s.modify w fun wnd => { wnd with spwndParent := 0, spwndNext := 0, spwndPrev := 0 }
    let s ← s.guestWndUpdateHierarchy w
    let s ← s.guestWndUpdateHierarchy old.spwndPrev
    let s ← s.guestWndUpdateHierarchy old.spwndNext
    s.guestWndUpdateHierarchy old.spwndParent

/-- `user_window_link_child`, `user_window.c:278–302`. -/
def userWindowLinkChild (s : WindowStore) (parent child : Int) : Option WindowStore :=
  if parent = 0 ∨ child = 0 then some s
  else do
    let s ← s.userWindowUnlink child
    let s ← s.modify child fun wnd => { wnd with spwndParent := parent }
    let par ← s.read parent
    let first := par.spwndChild
    let s ← s.modify child fun wnd => { wnd with spwndNext := first, spwndPrev := 0 }
    let s ← s.modifyAt first fun wnd => { wnd with spwndPrev := child }
    let s ← s.guestWndUpdateHierarchy first
    let s ← s.modify parent fun wnd => { wnd with spwndChild := child }
    let s ← s.guestWndUpdateHierarchy child
    s.guestWndUpdateHierarchy parent

/-- `user_window_create`, `user_window.c:162–215`; the window, or `NULL`. -/
def userWindowCreate (s : WindowStore) (mem : WndMemory) (a : WndArgs) (parent owner : Int) :
    Option (WindowStore × Int) :=
  let parent := if a.style &&& wsChild ≠ 0 ∧ parent = 0 then s.desktop else parent
  let parent := if a.style &&& wsChild = 0 ∧ parent = 0 then s.desktop else parent
  let (s, w) := s.windowCreateInternal mem a.withDefaults
  if w = 0 then some (s, 0)
  else do
    let s ← s.modify w fun wnd => { wnd with spwndOwner := owner }
    let s ← s.userWindowLinkChild parent w
    return (s, w)

/-- The end of `user_window_destroy`, `user_window.c:236–258`. -/
def release (s : WindowStore) (w : Int) : Option WindowStore := do
  let s ← s.userWindowUnlink w
  let wnd ← s.read w
  return { s with
    heap := if wnd.guestWndVa ≠ 0 then s.heap.map fun heap => guestWndDestroy heap wnd.guestWndVa
      else s.heap
    handles := (userHandleFree s.handles wnd.hwnd).1
    live := s.live.erase w }

/-- The loop over the children, `user_window.c:231–233`, at most `n` times around. -/
def whileChild (destroy : WindowStore → Int → Option WindowStore) (w : Int) :
    Nat → WindowStore → Option WindowStore
  | 0, _ => none
  | n + 1, s => do
    let wnd ← s.read w
    if wnd.spwndChild = 0 then return s
    let s ← destroy s wnd.spwndChild
    whileChild destroy w n s

/-- `user_window_destroy`, `user_window.c:217–259`, at most `n` calls deep. -/
def userWindowDestroy : Nat → WindowStore → Int → Option WindowStore
  | 0, _, _ => none
  | n + 1, s, w =>
    if w = 0 then some s
    else if w = s.desktop then some s
    else do
      let s ← s.modify w fun wnd => { wnd with state := wnd.state ||| wndsDestroyed }
      let s ← whileChild (userWindowDestroy n) w (n + 1) s
      s.release w

end WindowStore

end Wbox.User
