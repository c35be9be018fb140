import Wbox.User.HandleTable

/-!
# Windows

The windows as the message queue sees them (`src/user/user_window.h`): their handles, their states
and their links. A window is linked when it is created, below an older one
(`src/user/user_window.c:200–207`), so the way up from a window ends, and so does the walk over the
windows below the desktop.
-/

namespace Wbox.User

/-- `WNDS_VISIBLE`. -/
def wndsVisible : UInt32 := 0x00000001
/-- `WNDS_SENDNCPAINT`. -/
def wndsSendNcPaint : UInt32 := 0x00000080
/-- `WNDS_SENDERASEBACKGROUND`. -/
def wndsSendEraseBackground : UInt32 := 0x00000100
/-- `WNDS_NONCPAINT`. -/
def wndsNoNcPaint : UInt32 := 0x00000200
/-- `WNDS_ERASEBACKGROUND`. -/
def wndsEraseBackground : UInt32 := 0x00000400

/-- `WBOX_WND`: its handle, its links and its state; `NULL` is 0. -/
structure WboxWnd where
  hwnd : UInt32 := 0
  spwndParent : Int := 0
  spwndChild : Int := 0
  spwndNext : Int := 0
  state : UInt32 := 0
  deriving DecidableEq, Repr

/-- The windows at their addresses, the desktop and the handle table. A parent is older than its
children. -/
structure WindowLinks where
  wnd : Int → WboxWnd
  desktop : Int
  handles : UserHandleTable
  age : Int → Nat
  older : ∀ w, (wnd w).spwndParent ≠ 0 → age (wnd w).spwndParent < age w

namespace WindowLinks

/-- The loop up from a parent, `user_message.c:97–105`. -/
def isBelow (ws : WindowLinks) (filter parent : Int) : Bool :=
  if parent = 0 then false
  else if parent = filter then true
  else if _h : (ws.wnd parent).spwndParent = 0 then false
  else ws.isBelow filter (ws.wnd parent).spwndParent
termination_by ws.age parent
decreasing_by exact ws.older parent _h

/-- The loop up to a window that has a parent with a sibling, `user_message.c:147–149`. -/
def goUp (ws : WindowLinks) (w : Int) : Int :=
  let parent := (ws.wnd w).spwndParent
  if _h : parent ≠ 0 ∧ parent ≠ ws.desktop ∧ (ws.wnd parent).spwndNext = 0 then ws.goUp parent else w
termination_by ws.age w
decreasing_by exact ws.older w _h.1

/-- The next window of the walk, `user_message.c:140–155`. -/
def nextWnd (ws : WindowLinks) (w : Int) : Option Int :=
  if (ws.wnd w).spwndChild ≠ 0 then some (ws.wnd w).spwndChild
  else if (ws.wnd w).spwndNext ≠ 0 then some (ws.wnd w).spwndNext
  else
    let parent := (ws.wnd (ws.goUp w)).spwndParent
    if parent ≠ 0 ∧ parent ≠ ws.desktop then some (ws.wnd parent).spwndNext else none

end WindowLinks

/-- The windows below the desktop, with their places in the walk over them. -/
structure Windows extends WindowLinks where
  place : Int → Nat
  ahead : ∀ w v, toWindowLinks.nextWnd w = some v → place v < place w

namespace Windows

/-- `user_window_from_hwnd`, `user_window.c:258–268`. -/
def userWindowFromHwnd (ws : Windows) (hwnd : UInt32) : Int :=
  if hwnd = 0 then ws.desktop else userHandleGetTyped ws.handles hwnd .window

/-- A visible window with something to paint, `user_message.c:135–136`. -/
def needsPaint (ws : Windows) (w : Int) : Bool :=
  (ws.wnd w).state &&& wndsVisible ≠ 0 ∧ (ws.wnd w).state &&&
    (wndsSendNcPaint ||| wndsSendEraseBackground ||| wndsNoNcPaint ||| wndsEraseBackground) ≠ 0

/-- The walk from a window on, `user_message.c:132–157`. -/
def walk (ws : Windows) (w : Int) : Int :=
  if w = 0 then 0
  else if ws.needsPaint w then w
  else
    match _h : ws.nextWnd w with
    | none => 0
    | some v => ws.walk v
termination_by ws.place w
decreasing_by exact ws.ahead w v _h

/-- `find_window_needing_paint`, `user_message.c:124–160`. -/
def findWindowNeedingPaint (ws : Windows) : Int :=
  if ws.desktop = 0 then 0 else ws.walk (ws.wnd ws.desktop).spwndChild

end Windows

end Wbox.User
