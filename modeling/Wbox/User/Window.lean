import Wbox.User.Windows

/-!
# Window records

`WBOX_WND` with the fields that creating, showing, moving and changing a window use
(`src/user/user_window.h`), and the operations on a single record (`src/user/user_window.c:337–549`).
-/

namespace Wbox.User

/-- `WBOX_RECT`. -/
structure WboxRect where
  left : Int32 := 0
  top : Int32 := 0
  right : Int32 := 0
  bottom : Int32 := 0
  deriving DecidableEq, Repr

/-- `WS_POPUP`. -/
def wsPopup : UInt32 := 0x80000000
/-- `WS_CHILD`. -/
def wsChild : UInt32 := 0x40000000
/-- `WS_MINIMIZE`. -/
def wsMinimize : UInt32 := 0x20000000
/-- `WS_VISIBLE`. -/
def wsVisible : UInt32 := 0x10000000
/-- `WS_DISABLED`. -/
def wsDisabled : UInt32 := 0x08000000
/-- `WS_CLIPCHILDREN`. -/
def wsClipChildren : UInt32 := 0x02000000
/-- `WS_MAXIMIZE`. -/
def wsMaximize : UInt32 := 0x01000000
/-- `WS_CAPTION`. -/
def wsCaption : UInt32 := 0x00C00000
/-- `WS_BORDER`. -/
def wsBorder : UInt32 := 0x00800000
/-- `WS_DLGFRAME`. -/
def wsDlgFrame : UInt32 := 0x00400000
/-- `WS_THICKFRAME`. -/
def wsThickFrame : UInt32 := 0x00040000
/-- `WS_EX_WINDOWEDGE`. -/
def wsExWindowEdge : UInt32 := 0x00000100
/-- `WS_EX_CLIENTEDGE`. -/
def wsExClientEdge : UInt32 := 0x00000200

/-- `WNDS_DISABLED`. -/
def wndsDisabled : UInt32 := 0x00000002
/-- `WNDS_MAXIMIZED`. -/
def wndsMaximized : UInt32 := 0x00000004
/-- `WNDS_MINIMIZED`. -/
def wndsMinimized : UInt32 := 0x00000008
/-- `WNDS_DESTROYED`. -/
def wndsDestroyed : UInt32 := 0x00000040

/-- `DEFAULT_BORDER_WIDTH`. -/
def defaultBorderWidth : Int32 := 4
/-- `DEFAULT_CAPTION_HEIGHT`. -/
def defaultCaptionHeight : Int32 := 19

/-- `WBOX_CLS`: the fields that a window is made from. -/
structure WndClass where
  lpfnWndProc : UInt32 := 0
  cbWndExtra : Int32 := 0
  fnid : UInt32 := 0
  guestClsVa : UInt32 := 0
  deriving DecidableEq, Repr

/-- `WBOX_WND` with its other links, its place, its look and the address of its guest `WND`; `pcls`
is what its class was when it was made. -/
structure Wnd extends WboxWnd where
  pcls : Option WndClass := none
  lpfnWndProc : UInt32 := 0
  style : UInt32 := 0
  exStyle : UInt32 := 0
  rcWindow : WboxRect := {}
  rcClient : WboxRect := {}
  spwndPrev : Int := 0
  spwndOwner : Int := 0
  state2 : UInt32 := 0
  cbWndExtra : Int32 := 0
  hInstance : UInt32 := 0
  idMenu : UInt32 := 0
  hrgnUpdate : UInt32 := 0
  dwUserData : UInt32 := 0
  dwExtraParam : UInt32 := 0
  guestWndVa : UInt32 := 0
  deriving DecidableEq, Repr

/-- A rectangle without a border of a width. -/
def WboxRect.inset (rc : WboxRect) (width : Int32) : WboxRect :=
  { left := rc.left + width, top := rc.top + width
    right := rc.right - width, bottom := rc.bottom - width }

/-- `user_window_calc_client_rect`, `user_window.c:350–411`. -/
def calcClientRect (style exStyle : UInt32) (rcWindow : WboxRect) : WboxRect :=
  let rc := if style &&& wsBorder ≠ 0 then rcWindow.inset 1 else rcWindow
  let rc := if style &&& wsThickFrame ≠ 0 then rc.inset defaultBorderWidth else rc
  let rc := if style &&& wsCaption ≠ 0 then { rc with top := rc.top + defaultCaptionHeight } else rc
  let rc := if style &&& wsDlgFrame ≠ 0 then rc.inset defaultBorderWidth else rc
  let rc := if exStyle &&& wsExClientEdge ≠ 0 then rc.inset 2 else rc
  let rc := if exStyle &&& wsExWindowEdge ≠ 0 then rc.inset 2 else rc
  let rc := if rc.right < rc.left then { rc with right := rc.left } else rc
  if rc.bottom < rc.top then { rc with bottom := rc.top } else rc

/-- `user_window_show`, `user_window.c:415–454`: the state and the style of the window. -/
def userWindowShow (state style : UInt32) (nCmdShow : Int32) : UInt32 × UInt32 :=
  if nCmdShow = 0 then (state &&& ~~~wndsVisible, style &&& ~~~wsVisible)
  else if nCmdShow = 5 ∨ nCmdShow = 1 ∨ nCmdShow = 8 ∨ nCmdShow = 4 then
    ((state ||| wndsVisible) &&& ~~~(wndsMinimized ||| wndsMaximized), style ||| wsVisible)
  else if nCmdShow = 2 ∨ nCmdShow = 6 ∨ nCmdShow = 7 ∨ nCmdShow = 11 then
    ((state ||| (wndsVisible ||| wndsMinimized)) &&& ~~~wndsMaximized, style ||| wsVisible)
  else if nCmdShow = 3 then
    ((state ||| (wndsVisible ||| wndsMaximized)) &&& ~~~wndsMinimized, style ||| wsVisible)
  else if nCmdShow = 9 then
    ((state ||| wndsVisible) &&& ~~~(wndsMinimized ||| wndsMaximized), style ||| wsVisible)
  else (state, style)

end Wbox.User
