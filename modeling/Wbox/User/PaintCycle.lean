import Wbox.Gdi.Creation
import Wbox.Lib.Trace
import Wbox.User.MessageQueue
import Wbox.User.PaintWalk
import Wbox.User.Window
import Wbox.Vm.Memory

/-!
# The paint cycle

Showing, invalidating and painting windows (`src/user/user_syscalls.c:1210–1245`,
`src/nt/win32k_dispatcher.c:1145–1218`) between retrievals of messages. Only `NtUserShowWindow`
marks a window for painting; `NtUserInvalidateRect` does not, and `NtUserBeginPaint` leaves the
marks.
-/

namespace Wbox.User

open Wbox.Lib Wbox.Vm Wbox.Gdi

/-- `WM_SIZE`. -/
def wmSize : UInt32 := 0x0005
/-- `WM_SHOWWINDOW`. -/
def wmShowWindow : UInt32 := 0x0018
/-- `SIZE_RESTORED`. -/
def sizeRestored : UInt32 := 0

/-- `MAKELPARAM`. -/
def makeLParam (l h : Int32) : UInt32 :=
  let low : UInt32 := l.toUInt32 &&& 0xFFFF
  let high : UInt32 := (h.toUInt32 &&& 0xFFFF) <<< 16
  low ||| high

/-- The states that `find_window_needing_paint` asks for. -/
def paintMarks : UInt32 :=
  wndsSendNcPaint ||| wndsSendEraseBackground ||| wndsNoNcPaint ||| wndsEraseBackground

/-- `display_context_t`, with its flags. -/
structure Screen extends Display where
  initialized : Bool
  dirty : Bool

/-- The windows, the message queue, the contexts and the screen. -/
structure PaintSystem where
  windows : Windows
  style : Int → UInt32
  rcClient : Int → WboxRect
  queue : WboxMsgQueue
  gdi : GdiState
  mem : PhysMem
  paging : PagingContext
  display : Option Screen

/-- The state of one window is replaced. -/
def setWnd (wnd : Int → WboxWnd) (w : Int) (state : UInt32) : Int → WboxWnd :=
  Function.update wnd w { wnd w with state }

theorem setWnd_parent (wnd : Int → WboxWnd) (w : Int) (state : UInt32) (v : Int) :
    (setWnd wnd w state v).spwndParent = (wnd v).spwndParent := by
  by_cases hv : v = w
  · rw [hv, setWnd, Function.update_self]
  · rw [setWnd, Function.update_of_ne hv]

theorem setWnd_child (wnd : Int → WboxWnd) (w : Int) (state : UInt32) (v : Int) :
    (setWnd wnd w state v).spwndChild = (wnd v).spwndChild := by
  by_cases hv : v = w
  · rw [hv, setWnd, Function.update_self]
  · rw [setWnd, Function.update_of_ne hv]

theorem setWnd_next (wnd : Int → WboxWnd) (w : Int) (state : UInt32) (v : Int) :
    (setWnd wnd w state v).spwndNext = (wnd v).spwndNext := by
  by_cases hv : v = w
  · rw [hv, setWnd, Function.update_self]
  · rw [setWnd, Function.update_of_ne hv]

theorem setWnd_state (wnd : Int → WboxWnd) (w : Int) (state : UInt32) (v : Int) :
    (setWnd wnd w state v).state = if v = w then state else (wnd v).state := by
  by_cases hv : v = w
  · rw [hv, setWnd, Function.update_self, if_pos rfl]
  · rw [setWnd, Function.update_of_ne hv, if_neg hv]

/-- The links with another state of a window. -/
def WindowLinks.setState (ws : WindowLinks) (w : Int) (state : UInt32) : WindowLinks where
  wnd := setWnd ws.wnd w state
  desktop := ws.desktop
  handles := ws.handles
  age := ws.age
  older := by
    intro v hv
    rw [setWnd_parent] at hv ⊢
    exact ws.older v hv

theorem sameLinks_setState (ws : WindowLinks) (w : Int) (state : UInt32) :
    SameLinks ws (ws.setState w state) :=
  ⟨setWnd_parent ws.wnd w state, setWnd_child ws.wnd w state, setWnd_next ws.wnd w state, rfl⟩

/-- The windows with another state of one of them. -/
def Windows.setState (ws : Windows) (w : Int) (state : UInt32) : Windows where
  toWindowLinks := ws.toWindowLinks.setState w state
  place := ws.place
  ahead := by
    intro u v hv
    rw [nextWnd_congr (sameLinks_setState ws.toWindowLinks w state)] at hv
    exact ws.ahead u v hv

/-- `user_window_is_visible`. -/
def Windows.isVisible (ws : Windows) (w : Int) : Bool := (ws.wnd w).state &&& wndsVisible ≠ 0

/-- `sys_NtUserShowWindow`, `user_syscalls.c:1210–1245`; the ticks are those of its messages. -/
def sysNtUserShowWindow (s : PaintSystem) (tick tick' hwnd : UInt32) (nCmdShow : Int32) :
    PaintSystem × UInt32 :=
  let w := s.windows.userWindowFromHwnd hwnd
  if w = 0 then (s, 0)
  else
    let shown := userWindowShow (s.windows.wnd w).state (s.style w) nCmdShow
    let wasVisible := s.windows.isVisible w
    let s := { s with style := Function.update s.style w shown.2 }
    if !wasVisible ∧ shown.1 &&& wndsVisible ≠ 0 then
      let queue := (msgQueuePost s.queue tick hwnd wmShowWindow 1 0).1
      let rc := s.rcClient w
      let size := makeLParam (rc.right - rc.left) (rc.bottom - rc.top)
      let queue := (msgQueuePost queue tick' hwnd wmSize sizeRestored size).1
      ({ s with
        windows := s.windows.setState w (shown.1 ||| (wndsSendNcPaint ||| wndsSendEraseBackground))
        queue }, 0)
    else ({ s with windows := s.windows.setState w shown.1 }, if wasVisible then 1 else 0)

/-- `sys_NtUserInvalidateRect`, `win32k_dispatcher.c:1199–1218`: its arguments are not used. -/
def sysNtUserInvalidateRect (s : PaintSystem) (_hwnd _rectPtr _erase : UInt32) :
    PaintSystem × UInt32 :=
  ({ s with display := s.display.map fun d => { d with dirty := true } }, 1)

/-- `write_guest_dword`, `win32k_dispatcher.c:62–73`. -/
def PaintSystem.writeGuestDword (s : PaintSystem) (ptr value : UInt32) : PaintSystem :=
  let phys := pagingGetPhys s.mem s.paging ptr
  if ptr = 0 ∨ phys = 0 then s else { s with mem := memWritelPhys s.mem phys value }

/-- The fields of `PAINTSTRUCT` that are written, `win32k_dispatcher.c:1155–1164`. -/
def paintStruct (display : Option Screen) (hdc : UInt32) : List (UInt32 × UInt32) :=
  let width := (display.map fun d => d.width.toUInt32).getD 800
  let height := (display.map fun d => d.height.toUInt32).getD 600
  [(0, hdc), (4, 1), (8, 0), (12, 0), (16, width), (20, height), (24, 0), (28, 0)]

/-- `sys_NtUserBeginPaint`, `win32k_dispatcher.c:1145–1168`: a new context for the screen, whose
window is not kept here. -/
def sysNtUserBeginPaint (s : PaintSystem) (answer : Option Nat) (_hwnd psPtr : UInt32) :
    Option (PaintSystem × UInt32) :=
  (gdiCreateDisplayDc s.gdi answer (s.display.map Screen.toDisplay)).map fun r =>
    let s := { s with gdi := r.1 }
    let s := if psPtr = 0 then s
      else (paintStruct s.display r.2).foldl (fun s f => s.writeGuestDword (psPtr + f.1) f.2) s
    (s, r.2)

/-- `gdi_release_dc`, `gdi_dc.c:188–201`. -/
def gdiReleaseDc (fuel : Nat) (s : GdiState) (hdc : UInt32) : Option (GdiState × UInt32) :=
  match s.getDc hdc with
  | none => some (s, 0)
  | some p => do
      let dc ← s.dcs.read p
      if dc.dcType ≠ dctypeDirect then return (s, 0)
      let r ← gdiDeleteDc fuel s hdc
      return (r.1, 1)

/-- `display_present`, `display.c:108–124`, of what is dirty. -/
def Screen.present (d : Screen) : Screen := if d.initialized then { d with dirty := false } else d

/-- `sys_NtUserEndPaint`, `win32k_dispatcher.c:1171–1196`. -/
def sysNtUserEndPaint (fuel : Nat) (s : PaintSystem) (_hwnd psPtr : UInt32) :
    Option (PaintSystem × UInt32) :=
  let phys := pagingGetPhys s.mem s.paging psPtr
  let released := if psPtr = 0 ∨ phys = 0 then some s.gdi
    else (gdiReleaseDc fuel s.gdi (memReadlPhys s.mem phys)).map Prod.fst
  let display := s.display.map fun d => if d.dirty then d.present else d
  released.map fun gdi => ({ s with gdi, display }, 1)

/-- A call, with the times and the blocks that it is answered with. -/
inductive PaintOp where
  | showWindow (tick tick' hwnd : UInt32) (nCmdShow : Int32)
  | invalidateRect (hwnd rectPtr erase : UInt32)
  | beginPaint (answer : Option Nat) (hwnd psPtr : UInt32)
  | endPaint (hwnd psPtr : UInt32)
  | peek (tick : UInt32) (filter : MsgFilter) (flags : UInt32)

/-- What has happened to a window. -/
structure PaintLog where
  /-- It has been invalidated since painting it began last. -/
  invalidated : Bool := false
  /-- It has been invalidated or become visible since then. -/
  due : Bool := false
  /-- Painting it began last, and it has not been invalidated or become visible since. -/
  begun : Bool := false

/-- The system, and what has happened to its windows. -/
structure PaintRun where
  sys : PaintSystem
  log : Int → PaintLog

/-- A call on the system. -/
def paintCall (fuel : Nat) (s : PaintSystem) : PaintOp → Option PaintSystem
  | .showWindow tick tick' hwnd nCmdShow => some (sysNtUserShowWindow s tick tick' hwnd nCmdShow).1
  | .invalidateRect hwnd rectPtr erase => some (sysNtUserInvalidateRect s hwnd rectPtr erase).1
  | .beginPaint answer hwnd psPtr => (sysNtUserBeginPaint s answer hwnd psPtr).map Prod.fst
  | .endPaint hwnd psPtr => (sysNtUserEndPaint fuel s hwnd psPtr).map Prod.fst
  | .peek tick filter flags =>
      some { s with queue := (msgQueuePeek s.queue s.windows tick filter flags).1 }

/-- What a call means for a window, seen from before and after the call. -/
def PaintLog.next (l : PaintLog) (before after : Windows) (w : Int) : PaintOp → PaintLog
  | .showWindow _ _ hwnd _ =>
      if before.userWindowFromHwnd hwnd = w ∧ before.isVisible w = false ∧
          after.isVisible w = true then
        { l with due := true, begun := false }
      else l
  | .invalidateRect hwnd _ _ =>
      if before.userWindowFromHwnd hwnd = w then { invalidated := true, due := true, begun := false }
      else l
  | .beginPaint _ hwnd _ =>
      if before.userWindowFromHwnd hwnd = w then { invalidated := false, due := false, begun := true }
      else l
  | _ => l

/-- One step of a run. -/
def paintStep (fuel : Nat) (r : PaintRun) (op : PaintOp) : Option PaintRun :=
  (paintCall fuel r.sys op).map fun s =>
    { sys := s, log := fun w => (r.log w).next r.sys.windows s.windows w op }

/-- No `WM_PAINT` is made for a window that is not due since painting it began. -/
def PaintQuiet (r : PaintRun) : Prop :=
  ∀ tick filter mouseX mouseY msg,
    paintMessage r.sys.windows tick filter mouseX mouseY = some msg →
    (r.log r.sys.windows.findWindowNeedingPaint).begun = false

/-- A call that invalidates a visible window finds it marked, below the desktop; painting begins on
no visible window that is marked. -/
def PaintOk (r : PaintRun) : PaintOp → Prop
  | .invalidateRect hwnd _ _ =>
      let w := r.sys.windows.userWindowFromHwnd hwnd
      w ≠ 0 → Below r.sys.windows.toWindowLinks w ∧
        (r.sys.windows.isVisible w = true → r.sys.windows.needsPaint w = true)
  | .beginPaint _ hwnd _ =>
      let w := r.sys.windows.userWindowFromHwnd hwnd
      w ≠ 0 → r.sys.windows.needsPaint w = false
  | _ => True

section Bits

variable {s c p : UInt32}

/-- Flags outside of a mask do not change what it selects. -/
theorem or_and_of_disjoint (h : c &&& p = 0) : (s ||| c) &&& p = s &&& p := by
  apply UInt32.toBitVec_inj.mp
  have hzero : c.toBitVec &&& p.toBitVec = 0 := congrArg UInt32.toBitVec h
  simp only [UInt32.toBitVec_and, UInt32.toBitVec_or]
  rw [BitVec.and_or_distrib_right, hzero]
  exact BitVec.or_zero

theorem and_not_and_of_disjoint (h : ~~~c &&& p = p) : (s &&& ~~~c) &&& p = s &&& p := by
  rw [UInt32.and_assoc, h]

/-- Flags of a mask are selected by it. -/
theorem or_and_ne_zero (hc : c ≠ 0) (h : c &&& p = c) : (s ||| c) &&& p ≠ 0 := by
  intro hzero
  apply hc
  have hself : ((s ||| c) &&& p) &&& c = c := by
    apply UInt32.toBitVec_inj.mp
    have h' : c.toBitVec &&& p.toBitVec = c.toBitVec := congrArg UInt32.toBitVec h
    simp only [UInt32.toBitVec_and, UInt32.toBitVec_or]
    rw [BitVec.and_assoc, BitVec.and_comm p.toBitVec, h', BitVec.and_comm]
    ext i hi
    simp only [BitVec.getElem_and, BitVec.getElem_or]
    cases c.toBitVec[i] <;> simp
  rw [hzero, UInt32.zero_and] at hself
  exact hself.symm

/-- Showing or hiding a window leaves the marks. -/
theorem userWindowShow_marks (state style : UInt32) (nCmdShow : Int32) :
    (userWindowShow state style nCmdShow).1 &&& paintMarks = state &&& paintMarks := by
  unfold userWindowShow
  split_ifs
  · exact and_not_and_of_disjoint (by decide)
  all_goals first
    | rfl
    | rw [and_not_and_of_disjoint (by decide), or_and_of_disjoint (by decide)]

end Bits

section Steps

variable {s s' : PaintSystem} {ws : Windows} {r r' : PaintRun} {op : PaintOp} {w v : Int}
  {fuel : Nat}

theorem needsPaint_iff : ws.needsPaint w = true ↔
    ws.isVisible w = true ∧ (ws.wnd w).state &&& paintMarks ≠ 0 := by
  unfold Windows.needsPaint Windows.isVisible paintMarks
  simp only [decide_eq_true_eq]

theorem isVisible_setState (ws : Windows) (w : Int) (state : UInt32) (v : Int) :
    (ws.setState w state).isVisible v = if v = w then decide (state &&& wndsVisible ≠ 0)
      else ws.isVisible v := by
  show decide ((setWnd ws.wnd w state v).state &&& wndsVisible ≠ 0) = _
  rw [setWnd_state]
  split
  · rfl
  · rfl

/-- A window is shown and marked when it becomes visible; otherwise its marks are left. -/
theorem sysNtUserShowWindow_cases (s : PaintSystem) (tick tick' hwnd : UInt32) (nCmdShow : Int32) :
    (sysNtUserShowWindow s tick tick' hwnd nCmdShow).1.windows = s.windows ∧
        s.windows.userWindowFromHwnd hwnd = 0 ∨
      ∃ state, (sysNtUserShowWindow s tick tick' hwnd nCmdShow).1.windows =
          s.windows.setState (s.windows.userWindowFromHwnd hwnd) state ∧
        (s.windows.isVisible (s.windows.userWindowFromHwnd hwnd) = false ∧
            state &&& wndsVisible ≠ 0 ∧ state &&& paintMarks ≠ 0 ∨
          (state &&& wndsVisible ≠ 0 →
            s.windows.isVisible (s.windows.userWindowFromHwnd hwnd) = true) ∧
            state &&& paintMarks =
              (s.windows.wnd (s.windows.userWindowFromHwnd hwnd)).state &&& paintMarks) := by
  unfold sysNtUserShowWindow
  dsimp only
  split
  · next hzero => exact .inl ⟨rfl, hzero⟩
  · split
    · next hshown =>
      refine .inr ⟨_, rfl, .inl ⟨by simpa using hshown.1, ?_, ?_⟩⟩
      · rw [or_and_of_disjoint (by decide)]
        exact hshown.2
      · exact or_and_ne_zero (by decide) (by decide)
    · next hshown =>
      refine .inr ⟨_, rfl, .inr ⟨?_, userWindowShow_marks _ _ _⟩⟩
      intro hvisible
      by_contra hnot
      exact hshown ⟨by simpa using hnot, hvisible⟩

theorem writeGuestDword_windows (s : PaintSystem) (ptr value : UInt32) :
    (s.writeGuestDword ptr value).windows = s.windows := by
  unfold PaintSystem.writeGuestDword
  dsimp only
  split
  · rfl
  · rfl

theorem sysNtUserBeginPaint_windows {answer : Option Nat} {hwnd psPtr hdc : UInt32}
    (h : sysNtUserBeginPaint s answer hwnd psPtr = some (s', hdc)) : s'.windows = s.windows := by
  obtain ⟨⟨gdi, made⟩, -, heq⟩ := Option.map_eq_some_iff.mp h
  obtain ⟨rfl, -⟩ := Prod.mk.inj heq
  have hfold : ∀ (fs : List (UInt32 × UInt32)) (s : PaintSystem),
      (fs.foldl (fun s f => s.writeGuestDword (psPtr + f.1) f.2) s).windows = s.windows := by
    intro fs
    induction fs with
    | nil => exact fun s => rfl
    | cons f fs ih => exact fun s => (ih _).trans (writeGuestDword_windows s _ _)
  split
  · rfl
  · exact hfold _ _

theorem sysNtUserEndPaint_windows {hwnd psPtr result : UInt32}
    (h : sysNtUserEndPaint fuel s hwnd psPtr = some (s', result)) : s'.windows = s.windows := by
  obtain ⟨gdi, -, heq⟩ := Option.map_eq_some_iff.mp h
  obtain ⟨rfl, -⟩ := Prod.mk.inj heq
  rfl

end Steps

section Invariant

variable {r r' : PaintRun} {op : PaintOp} {w : Int} {fuel : Nat}

/-- What is invalidated is marked when it is visible, what is marked and visible is due, and
painting has not begun on it. -/
structure PaintInv (r : PaintRun) : Prop where
  tree : LinkedTree r.sys.windows.toWindowLinks
  invalidated : ∀ w, w ≠ 0 → (r.log w).invalidated = true →
    Below r.sys.windows.toWindowLinks w ∧
      (r.sys.windows.isVisible w = true → r.sys.windows.needsPaint w = true)
  due : ∀ w, w ≠ 0 → r.sys.windows.needsPaint w = true → (r.log w).due = true
  begun : ∀ w, w ≠ 0 → (r.log w).begun = true → r.sys.windows.needsPaint w = false

/-- The message that is made is for the window that the walk finds. -/
theorem paintMessage_some {ws : Windows} {tick : UInt32} {filter : MsgFilter}
    {mouseX mouseY : Int32} {msg : WboxMsg}
    (h : paintMessage ws tick filter mouseX mouseY = some msg) :
    ws.findWindowNeedingPaint ≠ 0 := by
  unfold paintMessage at h
  dsimp only at h
  split at h
  · next hfound => exact hfound.2.1
  · cases h

theorem PaintInv.quiet (h : PaintInv r) : PaintQuiet r := by
  intro tick filter mouseX mouseY msg hmsg
  have hfound := paintMessage_some hmsg
  have hneeds := findWindowNeedingPaint_needs hfound
  by_contra hbegun
  rw [h.begun _ hfound (Bool.not_eq_false _ |>.mp hbegun)] at hneeds
  cases hneeds

/-- Calls that leave the windows keep the invariant with a log that it allows. -/
theorem PaintInv.withLog {sys : PaintSystem} {log : Int → PaintLog} (h : PaintInv r)
    (hwindows : sys.windows = r.sys.windows)
    (hinvalidated : ∀ w, w ≠ 0 → (log w).invalidated = true →
      Below r.sys.windows.toWindowLinks w ∧
        (r.sys.windows.isVisible w = true → r.sys.windows.needsPaint w = true))
    (hdue : ∀ w, w ≠ 0 → r.sys.windows.needsPaint w = true → (log w).due = true)
    (hbegun : ∀ w, w ≠ 0 → (log w).begun = true → r.sys.windows.needsPaint w = false) :
    PaintInv { sys, log } := by
  refine ⟨?_, ?_, ?_, ?_⟩
  all_goals
    dsimp only
    rw [hwindows]
  · exact h.tree
  · exact hinvalidated
  · exact hdue
  · exact hbegun

/-- A state in which a window is visible and marked only as before, or becomes both. -/
theorem PaintInv.setState {sys : PaintSystem} {log : Int → PaintLog} {w : Int} {state : UInt32}
    (h : PaintInv r) (hwindows : sys.windows = r.sys.windows.setState w state)
    (hlog : ∀ v, v ≠ w → log v = r.log v) (hkept : (log w).invalidated = (r.log w).invalidated)
    (hstate : (log w).due = true ∧ (log w).begun = false ∧
        state &&& wndsVisible ≠ 0 ∧ state &&& paintMarks ≠ 0 ∨
      log w = r.log w ∧ (state &&& wndsVisible ≠ 0 → r.sys.windows.isVisible w = true) ∧
        state &&& paintMarks = (r.sys.windows.wnd w).state &&& paintMarks) :
    PaintInv { sys, log } := by
  have hlinks := sameLinks_setState r.sys.windows.toWindowLinks w state
  have hself : (r.sys.windows.setState w state).needsPaint w = true ↔
      state &&& wndsVisible ≠ 0 ∧ state &&& paintMarks ≠ 0 := by
    have hvisible := isVisible_setState r.sys.windows w state w
    rw [if_pos rfl] at hvisible
    rw [needsPaint_iff, hvisible]
    show _ ∧ (setWnd r.sys.windows.wnd w state w).state &&& paintMarks ≠ 0 ↔ _
    rw [setWnd_state, if_pos rfl, decide_eq_true_eq]
  have hother : ∀ v, v ≠ w →
      ((r.sys.windows.setState w state).needsPaint v = true ↔ r.sys.windows.needsPaint v = true) := by
    intro v hv
    have hvisible := isVisible_setState r.sys.windows w state v
    rw [if_neg hv] at hvisible
    rw [needsPaint_iff, needsPaint_iff, hvisible]
    show _ ∧ (setWnd r.sys.windows.wnd w state v).state &&& paintMarks ≠ 0 ↔ _
    rw [setWnd_state, if_neg hv]
  -- the marks are not new, unless the window has just become due
  have hold : (r.sys.windows.setState w state).needsPaint w = true →
      (log w).due = true ∧ (log w).begun = false ∨
        log w = r.log w ∧ r.sys.windows.needsPaint w = true := by
    intro hneeds
    obtain ⟨hvisible, hmarked⟩ := hself.mp hneeds
    rcases hstate with ⟨hdue, hbegun, -, -⟩ | ⟨hsame, hshown, hmarks⟩
    · exact .inl ⟨hdue, hbegun⟩
    · exact .inr ⟨hsame, needsPaint_iff.mpr ⟨hshown hvisible, hmarks ▸ hmarked⟩⟩
  refine ⟨?_, ?_, ?_, ?_⟩
  all_goals
    dsimp only
    rw [hwindows]
  · exact h.tree.congr hlinks
  · intro v hv hinvalidated
    by_cases hvw : v = w
    · subst hvw
      obtain ⟨hbelow, hmarked⟩ := h.invalidated v hv (hkept ▸ hinvalidated)
      refine ⟨hbelow.congr hlinks, ?_⟩
      intro hvisible
      rw [isVisible_setState, if_pos rfl, decide_eq_true_eq] at hvisible
      apply hself.mpr
      rcases hstate with ⟨-, -, -, hmarks⟩ | ⟨-, hshown, hmarks⟩
      · exact ⟨hvisible, hmarks⟩
      · exact ⟨hvisible, hmarks ▸ (needsPaint_iff.mp (hmarked (hshown hvisible))).2⟩
    · rw [hlog v hvw] at hinvalidated
      obtain ⟨hbelow, hmarked⟩ := h.invalidated v hv hinvalidated
      refine ⟨hbelow.congr hlinks, ?_⟩
      intro hvisible
      rw [isVisible_setState, if_neg hvw] at hvisible
      exact (hother v hvw).mpr (hmarked hvisible)
  · intro v hv hneeds
    by_cases hvw : v = w
    · subst hvw
      rcases hold hneeds with ⟨hdue, -⟩ | ⟨hsame, hneeds'⟩
      · exact hdue
      · rw [hsame]
        exact h.due v hv hneeds'
    · rw [hlog v hvw]
      exact h.due v hv ((hother v hvw).mp hneeds)
  · intro v hv hbegun
    apply Bool.eq_false_iff.mpr
    intro hneeds
    by_cases hvw : v = w
    · subst hvw
      rcases hold hneeds with ⟨-, hnot⟩ | ⟨hsame, hneeds'⟩
      · rw [hnot] at hbegun
        cases hbegun
      · rw [hsame] at hbegun
        rw [h.begun v hv hbegun] at hneeds'
        cases hneeds'
    · rw [hlog v hvw] at hbegun
      have hnot := h.begun v hv hbegun
      rw [(hother v hvw).mp hneeds] at hnot
      cases hnot

/-- A window is shown, hidden, or stays as it was. -/
theorem PaintInv.show (h : PaintInv r) (tick tick' hwnd : UInt32) (nCmdShow : Int32)
    (hstep : paintStep fuel r (.showWindow tick tick' hwnd nCmdShow) = some r') : PaintInv r' := by
  obtain rfl := Option.some.inj hstep
  have hcases := sysNtUserShowWindow_cases r.sys tick tick' hwnd nCmdShow
  generalize (sysNtUserShowWindow r.sys tick tick' hwnd nCmdShow).1 = after at hcases ⊢
  have hother : ∀ v, v ≠ r.sys.windows.userWindowFromHwnd hwnd →
      (r.log v).next r.sys.windows after.windows v (.showWindow tick tick' hwnd nCmdShow) =
        r.log v := by
    intro v hv
    exact if_neg fun hshown => hv hshown.1.symm
  rcases hcases with ⟨hwindows, hzero⟩ | ⟨state, hwindows, hstate⟩
  · refine h.withLog hwindows ?_ ?_ ?_
    all_goals
      intro w hw
      rw [hother w (hzero ▸ hw)]
    · exact h.invalidated w hw
    · exact h.due w hw
    · exact h.begun w hw
  · have hvisible : after.windows.isVisible (r.sys.windows.userWindowFromHwnd hwnd) =
        decide (state &&& wndsVisible ≠ 0) := by
      rw [hwindows, isVisible_setState, if_pos rfl]
    apply h.setState hwindows hother
    · dsimp only [PaintLog.next]
      split
      · rfl
      · rfl
    · rcases hstate with ⟨hnot, hshown, hmarked⟩ | ⟨hshown, hmarks⟩
      · refine .inl ⟨?_, ?_, hshown, hmarked⟩
        all_goals
          dsimp only [PaintLog.next]
          rw [if_pos ⟨rfl, hnot, hvisible.trans (decide_eq_true hshown)⟩]
      · refine .inr ⟨?_, hshown, hmarks⟩
        apply if_neg
        rintro ⟨-, hnot, hnow⟩
        rw [hvisible, decide_eq_true_eq] at hnow
        rw [hshown hnow] at hnot
        cases hnot

/-- A guarded call keeps the invariant. -/
theorem PaintInv.step (h : PaintInv r) (hok : PaintOk r op)
    (hstep : paintStep fuel r op = some r') : PaintInv r' := by
  cases op with
  | showWindow tick tick' hwnd nCmdShow => exact h.show tick tick' hwnd nCmdShow hstep
  | invalidateRect hwnd rectPtr erase =>
    obtain rfl := Option.some.inj hstep
    refine h.withLog rfl ?_ ?_ ?_
    all_goals
      intro w hw
      dsimp only [PaintLog.next]
      by_cases hsame : r.sys.windows.userWindowFromHwnd hwnd = w
    · rw [if_pos hsame]
      subst hsame
      exact fun _ => hok hw
    · rw [if_neg hsame]
      exact h.invalidated w hw
    · rw [if_pos hsame]
      exact fun _ => rfl
    · rw [if_neg hsame]
      exact h.due w hw
    · rw [if_pos hsame]
      intro hno
      cases hno
    · rw [if_neg hsame]
      exact h.begun w hw
  | beginPaint answer hwnd psPtr =>
    obtain ⟨s, hcall, rfl⟩ := Option.map_eq_some_iff.mp hstep
    obtain ⟨⟨s, hdc⟩, hpaint, rfl⟩ := Option.map_eq_some_iff.mp hcall
    refine h.withLog (sysNtUserBeginPaint_windows hpaint) ?_ ?_ ?_
    all_goals
      intro w hw
      dsimp only [PaintLog.next]
      by_cases hsame : r.sys.windows.userWindowFromHwnd hwnd = w
    · rw [if_pos hsame]
      intro hno
      cases hno
    · rw [if_neg hsame]
      exact h.invalidated w hw
    · subst hsame
      rw [hok hw]
      intro hno
      cases hno
    · rw [if_neg hsame]
      exact h.due w hw
    · subst hsame
      exact fun _ => hok hw
    · rw [if_neg hsame]
      exact h.begun w hw
  | endPaint hwnd psPtr =>
    obtain ⟨s, hcall, rfl⟩ := Option.map_eq_some_iff.mp hstep
    obtain ⟨⟨s, result⟩, hpaint, rfl⟩ := Option.map_eq_some_iff.mp hcall
    exact h.withLog (sysNtUserEndPaint_windows hpaint) h.invalidated h.due h.begun
  | peek tick filter flags =>
    obtain rfl := Option.some.inj hstep
    exact h.withLog rfl h.invalidated h.due h.begun

end Invariant

section Single

end Single

end Wbox.User
