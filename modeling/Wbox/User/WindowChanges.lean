import Wbox.User.GuestHandles
import Wbox.User.GuestWnd

/-!
# Changes of a window

`NtUserShowWindow`, `user_window_set_pos` and `user_window_set_long` change the window and nothing
else (`src/user/user_syscalls.c:1210–1245`, `src/user/user_window.c:337–549`): what the guest reads
of the window stays as it was.
-/

namespace Wbox.User

open Wbox.Lib Wbox.Vm

/-- `GWL_WNDPROC`. -/
def gwlWndProc : Int32 := -4
/-- `GWL_HINSTANCE`. -/
def gwlHInstance : Int32 := -6
/-- `GWL_HWNDPARENT`. -/
def gwlHwndParent : Int32 := -8
/-- `GWL_ID`. -/
def gwlId : Int32 := -12
/-- `GWL_STYLE`. -/
def gwlStyle : Int32 := -16
/-- `GWL_EXSTYLE`. -/
def gwlExStyle : Int32 := -20
/-- `GWL_USERDATA`. -/
def gwlUserData : Int32 := -21

namespace Wnd

/-- The window after `sys_NtUserShowWindow`, `user_syscalls.c:1222–1239`. -/
def shown (wnd : Wnd) (nCmdShow : Int32) : Wnd :=
  let (state, style) := userWindowShow wnd.state wnd.style nCmdShow
  let becomes := wnd.state &&& wndsVisible = 0 ∧ state &&& wndsVisible ≠ 0
  { wnd with
    state := if becomes then state ||| (wndsSendNcPaint ||| wndsSendEraseBackground) else state
    style }

/-- `user_window_set_pos`, `user_window.c:337–349`; the flags are not used. -/
def setPos (wnd : Wnd) (x y cx cy : Int32) (_flags : UInt32) : Wnd :=
  let rcWindow : WboxRect := { left := x, top := y, right := x + cx, bottom := y + cy }
  { wnd with rcWindow, rcClient := calcClientRect wnd.style wnd.exStyle rcWindow }

/-- The state of a window with a new style, `user_window.c:527–532`. -/
def styleState (state value : UInt32) : UInt32 :=
  let state := if value &&& wsVisible ≠ 0 then state ||| wndsVisible else state &&& ~~~wndsVisible
  if value &&& wsDisabled ≠ 0 then state ||| wndsDisabled else state &&& ~~~wndsDisabled

/-- The switch of `user_window_set_long` but its default, `user_window.c:519–541`. -/
def setLong (wnd : Wnd) (index : Int32) (value : UInt32) : Wnd :=
  if index = gwlWndProc then { wnd with lpfnWndProc := value }
  else if index = gwlHInstance then { wnd with hInstance := value }
  else if index = gwlStyle then { wnd with style := value, state := styleState wnd.state value }
  else if index = gwlExStyle then { wnd with exStyle := value }
  else if index = gwlUserData then { wnd with dwUserData := value }
  else if index = gwlId then { wnd with idMenu := value }
  else wnd

end Wnd

/-- The windows with their extra bytes. -/
structure WindowMemory extends WindowStore where
  extraBytes : Int → Nat → UInt8

/-- Creating, showing, moving, changing, linking, unlinking and destroying windows. -/
inductive WndOp where
  | call (op : WindowOp)
  | showWindow (hwnd : UInt32) (nCmdShow : Int32)
  | setPos (wnd : Int) (x y cx cy : Int32) (flags : UInt32)
  | setLong (wnd : Int) (index : Int32) (value : UInt32)

namespace WindowMemory

/-- The extra bytes of a window, new ones where one is created. -/
def newExtra (s : WindowMemory) : WindowOp → Int → Nat → UInt8
  | .create mem _ _ _ => Function.update s.extraBytes mem.wnd fun _ => 0
  | _ => s.extraBytes

/-- The test for an index of extra bytes, `user_window.c:499`; a window has some exactly if their
number is not 0. -/
def isExtra (wnd : Wnd) (index : Int32) : Prop :=
  index ≥ 0 ∧ index + 4 ≤ wnd.cbWndExtra ∧ wnd.cbWndExtra > 0

instance (wnd : Wnd) (index : Int32) : Decidable (isExtra wnd index) :=
  inferInstanceAs (Decidable (_ ∧ _))

/-- The word of extra bytes at an index that passes the test; none where the sum in the test has
overflown. -/
def extraWord (s : WindowMemory) (w : Int) (wnd : Wnd) (index : Int32) : Option UInt32 :=
  if index.toInt + 4 ≤ wnd.cbWndExtra.toInt then
    some (loadWord (s.extraBytes w) index.toInt.toNat)
  else none

/-- The handle of a window that a link goes to. -/
def hwndOf (s : WindowMemory) (w : Int) : Option UInt32 :=
  if w = 0 then some 0 else (s.read w).map fun wnd => wnd.hwnd

/-- `user_window_get_long`, `user_window.c:478–506`. -/
def userWindowGetLong (s : WindowMemory) (w : Int) (index : Int32) : Option UInt32 :=
  if w = 0 then some 0
  else do
    let wnd ← s.read w
    if index = gwlWndProc then some wnd.lpfnWndProc
    else if index = gwlHInstance then some wnd.hInstance
    else if index = gwlHwndParent then s.hwndOf wnd.spwndParent
    else if index = gwlStyle then some wnd.style
    else if index = gwlExStyle then some wnd.exStyle
    else if index = gwlUserData then some wnd.dwUserData
    else if index = gwlId then some wnd.idMenu
    else if isExtra wnd index then s.extraWord w wnd index
    else some 0

/-- The default of the switch of `user_window_set_long`, `user_window.c:542–547`. -/
def setExtra (s : WindowMemory) (w : Int) (wnd : Wnd) (index : Int32) (value : UInt32) :
    WindowMemory :=
  if isExtra wnd index then
    { s with
      extraBytes := Function.update s.extraBytes w
        (storeWord (s.extraBytes w) index.toInt.toNat value) }
  else s

/-- `user_window_set_long`, `user_window.c:515–549`; the old value. -/
def userWindowSetLong (s : WindowMemory) (w : Int) (index : Int32) (value : UInt32) :
    Option (WindowMemory × UInt32) :=
  if w = 0 then some (s, 0)
  else do
    let old ← s.userWindowGetLong w index
    let wnd ← s.read w
    let store ← s.modify w fun wnd => wnd.setLong index value
    return (setExtra { s with toWindowStore := store } w wnd index value, old)

/-- `user_window_from_hwnd`, `user_window.c:261–271`. -/
def userWindowFromHwnd (s : WindowMemory) (hwnd : UInt32) : Int :=
  if hwnd = 0 then s.desktop else userHandleGetTyped s.handles hwnd .window

/-- A call; `calloc` gives memory that is not in use, and the messages of `NtUserShowWindow` are
left out. -/
def wndStep (n : Nat) (s : WindowMemory) : WndOp → Option WindowMemory
  | .call op => (s.windowStep n op).map fun store =>
    { toWindowStore := store, extraBytes := s.newExtra op }
  | .showWindow hwnd nCmdShow =>
    (s.modifyAt (s.userWindowFromHwnd hwnd) fun wnd => wnd.shown nCmdShow).map fun store =>
      { s with toWindowStore := store }
  | .setPos w x y cx cy flags =>
    (s.modifyAt w fun wnd => wnd.setPos x y cx cy flags).map fun store =>
      { s with toWindowStore := store }
  | .setLong w index value => (s.userWindowSetLong w index value).map Prod.fst

end WindowMemory

/-! When a change leaves what the guest reads of the window as it was. -/

namespace Wnd

/-- The window is shown like that already. -/
def ShownAlready (wnd : Wnd) (nCmdShow : Int32) : Prop :=
  if nCmdShow = 0 then wnd.state &&& wndsVisible = 0 ∧ wnd.style &&& wsVisible = 0
  else if nCmdShow = 5 ∨ nCmdShow = 1 ∨ nCmdShow = 8 ∨ nCmdShow = 4 ∨ nCmdShow = 9 then
    (wnd.state &&& wndsVisible = wndsVisible ∧ wnd.state &&& (wndsMinimized ||| wndsMaximized) = 0) ∧
      wnd.style &&& wsVisible = wsVisible
  else if nCmdShow = 2 ∨ nCmdShow = 6 ∨ nCmdShow = 7 ∨ nCmdShow = 11 then
    (wnd.state &&& (wndsVisible ||| wndsMinimized) = wndsVisible ||| wndsMinimized ∧
      wnd.state &&& wndsMaximized = 0) ∧ wnd.style &&& wsVisible = wsVisible
  else if nCmdShow = 3 then
    (wnd.state &&& (wndsVisible ||| wndsMaximized) = wndsVisible ||| wndsMaximized ∧
      wnd.state &&& wndsMinimized = 0) ∧ wnd.style &&& wsVisible = wsVisible
  else True

/-- The window is there already. -/
def ThereAlready (wnd : Wnd) (x y cx cy : Int32) : Prop :=
  wnd.rcWindow = { left := x, top := y, right := x + cx, bottom := y + cy }

/-- The window has the value already, or the guest does not read it. -/
def HasAlready (wnd : Wnd) (index : Int32) (value : UInt32) : Prop :=
  (index = gwlWndProc → wnd.lpfnWndProc = value) ∧ (index = gwlStyle → wnd.style = value) ∧
    (index = gwlExStyle → wnd.exStyle = value) ∧
    (index = gwlUserData → wnd.dwUserData = value) ∧ (index = gwlId → wnd.idMenu = value)

/-- The window looks as its style and its place say. -/
structure Plain (wnd : Wnd) : Prop where
  state : wnd.state = initialState wnd.style
  rcClient : wnd.rcClient = calcClientRect wnd.style wnd.exStyle wnd.rcWindow

section Changes

variable {wnd wnd' : Wnd} {x a c : UInt32} {nCmdShow index : Int32}

/-- Setting some bits and clearing other ones changes nothing where they are so already. -/
theorem or_and_not_eq_iff (h : a &&& c = 0) :
    (x ||| a) &&& ~~~c = x ↔ x &&& a = a ∧ x &&& c = 0 := by
  have hbits : ∀ y z : UInt32, y = z ↔
      ∀ i, i < 32 → y.toBitVec.getLsbD i = z.toBitVec.getLsbD i := by
    intro y z
    constructor
    · intro heq i _
      rw [heq]
    · intro hall
      apply UInt32.toBitVec_inj.mp
      exact BitVec.eq_of_getLsbD_eq hall
  rw [hbits] at h
  rw [hbits, hbits (x &&& a), hbits (x &&& c)]
  constructor
  · intro hx
    refine ⟨fun i hi => ?_, fun i hi => ?_⟩
    · have hac := h i hi
      have hxi := hx i hi
      simp [hi] at hac hxi ⊢
      revert hac hxi
      cases x.toBitVec[i] <;> cases a.toBitVec[i] <;> cases c.toBitVec[i] <;> simp
    · have hac := h i hi
      have hxi := hx i hi
      simp [hi] at hac hxi ⊢
      revert hac hxi
      cases x.toBitVec[i] <;> cases a.toBitVec[i] <;> cases c.toBitVec[i] <;> simp
  · intro hx i hi
    have hxa := hx.1 i hi
    have hxc := hx.2 i hi
    simp [hi] at hxa hxc ⊢
    revert hxa hxc
    cases x.toBitVec[i] <;> cases a.toBitVec[i] <;> cases c.toBitVec[i] <;> simp

theorem and_not_eq_iff : x &&& ~~~c = x ↔ x &&& c = 0 := by
  have h := or_and_not_eq_iff (x := x) (a := 0) (c := c) (by simp)
  simpa using h

theorem or_eq_iff : x ||| a = x ↔ x &&& a = a := by
  have h := or_and_not_eq_iff (x := x) (a := a) (c := 0) (by simp)
  simpa using h

/-- `user_window_show` leaves a window that is shown like that already. -/
theorem userWindowShow_eq_iff :
    userWindowShow wnd.state wnd.style nCmdShow = (wnd.state, wnd.style) ↔
      wnd.ShownAlready nCmdShow := by
  have hset : ∀ {a c : UInt32}, a &&& c = 0 →
      (((wnd.state ||| a) &&& ~~~c, wnd.style ||| wsVisible) = (wnd.state, wnd.style) ↔
        (wnd.state &&& a = a ∧ wnd.state &&& c = 0) ∧ wnd.style &&& wsVisible = wsVisible) := by
    intro a c hac
    rw [Prod.mk.injEq, or_and_not_eq_iff hac, or_eq_iff]
  unfold userWindowShow ShownAlready
  by_cases hhide : nCmdShow = 0
  · rw [if_pos hhide, if_pos hhide, Prod.mk.injEq, and_not_eq_iff, and_not_eq_iff]
  rw [if_neg hhide, if_neg hhide]
  by_cases hshow : nCmdShow = 5 ∨ nCmdShow = 1 ∨ nCmdShow = 8 ∨ nCmdShow = 4
  · rw [if_pos hshow, if_pos (by tauto)]
    exact hset (by decide)
  rw [if_neg hshow]
  by_cases hrestore : nCmdShow = 9
  · subst hrestore
    exact hset (by decide)
  rw [if_neg (show ¬ (nCmdShow = 5 ∨ _) by tauto)]
  by_cases hmin : nCmdShow = 2 ∨ nCmdShow = 6 ∨ nCmdShow = 7 ∨ nCmdShow = 11
  · rw [if_pos hmin, if_pos hmin]
    exact hset (by decide)
  rw [if_neg hmin, if_neg hmin]
  by_cases hmax : nCmdShow = 3
  · rw [if_pos hmax, if_pos hmax]
    exact hset (by decide)
  rw [if_neg hmax, if_neg hmax, if_neg hrestore]
  exact iff_of_true rfl trivial

/-- What the guest reads of two windows is the same. -/
theorem syncFields_eq_iff :
    guestWndSyncFields wnd' = guestWndSyncFields wnd ↔
      (wnd'.state = wnd.state ∧ wnd'.state2 = wnd.state2 ∧ wnd'.exStyle = wnd.exStyle ∧
        wnd'.style = wnd.style) ∧ wnd'.rcWindow = wnd.rcWindow ∧ wnd'.rcClient = wnd.rcClient ∧
        wnd'.lpfnWndProc = wnd.lpfnWndProc ∧ wnd'.dwUserData = wnd.dwUserData ∧
        wnd'.idMenu = wnd.idMenu := by
  have hrect : ∀ {rc rc' : WboxRect} {o : UInt32}, rectFields o rc' = rectFields o rc ↔ rc' = rc := by
    intro rc rc' o
    have hinj : ∀ {m n : Int32}, m.toUInt32 = n.toUInt32 ↔ m = n := by
      intro m n
      refine ⟨fun h => ?_, fun h => h ▸ rfl⟩
      rw [← m.toInt32_toUInt32, h, n.toInt32_toUInt32]
    cases rc
    cases rc'
    simp [rectFields, hinj]
  unfold guestWndSyncFields
  constructor
  · intro h
    have hlen : ∀ (o : UInt32) (rc : WboxRect), (rectFields o rc).length = 4 := fun _ _ => rfl
    obtain ⟨h₁, hlast⟩ := List.append_inj h (by simp [hlen])
    obtain ⟨h₂, hclient⟩ := List.append_inj h₁ (by simp [hlen])
    obtain ⟨hfirst, hwindow⟩ := List.append_inj h₂ (by simp)
    rw [hrect] at hclient hwindow
    simp only [List.cons.injEq, Prod.mk.injEq, true_and, and_true] at hfirst hlast
    exact ⟨hfirst, hwindow, hclient, hlast⟩
  · rintro ⟨⟨h₁, h₂, h₃, h₄⟩, h₅, h₆, h₇, h₈, h₉⟩
    rw [h₁, h₂, h₃, h₄, h₅, h₆, h₇, h₈, h₉]

theorem shown_sync_iff :
    guestWndSyncFields (wnd.shown nCmdShow) = guestWndSyncFields wnd ↔
      wnd.ShownAlready nCmdShow := by
  rw [← userWindowShow_eq_iff, syncFields_eq_iff]
  unfold shown
  generalize userWindowShow wnd.state wnd.style nCmdShow = r
  obtain ⟨state, style⟩ := r
  dsimp only
  rw [Prod.mk.injEq]
  constructor
  · rintro ⟨⟨hstate, -, -, hstyle⟩, -⟩
    refine ⟨?_, hstyle⟩
    split at hstate
    · next hbecomes =>
      -- A window that becomes visible is not as it was.
      exfalso
      apply hbecomes.2
      have hand : wnd.state &&& wndsVisible &&& state = 0 := by
        rw [hbecomes.1]
        exact UInt32.zero_and
      have hsub : wnd.state &&& state = state := by
        rw [← hstate]
        apply or_eq_iff.mp
        rw [UInt32.or_comm, ← UInt32.or_assoc, UInt32.or_self]
      rw [UInt32.and_assoc, UInt32.and_comm wndsVisible, ← UInt32.and_assoc, hsub] at hand
      exact hand
    · exact hstate
  · rintro ⟨hstate, hstyle⟩
    have hnot : ¬ (wnd.state &&& wndsVisible = 0 ∧ state &&& wndsVisible ≠ 0) := by
      rw [hstate]
      exact fun hb => hb.2 hb.1
    rw [if_neg hnot]
    exact ⟨⟨hstate, rfl, rfl, hstyle⟩, rfl, rfl, rfl, rfl, rfl⟩

theorem setPos_sync_iff (hplain : wnd.Plain) {x y cx cy : Int32} {flags : UInt32} :
    guestWndSyncFields (wnd.setPos x y cx cy flags) = guestWndSyncFields wnd ↔
      wnd.ThereAlready x y cx cy := by
  rw [syncFields_eq_iff]
  unfold setPos ThereAlready
  dsimp only
  constructor
  · rintro ⟨-, hwindow, -⟩
    exact hwindow.symm
  · intro hthere
    rw [← hthere, ← hplain.rcClient]
    simp

/-- The style of a window says which of these bits its state has. -/
theorem styleState_initial (style : UInt32) :
    styleState (initialState style) style = initialState style := by
  unfold styleState initialState
  dsimp only
  split <;> split <;> split <;> split <;> decide

theorem setLong_sync_iff (hplain : wnd.Plain) {value : UInt32} :
    guestWndSyncFields (wnd.setLong index value) = guestWndSyncFields wnd ↔
      wnd.HasAlready index value := by
  rw [syncFields_eq_iff]
  unfold setLong HasAlready
  by_cases hproc : index = gwlWndProc
  · subst hproc
    simp [gwlWndProc, gwlStyle, gwlExStyle, gwlUserData, gwlId, eq_comm]
  rw [if_neg hproc]
  by_cases hinst : index = gwlHInstance
  · subst hinst
    simp [gwlHInstance, gwlWndProc, gwlStyle, gwlExStyle, gwlUserData, gwlId]
  rw [if_neg hinst]
  by_cases hstyle : index = gwlStyle
  · subst hstyle
    have hstate : wnd.style = value → styleState wnd.state value = wnd.state := by
      intro heq
      rw [hplain.state, ← heq]
      exact styleState_initial wnd.style
    simp [gwlWndProc, gwlStyle, gwlExStyle, gwlUserData, gwlId, eq_comm]
    exact fun h => (hstate h.symm).symm
  rw [if_neg hstyle]
  by_cases hex : index = gwlExStyle
  · subst hex
    simp [gwlWndProc, gwlStyle, gwlExStyle, gwlUserData, gwlId, eq_comm]
  rw [if_neg hex]
  by_cases hdata : index = gwlUserData
  · subst hdata
    simp [gwlWndProc, gwlStyle, gwlExStyle, gwlUserData, gwlId, eq_comm]
  rw [if_neg hdata]
  by_cases hid : index = gwlId
  · subst hid
    simp [gwlWndProc, gwlStyle, gwlExStyle, gwlUserData, gwlId, eq_comm]
  rw [if_neg hid]
  simp [hproc, hstyle, hex, hdata, hid]

/-- What the guest reads tells the look of a window. -/
theorem Plain.congr (hplain : wnd.Plain)
    (hsync : guestWndSyncFields wnd' = guestWndSyncFields wnd) : wnd'.Plain := by
  obtain ⟨⟨hstate, -, hex, hstyle⟩, hwindow, hclient, -⟩ := syncFields_eq_iff.mp hsync
  refine ⟨?_, ?_⟩
  · rw [hstate, hstyle]
    exact hplain.state
  · rw [hclient, hstyle, hex, hwindow]
    exact hplain.rcClient

/-- A new window looks as its style and its place say. -/
theorem plain_newWnd (hwnd : UInt32) (a : WndArgs) : (newWnd hwnd a).Plain := ⟨rfl, rfl⟩

end Changes

end Wnd

end Wbox.User
