import Wbox.Lib.PreOrder
import Wbox.User.MessageQueue
import Wbox.User.PaintWalk

/-!
# `WM_PAINT` for one window

`msg_queue_peek` with a window filter (`src/user/user_message.c:162–225`). The search for a window
to paint does not know the filter: it returns the first one below the desktop, and the filter is
compared with that one only.
-/

namespace Wbox.User

open Wbox.Lib

/-- The links of the windows, with those to the previous one. -/
def WindowLinks.links (ws : WindowLinks) (prev : Int → Int) : TreeLinks Int where
  parent w := (ws.wnd w).spwndParent
  child w := (ws.wnd w).spwndChild
  next w := (ws.wnd w).spwndNext
  prev := prev

/-- The windows below the desktop in pre-order. -/
def WindowLinks.belowDesktop (ws : WindowLinks) (live : Finset Int) (kids : Int → List Int) :
    List Int :=
  (kids ws.desktop).flatMap (preOrder kids live.card)

/-- The windows have entries of the handle table, each the one its handle was made for. -/
structure NamedWindows (ws : Windows) (live : Finset Int) : Prop where
  entry : ∀ w ∈ live, ∃ i, 1 ≤ i ∧ i < userMaxHandles ∧ (ws.handles.entries i).ptr = w ∧
    (ws.handles.entries i).type = .window
  hwnd : ∀ i, i < userMaxHandles → (ws.handles.entries i).type = .window →
    (ws.handles.entries i).ptr ∈ live →
      (ws.wnd (ws.handles.entries i).ptr).hwnd = userMakeHandle i (ws.handles.entries i).generation

/-- The windows are a tree below the desktop, and their handles name them. -/
structure WindowForest (ws : Windows) (live : Finset Int) (prev : Int → Int)
    (kids : Int → List Int) : Prop extends NamedWindows ws live where
  forest : Forest (ws.links prev) live kids
  desktop : ws.desktop ∈ live

/-- A range of messages admits `WM_PAINT`. -/
def MsgFilter.AdmitsPaint (filter : MsgFilter) : Prop :=
  filter.min = 0 ∧ filter.max = 0 ∨ filter.min ≤ wmPaint ∧ wmPaint ≤ filter.max

/-- What is found is a `WM_PAINT` for a window or one below it. -/
def PaintsBelow (ws : Windows) (live : Finset Int) (prev : Int → Int) (w : Int)
    (found : Option WboxMsg) : Prop :=
  ∃ msg, found = some msg ∧ msg.message = wmPaint ∧
    ∃ v, (ws.links prev).Within live v w ∧ msg.hwnd = (ws.wnd v).hwnd

/-- The filter is one window, and it is the first below the desktop with something to paint; or
there is no filter, and some window below the desktop has something to paint. -/
def FirstToPaint (ws : Windows) (live : Finset Int) (kids : Int → List Int) (filter : MsgFilter) :
    Prop :=
  if filter.hwnd = 0 then ∃ v ∈ ws.belowDesktop live kids, ws.needsPaint v = true
  else (ws.belowDesktop live kids).find? ws.needsPaint = some (ws.userWindowFromHwnd filter.hwnd)

variable {ws : Windows} {live : Finset Int} {prev : Int → Int} {kids : Int → List Int} {w v : Int}
  {l : List Int} {q : WboxMsgQueue} {ms : MsgList} {filter : MsgFilter}

section Walk

@[simp] theorem WindowLinks.links_child : (ws.links prev).child w = (ws.wnd w).spwndChild := rfl

@[simp] theorem WindowLinks.links_next : (ws.links prev).next w = (ws.wnd w).spwndNext := rfl

/-- Where the walk goes when it leaves a window. -/
theorem afterWnd_leavesTo (h : (ws.links prev).LeavesTo ws.desktop w v) :
    (ws.afterWnd w).getD 0 = v := by
  induction h with
  | sibling hnext =>
    rw [WindowLinks.links_next] at hnext ⊢
    unfold WindowLinks.afterWnd
    rw [if_pos hnext]
    rfl
  | @stop w hnext hstop =>
    rw [WindowLinks.links_next] at hnext
    have hself : ¬ ws.GoesUp w := fun hup => hstop.elim hup.1 hup.2.1
    have hend : ¬ ((ws.wnd w).spwndParent ≠ 0 ∧ (ws.wnd w).spwndParent ≠ ws.desktop) :=
      fun hgo => hstop.elim hgo.1 hgo.2
    unfold WindowLinks.afterWnd
    rw [if_neg (not_not.mpr hnext), goUp_self hself, if_neg hend]
    rfl
  | up hnext hparent hstop _ ih =>
    rw [afterWnd_last hnext rfl hparent hstop]
    exact ih

/-- A step of the walk; at 0 it ends. -/
theorem walk_step (hw : w ≠ 0) :
    ws.walk w = if ws.needsPaint w then w else ws.walk ((ws.nextWnd w).getD 0) := by
  have hzero : ws.walk 0 = 0 := by
    unfold Windows.walk
    rfl
  rw [Windows.walk, if_neg hw]
  by_cases hneeds : ws.needsPaint w = true
  · rw [if_pos hneeds, if_pos hneeds]
  · rw [if_neg hneeds, if_neg hneeds]
    split
    · next hnone => rw [hnone, Option.getD_none, hzero]
    · next v hv => rw [hv, Option.getD_some]

/-- The walk finds the first of the windows that it goes through. -/
theorem walk_visits_find (h : (ws.links prev).Visits ws.desktop w l) :
    ws.walk w = (l.find? ws.needsPaint).getD 0 := by
  induction h with
  | done =>
    unfold Windows.walk
    rfl
  | @down w l hw hchild _ ih =>
    have hnext : ws.nextWnd w = some (ws.wnd w).spwndChild := by
      rw [nextWnd_eq]
      exact if_pos hchild
    rw [walk_step hw, hnext, Option.getD_some, List.find?_cons]
    by_cases hneeds : ws.needsPaint w = true
    · simp only [hneeds, if_true, Option.getD_some]
    · rw [if_neg hneeds, Bool.eq_false_iff.mpr hneeds]
      exact ih
  | @leave w v l hw hchild hleaves _ ih =>
    rw [WindowLinks.links_child] at hchild
    have hnext : (ws.nextWnd w).getD 0 = v := by
      rw [nextWnd_eq, if_neg (not_not.mpr hchild)]
      exact afterWnd_leavesTo hleaves
    rw [walk_step hw, hnext, List.find?_cons]
    by_cases hneeds : ws.needsPaint w = true
    · simp only [hneeds, if_true, Option.getD_some]
    · rw [if_neg hneeds, Bool.eq_false_iff.mpr hneeds]
      exact ih

/-- The search finds the first window below the desktop with something to paint. -/
theorem WindowForest.find_eq (h : WindowForest ws live prev kids) :
    ws.findWindowNeedingPaint = ((ws.belowDesktop live kids).find? ws.needsPaint).getD 0 := by
  have hle := Forest.subtree_card_le (ws.links prev) live ws.desktop
  have hvisits := h.forest.visits_below h.desktop (n := live.card) (by omega)
  unfold Windows.findWindowNeedingPaint
  rw [if_neg (h.forest.ne_zero h.desktop)]
  exact walk_visits_find hvisits

theorem WindowForest.mem_below (h : WindowForest ws live prev kids) :
    v ∈ ws.belowDesktop live kids ↔
      (ws.links prev).Within live v ws.desktop ∧ v ≠ ws.desktop := by
  have hle := Forest.subtree_card_le (ws.links prev) live ws.desktop
  exact h.forest.mem_below h.desktop (by omega)

end Walk

section Names

/-- The handle of a window names it. -/
theorem NamedWindows.named (h : NamedWindows ws live) (hw : w ∈ live) :
    (ws.wnd w).hwnd ≠ 0 ∧ ws.userWindowFromHwnd (ws.wnd w).hwnd = w := by
  obtain ⟨i, hpos, hlt, hptr, htype⟩ := h.entry w hw
  have hhwnd := h.hwnd i hlt htype (hptr ▸ hw)
  rw [hptr] at hhwnd
  have hzero : (ws.wnd w).hwnd ≠ 0 := by
    intro hz
    have hnat := userMakeHandle_toNat (g := (ws.handles.entries i).generation) hlt
    rw [← hhwnd, hz, UInt32.toNat_zero] at hnat
    omega
  refine ⟨hzero, ?_⟩
  unfold Windows.userWindowFromHwnd userHandleGetTyped
  rw [if_neg hzero, hhwnd, userHandleIndex_make hlt, userHandleGen_make hlt]
  simp [hhwnd ▸ hzero, htype, hptr, Nat.not_le.mpr hlt]

/-- A window is named by its handle only. -/
theorem NamedWindows.names (h : NamedWindows ws live) (hnull : 0 ∉ live) {hwnd : UInt32}
    (hzero : hwnd ≠ 0) (hw : ws.userWindowFromHwnd hwnd ∈ live) :
    (ws.wnd (ws.userWindowFromHwnd hwnd)).hwnd = hwnd := by
  unfold Windows.userWindowFromHwnd userHandleGetTyped at hw ⊢
  simp only [hzero, if_false, false_and] at hw ⊢
  split at hw
  · exact absurd hw hnull
  next hlt =>
  split at hw
  · exact absurd hw hnull
  next hgen =>
  split at hw
  · exact absurd hw hnull
  next htype =>
  have hlt' : userHandleIndex hwnd < userMaxHandles := Nat.not_le.mp hlt
  rw [if_neg hlt, if_neg hgen, if_neg htype, h.hwnd _ hlt' (not_not.mp htype) hw]
  apply handle_ext
  · exact userHandleIndex_make hlt'
  · rw [userHandleGen_make hlt']
    exact not_not.mp hgen

end Names

section Peek

/-- With no message that matches the call makes one for the window that the search finds. -/
theorem peek_paintMessage (hq : Represents q ms)
    (hnone : ∀ msg ∈ ms.messages, msgMatchesFilter ws filter msg = false) (tick flags : UInt32) :
    (msgQueuePeek q ws tick filter flags).2 = paintMessage ws tick filter ms.mouseX ms.mouseY := by
  have hidx : ms.messages.findIdx? (msgMatchesFilter ws filter) = none := by
    rw [List.findIdx?_eq_none_iff]
    exact hnone
  rw [(hq.peek ws tick filter flags).2]
  unfold MsgList.peek
  rw [hidx]

/-- Which window it is made for. -/
theorem paintMessage_eq (hadmits : filter.AdmitsPaint) (tick : UInt32) (mouseX mouseY : Int32)
    (hfound : ws.findWindowNeedingPaint = v) :
    paintMessage ws tick filter mouseX mouseY =
      if v ≠ 0 ∧ (filter.hwnd = 0 ∨ filter.hwnd = (ws.wnd v).hwnd) then
        some { hwnd := (ws.wnd v).hwnd, message := wmPaint, time := tick, ptX := mouseX
               ptY := mouseY }
      else none := by
  unfold MsgFilter.AdmitsPaint at hadmits
  unfold paintMessage
  rw [hfound]
  simp only [ge_iff_le, hadmits, true_and]

/-- A call with a filter for a window and no message for it makes a `WM_PAINT` for the window or
one below it exactly if the window is the first one to paint. -/
theorem peek_paints_iff (h : WindowForest ws live prev kids) (hq : Represents q ms)
    (hnone : ∀ msg ∈ ms.messages, msgMatchesFilter ws filter msg = false)
    (hadmits : filter.AdmitsPaint) (hw : ws.userWindowFromHwnd filter.hwnd ∈ live)
    (tick flags : UInt32) :
    PaintsBelow ws live prev (ws.userWindowFromHwnd filter.hwnd)
        (msgQueuePeek q ws tick filter flags).2 ↔
      FirstToPaint ws live kids filter := by
  rw [peek_paintMessage hq hnone, paintMessage_eq hadmits _ _ _ h.find_eq]
  unfold FirstToPaint
  cases hfind : (ws.belowDesktop live kids).find? ws.needsPaint with
  | none =>
    have hall := List.find?_eq_none.mp hfind
    rw [Option.getD_none, if_neg (fun hzero => hzero.1 rfl)]
    constructor
    · intro hpaints
      obtain ⟨msg, hmsg, -⟩ := hpaints
      cases hmsg
    · intro hfirst
      split at hfirst
      · obtain ⟨v, hv, hneeds⟩ := hfirst
        exact absurd hneeds (hall v hv)
      · cases hfirst
  | some v =>
    have hmem := List.mem_of_find?_eq_some hfind
    obtain ⟨hbelow, -⟩ := h.mem_below.mp hmem
    have hlive : v ∈ live := within_live hbelow h.desktop
    obtain ⟨-, hnamed⟩ := h.named hlive
    rw [Option.getD_some]
    by_cases hzero : filter.hwnd = 0
    · -- no filter: the window is the desktop
      have hdesktop : ws.userWindowFromHwnd filter.hwnd = ws.desktop := by
        rw [hzero]
        exact if_pos rfl
      rw [if_pos ⟨h.forest.ne_zero hlive, .inl hzero⟩, if_pos hzero, hdesktop]
      constructor
      · intro _
        exact ⟨v, hmem, List.find?_some hfind⟩
      · intro _
        exact ⟨_, rfl, rfl, v, hbelow, rfl⟩
    · rw [if_neg hzero]
      constructor
      · intro hpaints
        obtain ⟨msg, hmsg, -⟩ := hpaints
        split at hmsg
        · next hhandle =>
          rw [hhandle.2.resolve_left hzero, hnamed]
        · cases hmsg
      · intro hfirst
        have hv : v = ws.userWindowFromHwnd filter.hwnd := Option.some.inj hfirst
        have hname := h.names h.forest.null hzero hw
        rw [← hv] at hname
        rw [if_pos ⟨h.forest.ne_zero hlive, .inr hname.symm⟩, ← hv]
        exact ⟨_, rfl, rfl, v, .refl, rfl⟩

end Peek

section Trees

/-- Leaving a window, the loop stops no earlier without a desktop. -/
theorem leavesTo_afterWnd {ws : WindowLinks} (h : ws.afterWnd w = some v) :
    (ws.links prev).LeavesTo 0 w v := by
  induction w using WindowLinks.goUp.induct ws with
  | case1 w _ hup ih =>
    by_cases hnext : (ws.wnd w).spwndNext = 0
    · rw [afterWnd_last hnext rfl hup.1 hup.2.1] at h
      exact .up hnext hup.1 hup.1 (ih h)
    · unfold WindowLinks.afterWnd at h
      rw [if_pos hnext] at h
      rw [← Option.some.inj h]
      exact .sibling hnext
  | case2 w _ hstop =>
    by_cases hnext : (ws.wnd w).spwndNext = 0
    · unfold WindowLinks.afterWnd at h
      rw [if_neg (not_not.mpr hnext), goUp_self hstop] at h
      dsimp only at h
      split at h
      · next hgo =>
        have hsibling : (ws.wnd (ws.wnd w).spwndParent).spwndNext ≠ 0 :=
          fun hz => hstop ⟨hgo.1, hgo.2, hz⟩
        rw [← Option.some.inj h]
        exact .up hnext hgo.1 hgo.1 (.sibling hsibling)
      · cases h
    · unfold WindowLinks.afterWnd at h
      rw [if_pos hnext] at h
      rw [← Option.some.inj h]
      exact .sibling hnext

/-- Where the links of the windows are those of a forest, the loop up and the walk end. -/
theorem exists_windows {wnd : Int → WboxWnd} {t : TreeLinks Int}
    (hlinks : ∀ w, t.parent w = (wnd w).spwndParent ∧ t.child w = (wnd w).spwndChild ∧
      t.next w = (wnd w).spwndNext) (hf : Forest t live kids)
    (hdead : ∀ w, w ∉ live → wnd w = {}) (desktop : Int) (handles : UserHandleTable) :
    ∃ ws : Windows, ws.wnd = wnd ∧ ws.desktop = desktop ∧ ws.handles = handles := by
  obtain ⟨rank, hrank⟩ := hf.exists_rank
  obtain ⟨place, hchild, hleave⟩ := hf.exists_place
  have hlive : ∀ w, (wnd w).spwndParent ≠ 0 ∨ (wnd w).spwndChild ≠ 0 ∨ (wnd w).spwndNext ≠ 0 →
      w ∈ live := by
    intro w hw
    by_contra hnot
    rw [hdead w hnot] at hw
    simp at hw
  let links : WindowLinks :=
    { wnd, desktop, handles, age := rank
      older := fun w hw => by
        have hless := hrank w (hlive w (.inl hw))
        rw [(hlinks w).1] at hless
        exact hless hw }
  have hsame : links.links t.prev = t := by
    ext w
    · exact (hlinks w).1.symm
    · exact (hlinks w).2.1.symm
    · exact (hlinks w).2.2.symm
    · rfl
  refine ⟨{ toWindowLinks := links, place, ahead := ?_ }, rfl, rfl, rfl⟩
  intro w v hv
  rw [nextWnd_eq] at hv
  split at hv
  · next hne =>
    have hless := hchild w (hlive w (.inr (.inl hne)))
    rw [(hlinks w).2.1] at hless
    rw [← Option.some.inj hv]
    exact hless hne
  · next hzero =>
    have hleaves : (links.links t.prev).LeavesTo 0 w v := leavesTo_afterWnd hv
    rw [hsame] at hleaves
    have hw : w ∈ live := by
      apply hlive
      by_contra hnone
      push Not at hnone
      unfold WindowLinks.afterWnd at hv
      have hself : ¬ links.GoesUp w := fun hup => hup.1 hnone.1
      have hnext : (links.wnd w).spwndNext = 0 := hnone.2.2
      have hparent : (links.wnd w).spwndParent = 0 := hnone.1
      rw [if_neg (not_not.mpr hnext), goUp_self hself, hparent] at hv
      simp at hv
    apply hleave w hw v _ hleaves
    rw [(hlinks w).2.1]
    exact not_not.mp hzero

end Trees

section Pair

/-- The links of two windows below the desktop, which is at 1. -/
def pairLinks : TreeLinks Int :=
  ((⟨0, 0, 0, 0⟩ : TreeLinks Int).linkFront 1 3).linkFront 1 2

/-- Their children. -/
def pairKids (p : Int) : List Int := if p = 1 then [2, 3] else []

/-- Both windows are visible and have something to paint. -/
def pairWnd (w : Int) : WboxWnd where
  hwnd := if w = 1 ∨ w = 2 ∨ w = 3 then userMakeHandle w.toNat 1 else 0
  spwndParent := pairLinks.parent w
  spwndChild := pairLinks.child w
  spwndNext := pairLinks.next w
  state := if w = 2 ∨ w = 3 then 0x81 else 0

/-- The handle table with their handles. -/
def pairHandles : UserHandleTable where
  entries i := if i = 1 ∨ i = 2 ∨ i = 3 then ⟨i, 0, .window, 1⟩ else ⟨0, 0, .free, 1⟩
  firstFree := 4
  handleCount := 4

theorem pairLinks_forest : Forest pairLinks {3, 2, 1} pairKids := by
  have hone := (Forest.empty (⟨0, 0, 0, 0⟩ : TreeLinks Int)).insert (w := 1) (by decide) (by decide)
    rfl rfl rfl rfl
  have htwo := hone.insert (w := 2) (by decide) (by decide) rfl rfl rfl rfl
  have hthree := htwo.insert (w := 3) (by decide) (by decide) rfl rfl rfl rfl
  have hroot : ∀ {t : TreeLinks Int} {live : Finset Int} {w : Int}, t.parent 1 = 0 → w ≠ 1 →
      ¬ t.Within live 1 w := by
    intro t live w hzero hne hwithin
    obtain heq | ⟨v, hv, -⟩ := Relation.ReflTransGen.cases_head hwithin
    · exact hne heq.symm
    · exact hv.2.2 (hv.2.1.symm.trans hzero)
  have hfirst := hthree.linkFront (p := 1) (w := 3) (by decide) (by decide) rfl
    (hroot rfl (by decide))
  have hsecond := hfirst.linkFront (p := 1) (w := 2) (by decide) (by decide) rfl
    (hroot rfl (by decide))
  apply hsecond.congr_kids
  decide

/-- There are such windows. -/
theorem exists_pair : ∃ ws : Windows, ws.wnd = pairWnd ∧ ws.desktop = 1 ∧ ws.handles = pairHandles ∧
    WindowForest ws {3, 2, 1} pairLinks.prev pairKids := by
  have hdead : ∀ w, w ∉ ({3, 2, 1} : Finset Int) → pairWnd w = {} := by
    intro w hw
    simp only [Finset.mem_insert, Finset.mem_singleton, not_or] at hw
    obtain ⟨h3, h2, h1⟩ := hw
    simp [pairWnd, pairLinks, TreeLinks.linkFront, h1, h2, h3]
  obtain ⟨ws, hwnd, hdesktop, hhandles⟩ := exists_windows (t := pairLinks)
    (fun w => ⟨rfl, rfl, rfl⟩) pairLinks_forest hdead 1 pairHandles
  have hlinks : ws.links pairLinks.prev = pairLinks := by
    unfold WindowLinks.links
    rw [hwnd]
    rfl
  refine ⟨ws, hwnd, hdesktop, hhandles, ?_⟩
  constructor
  case forest => rw [hlinks]; exact pairLinks_forest
  case desktop => rw [hdesktop]; decide
  constructor
  · rw [hhandles]
    intro w hw
    refine ⟨w.toNat, ?_⟩
    revert w
    decide
  · rw [hhandles, hwnd]
    intro i hi htype _
    by_cases hused : i = 1 ∨ i = 2 ∨ i = 3
    · obtain rfl | rfl | rfl := hused
      · rfl
      · rfl
      · rfl
    · simp [pairHandles, hused] at htype

/-- The first of the two windows gets its `WM_PAINT`. -/
theorem peek_paints_iff_first : ∃ ws : Windows,
    PaintsBelow ws {3, 2, 1} pairLinks.prev (ws.userWindowFromHwnd 0x00010002)
      (msgQueuePeek msgQueueInit ws 0 ⟨0x00010002, 0, 0⟩ 0).2 := by
  obtain ⟨ws, hwnd, hdesktop, hhandles, hforest⟩ := exists_pair
  have hname : ws.userWindowFromHwnd 0x00010002 = 2 := by
    unfold Windows.userWindowFromHwnd
    rw [hhandles, if_neg (by decide)]
    decide
  have hfirst : FirstToPaint ws {3, 2, 1} pairKids ⟨0x00010002, 0, 0⟩ := by
    unfold FirstToPaint
    rw [hname]
    unfold WindowLinks.belowDesktop Windows.needsPaint
    rw [hwnd, hdesktop]
    decide
  have hlive : ws.userWindowFromHwnd (⟨0x00010002, 0, 0⟩ : MsgFilter).hwnd ∈
      ({3, 2, 1} : Finset Int) := by
    rw [hname]
    decide
  have hiff := peek_paints_iff hforest represents_init nofun (.inl ⟨rfl, rfl⟩) hlive 0 0
  exact ⟨ws, hiff.mpr hfirst⟩

/-- The second one gets none, although it is visible and has something to paint. -/
theorem peek_paints_second : ∃ ws : Windows,
    WindowForest ws {3, 2, 1} pairLinks.prev pairKids ∧ ws.userWindowFromHwnd 0x00010003 = 3 ∧
      ws.needsPaint 3 = true ∧ ¬ PaintsBelow ws {3, 2, 1} pairLinks.prev 3
        (msgQueuePeek msgQueueInit ws 0 ⟨0x00010003, 0, 0⟩ 0).2 := by
  obtain ⟨ws, hwnd, hdesktop, hhandles, hforest⟩ := exists_pair
  have hname : ws.userWindowFromHwnd 0x00010003 = 3 := by
    unfold Windows.userWindowFromHwnd
    rw [hhandles, if_neg (by decide)]
    decide
  have hneeds : ws.needsPaint 3 = true := by
    unfold Windows.needsPaint
    rw [hwnd]
    decide
  have hfound : ws.findWindowNeedingPaint = 2 := by
    rw [hforest.find_eq]
    unfold WindowLinks.belowDesktop Windows.needsPaint
    rw [hwnd, hdesktop]
    decide
  refine ⟨ws, hforest, hname, hneeds, ?_⟩
  intro hpaints
  obtain ⟨msg, hmsg, -⟩ := hpaints
  have hpaint : paintMessage ws 0 ⟨0x00010003, 0, 0⟩ 0 0 = none := by
    rw [paintMessage_eq (.inl ⟨rfl, rfl⟩) 0 0 0 hfound, hwnd]
    decide
  have hpeek : (msgQueuePeek msgQueueInit ws 0 ⟨0x00010003, 0, 0⟩ 0).2 =
      paintMessage ws 0 ⟨0x00010003, 0, 0⟩ 0 0 :=
    peek_paintMessage represents_init nofun 0 0
  rw [hpeek, hpaint] at hmsg
  cases hmsg

end Pair

end Wbox.User
