import Wbox.User.Windows

/-!
# The walk over the windows

What the walk of `find_window_needing_paint` finds (`src/user/user_message.c:124–160`) where the
links of the windows are those of a tree: a window with something to paint, if there is one below
the desktop.
-/

namespace Wbox.User

/-- From a window along the `spwndNext` links. -/
inductive Sibling (ws : WindowLinks) : Int → Int → Prop where
  | refl (w : Int) : Sibling ws w w
  | step {u w : Int} (hnext : (ws.wnd u).spwndNext ≠ 0)
      (hrest : Sibling ws (ws.wnd u).spwndNext w) : Sibling ws u w

/-- The windows below the desktop. -/
inductive Below (ws : WindowLinks) : Int → Prop where
  | child {w : Int} (hw : w ≠ 0) (hdesktop : ws.desktop ≠ 0)
      (hparent : (ws.wnd w).spwndParent = ws.desktop) : Below ws w
  | deeper {w : Int} (hw : w ≠ 0) (hparent : Below ws (ws.wnd w).spwndParent) : Below ws w

/-- The links are those of a tree: the list of children of a window has exactly the windows that it
is the parent of. -/
structure LinkedTree (ws : WindowLinks) : Prop where
  root : (ws.wnd ws.desktop).spwndParent = 0
  child : ∀ p, p ≠ 0 → (ws.wnd p).spwndChild ≠ 0 → (ws.wnd (ws.wnd p).spwndChild).spwndParent = p
  next : ∀ w, w ≠ 0 → (ws.wnd w).spwndNext ≠ 0 →
    (ws.wnd (ws.wnd w).spwndNext).spwndParent = (ws.wnd w).spwndParent
  listed : ∀ w, w ≠ 0 → (ws.wnd w).spwndParent ≠ 0 →
    (ws.wnd (ws.wnd w).spwndParent).spwndChild ≠ 0 ∧
      Sibling ws (ws.wnd (ws.wnd w).spwndParent).spwndChild w

/-- Windows with the same links. -/
structure SameLinks (ws ws' : WindowLinks) : Prop where
  parent : ∀ w, (ws'.wnd w).spwndParent = (ws.wnd w).spwndParent
  child : ∀ w, (ws'.wnd w).spwndChild = (ws.wnd w).spwndChild
  next : ∀ w, (ws'.wnd w).spwndNext = (ws.wnd w).spwndNext
  desktop : ws'.desktop = ws.desktop

namespace WindowLinks

/-- Where the walk goes from a window that has no children. -/
def afterWnd (ws : WindowLinks) (w : Int) : Option Int :=
  if (ws.wnd w).spwndNext ≠ 0 then some (ws.wnd w).spwndNext
  else
    let parent := (ws.wnd (ws.goUp w)).spwndParent
    if parent ≠ 0 ∧ parent ≠ ws.desktop then some (ws.wnd parent).spwndNext else none

end WindowLinks

section Links

variable {ws ws' : WindowLinks} {w u v p : Int}

theorem nextWnd_eq (ws : WindowLinks) (w : Int) :
    ws.nextWnd w = if (ws.wnd w).spwndChild ≠ 0 then some (ws.wnd w).spwndChild
      else ws.afterWnd w := rfl

/-- The loop goes up from a window without a sibling above it. -/
def WindowLinks.GoesUp (ws : WindowLinks) (w : Int) : Prop :=
  (ws.wnd w).spwndParent ≠ 0 ∧ (ws.wnd w).spwndParent ≠ ws.desktop ∧
    (ws.wnd (ws.wnd w).spwndParent).spwndNext = 0

theorem goUp_parent (h : ws.GoesUp w) : ws.goUp w = ws.goUp (ws.wnd w).spwndParent := by
  rw [WindowLinks.goUp]
  exact dif_pos h

theorem goUp_self (h : ¬ ws.GoesUp w) : ws.goUp w = w := by
  rw [WindowLinks.goUp]
  exact dif_neg h

/-- After the last child the walk goes on as after its parent. -/
theorem afterWnd_last (hnext : (ws.wnd w).spwndNext = 0) (hparent : (ws.wnd w).spwndParent = p)
    (hp : p ≠ 0) (hdesktop : p ≠ ws.desktop) : ws.afterWnd w = ws.afterWnd p := by
  unfold WindowLinks.afterWnd
  rw [if_neg (not_not.mpr hnext)]
  by_cases hzero : (ws.wnd p).spwndNext = 0
  · have hup : ws.GoesUp w := by
      unfold WindowLinks.GoesUp
      rw [hparent]
      exact ⟨hp, hdesktop, hzero⟩
    rw [goUp_parent hup, hparent, if_neg (not_not.mpr hzero)]
  · have hstop : ¬ ws.GoesUp w := fun h => hzero (hparent ▸ h.2.2)
    rw [goUp_self hstop, hparent, if_pos hzero]
    exact if_pos ⟨hp, hdesktop⟩

theorem Sibling.congr (hsib : Sibling ws u w) (h : SameLinks ws ws') : Sibling ws' u w := by
  induction hsib with
  | refl w => exact .refl w
  | step hnext _ ih =>
    rw [← h.next] at hnext ih
    exact .step hnext ih

theorem Below.congr (hbelow : Below ws w) (h : SameLinks ws ws') : Below ws' w := by
  induction hbelow with
  | child hw hdesktop hparent =>
    exact .child hw (h.desktop ▸ hdesktop) (by rw [h.parent, h.desktop, hparent])
  | deeper hw _ ih => exact .deeper hw (h.parent _ ▸ ih)

theorem LinkedTree.congr (ht : LinkedTree ws) (h : SameLinks ws ws') : LinkedTree ws' := by
  constructor
  · rw [h.parent, h.desktop]
    exact ht.root
  · intro p hp hchild
    rw [h.child] at hchild ⊢
    rw [h.parent]
    exact ht.child p hp hchild
  · intro w hw hnext
    rw [h.next] at hnext ⊢
    rw [h.parent, h.parent]
    exact ht.next w hw hnext
  · intro w hw hparent
    rw [h.parent] at hparent
    obtain ⟨hchild, hsib⟩ := ht.listed w hw hparent
    rw [h.parent, h.child]
    exact ⟨hchild, hsib.congr h⟩

/-- The way up depends on the links only. -/
theorem goUp_congr (h : SameLinks ws ws') (w : Int) : ws'.goUp w = ws.goUp w := by
  have hiff : ∀ w, ws'.GoesUp w ↔ ws.GoesUp w := by
    intro w
    unfold WindowLinks.GoesUp
    rw [h.parent, h.next, h.desktop]
  induction w using WindowLinks.goUp.induct ws with
  | case1 w _ hup ih => rw [goUp_parent hup, goUp_parent ((hiff w).mpr hup), h.parent, ih]
  | case2 w _ hstop => rw [goUp_self hstop, goUp_self fun hup => hstop ((hiff w).mp hup)]

/-- So does the walk. -/
theorem nextWnd_congr (h : SameLinks ws ws') (w : Int) : ws'.nextWnd w = ws.nextWnd w := by
  unfold WindowLinks.nextWnd
  simp only [h.parent, h.child, h.next, h.desktop, goUp_congr h]

end Links

section Walk

variable {ws : Windows} {w u v p : Int}

/-- The walk finds a window with something to paint. -/
theorem walk_needsPaint (h : ws.walk w ≠ 0) : ws.needsPaint (ws.walk w) = true := by
  induction w using Windows.walk.induct ws with
  | case1 =>
    unfold Windows.walk at h
    exact absurd rfl h
  | case2 w hw hneeds =>
    have hwalk : ws.walk w = w := by
      unfold Windows.walk
      rw [if_neg hw, if_pos hneeds]
    rw [hwalk]
    exact hneeds
  | case3 w hw hneeds hnone =>
    unfold Windows.walk at h
    rw [if_neg hw, if_neg hneeds] at h
    split at h
    · exact absurd rfl h
    · next v hv => cases hnone.symm.trans hv
  | case4 w hw hneeds v hv ih =>
    have hwalk : ws.walk w = ws.walk v := by
      rw [Windows.walk, if_neg hw, if_neg hneeds]
      split
      · next hnone => cases hnone.symm.trans hv
      · next v' hv' => rw [Option.some.inj (hv'.symm.trans hv)]
    rw [hwalk] at h ⊢
    exact ih h

/-- What is found needs to be painted. -/
theorem findWindowNeedingPaint_needs (h : ws.findWindowNeedingPaint ≠ 0) :
    ws.needsPaint ws.findWindowNeedingPaint = true := by
  unfold Windows.findWindowNeedingPaint at h ⊢
  split
  · next hdesktop =>
    rw [if_pos hdesktop] at h
    exact absurd rfl h
  · next hdesktop =>
    rw [if_neg hdesktop] at h
    exact walk_needsPaint h

end Walk

end Wbox.User
