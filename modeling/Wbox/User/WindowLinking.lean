import Wbox.User.WindowStore

/-!
# The calls on the links of windows

Where all links of the windows point to windows, `user_window_unlink` and `user_window_link_child`
change the links as in a forest, and bring the guest's copies of the windows they touch up to date
(`src/user/user_window.c:278–335`).
-/

namespace Wbox.User

open Wbox.Lib

/-- A window with the links of a node. -/
def Wnd.withLinks (wnd : Wnd) (t : TreeLinks Int) (w : Int) : Wnd :=
  { wnd with
    spwndParent := t.parent w, spwndChild := t.child w, spwndNext := t.next w
    spwndPrev := t.prev w }

namespace WindowStore

/-- The links of the windows. -/
def links (s : WindowStore) : TreeLinks Int where
  parent w := (s.wnd w).spwndParent
  child w := (s.wnd w).spwndChild
  next w := (s.wnd w).spwndNext
  prev w := (s.wnd w).spwndPrev

/-- The windows with other links. -/
def relink (s : WindowStore) (t : TreeLinks Int) : WindowStore :=
  { s with wnd := fun w => (s.wnd w).withLinks t w }

/-- The address of the guest `WND` of a window. -/
def vaOf (s : WindowStore) (w : Int) : UInt32 := if w = 0 then 0 else (s.wnd w).guestWndVa

/-- The links that the guest's copy of a window should have. -/
def hierarchyFields (s : WindowStore) (w : Int) : List (UInt32 × UInt32) :=
  [(wndSpwndNext, s.vaOf (s.wnd w).spwndNext), (wndSpwndPrev, s.vaOf (s.wnd w).spwndPrev),
    (wndSpwndParent, s.vaOf (s.wnd w).spwndParent), (wndSpwndChild, s.vaOf (s.wnd w).spwndChild),
    (wndSpwndOwner, s.vaOf (s.wnd w).spwndOwner)]

/-- The heap with the links of the guest's copy of a window as they should be. -/
def syncLinks (s : WindowStore) (heap : Option DesktopHeap) (w : Int) : Option DesktopHeap :=
  if s.vaOf w = 0 then heap
  else heap.map fun heap => desktopHeapWrites heap (s.vaOf w) (s.hierarchyFields w)

/-- A link is `NULL` or goes to a window. -/
def Points (s : WindowStore) (w : Int) : Prop := w = 0 ∨ w ∈ s.live

/-- The links of the windows go to windows; of the owners only those that are read. -/
structure Closed (s : WindowStore) : Prop where
  null : 0 ∉ s.live
  parent : ∀ w ∈ s.live, s.Points (s.wnd w).spwndParent
  child : ∀ w ∈ s.live, s.Points (s.wnd w).spwndChild
  next : ∀ w ∈ s.live, s.Points (s.wnd w).spwndNext
  prev : ∀ w ∈ s.live, s.Points (s.wnd w).spwndPrev
  owner : ∀ w ∈ s.live, (s.wnd w).guestWndVa ≠ 0 → s.Points (s.wnd w).spwndOwner

end WindowStore

/-- Change the link to the next node. -/
def setNext (t : TreeLinks Int) (a x : Int) : TreeLinks Int :=
  { t with next := fun v => if v = a ∧ v ≠ 0 then x else t.next v }

/-- Change the link to the node before. -/
def setPrev (t : TreeLinks Int) (a x : Int) : TreeLinks Int :=
  { t with prev := fun v => if v = a ∧ v ≠ 0 then x else t.prev v }

/-- Change the link to the first child where it goes to `w`. -/
def setFirst (t : TreeLinks Int) (w p x : Int) : TreeLinks Int :=
  { t with child := fun v => if v = p ∧ v ≠ 0 ∧ t.child v = w then x else t.child v }

/-- Clear the links to the parent and the siblings. -/
def clearLinks (t : TreeLinks Int) (w : Int) : TreeLinks Int :=
  { t with
    parent := fun v => if v = w then 0 else t.parent v
    next := fun v => if v = w then 0 else t.next v
    prev := fun v => if v = w then 0 else t.prev v }

section Calls

variable {s : WindowStore} {t t' : TreeLinks Int} {w a x : Int}

@[simp] theorem links_relink : (s.relink t).links = t := rfl

@[simp] theorem relink_links : s.relink s.links = s := rfl

@[simp] theorem relink_live : (s.relink t).live = s.live := rfl

theorem read_live (hw : w ∈ s.live) : s.read w = some (s.wnd w) := if_pos hw

theorem modify_live (f : Wnd → Wnd) (hw : w ∈ s.live) : s.modify w f = some (s.set w f) :=
  if_pos hw

/-- A change of the links of a single window. -/
theorem set_eq_relink {f : Wnd → Wnd} (hself : f (s.wnd a) = (s.wnd a).withLinks t a)
    (hother : ∀ v, v ≠ a → s.wnd v = (s.wnd v).withLinks t v) : s.set a f = s.relink t := by
  have hwnd : Function.update s.wnd a (f (s.wnd a)) = fun w => (s.wnd w).withLinks t w := by
    funext v
    by_cases hv : v = a
    · subst hv
      exact (Function.update_self v _ s.wnd).trans hself
    · exact (Function.update_of_ne hv _ s.wnd).trans (hother v hv)
  unfold WindowStore.set WindowStore.relink
  rw [hwnd]

/-- A change of the links of a single window, after other ones. -/
theorem modify_relink {f : Wnd → Wnd} (ha : a ∈ s.live)
    (hself : f ((s.wnd a).withLinks t a) = (s.wnd a).withLinks t' a)
    (hother : ∀ v, v ≠ a → (s.wnd v).withLinks t v = (s.wnd v).withLinks t' v) :
    (s.relink t).modify a f = some (s.relink t') := by
  rw [modify_live (s := s.relink t) f ha]
  congr 1
  exact set_eq_relink (s := s.relink t) hself hother

/-- The change of a link to the next window, if there is a window to change. -/
theorem modify_next (h : s.Points a) :
    (s.modifyAt a fun wnd => { wnd with spwndNext := x }) =
      some (s.relink (setNext s.links a x)) := by
  unfold WindowStore.modifyAt
  by_cases ha : a = 0
  · rw [if_pos ha]
    have hsame : setNext s.links a x = s.links := by
      ext v <;> simp [setNext, ha]
    rw [hsame, relink_links]
  · rw [if_neg ha, modify_live _ (h.resolve_left ha)]
    congr 1
    apply set_eq_relink
    · simp [Wnd.withLinks, setNext, WindowStore.links, ha]
    · intro v hv
      simp [Wnd.withLinks, setNext, WindowStore.links, hv]

theorem modify_prev (h : s.Points a) :
    (s.modifyAt a fun wnd => { wnd with spwndPrev := x }) =
      some (s.relink (setPrev s.links a x)) := by
  unfold WindowStore.modifyAt
  by_cases ha : a = 0
  · rw [if_pos ha]
    have hsame : setPrev s.links a x = s.links := by
      ext v <;> simp [setPrev, ha]
    rw [hsame, relink_links]
  · rw [if_neg ha, modify_live _ (h.resolve_left ha)]
    congr 1
    apply set_eq_relink
    · simp [Wnd.withLinks, setPrev, WindowStore.links, ha]
    · intro v hv
      simp [Wnd.withLinks, setPrev, WindowStore.links, hv]

theorem unlinkFirst_eq {p : Int} (h : s.Points p) :
    s.unlinkFirst w p x = some (s.relink (setFirst s.links w p x)) := by
  unfold WindowStore.unlinkFirst
  by_cases hp : p = 0
  · rw [if_pos hp]
    have hsame : setFirst s.links w p x = s.links := by
      ext v
      · rfl
      · show (if v = p ∧ v ≠ 0 ∧ _ then x else _) = _
        apply if_neg
        rintro ⟨hvp, hv, -⟩
        exact hv (hvp.trans hp)
      · rfl
      · rfl
    rw [hsame, relink_links]
  · have hlive := h.resolve_left hp
    rw [if_neg hp, read_live hlive]
    show (if s.links.child p = w then s.modify p _ else some s) = _
    split
    · next hfirst =>
      rw [modify_live _ hlive]
      congr 1
      apply set_eq_relink
      · simp [Wnd.withLinks, setFirst, hp, hfirst]
        simp [WindowStore.links]
      · intro v hv
        simp [Wnd.withLinks, setFirst, WindowStore.links, hv]
    · next hfirst =>
      have hsame : setFirst s.links w p x = s.links := by
        ext v
        · rfl
        · apply if_neg
          rintro ⟨rfl, -, hv⟩
          exact hfirst hv
        · rfl
        · rfl
      rw [hsame, relink_links]

theorem modify_clear (hw : w ∈ s.live) :
    (s.modify w fun wnd => { wnd with spwndParent := 0, spwndNext := 0, spwndPrev := 0 }) =
      some (s.relink (clearLinks s.links w)) := by
  rw [modify_live _ hw]
  congr 1
  apply set_eq_relink
  · simp [Wnd.withLinks, clearLinks, WindowStore.links]
  · intro v hv
    simp [Wnd.withLinks, clearLinks, WindowStore.links, hv]

theorem guestWndGetVa_eq {v : Int} (h : s.Points v) : s.guestWndGetVa v = some (s.vaOf v) := by
  unfold WindowStore.guestWndGetVa WindowStore.vaOf
  by_cases hv : v = 0
  · rw [if_pos hv, if_pos hv]
  · rw [if_neg hv, if_neg hv, read_live (h.resolve_left hv)]
    rfl

/-- The guest's copy of a window gets the links of the window. -/
theorem updateHierarchy_eq {v : Int} (h : s.Closed) (hv : s.Points v)
    (heap : Option DesktopHeap) :
    WindowStore.guestWndUpdateHierarchy { s with heap } v =
      some { s with heap := s.syncLinks heap v } := by
  unfold WindowStore.guestWndUpdateHierarchy WindowStore.syncLinks
  by_cases hzero : v = 0
  · have hva : s.vaOf v = 0 := if_pos hzero
    rw [if_pos hzero, if_pos hva]
  · have hlive := hv.resolve_left hzero
    have hva : s.vaOf v = (s.wnd v).guestWndVa := if_neg hzero
    have hread : WindowStore.read { s with heap } v = some (s.wnd v) := if_pos hlive
    have hget : ∀ u, s.Points u →
        WindowStore.guestWndGetVa { s with heap } u = some (s.vaOf u) :=
      fun u hu => guestWndGetVa_eq (s := { s with heap }) hu
    rw [if_neg hzero, hread, hva]
    simp only [Option.bind_eq_bind, Option.bind_some]
    split
    · rfl
    · next hne =>
      simp only [hget _ (h.next v hlive), hget _ (h.prev v hlive), hget _ (h.parent v hlive),
        hget _ (h.child v hlive), hget _ (h.owner v hlive hne), Option.bind_some]
      rfl

/-- The windows with new links, and the guest's copies of some of them brought up to date. -/
def WindowStore.resync (s : WindowStore) (t : TreeLinks Int) (heap : Option DesktopHeap)
    (ws : List Int) : WindowStore :=
  { s.relink t with heap := ws.foldl (s.relink t).syncLinks heap }

/-- No window has a link to itself. -/
structure Apart (t : TreeLinks Int) (w : Int) : Prop where
  parent : t.parent w ≠ w
  next : t.next w ≠ w
  prev : t.prev w ≠ w

theorem Closed.unlink (h : s.Closed) (hw : w ∈ s.live) :
    WindowStore.Closed (s.relink (s.links.unlink w)) where
  null := h.null
  parent v hv := by
    show s.Points (if v = w then 0 else _)
    split
    · exact .inl rfl
    · exact h.parent v hv
  child v hv := by
    show s.Points (if _ then _ else _)
    split
    · exact h.next w hw
    · exact h.child v hv
  next v hv := by
    show s.Points (if v = w then 0 else if _ then _ else _)
    split
    · exact .inl rfl
    · split
      · exact h.next w hw
      · exact h.next v hv
  prev v hv := by
    show s.Points (if v = w then 0 else if _ then _ else _)
    split
    · exact .inl rfl
    · split
      · exact h.prev w hw
      · exact h.prev v hv
  owner := h.owner

/-- `user_window_unlink` takes the window out of its list, and then brings the guest's copies of the
windows around it up to date. -/
theorem unlink_updates (hzero : w ≠ 0) (hw : w ∈ s.live) (hpoints : s.Points (s.links.parent w))
    (hpointsNext : s.Points (s.links.next w)) (hpointsPrev : s.Points (s.links.prev w))
    (hapart : s.links.prev w ≠ w) :
    s.userWindowUnlink w = (do
      let s₁ ← (s.relink (s.links.unlink w)).guestWndUpdateHierarchy w
      let s₂ ← s₁.guestWndUpdateHierarchy (s.links.prev w)
      let s₃ ← s₂.guestWndUpdateHierarchy (s.links.next w)
      s₃.guestWndUpdateHierarchy (s.links.parent w)) := by
  let t₁ := setNext s.links (s.links.prev w) (s.links.next w)
  let t₂ := setPrev t₁ (s.links.next w) (s.links.prev w)
  let t₃ := setFirst t₂ w (s.links.parent w) (s.links.next w)
  have hnext : t₁.next w = s.links.next w := if_neg fun hc => hapart hc.1.symm
  have hprev : s.modifyAt (s.wnd w).spwndPrev
      (fun prev => { prev with spwndNext := (s.wnd w).spwndNext }) = some (s.relink t₁) :=
    modify_next hpointsPrev
  have hnextWnd : (s.relink t₁).modifyAt (s.links.next w)
      (fun next => { next with spwndPrev := s.links.prev w }) = some (s.relink t₂) :=
    modify_prev (s := s.relink t₁) hpointsNext
  have hfirst : (s.relink t₂).unlinkFirst w (s.links.parent w) (s.links.next w) =
      some (s.relink t₃) :=
    unlinkFirst_eq (s := s.relink t₂) hpoints
  have hclear : (s.relink t₃).modify w
      (fun wnd => { wnd with spwndParent := 0, spwndNext := 0, spwndPrev := 0 }) =
      some (s.relink (s.links.unlink w)) := modify_clear (s := s.relink t₃) hw
  have hread₁ : (s.relink t₁).read w = some ((s.wnd w).withLinks t₁ w) := read_live hw
  have hread₂ : (s.relink t₂).read w = some ((s.wnd w).withLinks t₂ w) := read_live hw
  have hlink₁ : ((s.wnd w).withLinks t₁ w).spwndNext = s.links.next w := hnext
  have hlink₂ : ((s.wnd w).withLinks t₂ w).spwndNext = s.links.next w := hnext
  have hlink₃ : ((s.wnd w).withLinks t₁ w).spwndPrev = s.links.prev w := rfl
  have hlink₄ : ((s.wnd w).withLinks t₂ w).spwndParent = s.links.parent w := rfl
  unfold WindowStore.userWindowUnlink
  rw [if_neg hzero, read_live hw]
  simp only [Option.bind_eq_bind, Option.bind_some, hprev, hread₁, hlink₁, hlink₃, hnextWnd,
    hread₂, hlink₂, hlink₄, hfirst, hclear]
  rfl

/-- Where all links go to windows, the guest's copies are brought up to date. -/
theorem unlink_eq (h : s.Closed) (hw : w ∈ s.live) (hapart : Apart s.links w) :
    s.userWindowUnlink w = some (s.resync (s.links.unlink w) s.heap
      [w, s.links.prev w, s.links.next w, s.links.parent w]) := by
  have hzero : w ≠ 0 := fun hz => h.null (hz ▸ hw)
  have hup : ∀ v, s.Points v → ∀ heap, WindowStore.guestWndUpdateHierarchy
      { s.relink (s.links.unlink w) with heap } v =
        some { s.relink (s.links.unlink w) with
          heap := (s.relink (s.links.unlink w)).syncLinks heap v } :=
    fun v hv heap => updateHierarchy_eq (Closed.unlink h hw) hv heap
  rw [unlink_updates hzero hw (h.parent w hw) (h.next w hw) (h.prev w hw) hapart.prev]
  refine (congrArg (Option.bind · _) (hup w (.inr hw) s.heap)).trans ?_
  refine (congrArg (Option.bind · _) (hup _ (h.prev w hw) _)).trans ?_
  refine (congrArg (Option.bind · _) (hup _ (h.next w hw) _)).trans ?_
  exact hup _ (h.parent w hw) _

/-- The links while a window is put in front of the children of another one: all but the link of
the parent. -/
def linkSiblings (t : TreeLinks Int) (p c : Int) : TreeLinks Int :=
  { t.linkFront p c with child := t.child }

theorem Closed.linkFront {p c : Int} (h : s.Closed) (hp : p ∈ s.live) (hc : c ∈ s.live) :
    WindowStore.Closed (s.relink (s.links.linkFront p c)) where
  null := h.null
  parent v hv := by
    show s.Points (if v = c then p else _)
    split
    · exact .inr hp
    · exact h.parent v hv
  child v hv := by
    show s.Points (if v = p then c else _)
    split
    · exact .inr hc
    · exact h.child v hv
  next v hv := by
    show s.Points (if v = c then s.links.child p else _)
    split
    · exact h.child p hp
    · exact h.next v hv
  prev v hv := by
    show s.Points (if v = c then 0 else if _ then _ else _)
    split
    · exact .inl rfl
    · split
      · exact .inr hc
      · exact h.prev v hv
  owner := h.owner

theorem Closed.linkSiblings {p c : Int} (h : s.Closed) (hp : p ∈ s.live) (hc : c ∈ s.live) :
    WindowStore.Closed (s.relink (linkSiblings s.links p c)) where
  null := h.null
  parent := (Closed.linkFront h hp hc).parent
  child := h.child
  next := (Closed.linkFront h hp hc).next
  prev := (Closed.linkFront h hp hc).prev
  owner := h.owner

theorem hierarchyFields_relink (s : WindowStore) (t : TreeLinks Int) (v : Int) :
    (s.relink t).hierarchyFields v =
      [(wndSpwndNext, s.vaOf (t.next v)), (wndSpwndPrev, s.vaOf (t.prev v)),
        (wndSpwndParent, s.vaOf (t.parent v)), (wndSpwndChild, s.vaOf (t.child v)),
        (wndSpwndOwner, s.vaOf (s.wnd v).spwndOwner)] := rfl

/-- The guest's copy of a window depends on the links of the window alone. -/
theorem syncLinks_congr (s : WindowStore) (t t' : TreeLinks Int) {v : Int}
    (hparent : t'.parent v = t.parent v) (hchild : t'.child v = t.child v)
    (hnext : t'.next v = t.next v) (hprev : t'.prev v = t.prev v) (heap : Option DesktopHeap) :
    (s.relink t').syncLinks heap v = (s.relink t).syncLinks heap v := by
  unfold WindowStore.syncLinks
  rw [hierarchyFields_relink, hierarchyFields_relink, hparent, hchild, hnext, hprev]
  rfl

/-- `user_window_link_child` puts the unlinked window in front of the children, bringing the guest's
copy of the first child up to date before the parent is changed. -/
theorem linkChild_updates {p c : Int} {s' : WindowStore} (hpzero : p ≠ 0) (hczero : c ≠ 0)
    (hunlink : s.userWindowUnlink c = some s') (hp : p ∈ s'.live) (hc : c ∈ s'.live)
    (hpoints : s'.Points (s'.links.child p)) (hfirst : s'.links.child p ≠ c) :
    s.userWindowLinkChild p c = (do
      let s₁ ← (s'.relink (linkSiblings s'.links p c)).guestWndUpdateHierarchy (s'.links.child p)
      let s₂ ← s₁.modify p fun wnd => { wnd with spwndChild := c }
      let s₃ ← s₂.guestWndUpdateHierarchy c
      s₃.guestWndUpdateHierarchy p) := by
  let u := s'.links
  let first := u.child p
  let t₁ : TreeLinks Int := { u with parent := fun v => if v = c then p else u.parent v }
  let t₂ : TreeLinks Int :=
    { t₁ with
      next := fun v => if v = c then first else u.next v
      prev := fun v => if v = c then 0 else u.prev v }
  let t₃ := linkSiblings u p c
  have hparent : s'.modify c (fun wnd => { wnd with spwndParent := p }) = some (s'.relink t₁) := by
    apply modify_relink (s := s') (t := u) hc
    · simp [Wnd.withLinks, t₁]
    · intro v hv
      simp [Wnd.withLinks, t₁, hv]
  have hread : (s'.relink t₁).read p = some ((s'.wnd p).withLinks t₁ p) := read_live hp
  have hlink : ((s'.wnd p).withLinks t₁ p).spwndChild = first := rfl
  have hnext : (s'.relink t₁).modify c
      (fun wnd => { wnd with spwndNext := first, spwndPrev := 0 }) = some (s'.relink t₂) := by
    apply modify_relink (s := s') hc
    · simp [Wnd.withLinks, t₂]
    · intro v hv
      simp [Wnd.withLinks, t₂, t₁, hv]
  have hsiblings : setPrev t₂ first c = t₃ := by
    ext v
    · rfl
    · rfl
    · rfl
    · show (if v = first ∧ v ≠ 0 then c else if v = c then 0 else u.prev v) =
        if v = c then 0 else if v = first ∧ v ≠ 0 then c else u.prev v
      by_cases hv : v = c
      · subst hv
        rw [if_pos rfl, if_pos rfl, if_neg fun hv => hfirst hv.1.symm]
      · rw [if_neg hv, if_neg hv]
  have hprev : (s'.relink t₂).modifyAt first (fun wnd => { wnd with spwndPrev := c }) =
      some (s'.relink t₃) := by
    rw [← hsiblings]
    exact modify_prev (s := s'.relink t₂) hpoints
  unfold WindowStore.userWindowLinkChild
  rw [if_neg (not_or.mpr ⟨hpzero, hczero⟩)]
  simp only [Option.bind_eq_bind, Option.bind_some, hunlink, hparent, hread, hlink, hnext, hprev]
  rfl

/-- The link of the parent to its first child is changed last. -/
theorem modify_firstChild {p c : Int} {u : TreeLinks Int} (hp : p ∈ s.live) :
    (s.relink (linkSiblings u p c)).modify p (fun wnd => { wnd with spwndChild := c }) =
      some (s.relink (u.linkFront p c)) := by
  apply modify_relink hp
  · simp [Wnd.withLinks, linkSiblings, TreeLinks.linkFront]
  · intro v hv
    simp [Wnd.withLinks, linkSiblings, TreeLinks.linkFront, hv]

/-- Where all links go to windows, the guest's copies are brought up to date. -/
theorem linkChild_eq {p c : Int} (h : s.Closed) (hp : p ∈ s.live) (hc : c ∈ s.live)
    (hapart : Apart s.links c) (hfirst : (s.links.unlink c).child p ≠ c)
    (hfirst' : (s.links.unlink c).child p ≠ p) :
    s.userWindowLinkChild p c = some (s.resync ((s.links.unlink c).linkFront p c)
      (s.resync (s.links.unlink c) s.heap
        [c, s.links.prev c, s.links.next c, s.links.parent c]).heap
      [(s.links.unlink c).child p, c, p]) := by
  have hpzero : p ≠ 0 := fun hz => h.null (hz ▸ hp)
  have hczero : c ≠ 0 := fun hz => h.null (hz ▸ hc)
  let u := s.links.unlink c
  let first := u.child p
  let heap₁ := (s.resync u s.heap [c, s.links.prev c, s.links.next c, s.links.parent c]).heap
  let t₄ := u.linkFront p c
  let s₁ : WindowStore := { s with heap := (s.relink t₄).syncLinks heap₁ first }
  have hclosed : (s.relink u).Closed := Closed.unlink h hc
  have hpoints : s.Points first := hclosed.child p hp
  have hupfirst : WindowStore.guestWndUpdateHierarchy
      { s.relink (linkSiblings u p c) with heap := heap₁ } first =
        some (s₁.relink (linkSiblings u p c)) := by
    refine (updateHierarchy_eq (Closed.linkSiblings hclosed hp hc) hpoints heap₁).trans ?_
    have hsync := syncLinks_congr s t₄ (linkSiblings u p c) (v := first) rfl
      (if_neg hfirst').symm rfl rfl heap₁
    show some { s.relink (linkSiblings u p c) with
      heap := (s.relink (linkSiblings u p c)).syncLinks heap₁ first } = _
    rw [hsync]
    rfl
  have hup : ∀ v ∈ s.live, ∀ heap, WindowStore.guestWndUpdateHierarchy
      { s.relink t₄ with heap } v =
        some { s.relink t₄ with heap := (s.relink t₄).syncLinks heap v } :=
    fun v hv heap => updateHierarchy_eq (Closed.linkFront hclosed hp hc) (.inr hv) heap
  rw [linkChild_updates hpzero hczero (unlink_eq h hc hapart) hp hc hpoints hfirst]
  refine (congrArg (Option.bind · _) hupfirst).trans ?_
  refine (congrArg (Option.bind · _) (modify_firstChild (s := s₁) hp)).trans ?_
  refine (congrArg (Option.bind · _) (hup c hc _)).trans ?_
  exact hup p hp _

/-- The windows after one has been unlinked and freed. -/
def WindowStore.released (s : WindowStore) (w : Int) : WindowStore :=
  let s' := s.resync (s.links.unlink w) s.heap
    [w, s.links.prev w, s.links.next w, s.links.parent w]
  { s' with
    heap := if (s.wnd w).guestWndVa ≠ 0 then
        s'.heap.map fun heap => guestWndDestroy heap (s.wnd w).guestWndVa
      else s'.heap
    handles := (userHandleFree s.handles (s.wnd w).hwnd).1
    live := s.live.erase w }

theorem release_eq (h : s.Closed) (hw : w ∈ s.live) (hapart : Apart s.links w) :
    s.release w = some (s.released w) := by
  unfold WindowStore.release
  rw [unlink_eq h hw hapart]
  have hread : (s.resync (s.links.unlink w) s.heap
      [w, s.links.prev w, s.links.next w, s.links.parent w]).read w =
      some ((s.wnd w).withLinks (s.links.unlink w) w) := read_live hw
  simp only [Option.bind_eq_bind, Option.bind_some, hread]
  rfl

@[simp] theorem released_live : (s.released w).live = s.live.erase w := rfl

end Calls

section Forests

variable {s : WindowStore} {kids : Int → List Int} {w : Int}

theorem apart_of_forest (h : Forest s.links s.live kids) (hw : w ∈ s.live) : Apart s.links w where
  parent := h.parent_ne_self hw
  next := (h.next_prev_ne_self hw).1
  prev := (h.next_prev_ne_self hw).2

/-- Where the links are those of a forest, they go to windows. -/
theorem closed_of_forest (h : Forest s.links s.live kids)
    (howner : ∀ w ∈ s.live, (s.wnd w).guestWndVa ≠ 0 → s.Points (s.wnd w).spwndOwner) :
    s.Closed where
  null := h.null
  parent w hw := h.parent w hw
  child w hw := (h.child_sibling hw).imp id And.left
  next w hw := (h.next_sibling hw).imp id And.left
  prev w hw := (h.prev_sibling hw).imp id And.left
  owner := howner

end Forests

end Wbox.User
