import Wbox.User.GuestCopies

/-!
# The guest's copies of windows are up to date

Creating, linking, unlinking and destroying windows keep the guest's copies up to date
(`src/user/guest_wnd.c`, `src/user/user_window.c:162–335`). Showing, moving and changing a window
does not, and a window that is destroyed leaves the windows that it owns with their links to it.
-/

namespace Wbox.User

open Wbox.Lib Wbox.Vm

namespace WindowStore

/-- The guest's copy of a window says what the window says, whose links go to windows. -/
structure WndMirrored (s : WindowStore) (w : Int) : Prop where
  fields : ∀ f ∈ guestWndSyncFields (s.wnd w), s.guestWord w f.1 = some f.2
  links : ∀ f ∈ s.hierarchyFields w, s.guestWord w f.1 = some f.2
  next : s.Points (s.wnd w).spwndNext
  prev : s.Points (s.wnd w).spwndPrev
  parent : s.Points (s.wnd w).spwndParent
  child : s.Points (s.wnd w).spwndChild
  owner : s.Points (s.wnd w).spwndOwner

/-- All of the guest's copies of windows say what the windows say. -/
def GuestMirrors (s : WindowStore) : Prop :=
  ∀ w ∈ s.live, (s.wnd w).guestWndVa ≠ 0 → s.WndMirrored w

/-- The windows that are owned by a window or one below it, and that the guest has copies of, are
below it themselves. -/
def OwnersSpared (s : WindowStore) (w : Int) : Prop :=
  ∀ v ∈ s.live, (s.wnd v).guestWndVa ≠ 0 → s.links.Within s.live (s.wnd v).spwndOwner w →
    s.links.Within s.live v w

end WindowStore

/-- A window that the guest has a copy of is not changed, and does not lose its owner. -/
def WindowMemory.MirrorKept (s : WindowMemory) : WndOp → Prop
  | .call (.destroy w) => w ≠ 0 → w ≠ s.desktop → s.OwnersSpared w
  | .call _ => True
  | .showWindow hwnd nCmdShow => s.vaOf (s.userWindowFromHwnd hwnd) ≠ 0 →
    (s.wnd (s.userWindowFromHwnd hwnd)).ShownAlready nCmdShow
  | .setPos w x y cx cy _ => s.vaOf w ≠ 0 → (s.wnd w).ThereAlready x y cx cy
  | .setLong w index value => s.vaOf w ≠ 0 → (s.wnd w).HasAlready index value

/-- The links are lists of children, the copies are up to date, and the owners of the windows that
the guest has copies of are live. -/
structure CopyInv (s : WindowStore) : Prop where
  lists : ∃ kids, ChildLists s.links s.live kids
  copies : Copies s [] []
  owner : ∀ w ∈ s.live, (s.wnd w).guestWndVa ≠ 0 → s.Points (s.wnd w).spwndOwner
  desktop : s.desktop ≠ 0

section Invariant

variable {s s' : WindowStore} {kids : Int → List Int} {v w : Int} {n : Nat} {f : Wnd → Wnd}

theorem closed_of_lists (hl : ChildLists s.links s.live kids)
    (howner : ∀ w ∈ s.live, (s.wnd w).guestWndVa ≠ 0 → s.Points (s.wnd w).spwndOwner) :
    s.Closed where
  null := hl.null
  parent w hw := hl.parent w hw
  child w hw := (hl.child_sibling hw).imp id And.left
  next w hw := (hl.next_sibling hw).imp id And.left
  prev w hw := (hl.prev_sibling hw).imp id And.left
  owner := howner

theorem CopyInv.closed (h : CopyInv s) : s.Closed := by
  obtain ⟨kids, hl⟩ := h.lists
  exact closed_of_lists hl h.owner

theorem guestMirrors_of_inv (h : CopyInv s) : s.GuestMirrors := by
  intro w hw hva
  have hclosed := h.closed
  exact
    { fields := (h.copies.fields w hw hva List.not_mem_nil).1
      links := h.copies.links w hw hva List.not_mem_nil
      next := hclosed.next w hw
      prev := hclosed.prev w hw
      parent := hclosed.parent w hw
      child := hclosed.child w hw
      owner := hclosed.owner w hw hva }

theorem CopyInv.unlink (h : CopyInv s) (hcall : s.userWindowUnlink w = some s') : CopyInv s' := by
  by_cases hzero : w = 0
  · rw [WindowStore.userWindowUnlink, if_pos hzero] at hcall
    exact Option.some.inj hcall ▸ h
  · obtain ⟨kids, hl⟩ := h.lists
    obtain ⟨hw, -, hcopies, heap, rfl⟩ :=
      h.copies.unlink hl (fun v hv => absurd hv List.not_mem_nil) hzero hcall
    exact ⟨⟨_, hl.unlink hw⟩, hcopies, h.owner, h.desktop⟩

theorem CopyInv.linkChild {p : Int} (h : CopyInv s)
    (hcall : s.userWindowLinkChild p w = some s') : CopyInv s' := by
  by_cases hzero : p = 0 ∨ w = 0
  · rw [WindowStore.userWindowLinkChild, if_pos hzero] at hcall
    exact Option.some.inj hcall ▸ h
  · obtain ⟨hp, hw⟩ := not_or.mp hzero
    obtain ⟨kids, hl⟩ := h.lists
    obtain ⟨⟨hplive, hlive⟩, -, hcopies, heap, rfl⟩ :=
      h.copies.linkChild hl (fun v hv => absurd hv List.not_mem_nil) hp hw hcall
    exact ⟨⟨_, (hl.unlink hlive).linkFront hplive hlive (if_pos rfl)⟩, hcopies, h.owner, h.desktop⟩

/-- A new window among the lists of children. -/
theorem place_lists (hwnd : UInt32) (a : WndArgs) (hl : ChildLists s.links s.live kids)
    (hzero : w ≠ 0) (hw : w ∉ s.live) :
    ChildLists (s.place w (newWnd hwnd a)).links (s.place w (newWnd hwnd a)).live
      fun p => if p = w then [] else kids p := by
  obtain ⟨hlive, -, hother, va, hself⟩ := place_spec s w (newWnd hwnd a)
  have hold : ChildLists (s.place w (newWnd hwnd a)).links s.live kids := by
    have hwnd : ∀ v ∈ s.live, (s.place w (newWnd hwnd a)).wnd v = s.wnd v :=
      fun v hv => hother v fun hvw => hw (hvw ▸ hv)
    apply hl.congr <;> intro v hv <;> simp [WindowStore.links, hwnd v hv]
  rw [hlive]
  apply hold.insert hzero hw
  · exact congrArg (fun wnd : Wnd => wnd.spwndParent) hself
  · exact congrArg (fun wnd : Wnd => wnd.spwndChild) hself
  · exact congrArg (fun wnd : Wnd => wnd.spwndNext) hself
  · exact congrArg (fun wnd : Wnd => wnd.spwndPrev) hself

theorem unlinked_newWnd (hwnd : UInt32) (a : WndArgs) : (newWnd hwnd a).Unlinked :=
  ⟨rfl, rfl, rfl, rfl, rfl⟩

/-- A new window gets its owner and is linked; this is when its copy gets the owner. -/
theorem CopyInv.linkNew {p owner : Int} {handles : UserHandleTable} {hwnd : UInt32} {a : WndArgs}
    (h : CopyInv s) (hzero : w ≠ 0) (hfresh : w ∉ s.live) (hp : p ≠ 0)
    (hcall : ((WindowStore.place { s with handles } w (newWnd hwnd a)).set w
      fun wnd => { wnd with spwndOwner := owner }).userWindowLinkChild p w = some s') :
    CopyInv s' := by
  obtain ⟨kids, hl⟩ := h.lists
  have hcopies : Copies { s with handles } [] [] := ⟨h.copies.null, h.copies.fits, h.copies.place,
    h.copies.apart, h.copies.fields, h.copies.links⟩
  have hclosed : WindowStore.Closed { s with handles } := closed_of_lists hl h.owner
  have hplaced := hcopies.placed hclosed hzero hfresh rfl (unlinked_newWnd hwnd a)
    (Wnd.plain_newWnd hwnd a)
  have hlists := place_lists (s := { s with handles }) hwnd a hl hzero hfresh
  obtain ⟨hlive, hdesktop, hother, va, hself⟩ := place_spec { s with handles } w (newWnd hwnd a)
  generalize WindowStore.place { s with handles } w (newWnd hwnd a) = s₁ at *
  have hset : Copies (s₁.set w fun wnd => { wnd with spwndOwner := owner }) [] [w] :=
    hplaced.set rfl (fun _ hv => hv) (fun _ hv => absurd hv List.not_mem_nil) (fun _ _ => rfl)
      fun _ hnot => absurd (List.mem_singleton.mpr rfl) hnot
  have hlinks := links_setOwner s₁ w owner
  have hlists' : ChildLists (s₁.set w fun wnd => { wnd with spwndOwner := owner }).links s₁.live
      fun p => if p = w then [] else kids p := by
    rw [hlinks]
    exact hlists
  obtain ⟨⟨hplive, hw⟩, howner, hcopies', heap, rfl⟩ :=
    hset.linkChild hlists' (fun v hv => List.mem_singleton.mp hv) hp hzero hcall
  refine ⟨⟨_, (hlists'.unlink hw).linkFront hplive hw (if_pos rfl)⟩, hcopies', fun v hv hva => ?_,
    ?_⟩
  · by_cases hvw : v = w
    · subst hvw
      exact howner fun hz => hva ((if_neg hzero).symm.trans hz)
    · have hwnd : (s₁.set w fun wnd => { wnd with spwndOwner := owner }).wnd v = s.wnd v :=
        (Function.update_of_ne hvw _ s₁.wnd).trans (hother v hvw)
      have hvlive : v ∈ s.live := (Finset.mem_insert.mp (hlive ▸ hv)).resolve_left hvw
      have hva' : ((s₁.set w fun wnd => { wnd with spwndOwner := owner }).wnd v).guestWndVa ≠ 0 :=
        hva
      show ((s₁.set w fun wnd => { wnd with spwndOwner := owner }).wnd v).spwndOwner = 0 ∨
        ((s₁.set w fun wnd => { wnd with spwndOwner := owner }).wnd v).spwndOwner ∈ s₁.live
      rw [hwnd] at hva' ⊢
      rw [hlive]
      exact (h.owner v hvlive hva').imp id fun hin => Finset.mem_insert_of_mem hin
  · show s₁.desktop ≠ 0
    rw [hdesktop]
    exact h.desktop

theorem CopyInv.withHandles (h : CopyInv s) (handles : UserHandleTable) :
    CopyInv { s with handles } :=
  ⟨h.lists, ⟨h.copies.null, h.copies.fits, h.copies.place, h.copies.apart, h.copies.fields,
    h.copies.links⟩, h.owner, h.desktop⟩

theorem CopyInv.create {mem : WndMemory} {a : WndArgs} {parent owner : Int} {r : Int}
    (h : CopyInv s) (hfresh : mem.wnd ∉ s.live)
    (hcall : s.userWindowCreate mem a parent owner = some (s', r)) : CopyInv s' := by
  unfold WindowStore.userWindowCreate at hcall
  dsimp only at hcall
  generalize hlink : (if a.style &&& wsChild = 0 ∧
      (if a.style &&& wsChild ≠ 0 ∧ parent = 0 then s.desktop else parent) = 0 then s.desktop
    else if a.style &&& wsChild ≠ 0 ∧ parent = 0 then s.desktop else parent) = p at hcall
  have hp : p ≠ 0 := by
    rw [← hlink]
    by_cases hzero : parent = 0
    · by_cases hstyle : a.style &&& wsChild = 0
      · simp [hzero, hstyle, h.desktop]
      · simp [hzero, hstyle, h.desktop]
    · simp [hzero]
  generalize a.withDefaults = a' at hcall
  rcases createInternal_cases s mem a' with ⟨handles, hnone⟩ | ⟨handles, hwnd, hzero, hnew⟩
  · rw [hnone] at hcall
    dsimp only at hcall
    rw [if_pos rfl] at hcall
    cases hcall
    exact h.withHandles handles
  · rw [hnew] at hcall
    dsimp only at hcall
    rw [if_neg hzero] at hcall
    obtain ⟨s₂, hset, hcall⟩ := Option.bind_eq_some_iff.mp hcall
    obtain ⟨s₃, hlinked, hcall⟩ := Option.bind_eq_some_iff.mp hcall
    cases hcall
    rw [(live_of_modify hset).2] at hlinked
    exact h.linkNew hzero hfresh hp hlinked

/-- `user_window_init` makes the first window. -/
theorem CopyInv.init {mem : WndMemory} {desktopCls : Option WndClass} (hempty : s.live = ∅)
    (hfits : ∀ heap, s.heap = some heap → heap.Fits)
    (hinit : s.userWindowInit mem desktopCls = (s', 0)) : CopyInv s' := by
  let a : WndArgs := { pcls := desktopCls, style := wsPopup ||| wsVisible ||| wsClipChildren
                       cx := 800, cy := 600 }
  have hs : { (s.windowCreateInternal mem a).1 with
      desktop := (s.windowCreateInternal mem a).2 } = s' := congrArg Prod.fst hinit
  have hret : (if (s.windowCreateInternal mem a).2 = 0 then (-1 : Int) else 0) = 0 :=
    congrArg Prod.snd hinit
  have hnot : ∀ w, w ∉ s.live := fun w => hempty ▸ Finset.notMem_empty w
  have hl : ChildLists s.links s.live fun _ => [] := by
    rw [hempty]
    exact ChildLists.empty s.links
  rcases createInternal_cases s mem a with ⟨handles, hnone⟩ | ⟨handles, hwnd, hzero, hnew⟩
  · rw [hnone] at hret
    cases hret
  · rw [hnew] at hs
    have hcopies : Copies { s with handles } [] [] := ⟨hnot 0, hfits, fun w hw => absurd hw (hnot w),
      fun v hv => absurd hv (hnot v), fun w hw => absurd hw (hnot w),
      fun w hw => absurd hw (hnot w)⟩
    have hclosed : WindowStore.Closed { s with handles } :=
      closed_of_lists hl fun w hw => absurd hw (hnot w)
    have hplaced := hcopies.placed hclosed hzero (hnot mem.wnd) rfl (unlinked_newWnd hwnd a)
      (Wnd.plain_newWnd hwnd a)
    have hlists := place_lists (s := { s with handles }) hwnd a hl hzero (hnot mem.wnd)
    obtain ⟨hlive, -, -, va, hself⟩ := place_spec { s with handles } mem.wnd (newWnd hwnd a)
    generalize WindowStore.place { s with handles } mem.wnd (newWnd hwnd a) = s₁ at *
    rw [← hs]
    refine ⟨⟨_, hlists⟩, ⟨hplaced.null, hplaced.fits, hplaced.place, hplaced.apart, hplaced.fields,
      hplaced.links⟩, fun v hv _ => .inl ?_, hzero⟩
    have hvw : v = mem.wnd :=
      (Finset.mem_insert.mp (hlive ▸ hv)).resolve_right (hnot v)
    rw [hvw]
    exact congrArg (fun wnd : Wnd => wnd.spwndOwner) hself

/-- The windows below a window that is destroyed are freed. -/
theorem Frees.within_freed (h : Frees s s' w) (hl' : ChildLists s'.links s'.live kids)
    (hw : w ∉ s'.live) (hv : s.links.Within s.live v w) : v ∉ s'.live := by
  induction hv using Relation.ReflTransGen.head_induction_on with
  | refl => exact hw
  | head hstep _ ih =>
    intro hin
    obtain ⟨-, hparent, hne⟩ := hstep
    rw [← h.parent _ hin] at hparent
    rcases hl'.parent _ hin with hz | hlive
    · exact hne (hparent.symm.trans hz)
    · exact ih (hparent ▸ hlive)

/-- Destroying a window, where the windows that it owns are freed with it. -/
theorem CopyInv.destroy (h : CopyInv s) (hspared : w ≠ 0 → w ≠ s.desktop → s.OwnersSpared w)
    (hcall : s.userWindowDestroy n w = some s') : CopyInv s' := by
  obtain ⟨kids, hl⟩ := h.lists
  obtain ⟨⟨kids', hl'⟩, hcopies, hfrees, hgone⟩ := destroyKeeps n s s' kids [] w hl h.copies hcall
  refine ⟨⟨kids', hl'⟩, hcopies, fun v hv hva => ?_, hfrees.desktop ▸ h.desktop⟩
  obtain ⟨howner, hsame⟩ := hfrees.same v hv
  rw [hsame] at hva
  rw [howner]
  rcases h.owner v (hfrees.live hv) hva with hz | hlive
  · exact .inl hz
  · refine .inr (by_contra fun hfreed => ?_)
    have hwithin := hfrees.within _ hlive hfreed
    by_cases hrefused : w = 0 ∨ w = s.desktop
    · have hsame' : s' = s := destroy_refused hrefused hcall
      exact hfreed (hsame' ▸ hlive)
    · obtain ⟨hzero, hdesktop⟩ := not_or.mp hrefused
      have hbelow := hspared hzero hdesktop v (hfrees.live hv) hva hwithin
      exact hfrees.within_freed hl' (hgone hzero hdesktop) hbelow hv

/-- Any other one leaves a window with a link to a freed one. -/
theorem not_mirrors_destroyed (h : CopyInv s) (hzero : w ≠ 0) (hdesktop : w ≠ s.desktop)
    (hbad : ¬ s.OwnersSpared w) (hcall : s.userWindowDestroy n w = some s') :
    ¬ s'.GuestMirrors := by
  intro hmirrors
  obtain ⟨kids, hl⟩ := h.lists
  obtain ⟨⟨kids', hl'⟩, -, hfrees, hgone⟩ := destroyKeeps n s s' kids [] w hl h.copies hcall
  apply hbad
  intro v hv hva howned
  by_contra hout
  have hlive : v ∈ s'.live := by
    by_contra hfreed
    exact hout (hfrees.within v hv hfreed)
  obtain ⟨howner, hsame⟩ := hfrees.same v hlive
  have hpoints := (hmirrors v hlive (hsame ▸ hva)).owner
  rw [howner] at hpoints
  have hfreed := hfrees.within_freed hl' (hgone hzero hdesktop) howned
  rcases hpoints with hz | hin
  · rcases Relation.ReflTransGen.cases_head howned with heq | ⟨u, hstep, -⟩
    · exact hzero (heq ▸ hz)
    · exact hl.null (hz ▸ hstep.1)
  · exact hfreed hin

/-- A change that leaves the links and the address of the copy. -/
def KeepsPlace (f : Wnd → Wnd) : Prop :=
  ∀ wnd, (f wnd).guestWndVa = wnd.guestWndVa ∧ wnd.sameLinks (f wnd)

theorem set_of_modifyAt (hcall : s.modifyAt w f = some s') :
    w = 0 ∧ s' = s ∨ w ≠ 0 ∧ w ∈ s.live ∧ s' = s.set w f := by
  unfold WindowStore.modifyAt at hcall
  by_cases hzero : w = 0
  · rw [if_pos hzero] at hcall
    exact .inl ⟨hzero, (Option.some.inj hcall).symm⟩
  · rw [if_neg hzero] at hcall
    exact .inr ⟨hzero, live_of_modify hcall⟩

/-- Changing a window but for what the guest reads of it. -/
theorem CopyInv.modifyAt (h : CopyInv s) (hf : KeepsPlace f)
    (hsync : s.vaOf w ≠ 0 → guestWndSyncFields (f (s.wnd w)) = guestWndSyncFields (s.wnd w))
    (hcall : s.modifyAt w f = some s') : CopyInv s' := by
  rcases set_of_modifyAt hcall with ⟨-, rfl⟩ | ⟨hzero, hw, rfl⟩
  · exact h
  · have hwnd : ∀ v, (s.set w f).wnd v = s.wnd v ∨ (s.set w f).wnd v = f (s.wnd v) := by
      intro v
      by_cases hv : v = w
      · subst hv
        exact .inr (Function.update_self v _ s.wnd)
      · exact .inl (Function.update_of_ne hv _ s.wnd)
    have hkeep : ∀ v, ((s.set w f).wnd v).guestWndVa = (s.wnd v).guestWndVa ∧
        (s.wnd v).sameLinks ((s.set w f).wnd v) := by
      intro v
      rcases hwnd v with heq | heq
      · rw [heq]
        exact ⟨rfl, rfl, rfl, rfl, rfl, rfl⟩
      · rw [heq]
        exact hf (s.wnd v)
    have hlinks : (s.set w f).links = s.links := by
      ext v
      · exact (hkeep v).2.2.2.1
      · exact (hkeep v).2.2.2.2.1
      · exact (hkeep v).2.1
      · exact (hkeep v).2.2.1
    obtain ⟨kids, hl⟩ := h.lists
    refine ⟨⟨kids, hlinks ▸ hl⟩, ?_, fun v hv hva => ?_, h.desktop⟩
    · apply h.copies.set (hf (s.wnd w)).1 (fun _ hv => hv) (fun _ hv => hv)
      · exact fun hva _ => hsync (h.copies.vaOf_live hw ▸ hva)
      · exact fun _ _ => (hf (s.wnd w)).2
    · obtain ⟨hsame, -, -, -, -, howner⟩ := hkeep v
      rw [hsame] at hva
      rw [howner]
      exact h.owner v hv hva

/-- The words of fields tell their values. -/
theorem fields_unique {word : UInt32 → Option UInt32} {fs gs : List (UInt32 × UInt32)}
    (hoffsets : fs.map Prod.fst = gs.map Prod.fst) (hfs : ∀ g ∈ fs, word g.1 = some g.2)
    (hgs : ∀ g ∈ gs, word g.1 = some g.2) : fs = gs := by
  have hread : ∀ {l : List (UInt32 × UInt32)}, (∀ g ∈ l, word g.1 = some g.2) →
      l = (l.map Prod.fst).map fun o => (o, (word o).getD 0) := by
    intro l hl
    rw [List.map_map]
    refine (List.map_id l).symm.trans (List.map_congr_left fun g hg => ?_)
    show g = (g.1, (word g.1).getD 0)
    rw [hl g hg]
    rfl
  rw [hread hfs, hread hgs, hoffsets]

/-- Changing what the guest reads of a window leaves its copy behind. -/
theorem not_mirrors_modifyAt (h : CopyInv s) (hf : KeepsPlace f) (hva : s.vaOf w ≠ 0)
    (hbad : guestWndSyncFields (f (s.wnd w)) ≠ guestWndSyncFields (s.wnd w))
    (hcall : s.modifyAt w f = some s') : ¬ s'.GuestMirrors := by
  intro hmirrors
  rcases set_of_modifyAt hcall with ⟨hzero, -⟩ | ⟨hzero, hw, rfl⟩
  · exact hva (if_pos hzero)
  · have hself : (s.set w f).wnd w = f (s.wnd w) := Function.update_self w _ s.wnd
    have hsame : ((s.set w f).wnd w).guestWndVa = (s.wnd w).guestWndVa := by
      rw [hself, (hf (s.wnd w)).1]
    have hne : (s.wnd w).guestWndVa ≠ 0 := h.copies.vaOf_live hw ▸ hva
    have hnew := (hmirrors w hw (hsame ▸ hne)).fields
    rw [hself] at hnew
    have hold := (h.copies.fields w hw hne List.not_mem_nil).1
    have hword : ∀ o, (s.set w f).guestWord w o = s.guestWord w o := by
      intro o
      unfold WindowStore.guestWord
      rw [hsame]
      rfl
    apply hbad
    exact @fields_unique (s.guestWord w) _ _ rfl (fun g hg => hword g.1 ▸ hnew g hg) hold

theorem CopyInv.plain (h : CopyInv s) (hw : w ∈ s.live) (hva : s.vaOf w ≠ 0) :
    (s.wnd w).Plain := by
  rw [h.copies.vaOf_live hw] at hva
  exact (h.copies.fields w hw hva List.not_mem_nil).2

end Invariant

section Steps

variable {s s' : WindowMemory} {n : Nat} {op : WndOp}

/-- `user_window_set_long` changes the window by its switch. -/
theorem setLong_store {w : Int} {index : Int32} {value : UInt32}
    (hcall : s.wndStep n (.setLong w index value) = some s') :
    s.modifyAt w (fun wnd => wnd.setLong index value) = some s'.toWindowStore := by
  obtain ⟨r, hr, rfl⟩ := Option.map_eq_some_iff.mp hcall
  unfold WindowMemory.userWindowSetLong at hr
  unfold WindowStore.modifyAt
  by_cases hzero : w = 0
  · rw [if_pos hzero] at hr ⊢
    cases hr
    rfl
  · rw [if_neg hzero] at hr ⊢
    obtain ⟨old, -, hr⟩ := Option.bind_eq_some_iff.mp hr
    obtain ⟨wnd, -, hr⟩ := Option.bind_eq_some_iff.mp hr
    obtain ⟨store, hstore, hr⟩ := Option.bind_eq_some_iff.mp hr
    cases hr
    rw [hstore]
    unfold WindowMemory.setExtra
    split <;> rfl

theorem keepsPlace_shown (nCmdShow : Int32) : KeepsPlace fun wnd => wnd.shown nCmdShow :=
  fun _ => ⟨rfl, rfl, rfl, rfl, rfl, rfl⟩

theorem keepsPlace_setPos (x y cx cy : Int32) (flags : UInt32) :
    KeepsPlace fun wnd => wnd.setPos x y cx cy flags :=
  fun _ => ⟨rfl, rfl, rfl, rfl, rfl, rfl⟩

theorem keepsPlace_setLong (index : Int32) (value : UInt32) :
    KeepsPlace fun wnd => wnd.setLong index value := by
  intro wnd
  unfold Wnd.setLong
  split_ifs <;> exact ⟨rfl, rfl, rfl, rfl, rfl, rfl⟩

/-- A step that meets its condition. -/
theorem CopyInv.step (h : CopyInv s.toWindowStore) (hkept : s.MirrorKept op)
    (hstep : s.wndStep n op = some s') : CopyInv s'.toWindowStore := by
  cases op with
  | call op =>
    obtain ⟨store, hcall, rfl⟩ := Option.map_eq_some_iff.mp hstep
    cases op with
    | create mem args parent owner =>
      unfold WindowStore.windowStep at hcall
      dsimp only at hcall
      split at hcall
      · cases hcall
      · next hfresh =>
        obtain ⟨r, hr, rfl⟩ := Option.map_eq_some_iff.mp hcall
        exact h.create hfresh hr
    | linkChild parent child => exact h.linkChild hcall
    | unlink wnd => exact h.unlink hcall
    | destroy wnd => exact h.destroy hkept hcall
  | showWindow hwnd nCmdShow =>
    obtain ⟨store, hcall, rfl⟩ := Option.map_eq_some_iff.mp hstep
    exact h.modifyAt (keepsPlace_shown nCmdShow)
      (fun hva => Wnd.shown_sync_iff.mpr (hkept hva)) hcall
  | setPos w x y cx cy flags =>
    obtain ⟨store, hcall, rfl⟩ := Option.map_eq_some_iff.mp hstep
    rcases set_of_modifyAt hcall with ⟨-, hsame⟩ | ⟨-, hw, -⟩
    · exact hsame ▸ h
    · exact h.modifyAt (keepsPlace_setPos x y cx cy flags)
        (fun hva => (Wnd.setPos_sync_iff (h.plain hw hva)).mpr (hkept hva)) hcall
  | setLong w index value =>
    have hcall := setLong_store hstep
    rcases set_of_modifyAt hcall with ⟨-, hsame⟩ | ⟨-, hw, -⟩
    · exact hsame ▸ h
    · exact h.modifyAt (keepsPlace_setLong index value)
        (fun hva => (Wnd.setLong_sync_iff (h.plain hw hva)).mpr (hkept hva)) hcall

/-- Any other step leaves a copy behind. -/
theorem not_guestMirrors_step (h : CopyInv s.toWindowStore) (hbad : ¬ s.MirrorKept op)
    (hstep : s.wndStep n op = some s') : ¬ s'.toWindowStore.GuestMirrors := by
  cases op with
  | call op =>
    obtain ⟨store, hcall, rfl⟩ := Option.map_eq_some_iff.mp hstep
    cases op with
    | destroy wnd =>
      obtain ⟨hzero, hbad⟩ := Classical.not_imp.mp hbad
      obtain ⟨hdesktop, hbad⟩ := Classical.not_imp.mp hbad
      exact not_mirrors_destroyed h hzero hdesktop hbad hcall
    | _ => exact absurd trivial hbad
  | showWindow hwnd nCmdShow =>
    obtain ⟨store, hcall, rfl⟩ := Option.map_eq_some_iff.mp hstep
    obtain ⟨hva, hbad⟩ := Classical.not_imp.mp hbad
    exact not_mirrors_modifyAt h (keepsPlace_shown nCmdShow) hva
      (fun hsync => hbad (Wnd.shown_sync_iff.mp hsync)) hcall
  | setPos w x y cx cy flags =>
    obtain ⟨store, hcall, rfl⟩ := Option.map_eq_some_iff.mp hstep
    obtain ⟨hva, hbad⟩ := Classical.not_imp.mp hbad
    rcases set_of_modifyAt hcall with ⟨hzero, -⟩ | ⟨-, hw, -⟩
    · exact absurd (if_pos hzero) hva
    · exact not_mirrors_modifyAt h (keepsPlace_setPos x y cx cy flags) hva
        (fun hsync => hbad ((Wnd.setPos_sync_iff (h.plain hw hva)).mp hsync)) hcall
  | setLong w index value =>
    have hcall := setLong_store hstep
    obtain ⟨hva, hbad⟩ := Classical.not_imp.mp hbad
    rcases set_of_modifyAt hcall with ⟨hzero, -⟩ | ⟨-, hw, -⟩
    · exact absurd (if_pos hzero) hva
    · exact not_mirrors_modifyAt h (keepsPlace_setLong index value) hva
        (fun hsync => hbad ((Wnd.setLong_sync_iff (h.plain hw hva)).mp hsync)) hcall

/-- The guest's copies are up to date throughout exactly the runs that do not change a window with
a copy by showing, moving or changing it, and do not take its owner from it. -/
theorem guestMirrors_iff {s₀ : WindowStore} {mem : WndMemory} {desktopCls : Option WndClass}
    {ops : List WndOp} {tr : List WindowMemory} (hempty : s₀.live = ∅)
    (hfits : ∀ heap, s₀.heap = some heap → heap.Fits)
    (hinit : s₀.userWindowInit mem desktopCls = (s.toWindowStore, 0))
    (h : trace (WindowMemory.wndStep n) s ops = some tr) :
    (∀ a ∈ tr, a.toWindowStore.GuestMirrors) ↔
      Guarded (WindowMemory.wndStep n) WindowMemory.MirrorKept s ops :=
  trace_forall_iff_guarded (fun _ => guestMirrors_of_inv) (fun _ _ _ ha hok => ha.step hok)
    (fun _ _ _ ha hbad => not_guestMirrors_step ha hbad) (CopyInv.init hempty hfits hinit) h

/-- A window is made, linked to the desktop again, and moved to where it is. -/
theorem guestMirrors_iff_moved : ∃ (s : WindowMemory) (tr : List WindowMemory),
    (connectedStore (fun _ => {}) (some {})).userWindowInit ⟨1, true⟩ none =
      (s.toWindowStore, 0) ∧
      trace (WindowMemory.wndStep 1) s
        [.call (.create ⟨2, true⟩ {} 0 0), .call (.linkChild 1 2), .setPos 2 0 0 0 0 0] = some tr ∧
      ((∀ a ∈ tr, a.toWindowStore.GuestMirrors) ↔
        Guarded (WindowMemory.wndStep 1) WindowMemory.MirrorKept s
          [.call (.create ⟨2, true⟩ {} 0 0), .call (.linkChild 1 2), .setPos 2 0 0 0 0 0]) := by
  let s : WindowMemory :=
    { toWindowStore :=
        ((connectedStore (fun _ => {}) (some {})).userWindowInit ⟨1, true⟩ none).1
      extraBytes := fun _ _ => 0 }
  have hsome : (trace (WindowMemory.wndStep 1) s [.call (.create ⟨2, true⟩ {} 0 0),
      .call (.linkChild 1 2), .setPos 2 0 0 0 0 0]).isSome = true := by decide
  obtain ⟨tr, htr⟩ := Option.isSome_iff_exists.mp hsome
  have hinit : (connectedStore (fun _ => {}) (some {})).userWindowInit ⟨1, true⟩ none =
      (s.toWindowStore, 0) := Prod.ext rfl (by decide)
  have hfits : ∀ heap, (connectedStore (fun _ => {}) (some {})).heap = some heap → heap.Fits := by
    intro heap hheap
    cases hheap
    exact Nat.zero_le _
  exact ⟨s, tr, hinit, htr, guestMirrors_iff rfl hfits hinit htr⟩

end Steps

/-- A new window is shown, and the guest does not get to know. -/
theorem shown_not_mirrored : ¬ ∀ (mem : WndMemory) (desktopCls : Option WndClass)
    (ops : List WndOp) (n : Nat) (s : WindowMemory) (tr : List WindowMemory),
    (connectedStore (fun _ => {}) (some {})).userWindowInit mem desktopCls =
      (s.toWindowStore, 0) →
    trace (WindowMemory.wndStep n) s ops = some tr → ∀ a ∈ tr, a.toWindowStore.GuestMirrors := by
  intro h
  let s₁ : WindowMemory :=
    { toWindowStore :=
        ((connectedStore (fun _ => {}) (some {})).userWindowInit ⟨1, true⟩ none).1
      extraBytes := fun _ _ => 0 }
  let s₂ := (s₁.wndStep 0 (.call (.create ⟨2, true⟩ {} 0 0))).getD s₁
  let s₃ := (s₂.wndStep 0 (.showWindow (s₂.wnd 2).hwnd 5)).getD s₁
  have hstep : ∀ {s : WindowMemory} {op : WndOp}, (s.wndStep 0 op).isSome = true →
      s.wndStep 0 op = some ((s.wndStep 0 op).getD s₁) := fun {s op} hsome => by
    rw [Option.getD_of_ne_none (Option.isSome_iff_ne_none.mp hsome)]
  have h₂ : s₁.wndStep 0 (.call (.create ⟨2, true⟩ {} 0 0)) = some s₂ := hstep (by decide)
  have h₃ : s₂.wndStep 0 (.showWindow (s₂.wnd 2).hwnd 5) = some s₃ := hstep (by decide)
  have htrace : trace (WindowMemory.wndStep 0) s₁
      [.call (.create ⟨2, true⟩ {} 0 0), .showWindow (s₂.wnd 2).hwnd 5] = some [s₁, s₂, s₃] := by
    rw [trace, h₂, Option.bind_eq_bind, Option.bind_some, trace, h₃]
    rfl
  have hmirror := h ⟨1, true⟩ none _ 0 s₁ _ (Prod.ext rfl (by decide)) htrace s₃ (by simp) 2
    (by decide) (by decide)
  have hstate : s₃.guestWord 2 wndState = some (s₃.wnd 2).state :=
    hmirror.fields (wndState, (s₃.wnd 2).state) List.mem_cons_self
  revert hstate
  decide +kernel

end Wbox.User
