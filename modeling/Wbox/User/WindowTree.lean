import Wbox.User.WindowLinking

/-!
# The tree of windows

Creating, linking, unlinking and destroying windows keeps their links those of a forest, and
destroying a window frees it with all windows below it (`src/user/user_window.c:114–335`). Two
things are not looked after. A window that is destroyed may own windows that are not, and their
links to it are left; and a window that has the desktop below it is never done destroying, because
the desktop refuses.
-/

namespace Wbox.User

open Wbox.Lib

/-- The links of the live windows are those of a tree, and their owners are live. -/
structure WindowTree (s : WindowStore) : Prop where
  parent : ∀ w ∈ s.live, s.Points (s.wnd w).spwndParent
  child : ∀ w ∈ s.live, s.Points (s.wnd w).spwndChild
  next : ∀ w ∈ s.live, s.Points (s.wnd w).spwndNext
  prev : ∀ w ∈ s.live, s.Points (s.wnd w).spwndPrev
  owner : ∀ w ∈ s.live, s.Points (s.wnd w).spwndOwner
  children : ∀ p ∈ s.live, ∃ ws : List Int, ws.Nodup ∧ (s.wnd p).spwndChild = ws.headD 0 ∧
    s.links.Chained 0 ws ∧ ∀ w, w ∈ ws ↔ w ∈ s.live ∧ (s.wnd w).spwndParent = p
  acyclic : ∀ w, ¬ Relation.TransGen (s.links.ChildOf s.live) w w

/-- A call on the windows. -/
inductive WindowOp where
  | create (mem : WndMemory) (args : WndArgs) (parent owner : Int)
  | linkChild (parent child : Int)
  | unlink (wnd : Int)
  | destroy (wnd : Int)

namespace WindowStore

/-- A call, with at most `n` calls of `user_window_destroy` inside each other. -/
def windowCall (n : Nat) (s : WindowStore) : WindowOp → Option WindowStore
  | .create mem args parent owner => (s.userWindowCreate mem args parent owner).map Prod.fst
  | .linkChild parent child => s.userWindowLinkChild parent child
  | .unlink wnd => s.userWindowUnlink wnd
  | .destroy wnd => s.userWindowDestroy n wnd

/-- A call returns. -/
def Returns (s : WindowStore) (op : WindowOp) (s' : WindowStore) : Prop :=
  ∃ n, s.windowCall n op = some s'

/-- What the calls are made with: `calloc` gives a new window or none, the other windows are live,
and a window is not linked under itself or a window below it. -/
def Asked (s : WindowStore) : WindowOp → Prop
  | .create mem _ parent owner => mem.wnd ∉ s.live ∧ s.Points parent ∧ s.Points owner
  | .linkChild parent child =>
    parent ∈ s.live ∧ child ∈ s.live ∧ ¬ s.links.Within s.live parent child
  | .unlink wnd => wnd ∈ s.live
  | .destroy wnd => wnd ∈ s.live

/-- A destroyed window is freed with all windows below it, and the desktop never is. -/
structure DestroyFrees (s s' : WindowStore) (w : Int) : Prop where
  live : w ≠ s.desktop → ∀ v, v ∈ s'.live ↔ v ∈ s.live ∧ ¬ s.links.Within s.live v w
  refused : w = s.desktop → s'.live = s.live
  desktop : s.desktop ∈ s'.live

/-- A call returns, and if it destroys a window, it frees the right ones. A window that would be
freed twice is one that is touched after it has been freed. -/
def Settles (s : WindowStore) (op : WindowOp) : Prop :=
  (∃ s', s.Returns op s') ∧ ∀ s' w, op = .destroy w → s.Returns op s' → s.DestroyFrees s' w

/-- The order in which the windows are freed when one is destroyed. -/
def destroyOrder (s : WindowStore) (w : Int) : List Int :=
  postOrder (fun p => s.links.siblings s.live.card (s.links.child p)) s.live.card w

/-- When the windows are freed in this order, a window that loses its owner is freed later, and
the guest has no copy of it. -/
def Outlasts (s : WindowStore) : Finset Int → List Int → Prop
  | _, [] => True
  | live, w :: ws =>
    (∀ v ∈ live, v ≠ w → (s.wnd v).spwndOwner = w → v ∈ ws ∧ (s.wnd v).guestWndVa = 0) ∧
      s.Outlasts (live.erase w) ws

/-- The desktop is not below a window that is destroyed, and no window loses its owner. -/
def Spared (s : WindowStore) : WindowOp → Prop
  | .destroy wnd => wnd ≠ s.desktop →
    s.desktop ∉ s.destroyOrder wnd ∧ s.Outlasts s.live (s.destroyOrder wnd)
  | _ => True

end WindowStore

/-- The states that calls of a kind lead to from `user_window_init`. -/
inductive WindowReached (ok : WindowStore → WindowOp → Prop) : WindowStore → Prop where
  | init {s s' : WindowStore} {mem : WndMemory} {desktopCls : Option WndClass}
      (hempty : s.live = ∅) (hinit : s.userWindowInit mem desktopCls = (s', 0)) :
      WindowReached ok s'
  | call {s s' : WindowStore} {op : WindowOp} (hs : WindowReached ok s) (hasked : s.Asked op)
      (hok : ok s op) (hcall : s.Returns op s') : WindowReached ok s'

/-- In every state that is reached the windows are a tree, and every call settles. -/
def TreeKept (ok : WindowStore → WindowOp → Prop) : Prop :=
  ∀ s, WindowReached ok s → WindowTree s ∧ ∀ op, s.Asked op → ok s op → s.Settles op

section Destroy

/-- `WNDS_DESTROYED` is set. -/
def WindowStore.marked (s : WindowStore) (w : Int) : WindowStore :=
  s.set w fun wnd => { wnd with state := wnd.state ||| wndsDestroyed }

/-- What holds while windows are destroyed: a property of the state and of the windows that are
still to be freed, in their order. -/
structure DestroyInvariant (I : WindowStore → List Int → Prop) : Prop where
  owner : ∀ s L, I s L → ∀ w ∈ s.live, (s.wnd w).guestWndVa ≠ 0 → s.Points (s.wnd w).spwndOwner
  mark : ∀ s w L, I s L → w ∈ L → I (s.marked w) L
  release : ∀ s w L kids, Forest s.links s.live kids → w ∈ s.live → I s (w :: L) →
    I (s.released w) L

variable {I : WindowStore → List Int → Prop} {s s' : WindowStore} {kids : Int → List Int}
  {w : Int} {n m : Nat}

@[simp] theorem marked_links : (s.marked w).links = s.links := by
  have hwnd : ∀ v, (s.marked w).wnd v = s.wnd v ∨ (s.marked w).wnd v =
      { s.wnd v with state := (s.wnd v).state ||| wndsDestroyed } := by
    intro v
    by_cases hv : v = w
    · subst hv
      exact .inr (Function.update_self v _ s.wnd)
    · exact .inl (Function.update_of_ne hv _ s.wnd)
  ext v <;> rcases hwnd v with h | h <;> simp [WindowStore.links, h]

/-- The windows from `user_window_destroy` on. -/
structure Destroyed (I : WindowStore → List Int → Prop) (s s' : WindowStore)
    (kids : Int → List Int) (w : Int) (R : List Int) : Prop where
  holds : I s' R
  pruned : Pruned s.links s'.links s.live s'.live w
  desktop : s'.desktop = s.desktop
  forest : Forest s'.links s'.live fun q => (kids q).erase w

/-- The windows after the loop over the children. -/
structure Childless (I : WindowStore → List Int → Prop) (s s' : WindowStore)
    (kids : Int → List Int) (w : Int) (R : List Int) : Prop where
  holds : I s' R
  live : ∀ v, v ∈ s'.live ↔ v ∈ s.live ∧ (¬ s.links.Within s.live v w ∨ v = w)
  parent : ∀ v ∈ s'.live, s'.links.parent v = s.links.parent v
  desktop : s'.desktop = s.desktop
  forest : Forest s'.links s'.live fun q => if q = w then [] else kids q

/-- `user_window_destroy` frees a window and those below it. -/
def DestroyWorks (I : WindowStore → List Int → Prop) (n : Nat) : Prop :=
  ∀ (m : Nat) (s : WindowStore) (kids : Int → List Int) (w : Int) (R : List Int),
    Forest s.links s.live kids → w ∈ s.live → (Forest.subtree s.links s.live w).card ≤ n →
    (Forest.subtree s.links s.live w).card ≤ m → (∀ u ∈ postOrder kids m w, u ≠ s.desktop) →
    I s (postOrder kids m w ++ R) →
    ∃ s', s.userWindowDestroy n w = some s' ∧ Destroyed I s s' kids w R

theorem whileChild_done {destroy : WindowStore → Int → Option WindowStore} (hw : w ∈ s.live)
    (hchild : s.links.child w = 0) (k : Nat) :
    WindowStore.whileChild destroy w (k + 1) s = some s := by
  show (do
    let wnd ← s.read w
    if wnd.spwndChild = 0 then return s
    let s ← destroy s wnd.spwndChild
    WindowStore.whileChild destroy w k s) = some s
  rw [read_live hw]
  exact if_pos hchild

theorem whileChild_next {destroy : WindowStore → Int → Option WindowStore} (hw : w ∈ s.live)
    (hchild : s.links.child w ≠ 0) (hcall : destroy s (s.links.child w) = some s') (k : Nat) :
    WindowStore.whileChild destroy w (k + 1) s = WindowStore.whileChild destroy w k s' := by
  show (do
    let wnd ← s.read w
    if wnd.spwndChild = 0 then return s
    let s ← destroy s wnd.spwndChild
    WindowStore.whileChild destroy w k s) = _
  rw [read_live hw]
  refine (if_neg hchild).trans ?_
  show (destroy s (s.links.child w)).bind _ = _
  rw [hcall]
  rfl

/-- Destroying a child leaves the lists of children of the other windows. -/
theorem erase_child {c q : Int} (hf : Forest s.links s.live kids) (hc : c ∈ kids w)
    (hw : w ∈ s.live) (hq : q ∈ s.live) (hqw : q ≠ w) : (kids q).erase c = kids q := by
  apply List.erase_of_not_mem
  intro hin
  exact hqw (((hf.mem q hq c).mp hin).2.symm.trans ((hf.mem w hw c).mp hc).2)

/-- The loop destroys the children, the first one first. -/
theorem whileChild_works (hdestroy : DestroyWorks I n) {R : List Int} (cs : List Int) {k : Nat}
    (hf : Forest s.links s.live kids) (hw : w ∈ s.live) (hkids : kids w = cs)
    (hk : cs.length < k) (hn : (Forest.subtree s.links s.live w).card ≤ n + 1)
    (hm : (Forest.subtree s.links s.live w).card ≤ m + 1)
    (hdesktop : ∀ u ∈ cs.flatMap (postOrder kids m), u ≠ s.desktop)
    (hI : I s (cs.flatMap (postOrder kids m) ++ R)) :
    ∃ s', WindowStore.whileChild (WindowStore.userWindowDestroy n) w k s = some s' ∧
      Childless I s s' kids w R := by
  obtain ⟨k, rfl⟩ : ∃ j, k = j + 1 := ⟨k - 1, by omega⟩
  induction cs generalizing s kids k with
  | nil =>
    have hchild : s.links.child w = 0 := by
      have hfirst := hf.first w hw
      rwa [hkids] at hfirst
    refine ⟨s, whileChild_done hw hchild k, hI, fun v => ?_, fun _ _ => rfl, rfl,
      hf.congr_kids fun q _ => ?_⟩
    · rw [hf.within_iff hw, hkids]
      simp only [List.not_mem_nil, false_and, exists_false, or_false]
      exact ⟨fun hv => ⟨hv, (em (v = w)).symm⟩, And.left⟩
    · split
      · next hq => rw [hq, hkids]
      · rfl
  | cons c cs ih =>
    have hcin : c ∈ kids w := hkids ▸ List.mem_cons_self
    have hlt := hf.subtree_card_lt hw hcin
    have hc := ((hf.mem w hw c).mp hcin).1
    have hchild : s.links.child w = c := by
      have hfirst := hf.first w hw
      rwa [hkids] at hfirst
    rw [List.flatMap_cons] at hdesktop hI
    rw [List.append_assoc] at hI
    obtain ⟨s₁, hcall, hd⟩ := hdestroy m s kids c _ hf hc (by omega) (by omega)
      (fun u hu => hdesktop u (List.mem_append_left _ hu)) hI
    have hw₁ : w ∈ s₁.live := (hd.pruned.live w).mpr ⟨hw, hf.not_within_child hw hcin⟩
    have hkids₁ : (kids w).erase c = cs := by
      rw [hkids, List.erase_cons_head]
    have horder : cs.flatMap (postOrder (fun q => (kids q).erase c) m) =
        cs.flatMap (postOrder kids m) := by
      apply List.flatMap_congr
      intro d hd
      have hdin : d ∈ kids w := hkids ▸ List.mem_cons_of_mem c hd
      have hdlive := ((hf.mem w hw d).mp hdin).1
      apply hf.postOrder_congr hdlive
      intro v hv
      apply erase_child hf hcin hw (within_live hv hdlive)
      rintro rfl
      exact hf.not_within_child hw hdin hv
    have hcard := hd.pruned.subtree_card_le (w := w)
    obtain ⟨s', hwhile, hleft⟩ := ih hd.forest hw₁ hkids₁ (by omega) (by omega)
      (by
        rw [horder, hd.desktop]
        exact fun u hu => hdesktop u (List.mem_append_right _ hu))
      (by
        rw [horder]
        exact hd.holds) (k - 1) (by
        simp only [List.length_cons] at hk
        omega)
    have hk' : k - 1 + 1 = k := by
      simp only [List.length_cons] at hk
      omega
    rw [hk'] at hwhile
    refine ⟨s', ?_, hleft.holds, fun v => ?_, fun v hv => ?_, hleft.desktop.trans hd.desktop,
      hleft.forest.congr_kids fun q hq => ?_⟩
    · rw [whileChild_next hw _ (hchild ▸ hcall), hwhile]
      rw [hchild]
      exact hf.ne_zero hc
    · rw [hleft.live, hd.pruned.live, and_assoc]
      apply and_congr_right
      intro hv
      constructor
      · rintro ⟨hvc, hvw | hvw⟩
        · exact .inl fun hin => hvw ((hd.pruned.within_iff hvc).mpr hin)
        · exact .inr hvw
      · rintro (hvw | rfl)
        · have hvc : ¬ s.links.Within s.live v c := fun hin =>
            hvw ((hf.within_iff hw).mpr (.inr ⟨c, hcin, hin⟩))
          exact ⟨hvc, .inl fun hin => hvw (hd.pruned.within hin)⟩
        · exact ⟨hf.not_within_child hw hcin, .inr rfl⟩
    · exact (hleft.parent v hv).trans (hd.pruned.parent v ((hleft.live v).mp hv).1)
    · have hqlive := ((hd.pruned.live q).mp ((hleft.live q).mp hq).1).1
      by_cases hqw : q = w
      · rw [if_pos hqw, if_pos hqw]
      · rw [if_neg hqw, if_neg hqw, erase_child hf hcin hw hqlive hqw]

/-- `user_window_destroy` frees a window and those below it. -/
theorem destroyWorks (hinv : DestroyInvariant I) (n : Nat) : DestroyWorks I n := by
  induction n with
  | zero =>
    intro m s kids w R hf hw hn
    have hpos : 0 < (Forest.subtree s.links s.live w).card :=
      Finset.card_pos.mpr ⟨w, Forest.mem_subtree.mpr ⟨hw, .refl⟩⟩
    omega
  | succ n ih =>
    intro m s kids w R hf hw hn hm hdesktop hI
    have hlen := hf.length_kids_lt hw
    obtain ⟨m, rfl⟩ : ∃ j, m = j + 1 := ⟨m - 1, by omega⟩
    have hin : w ∈ postOrder kids (m + 1) w :=
      List.mem_append_right _ (List.mem_singleton.mpr rfl)
    have hmark := hinv.mark s w _ hI (List.mem_append_left R hin)
    have hmodify : s.modify w (fun wnd => { wnd with state := wnd.state ||| wndsDestroyed }) =
        some (s.marked w) := modify_live _ hw
    have hlinks : (s.marked w).links = s.links := marked_links
    have hfmark : Forest (s.marked w).links (s.marked w).live kids := by
      rw [hlinks]
      exact hf
    rw [postOrder, List.append_assoc] at hmark
    obtain ⟨s₂, hwhile, hleft⟩ := whileChild_works (k := n + 1) (m := m) ih (kids w) hfmark hw rfl
      (by omega) (by rw [hlinks]; exact hn) (by rw [hlinks]; exact hm)
      (fun u hu => hdesktop u (List.mem_append_left _ hu)) hmark
    have hw₂ : w ∈ s₂.live := (hleft.live w).mpr ⟨hw, .inr rfl⟩
    have hclosed := closed_of_forest hleft.forest (hinv.owner s₂ _ hleft.holds)
    have hrelease := release_eq hclosed hw₂ (apart_of_forest hleft.forest hw₂)
    refine ⟨s₂.released w, ?_, ?_, ⟨fun v => ?_, fun v hv => ?_⟩, hleft.desktop, ?_⟩
    · rw [WindowStore.userWindowDestroy, if_neg (hf.ne_zero hw), if_neg (hdesktop w hin), hmodify]
      show (WindowStore.whileChild _ w (n + 1) (s.marked w)).bind _ = _
      rw [hwhile]
      exact hrelease
    · exact hinv.release s₂ w R _ hleft.forest hw₂ hleft.holds
    · rw [released_live, Finset.mem_erase, hleft.live, hlinks]
      constructor
      · rintro ⟨hvw, hv, hout | heq⟩
        · exact ⟨hv, hout⟩
        · exact absurd heq hvw
      · rintro ⟨hv, hout⟩
        exact ⟨fun heq => hout (heq ▸ .refl), hv, .inl hout⟩
    · have hv₂ := Finset.mem_erase.mp hv
      have hparent := hleft.parent v hv₂.2
      rw [hlinks] at hparent
      rw [← hparent]
      exact if_neg hv₂.1
    · have hcut := (hleft.forest.unlink hw₂).erase hw₂ (if_pos rfl) (by simp)
      refine hcut.congr_kids fun q hq => ?_
      rw [if_neg (Finset.mem_erase.mp hq).1]

theorem whileChild_mono {destroy destroy' : WindowStore → Int → Option WindowStore}
    (hmono : ∀ s w s', destroy s w = some s' → destroy' s w = some s') {k k' : Nat} (hk : k ≤ k')
    (h : WindowStore.whileChild destroy w k s = some s') :
    WindowStore.whileChild destroy' w k' s = some s' := by
  induction k generalizing s k' with
  | zero => cases h
  | succ k ih =>
    obtain ⟨k', rfl⟩ : ∃ j, k' = j + 1 := ⟨k' - 1, by omega⟩
    by_cases hw : w ∈ s.live
    · by_cases hchild : s.links.child w = 0
      · rwa [whileChild_done hw hchild] at h ⊢
      · cases hcall : destroy s (s.links.child w) with
        | none =>
          have hnone : WindowStore.whileChild destroy w (k + 1) s = none := by
            show (s.read w).bind _ = none
            rw [read_live hw]
            refine (if_neg hchild).trans ?_
            show (destroy s (s.links.child w)).bind _ = none
            rw [hcall]
            rfl
          rw [hnone] at h
          cases h
        | some s₁ =>
          rw [whileChild_next hw hchild hcall] at h
          rw [whileChild_next hw hchild (hmono _ _ _ hcall)]
          exact ih (by omega) h
    · have hnone : WindowStore.whileChild destroy w (k + 1) s = none := by
        show (s.read w).bind _ = none
        rw [WindowStore.read, if_neg hw]
        rfl
      rw [hnone] at h
      cases h

/-- A call that returns does so however deep it may go. -/
theorem destroy_mono (hle : n ≤ m) (h : s.userWindowDestroy n w = some s') :
    s.userWindowDestroy m w = some s' := by
  induction n generalizing s w s' m with
  | zero => cases h
  | succ n ih =>
    obtain ⟨m, rfl⟩ : ∃ j, m = j + 1 := ⟨m - 1, by omega⟩
    rw [WindowStore.userWindowDestroy] at h ⊢
    split
    · next hzero => rwa [if_pos hzero] at h
    · next hzero =>
      rw [if_neg hzero] at h
      split
      · next hdesktop => rwa [if_pos hdesktop] at h
      · next hdesktop =>
        rw [if_neg hdesktop] at h
        obtain ⟨s₁, hmodify, h₁⟩ := Option.bind_eq_some_iff.mp h
        obtain ⟨s₂, hwhile, hrelease⟩ := Option.bind_eq_some_iff.mp h₁
        refine Option.bind_eq_some_iff.mpr ⟨s₁, hmodify, ?_⟩
        refine Option.bind_eq_some_iff.mpr ⟨s₂, ?_, hrelease⟩
        exact whileChild_mono (fun s w s' h => ih (by omega) h) (by omega) hwhile

/-- `NULL` and the desktop are not destroyed. -/
theorem destroy_refused (hrefused : w = 0 ∨ w = s.desktop)
    (h : s.userWindowDestroy n w = some s') : s' = s := by
  cases n with
  | zero => cases h
  | succ n =>
    rw [WindowStore.userWindowDestroy] at h
    rcases hrefused with hzero | hdesktop
    · rw [if_pos hzero] at h
      exact (Option.some.inj h).symm
    · rw [if_pos hdesktop, ite_self] at h
      exact (Option.some.inj h).symm

end Destroy

/-- The links are those of a forest, the owners are live, and so is the desktop. -/
structure TreeInv (s : WindowStore) : Prop where
  forest : ∃ kids, Forest s.links s.live kids
  owner : ∀ w ∈ s.live, s.Points (s.wnd w).spwndOwner
  desktop : s.desktop ∈ s.live

section Invariant

variable {s s' : WindowStore} {kids : Int → List Int} {w : Int} {n : Nat}

theorem windowTree_of_inv (h : TreeInv s) : WindowTree s := by
  obtain ⟨kids, hf⟩ := h.forest
  exact
    { parent := hf.parent
      child := fun w hw => (hf.child_sibling hw).imp id And.left
      next := fun w hw => (hf.next_sibling hw).imp id And.left
      prev := fun w hw => (hf.prev_sibling hw).imp id And.left
      owner := h.owner
      children := fun p hp => ⟨kids p, hf.nodup p hp, hf.first p hp, hf.chained p hp, hf.mem p hp⟩
      acyclic := hf.acyclic }

/-- Windows with the same owners that the guest knows of. -/
def SameOwners (s s' : WindowStore) : Prop :=
  ∀ v, (s'.wnd v).spwndOwner = (s.wnd v).spwndOwner ∧ (s'.wnd v).guestWndVa = (s.wnd v).guestWndVa

theorem sameOwners_marked : SameOwners s (s.marked w) := by
  intro v
  by_cases hv : v = w
  · subst hv
    simp [WindowStore.marked, WindowStore.set]
  · simp [WindowStore.marked, WindowStore.set, hv]

theorem outlasts_congr (h : SameOwners s s') {L : List Int} {live : Finset Int}
    (ho : s.Outlasts live L) : s'.Outlasts live L := by
  induction L generalizing live with
  | nil => trivial
  | cons w L ih =>
    refine ⟨fun v hv hne howner => ?_, ih ho.2⟩
    rw [(h v).1] at howner
    rw [(h v).2]
    exact ho.1 v hv hne howner

/-- While windows are freed, one that has lost its owner is still to be freed, and the guest has no
copy of it. -/
structure OwnersWhile (s : WindowStore) (L : List Int) : Prop where
  owner : ∀ v ∈ s.live, s.Points (s.wnd v).spwndOwner ∨ (s.wnd v).guestWndVa = 0 ∧ v ∈ L
  outlasts : s.Outlasts s.live L

theorem ownersWhile_invariant : DestroyInvariant OwnersWhile where
  owner s L h w hw hva := (h.owner w hw).resolve_right fun hlost => hva hlost.1
  mark s w L h _ := by
    refine ⟨fun v hv => ?_, outlasts_congr sameOwners_marked h.outlasts⟩
    rw [(sameOwners_marked v).1, (sameOwners_marked v).2]
    exact h.owner v hv
  release s w L kids _ _ h := by
    have hsame : SameOwners s (s.released w) := fun _ => ⟨rfl, rfl⟩
    refine ⟨fun v hv => ?_, outlasts_congr hsame h.outlasts.2⟩
    obtain ⟨hvw, hlive⟩ := Finset.mem_erase.mp hv
    by_cases howner : (s.wnd v).spwndOwner = w
    · exact .inr (h.outlasts.1 v hlive hvw howner).symm
    · rcases h.owner v hlive with (hz | hpoints) | ⟨hva, hin⟩
      · exact .inl (.inl hz)
      · exact .inl (.inr (Finset.mem_erase.mpr ⟨howner, hpoints⟩))
      · exact .inr ⟨hva, (List.mem_cons.mp hin).resolve_left hvw⟩

theorem destroyOrder_eq (hf : Forest s.links s.live kids) (hw : w ∈ s.live) :
    s.destroyOrder w = postOrder kids s.live.card w := by
  apply hf.postOrder_congr hw
  intro v hv
  exact hf.siblings_child (within_live hv hw) (Nat.le_refl _)

/-- Destroying a window where no window loses its owner. -/
theorem TreeInv.destroy (h : TreeInv s) (hw : w ∈ s.live) (hspared : s.Spared (.destroy w)) :
    ∃ s', s.userWindowDestroy (s.live.card + 1) w = some s' ∧ TreeInv s' ∧ s.DestroyFrees s' w := by
  obtain ⟨kids, hf⟩ := h.forest
  by_cases hdesktop : w = s.desktop
  · refine ⟨s, ?_, h, fun hne => absurd hdesktop hne, fun _ => rfl, h.desktop⟩
    rw [WindowStore.userWindowDestroy, if_neg (hf.ne_zero hw), if_pos hdesktop]
  · obtain ⟨hnot, houtlasts⟩ := hspared hdesktop
    rw [destroyOrder_eq hf hw] at hnot houtlasts
    have hcard : (Forest.subtree s.links s.live w).card ≤ s.live.card :=
      Finset.card_le_card fun v hv => (Forest.mem_subtree.mp hv).1
    obtain ⟨s', hcall, hd⟩ := destroyWorks ownersWhile_invariant (s.live.card + 1) s.live.card s
      kids w [] hf hw (by omega) hcard (fun u hu heq => hnot (heq ▸ hu))
      ⟨fun v hv => .inl (h.owner v hv), by rwa [List.append_nil]⟩
    have hlive : s.desktop ∈ s'.live :=
      (hd.pruned.live _).mpr ⟨h.desktop, fun hin => hnot ((hf.mem_postOrder hw hcard).mpr hin)⟩
    refine ⟨s', hcall, ⟨⟨_, hd.forest⟩, fun v hv => ?_, hd.desktop ▸ hlive⟩,
      fun _ => hd.pruned.live, fun heq => absurd heq hdesktop, hlive⟩
    rcases hd.holds.owner v hv with hpoints | ⟨-, hin⟩
    · exact hpoints
    · cases hin

theorem TreeInv.closed (h : TreeInv s) : s.Closed := by
  obtain ⟨kids, hf⟩ := h.forest
  exact closed_of_forest hf fun w hw _ => h.owner w hw

/-- `user_window_unlink`. -/
theorem TreeInv.unlink (h : TreeInv s) (hw : w ∈ s.live) :
    ∃ s', s.userWindowUnlink w = some s' ∧ TreeInv s' := by
  obtain ⟨kids, hf⟩ := h.forest
  exact ⟨_, unlink_eq h.closed hw (apart_of_forest hf hw), ⟨_, hf.unlink hw⟩, h.owner, h.desktop⟩

/-- `user_window_link_child`. -/
theorem linkChild_works {p c : Int} (hf : Forest s.links s.live kids)
    (howner : ∀ w ∈ s.live, s.Points (s.wnd w).spwndOwner) (hdesktop : s.desktop ∈ s.live)
    (hp : p ∈ s.live) (hc : c ∈ s.live) (hbelow : ¬ s.links.Within s.live p c) :
    ∃ s', s.userWindowLinkChild p c = some s' ∧ TreeInv s' := by
  have hclosed := closed_of_forest hf fun w hw _ => howner w hw
  have hcut := hf.unlink hc
  have hroot : (s.links.unlink c).parent c = 0 := if_pos rfl
  have hfirst : (s.links.unlink c).child p ≠ c := by
    intro heq
    rcases hcut.child_sibling hp with hz | ⟨-, hparent⟩
    · exact hf.ne_zero hc (heq.symm.trans hz)
    · rw [heq, hroot] at hparent
      exact hf.ne_zero hp hparent.symm
  have hfirst' : (s.links.unlink c).child p ≠ p := by
    intro heq
    rcases hcut.child_sibling hp with hz | ⟨-, hparent⟩
    · exact hf.ne_zero hp (heq.symm.trans hz)
    · rw [heq] at hparent
      exact hcut.parent_ne_self hp hparent
  have hforest := hcut.linkFront hp hc hroot fun hin => hbelow (Forest.within_unlink hin)
  exact ⟨_, linkChild_eq hclosed hp hc (apart_of_forest hf hc) hfirst hfirst',
    ⟨_, hforest⟩, howner, hdesktop⟩

/-- `window_create_internal` gives no window, or puts a new one into memory. -/
theorem createInternal_cases (s : WindowStore) (mem : WndMemory) (a : WndArgs) :
    (∃ handles, s.windowCreateInternal mem a = ({ s with handles }, 0)) ∨
      ∃ handles hwnd, mem.wnd ≠ 0 ∧ s.windowCreateInternal mem a =
        (WindowStore.place { s with handles } mem.wnd (newWnd hwnd a), mem.wnd) := by
  unfold WindowStore.windowCreateInternal
  split
  · exact .inl ⟨s.handles, rfl⟩
  · next hzero =>
    dsimp only
    split
    · exact .inl ⟨_, rfl⟩
    · split
      · exact .inl ⟨_, rfl⟩
      · exact .inr ⟨_, _, hzero, rfl⟩

/-- A new window has no links. -/
theorem place_spec (s : WindowStore) (w : Int) (wnd : Wnd) :
    (s.place w wnd).live = insert w s.live ∧ (s.place w wnd).desktop = s.desktop ∧
      (∀ v, v ≠ w → (s.place w wnd).wnd v = s.wnd v) ∧
      ∃ va, (s.place w wnd).wnd w = { wnd with guestWndVa := va } := by
  unfold WindowStore.place
  split
  · refine ⟨rfl, rfl, fun v hv => Function.update_of_ne hv _ _, wnd.guestWndVa, ?_⟩
    exact Function.update_self w wnd s.wnd
  · exact ⟨rfl, rfl, fun v hv => Function.update_of_ne hv _ _, _, Function.update_self w _ s.wnd⟩

/-- A new window in a forest. -/
theorem place_forest (hwnd : UInt32) (a : WndArgs) (hf : Forest s.links s.live kids)
    (hzero : w ≠ 0) (hw : w ∉ s.live) :
    Forest (s.place w (newWnd hwnd a)).links (s.place w (newWnd hwnd a)).live
      fun p => if p = w then [] else kids p := by
  obtain ⟨hlive, -, hother, va, hself⟩ := place_spec s w (newWnd hwnd a)
  have hold : Forest (s.place w (newWnd hwnd a)).links s.live kids := by
    have hwnd : ∀ v ∈ s.live, (s.place w (newWnd hwnd a)).wnd v = s.wnd v :=
      fun v hv => hother v fun hvw => hw (hvw ▸ hv)
    apply hf.congr <;> intro v hv <;> simp [WindowStore.links, hwnd v hv]
  rw [hlive]
  apply hold.insert hzero hw
  · exact congrArg (fun wnd : Wnd => wnd.spwndParent) hself
  · exact congrArg (fun wnd : Wnd => wnd.spwndChild) hself
  · exact congrArg (fun wnd : Wnd => wnd.spwndNext) hself
  · exact congrArg (fun wnd : Wnd => wnd.spwndPrev) hself

/-- A change of the owner leaves the links. -/
theorem links_setOwner (s : WindowStore) (w owner : Int) :
    (s.set w fun wnd => { wnd with spwndOwner := owner }).links = s.links := by
  ext v <;> by_cases hv : v = w <;>
    simp [WindowStore.links, WindowStore.set, Function.update_apply, hv]

/-- A window without a parent gets the desktop for one. -/
theorem linkParent_mem {parent : Int} (h : TreeInv s) (hparent : s.Points parent)
    (style : UInt32) :
    (if style &&& wsChild = 0 ∧
        (if style &&& wsChild ≠ 0 ∧ parent = 0 then s.desktop else parent) = 0 then s.desktop
      else if style &&& wsChild ≠ 0 ∧ parent = 0 then s.desktop else parent) ∈ s.live := by
  by_cases hzero : parent = 0
  · by_cases hstyle : style &&& wsChild = 0
    · simp [hzero, hstyle, h.desktop]
    · simp [hzero, hstyle, h.desktop]
  · simp [hzero, hparent.resolve_left hzero]

/-- A new window gets its owner and is linked. -/
theorem linkNew_works {p owner : Int} (hf : Forest s.links s.live kids)
    (hdesktop : s.desktop ∈ s.live) (hw : w ∈ s.live) (hp : p ∈ s.live) (hpw : p ≠ w)
    (hkids : kids w = []) (howners : ∀ v ∈ s.live, v ≠ w → s.Points (s.wnd v).spwndOwner)
    (howner : s.Points owner) :
    ∃ s', ((s.modify w fun wnd => { wnd with spwndOwner := owner }).bind fun s =>
      s.userWindowLinkChild p w) = some s' ∧ TreeInv s' := by
  rw [modify_live _ hw]
  have hlinks := links_setOwner s w owner
  generalize hs : s.set w (fun wnd => { wnd with spwndOwner := owner }) = s₁ at *
  have hlive : s₁.live = s.live := hs ▸ rfl
  have hforest : Forest s₁.links s₁.live kids := by
    rw [hlinks, hlive]
    exact hf
  apply linkChild_works hforest
  · intro v hv
    have hval : (s₁.wnd v).spwndOwner = if v = w then owner else (s.wnd v).spwndOwner := by
      rw [← hs]
      by_cases hvw : v = w <;> simp [WindowStore.set, hvw]
    subst hs
    rw [hval]
    show s.Points _
    split
    · exact howner
    · next hvw => exact howners v hv hvw
  · subst hs
    exact hdesktop
  · rwa [hlive]
  · rwa [hlive]
  · intro hin
    rw [hlinks, hlive] at hin
    rcases (hf.within_iff hw).mp hin with heq | ⟨c, hc, -⟩
    · exact hpw heq
    · rw [hkids] at hc
      cases hc

/-- `user_window_create`. -/
theorem TreeInv.create {mem : WndMemory} {a : WndArgs} {parent owner : Int} (h : TreeInv s)
    (hasked : s.Asked (.create mem a parent owner)) :
    ∃ s' w, s.userWindowCreate mem a parent owner = some (s', w) ∧ TreeInv s' := by
  obtain ⟨hfresh, hparent, howner⟩ := hasked
  obtain ⟨kids, hf⟩ := h.forest
  unfold WindowStore.userWindowCreate
  dsimp only
  generalize hlink : (if a.style &&& wsChild = 0 ∧
      (if a.style &&& wsChild ≠ 0 ∧ parent = 0 then s.desktop else parent) = 0 then s.desktop
    else if a.style &&& wsChild ≠ 0 ∧ parent = 0 then s.desktop else parent) = p
  have hp : p ∈ s.live := hlink ▸ linkParent_mem h hparent a.style
  generalize a.withDefaults = a'
  rcases createInternal_cases s mem a' with ⟨handles, hnone⟩ | ⟨handles, hwnd, hzero, hnew⟩
  · rw [hnone]
    exact ⟨_, 0, if_pos rfl, ⟨kids, hf⟩, h.owner, h.desktop⟩
  · rw [hnew]
    dsimp only
    rw [if_neg hzero]
    obtain ⟨hlive, hdesktop, hother, va, hself⟩ :=
      place_spec { s with handles } mem.wnd (newWnd hwnd a')
    have hforest := place_forest (s := { s with handles }) hwnd a' hf hzero hfresh
    generalize WindowStore.place { s with handles } mem.wnd (newWnd hwnd a') = s₁ at *
    have hw : mem.wnd ∈ s₁.live := hlive ▸ Finset.mem_insert_self _ _
    have hpoints : ∀ u, s.Points u → s₁.Points u := fun u hu =>
      hu.imp id fun hin => hlive ▸ Finset.mem_insert_of_mem hin
    have howners : ∀ v ∈ s₁.live, v ≠ mem.wnd → s₁.Points (s₁.wnd v).spwndOwner := by
      intro v hv hvw
      have hvlive : v ∈ s.live := (Finset.mem_insert.mp (hlive ▸ hv)).resolve_left hvw
      exact hother v hvw ▸ hpoints _ (h.owner v hvlive)
    have hdesktop' : s₁.desktop ∈ s₁.live := by
      rw [hdesktop, hlive]
      exact Finset.mem_insert_of_mem h.desktop
    have hpw : p ≠ mem.wnd := fun heq => hfresh (heq ▸ hp)
    have hp₁ : p ∈ s₁.live := hlive ▸ Finset.mem_insert_of_mem hp
    obtain ⟨s', hcall, hinv⟩ := linkNew_works hforest hdesktop' hw hp₁ hpw (if_pos rfl)
      howners (hpoints owner howner)
    refine ⟨s', mem.wnd, ?_, hinv⟩
    obtain ⟨s₂, hset, hlinked⟩ := Option.bind_eq_some_iff.mp hcall
    refine Option.bind_eq_some_iff.mpr ⟨s₂, hset, ?_⟩
    exact Option.bind_eq_some_iff.mpr ⟨s', hlinked, rfl⟩

/-- `user_window_init` leaves the desktop alone in memory. -/
theorem TreeInv.init {mem : WndMemory} {desktopCls : Option WndClass} (hempty : s.live = ∅)
    (hinit : s.userWindowInit mem desktopCls = (s', 0)) : TreeInv s' := by
  have hf : Forest s.links s.live fun _ => [] := by
    rw [hempty]
    exact Forest.empty s.links
  unfold WindowStore.userWindowInit at hinit
  rcases createInternal_cases s mem { pcls := desktopCls
                                      style := wsPopup ||| wsVisible ||| wsClipChildren
                                      cx := 800, cy := 600 }
    with ⟨handles, hnone⟩ | ⟨handles, hwnd, hzero, hnew⟩
  · rw [hnone] at hinit
    cases congrArg Prod.snd hinit
  · rw [hnew] at hinit
    have hfresh : mem.wnd ∉ s.live := hempty ▸ Finset.notMem_empty mem.wnd
    obtain ⟨hlive, -, -, va, hself⟩ := place_spec { s with handles } mem.wnd
      (newWnd hwnd { pcls := desktopCls, style := wsPopup ||| wsVisible ||| wsClipChildren
                     cx := 800, cy := 600 })
    have hforest := place_forest (s := { s with handles }) hwnd
      { pcls := desktopCls, style := wsPopup ||| wsVisible ||| wsClipChildren
        cx := 800, cy := 600 } hf hzero hfresh
    obtain ⟨rfl, -⟩ := Prod.mk.inj hinit
    refine ⟨⟨_, hforest⟩, fun v hv => .inl ?_, ?_⟩
    · have hvw : v = mem.wnd := by
        have hin : v ∈ insert mem.wnd s.live := hlive ▸ hv
        rw [hempty] at hin
        simpa using hin
      rw [hvw]
      exact congrArg (fun wnd : Wnd => wnd.spwndOwner) hself
    · show mem.wnd ∈ WindowStore.live _
      rw [hlive]
      exact Finset.mem_insert_self _ _

/-- A call keeps the tree where it destroys no window that others need. -/
theorem TreeInv.call {op : WindowOp} (h : TreeInv s) (hasked : s.Asked op) (hspared : s.Spared op) :
    (∃ n s', s.windowCall n op = some s' ∧ TreeInv s') ∧ ∀ s', s.Returns op s' →
      TreeInv s' ∧ ∀ w, op = .destroy w → s.DestroyFrees s' w := by
  have honly : ∀ s₁, (∀ n, s.windowCall n op = some s₁) → TreeInv s₁ →
      (∀ w, op ≠ .destroy w) → (∃ n s', s.windowCall n op = some s' ∧ TreeInv s') ∧
        ∀ s', s.Returns op s' → TreeInv s' ∧ ∀ w, op = .destroy w → s.DestroyFrees s' w := by
    intro s₁ hcall hinv hop
    refine ⟨⟨0, s₁, hcall 0, hinv⟩, fun s' hret => ?_⟩
    obtain ⟨n, hn⟩ := hret
    cases (hcall n).symm.trans hn
    exact ⟨hinv, fun w heq => absurd heq (hop w)⟩
  cases op with
  | create mem args parent owner =>
    obtain ⟨s₁, w, hcall, hinv⟩ := h.create hasked
    apply honly s₁ _ hinv (fun w => WindowOp.noConfusion)
    intro n
    show (s.userWindowCreate mem args parent owner).map Prod.fst = some s₁
    rw [hcall]
    rfl
  | linkChild parent child =>
    obtain ⟨kids, hf⟩ := h.forest
    obtain ⟨hp, hc, hbelow⟩ := hasked
    obtain ⟨s₁, hcall, hinv⟩ := linkChild_works hf h.owner h.desktop hp hc hbelow
    exact honly s₁ (fun _ => hcall) hinv fun w => WindowOp.noConfusion
  | unlink wnd =>
    obtain ⟨s₁, hcall, hinv⟩ := h.unlink hasked
    exact honly s₁ (fun _ => hcall) hinv fun w => WindowOp.noConfusion
  | destroy wnd =>
    obtain ⟨s₁, hcall, hinv, hfrees⟩ := h.destroy hasked hspared
    refine ⟨⟨s.live.card + 1, s₁, hcall, hinv⟩, fun s' hret => ?_⟩
    obtain ⟨n, hn⟩ := hret
    have hbig := destroy_mono (Nat.le_max_left n (s.live.card + 1)) hn
    rw [destroy_mono (Nat.le_max_right n (s.live.card + 1)) hcall] at hbig
    cases hbig
    refine ⟨hinv, fun w heq => ?_⟩
    cases heq
    exact hfrees

theorem TreeInv.reached (h : WindowReached WindowStore.Spared s) : TreeInv s := by
  induction h with
  | init hempty hinit => exact TreeInv.init hempty hinit
  | call _ hasked hspared hcall ih => exact ((ih.call hasked hspared).2 _ hcall).1

/-- The windows stay a tree, and windows are destroyed with all below them and no others, as long
as no window that is destroyed is the owner of one that is not, or has the desktop below it. -/
theorem treeKept_spared {s : WindowStore} (hs : WindowReached WindowStore.Spared s) :
    WindowTree s ∧ ∀ op, s.Asked op → s.Spared op → s.Settles op := by
  have hinv := TreeInv.reached hs
  refine ⟨windowTree_of_inv hinv, fun op hasked hspared => ?_⟩
  obtain ⟨⟨n, s', hcall, -⟩, hall⟩ := hinv.call hasked hspared
  exact ⟨⟨s', n, hcall⟩, fun s' w heq hret => (hall s' hret).2 w heq⟩

end Invariant

/-- Memory without windows. -/
def emptyStore : WindowStore where
  wnd _ := {}
  live := ∅
  desktop := 0
  handles := userHandleTableInit
  guestEntries _ := 0
  heap := none

/-- After a window has been made on the desktop. -/
theorem treeKept_spared_oneWindow :
    let s₁ := (emptyStore.userWindowInit ⟨1, true⟩ none).1
    let s₂ := (s₁.windowCall 0 (.create ⟨2, true⟩ {} 0 0)).getD emptyStore
    2 ∈ s₂.live ∧ WindowTree s₂ ∧ ∀ op, s₂.Asked op → s₂.Spared op → s₂.Settles op := by
  intro s₁ s₂
  have h₁ : WindowReached WindowStore.Spared s₁ :=
    @WindowReached.init _ emptyStore s₁ ⟨1, true⟩ none rfl rfl
  have hask : s₁.Asked (.create ⟨2, true⟩ {} 0 0) := ⟨by decide, .inl rfl, .inl rfl⟩
  have hsome : (s₁.windowCall 0 (.create ⟨2, true⟩ {} 0 0)).isSome = true := by decide
  have hreturns : s₁.Returns (.create ⟨2, true⟩ {} 0 0) s₂ :=
    ⟨0, by rw [Option.getD_of_ne_none (Option.isSome_iff_ne_none.mp hsome)]⟩
  exact ⟨by decide, treeKept_spared (h₁.call hask trivial hreturns)⟩

/-- A window that owns another one is destroyed, and the other one keeps the link to it. -/
theorem owned_not_treeKept : ¬ TreeKept fun _ _ => True := by
  intro h
  let s₁ := (emptyStore.userWindowInit ⟨1, true⟩ none).1
  let s₂ := (s₁.windowCall 0 (.create ⟨2, true⟩ {} 0 0)).getD emptyStore
  let s₃ := (s₂.windowCall 0 (.create ⟨3, true⟩ {} 0 2)).getD emptyStore
  let s₄ := (s₃.windowCall 2 (.destroy 2)).getD emptyStore
  have hreturns : ∀ {s : WindowStore} {n : Nat} {op : WindowOp}, (s.windowCall n op).isSome = true →
      s.Returns op ((s.windowCall n op).getD emptyStore) := fun {s n op} hsome =>
    ⟨n, by rw [Option.getD_of_ne_none (Option.isSome_iff_ne_none.mp hsome)]⟩
  have h₁ : WindowReached (fun _ _ => True) s₁ :=
    @WindowReached.init _ emptyStore s₁ ⟨1, true⟩ none rfl rfl
  have hask₁ : s₁.Asked (.create ⟨2, true⟩ {} 0 0) := ⟨by decide, .inl rfl, .inl rfl⟩
  have h₂ : WindowReached (fun _ _ => True) s₂ := h₁.call hask₁ trivial (hreturns (by decide))
  have hask₂ : s₂.Asked (.create ⟨3, true⟩ {} 0 2) := ⟨by decide, .inl rfl, .inr (by decide)⟩
  have h₃ : WindowReached (fun _ _ => True) s₃ := h₂.call hask₂ trivial (hreturns (by decide))
  have hask₃ : s₃.Asked (.destroy 2) := (by decide : 2 ∈ s₃.live)
  have h₄ : WindowReached (fun _ _ => True) s₄ := h₃.call hask₃ trivial (hreturns (by decide))
  have howner : (s₄.wnd 3).spwndOwner = 0 ∨ (s₄.wnd 3).spwndOwner ∈ s₄.live :=
    (h s₄ h₄).1.owner 3 (by decide)
  revert howner
  decide

end Wbox.User
