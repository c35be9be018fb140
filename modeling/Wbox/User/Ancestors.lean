import Wbox.Lib.Orbit
import Wbox.User.WindowLongs

/-!
# Ancestors of a window

`NtUserGetAncestor` goes up along the parents, or along owners and parents, until there is no
further window (`src/user/user_syscalls.c:1560–1612`). All windows are linked below the desktop, so
that both ways end there.
-/

namespace Wbox.User

open Wbox.Lib

/-- `GA_PARENT`. -/
def gaParent : UInt32 := 1
/-- `GA_ROOT`. -/
def gaRoot : UInt32 := 2
/-- `GA_ROOTOWNER`. -/
def gaRootOwner : UInt32 := 3

/-- Where the loop of `GA_ROOTOWNER` goes, `user_syscalls.c:1597`; its condition says that this is
a window. -/
def Wnd.ownerOrParent (wnd : Wnd) : Int :=
  if wnd.spwndOwner ≠ 0 then wnd.spwndOwner else wnd.spwndParent

namespace WindowStore

/-- The loop to a next window while there is one, at most `n` times around. -/
def chase (s : WindowStore) (next : Wnd → Int) : Nat → Int → Option Int
  | 0, _ => none
  | n + 1, w => do
    let wnd ← s.read w
    if next wnd ≠ 0 then s.chase next n (next wnd) else some w

/-- The loop of `GA_ROOT`, `user_syscalls.c:1585–1588`. -/
def rootLoop (s : WindowStore) : Nat → Int → Option Int := s.chase fun wnd => wnd.spwndParent

/-- The loop of `GA_ROOTOWNER`, `user_syscalls.c:1595–1600`. -/
def rootOwnerLoop (s : WindowStore) : Nat → Int → Option Int := s.chase Wnd.ownerOrParent

/-- One window is the parent or the owner of another one. -/
def Above (s : WindowStore) (w v : Int) : Prop :=
  w ∈ s.live ∧ v ≠ 0 ∧ ((s.wnd w).spwndParent = v ∨ (s.wnd w).spwndOwner = v)

end WindowStore

namespace WindowMemory

/-- `sys_NtUserGetAncestor`, `user_syscalls.c:1564–1612`, with loops of at most `n` rounds. -/
def sysNtUserGetAncestor (s : WindowMemory) (n : Nat) (hwnd gaFlags : UInt32) : Option UInt32 :=
  if hwnd = 0 then some 0
  else
    let w := s.userWindowFromHwnd hwnd
    if w = 0 then some 0
    else if gaFlags = gaParent then do
      let wnd ← s.read w
      s.hwndOf wnd.spwndParent
    else if gaFlags = gaRoot then do
      let current ← s.rootLoop n w
      s.hwndOf current
    else if gaFlags = gaRootOwner then do
      let current ← s.rootOwnerLoop n w
      s.hwndOf current
    else some 0

/-- All windows are linked below the desktop, without a cycle of parents and owners, and are found
by their handles. -/
structure BelowDesktop (s : WindowMemory) : Prop where
  null : 0 ∉ s.live
  desktop : s.desktop ∈ s.live
  top : (s.wnd s.desktop).spwndParent = 0
  parent : ∀ w ∈ s.live, w ≠ s.desktop → (s.wnd w).spwndParent ∈ s.live
  owner : ∀ w ∈ s.live, s.Points (s.wnd w).spwndOwner
  acyclic : ∀ w, ¬ Relation.TransGen s.Above w w
  handles : ∀ w ∈ s.live, (s.wnd w).hwnd ≠ 0 ∧ s.userWindowFromHwnd (s.wnd w).hwnd = w

/-- `GA_ROOT` gives the window itself or the one above it whose parent is the desktop. -/
def RootFound (s : WindowMemory) (w : Int) : Prop :=
  ∃ n a, s.links.Within s.live w a ∧ (s.wnd a).spwndParent = s.desktop ∧
    s.sysNtUserGetAncestor n (s.wnd w).hwnd gaRoot = some (s.wnd a).hwnd

/-- `GA_ROOTOWNER` gives a window without an owner whose parent is the desktop. -/
def RootOwnerFound (s : WindowMemory) (w : Int) : Prop :=
  ∃ n a, a ∈ s.live ∧ (s.wnd a).spwndParent = s.desktop ∧ (s.wnd a).spwndOwner = 0 ∧
    s.sysNtUserGetAncestor n (s.wnd w).hwnd gaRootOwner = some (s.wnd a).hwnd

end WindowMemory

section Chase

variable {s : WindowStore} {next : Wnd → Int} {n : Nat} {w r : Int}

/-- The loop ends at a window that has no next one. -/
theorem chase_end (h : s.chase next n w = some r) : r ∈ s.live ∧ next (s.wnd r) = 0 := by
  induction n generalizing w with
  | zero => cases h
  | succ n ih =>
    unfold WindowStore.chase WindowStore.read at h
    by_cases hw : w ∈ s.live
    · rw [if_pos hw] at h
      by_cases hnext : next (s.wnd w) ≠ 0
      · exact ih (by simpa [hnext] using h)
      · rw [not_not] at hnext
        obtain rfl : w = r := by simpa [hnext] using h
        exact ⟨hw, hnext⟩
    · rw [if_neg hw] at h
      cases h

/-- The next window, if there is one. -/
def nextOf (s : WindowStore) (next : Wnd → Int) (w : Int) : Option Int :=
  if next (s.wnd w) ≠ 0 then some (next (s.wnd w)) else none

theorem nextOf_eq_some {v : Int} :
    nextOf s next w = some v ↔ v ≠ 0 ∧ next (s.wnd w) = v := by
  unfold nextOf
  split
  · next hne =>
    rw [Option.some.injEq]
    exact ⟨fun h => ⟨h ▸ hne, h⟩, fun h => h.2⟩
  · next heq =>
    rw [not_not] at heq
    exact iff_of_false (fun h => by cases h) fun h => h.1 (h.2.symm.trans heq)

/-- Rounds lead up. -/
theorem above_of_orbit (hclosed : ∀ w ∈ s.live, s.Points (next (s.wnd w)))
    (habove : ∀ w ∈ s.live, ∀ v, v ≠ 0 → next (s.wnd w) = v → s.Above w v) (hw : w ∈ s.live)
    (h : orbit (nextOf s next) n w = some r) :
    r ∈ s.live ∧ Relation.ReflTransGen s.Above w r ∧
      (0 < n → Relation.TransGen s.Above w r) := by
  induction n generalizing w with
  | zero =>
    obtain rfl := Option.some.inj h
    exact ⟨hw, .refl, fun hpos => absurd hpos (Nat.lt_irrefl 0)⟩
  | succ n ih =>
    rw [orbit_succ] at h
    obtain ⟨v, hv, hrest⟩ := Option.bind_eq_some_iff.mp h
    obtain ⟨hzero, hnext⟩ := nextOf_eq_some.mp hv
    have hstep := habove w hw v hzero hnext
    have hlive : v ∈ s.live := (hclosed w hw).elim (fun hz => absurd (hnext.symm.trans hz) hzero)
      fun hin => hnext ▸ hin
    obtain ⟨hr, hreach, -⟩ := ih hlive hrest
    exact ⟨hr, .head hstep hreach, fun _ => .head' hstep hreach⟩

/-- The loop ends where no window is above itself. -/
theorem chase_returns (hclosed : ∀ w ∈ s.live, s.Points (next (s.wnd w)))
    (habove : ∀ w ∈ s.live, ∀ v, v ≠ 0 → next (s.wnd w) = v → s.Above w v)
    (hacyclic : ∀ w, ¬ Relation.TransGen s.Above w w) (hw : w ∈ s.live) :
    ∃ n r, s.chase next n w = some r := by
  have hends : ∃ n, orbit (nextOf s next) n w = none := by
    apply orbit_ends_of_finite s.live.finite_toSet 0
    · intro n t _ ht
      exact (above_of_orbit hclosed habove hw ht).1
    · intro i j t _ hij hi hj
      obtain ⟨d, rfl⟩ := Nat.exists_eq_add_of_lt hij
      obtain ⟨ht, -⟩ := above_of_orbit hclosed habove hw hi
      rw [Nat.add_assoc, orbit_add, hi] at hj
      exact hacyclic t ((above_of_orbit hclosed habove ht hj).2.2 (Nat.succ_pos d))
  obtain ⟨n, r, hr, hlast⟩ := orbit_last hends
  refine ⟨n + 1, r, ?_⟩
  clear hends
  induction n generalizing w with
  | zero =>
    obtain rfl := Option.some.inj hr
    unfold WindowStore.chase
    rw [read_live hw]
    have hzero : next (s.wnd w) = 0 := by
      by_contra hne
      unfold nextOf at hlast
      rw [if_pos hne] at hlast
      cases hlast
    simp [hzero]
  | succ n ih =>
    rw [orbit_succ] at hr
    obtain ⟨v, hv, hrest⟩ := Option.bind_eq_some_iff.mp hr
    obtain ⟨hzero, hnext⟩ := nextOf_eq_some.mp hv
    have hlive : v ∈ s.live := (hclosed w hw).elim (fun hz => absurd (hnext.symm.trans hz) hzero)
      fun hin => hnext ▸ hin
    have hloop := ih hlive hrest
    unfold WindowStore.chase
    rw [read_live hw]
    show (if next (s.wnd w) ≠ 0 then s.chase next (n + 1) (next (s.wnd w)) else some w) = some r
    rw [hnext, if_pos hzero]
    exact hloop

end Chase

section Desktop

open WindowMemory

variable {s : WindowMemory} {w : Int} {n : Nat} {hwnd : UInt32}

theorem hwndOf_live (hs : BelowDesktop s) (hw : w ∈ s.live) :
    s.hwndOf w = some (s.wnd w).hwnd := by
  have hzero : w ≠ 0 := fun h => hs.null (h ▸ hw)
  unfold hwndOf
  rw [if_neg hzero, read_live hw]
  rfl

/-- The only window without a parent is the desktop. -/
theorem eq_desktop_of_top (hs : BelowDesktop s) (hw : w ∈ s.live)
    (htop : (s.wnd w).spwndParent = 0) : w = s.desktop := by
  by_contra hne
  exact hs.null (htop ▸ hs.parent w hw hne)

theorem eq_desktop_of_ownerOrParent (hs : BelowDesktop s) (hw : w ∈ s.live)
    (hend : (s.wnd w).ownerOrParent = 0) : w = s.desktop := by
  apply eq_desktop_of_top hs hw
  by_contra hne
  unfold Wnd.ownerOrParent at hend
  by_cases howner : (s.wnd w).spwndOwner ≠ 0
  · exact howner (by rwa [if_pos howner] at hend)
  · exact hne (by rwa [if_neg howner] at hend)

/-- A window with the handle of the desktop is the desktop. -/
theorem eq_desktop_of_hwnd (hs : BelowDesktop s) (hw : w ∈ s.live)
    (h : (s.wnd w).hwnd = (s.wnd s.desktop).hwnd) : w = s.desktop := by
  rw [← (hs.handles w hw).2, h]
  exact (hs.handles s.desktop hs.desktop).2

theorem points_parent (hs : BelowDesktop s) (hw : w ∈ s.live) :
    s.Points (s.wnd w).spwndParent := by
  by_cases hdesktop : w = s.desktop
  · rw [hdesktop]
    exact .inl hs.top
  · exact .inr (hs.parent w hw hdesktop)

theorem points_ownerOrParent (hs : BelowDesktop s) (hw : w ∈ s.live) :
    s.Points (s.wnd w).ownerOrParent := by
  unfold Wnd.ownerOrParent
  split
  · exact hs.owner w hw
  · exact points_parent hs hw

theorem above_ownerOrParent (hw : w ∈ s.live) {v : Int} (hv : v ≠ 0)
    (h : (s.wnd w).ownerOrParent = v) : s.Above w v := by
  refine ⟨hw, hv, ?_⟩
  unfold Wnd.ownerOrParent at h
  split at h
  · exact .inr h
  · exact .inl h

/-- The handle is that of the window the loop ends at. -/
theorem getAncestor_gaRoot (hs : BelowDesktop s) (hw : w ∈ s.live) :
    s.sysNtUserGetAncestor n (s.wnd w).hwnd gaRoot = (s.rootLoop n w).bind s.hwndOf := by
  have hzero : w ≠ 0 := fun h => hs.null (h ▸ hw)
  obtain ⟨hhwnd, hfound⟩ := hs.handles w hw
  dsimp only [sysNtUserGetAncestor]
  rw [if_neg hhwnd, hfound, if_neg hzero]
  rfl

theorem getAncestor_gaRootOwner (hs : BelowDesktop s) (hw : w ∈ s.live) :
    s.sysNtUserGetAncestor n (s.wnd w).hwnd gaRootOwner =
      (s.rootOwnerLoop n w).bind s.hwndOf := by
  have hzero : w ≠ 0 := fun h => hs.null (h ▸ hw)
  obtain ⟨hhwnd, hfound⟩ := hs.handles w hw
  dsimp only [sysNtUserGetAncestor]
  rw [if_neg hhwnd, hfound, if_neg hzero]
  rfl

/-- Both ways go on to the desktop: what they give is never the handle of another window. -/
theorem getAncestor_desktop_of_some (hs : BelowDesktop s) (hw : w ∈ s.live) {gaFlags : UInt32}
    (hflags : gaFlags = gaRoot ∨ gaFlags = gaRootOwner)
    (h : s.sysNtUserGetAncestor n (s.wnd w).hwnd gaFlags = some hwnd) :
    hwnd = (s.wnd s.desktop).hwnd := by
  have hlast : ∃ r ∈ s.live, r = s.desktop ∧ s.hwndOf r = some hwnd := by
    obtain rfl | rfl := hflags
    · rw [getAncestor_gaRoot hs hw] at h
      obtain ⟨r, hloop, hr⟩ := Option.bind_eq_some_iff.mp h
      obtain ⟨hlive, hend⟩ := chase_end hloop
      exact ⟨r, hlive, eq_desktop_of_top hs hlive hend, hr⟩
    · rw [getAncestor_gaRootOwner hs hw] at h
      obtain ⟨r, hloop, hr⟩ := Option.bind_eq_some_iff.mp h
      obtain ⟨hlive, hend⟩ := chase_end hloop
      exact ⟨r, hlive, eq_desktop_of_ownerOrParent hs hlive hend, hr⟩
  obtain ⟨r, hlive, hdesktop, hr⟩ := hlast
  rw [hwndOf_live hs hlive, hdesktop] at hr
  exact (Option.some.inj hr).symm

/-- The loop of `GA_ROOT` ends. -/
theorem getAncestor_gaRoot_returns (hs : BelowDesktop s) (hw : w ∈ s.live) :
    ∃ n hwnd, s.sysNtUserGetAncestor n (s.wnd w).hwnd gaRoot = some hwnd := by
  have hends := @chase_returns s.toWindowStore (fun wnd => wnd.spwndParent) w
    (fun w hw => points_parent hs hw) (fun w hw v hv h => ⟨hw, hv, .inl h⟩) hs.acyclic hw
  obtain ⟨n, r, hloop⟩ := hends
  refine ⟨n, (s.wnd r).hwnd, ?_⟩
  rw [getAncestor_gaRoot hs hw, WindowStore.rootLoop, hloop]
  exact hwndOf_live hs (chase_end hloop).1

/-- The loop of `GA_ROOTOWNER` ends. -/
theorem getAncestor_gaRootOwner_returns (hs : BelowDesktop s) (hw : w ∈ s.live) :
    ∃ n hwnd, s.sysNtUserGetAncestor n (s.wnd w).hwnd gaRootOwner = some hwnd := by
  obtain ⟨n, r, hloop⟩ := chase_returns (fun w hw => points_ownerOrParent hs hw)
    (fun w hw v hv h => above_ownerOrParent hw hv h) hs.acyclic hw
  refine ⟨n, (s.wnd r).hwnd, ?_⟩
  rw [getAncestor_gaRootOwner hs hw, WindowStore.rootOwnerLoop, hloop]
  exact hwndOf_live hs (chase_end hloop).1

/-- The desktop has no parent, so that it is not a window below it. -/
theorem not_desktop_of_parent (hs : BelowDesktop s) {a : Int}
    (hparent : (s.wnd a).spwndParent = s.desktop) : a ≠ s.desktop := by
  intro heq
  rw [heq, hs.top] at hparent
  exact hs.null (hparent ▸ hs.desktop)

theorem not_rootFound (hs : BelowDesktop s) (hw : w ∈ s.live) : ¬ RootFound s w := by
  rintro ⟨n, a, hwithin, hparent, hget⟩
  have halive : a ∈ s.live := by
    obtain rfl | ⟨v, -, hchild⟩ := Relation.ReflTransGen.cases_tail hwithin
    · exact hw
    · have hne : v ≠ s.desktop := by
        rintro rfl
        exact hchild.2.2 (hchild.2.1.symm.trans hs.top)
      have hup : (s.wnd v).spwndParent = a := hchild.2.1
      exact hup ▸ hs.parent v hchild.1 hne
  exact not_desktop_of_parent hs hparent
    (eq_desktop_of_hwnd hs halive (getAncestor_desktop_of_some hs hw (.inl rfl) hget))

theorem not_rootOwnerFound (hs : BelowDesktop s) (hw : w ∈ s.live) : ¬ RootOwnerFound s w := by
  rintro ⟨n, a, halive, hparent, -, hget⟩
  exact not_desktop_of_parent hs hparent
    (eq_desktop_of_hwnd hs halive (getAncestor_desktop_of_some hs hw (.inr rfl) hget))

/-- Of every window below the desktop both queries give the desktop itself, which is not the
ancestor that is asked for. -/
theorem getAncestor_never_found (hs : BelowDesktop s) (hw : w ∈ s.live) :
    ¬ RootFound s w ∧ ¬ RootOwnerFound s w ∧
      (∃ n, s.sysNtUserGetAncestor n (s.wnd w).hwnd gaRoot = some (s.wnd s.desktop).hwnd) ∧
      ∃ n, s.sysNtUserGetAncestor n (s.wnd w).hwnd gaRootOwner = some (s.wnd s.desktop).hwnd := by
  refine ⟨not_rootFound hs hw, not_rootOwnerFound hs hw, ?root, ?rootOwner⟩
  case root =>
    obtain ⟨n, hwnd, hget⟩ := getAncestor_gaRoot_returns hs hw
    exact ⟨n, getAncestor_desktop_of_some hs hw (.inl rfl) hget ▸ hget⟩
  case rootOwner =>
    obtain ⟨n, hwnd, hget⟩ := getAncestor_gaRootOwner_returns hs hw
    exact ⟨n, getAncestor_desktop_of_some hs hw (.inr rfl) hget ▸ hget⟩

/-- A window on the desktop. -/
def windowOnDesktop : WindowMemory where
  toWindowStore := (((emptyStore.userWindowInit ⟨1, true⟩ none).1).windowCall 0
    (.create ⟨2, true⟩ {} 1 0)).getD emptyStore
  extraBytes _ _ := 0

theorem windowOnDesktop_below : BelowDesktop windowOnDesktop where
  null := by decide
  desktop := by decide
  top := by decide
  parent := by decide
  owner w hw := by
    have hlive : ∀ w ∈ windowOnDesktop.live, (windowOnDesktop.wnd w).spwndOwner = 0 := by decide
    exact .inl (hlive w hw)
  acyclic := by
    have hlinks : ∀ w ∈ windowOnDesktop.live, (windowOnDesktop.wnd w).spwndOwner = 0 ∧
        ((windowOnDesktop.wnd w).spwndParent = 0 ∨
          w = 2 ∧ (windowOnDesktop.wnd w).spwndParent = 1) := by decide
    have hstep : ∀ {w v}, windowOnDesktop.Above w v → w = 2 ∧ v = 1 := by
      rintro w v ⟨hw, hv, hlink⟩
      obtain ⟨howner, hparent⟩ := hlinks w hw
      omega
    intro w hcycle
    obtain ⟨v, hfirst, -⟩ := Relation.TransGen.head'_iff.mp hcycle
    obtain ⟨u, -, hlast⟩ := Relation.TransGen.tail'_iff.mp hcycle
    have htwo := (hstep hfirst).1
    have hone := (hstep hlast).2
    omega
  handles := by decide

theorem getAncestor_never_found_child :
    (windowOnDesktop.wnd 2).spwndParent = windowOnDesktop.desktop ∧
      ¬ RootFound windowOnDesktop 2 ∧ ¬ RootOwnerFound windowOnDesktop 2 :=
  have h := getAncestor_never_found (w := 2) windowOnDesktop_below (by decide)
  ⟨by decide, h.1, h.2.1⟩

/-- Not every window has its ancestors found: a child of the desktop is its own, and the desktop
is given. -/
theorem ancestors_not_found : ¬ ∀ s w, BelowDesktop s → w ∈ s.live → w ≠ s.desktop →
    RootFound s w ∧ RootOwnerFound s w := by
  intro h
  exact not_rootFound windowOnDesktop_below (by decide)
    (h windowOnDesktop 2 windowOnDesktop_below (by decide) (by decide)).1

end Desktop

end Wbox.User
