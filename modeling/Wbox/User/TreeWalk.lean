import Wbox.Lib.PreOrder
import Wbox.User.WindowTree

/-!
# The walk over the windows in memory

`find_window_needing_paint` (`src/user/user_message.c:125–160`) on the windows at their addresses.
Where their links are those of a forest the walk ends, touches no window that has been freed, and
finds the first window below the desktop, in pre-order, that has something to paint.
-/

namespace Wbox.User

open Wbox.Lib

/-- Visible, and in a state that asks for painting, `user_message.c:135–136`. -/
def WboxWnd.needsPaint (wnd : WboxWnd) : Bool :=
  wnd.state &&& wndsVisible ≠ 0 ∧ wnd.state &&&
    (wndsSendNcPaint ||| wndsSendEraseBackground ||| wndsNoNcPaint ||| wndsEraseBackground) ≠ 0

namespace WindowStore

/-- The loop up to a window that has a parent with a sibling, or below the desktop,
`user_message.c:147–149`, with at most `n` steps. -/
def goUp (s : WindowStore) : Nat → Int → Option Int
  | 0, _ => none
  | n + 1, w => do
    let wnd ← s.read w
    if wnd.spwndParent = 0 ∨ wnd.spwndParent = s.desktop then return w
    else
      let parent ← s.read wnd.spwndParent
      if parent.spwndNext ≠ 0 then return w else s.goUp n wnd.spwndParent

/-- Where the loop goes from a window, 0 if it ends, `user_message.c:140–156`. -/
def nextWnd (s : WindowStore) (n : Nat) (w : Int) : Option Int := do
  let wnd ← s.read w
  if wnd.spwndChild ≠ 0 then return wnd.spwndChild
  else if wnd.spwndNext ≠ 0 then return wnd.spwndNext
  else
    let last ← s.read (← s.goUp n w)
    if last.spwndParent ≠ 0 ∧ last.spwndParent ≠ s.desktop then
      let parent ← s.read last.spwndParent
      return parent.spwndNext
    else return 0

/-- The loop `while (wnd)`, `user_message.c:133–157`, with at most `n` steps. -/
def walk (s : WindowStore) (climb : Nat) : Nat → Int → Option Int
  | 0, _ => none
  | n + 1, w =>
    if w = 0 then some 0
    else do
      let wnd ← s.read w
      if wnd.needsPaint then return w else s.walk climb n (← s.nextWnd climb w)

/-- `find_window_needing_paint`, `user_message.c:125–160`, with at most `n` steps of each loop. -/
def findWindowNeedingPaint (s : WindowStore) (n : Nat) : Option Int :=
  if s.desktop = 0 then some 0
  else do
    let desktop ← s.read s.desktop
    s.walk n n desktop.spwndChild

/-- The windows below the desktop in pre-order. -/
def belowDesktop (s : WindowStore) (kids : Int → List Int) : List Int :=
  if s.desktop = 0 then [] else (kids s.desktop).flatMap (preOrder kids s.live.card)

/-- A window has something to paint. -/
def needsPaint (s : WindowStore) (w : Int) : Bool := (s.wnd w).needsPaint

end WindowStore

section Walk

variable {s : WindowStore} {kids : Int → List Int} {w v : Int} {ws : List Int}

/-- The walk leaves a window for another one, or ends. -/
theorem leavesTo_live (hf : Forest s.links s.live kids) (hw : w ∈ s.live)
    (h : s.links.LeavesTo s.desktop w v) : s.Points v := by
  induction h with
  | sibling _ => exact (hf.next_sibling hw).imp id And.left
  | stop _ _ => exact .inl rfl
  | up _ hparent _ _ ih => exact ih ((hf.parent _ hw).resolve_left hparent)

/-- The loop up ends below the parent that the walk goes on from, or where it stops. -/
theorem goUp_leaves (hf : Forest s.links s.live kids) (hw : w ∈ s.live)
    (hnext : s.links.next w = 0) (h : s.links.LeavesTo s.desktop w v) :
    ∃ n, ∃ u ∈ s.live, (∀ m, n ≤ m → s.goUp m w = some u) ∧
      v = if (s.wnd u).spwndParent ≠ 0 ∧ (s.wnd u).spwndParent ≠ s.desktop then
        s.links.next (s.wnd u).spwndParent else 0 := by
  induction h with
  | sibling hne => exact absurd hnext hne
  | @stop w _ hstop =>
    have hstop' : (s.wnd w).spwndParent = 0 ∨ (s.wnd w).spwndParent = s.desktop := hstop
    refine ⟨1, w, hw, ?_, ?_⟩
    · intro m hm
      obtain ⟨m, rfl⟩ := Nat.exists_eq_add_of_le' hm
      simp only [WindowStore.goUp, read_live hw, Option.bind_eq_bind, Option.bind_some, hstop',
        if_true, Option.pure_def]
    · rw [if_neg]
      intro hgo
      exact hstop'.elim hgo.1 hgo.2
  | @up w v _ hparent hstop hleaves ih =>
    have hp : s.links.parent w ∈ s.live := (hf.parent w hw).resolve_left hparent
    have hgo : ¬ ((s.wnd w).spwndParent = 0 ∨ (s.wnd w).spwndParent = s.desktop) :=
      fun h => h.elim hparent hstop
    have hread : s.read (s.wnd w).spwndParent = some (s.wnd (s.wnd w).spwndParent) := read_live hp
    have hstep : ∀ m, s.goUp (m + 1) w =
        if (s.wnd (s.wnd w).spwndParent).spwndNext ≠ 0 then some w
        else s.goUp m (s.wnd w).spwndParent := by
      intro m
      simp only [WindowStore.goUp, read_live hw, Option.bind_eq_bind, Option.bind_some, hgo,
        if_false, hread, Option.pure_def]
    by_cases hsibling : s.links.next (s.links.parent w) = 0
    · have hlast : ¬ (s.wnd (s.wnd w).spwndParent).spwndNext ≠ 0 := not_not.mpr hsibling
      obtain ⟨n, u, hu, hup, hv⟩ := ih hp hsibling
      refine ⟨n + 1, u, hu, ?_, hv⟩
      intro m hm
      obtain ⟨m, rfl⟩ := Nat.exists_eq_add_of_le' (Nat.le_trans (Nat.le_add_left 1 n) hm)
      rw [hstep, if_neg hlast]
      exact hup m (by omega)
    · -- the parent has a sibling, and that is where the walk goes
      refine ⟨1, w, hw, ?_, ?_⟩
      · intro m hm
        obtain ⟨m, rfl⟩ := Nat.exists_eq_add_of_le' hm
        rw [hstep]
        exact if_pos hsibling
      · rw [if_pos ⟨hparent, hstop⟩]
        cases hleaves with
        | sibling _ => rfl
        | stop hzero _ => exact absurd hzero hsibling
        | up hzero _ _ _ => exact absurd hzero hsibling

/-- The next window is where the walk goes when it leaves one without children. -/
theorem nextWnd_leaves (hf : Forest s.links s.live kids) (hw : w ∈ s.live)
    (hchild : s.links.child w = 0) (h : s.links.LeavesTo s.desktop w v) :
    ∃ n, ∀ m, n ≤ m → s.nextWnd m w = some v := by
  have hchild' : ¬ (s.wnd w).spwndChild ≠ 0 := not_not.mpr hchild
  by_cases hnext : s.links.next w = 0
  · obtain ⟨n, u, hu, hup, hv⟩ := goUp_leaves hf hw hnext h
    have hnext' : ¬ (s.wnd w).spwndNext ≠ 0 := not_not.mpr hnext
    refine ⟨n, fun m hm => ?_⟩
    simp only [WindowStore.nextWnd, read_live hw, Option.bind_eq_bind, Option.bind_some, hchild',
      if_false, hnext', hup m hm, read_live hu]
    rw [hv]
    by_cases hgo : (s.wnd u).spwndParent ≠ 0 ∧ (s.wnd u).spwndParent ≠ s.desktop
    · have hp : (s.wnd u).spwndParent ∈ s.live := (hf.parent u hu).resolve_left hgo.1
      rw [if_pos hgo, if_pos hgo, read_live hp]
      rfl
    · rw [if_neg hgo, if_neg hgo]
      rfl
  · have hnext' : (s.wnd w).spwndNext ≠ 0 := hnext
    have hv : v = (s.wnd w).spwndNext := by
      cases h with
      | sibling _ => rfl
      | stop hzero _ => exact absurd hzero hnext
      | up hzero _ _ _ => exact absurd hzero hnext
    refine ⟨0, fun m _ => ?_⟩
    rw [hv]
    simp only [WindowStore.nextWnd, read_live hw, Option.bind_eq_bind, Option.bind_some, hchild',
      if_false, Option.pure_def]
    exact if_pos hnext'

/-- A step of the loop. -/
theorem walk_succ (hzero : w ≠ 0) (hw : w ∈ s.live) {m k : Nat} (hnext : s.nextWnd m w = some v) :
    s.walk m (k + 1) w = if s.needsPaint w then some w else s.walk m k v := by
  simp only [WindowStore.walk, if_neg hzero, read_live hw, Option.bind_eq_bind, Option.bind_some,
    hnext, Option.pure_def]
  rfl

/-- The loop finds the first of the windows that it goes through, if it finds one. -/
theorem walk_visits (hf : Forest s.links s.live kids) (hw : s.Points w)
    (h : s.links.Visits s.desktop w ws) :
    ∃ n, ∀ m k, n ≤ m → n ≤ k → s.walk m k w = some ((ws.find? s.needsPaint).getD 0) := by
  have hstep : ∀ {w v ws}, w ≠ 0 → w ∈ s.live →
      (∃ n, ∀ m, n ≤ m → s.nextWnd m w = some v) →
      (∃ n, ∀ m k, n ≤ m → n ≤ k → s.walk m k v = some ((ws.find? s.needsPaint).getD 0)) →
      ∃ n, ∀ m k, n ≤ m → n ≤ k →
        s.walk m k w = some (((w :: ws).find? s.needsPaint).getD 0) := by
    intro w v ws hzero hlive hnext hrest
    obtain ⟨a, ha⟩ := hnext
    obtain ⟨b, hb⟩ := hrest
    refine ⟨a + b + 1, fun m k hm hk => ?_⟩
    obtain ⟨k, rfl⟩ := Nat.exists_eq_add_of_le' (Nat.le_trans (Nat.le_add_left 1 (a + b)) hk)
    rw [walk_succ hzero hlive (ha m (by omega)), List.find?_cons]
    by_cases hneeds : s.needsPaint w = true
    · simp only [hneeds, if_true, Option.getD_some]
    · rw [if_neg hneeds, hb m k (by omega) (by omega), Bool.eq_false_iff.mpr hneeds]
  induction h with
  | done =>
    refine ⟨1, fun m k _ hk => ?_⟩
    obtain ⟨k, rfl⟩ := Nat.exists_eq_add_of_le' hk
    exact if_pos rfl
  | @down w ws hzero hchild _ ih =>
    have hlive := hw.resolve_left hzero
    have hpoints : s.Points (s.links.child w) := (hf.child_sibling hlive).imp id And.left
    refine hstep hzero hlive ⟨0, fun m _ => ?_⟩ (ih hpoints)
    have hchild' : (s.wnd w).spwndChild ≠ 0 := hchild
    simp only [WindowStore.nextWnd, read_live hlive, Option.bind_eq_bind, Option.bind_some,
      hchild', if_true, Option.pure_def, ne_eq, not_false_eq_true]
    rfl
  | leave hzero hchild hleaves _ ih =>
    have hlive := hw.resolve_left hzero
    exact hstep hzero hlive (nextWnd_leaves hf hlive hchild hleaves)
      (ih (leavesTo_live hf hlive hleaves))

/-- The windows below the desktop are those that it is above of. -/
theorem mem_belowDesktop (hf : Forest s.links s.live kids) (hdesktop : s.Points s.desktop) :
    v ∈ s.belowDesktop kids ↔
      s.desktop ≠ 0 ∧ s.links.Within s.live v s.desktop ∧ v ≠ s.desktop := by
  unfold WindowStore.belowDesktop
  by_cases hzero : s.desktop = 0
  · simp [hzero]
  · have hle := Forest.subtree_card_le s.links s.live s.desktop
    rw [if_neg hzero, hf.mem_below (hdesktop.resolve_left hzero) (by omega)]
    simp [hzero]

/-- The search ends without touching a freed window and returns the first window below the desktop,
in pre-order, that has something to paint, and `NULL` exactly if there is none. -/
theorem findWindowNeedingPaint_first (hf : Forest s.links s.live kids)
    (hdesktop : s.Points s.desktop) :
    ∃ found, (∃ n, ∀ m, n ≤ m → s.findWindowNeedingPaint m = some found) ∧
      found = ((s.belowDesktop kids).find? s.needsPaint).getD 0 ∧
      (found = 0 ↔ ∀ w ∈ s.belowDesktop kids, s.needsPaint w = false) ∧
      ∀ w, w ∈ s.belowDesktop kids ↔
        s.desktop ≠ 0 ∧ s.links.Within s.live w s.desktop ∧ w ≠ s.desktop := by
  refine ⟨_, ?_, rfl, ?_, fun w => mem_belowDesktop hf hdesktop⟩
  · by_cases hzero : s.desktop = 0
    · refine ⟨0, fun m _ => ?_⟩
      unfold WindowStore.findWindowNeedingPaint WindowStore.belowDesktop
      rw [if_pos hzero, if_pos hzero]
      rfl
    · have hlive := hdesktop.resolve_left hzero
      have hle := Forest.subtree_card_le s.links s.live s.desktop
      have hvisits := hf.visits_below hlive (n := s.live.card) (by omega)
      have hpoints : s.Points (s.links.child s.desktop) :=
        (hf.child_sibling hlive).imp id And.left
      obtain ⟨n, hn⟩ := walk_visits hf hpoints hvisits
      refine ⟨n, fun m hm => ?_⟩
      unfold WindowStore.findWindowNeedingPaint WindowStore.belowDesktop
      rw [if_neg hzero, if_neg hzero, read_live hlive]
      exact hn m m hm hm
  · cases hfound : (s.belowDesktop kids).find? s.needsPaint with
    | none =>
      have hall := List.find?_eq_none.mp hfound
      simpa using hall
    | some w =>
      have hmem := List.mem_of_find?_eq_some hfound
      have hneeds := List.find?_some hfound
      have hlive : w ∈ s.live := by
        obtain ⟨hzero, hwithin, -⟩ := (mem_belowDesktop hf hdesktop).mp hmem
        exact within_live hwithin (hdesktop.resolve_left hzero)
      constructor
      · intro hz
        exact absurd hz (hf.ne_zero hlive)
      · intro hall
        rw [hall w hmem] at hneeds
        cases hneeds

end Walk

/-- Two windows apart, visible and with something to paint; the first one is the desktop. -/
def looseWindows : WindowStore :=
  { emptyStore with wnd := fun _ => { state := 0x81 }, live := {2, 1}, desktop := 1 }

/-- The second one is below the desktop. -/
def paintedPair : WindowStore := looseWindows.relink (looseWindows.links.linkFront 1 2)

theorem findWindowNeedingPaint_first_pair :
    ∃ found, (∃ n, ∀ m, n ≤ m → paintedPair.findWindowNeedingPaint m = some found) ∧
      found = 2 := by
  have hone := (Forest.empty looseWindows.links).insert (w := 1) (by decide) (by decide) rfl rfl rfl rfl
  have htwo := hone.insert (w := 2) (by decide) (by decide) rfl rfl rfl rfl
  have hbelow : ¬ looseWindows.links.Within {2, 1} 1 2 := by
    intro hwithin
    obtain heq | ⟨v, hv, -⟩ := Relation.ReflTransGen.cases_head hwithin
    · cases heq
    · exact hv.2.2 hv.2.1.symm
  have hforest := htwo.linkFront (p := 1) (w := 2) (by decide) (by decide) rfl hbelow
  have hpair : Forest paintedPair.links paintedPair.live fun q => if q = 1 then [2] else [] := by
    apply hforest.congr_kids
    decide
  obtain ⟨found, hruns, hfound, -⟩ := findWindowNeedingPaint_first hpair (.inr (by decide))
  exact ⟨found, hruns, hfound.trans (by decide)⟩

end Wbox.User
