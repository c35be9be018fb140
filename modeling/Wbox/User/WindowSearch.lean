import Mathlib
import Wbox.Lib.Enumeration
import Wbox.Lib.PreOrder
import Wbox.User.ClassCounts

/-!
# Searching for windows

`NtUserFindWindowEx` (`src/user/user_window.c:552–656`, `src/user/user_syscalls.c:1627–1720`): the
first search goes through all windows below the desktop, and the ones that go on behind a window
through its siblings.
-/

namespace Wbox.User

open Wbox.Lib

/-- The windows with their classes and titles; a window without a title has none. -/
structure TitledWindows extends ClassedWindows where
  strName : Int → Option WideName

/-- The comparison of two strings that are not `NULL`, `user_window.c:565–571`. -/
def compareSimple : List UInt32 → List UInt32 → Int32
  | c1 :: s1, c2 :: s2 =>
    if towlower c1 ≠ towlower c2 then (towlower c1 - towlower c2).toInt32 else compareSimple s1 s2
  | s1, s2 => (s1.headD 0 - s2.headD 0).toInt32

/-- `wcsicmp_simple`, `user_window.c:559–572`. -/
def wcsicmpSimple : Option WideName → Option WideName → Int32
  | none, none => 0
  | none, some _ => -1
  | some _, none => 1
  | some s1, some s2 => compareSimple s1.chars s2.chars

namespace TitledWindows

/-- `window_matches`, `user_window.c:577–596`. -/
def windowMatches (s : TitledWindows) (classAtom : UInt16) (windowName : Option WideName)
    (w : Int) : Bool :=
  if w = 0 then false
  else if classAtom ≠ 0 ∧
      (s.pcls w = 0 ∨ (s.classes.cls (s.pcls w)).atomClassName ≠ classAtom) then false
  else if windowName ≠ none ∧ wcsicmpSimple (s.strName w) windowName ≠ 0 then false
  else true

/-- The loop of `user_window_find_child`, `user_window.c:609–626`, at most `n` times around. -/
def findChildLoop (s : TitledWindows) (childAfter : Int) (found : Int → Bool) :
    Nat → Bool → Int → Option Int
  | 0, _, _ => none
  | n + 1, pastChildAfter, child =>
    if child = 0 then some 0
    else do
      let wnd ← s.read child
      if pastChildAfter = false then
        s.findChildLoop childAfter found n (child = childAfter) wnd.spwndNext
      else if found child then return child
      else s.findChildLoop childAfter found n true wnd.spwndNext

/-- `user_window_find_child`, `user_window.c:601–629`. -/
def userWindowFindChild (s : TitledWindows) (n : Nat) (parent childAfter : Int)
    (classAtom : UInt16) (windowName : Option WideName) : Option Int :=
  if parent = 0 then some 0
  else do
    let wnd ← s.read parent
    s.findChildLoop childAfter (s.windowMatches classAtom windowName) n (childAfter = 0)
      wnd.spwndChild

/-- The loop of `user_window_find_recursive`, `user_window.c:640–653`, at most `n` times around. -/
def findChildrenLoop (s : TitledWindows) (search : Int → Option Int) (found : Int → Bool) :
    Nat → Int → Option Int
  | 0, _ => none
  | n + 1, child =>
    if child = 0 then some 0
    else do
      let wnd ← s.read child
      if found child then return child
      else
        let below ← search child
        if below ≠ 0 then return below else s.findChildrenLoop search found n wnd.spwndNext

/-- `user_window_find_recursive`, `user_window.c:634–656`, at most `n` calls deep. -/
def userWindowFindRecursive (s : TitledWindows) (classAtom : UInt16)
    (windowName : Option WideName) : Nat → Int → Option Int
  | 0, _ => none
  | n + 1, parent =>
    if parent = 0 then some 0
    else do
      let wnd ← s.read parent
      s.findChildrenLoop (s.userWindowFindRecursive classAtom windowName n)
        (s.windowMatches classAtom windowName) (n + 1) wnd.spwndChild

/-- `user_window_from_hwnd`. -/
def userWindowFromHwnd (s : TitledWindows) (hwnd : UInt32) : Int :=
  if hwnd = 0 then s.desktop else userHandleGetTyped s.handles hwnd .window

/-- What is searched for: what the decoder gives of the class and of the title, where there are
any, and the host address of the buffer with the name of the class. -/
structure Sought where
  className : Option (UInt16 × WideName)
  windowName : Option WideName
  addr : UInt64

/-- The atom of the class, 0 if any class will do, `user_syscalls.c:1661–1683`; `none` if there is
no such class. -/
def classAtom (s : TitledWindows) (q : Sought) : Option UInt16 :=
  match q.className with
  | none => some 0
  | some (atomResult, name) =>
    if atomResult ≠ 0 then some atomResult
    else if name.chars = [] then some 0
    else
      let cls := s.classes.userClassFind q.addr name 0
      if cls ≠ 0 then some (s.classes.cls cls).atomClassName else none

/-- The title, if it is not empty, `user_syscalls.c:1685–1693`. -/
def Sought.title (q : Sought) : Option WideName := q.windowName.filter fun name => name.chars ≠ []

/-- `NtUserFindWindowEx`, `user_syscalls.c:1627–1720`. -/
def sysNtUserFindWindowEx (s : TitledWindows) (n : Nat) (hwndParent : UInt32) (q : Sought)
    (hwndChildAfter : UInt32) : Option UInt32 := do
  let parent := if hwndParent = 0 then s.desktop else s.userWindowFromHwnd hwndParent
  if hwndParent ≠ 0 ∧ parent = 0 then return 0
  else
    let childAfter := if hwndChildAfter ≠ 0 then s.userWindowFromHwnd hwndChildAfter else 0
    match s.classAtom q with
    | none => return 0
    | some atom =>
      let found ←
        if hwndParent = 0 ∨ parent = s.desktop then
          if childAfter ≠ 0 then s.userWindowFindChild n parent childAfter atom q.title
          else s.userWindowFindRecursive atom q.title n parent
        else s.userWindowFindChild n parent childAfter atom q.title
      if found ≠ 0 then do
        let wnd ← s.read found
        return wnd.hwnd
      else return 0

section Spec

/-- The links are those of a forest, the desktop is one of the windows, and every window is found by
its handle. -/
structure WellLinked (s : TitledWindows) (kids : Int → List Int) : Prop where
  forest : Forest s.links s.live kids
  desktop : s.desktop ∈ s.live
  handles : ∀ w ∈ s.live, (s.wnd w).hwnd ≠ 0 ∧ s.userWindowFromHwnd (s.wnd w).hwnd = w

/-- A window is what is searched for. -/
def Matching (s : TitledWindows) (q : Sought) (w : Int) : Prop :=
  ∃ atom, s.classAtom q = some atom ∧ s.windowMatches atom q.title w = true

/-- The windows to search: all below the desktop, or the children of another window. -/
def InScope (s : TitledWindows) (parent w : Int) : Prop :=
  if parent = s.desktop then s.links.Within s.live w parent ∧ w ≠ parent
  else w ∈ s.live ∧ (s.wnd w).spwndParent = parent

/-- The searches from the first one on give every window that is searched for once, and end. -/
def FindsAll (s : TitledWindows) (hwndParent : UInt32) (q : Sought) : Prop :=
  ∃ ws : List Int, ws.Nodup ∧
    (∀ w, w ∈ ws ↔ s.InScope (s.userWindowFromHwnd hwndParent) w ∧ s.Matching q w) ∧
    ∃ N, ∀ n ≥ N, Enumerates (s.sysNtUserFindWindowEx n hwndParent q) 0
      (ws.map fun w => (s.wnd w).hwnd)

/-- What is searched for is one window at most, or consists of children of the desktop. -/
def OneLevel (s : TitledWindows) (q : Sought) : Prop :=
  (∀ v w, s.InScope s.desktop v → s.Matching q v → s.InScope s.desktop w → s.Matching q w →
    v = w) ∨
  ∀ w, s.InScope s.desktop w → s.Matching q w → (s.wnd w).spwndParent = s.desktop

end Spec

section Loops

variable {s : TitledWindows} {kids : Int → List Int} {p : Int → Bool} {before c w : Int}
  {ws : List Int} {n : Nat}

/-- A window of a list, and where the loops go from it. -/
theorem read_chained (hw : w ∈ s.live) (h : s.links.Chained before (w :: ws)) :
    s.read w = some (s.wnd w) ∧ (s.wnd w).spwndNext = ws.headD 0 :=
  ⟨read_live hw, h.2.1⟩

/-- One round of the loop. -/
theorem findChildLoop_cons (hnull : 0 ∉ s.live) (hw : w ∈ s.live)
    (h : s.links.Chained before (w :: ws)) (past : Bool) :
    s.findChildLoop c p (n + 1) past w =
      if past = false then s.findChildLoop c p n (w = c) (ws.headD 0)
      else if p w then some w
      else s.findChildLoop c p n true (ws.headD 0) := by
  have hzero : w ≠ 0 := fun h0 => hnull (h0 ▸ hw)
  obtain ⟨hread, hnext⟩ := read_chained hw h
  rw [findChildLoop, if_neg hzero, hread, Option.bind_eq_bind, Option.bind_some, hnext]
  rfl

/-- Behind the window to start from the loop gives the first one that matches. -/
theorem findChildLoop_past (hnull : 0 ∉ s.live) (h : s.links.Chained before ws)
    (hlive : ∀ w ∈ ws, w ∈ s.live) (hn : ws.length < n) :
    s.findChildLoop c p n true (ws.headD 0) = some ((ws.find? p).getD 0) := by
  induction ws generalizing n before with
  | nil =>
    obtain ⟨n, rfl⟩ := Nat.exists_eq_add_of_lt hn
    rfl
  | cons w ws ih =>
    obtain ⟨k, rfl⟩ : ∃ k, n = k + 1 := ⟨n - 1, by omega⟩
    have hrest := ih h.2.2 (fun v hv => hlive v (List.mem_cons_of_mem w hv))
      (Nat.lt_of_succ_lt_succ hn)
    rw [List.headD_cons, findChildLoop_cons hnull (hlive w List.mem_cons_self) h,
      if_neg Bool.true_eq_false.mp]
    by_cases hp : p w = true
    · rw [if_pos hp, List.find?_cons_of_pos hp]
      rfl
    · rw [if_neg hp, List.find?_cons_of_neg hp]
      exact hrest

/-- The loop goes on behind the window to start from. -/
theorem findChildLoop_behind (hnull : 0 ∉ s.live) {as bs : List Int}
    (h : s.links.Chained before (as ++ c :: bs)) (hlive : ∀ w ∈ as ++ c :: bs, w ∈ s.live)
    (hc : c ∉ as) (hn : (as ++ c :: bs).length < n) :
    s.findChildLoop c p n false ((as ++ c :: bs).headD 0) = some ((bs.find? p).getD 0) := by
  induction as generalizing n before with
  | nil =>
    obtain ⟨k, rfl⟩ : ∃ k, n = k + 1 := ⟨n - 1, by omega⟩
    rw [List.nil_append, List.headD_cons, findChildLoop_cons hnull (hlive c List.mem_cons_self) h,
      if_pos rfl, decide_eq_true rfl]
    exact findChildLoop_past hnull h.2.2 (fun v hv => hlive v (List.mem_cons_of_mem c hv))
      (Nat.lt_of_succ_lt_succ hn)
  | cons a as ih =>
    obtain ⟨k, rfl⟩ : ∃ k, n = k + 1 := ⟨n - 1, by omega⟩
    have hne : a ≠ c := fun heq => hc (heq ▸ List.mem_cons_self)
    rw [List.cons_append, List.headD_cons,
      findChildLoop_cons hnull (hlive a List.mem_cons_self) h, if_pos rfl, decide_eq_false hne]
    exact ih h.2.2 (fun v hv => hlive v (List.mem_cons_of_mem a hv))
      (fun hin => hc (List.mem_cons_of_mem a hin)) (Nat.lt_of_succ_lt_succ hn)

/-- A window to start from that is not in the list is never passed. -/
theorem findChildLoop_absent (hnull : 0 ∉ s.live) (h : s.links.Chained before ws)
    (hlive : ∀ w ∈ ws, w ∈ s.live) (hc : c ∉ ws) (hn : ws.length < n) :
    s.findChildLoop c p n false (ws.headD 0) = some 0 := by
  induction ws generalizing n before with
  | nil =>
    obtain ⟨n, rfl⟩ := Nat.exists_eq_add_of_lt hn
    rfl
  | cons w ws ih =>
    obtain ⟨k, rfl⟩ : ∃ k, n = k + 1 := ⟨n - 1, by omega⟩
    have hne : w ≠ c := fun heq => hc (heq ▸ List.mem_cons_self)
    rw [List.headD_cons, findChildLoop_cons hnull (hlive w List.mem_cons_self) h, if_pos rfl,
      decide_eq_false hne]
    exact ih h.2.2 (fun v hv => hlive v (List.mem_cons_of_mem w hv))
      (fun hin => hc (List.mem_cons_of_mem w hin)) (Nat.lt_of_succ_lt_succ hn)

/-- The loop gives the first window that matches among those of a list and below them. -/
theorem findChildrenLoop_eq {search : Int → Option Int} {below : Int → List Int}
    (hnull : 0 ∉ s.live) (h : s.links.Chained before ws) (hlive : ∀ w ∈ ws, w ∈ s.live)
    (hbelow : ∀ w ∈ ws, 0 ∉ below w)
    (hsearch : ∀ w ∈ ws, search w = some (((below w).find? p).getD 0)) (hn : ws.length < n) :
    s.findChildrenLoop search p n (ws.headD 0) =
      some (((ws.flatMap fun w => w :: below w).find? p).getD 0) := by
  induction ws generalizing n before with
  | nil =>
    obtain ⟨n, rfl⟩ := Nat.exists_eq_add_of_lt hn
    rfl
  | cons w ws ih =>
    obtain ⟨k, rfl⟩ : ∃ k, n = k + 1 := ⟨n - 1, by omega⟩
    have hw := hlive w List.mem_cons_self
    have hzero : w ≠ 0 := fun h0 => hnull (h0 ▸ hw)
    obtain ⟨hread, hnext⟩ := read_chained hw h
    have hrest := ih h.2.2 (fun v hv => hlive v (List.mem_cons_of_mem w hv))
      (fun v hv => hbelow v (List.mem_cons_of_mem w hv))
      (fun v hv => hsearch v (List.mem_cons_of_mem w hv)) (Nat.lt_of_succ_lt_succ hn)
    show s.findChildrenLoop search p (k + 1) w = _
    unfold findChildrenLoop
    rw [if_neg hzero, hread, Option.bind_eq_bind, Option.bind_some, hnext, List.flatMap_cons,
      List.cons_append]
    by_cases hp : p w = true
    · rw [if_pos hp, List.find?_cons_of_pos hp]
      rfl
    · rw [if_neg hp, List.find?_cons_of_neg hp, hsearch w List.mem_cons_self,
        Option.bind_eq_bind, Option.bind_some, List.find?_append]
      cases hfind : (below w).find? p with
      | none => exact hrest
      | some v =>
        have hne : v ≠ 0 :=
          fun h0 => hbelow w List.mem_cons_self (h0 ▸ List.mem_of_find?_eq_some hfind)
        rw [Option.getD_some, if_pos hne]
        rfl

/-- The search below a window gives the first one that matches in pre-order. -/
theorem userWindowFindRecursive_eq (hf : Forest s.links s.live kids) (hw : w ∈ s.live)
    {atom : UInt16} {name : Option WideName} {m : Nat}
    (hm : (Forest.subtree s.links s.live w).card ≤ m + 1)
    (hn : (Forest.subtree s.links s.live w).card ≤ n) :
    s.userWindowFindRecursive atom name n w =
      some ((((kids w).flatMap (preOrder kids m)).find? (s.windowMatches atom name)).getD 0) := by
  induction n generalizing w m with
  | zero =>
    have hlt := hf.length_kids_lt hw
    omega
  | succ n ih =>
    have hzero : w ≠ 0 := hf.ne_zero hw
    have hlength := hf.length_kids_lt hw
    have hkids : ∀ c ∈ kids w, c ∈ s.live := fun c hc => ((hf.mem w hw c).mp hc).1
    have hfirst : (s.wnd w).spwndChild = (kids w).headD 0 := hf.first w hw
    unfold userWindowFindRecursive
    rw [if_neg hzero, read_live hw, Option.bind_eq_bind, Option.bind_some, hfirst]
    cases hcs : kids w with
    | nil => rfl
    | cons c cs =>
      -- a window with a child has a pre-order that is deep enough to split
      have hone : 1 ≤ m := by
        rw [hcs, List.length_cons] at hlength
        omega
      obtain ⟨k, rfl⟩ : ∃ k, m = k + 1 := ⟨m - 1, by omega⟩
      rw [← hcs]
      have hstep : ∀ c ∈ kids w, s.userWindowFindRecursive atom name n c =
          some ((((kids c).flatMap (preOrder kids k)).find?
            (s.windowMatches atom name)).getD 0) := by
        intro c hc
        have hlt := hf.subtree_card_lt hw hc
        exact ih (hkids c hc) (by omega) (by omega)
      have hbelow : ∀ c ∈ kids w, 0 ∉ (kids c).flatMap (preOrder kids k) := by
        intro c hc hin
        have hlt := hf.subtree_card_lt hw hc
        have hwithin := (hf.mem_below (hkids c hc) (n := k) (by omega)).mp hin
        exact hf.null (within_live hwithin.1 (hkids c hc))
      exact findChildrenLoop_eq hf.null (hf.chained w hw) hkids hbelow hstep (by omega)

end Loops

section Enumerating

variable {s : TitledWindows} {kids : Int → List Int} {q : Sought} {atom : UInt16}
  {hwndParent : UInt32} {n : Nat} {c w v : Int}

/-- The windows below the desktop in pre-order. -/
def scopeOrder (s : TitledWindows) (kids : Int → List Int) : List Int :=
  (kids s.desktop).flatMap (preOrder kids s.live.card)

/-- The handle of a window. -/
def handle (s : TitledWindows) (w : Int) : UInt32 := (s.wnd w).hwnd

theorem WellLinked.handle_inj (h : s.WellLinked kids) (hv : v ∈ s.live) (hw : w ∈ s.live)
    (heq : s.handle v = s.handle w) : v = w := by
  rw [← (h.handles v hv).2, ← (h.handles w hw).2]
  exact congrArg s.userWindowFromHwnd heq

/-- The desktop and the windows have what the argument stands for. -/
theorem WellLinked.parent_live (h : s.WellLinked kids)
    (hparent : hwndParent = 0 ∨ ∃ w ∈ s.live, s.handle w = hwndParent) :
    s.userWindowFromHwnd hwndParent ∈ s.live := by
  obtain rfl | ⟨w, hw, rfl⟩ := hparent
  · exact h.desktop
  · exact (h.handles w hw).2.symm ▸ hw

theorem WellLinked.mem_scopeOrder (h : s.WellLinked kids) :
    w ∈ s.scopeOrder kids ↔ s.InScope s.desktop w := by
  have hle := Forest.subtree_card_le s.links s.live s.desktop
  unfold scopeOrder InScope
  rw [if_pos rfl]
  exact h.forest.mem_below h.desktop (by omega)

theorem WellLinked.mem_kids (h : s.WellLinked kids) {p : Int} (hp : p ∈ s.live)
    (hne : p ≠ s.desktop) : w ∈ kids p ↔ s.InScope p w := by
  unfold InScope
  rw [if_neg hne]
  exact h.forest.mem p hp w

theorem WellLinked.scope_live (h : s.WellLinked kids) (hw : w ∈ s.scopeOrder kids) :
    w ∈ s.live :=
  within_live ((h.forest.mem_below h.desktop
    ((Forest.subtree_card_le s.links s.live s.desktop).trans (Nat.le_succ _))).mp hw).1 h.desktop

/-- A window that is what is searched for, when the class has an atom. -/
theorem matching_iff (hatom : s.classAtom q = some atom) :
    s.Matching q w ↔ s.windowMatches atom q.title w = true := by
  unfold Matching
  rw [hatom]
  constructor
  · rintro ⟨a, ha, hmatches⟩
    rwa [Option.some.inj ha]
  · exact fun hmatches => ⟨atom, rfl, hmatches⟩

/-- The handle of what has been found. -/
theorem WellLinked.result_eq (h : s.WellLinked kids) {p : Int → Bool} {xs : List Int}
    (hlive : ∀ w ∈ xs, w ∈ s.live) :
    (if (xs.find? p).getD 0 ≠ 0 then do
        let wnd ← s.read ((xs.find? p).getD 0)
        return wnd.hwnd
      else return 0 : Option UInt32) = some (firstKey s.handle p xs) := by
  cases hfind : xs.find? p with
  | none =>
    rw [firstKey_of_none hfind]
    rfl
  | some w =>
    have hw := hlive w (List.mem_of_find?_eq_some hfind)
    have hzero : w ≠ 0 := h.forest.ne_zero hw
    rw [firstKey_of_some hfind, Option.getD_some, if_pos hzero, read_live hw]
    rfl

/-- A search with a parent and a class that there are. -/
theorem sysNtUserFindWindowEx_eq (hatom : s.classAtom q = some atom)
    (hparent : s.userWindowFromHwnd hwndParent ≠ 0) (hwndChildAfter : UInt32) :
    s.sysNtUserFindWindowEx n hwndParent q hwndChildAfter = (do
      let parent := s.userWindowFromHwnd hwndParent
      let childAfter := if hwndChildAfter ≠ 0 then s.userWindowFromHwnd hwndChildAfter else 0
      let found ←
        if parent = s.desktop then
          if childAfter ≠ 0 then s.userWindowFindChild n parent childAfter atom q.title
          else s.userWindowFindRecursive atom q.title n parent
        else s.userWindowFindChild n parent childAfter atom q.title
      if found ≠ 0 then do
        let wnd ← s.read found
        return wnd.hwnd
      else return 0) := by
  have hwindow : (if hwndParent = 0 then s.desktop else s.userWindowFromHwnd hwndParent) =
      s.userWindowFromHwnd hwndParent := by
    by_cases hzero : hwndParent = 0
    · rw [if_pos hzero, hzero]
      rfl
    · rw [if_neg hzero]
  have hdesktop : (hwndParent = 0 ∨ s.userWindowFromHwnd hwndParent = s.desktop) ↔
      s.userWindowFromHwnd hwndParent = s.desktop := by
    constructor
    · rintro (rfl | heq)
      · rfl
      · exact heq
    · exact .inr
  unfold sysNtUserFindWindowEx
  dsimp only
  rw [hwindow, if_neg fun hboth => hparent hboth.2, hatom]
  simp only [hdesktop]

/-- A search among the children of a window. -/
theorem WellLinked.find_child (h : s.WellLinked kids) {p : Int} (hp : p ∈ s.live)
    (hn : s.live.card < n) :
    s.userWindowFindChild n p 0 atom q.title =
        some (((kids p).find? (s.windowMatches atom q.title)).getD 0) ∧
      (∀ as bs, kids p = as ++ c :: bs → s.userWindowFindChild n p c atom q.title =
        some ((bs.find? (s.windowMatches atom q.title)).getD 0)) ∧
      (c ≠ 0 → c ∉ kids p → s.userWindowFindChild n p c atom q.title = some 0) := by
  have hzero : p ≠ 0 := h.forest.ne_zero hp
  have hlength := h.forest.length_kids_lt hp
  have hcard := Forest.subtree_card_le s.links s.live p
  have hkids : ∀ c ∈ kids p, c ∈ s.live := fun c hc => ((h.forest.mem p hp c).mp hc).1
  have hfirst : (s.wnd p).spwndChild = (kids p).headD 0 := h.forest.first p hp
  have hchained := h.forest.chained p hp
  have hloop : ∀ c, s.userWindowFindChild n p c atom q.title =
      s.findChildLoop c (s.windowMatches atom q.title) n (c = 0) ((kids p).headD 0) := by
    intro c
    unfold userWindowFindChild
    rw [if_neg hzero, read_live hp, Option.bind_eq_bind, Option.bind_some, hfirst]
  refine ⟨?start, ?behind, ?absent⟩
  case start =>
    rw [hloop, decide_eq_true rfl]
    exact findChildLoop_past h.forest.null hchained hkids (by omega)
  case behind =>
    intro as bs hsplit
    have hc : c ∈ kids p := by
      rw [hsplit]
      exact List.mem_append_right _ List.mem_cons_self
    have hnodup := h.forest.nodup p hp
    have hne : c ≠ 0 := h.forest.ne_zero (hkids c hc)
    rw [hloop, decide_eq_false hne]
    rw [hsplit] at hchained hkids hlength hnodup ⊢
    have hfresh : c ∉ as := fun hin =>
      (List.nodup_append.mp hnodup).2.2 c hin c List.mem_cons_self rfl
    exact findChildLoop_behind h.forest.null hchained hkids hfresh (by omega)
  case absent =>
    intro hne hc
    rw [hloop, decide_eq_false hne]
    exact findChildLoop_absent h.forest.null hchained hkids hc (by omega)

/-- The first search gives the first window that matches among all that are to be searched. -/
theorem WellLinked.search_start (h : s.WellLinked kids) (hatom : s.classAtom q = some atom)
    (hp : s.userWindowFromHwnd hwndParent ∈ s.live) (hn : s.live.card < n) :
    s.sysNtUserFindWindowEx n hwndParent q 0 =
      some (firstKey s.handle (s.windowMatches atom q.title)
        (if s.userWindowFromHwnd hwndParent = s.desktop then s.scopeOrder kids
          else kids (s.userWindowFromHwnd hwndParent))) := by
  rw [sysNtUserFindWindowEx_eq hatom (h.forest.ne_zero hp)]
  dsimp only
  by_cases hdesktop : s.userWindowFromHwnd hwndParent = s.desktop
  · have hle := Forest.subtree_card_le s.links s.live s.desktop
    have hfind : s.userWindowFindRecursive atom q.title n s.desktop =
        some (((s.scopeOrder kids).find? (s.windowMatches atom q.title)).getD 0) :=
      userWindowFindRecursive_eq h.forest h.desktop (by omega) (by omega)
    rw [if_pos hdesktop, if_pos hdesktop, if_neg (not_not.mpr rfl), if_neg (not_not.mpr rfl),
      hdesktop, hfind]
    exact h.result_eq fun w hw => h.scope_live hw
  · have hfind := (@WellLinked.find_child s kids q atom n 0 h _ hp hn).1
    rw [if_neg hdesktop, if_neg hdesktop, if_neg (not_not.mpr rfl), hfind]
    exact h.result_eq fun w hw => ((h.forest.mem _ hp w).mp hw).1

/-- The searches that go on do so among the children of the parent, also below the desktop. -/
theorem WellLinked.search_behind (h : s.WellLinked kids) (hatom : s.classAtom q = some atom)
    (hp : s.userWindowFromHwnd hwndParent ∈ s.live) (hn : s.live.card < n) (hc : c ∈ s.live) :
    (∀ as bs, kids (s.userWindowFromHwnd hwndParent) = as ++ c :: bs →
      s.sysNtUserFindWindowEx n hwndParent q (s.handle c) =
        some (firstKey s.handle (s.windowMatches atom q.title) bs)) ∧
      (c ∉ kids (s.userWindowFromHwnd hwndParent) →
        s.sysNtUserFindWindowEx n hwndParent q (s.handle c) = some 0) := by
  obtain ⟨hhandle, hfound⟩ := h.handles c hc
  have hzero : c ≠ 0 := h.forest.ne_zero hc
  have hafter : (if s.handle c ≠ 0 then s.userWindowFromHwnd (s.handle c) else 0) = c :=
    (if_pos hhandle).trans hfound
  obtain ⟨-, hbehind, habsent⟩ := @WellLinked.find_child s kids q atom n c h _ hp hn
  rw [sysNtUserFindWindowEx_eq hatom (h.forest.ne_zero hp)]
  dsimp only
  rw [hafter, if_pos hzero, ite_self]
  constructor
  · intro as bs hsplit
    rw [hbehind as bs hsplit]
    apply h.result_eq
    intro w hw
    have hkid : w ∈ kids (s.userWindowFromHwnd hwndParent) := by
      rw [hsplit]
      exact List.mem_append_right _ (List.mem_cons_of_mem c hw)
    exact ((h.forest.mem _ hp w).mp hkid).1
  · intro hnot
    rw [habsent hzero hnot]
    rfl

/-- Of another window the searches enumerate the children that match. -/
theorem WellLinked.enumerates_children (h : s.WellLinked kids) (hatom : s.classAtom q = some atom)
    (hp : s.userWindowFromHwnd hwndParent ∈ s.live) (hn : s.live.card < n)
    (hdesktop : s.userWindowFromHwnd hwndParent ≠ s.desktop) :
    Enumerates (s.sysNtUserFindWindowEx n hwndParent q) 0
      (((kids (s.userWindowFromHwnd hwndParent)).filter
        (s.windowMatches atom q.title)).map s.handle) := by
  have hkids : ∀ c ∈ kids (s.userWindowFromHwnd hwndParent), c ∈ s.live :=
    fun c hc => ((h.forest.mem _ hp c).mp hc).1
  apply enumerates_all
  · exact fun w hw => (h.handles w (hkids w hw)).1
  · have hstart := h.search_start hatom hp hn
    rwa [if_neg hdesktop] at hstart
  · intro as c bs hsplit
    have hc : c ∈ kids (s.userWindowFromHwnd hwndParent) := by
      rw [hsplit]
      exact List.mem_append_right _ List.mem_cons_self
    exact (h.search_behind hatom hp hn (hkids c hc)).1 as bs hsplit

/-- Of the desktop they enumerate the first window that matches and, if it is a child of the
desktop, the children behind it that match. -/
theorem WellLinked.enumerates_desktop (h : s.WellLinked kids) (hatom : s.classAtom q = some atom)
    (hdesktop : s.userWindowFromHwnd hwndParent = s.desktop) (hn : s.live.card < n)
    (hc : (s.scopeOrder kids).find? (s.windowMatches atom q.title) = some c) :
    (c ∉ kids s.desktop →
      Enumerates (s.sysNtUserFindWindowEx n hwndParent q) 0 ([c].map s.handle)) ∧
      ∀ as bs, kids s.desktop = as ++ c :: bs →
        Enumerates (s.sysNtUserFindWindowEx n hwndParent q) 0
          ((c :: bs.filter (s.windowMatches atom q.title)).map s.handle) := by
  have hp : s.userWindowFromHwnd hwndParent ∈ s.live := hdesktop ▸ h.desktop
  have hclive : c ∈ s.live := h.scope_live (List.mem_of_find?_eq_some hc)
  have hstart := h.search_start hatom hp hn
  rw [if_pos hdesktop, firstKey_of_some hc] at hstart
  constructor
  · intro hnot
    have hend := (h.search_behind hatom hp hn hclive).2
    rw [hdesktop] at hend
    exact .next hstart (h.handles c hclive).1 (.done (hend hnot))
  · intro as bs hsplit
    refine .next hstart (h.handles c hclive).1 (enumerates_behind ?_ ?_ hsplit)
    · exact fun w hw => (h.handles w ((h.forest.mem _ h.desktop w).mp hw).1).1
    · intro as' d bs' hsplit'
      have hd : d ∈ kids s.desktop := by
        rw [hsplit']
        exact List.mem_append_right _ List.mem_cons_self
      have hsearch := (h.search_behind hatom hp hn ((h.forest.mem _ h.desktop d).mp hd).1).1 as' bs'
      rw [hdesktop] at hsearch
      exact hsearch hsplit'

/-- A child of the desktop that is the first window to match comes before all children that do. -/
theorem WellLinked.first_child (h : s.WellLinked kids) {p : Int → Bool} {as bs : List Int}
    (hc : (s.scopeOrder kids).find? p = some c) (hsplit : kids s.desktop = as ++ c :: bs) :
    ∀ a ∈ as, p a = false := by
  intro a ha
  by_contra hmatches
  have hleft : ∀ b ∈ as, b ∈ kids s.desktop := by
    intro b hb
    rw [hsplit]
    exact List.mem_append_left _ hb
  have hckid : c ∈ kids s.desktop := by
    rw [hsplit]
    exact List.mem_append_right _ List.mem_cons_self
  have hbelow : ∀ b ∈ as, ∀ v, v ∈ preOrder kids s.live.card b ↔ s.links.Within s.live v b :=
    fun b hb _ => h.forest.mem_preOrder ((h.forest.mem _ h.desktop b).mp (hleft b hb)).1
      (Forest.subtree_card_le s.links s.live b)
  -- the search finds a window at or below a child that is before `c`
  have horder : s.scopeOrder kids = as.flatMap (preOrder kids s.live.card) ++
      (c :: bs).flatMap (preOrder kids s.live.card) := by
    unfold scopeOrder
    rw [hsplit, List.flatMap_append]
  have hain : a ∈ as.flatMap (preOrder kids s.live.card) :=
    List.mem_flatMap.mpr ⟨a, ha, (hbelow a ha a).mpr .refl⟩
  have hfound : (as.flatMap (preOrder kids s.live.card)).find? p = some c := by
    rw [horder, List.find?_append] at hc
    cases hfind : (as.flatMap (preOrder kids s.live.card)).find? p with
    | none =>
      have hnone := List.find?_eq_none.mp hfind a hain
      exact absurd (Bool.eq_true_of_not_eq_false hmatches) hnone
    | some d =>
      rw [hfind] at hc
      exact hc
  obtain ⟨b, hb, hcb⟩ := List.mem_flatMap.mp (List.mem_of_find?_eq_some hfound)
  have heq : c = b :=
    h.forest.within_unique h.desktop hckid (hleft b hb) .refl ((hbelow b hb c).mp hcb)
  have hnodup := h.forest.nodup _ h.desktop
  rw [hsplit] at hnodup
  exact (List.nodup_append.mp hnodup).2.2 b hb c List.mem_cons_self heq.symm

end Enumerating

section Main

variable {s : TitledWindows} {kids : Int → List Int} {q : Sought} {hwndParent : UInt32} {w : Int}

/-- Without the class nothing is found, and nothing matches. -/
theorem findsAll_of_noClass (hatom : s.classAtom q = none) : s.FindsAll hwndParent q := by
  have hnone : ∀ w, ¬ s.Matching q w := by
    rintro w ⟨atom, hsome, -⟩
    rw [hatom] at hsome
    cases hsome
  refine ⟨[], List.nodup_nil, ?_, 0, ?_⟩
  · intro w
    exact ⟨fun hw => absurd hw List.not_mem_nil, fun hw => absurd hw.2 (hnone w)⟩
  · intro n _
    apply Enumerates.done
    unfold sysNtUserFindWindowEx
    dsimp only
    rw [hatom]
    exact ite_self (some (0 : UInt32))

/-- The searches below another window give all its children that match. -/
theorem WellLinked.findsAll_children (h : s.WellLinked kids)
    (hp : s.userWindowFromHwnd hwndParent ∈ s.live)
    (hdesktop : s.userWindowFromHwnd hwndParent ≠ s.desktop) : s.FindsAll hwndParent q := by
  cases hatom : s.classAtom q with
  | none => exact findsAll_of_noClass hatom
  | some atom =>
    refine ⟨(kids (s.userWindowFromHwnd hwndParent)).filter (s.windowMatches atom q.title),
      (h.forest.nodup _ hp).filter _, ?_, s.live.card + 1, ?_⟩
    · intro w
      rw [List.mem_filter, matching_iff hatom, h.mem_kids hp hdesktop]
    · exact fun n hn => h.enumerates_children hatom hp hn hdesktop

theorem WellLinked.child_inScope (h : s.WellLinked kids) (hw : w ∈ kids s.desktop) :
    s.InScope s.desktop w := by
  rw [← h.mem_scopeOrder]
  unfold scopeOrder
  exact List.mem_flatMap.mpr ⟨w, hw, (h.forest.mem_preOrder
    ((h.forest.mem _ h.desktop w).mp hw).1 (Forest.subtree_card_le s.links s.live w)).mpr .refl⟩

/-- Searches below the desktop that give all windows that match give them on one level. -/
theorem WellLinked.oneLevel_of_findsAll (h : s.WellLinked kids) {atom : UInt16} {c : Int}
    (hatom : s.classAtom q = some atom) (hdesktop : s.userWindowFromHwnd hwndParent = s.desktop)
    (hc : (s.scopeOrder kids).find? (s.windowMatches atom q.title) = some c)
    (hall : s.FindsAll hwndParent q) : s.OneLevel q := by
  obtain ⟨ws, -, hmem, N, hruns⟩ := hall
  have hrun := hruns (max N (s.live.card + 1)) (le_max_left _ _)
  obtain ⟨hother, hchild⟩ := h.enumerates_desktop hatom hdesktop (le_max_right N _) hc
  have hclive : c ∈ s.live := h.scope_live (List.mem_of_find?_eq_some hc)
  have hhandle : ∀ w, s.InScope s.desktop w → s.Matching q w →
      w ∈ s.live ∧ s.handle w ∈ ws.map s.handle := fun w hw hmatches =>
    ⟨h.scope_live (h.mem_scopeOrder.mpr hw),
      List.mem_map_of_mem ((hmem w).mpr ⟨hdesktop ▸ hw, hmatches⟩)⟩
  by_cases hckid : c ∈ kids s.desktop
  · obtain ⟨as, bs, hsplit⟩ := List.append_of_mem hckid
    have hsame : ws.map s.handle = _ := hrun.unique (hchild as bs hsplit)
    refine .inr fun w hw hmatches => ?_
    obtain ⟨hwlive, hin⟩ := hhandle w hw hmatches
    rw [hsame] at hin
    obtain ⟨v, hv, heq⟩ := List.mem_map.mp hin
    have hvkid : v ∈ kids s.desktop := by
      rw [hsplit]
      obtain rfl | hrest := List.mem_cons.mp hv
      · exact List.mem_append_right _ List.mem_cons_self
      · exact List.mem_append_right _ (List.mem_cons_of_mem c (List.mem_filter.mp hrest).1)
    obtain ⟨hvlive, hparent⟩ := (h.forest.mem _ h.desktop v).mp hvkid
    obtain rfl := h.handle_inj hvlive hwlive heq
    exact hparent
  · have hsame : ws.map s.handle = _ := hrun.unique (hother hckid)
    have honly : ∀ w, s.InScope s.desktop w → s.Matching q w → w = c := by
      intro w hw hmatches
      obtain ⟨hwlive, hin⟩ := hhandle w hw hmatches
      rw [hsame] at hin
      exact h.handle_inj hwlive hclive (List.mem_singleton.mp hin)
    exact .inl fun v w hv hvm hw hwm => (honly v hv hvm).trans (honly w hw hwm).symm

/-- On one level the searches below the desktop give all windows that match. -/
theorem WellLinked.findsAll_of_oneLevel (h : s.WellLinked kids) {atom : UInt16} {c : Int}
    (hatom : s.classAtom q = some atom) (hdesktop : s.userWindowFromHwnd hwndParent = s.desktop)
    (hc : (s.scopeOrder kids).find? (s.windowMatches atom q.title) = some c)
    (hone : s.OneLevel q) : s.FindsAll hwndParent q := by
  have hcscope : s.InScope s.desktop c := h.mem_scopeOrder.mp (List.mem_of_find?_eq_some hc)
  have hcmatch : s.Matching q c := (matching_iff hatom).mpr (List.find?_some hc)
  by_cases hckid : c ∈ kids s.desktop
  · obtain ⟨as, bs, hsplit⟩ := List.append_of_mem hckid
    have hnodup := h.forest.nodup _ h.desktop
    rw [hsplit] at hnodup
    refine ⟨c :: bs.filter (s.windowMatches atom q.title), ?nodup, ?mem, s.live.card + 1,
      fun n hn => (h.enumerates_desktop hatom hdesktop hn hc).2 as bs hsplit⟩
    case nodup =>
      have hsub : (c :: bs.filter (s.windowMatches atom q.title)).Sublist (c :: bs) :=
        List.filter_sublist.cons_cons c
      exact (List.nodup_append.mp hnodup).2.1.sublist hsub
    case mem =>
      intro w
      rw [hdesktop]
      constructor
      · intro hw
        obtain rfl | hrest := List.mem_cons.mp hw
        · exact ⟨hcscope, hcmatch⟩
        · obtain ⟨hin, hmatches⟩ := List.mem_filter.mp hrest
          have hkid : w ∈ kids s.desktop := by
            rw [hsplit]
            exact List.mem_append_right _ (List.mem_cons_of_mem c hin)
          exact ⟨h.child_inScope hkid, (matching_iff hatom).mpr hmatches⟩
      · rintro ⟨hw, hmatches⟩
        obtain hunique | hlevel := hone
        · rw [hunique w c hw hmatches hcscope hcmatch]
          exact List.mem_cons_self
        · have hkid := (h.forest.mem _ h.desktop w).mpr
            ⟨h.scope_live (h.mem_scopeOrder.mpr hw), hlevel w hw hmatches⟩
          have hp := (matching_iff hatom).mp hmatches
          rw [hsplit] at hkid
          obtain hbefore | hfrom := List.mem_append.mp hkid
          · rw [h.first_child hc hsplit w hbefore] at hp
            cases hp
          · obtain rfl | hbehind := List.mem_cons.mp hfrom
            · exact List.mem_cons_self
            · exact List.mem_cons_of_mem c (List.mem_filter.mpr ⟨hbehind, hp⟩)
  · refine ⟨[c], List.nodup_singleton c, ?_, s.live.card + 1,
      fun n hn => (h.enumerates_desktop hatom hdesktop hn hc).1 hckid⟩
    intro w
    rw [hdesktop, List.mem_singleton]
    constructor
    · rintro rfl
      exact ⟨hcscope, hcmatch⟩
    · rintro ⟨hw, hmatches⟩
      obtain hunique | hlevel := hone
      · exact hunique w c hw hmatches hcscope hcmatch
      · have hclive : c ∈ s.live := h.scope_live (h.mem_scopeOrder.mpr hcscope)
        exact absurd ((h.forest.mem _ h.desktop c).mpr ⟨hclive, hlevel c hcscope hcmatch⟩) hckid

/-- The searches below the desktop give all windows that match exactly if these are children of the
desktop, or there is one at most. -/
theorem WellLinked.findsAll_desktop_iff (h : s.WellLinked kids)
    (hdesktop : s.userWindowFromHwnd hwndParent = s.desktop) :
    s.FindsAll hwndParent q ↔ s.OneLevel q := by
  cases hatom : s.classAtom q with
  | none =>
    refine ⟨fun _ => .inl ?_, fun _ => findsAll_of_noClass hatom⟩
    rintro v w - ⟨atom, hsome, -⟩
    rw [hatom] at hsome
    cases hsome
  | some atom =>
    cases hfind : (s.scopeOrder kids).find? (s.windowMatches atom q.title) with
    | none =>
      have hnone : ∀ w, s.InScope s.desktop w → ¬ s.Matching q w := by
        intro w hw hmatches
        exact List.find?_eq_none.mp hfind w (h.mem_scopeOrder.mpr hw)
          ((matching_iff hatom).mp hmatches)
      refine ⟨fun _ => .inl fun v w hv hmatches => absurd hmatches (hnone v hv), fun _ => ?_⟩
      refine ⟨[], List.nodup_nil, ?_, s.live.card + 1, ?_⟩
      · intro w
        rw [hdesktop]
        exact ⟨fun hw => absurd hw List.not_mem_nil, fun hw => absurd hw.2 (hnone w hw.1)⟩
      · intro n hn
        have hlive : s.userWindowFromHwnd hwndParent ∈ s.live := hdesktop ▸ h.desktop
        have hstart := h.search_start hatom hlive hn
        rw [if_pos hdesktop, firstKey_of_none hfind] at hstart
        exact .done hstart
    | some c =>
      exact ⟨h.oneLevel_of_findsAll hatom hdesktop hfind,
        h.findsAll_of_oneLevel hatom hdesktop hfind⟩

/-- The searches give every window that is searched for once and then 0 exactly if they are not
those of the desktop, or what is searched for is on one level. -/
theorem findWindowEx_findsAll_iff (h : s.WellLinked kids)
    (hparent : hwndParent = 0 ∨ ∃ w ∈ s.live, (s.wnd w).hwnd = hwndParent) :
    s.FindsAll hwndParent q ↔
      (s.userWindowFromHwnd hwndParent = s.desktop → s.OneLevel q) := by
  by_cases hdesktop : s.userWindowFromHwnd hwndParent = s.desktop
  · exact (h.findsAll_desktop_iff hdesktop).trans ⟨fun hone _ => hone, fun hone => hone hdesktop⟩
  · exact ⟨fun _ heq => absurd heq hdesktop,
      fun _ => h.findsAll_children (h.parent_live hparent) hdesktop⟩

end Main

section Example

/-- The desktop 1, the window 2 on it, and the window 3 on that one. -/
def windowOnWindow : TitledWindows where
  toWindowStore :=
    let s₁ := (emptyStore.userWindowInit ⟨1, true⟩ none).1
    let s₂ := (s₁.windowCall 0 (.create ⟨2, true⟩ {} 1 0)).getD emptyStore
    (s₂.windowCall 0 (.create ⟨3, true⟩ {} 2 0)).getD emptyStore
  pcls _ := 0
  classes := (userClassInit []).1
  strName _ := none

/-- Any window. -/
def anyWindow : Sought where
  className := none
  windowName := none
  addr := 0

theorem windowOnWindow_linked :
    windowOnWindow.WellLinked fun p => if p = 1 then [2] else if p = 2 then [3] else [] := by
  have hlive : ∀ w, w ∈ windowOnWindow.live ↔ w = 1 ∨ w = 2 ∨ w = 3 := by
    intro w
    have heq : windowOnWindow.live = {3, 2, 1} := by decide
    rw [heq]
    simp only [Finset.mem_insert, Finset.mem_singleton]
    omega
  have hparent : (windowOnWindow.wnd 1).spwndParent = 0 ∧
      (windowOnWindow.wnd 2).spwndParent = 1 ∧ (windowOnWindow.wnd 3).spwndParent = 2 := by decide
  refine ⟨⟨⟨by decide, by decide, by decide, ?mem, by decide, by decide, ?chained⟩, ?acyclic⟩,
    by decide, by decide⟩
  case mem =>
    intro p hp w
    obtain ⟨hone, htwo, hthree⟩ := hparent
    show w ∈ _ ↔ w ∈ windowOnWindow.live ∧ (windowOnWindow.wnd w).spwndParent = p
    rw [hlive] at hp ⊢
    constructor
    · intro hw
      obtain rfl | rfl | rfl := hp
      · obtain rfl := List.mem_singleton.mp hw
        exact ⟨.inr (.inl rfl), htwo⟩
      · obtain rfl := List.mem_singleton.mp hw
        exact ⟨.inr (.inr rfl), hthree⟩
      · exact absurd hw List.not_mem_nil
    · rintro ⟨rfl | rfl | rfl, heq⟩
      · rw [hone] at heq
        omega
      · rw [htwo] at heq
        rw [← heq]
        exact List.mem_cons_self
      · rw [hthree] at heq
        rw [← heq]
        exact List.mem_cons_self
  case chained =>
    intro p hp
    obtain rfl | rfl | rfl := (hlive p).mp hp
    · exact ⟨by decide, by decide, trivial⟩
    · exact ⟨by decide, by decide, trivial⟩
    · trivial
  case acyclic =>
    have hstep : ∀ {v p}, windowOnWindow.links.ChildOf windowOnWindow.live v p → p < v := by
      rintro v p ⟨hv, hp, -⟩
      have hp' : (windowOnWindow.wnd v).spwndParent = p := hp
      obtain ⟨hone, htwo, hthree⟩ := hparent
      obtain rfl | rfl | rfl := (hlive v).mp hv <;> omega
    have hbelow : ∀ {v p},
        Relation.TransGen (windowOnWindow.links.ChildOf windowOnWindow.live) v p → p < v := by
      intro v p hvp
      induction hvp with
      | single hchild => exact hstep hchild
      | tail _ hchild ih => exact (hstep hchild).trans ih
    exact fun w hw => lt_irrefl w (hbelow hw)

theorem not_oneLevel_windowOnWindow : ¬ windowOnWindow.OneLevel anyWindow := by
  have htwo : windowOnWindow.links.ChildOf windowOnWindow.live 2 1 :=
    ⟨by decide, by decide, by decide⟩
  have hthree : windowOnWindow.links.ChildOf windowOnWindow.live 3 2 :=
    ⟨by decide, by decide, by decide⟩
  have hscope : windowOnWindow.InScope windowOnWindow.desktop 2 ∧
      windowOnWindow.InScope windowOnWindow.desktop 3 := by
    unfold InScope
    rw [if_pos rfl, if_pos rfl]
    exact ⟨⟨.single htwo, by decide⟩, ⟨.head hthree (.single htwo), by decide⟩⟩
  have hmatches : ∀ w, w ≠ 0 → windowOnWindow.Matching anyWindow w := by
    intro w hw
    refine ⟨0, rfl, ?_⟩
    unfold windowMatches
    rw [if_neg hw]
    rfl
  rintro (hunique | hlevel)
  · exact absurd (hunique 2 3 hscope.1 (hmatches 2 (by decide)) hscope.2 (hmatches 3 (by decide)))
      (by decide)
  · exact absurd (hlevel 3 hscope.2 (hmatches 3 (by decide))) (by decide)

/-- Of the window 2 its child is found, and of the desktop not all windows are. -/
theorem findWindowEx_findsAll_windowOnWindow :
    windowOnWindow.FindsAll (windowOnWindow.wnd 2).hwnd anyWindow ∧
      ¬ windowOnWindow.FindsAll 0 anyWindow := by
  have htwo : ∃ w ∈ windowOnWindow.live, (windowOnWindow.wnd w).hwnd =
      (windowOnWindow.wnd 2).hwnd := ⟨2, by decide, rfl⟩
  constructor
  · exact (findWindowEx_findsAll_iff windowOnWindow_linked (.inr htwo)).mpr
      fun hdesktop => absurd hdesktop (by decide)
  · intro hall
    exact not_oneLevel_windowOnWindow
      ((findWindowEx_findsAll_iff windowOnWindow_linked (.inl rfl)).mp hall rfl)

/-- The searches below the desktop do not give every window. -/
theorem findWindowEx_not_findsAll :
    ¬ ∀ (s : TitledWindows) (kids : Int → List Int) (hwndParent : UInt32) (q : Sought),
      s.WellLinked kids → (hwndParent = 0 ∨ ∃ w ∈ s.live, (s.wnd w).hwnd = hwndParent) →
        s.FindsAll hwndParent q := by
  intro hall
  exact not_oneLevel_windowOnWindow ((windowOnWindow_linked.findsAll_desktop_iff rfl).mp
    (hall windowOnWindow _ 0 anyWindow windowOnWindow_linked (.inl rfl)))

end Example

end TitledWindows

end Wbox.User
