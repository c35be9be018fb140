import Wbox.User.Classes
import Wbox.User.Relinking

/-!
# Reference counts of window classes

A window holds a reference to its class from when it is made until it is freed
(`src/user/user_window.c:98–101`, `238–241`), and a class that has references is not unregistered
(`src/user/user_class.c:195–198`). So the count of a class is the number of its live windows.
-/

namespace Wbox.User

open Wbox.Lib

/-- The windows with the addresses of their classes, and the classes. -/
structure ClassedWindows extends WindowStore where
  pcls : Int → Int
  classes : ClassTable

namespace ClassedWindows

/-- What a class gives a window. -/
def classOf (s : ClassedWindows) (pcls : Int) : Option WndClass :=
  if pcls = 0 then none else some (s.classes.cls pcls).toWndClass

/-- A new window with its class, and the reference to it, `user_window.c:48`, `98–101`. -/
def hold (s : ClassedWindows) (store : WindowStore) (w pcls : Int) : ClassedWindows :=
  if w = 0 then { s with toWindowStore := store }
  else
    { toWindowStore := store
      pcls := Function.update s.pcls w pcls
      classes := s.classes.userClassAddRef pcls }

/-- `user_window_init`, `user_window.c:114–139`. -/
def userWindowInitOf (s : ClassedWindows) (mem : WndMemory) : ClassedWindows :=
  let desktopCls := s.classes.userClassGetSystemClass iclsDialog
  let (store, _) := s.userWindowInit mem (s.classOf desktopCls)
  s.hold store store.desktop desktopCls

/-- `user_window_create`, `user_window.c:162–215`, with the class of the window. -/
def userWindowCreateOf (s : ClassedWindows) (mem : WndMemory) (pcls : Int) (a : WndArgs)
    (parent owner : Int) : Option (ClassedWindows × Int) := do
  let (store, w) ← s.userWindowCreate mem { a with pcls := s.classOf pcls } parent owner
  return (s.hold store w pcls, w)

/-- The end of `user_window_destroy`, `user_window.c:235–258`. -/
def releaseOf (s : ClassedWindows) (w : Int) : Option ClassedWindows := do
  let store ← s.release w
  return { s with toWindowStore := store, classes := s.classes.userClassRelease (s.pcls w) }

/-- The loop over the children, `user_window.c:231–233`, at most `n` times around. -/
def whileChildOf (destroy : ClassedWindows → Int → Option ClassedWindows) (w : Int) :
    Nat → ClassedWindows → Option ClassedWindows
  | 0, _ => none
  | n + 1, s => do
    let wnd ← s.read w
    if wnd.spwndChild = 0 then return s
    let s ← destroy s wnd.spwndChild
    whileChildOf destroy w n s

/-- `user_window_destroy`, `user_window.c:217–259`, at most `n` calls deep. -/
def userWindowDestroyOf : Nat → ClassedWindows → Int → Option ClassedWindows
  | 0, _, _ => none
  | n + 1, s, w =>
    if w = 0 then some s
    else if w = s.desktop then some s
    else do
      let store ← s.modify w fun wnd => { wnd with state := wnd.state ||| wndsDestroyed }
      let s ← whileChildOf (userWindowDestroyOf n) w (n + 1) { s with toWindowStore := store }
      s.releaseOf w

end ClassedWindows

/-- A call on the classes or the windows. -/
inductive ClassOp where
  | register (c : Int) (addr : UInt64) (cls : Cls)
  | unregister (className : WideName) (hInstance : UInt32)
  | init (mem : WndMemory)
  | create (mem : WndMemory) (pcls : Int) (args : WndArgs) (parent owner : Int)
  | linkChild (parent child : Int)
  | unlink (wnd : Int)
  | destroy (wnd : Int)

namespace ClassedWindows

/-- A call, with at most `n` calls of `user_window_destroy` inside each other. -/
def classCall (n : Nat) (s : ClassedWindows) : ClassOp → Option ClassedWindows
  | .register c addr cls =>
    let (classes, heap, _) := s.classes.userClassRegister s.heap c addr cls
    some { s with classes, heap }
  | .unregister className hInstance =>
    let (classes, heap, _) := s.classes.userClassUnregister s.heap className hInstance
    some { s with classes, heap }
  | .init mem => some (s.userWindowInitOf mem)
  | .create mem pcls args parent owner =>
    (s.userWindowCreateOf mem pcls args parent owner).map Prod.fst
  | .linkChild parent child =>
    (s.userWindowLinkChild parent child).map fun store => { s with toWindowStore := store }
  | .unlink wnd => (s.userWindowUnlink wnd).map fun store => { s with toWindowStore := store }
  | .destroy wnd => s.userWindowDestroyOf n wnd

/-- What the calls are made with: `calloc` gives memory that is not in use, a class that is
registered has no references yet, and a window is made of a class that is registered or of none. -/
def Asked (s : ClassedWindows) : ClassOp → Prop
  | .register c _ cls => c ≠ 0 ∧ c ∉ s.classes.list ∧ cls.cWndReferenceCount = 0
  | .init mem => mem.wnd ∉ s.live
  | .create mem pcls _ _ _ => mem.wnd ∉ s.live ∧ (pcls = 0 ∨ pcls ∈ s.classes.list)
  | _ => True

/-- The live windows of a class. -/
def windowsOf (s : ClassedWindows) (c : Int) : Finset Int := s.live.filter fun w => s.pcls w = c

/-- The count of every class is the number of its windows. -/
structure Counted (s : ClassedWindows) : Prop where
  nodup : s.classes.list.Nodup
  null : 0 ∉ s.classes.list
  noDialog : s.classes.systemClasses iclsDialog = 0
  registered : ∀ w ∈ s.live, s.pcls w = 0 ∨ s.pcls w ∈ s.classes.list
  count : ∀ c ∈ s.classes.list, (s.classes.cls c).cWndReferenceCount = (s.windowsOf c).card

end ClassedWindows

/-- The states that are reached from `user_class_init` on. -/
inductive ClassReached : ClassedWindows → Prop where
  | init {s : ClassedWindows} (blocks : List Int) (hblocks : (blocks.takeWhile (· ≠ 0)).Nodup)
      (hempty : s.live = ∅) (hclasses : s.classes = (userClassInit blocks).1) : ClassReached s
  | call {s s' : ClassedWindows} {op : ClassOp} {n : Nat} (hs : ClassReached s)
      (hasked : s.Asked op) (hcall : s.classCall n op = some s') : ClassReached s'

namespace ClassTable

variable {t : ClassTable} {c : Int} {name : WideName} {hInstance : UInt32}

theorem set_cls_self {cls : Cls} : (t.set c cls).cls c = cls := by
  unfold set
  exact Function.update_self c cls t.cls

theorem set_cls_of_ne {cls : Cls} {d : Int} (h : d ≠ c) : (t.set c cls).cls d = t.cls d := by
  unfold set
  exact Function.update_of_ne h cls t.cls

@[simp] theorem addRef_list : (t.userClassAddRef c).list = t.list := by
  unfold userClassAddRef
  split <;> rfl

@[simp] theorem addRef_systemClasses : (t.userClassAddRef c).systemClasses = t.systemClasses := by
  unfold userClassAddRef
  split <;> rfl

@[simp] theorem release_list : (t.userClassRelease c).list = t.list := by
  unfold userClassRelease
  split <;> rfl

@[simp] theorem release_systemClasses :
    (t.userClassRelease c).systemClasses = t.systemClasses := by
  unfold userClassRelease
  split <;> rfl

/-- One more reference of the class, and no other change. -/
theorem addRef_count (hc : c ≠ 0) (d : Int) :
    ((t.userClassAddRef c).cls d).cWndReferenceCount =
      (t.cls d).cWndReferenceCount + if d = c then 1 else 0 := by
  unfold userClassAddRef
  rw [if_neg hc]
  by_cases hd : d = c
  · subst hd
    rw [if_pos rfl]
    rw [set_cls_self]
  · rw [if_neg hd, set_cls_of_ne hd]
    rfl

/-- One reference less of the class, and no other change. -/
theorem release_count (hc : c ≠ 0) (d : Int) :
    ((t.userClassRelease c).cls d).cWndReferenceCount =
      (t.cls d).cWndReferenceCount - if d = c then 1 else 0 := by
  unfold userClassRelease
  by_cases hpos : (t.cls c).cWndReferenceCount > 0
  · rw [if_pos ⟨hc, hpos⟩]
    by_cases hd : d = c
    · subst hd
      rw [if_pos rfl]
      rw [set_cls_self]
    · rw [if_neg hd, set_cls_of_ne hd]
      rfl
  · rw [if_neg fun h => hpos h.2]
    by_cases hd : d = c
    · subst hd
      omega
    · rw [if_neg hd, Nat.sub_zero]

/-- The class that is freed is in the list without references, and leaves it. -/
theorem unregisterLoop_some {list rest : List Int}
    (h : t.unregisterLoop name hInstance list = some (c, rest)) :
    (t.cls c).cWndReferenceCount = 0 ∧ ∃ front back, list = front ++ c :: back ∧
      rest = front ++ back := by
  induction list generalizing rest with
  | nil => cases h
  | cons d list ih =>
    have hnext : ∀ {o : Option (Int × List Int)}, o = t.unregisterLoop name hInstance list →
        (o.map fun r => (r.1, d :: r.2)) = some (c, rest) →
        (t.cls c).cWndReferenceCount = 0 ∧ ∃ front back, d :: list = front ++ c :: back ∧
          rest = front ++ back := by
      rintro o rfl hmap
      obtain ⟨⟨c', rest'⟩, hloop, heq⟩ := Option.map_eq_some_iff.mp hmap
      obtain ⟨rfl, rfl⟩ := Prod.mk.inj heq
      obtain ⟨hcount, front, back, hlist, hrest⟩ := ih hloop
      exact ⟨hcount, d :: front, back, congrArg (d :: ·) hlist, congrArg (d :: ·) hrest⟩
    unfold unregisterLoop at h
    dsimp only at h
    split_ifs at h with hname hsystem hinstance hcount
    · exact hnext rfl h
    · obtain ⟨rfl, rfl⟩ := Prod.mk.inj (Option.some.inj h)
      exact ⟨Nat.eq_zero_of_not_pos hcount, [], list, rfl, rfl⟩
    · exact hnext rfl h

/-- Nothing is freed, or a class of the list without references. -/
theorem unregister_cases (t : ClassTable) (heap : Option DesktopHeap) (name : WideName)
    (hInstance : UInt32) :
    (t.userClassUnregister heap name hInstance).2.2 = none ∧
        (t.userClassUnregister heap name hInstance).1 = t ∨
      ∃ c front back, (t.userClassUnregister heap name hInstance).2.2 = some c ∧
        (t.cls c).cWndReferenceCount = 0 ∧ t.list = front ++ c :: back ∧
        (t.userClassUnregister heap name hInstance).1 = { t with list := front ++ back } := by
  unfold userClassUnregister
  cases hloop : t.unregisterLoop name hInstance t.list with
  | none => exact .inl ⟨rfl, rfl⟩
  | some r =>
    obtain ⟨c, rest⟩ := r
    obtain ⟨hcount, front, back, hlist, rfl⟩ := unregisterLoop_some hloop
    exact .inr ⟨c, front, back, rfl, hcount, hlist, rfl⟩

/-- The class is put in front of the list, or nothing but an atom is added. -/
theorem register_cases {heap heap' : Option DesktopHeap} {addr : UInt64} {cls : Cls}
    {t' : ClassTable} {atom : UInt16}
    (h : t.userClassRegister heap c addr cls = (t', heap', atom)) :
    t'.systemClasses = t.systemClasses ∧
      (t'.list = t.list ∧ t'.cls = t.cls ∨
        t'.list = c :: t.list ∧ (t'.cls c).cWndReferenceCount = cls.cWndReferenceCount ∧
          ∀ d, d ≠ c → t'.cls d = t.cls d) := by
  unfold userClassRegister at h
  generalize (if cls.atomClassName = 0 then t.atoms.userClassAddAtom cls.szClassName
    else (t.atoms, cls.atomClassName)) = r at h
  dsimp only at h
  split_ifs at h with hname hfound hatom
  · obtain ⟨rfl, -⟩ := Prod.mk.inj h
    exact ⟨rfl, .inl ⟨rfl, rfl⟩⟩
  · obtain ⟨rfl, -⟩ := Prod.mk.inj h
    exact ⟨rfl, .inl ⟨rfl, rfl⟩⟩
  · obtain ⟨rfl, -⟩ := Prod.mk.inj h
    exact ⟨rfl, .inl ⟨rfl, rfl⟩⟩
  · cases heap with
    | none =>
      obtain ⟨rfl, -⟩ := Prod.mk.inj h
      refine ⟨rfl, .inr ⟨rfl, ?_, fun d hd => set_cls_of_ne hd⟩⟩
      rw [set_cls_self]
    | some heap =>
      obtain ⟨rfl, -⟩ := Prod.mk.inj h
      refine ⟨rfl, .inr ⟨rfl, ?_, fun d hd => set_cls_of_ne hd⟩⟩
      rw [set_cls_self]

end ClassTable

section Counts

variable {s s' : ClassedWindows} {store : WindowStore} {w c pcls : Int} {n : Nat}

namespace ClassedWindows

/-- Other records of the same windows and the heap are of no account. -/
theorem Counted.congr (h : s.Counted) (hlive : s'.live = s.live) (hpcls : s'.pcls = s.pcls)
    (hclasses : s'.classes = s.classes) : s'.Counted where
  nodup := by rw [hclasses]; exact h.nodup
  null := by rw [hclasses]; exact h.null
  noDialog := by rw [hclasses]; exact h.noDialog
  registered w hw := by
    rw [hpcls, hclasses]
    exact h.registered w (hlive ▸ hw)
  count c hc := by
    rw [hclasses] at hc ⊢
    unfold windowsOf
    rw [hlive, hpcls]
    exact h.count c hc

/-- A new window of a class. -/
theorem Counted.hold (h : s.Counted) (hw : w ≠ 0) (hlive : store.live = insert w s.live)
    (hnew : w ∉ s.live) (hpcls : pcls = 0 ∨ pcls ∈ s.classes.list) :
    (s.hold store w pcls).Counted := by
  have hother : ∀ v ∈ s.live, Function.update s.pcls w pcls v = s.pcls v := fun v hv =>
    Function.update_of_ne (fun heq : v = w => hnew (heq ▸ hv)) pcls s.pcls
  unfold ClassedWindows.hold
  rw [if_neg hw]
  refine ⟨?nodup, ?null, ?noDialog, ?registered, ?count⟩
  case nodup => rw [ClassTable.addRef_list]; exact h.nodup
  case null => rw [ClassTable.addRef_list]; exact h.null
  case noDialog => rw [ClassTable.addRef_systemClasses]; exact h.noDialog
  case registered =>
    intro v hv
    rw [ClassTable.addRef_list]
    obtain rfl | hold := Finset.mem_insert.mp (hlive ▸ hv)
    · show Function.update s.pcls v pcls v = 0 ∨ Function.update s.pcls v pcls v ∈ s.classes.list
      rw [Function.update_self]
      exact hpcls
    · show Function.update s.pcls w pcls v = 0 ∨ Function.update s.pcls w pcls v ∈ s.classes.list
      rw [hother v hold]
      exact h.registered v hold
  case count =>
    intro c hc
    rw [ClassTable.addRef_list] at hc
    have hold : s.live.filter (fun v => Function.update s.pcls w pcls v = c) = s.windowsOf c :=
      Finset.filter_congr fun v hv => by rw [hother v hv]
    have hcard : (store.live.filter fun v => Function.update s.pcls w pcls v = c).card =
        (s.windowsOf c).card + if c = pcls then 1 else 0 := by
      rw [hlive, Finset.filter_insert, Function.update_self, hold]
      by_cases heq : pcls = c
      · rw [if_pos heq, if_pos heq.symm, Finset.card_insert_of_notMem]
        exact fun hmem => hnew (Finset.mem_filter.mp hmem).1
      · rw [if_neg heq, if_neg (Ne.symm heq), Nat.add_zero]
    have hzero : c ≠ 0 := fun heq => h.null (heq ▸ hc)
    have hcount : ((s.classes.userClassAddRef pcls).cls c).cWndReferenceCount =
        (s.classes.cls c).cWndReferenceCount + if c = pcls then 1 else 0 := by
      by_cases hnone : pcls = 0
      · unfold ClassTable.userClassAddRef
        rw [if_pos hnone, if_neg fun heq => hzero (heq.trans hnone), Nat.add_zero]
      · exact ClassTable.addRef_count hnone c
    exact hcount.trans ((congrArg (· + if c = pcls then 1 else 0) (h.count c hc)).trans hcard.symm)

/-- A call that makes a window, or none. -/
theorem Counted.holdAny (h : s.Counted) (hpcls : pcls = 0 ∨ pcls ∈ s.classes.list)
    (hcases : w = 0 ∧ store.live = s.live ∨
      w ≠ 0 ∧ w ∉ s.live ∧ store.live = insert w s.live) :
    (s.hold store w pcls).Counted := by
  obtain ⟨hzero, hlive⟩ | ⟨hw, hnew, hlive⟩ := hcases
  · unfold ClassedWindows.hold
    rw [if_pos hzero]
    exact h.congr hlive rfl rfl
  · exact h.hold hw hlive hnew hpcls

theorem modify_same_live {s s' : WindowStore} {f : Wnd → Wnd} (h : s.modify w f = some s') :
    s'.live = s.live := by
  unfold WindowStore.modify at h
  split at h
  · obtain rfl := Option.some.inj h
    rfl
  · cases h

/-- What is freed at the end of `user_window_destroy`. -/
theorem release_live {s s' : WindowStore} (h : s.release w = some s') :
    w ∈ s.live ∧ s'.live = s.live.erase w := by
  obtain ⟨s₁, h₁, h⟩ := Option.bind_eq_some_iff.mp h
  obtain ⟨wnd, hread, h⟩ := Option.bind_eq_some_iff.mp h
  have hlive := (Relinked.unlink h₁).live
  obtain rfl := Option.some.inj h
  have hmem : w ∈ s₁.live := by
    unfold WindowStore.read at hread
    split at hread
    · assumption
    · cases hread
  exact ⟨hlive ▸ hmem, congrArg (Finset.erase · w) hlive⟩

/-- A window that is freed gives its reference back. -/
theorem Counted.releaseOf (h : s.Counted) (hrelease : s.releaseOf w = some s') : s'.Counted := by
  obtain ⟨store, hstore, heq⟩ := Option.bind_eq_some_iff.mp hrelease
  obtain rfl := Option.some.inj heq
  obtain ⟨hw, hlive⟩ := release_live hstore
  refine ⟨?nodup, ?null, ?noDialog, ?registered, ?count⟩
  case nodup => rw [ClassTable.release_list]; exact h.nodup
  case null => rw [ClassTable.release_list]; exact h.null
  case noDialog => rw [ClassTable.release_systemClasses]; exact h.noDialog
  case registered =>
    intro v hv
    rw [ClassTable.release_list]
    exact h.registered v (Finset.mem_of_mem_erase (hlive ▸ hv))
  case count =>
    intro c hc
    rw [ClassTable.release_list] at hc
    have hzero : c ≠ 0 := fun heq => h.null (heq ▸ hc)
    have hcard : (store.live.filter fun v => s.pcls v = c).card =
        (s.windowsOf c).card - if c = s.pcls w then 1 else 0 := by
      rw [hlive, Finset.filter_erase]
      by_cases heq : c = s.pcls w
      · rw [if_pos heq, Finset.card_erase_of_mem (Finset.mem_filter.mpr ⟨hw, heq.symm⟩)]
        rfl
      · rw [if_neg heq, Nat.sub_zero, Finset.erase_eq_of_notMem]
        · rfl
        · exact fun hmem => heq (Finset.mem_filter.mp hmem).2.symm
    have hcount : ((s.classes.userClassRelease (s.pcls w)).cls c).cWndReferenceCount =
        (s.classes.cls c).cWndReferenceCount - if c = s.pcls w then 1 else 0 := by
      by_cases hnone : s.pcls w = 0
      · unfold ClassTable.userClassRelease
        rw [if_neg fun hpos => hpos.1 hnone, if_neg fun heq => hzero (heq.trans hnone),
          Nat.sub_zero]
      · exact ClassTable.release_count hnone c
    exact hcount.trans
      ((congrArg (· - if c = s.pcls w then 1 else 0) (h.count c hc)).trans hcard.symm)

/-- The loop over the children keeps what destroying one keeps. -/
theorem Counted.whileChildOf {destroy : ClassedWindows → Int → Option ClassedWindows}
    (hdestroy : ∀ {s s' : ClassedWindows} {v : Int}, s.Counted → destroy s v = some s' → s'.Counted)
    (h : s.Counted) (hloop : ClassedWindows.whileChildOf destroy w n s = some s') : s'.Counted := by
  induction n generalizing s with
  | zero => cases hloop
  | succ n ih =>
    unfold ClassedWindows.whileChildOf at hloop
    obtain ⟨wnd, -, hloop⟩ := Option.bind_eq_some_iff.mp hloop
    split at hloop
    · obtain rfl := Option.some.inj hloop
      exact h
    · obtain ⟨s₁, h₁, hrest⟩ := Option.bind_eq_some_iff.mp hloop
      exact ih (hdestroy h h₁) hrest

/-- Destroying a window with all windows below it. -/
theorem Counted.destroyOf (h : s.Counted) (hdestroy : s.userWindowDestroyOf n w = some s') :
    s'.Counted := by
  induction n generalizing s s' w with
  | zero => cases hdestroy
  | succ n ih =>
    unfold userWindowDestroyOf at hdestroy
    split_ifs at hdestroy with hzero hdesktop
    · obtain rfl := Option.some.inj hdestroy
      exact h
    · obtain rfl := Option.some.inj hdestroy
      exact h
    · obtain ⟨store, hmodify, hdestroy⟩ := Option.bind_eq_some_iff.mp hdestroy
      obtain ⟨s₁, hloop, hrelease⟩ := Option.bind_eq_some_iff.mp hdestroy
      have hmarked : ({ s with toWindowStore := store } : ClassedWindows).Counted :=
        h.congr (modify_same_live hmodify) rfl rfl
      exact (hmarked.whileChildOf (fun hs hcall => ih hs hcall) hloop).releaseOf hrelease

/-- A class that is registered has no windows yet. -/
theorem Counted.register {addr : UInt64} {cls : Cls} (h : s.Counted)
    (hasked : s.Asked (.register c addr cls))
    (hcall : s.classCall n (.register c addr cls) = some s') : s'.Counted := by
  obtain ⟨hc, hnew, hfresh⟩ := hasked
  dsimp only [classCall] at hcall
  obtain ⟨⟨classes, heap, atom⟩, hregister⟩ :
    ∃ r, s.classes.userClassRegister s.heap c addr cls = r := ⟨_, rfl⟩
  rw [hregister] at hcall
  obtain rfl := Option.some.inj hcall
  obtain ⟨hsystem, ⟨hlist, hcls⟩ | ⟨hlist, hcount, hcls⟩⟩ := ClassTable.register_cases hregister
  · refine ⟨hlist ▸ h.nodup, hlist ▸ h.null, (congrFun hsystem _).trans h.noDialog, ?_, ?_⟩
    · exact fun w hw => (h.registered w hw).imp_right fun hin => hlist ▸ hin
    · intro d hd
      exact (congrArg (fun cls => (cls d).cWndReferenceCount) hcls).trans (h.count d (hlist ▸ hd))
  · have hnone : s.windowsOf c = ∅ := by
      apply Finset.filter_eq_empty_iff.mpr
      intro w hw heq
      exact (h.registered w hw).elim (fun hzero => hc (heq.symm.trans hzero))
        fun hin => hnew (heq ▸ hin)
    refine ⟨hlist ▸ List.nodup_cons.mpr ⟨hnew, h.nodup⟩, ?_,
      (congrFun hsystem _).trans h.noDialog, ?_, ?_⟩
    · rw [hlist]
      exact fun hin => (List.mem_cons.mp hin).elim (fun heq => hc heq.symm) h.null
    · exact fun w hw => (h.registered w hw).imp_right fun hin => hlist ▸ List.mem_cons_of_mem c hin
    · intro d hd
      obtain rfl | hold := List.mem_cons.mp (hlist ▸ hd)
      · exact (hcount.trans hfresh).trans (congrArg Finset.card hnone).symm
      · have hne : d ≠ c := fun heq => hnew (heq ▸ hold)
        exact (congrArg Cls.cWndReferenceCount (hcls d hne)).trans (h.count d hold)

/-- A class without references has no windows. -/
theorem Counted.unused (h : s.Counted) (hc : c ∈ s.classes.list)
    (hcount : (s.classes.cls c).cWndReferenceCount = 0) (hw : w ∈ s.live) : s.pcls w ≠ c := by
  intro heq
  rw [h.count c hc] at hcount
  have hmem : w ∈ s.windowsOf c := Finset.mem_filter.mpr ⟨hw, heq⟩
  rw [Finset.card_eq_zero.mp hcount] at hmem
  exact absurd hmem (Finset.notMem_empty w)

theorem Counted.unregister {name : WideName} {hInstance : UInt32} (h : s.Counted)
    (hcall : s.classCall n (.unregister name hInstance) = some s') : s'.Counted := by
  obtain rfl := Option.some.inj hcall
  obtain ⟨-, hsame⟩ | ⟨c, front, back, -, hcount, hlist, hafter⟩ :=
    ClassTable.unregister_cases s.classes s.heap name hInstance
  · exact h.congr rfl rfl hsame
  · have hsub : (front ++ back).Sublist s.classes.list := by
      rw [hlist]
      exact List.Sublist.append_left (List.sublist_cons_self c back) front
    have hin : c ∈ s.classes.list := by
      rw [hlist]
      exact List.mem_append_right front List.mem_cons_self
    have hkept : ({ s with classes := { s.classes with list := front ++ back } } :
        ClassedWindows).Counted := by
      refine ⟨h.nodup.sublist hsub, fun hz => h.null (hsub.mem hz), h.noDialog, ?_,
        fun d hd => h.count d (hsub.mem hd)⟩
      intro w hw
      refine (h.registered w hw).imp_right fun hold => ?_
      rw [hlist, List.mem_append, List.mem_cons] at hold
      obtain hfront | heq | hback := hold
      · exact List.mem_append_left back hfront
      · exact absurd heq (h.unused hin hcount hw)
      · exact List.mem_append_right front hback
    exact hkept.congr rfl rfl hafter

/-- The desktop has no class. -/
theorem Counted.initOf {mem : WndMemory} (h : s.Counted) (hnew : mem.wnd ∉ s.live) :
    (s.userWindowInitOf mem).Counted := by
  have hdesktop : s.classes.userClassGetSystemClass iclsDialog = 0 := h.noDialog
  unfold userWindowInitOf WindowStore.userWindowInit
  dsimp only
  rw [hdesktop]
  apply h.holdAny (.inl rfl)
  rcases createInternal_cases s.toWindowStore mem
    { pcls := s.classOf 0, style := wsPopup ||| wsVisible ||| wsClipChildren, cx := 800, cy := 600 }
    with ⟨handles, hnone⟩ | ⟨handles, hwnd, hzero, hsome⟩
  · rw [hnone]
    exact .inl ⟨rfl, rfl⟩
  · rw [hsome]
    exact .inr ⟨hzero, hnew, (place_spec _ _ _).1⟩

theorem Counted.createOf {mem : WndMemory} {args : WndArgs} {parent owner : Int} (h : s.Counted)
    (hnew : mem.wnd ∉ s.live) (hpcls : pcls = 0 ∨ pcls ∈ s.classes.list)
    (hcreate : s.userWindowCreateOf mem pcls args parent owner = some (s', w)) : s'.Counted := by
  obtain ⟨⟨store, v⟩, hstore, heq⟩ := Option.bind_eq_some_iff.mp hcreate
  obtain ⟨rfl, rfl⟩ := Prod.mk.inj (Option.some.inj heq)
  apply h.holdAny hpcls
  obtain ⟨hzero, -, handles, rfl⟩ | ⟨hmem, hne, -, handles, hwnd, hlinks⟩ := create_cases hstore
  · exact .inl ⟨hzero, rfl⟩
  · exact .inr ⟨hne, hmem ▸ hnew, hlinks.live.trans (place_spec _ _ _).1⟩

theorem Counted.call {op : ClassOp} (h : s.Counted) (hasked : s.Asked op)
    (hcall : s.classCall n op = some s') : s'.Counted := by
  cases op with
  | register c addr cls => exact h.register hasked hcall
  | unregister name hInstance => exact h.unregister hcall
  | init mem =>
    obtain rfl := Option.some.inj hcall
    exact h.initOf hasked
  | create mem pcls args parent owner =>
    obtain ⟨⟨s₁, w⟩, hcreate, rfl⟩ := Option.map_eq_some_iff.mp hcall
    exact h.createOf hasked.1 hasked.2 hcreate
  | linkChild parent child =>
    obtain ⟨store, hstore, rfl⟩ := Option.map_eq_some_iff.mp hcall
    exact h.congr (Relinked.linkChild hstore).live rfl rfl
  | unlink wnd =>
    obtain ⟨store, hstore, rfl⟩ := Option.map_eq_some_iff.mp hcall
    exact h.congr (Relinked.unlink hstore).live rfl rfl
  | destroy wnd => exact h.destroyOf hcall

end ClassedWindows

/-- The classes before there are windows. -/
structure ClassTable.Unused (t : ClassTable) : Prop where
  nodup : t.list.Nodup
  null : 0 ∉ t.list
  noDialog : t.systemClasses iclsDialog = 0
  count : ∀ c ∈ t.list, (t.cls c).cWndReferenceCount = 0

theorem ClassTable.Unused.registerSystemClass {t : ClassTable} {d : SystemClassDef}
    (h : t.Unused) (hc : c ≠ 0) (hnew : c ∉ t.list) (hd : d.icls ≠ iclsDialog) :
    (t.registerSystemClass d c).Unused := by
  refine ⟨List.nodup_cons.mpr ⟨hnew, h.nodup⟩, ?null, ?noDialog, ?count⟩
  case null => exact fun hin => (List.mem_cons.mp hin).elim (fun heq => hc heq.symm) h.null
  case noDialog =>
    unfold ClassTable.registerSystemClass
    dsimp only
    split
    · rw [Function.update_of_ne (Ne.symm hd)]
      exact h.noDialog
    · exact h.noDialog
  case count =>
    intro e he
    unfold ClassTable.registerSystemClass
    dsimp only
    by_cases heq : e = c
    · rw [heq, Function.update_self]
    · rw [Function.update_of_ne heq]
      exact h.count e ((List.mem_cons.mp he).resolve_left heq)

/-- Memory that `calloc` gives is not given twice. -/
theorem ClassTable.Unused.registerSystemClasses {t : ClassTable} {ds : List SystemClassDef}
    {blocks : List Int} (h : t.Unused) (hblocks : (blocks.takeWhile (· ≠ 0)).Nodup)
    (hnew : ∀ c ∈ blocks.takeWhile (· ≠ 0), c ∉ t.list) (hds : ∀ d ∈ ds, d.icls ≠ iclsDialog) :
    (t.userClassRegisterSystemClasses ds blocks).1.Unused := by
  induction ds generalizing t blocks with
  | nil => exact h
  | cons d ds ih =>
    unfold ClassTable.userClassRegisterSystemClasses
    by_cases hblock : blocks.headD 0 = 0
    · rw [if_pos hblock]
      exact h
    · rw [if_neg hblock]
      cases blocks with
      | nil => exact absurd rfl hblock
      | cons c blocks =>
        have hc : c ≠ 0 := hblock
        have htake : (c :: blocks).takeWhile (· ≠ 0) = c :: blocks.takeWhile (· ≠ 0) :=
          List.takeWhile_cons_of_pos (decide_eq_true hc)
        rw [htake] at hblocks hnew
        obtain ⟨hapart, hrest⟩ := List.nodup_cons.mp hblocks
        apply ih (h.registerSystemClass hc (hnew c List.mem_cons_self) (hds d List.mem_cons_self))
          hrest
        · intro e he hin
          obtain rfl | hold := List.mem_cons.mp hin
          · exact hapart he
          · exact hnew e (List.mem_cons_of_mem c he) hold
        · exact fun e he => hds e (List.mem_cons_of_mem d he)

theorem counted_of_reached (h : ClassReached s) : s.Counted := by
  induction h with
  | init blocks hblocks hempty hclasses =>
    have hunused : (userClassInit blocks).1.Unused := by
      apply ClassTable.Unused.registerSystemClasses _ hblocks
      · exact fun c _ => List.not_mem_nil
      · decide
      · exact ⟨List.nodup_nil, List.not_mem_nil, rfl, fun c hc => absurd hc List.not_mem_nil⟩
    rw [← hclasses] at hunused
    refine ⟨hunused.nodup, hunused.null, hunused.noDialog, ?_, ?_⟩
    · intro w hw
      rw [hempty] at hw
      exact absurd hw (Finset.notMem_empty w)
    · intro c hc
      unfold ClassedWindows.windowsOf
      rw [hempty]
      exact hunused.count c hc
  | call hs hasked hcall ih => exact ih.call hasked hcall

/-- The count of every class is the number of live windows of it, and no class that a live window
points to is freed. -/
theorem classReached_counts (h : ClassReached s) :
    (∀ c ∈ s.classes.list, (s.classes.cls c).cWndReferenceCount = (s.windowsOf c).card) ∧
      ∀ name hInstance c, (s.classes.userClassUnregister s.heap name hInstance).2.2 = some c →
        ∀ w ∈ s.live, s.pcls w ≠ c := by
  have hcounted := counted_of_reached h
  refine ⟨hcounted.count, ?_⟩
  intro name hInstance c hfreed w hw
  obtain ⟨hnone, -⟩ | ⟨d, front, back, hsome, hcount, hlist, -⟩ :=
    ClassTable.unregister_cases s.classes s.heap name hInstance
  · rw [hnone] at hfreed
    cases hfreed
  · obtain rfl : d = c := Option.some.inj (hsome.symm.trans hfreed)
    apply hcounted.unused _ hcount hw
    rw [hlist]
    exact List.mem_append_right front List.mem_cons_self

end Counts

/-- A button on the desktop. -/
theorem classReached_counts_button :
    let s₀ : ClassedWindows := { emptyStore with
      pcls := fun _ => 0, classes := (userClassInit [1, 2, 3, 4, 5, 6, 7, 8]).1 }
    let s₁ := (s₀.classCall 0 (.init ⟨10, true⟩)).getD s₀
    let s₂ := (s₁.classCall 0 (.create ⟨11, true⟩ 1 {} 0 0)).getD s₁
    11 ∈ s₂.live ∧ s₂.pcls 11 = 1 ∧
      (s₂.classes.cls 1).cWndReferenceCount = (s₂.windowsOf 1).card := by
  intro s₀ s₁ s₂
  have h₀ : ClassReached s₀ := .init [1, 2, 3, 4, 5, 6, 7, 8] (by decide) rfl rfl
  have h₁ : ClassReached s₁ := 
    @ClassReached.call s₀ s₁ (.init ⟨10, true⟩) 0 h₀ (Finset.notMem_empty 10) rfl
  have hsome : (s₁.classCall 0 (.create ⟨11, true⟩ 1 {} 0 0)).isSome = true := by
    decide +kernel
  have h₂ : ClassReached s₂ :=
    @ClassReached.call s₁ s₂ (.create ⟨11, true⟩ 1 {} 0 0) 0 h₁
      ⟨by decide +kernel, .inr (by decide +kernel)⟩
      (by rw [Option.getD_of_ne_none (Option.isSome_iff_ne_none.mp hsome)])
  exact ⟨by decide +kernel, by decide +kernel, (classReached_counts h₂).1 1 (by decide +kernel)⟩

end Wbox.User
