import Wbox.Lib.SignedWord
import Wbox.Lib.Trace
import Wbox.User.WindowTree

/-!
# The guest's handle table

The guest checks window handles against its own copy of the handle table
(`src/user/user_handle_table.c:305–341`). An entry of the copy is written when a window gets its
guest `WND`, and is never cleared: the copy says the same as the table until a window is destroyed,
or is made when the desktop heap is full.
-/

namespace Wbox.User

open Wbox.Lib Wbox.Vm

/-- An entry of the guest's table: what is in its 12 bytes but the owner and the flags. -/
structure GuestHandleEntry where
  ptr : UInt32
  type : UInt8
  generation : UInt16
  deriving DecidableEq, Repr

/-- Entry `i` of a guest's table. -/
def guestEntryOf (bytes : Nat → UInt8) (i : Nat) : GuestHandleEntry where
  ptr := loadWord bytes (i * guestHandleEntrySize)
  type := bytes (i * guestHandleEntrySize + 8)
  generation := loadHalf bytes (i * guestHandleEntrySize + 10)

namespace WindowStore

/-- Entry `i` of the guest's table. -/
def guestEntry (s : WindowStore) (i : Nat) : GuestHandleEntry := guestEntryOf s.guestEntries i

/-- The guest takes a handle for that of a window. -/
def GuestAccepts (s : WindowStore) (handle : UInt32) : Prop :=
  userHandleIndex handle < userMaxHandles ∧
    (s.guestEntry (userHandleIndex handle)).type = UserHandleType.window.value ∧
    (s.guestEntry (userHandleIndex handle)).generation = userHandleGen handle

/-- The guest's entry of a window is that of the table. -/
structure EntryMirrored (s : WindowStore) (i : Nat) : Prop where
  type : (s.guestEntry i).type = (s.handles.entries i).type.value
  generation : (s.guestEntry i).generation = (s.handles.entries i).generation
  ptr : (s.guestEntry i).ptr = (s.wnd (s.handles.entries i).ptr).guestWndVa

/-- The guest's table mirrors the handle table. -/
structure MirrorsHost (s : WindowStore) : Prop where
  used : ∀ i, 1 ≤ i → i < userMaxHandles → (s.handles.entries i).type ≠ .free →
    (s.wnd (s.handles.entries i).ptr).guestWndVa ≠ 0 → s.EntryMirrored i
  free : ∀ i, 1 ≤ i → i < userMaxHandles → (s.handles.entries i).type = .free →
    (s.guestEntry i).type = UserHandleType.free.value
  accepts : ∀ handle, s.GuestAccepts handle ↔ userHandleGetTyped s.handles handle .window ≠ 0

/-- A call for which `calloc` gives memory that is not in use. -/
def windowStep (n : Nat) (s : WindowStore) (op : WindowOp) : Option WindowStore :=
  match op with
  | .create mem _ _ _ => if mem.wnd ∈ s.live then none else s.windowCall n op
  | _ => s.windowCall n op

/-- The desktop heap has room for the guest `WND` of a window of a class. -/
def HasRoom (s : WindowStore) (pcls : Option WndClass) : Prop :=
  let cbExtra := (pcls.map WndClass.cbWndExtra).getD 0
  ∃ heap, s.heap = some heap ∧ (desktopHeapAlloc heap
    (if cbExtra > 0 then wndBaseSize + cbExtra.toUInt32 else wndBaseSize)).2 ≠ 0

/-- There is memory and a handle for a window. -/
structure Makes (s : WindowStore) (mem : WndMemory) (pcls : Option WndClass) : Prop where
  wnd : mem.wnd ≠ 0
  handle : s.handles.nextEntry ≠ none
  extraBytes : (pcls.map WndClass.cbWndExtra).getD 0 > 0 → mem.extraBytes = true

/-- No window is destroyed, and there is room in the desktop heap for each one that is made. -/
def MirrorKept (s : WindowStore) : WindowOp → Prop
  | .create mem args _ _ => s.Makes mem args.pcls → s.HasRoom args.pcls
  | .destroy wnd => wnd = 0 ∨ wnd = s.desktop
  | _ => True

end WindowStore

/-- No windows, and the guest's table as `NtUserProcessConnect` maps it. -/
def connectedStore (wnd : Int → Wnd) (heap : Option DesktopHeap) : WindowStore where
  wnd
  live := ∅
  desktop := 0
  handles := userHandleTableInit
  guestEntries _ := 0
  heap

section Frames

/-- Windows with the same handles and guest `WND`s. -/
structure SameHandles (s s' : WindowStore) : Prop where
  handles : s'.handles = s.handles
  guestEntries : s'.guestEntries = s.guestEntries
  live : s'.live = s.live
  desktop : s'.desktop = s.desktop
  hwnd : ∀ v, (s'.wnd v).hwnd = (s.wnd v).hwnd
  guestWndVa : ∀ v, (s'.wnd v).guestWndVa = (s.wnd v).guestWndVa

/-- A change of a window that leaves its handle and its guest `WND`. -/
def KeepsHandle (f : Wnd → Wnd) : Prop :=
  ∀ wnd, (f wnd).hwnd = wnd.hwnd ∧ (f wnd).guestWndVa = wnd.guestWndVa

variable {s s' s'' : WindowStore} {w v : Int} {f : Wnd → Wnd}

theorem SameHandles.refl (s : WindowStore) : SameHandles s s :=
  ⟨rfl, rfl, rfl, rfl, fun _ => rfl, fun _ => rfl⟩

theorem SameHandles.trans (h : SameHandles s s') (h' : SameHandles s' s'') : SameHandles s s'' where
  handles := h'.handles.trans h.handles
  guestEntries := h'.guestEntries.trans h.guestEntries
  live := h'.live.trans h.live
  desktop := h'.desktop.trans h.desktop
  hwnd v := (h'.hwnd v).trans (h.hwnd v)
  guestWndVa v := (h'.guestWndVa v).trans (h.guestWndVa v)

theorem sameHandles_set (hf : KeepsHandle f) : SameHandles s (s.set w f) := by
  have hwnd : ∀ v, (s.set w f).wnd v = s.wnd v ∨ (s.set w f).wnd v = f (s.wnd v) := by
    intro v
    by_cases hv : v = w
    · subst hv
      exact .inr (Function.update_self v _ s.wnd)
    · exact .inl (Function.update_of_ne hv _ s.wnd)
  refine ⟨rfl, rfl, rfl, rfl, fun v => ?_, fun v => ?_⟩
  · rcases hwnd v with h | h
    · rw [h]
    · rw [h, (hf _).1]
  · rcases hwnd v with h | h
    · rw [h]
    · rw [h, (hf _).2]

theorem sameHandles_modify (h : s.modify w f = some s') (hf : KeepsHandle f) :
    SameHandles s s' := by
  unfold WindowStore.modify at h
  split at h
  · cases h
    exact sameHandles_set hf
  · cases h

theorem sameHandles_modifyAt (h : s.modifyAt w f = some s') (hf : KeepsHandle f) :
    SameHandles s s' := by
  unfold WindowStore.modifyAt at h
  split at h
  · cases h
    exact .refl s
  · exact sameHandles_modify h hf

theorem sameHandles_unlinkFirst {p x : Int} (h : s.unlinkFirst w p x = some s') :
    SameHandles s s' := by
  unfold WindowStore.unlinkFirst at h
  split at h
  · cases h
    exact .refl s
  · obtain ⟨wnd, -, hrest⟩ := Option.bind_eq_some_iff.mp h
    split at hrest
    · exact sameHandles_modify hrest fun _ => ⟨rfl, rfl⟩
    · cases hrest
      exact .refl s

theorem sameHandles_updateHierarchy (h : s.guestWndUpdateHierarchy w = some s') :
    SameHandles s s' := by
  unfold WindowStore.guestWndUpdateHierarchy at h
  split at h
  · cases h
    exact .refl s
  · obtain ⟨host, -, h⟩ := Option.bind_eq_some_iff.mp h
    split at h
    · cases h
      exact .refl s
    · obtain ⟨nextVa, -, h⟩ := Option.bind_eq_some_iff.mp h
      obtain ⟨prevVa, -, h⟩ := Option.bind_eq_some_iff.mp h
      obtain ⟨parentVa, -, h⟩ := Option.bind_eq_some_iff.mp h
      obtain ⟨childVa, -, h⟩ := Option.bind_eq_some_iff.mp h
      obtain ⟨ownerVa, -, h⟩ := Option.bind_eq_some_iff.mp h
      cases h
      exact ⟨rfl, rfl, rfl, rfl, fun _ => rfl, fun _ => rfl⟩

/-- `user_window_unlink` leaves the handles. -/
theorem sameHandles_unlink (h : s.userWindowUnlink w = some s') : SameHandles s s' := by
  unfold WindowStore.userWindowUnlink at h
  split at h
  · cases h
    exact .refl s
  · obtain ⟨old, -, h⟩ := Option.bind_eq_some_iff.mp h
    obtain ⟨s₁, h₁, h⟩ := Option.bind_eq_some_iff.mp h
    obtain ⟨wnd₁, -, h⟩ := Option.bind_eq_some_iff.mp h
    obtain ⟨s₂, h₂, h⟩ := Option.bind_eq_some_iff.mp h
    obtain ⟨wnd₂, -, h⟩ := Option.bind_eq_some_iff.mp h
    obtain ⟨s₃, h₃, h⟩ := Option.bind_eq_some_iff.mp h
    obtain ⟨s₄, h₄, h⟩ := Option.bind_eq_some_iff.mp h
    obtain ⟨s₅, h₅, h⟩ := Option.bind_eq_some_iff.mp h
    obtain ⟨s₆, h₆, h⟩ := Option.bind_eq_some_iff.mp h
    obtain ⟨s₇, h₇, h⟩ := Option.bind_eq_some_iff.mp h
    have hprev := sameHandles_modifyAt h₁ fun _ => ⟨rfl, rfl⟩
    have hnext := sameHandles_modifyAt h₂ fun _ => ⟨rfl, rfl⟩
    have hclear := sameHandles_modify h₄ fun _ => ⟨rfl, rfl⟩
    have hlinks := (hprev.trans hnext).trans ((sameHandles_unlinkFirst h₃).trans hclear)
    have hguest := ((sameHandles_updateHierarchy h₅).trans (sameHandles_updateHierarchy h₆)).trans
      ((sameHandles_updateHierarchy h₇).trans (sameHandles_updateHierarchy h))
    exact hlinks.trans hguest

/-- `user_window_link_child` leaves the handles. -/
theorem sameHandles_linkChild {p c : Int} (h : s.userWindowLinkChild p c = some s') :
    SameHandles s s' := by
  unfold WindowStore.userWindowLinkChild at h
  split at h
  · cases h
    exact .refl s
  · obtain ⟨s₁, h₁, h⟩ := Option.bind_eq_some_iff.mp h
    obtain ⟨s₂, h₂, h⟩ := Option.bind_eq_some_iff.mp h
    obtain ⟨par, -, h⟩ := Option.bind_eq_some_iff.mp h
    obtain ⟨s₃, h₃, h⟩ := Option.bind_eq_some_iff.mp h
    obtain ⟨s₄, h₄, h⟩ := Option.bind_eq_some_iff.mp h
    obtain ⟨s₅, h₅, h⟩ := Option.bind_eq_some_iff.mp h
    obtain ⟨s₆, h₆, h⟩ := Option.bind_eq_some_iff.mp h
    obtain ⟨s₇, h₇, h⟩ := Option.bind_eq_some_iff.mp h
    have hparent := sameHandles_modify h₂ fun _ => ⟨rfl, rfl⟩
    have hsiblings := sameHandles_modify h₃ fun _ => ⟨rfl, rfl⟩
    have hfirst := sameHandles_modifyAt h₄ fun _ => ⟨rfl, rfl⟩
    have hchild := sameHandles_modify h₆ fun _ => ⟨rfl, rfl⟩
    have hlinks := ((sameHandles_unlink h₁).trans hparent).trans (hsiblings.trans hfirst)
    have hguest := ((sameHandles_updateHierarchy h₅).trans hchild).trans
      ((sameHandles_updateHierarchy h₇).trans (sameHandles_updateHierarchy h))
    exact hlinks.trans hguest

end Frames

section Table

variable {t : UserHandleTable} {k : Nat}

/-- The link to the next free entry when the entries from `k` on are free. -/
def freeLink (k : Nat) : Int := if k = userMaxHandles then -1 else k

theorem intOfPtr_freeLink (hk : k ≤ userMaxHandles) : intOfPtr (freeLink k) = freeLink k := by
  unfold intOfPtr freeLink userMaxHandles at *
  split
  · decide
  · exact bmod_of_fits (by omega) (by omega)

theorem userMakeHandle_ne_zero {g : UInt16} (hk : k < userMaxHandles) (hpos : 1 ≤ k) :
    userMakeHandle k g ≠ 0 := by
  intro h
  have hnat := userMakeHandle_toNat (g := g) hk
  rw [h] at hnat
  simp at hnat
  omega

/-- The first free entry is taken. -/
theorem alloc_at (hk : k < userMaxHandles) (hfirst : t.firstFree = k) (ptr : Int) :
    userHandleAlloc t ptr .window 0 =
      ({ entries := Function.update t.entries k
          { t.entries k with ptr, owner := 0, type := .window }
         firstFree := intOfPtr (t.entries k).ptr
         handleCount := t.handleCount + 1 },
        userMakeHandle k (t.entries k).generation) := by
  unfold userHandleAlloc
  rw [if_neg (by decide), hfirst, if_neg (by omega)]
  rfl

/-- An entry in use is freed by its handle. -/
theorem free_at (hk : k < userMaxHandles) (hpos : 1 ≤ k) (hused : (t.entries k).type ≠ .free) :
    userHandleFree t (userMakeHandle k (t.entries k).generation) =
      ({ entries := Function.update t.entries k
          { ptr := t.firstFree, owner := 0, type := .free
            generation := (t.entries k).generation + 1 }
         firstFree := k
         handleCount := t.handleCount - 1 }, true) := by
  unfold userHandleFree
  rw [userHandleIndex_make hk, userHandleGen_make hk]
  dsimp only
  rw [if_neg (userMakeHandle_ne_zero hk hpos), if_neg (by omega), if_neg (by simp), if_neg hused]
  rfl

/-- The handles of windows that the host takes. -/
theorem getTyped_iff {handle : UInt32} (hzero : (t.entries 0).ptr = 0) :
    userHandleGetTyped t handle .window ≠ 0 ↔ userHandleIndex handle < userMaxHandles ∧
      (t.entries (userHandleIndex handle)).type = .window ∧
      (t.entries (userHandleIndex handle)).generation = userHandleGen handle ∧
      (t.entries (userHandleIndex handle)).ptr ≠ 0 := by
  unfold userHandleGetTyped
  dsimp only
  by_cases hnull : handle = 0
  · have hindex : userHandleIndex handle = 0 := hnull ▸ rfl
    rw [if_pos ⟨hnull, rfl⟩, hindex]
    exact ⟨fun h => absurd hzero h, fun h => h.2.2.2⟩
  · rw [if_neg fun h => hnull h.1]
    by_cases hindex : userHandleIndex handle < userMaxHandles
    · rw [if_neg (by omega)]
      by_cases hgen : (t.entries (userHandleIndex handle)).generation = userHandleGen handle
      · rw [if_neg (not_not.mpr hgen)]
        by_cases htype : (t.entries (userHandleIndex handle)).type = .window
        · rw [if_neg (not_not.mpr htype)]
          exact ⟨fun h => ⟨hindex, htype, hgen, h⟩, fun h => h.2.2.2⟩
        · rw [if_pos htype]
          exact ⟨fun h => absurd rfl h, fun h => absurd h.2.1 htype⟩
      · rw [if_pos hgen]
        exact ⟨fun h => absurd rfl h, fun h => absurd h.2.2.1 hgen⟩
    · rw [if_pos (by omega)]
      exact ⟨fun h => absurd rfl h, fun h => absurd h.1 hindex⟩

/-- What `user_handle_set_guest_ptr` writes for a handle in use. -/
theorem guestEntryOf_set {handle : UInt32} (h : Live t handle) (bytes : Nat → UInt8)
    (ptr : UInt32) (i : Nat) :
    guestEntryOf (userHandleSetGuestPtr t bytes handle ptr) i =
      if i = userHandleIndex handle then
        ⟨ptr, (t.entries i).type.value, userHandleGen handle⟩
      else guestEntryOf bytes i := by
  unfold userHandleSetGuestPtr
  dsimp only
  rw [if_neg h.ne_zero, if_neg (by have := h.index; omega), if_neg (by simp [h.generation, h.used])]
  generalize userHandleIndex handle = j
  unfold guestEntryOf guestHandleEntrySize
  split
  · next hij =>
    subst hij
    congr 1
    · rw [@loadWord_congr (storeWord bytes (i * 12 + 0) ptr)]
      · exact loadWord_storeWord bytes (i * 12) ptr
      · intro m hm
        rw [storeHalf_of_ne _ (by omega), storeHalf_of_ne _ (by omega), storeWord_of_ne _ (by omega)]
    · rw [storeHalf_of_ne _ (by omega), storeHalf_low]
      simp
    · exact loadHalf_storeHalf _ _ _
  · next hij =>
    have hsame : ∀ m < 12, storeHalf (storeHalf (storeWord (storeWord bytes (j * 12 + 0) ptr)
        (j * 12 + 4) 0) (j * 12 + 8) (t.entries j).type.value.toUInt16) (j * 12 + 10)
        (userHandleGen handle) (i * 12 + m) = bytes (i * 12 + m) := by
      intro m hm
      rw [storeHalf_of_ne _ (by omega), storeHalf_of_ne _ (by omega), storeWord_of_ne _ (by omega),
        storeWord_of_ne _ (by omega)]
    congr 1
    · exact loadWord_congr fun m hm => hsame m (by omega)
    · exact hsame 8 (by omega)
    · refine loadHalf_congr fun m hm => ?_
      rw [Nat.add_assoc]
      exact hsame (10 + m) (by omega)

end Table

namespace WindowStore

/-- Entry `i` is that of a window with a guest `WND`, and the guest knows of it. -/
structure EntryUsed (s : WindowStore) (i : Nat) : Prop where
  type : (s.handles.entries i).type = .window
  live : (s.handles.entries i).ptr ∈ s.live
  known : (s.wnd (s.handles.entries i).ptr).guestWndVa ≠ 0
  mirrored : s.EntryMirrored i

/-- Entry `i` is free, and the guest has nothing for it. -/
structure EntryFree (s : WindowStore) (i : Nat) : Prop where
  type : (s.handles.entries i).type = .free
  ptr : (s.handles.entries i).ptr = freeLink (i + 1)
  guest : (s.guestEntry i).type = UserHandleType.free.value

/-- The entries before `k` are in use, and those from `k` on are free. -/
structure TableSplit (s : WindowStore) (k : Nat) : Prop where
  pos : 1 ≤ k
  le : k ≤ userMaxHandles
  first : s.handles.firstFree = freeLink k
  used : ∀ i, 1 ≤ i → i < k → s.EntryUsed i
  free : ∀ i, k ≤ i → i < userMaxHandles → s.EntryFree i

/-- What holds as long as the guest's table mirrors the handle table. -/
structure MirrorInv (s : WindowStore) : Prop where
  null : 0 ∉ s.live
  reserved : (s.handles.entries 0).ptr = 0
  guestReserved : (s.guestEntry 0).type = UserHandleType.free.value
  table : ∃ k, s.TableSplit k
  hwnd : ∀ w ∈ s.live, ∃ i, 1 ≤ i ∧ i < userMaxHandles ∧ (s.handles.entries i).ptr = w ∧
    (s.handles.entries i).type = .window ∧
    (s.wnd w).hwnd = userMakeHandle i (s.handles.entries i).generation

end WindowStore

section Invariant

variable {s s' : WindowStore} {w : Int} {i : Nat}

theorem typeValue_ne : UserHandleType.free.value ≠ UserHandleType.window.value := by decide

theorem mirrors_of_inv (h : s.MirrorInv) : s.MirrorsHost := by
  obtain ⟨k, hk⟩ := h.table
  constructor
  · intro i hpos hi hused _
    by_cases hik : i < k
    · exact (hk.used i hpos hik).mirrored
    · exact absurd (hk.free i (by omega) hi).type hused
  · intro i hpos hi hfree
    by_cases hik : i < k
    · rw [(hk.used i hpos hik).type] at hfree
      cases hfree
    · exact (hk.free i (by omega) hi).guest
  · intro handle
    rw [getTyped_iff h.reserved]
    refine and_congr_right fun hindex => ?_
    by_cases hzero : userHandleIndex handle = 0
    · rw [hzero, h.guestReserved]
      exact ⟨fun hacc => absurd hacc.1 typeValue_ne, fun hacc => absurd h.reserved hacc.2.2⟩
    · by_cases hik : userHandleIndex handle < k
      · have hu := hk.used _ (by omega) hik
        rw [hu.mirrored.type, hu.mirrored.generation, hu.type]
        exact ⟨fun hacc => ⟨rfl, hacc.2, fun hz => h.null (hz ▸ hu.live)⟩,
          fun hacc => ⟨rfl, hacc.2.1⟩⟩
      · have hf := hk.free _ (by omega) hindex
        rw [hf.guest, hf.type]
        exact ⟨fun hacc => absurd hacc.1 typeValue_ne, fun hacc => by cases hacc.1⟩

theorem WindowStore.EntryUsed.congr (h : s.EntryUsed i)
    (hentry : s'.handles.entries i = s.handles.entries i) (hguest : s'.guestEntry i = s.guestEntry i)
    (hlive : s.live ⊆ s'.live)
    (hva : ∀ v ∈ s.live, (s'.wnd v).guestWndVa = (s.wnd v).guestWndVa) : s'.EntryUsed i := by
  have hva := hva _ h.live
  refine ⟨hentry ▸ h.type, hentry ▸ hlive h.live, ?_, ?_, ?_, ?_⟩
  · rw [hentry, hva]
    exact h.known
  · rw [hguest, hentry, h.mirrored.type]
  · rw [hguest, hentry, h.mirrored.generation]
  · rw [hguest, hentry, hva, h.mirrored.ptr]

theorem WindowStore.EntryFree.congr (h : s.EntryFree i)
    (hentry : s'.handles.entries i = s.handles.entries i)
    (hguest : s'.guestEntry i = s.guestEntry i) : s'.EntryFree i :=
  ⟨hentry ▸ h.type, hentry ▸ h.ptr, hguest ▸ h.guest⟩

theorem SameHandles.guestEntry (hsame : SameHandles s s') (i : Nat) :
    s'.guestEntry i = s.guestEntry i := by
  unfold WindowStore.guestEntry
  rw [hsame.guestEntries]

theorem SameHandles.inv (hsame : SameHandles s s') (h : s.MirrorInv) : s'.MirrorInv := by
  obtain ⟨k, hk⟩ := h.table
  have hentry : ∀ i, s'.handles.entries i = s.handles.entries i := fun i => by rw [hsame.handles]
  refine ⟨hsame.live ▸ h.null, by rw [hsame.handles, h.reserved],
    by rw [hsame.guestEntry, h.guestReserved], ⟨k, hk.pos, hk.le, hsame.handles ▸ hk.first, ?_, ?_⟩,
    ?_⟩
  · exact fun i hpos hi => (hk.used i hpos hi).congr (hentry i) (hsame.guestEntry i)
      (hsame.live ▸ Finset.Subset.refl _) fun v _ => hsame.guestWndVa v
  · exact fun i hki hi => (hk.free i hki hi).congr (hentry i) (hsame.guestEntry i)
  · intro w hw
    rw [hsame.handles, hsame.hwnd]
    exact h.hwnd w (hsame.live ▸ hw)

theorem guestWndCreate_va (heap : DesktopHeap) (wnd : Wnd) :
    (guestWndCreate heap wnd).2 = (desktopHeapAlloc heap
      (if wnd.cbWndExtra > 0 then wndBaseSize + wnd.cbWndExtra.toUInt32 else wndBaseSize)).2 := by
  unfold guestWndCreate
  dsimp only
  by_cases hzero : (desktopHeapAlloc heap
      (if wnd.cbWndExtra > 0 then wndBaseSize + wnd.cbWndExtra.toUInt32 else wndBaseSize)).2 = 0
  · rw [if_pos hzero, hzero]
  · rw [if_neg hzero]

/-- Whether the desktop heap has room is whether the new window gets a guest `WND`. -/
theorem hasRoom_iff {a : WndArgs} (hwnd : UInt32) : s.HasRoom a.pcls ↔
    ∃ heap, s.heap = some heap ∧ (guestWndCreate heap (newWnd hwnd a)).2 ≠ 0 := by
  unfold WindowStore.HasRoom
  refine exists_congr fun heap => and_congr_right fun _ => ?_
  rw [guestWndCreate_va]
  have hextra : (newWnd hwnd a).cbWndExtra =
      if (a.pcls.map WndClass.cbWndExtra).getD 0 > 0 then
        (a.pcls.map WndClass.cbWndExtra).getD 0 else 0 := rfl
  rw [hextra]
  by_cases hpos : (a.pcls.map WndClass.cbWndExtra).getD 0 > 0
  · simp [hpos]
  · simp [hpos]

/-- A new window where there is a desktop heap. -/
theorem place_some {heap : DesktopHeap} (hheap : s.heap = some heap) (wnd : Wnd) :
    s.place w wnd =
      { s with
        wnd := Function.update s.wnd w { wnd with guestWndVa := (guestWndCreate heap wnd).2 }
        live := insert w s.live
        heap := some (guestWndCreate heap wnd).1
        guestEntries :=
          if (guestWndCreate heap wnd).2 ≠ 0 then
            userHandleSetGuestPtr s.handles s.guestEntries wnd.hwnd (guestWndCreate heap wnd).2
          else s.guestEntries } := by
  unfold WindowStore.place
  rw [hheap]

/-- A window with a guest `WND`. -/
theorem place_known {a : WndArgs} {hwnd : UInt32} (hroom : s.HasRoom a.pcls) :
    ∃ heap va, va ≠ 0 ∧ s.place w (newWnd hwnd a) =
      { s with
        wnd := Function.update s.wnd w { newWnd hwnd a with guestWndVa := va }
        live := insert w s.live
        heap := some heap
        guestEntries := userHandleSetGuestPtr s.handles s.guestEntries hwnd va } := by
  obtain ⟨heap, hheap, hva⟩ := (hasRoom_iff hwnd).mp hroom
  refine ⟨(guestWndCreate heap (newWnd hwnd a)).1, _, hva, ?_⟩
  rw [place_some hheap, if_pos hva]
  rfl

/-- A window without one. -/
theorem place_unknown {a : WndArgs} (hwnd : UInt32) (hroom : ¬ s.HasRoom a.pcls) :
    (s.place w (newWnd hwnd a)).guestEntries = s.guestEntries ∧
      (s.place w (newWnd hwnd a)).handles = s.handles := by
  cases hheap : s.heap with
  | none =>
    unfold WindowStore.place
    rw [hheap]
    exact ⟨rfl, rfl⟩
  | some heap =>
    have hva : (guestWndCreate heap (newWnd hwnd a)).2 = 0 := by
      by_contra hva
      exact hroom ((hasRoom_iff hwnd).mpr ⟨heap, hheap, hva⟩)
    rw [place_some hheap, if_neg (not_not.mpr hva)]
    exact ⟨rfl, rfl⟩

/-- The table after the first free entry has been given to a window. -/
def UserHandleTable.taken (t : UserHandleTable) (k : Nat) (ptr : Int) : UserHandleTable where
  entries := Function.update t.entries k { t.entries k with ptr, owner := 0, type := .window }
  firstFree := freeLink (k + 1)
  handleCount := t.handleCount + 1

/-- The table after the window was not made. -/
def UserHandleTable.returned (t : UserHandleTable) (k : Nat) : UserHandleTable where
  entries := Function.update t.entries k
    { ptr := freeLink (k + 1), owner := 0, type := .free
      generation := (t.entries k).generation + 1 }
  firstFree := k
  handleCount := t.handleCount + 1 - 1

/-- A window that was not made leaves the tables as they were. -/
theorem WindowStore.MirrorInv.returned {k : Nat} (h : s.MirrorInv) (hk : s.TableSplit k)
    (hlt : k < userMaxHandles) :
    WindowStore.MirrorInv { s with handles := s.handles.returned k } := by
  have hother : ∀ i, i ≠ k → (s.handles.returned k).entries i = s.handles.entries i :=
    fun i hi => Function.update_of_ne hi _ _
  have hself : (s.handles.returned k).entries k =
      { ptr := freeLink (k + 1), owner := 0, type := .free
        generation := (s.handles.entries k).generation + 1 } := Function.update_self k _ _
  have hpos := hk.pos
  refine ⟨h.null, ?_, h.guestReserved, ⟨k, hk.pos, hk.le, ?_, fun i hi hik => ?_,
    fun i hki hi => ?_⟩, fun w hw => ?_⟩
  · rw [hother 0 (by omega)]
    exact h.reserved
  · show (k : Int) = freeLink k
    exact (if_neg (by omega)).symm
  · exact (hk.used i hi hik).congr (hother i (by omega)) rfl (Finset.Subset.refl _) fun _ _ => rfl
  · have hf := hk.free i hki hi
    by_cases hik : i = k
    · subst hik
      exact ⟨hself ▸ rfl, hself ▸ rfl, hf.guest⟩
    · exact hf.congr (hother i hik) rfl
  · obtain ⟨i, hi, hmax, hptr, htype, hhwnd⟩ := h.hwnd w hw
    have hik : i ≠ k := by
      rintro rfl
      rw [(hk.free i (Nat.le_refl i) hlt).type] at htype
      cases htype
    refine ⟨i, hi, hmax, ?_, ?_, ?_⟩
    · rw [hother i hik, hptr]
    · rw [hother i hik, htype]
    · rw [hother i hik, hhwnd]

/-- A window that was made, and that the guest knows of. -/
theorem WindowStore.MirrorInv.taken {k : Nat} {wnd : Wnd} {va : UInt32}
    {heap : Option DesktopHeap} (h : s.MirrorInv) (hk : s.TableSplit k) (hlt : k < userMaxHandles)
    (hzero : w ≠ 0) (hfresh : w ∉ s.live) (hva : va ≠ 0)
    (hhwnd : wnd.hwnd = userMakeHandle k (s.handles.entries k).generation)
    (hguest : wnd.guestWndVa = va) :
    WindowStore.MirrorInv { s with
      wnd := Function.update s.wnd w wnd
      live := insert w s.live
      handles := s.handles.taken k w
      heap
      guestEntries := userHandleSetGuestPtr (s.handles.taken k w) s.guestEntries wnd.hwnd va } := by
  have hpos := hk.pos
  have hother : ∀ i, i ≠ k → (s.handles.taken k w).entries i = s.handles.entries i :=
    fun i hi => Function.update_of_ne hi _ _
  have hself : (s.handles.taken k w).entries k =
      { s.handles.entries k with ptr := w, owner := 0, type := .window } :=
    Function.update_self k _ _
  have hindex : userHandleIndex wnd.hwnd = k := by rw [hhwnd, userHandleIndex_make hlt]
  have hgen : userHandleGen wnd.hwnd = (s.handles.entries k).generation := by
    rw [hhwnd, userHandleGen_make hlt]
  have hlive : Live (s.handles.taken k w) wnd.hwnd := by
    refine ⟨hhwnd ▸ userMakeHandle_ne_zero hlt hpos, hindex ▸ hlt, ?_, ?_⟩
    · rw [hindex, hself, hgen]
    · rw [hindex, hself]
      exact fun hfree => by cases hfree
  have hentries := guestEntryOf_set hlive s.guestEntries va
  rw [hindex] at hentries
  have hold : ∀ i, i ≠ k → guestEntryOf
      (userHandleSetGuestPtr (s.handles.taken k w) s.guestEntries wnd.hwnd va) i =
        guestEntryOf s.guestEntries i := fun i hi => (hentries i).trans (if_neg hi)
  have hwndOf : ∀ v ∈ s.live, Function.update s.wnd w wnd v = s.wnd v :=
    fun v hv => Function.update_of_ne (fun hvw : v = w => hfresh (hvw ▸ hv)) _ _
  have hsub : s.live ⊆ insert w s.live := Finset.subset_insert w s.live
  refine ⟨fun hin => ?_, ?_, ?_, ⟨k + 1, by omega, hlt, rfl, fun i hi hik => ?_,
    fun i hki hi => ?_⟩, fun v hv => ?_⟩
  · exact (Finset.mem_insert.mp hin).elim (fun hz => hzero hz.symm) h.null
  · rw [hother 0 (by omega)]
    exact h.reserved
  · exact (congrArg GuestHandleEntry.type (hold 0 (by omega))).trans h.guestReserved
  · by_cases hk' : i = k
    · subst hk'
      have hentry := (hentries i).trans (if_pos rfl)
      refine ⟨hself ▸ rfl, ?_, ?_, ?_, ?_, ?_⟩
      · rw [hself]
        exact Finset.mem_insert_self w s.live
      · rw [hself]
        show (Function.update s.wnd w wnd w).guestWndVa ≠ 0
        rw [Function.update_self, hguest]
        exact hva
      · exact congrArg GuestHandleEntry.type hentry
      · rw [hself, ← hgen]
        exact congrArg GuestHandleEntry.generation hentry
      · rw [hself]
        show _ = (Function.update s.wnd w wnd w).guestWndVa
        rw [Function.update_self, hguest]
        exact congrArg GuestHandleEntry.ptr hentry
    · exact (hk.used i hi (by omega)).congr (hother i hk') (hold i hk') hsub
        fun v hv => congrArg Wnd.guestWndVa (hwndOf v hv)
  · have hk' : i ≠ k := by omega
    exact (hk.free i (by omega) hi).congr (hother i hk') (hold i hk')
  · rcases Finset.mem_insert.mp hv with rfl | hv
    · refine ⟨k, hpos, hlt, hself ▸ rfl, hself ▸ rfl, ?_⟩
      show (Function.update s.wnd v wnd v).hwnd = _
      rw [Function.update_self, hhwnd, hself]
    · obtain ⟨i, hi, hmax, hptr, htype, hv'⟩ := h.hwnd v hv
      have hik : i ≠ k := by
        rintro rfl
        rw [(hk.free i (Nat.le_refl i) hlt).type] at htype
        cases htype
      refine ⟨i, hi, hmax, ?_, ?_, ?_⟩
      · rw [hother i hik, hptr]
      · rw [hother i hik, htype]
      · show (Function.update s.wnd w wnd v).hwnd = _
        rw [hwndOf v hv, hother i hik, hv']

/-- A handle that is freed at once. -/
theorem free_taken {t : UserHandleTable} {k : Nat} (hlt : k < userMaxHandles) (hpos : 1 ≤ k)
    (ptr : Int) :
    (userHandleFree (t.taken k ptr) (userMakeHandle k (t.entries k).generation)).1 =
      t.returned k := by
  have hself : (t.taken k ptr).entries k = { t.entries k with ptr, owner := 0, type := .window } :=
    Function.update_self k _ _
  have hfree := free_at (t := t.taken k ptr) hlt hpos (by rw [hself]; exact nofun)
  rw [hself] at hfree
  rw [hfree]
  unfold UserHandleTable.returned UserHandleTable.taken
  dsimp only
  rw [Function.update_idem]

theorem nextEntry_split {k : Nat} (hk : s.TableSplit k) :
    s.handles.nextEntry ≠ none ↔ k < userMaxHandles := by
  have hpos := hk.pos
  have hle := hk.le
  unfold UserHandleTable.nextEntry
  rw [hk.first, freeLink]
  split
  · next hmax => simp [hmax]
  · rw [if_neg (by omega)]
    simp
    omega

/-- `window_create_internal` makes a window, or leaves the tables as they were. -/
theorem createInternal_mirror {k : Nat} (h : s.MirrorInv) (hk : s.TableSplit k) (mem : WndMemory)
    (a : WndArgs) :
    ¬ s.Makes mem a.pcls ∧ WindowStore.MirrorInv (s.windowCreateInternal mem a).1 ∧
        (s.windowCreateInternal mem a).2 = 0 ∨
      s.Makes mem a.pcls ∧ k < userMaxHandles ∧ (s.windowCreateInternal mem a).1 =
        WindowStore.place { s with handles := s.handles.taken k mem.wnd } mem.wnd
          (newWnd (userMakeHandle k (s.handles.entries k).generation) a) := by
  unfold WindowStore.windowCreateInternal
  by_cases hzero : mem.wnd = 0
  · rw [if_pos hzero]
    exact .inl ⟨fun hm => hm.wnd hzero, h, rfl⟩
  · rw [if_neg hzero]
    by_cases hlt : k < userMaxHandles
    · have hfirst : s.handles.firstFree = k := hk.first.trans (if_neg (by omega))
      have hptr := (hk.free k (Nat.le_refl k) hlt).ptr
      have halloc := alloc_at hlt hfirst mem.wnd
      rw [hptr, intOfPtr_freeLink (by omega)] at halloc
      rw [halloc]
      dsimp only
      rw [if_neg (userMakeHandle_ne_zero hlt hk.pos)]
      by_cases hextra : (a.pcls.map WndClass.cbWndExtra).getD 0 > 0 ∧ mem.extraBytes = false
      · rw [if_pos hextra]
        refine .inl ⟨fun hm => ?_, ?_, rfl⟩
        · have htrue := hm.extraBytes hextra.1
          rw [hextra.2] at htrue
          cases htrue
        · show WindowStore.MirrorInv { s with
            handles := (userHandleFree (s.handles.taken k mem.wnd)
              (userMakeHandle k (s.handles.entries k).generation)).1 }
          rw [free_taken hlt hk.pos]
          exact h.returned hk hlt
      · rw [if_neg hextra]
        refine .inr ⟨⟨hzero, (nextEntry_split hk).mpr hlt, fun hpos => ?_⟩, hlt, rfl⟩
        cases hb : mem.extraBytes with
        | true => rfl
        | false => exact absurd ⟨hpos, hb⟩ hextra
    · have hnone : s.handles.nextEntry = none := by
        by_contra hne
        exact hlt ((nextEntry_split hk).mp hne)
      have halloc : userHandleAlloc s.handles mem.wnd .window 0 = (s.handles, 0) := by
        rcases userHandleAlloc_cases s.handles mem.wnd .window 0 with ⟨-, hsame⟩ | ⟨i, -, hi, -⟩
        · exact hsame
        · rw [hnone] at hi
          cases hi
      rw [halloc]
      exact .inl ⟨fun hm => hm.handle hnone, h, rfl⟩

/-- Linking a new window leaves the handles. -/
theorem create_sameHandles {mem : WndMemory} {a : WndArgs} {parent owner : Int} {n : Nat}
    (h : s.windowCall n (.create mem a parent owner) = some s') :
    SameHandles (s.windowCreateInternal mem a.withDefaults).1 s' := by
  obtain ⟨⟨s₁, w⟩, hcall, rfl⟩ := Option.map_eq_some_iff.mp h
  unfold WindowStore.userWindowCreate at hcall
  dsimp only at hcall
  split at hcall
  · cases hcall
    exact .refl _
  · obtain ⟨s₂, hset, hcall⟩ := Option.bind_eq_some_iff.mp hcall
    obtain ⟨s₃, hlink, hcall⟩ := Option.bind_eq_some_iff.mp hcall
    cases hcall
    have howner := sameHandles_modify hset fun _ => ⟨rfl, rfl⟩
    exact howner.trans (sameHandles_linkChild hlink)

/-- A window that the guest is not told of is one that the guest does not take. -/
theorem not_mirrors_unknown {k : Nat} (h : s.MirrorInv) (hk : s.TableSplit k)
    (hlt : k < userMaxHandles) (hzero : w ≠ 0) (hentries : s'.guestEntries = s.guestEntries)
    (hhandles : s'.handles = s.handles.taken k w) : ¬ s'.MirrorsHost := by
  intro hmirror
  have hpos := hk.pos
  have hself : s'.handles.entries k =
      { s.handles.entries k with ptr := w, owner := 0, type := .window } := by
    rw [hhandles]
    exact Function.update_self k _ _
  have hreserved : (s'.handles.entries 0).ptr = 0 := by
    rw [hhandles]
    exact (congrArg UserHandleEntry.ptr (Function.update_of_ne (by omega) _ _)).trans h.reserved
  have hindex : userHandleIndex (userMakeHandle k (s.handles.entries k).generation) = k :=
    userHandleIndex_make hlt
  have hhost : userHandleGetTyped s'.handles (userMakeHandle k (s.handles.entries k).generation)
      .window ≠ 0 := by
    rw [getTyped_iff hreserved, hindex, hself]
    exact ⟨hlt, rfl, (userHandleGen_make hlt).symm, hzero⟩
  have hguest := ((hmirror.accepts _).mpr hhost).2.1
  have hfree : (s'.guestEntry k).type = UserHandleType.free.value := by
    have hold := (hk.free k (Nat.le_refl k) hlt).guest
    unfold WindowStore.guestEntry at hold ⊢
    rw [hentries, hold]
  rw [hindex, hfree] at hguest
  exact typeValue_ne hguest

/-- Creating a window where there is room for its guest `WND`. -/
theorem WindowStore.MirrorInv.create {mem : WndMemory} {a : WndArgs} {parent owner : Int} {n : Nat}
    (h : s.MirrorInv) (hfresh : mem.wnd ∉ s.live)
    (hroom : s.Makes mem a.pcls → s.HasRoom a.pcls)
    (hcall : s.windowCall n (.create mem a parent owner) = some s') : s'.MirrorInv := by
  obtain ⟨k, hk⟩ := h.table
  apply (create_sameHandles hcall).inv
  rcases createInternal_mirror h hk mem a.withDefaults with ⟨-, hinv, -⟩ | ⟨hmakes, hlt, hnew⟩
  · exact hinv
  · rw [hnew]
    obtain ⟨heap, va, hva, hplace⟩ := place_known
      (s := { s with handles := s.handles.taken k mem.wnd }) (a := a.withDefaults) (w := mem.wnd)
      (hroom hmakes)
    rw [hplace]
    exact h.taken hk hlt hmakes.wnd hfresh hva rfl rfl

/-- Creating one where there is none. -/
theorem not_mirrors_create {mem : WndMemory} {a : WndArgs} {parent owner : Int} {n : Nat}
    (h : s.MirrorInv) (hbad : ¬ (s.Makes mem a.pcls → s.HasRoom a.pcls))
    (hcall : s.windowCall n (.create mem a parent owner) = some s') : ¬ s'.MirrorsHost := by
  obtain ⟨k, hk⟩ := h.table
  have hsame := create_sameHandles hcall
  obtain ⟨hmakes, hroom⟩ := Classical.not_imp.mp hbad
  rcases createInternal_mirror h hk mem a.withDefaults with ⟨hnot, -⟩ | ⟨-, hlt, hnew⟩
  · exact absurd hmakes hnot
  · obtain ⟨hentries, hhandles⟩ := place_unknown
      (s := { s with handles := s.handles.taken k mem.wnd }) (a := a.withDefaults) (w := mem.wnd)
      (userMakeHandle k (s.handles.entries k).generation) hroom
    rw [hnew] at hsame
    exact not_mirrors_unknown h hk hlt hmakes.wnd (hsame.guestEntries.trans hentries)
      (hsame.handles.trans hhandles)

/-- Windows some of which may have been destroyed: their handles are free. -/
structure HandlesFreed (s s' : WindowStore) : Prop where
  guestEntries : s'.guestEntries = s.guestEntries
  desktop : s'.desktop = s.desktop
  hwnd : ∀ v, (s'.wnd v).hwnd = (s.wnd v).hwnd
  entries : ∀ i, s'.handles.entries i = s.handles.entries i ∨
    (s'.handles.entries i).type = .free

theorem HandlesFreed.trans {s'' : WindowStore} (h : HandlesFreed s s') (h' : HandlesFreed s' s'') :
    HandlesFreed s s'' where
  guestEntries := h'.guestEntries.trans h.guestEntries
  desktop := h'.desktop.trans h.desktop
  hwnd v := (h'.hwnd v).trans (h.hwnd v)
  entries i := by
    rcases h'.entries i with hsame | hfree
    · rw [hsame]
      exact h.entries i
    · exact .inr hfree

theorem SameHandles.freed (h : SameHandles s s') : HandlesFreed s s' where
  guestEntries := h.guestEntries
  desktop := h.desktop
  hwnd := h.hwnd
  entries i := .inl (by rw [h.handles])

/-- The handle of a window that is released is free. -/
theorem handlesFreed_release (h : s.release w = some s') : HandlesFreed s s' ∧
    (Live s.handles (s.wnd w).hwnd →
      (s'.handles.entries (userHandleIndex (s.wnd w).hwnd)).type = .free) := by
  obtain ⟨s₁, hunlink, h⟩ := Option.bind_eq_some_iff.mp h
  obtain ⟨wnd, hread, h⟩ := Option.bind_eq_some_iff.mp h
  have hsame := sameHandles_unlink hunlink
  have hwnd : wnd = s₁.wnd w := by
    unfold WindowStore.read at hread
    split at hread
    · exact (Option.some.inj hread).symm
    · cases hread
  cases h
  rw [hwnd, hsame.hwnd, hsame.handles]
  rcases userHandleFree_cases s.handles (s.wnd w).hwnd with ⟨hnot, heq⟩ | ⟨-, hentries, -⟩
  · rw [heq]
    exact ⟨⟨hsame.guestEntries, hsame.desktop, hsame.hwnd, fun i => .inl rfl⟩,
      fun hlive => absurd hlive hnot⟩
  · refine ⟨⟨hsame.guestEntries, hsame.desktop, hsame.hwnd, fun i => ?_⟩, fun _ => ?_⟩
    · show _ = _ ∨ UserHandleEntry.type _ = _
      rw [hentries]
      by_cases hi : i = userHandleIndex (s.wnd w).hwnd
      · subst hi
        exact .inr (by rw [Function.update_self])
      · exact .inl (Function.update_of_ne hi _ _)
    · show UserHandleEntry.type _ = _
      rw [hentries, Function.update_self]

theorem handlesFreed_whileChild {destroy : WindowStore → Int → Option WindowStore}
    (hdestroy : ∀ s w s', destroy s w = some s' → HandlesFreed s s') {k : Nat}
    (h : WindowStore.whileChild destroy w k s = some s') : HandlesFreed s s' := by
  induction k generalizing s with
  | zero => cases h
  | succ k ih =>
    obtain ⟨wnd, -, h⟩ := Option.bind_eq_some_iff.mp h
    split at h
    · cases h
      exact (SameHandles.refl _).freed
    · obtain ⟨s₁, hcall, h⟩ := Option.bind_eq_some_iff.mp h
      exact (hdestroy _ _ _ hcall).trans (ih h)

/-- A window that is destroyed was live, and its handle is free. -/
theorem handlesFreed_destroy {n : Nat} (h : s.userWindowDestroy n w = some s') :
    HandlesFreed s s' ∧ (w ≠ 0 → w ≠ s.desktop → w ∈ s.live ∧ (Live s.handles (s.wnd w).hwnd →
      (s'.handles.entries (userHandleIndex (s.wnd w).hwnd)).type = .free)) := by
  induction n generalizing s w s' with
  | zero => cases h
  | succ n ih =>
    rw [WindowStore.userWindowDestroy] at h
    split at h
    · next hzero =>
      cases h
      exact ⟨(SameHandles.refl s).freed, fun hne => absurd hzero hne⟩
    · split at h
      · next hdesktop =>
        cases h
        exact ⟨(SameHandles.refl s).freed, fun _ hne => absurd hdesktop hne⟩
      · obtain ⟨s₁, hmark, h⟩ := Option.bind_eq_some_iff.mp h
        obtain ⟨s₂, hwhile, hrelease⟩ := Option.bind_eq_some_iff.mp h
        have hlive : w ∈ s.live := by
          by_contra hnot
          rw [WindowStore.modify, if_neg hnot] at hmark
          cases hmark
        have hsame := sameHandles_modify hmark fun _ => ⟨rfl, rfl⟩
        have hfreed := hsame.freed.trans
          (handlesFreed_whileChild (fun s w s' h => (ih h).1) hwhile)
        obtain ⟨hreleased, hgone⟩ := handlesFreed_release hrelease
        refine ⟨hfreed.trans hreleased, fun _ _ => ⟨hlive, fun hin => ?_⟩⟩
        rw [← hfreed.hwnd w] at hin ⊢
        rcases hfreed.entries (userHandleIndex (s₂.wnd w).hwnd) with heq | hfree
        · apply hgone
          exact ⟨hin.ne_zero, hin.index, heq ▸ hin.generation, heq ▸ hin.used⟩
        · rcases hreleased.entries (userHandleIndex (s₂.wnd w).hwnd) with heq | hfree'
          · rw [heq, hfree]
          · exact hfree'

/-- A window that is destroyed leaves its guest entry. -/
theorem not_mirrors_destroy {n : Nat} (h : s.MirrorInv)
    (hbad : ¬ (w = 0 ∨ w = s.desktop)) (hcall : s.userWindowDestroy n w = some s') :
    ¬ s'.MirrorsHost := by
  intro hmirror
  obtain ⟨hzero, hdesktop⟩ := not_or.mp hbad
  obtain ⟨hfreed, hgone⟩ := handlesFreed_destroy hcall
  obtain ⟨hlive, hgone⟩ := hgone hzero hdesktop
  obtain ⟨i, hpos, hlt, hptr, htype, hhwnd⟩ := h.hwnd w hlive
  have hindex : userHandleIndex (s.wnd w).hwnd = i := by rw [hhwnd, userHandleIndex_make hlt]
  have hin : Live s.handles (s.wnd w).hwnd := by
    refine ⟨hhwnd ▸ userMakeHandle_ne_zero hlt hpos, hindex ▸ hlt, ?_, ?_⟩
    · rw [hindex, hhwnd, userHandleGen_make hlt]
    · rw [hindex, htype]
      exact nofun
  have hfree := hgone hin
  rw [hindex] at hfree
  have hguest := hmirror.free i hpos hlt hfree
  have hold : (s.guestEntry i).type = UserHandleType.window.value := by
    rw [((mirrors_of_inv h).used i hpos hlt (by rw [htype]; exact nofun) ?_).type, htype]
    obtain ⟨k, hk⟩ := h.table
    by_cases hik : i < k
    · exact (hk.used i hpos hik).known
    · rw [(hk.free i (by omega) hlt).type] at htype
      cases htype
  unfold WindowStore.guestEntry at hguest hold
  rw [hfreed.guestEntries, hold] at hguest
  exact typeValue_ne hguest.symm

theorem mirrorInv_connected (wnd : Int → Wnd) (heap : Option DesktopHeap) :
    (connectedStore wnd heap).MirrorInv := by
  have htable : (connectedStore wnd heap).TableSplit 1 := by
    refine ⟨Nat.le_refl 1, by decide, rfl, fun i hi hlt => by omega, fun i hi hlt => ?_⟩
    have hentry : (connectedStore wnd heap).handles.entries i =
        if i = userMaxHandles - 1 then ⟨-1, 0, .free, 1⟩ else ⟨(i : Int) + 1, 0, .free, 1⟩ :=
      if_neg (by omega)
    refine ⟨?_, ?_, rfl⟩
    · rw [hentry]
      split <;> rfl
    · rw [hentry, freeLink]
      by_cases hlast : i = userMaxHandles - 1
      · rw [if_pos hlast, if_pos (by omega)]
      · rw [if_neg hlast, if_neg (by omega)]
        simp
  exact ⟨Finset.notMem_empty 0, rfl, rfl, ⟨1, htable⟩, fun w hw => absurd hw (Finset.notMem_empty w)⟩

theorem WindowStore.MirrorInv.setDesktop (h : s.MirrorInv) (w : Int) :
    WindowStore.MirrorInv { s with desktop := w } := by
  obtain ⟨k, hk⟩ := h.table
  refine ⟨h.null, h.reserved, h.guestReserved, ⟨k, hk.pos, hk.le, hk.first, fun i hpos hi => ?_,
    fun i hki hi => ?_⟩, h.hwnd⟩
  · exact (hk.used i hpos hi).congr rfl rfl (Finset.Subset.refl _) fun _ _ => rfl
  · exact (hk.free i hki hi).congr rfl rfl

/-- After `user_window_init` the guest knows of the desktop, if there was room. -/
theorem mirror_init {mem : WndMemory} {desktopCls : Option WndClass} (h : s.MirrorInv)
    (hfresh : mem.wnd ∉ s.live) (hinit : s.userWindowInit mem desktopCls = (s', 0)) :
    (s.HasRoom desktopCls → s'.MirrorInv) ∧ (¬ s.HasRoom desktopCls → ¬ s'.MirrorsHost) := by
  obtain ⟨k, hk⟩ := h.table
  let a : WndArgs := { pcls := desktopCls, style := wsPopup ||| wsVisible ||| wsClipChildren
                       cx := 800, cy := 600 }
  have hs : { (s.windowCreateInternal mem a).1 with
      desktop := (s.windowCreateInternal mem a).2 } = s' := congrArg Prod.fst hinit
  have hret : (if (s.windowCreateInternal mem a).2 = 0 then (-1 : Int) else 0) = 0 :=
    congrArg Prod.snd hinit
  rw [← hs]
  rcases createInternal_mirror h hk mem a with ⟨-, -, hzero⟩ | ⟨hmakes, hlt, hnew⟩
  · rw [if_pos hzero] at hret
    cases hret
  · rw [hnew]
    constructor
    · intro hroom
      apply WindowStore.MirrorInv.setDesktop
      obtain ⟨heap, va, hva, hplace⟩ := place_known
        (s := { s with handles := s.handles.taken k mem.wnd }) (a := a) (w := mem.wnd) hroom
      rw [hplace]
      exact h.taken hk hlt hmakes.wnd hfresh hva rfl rfl
    · intro hroom
      obtain ⟨hentries, hhandles⟩ := place_unknown
        (s := { s with handles := s.handles.taken k mem.wnd }) (a := a) (w := mem.wnd)
        (userMakeHandle k (s.handles.entries k).generation) hroom
      exact not_mirrors_unknown h hk hlt hmakes.wnd hentries hhandles

/-- A step that keeps the guest's table up to date. -/
theorem WindowStore.MirrorInv.step {op : WindowOp} {n : Nat} (h : s.MirrorInv)
    (hkept : s.MirrorKept op) (hstep : s.windowStep n op = some s') : s'.MirrorInv := by
  cases op with
  | create mem args parent owner =>
    unfold WindowStore.windowStep at hstep
    dsimp only at hstep
    split at hstep
    · cases hstep
    · next hfresh => exact h.create hfresh hkept hstep
  | linkChild parent child => exact (sameHandles_linkChild hstep).inv h
  | unlink wnd => exact (sameHandles_unlink hstep).inv h
  | destroy wnd =>
    have hsame : s' = s := destroy_refused hkept hstep
    rw [hsame]
    exact h

/-- Any other step leaves it behind. -/
theorem not_mirrors_step {op : WindowOp} {n : Nat} (h : s.MirrorInv) (hbad : ¬ s.MirrorKept op)
    (hstep : s.windowStep n op = some s') : ¬ s'.MirrorsHost := by
  cases op with
  | create mem args parent owner =>
    unfold WindowStore.windowStep at hstep
    dsimp only at hstep
    split at hstep
    · cases hstep
    · exact not_mirrors_create h hbad hstep
  | linkChild parent child => exact absurd trivial hbad
  | unlink wnd => exact absurd trivial hbad
  | destroy wnd => exact not_mirrors_destroy h hbad hstep

/-- The guest's table mirrors the handle table throughout exactly the runs that destroy no window
and find room for the guest `WND` of every window that they make. -/
theorem mirrors_iff {wnd : Int → Wnd} {heap : Option DesktopHeap} {mem : WndMemory}
    {desktopCls : Option WndClass} {n : Nat} {ops : List WindowOp} {tr : List WindowStore}
    (hinit : (connectedStore wnd heap).userWindowInit mem desktopCls = (s, 0))
    (h : trace (WindowStore.windowStep n) s ops = some tr) :
    (∀ a ∈ tr, a.MirrorsHost) ↔ (connectedStore wnd heap).HasRoom desktopCls ∧
      Guarded (WindowStore.windowStep n) WindowStore.MirrorKept s ops := by
  obtain ⟨hroom, hnone⟩ := mirror_init (mirrorInv_connected wnd heap)
    (Finset.notMem_empty mem.wnd) hinit
  by_cases hcls : (connectedStore wnd heap).HasRoom desktopCls
  · rw [trace_forall_iff_guarded (fun _ => mirrors_of_inv) (fun _ _ _ ha hok => ha.step hok)
      (fun _ _ _ ha hbad => not_mirrors_step ha hbad) (hroom hcls) h]
    exact ⟨fun hg => ⟨hcls, hg⟩, And.right⟩
  · have hmem : s ∈ tr := List.mem_of_getElem? (trace_head h)
    exact ⟨fun hall => absurd (hall s hmem) (hnone hcls), fun hg => absurd hg.1 hcls⟩

/-- A window with a guest `WND` is made on the desktop. -/
theorem mirrors_iff_create : ∃ s tr,
    (connectedStore (fun _ => {}) (some {})).userWindowInit ⟨1, true⟩ none = (s, 0) ∧
      trace (WindowStore.windowStep 1) s [.create ⟨2, true⟩ {} 0 0] = some tr ∧
      ((∀ a ∈ tr, a.MirrorsHost) ↔
        (connectedStore (fun _ => {}) (some {})).HasRoom none ∧
          Guarded (WindowStore.windowStep 1) WindowStore.MirrorKept s
            [.create ⟨2, true⟩ {} 0 0]) := by
  have hsome : (trace (WindowStore.windowStep 1)
      ((connectedStore (fun _ => {}) (some {})).userWindowInit ⟨1, true⟩ none).1
      [.create ⟨2, true⟩ {} 0 0]).isSome = true := by decide
  obtain ⟨tr, htr⟩ := Option.isSome_iff_exists.mp hsome
  have hinit : (connectedStore (fun _ => {}) (some {})).userWindowInit ⟨1, true⟩ none =
      (((connectedStore (fun _ => {}) (some {})).userWindowInit ⟨1, true⟩ none).1, 0) :=
    Prod.ext rfl (by decide)
  exact ⟨_, tr, hinit, htr, mirrors_iff hinit htr⟩

end Invariant

/-- A window is made on the desktop and destroyed, and the guest still takes its handle. -/
theorem destroyed_not_mirrored : ¬ ∀ (mem : WndMemory) (desktopCls : Option WndClass)
    (ops : List WindowOp) (n : Nat) (s : WindowStore) (tr : List WindowStore),
    (connectedStore (fun _ => {}) (some {})).userWindowInit mem desktopCls = (s, 0) →
      trace (WindowStore.windowStep n) s ops = some tr → ∀ a ∈ tr, a.MirrorsHost := by
  intro h
  let s₁ := ((connectedStore (fun _ => {}) (some {})).userWindowInit ⟨1, true⟩ none).1
  let s₂ := (s₁.windowStep 1 (.create ⟨2, true⟩ {} 0 0)).getD emptyStore
  let s₃ := (s₂.windowStep 1 (.destroy 2)).getD emptyStore
  have hstep : ∀ {s : WindowStore} {op : WindowOp}, (s.windowStep 1 op).isSome = true →
      s.windowStep 1 op = some ((s.windowStep 1 op).getD emptyStore) := fun {s op} hsome => by
    rw [Option.getD_of_ne_none (Option.isSome_iff_ne_none.mp hsome)]
  have h₂ : s₁.windowStep 1 (.create ⟨2, true⟩ {} 0 0) = some s₂ := hstep (by decide)
  have h₃ : s₂.windowStep 1 (.destroy 2) = some s₃ := hstep (by decide)
  have htrace : trace (WindowStore.windowStep 1) s₁ [.create ⟨2, true⟩ {} 0 0, .destroy 2] =
      some [s₁, s₂, s₃] := by
    rw [trace, h₂, Option.bind_eq_bind, Option.bind_some, trace, h₃]
    rfl
  have hmirror := h ⟨1, true⟩ none _ 1 s₁ _ (Prod.ext rfl (by decide)) htrace s₃ (by simp)
  have hfree : (s₃.guestEntry 2).type = UserHandleType.free.value :=
    hmirror.free 2 (by decide) (by decide) (by decide)
  revert hfree
  decide

end Wbox.User
