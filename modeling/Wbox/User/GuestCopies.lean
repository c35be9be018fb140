import Wbox.User.WindowChanges

/-!
# What keeps the guest's copies of windows up to date

Linking, unlinking and destroying windows bring the guest's copies of all windows that they change
up to date, when they return (`src/user/guest_wnd.c`, `src/user/user_window.c:217–335`), also where
the links go around in circles.
-/

namespace Wbox.User

open Wbox.Lib Wbox.Vm

/-- The word at an offset of the guest's copy of a window. -/
def WindowStore.guestWord (s : WindowStore) (w : Int) (o : UInt32) : Option UInt32 :=
  s.heap.map fun heap => heap.word ((s.wnd w).guestWndVa + o)

/-- The guest's copies have their own parts of the heap. They are up to date, but for the fields of
some windows and the links of others. -/
structure Copies (s : WindowStore) (D L : List Int) : Prop where
  null : 0 ∉ s.live
  fits : ∀ heap, s.heap = some heap → heap.Fits
  place : ∀ w ∈ s.live, (s.wnd w).guestWndVa ≠ 0 → WndPlace (s.wnd w).guestWndVa ∧
    ∃ heap, s.heap = some heap ∧ (s.wnd w).guestWndVa.toNat + wndBaseSize.toNat ≤
      desktopHeapBaseVa.toNat + heap.allocOffset.toNat
  apart : ∀ v ∈ s.live, ∀ w ∈ s.live, v ≠ w → (s.wnd v).guestWndVa ≠ 0 →
    (s.wnd w).guestWndVa ≠ 0 →
    (s.wnd v).guestWndVa.toNat + wndBaseSize.toNat ≤ (s.wnd w).guestWndVa.toNat ∨
      (s.wnd w).guestWndVa.toNat + wndBaseSize.toNat ≤ (s.wnd v).guestWndVa.toNat
  fields : ∀ w ∈ s.live, (s.wnd w).guestWndVa ≠ 0 → w ∉ D →
    (∀ f ∈ guestWndSyncFields (s.wnd w), s.guestWord w f.1 = some f.2) ∧ (s.wnd w).Plain
  links : ∀ w ∈ s.live, (s.wnd w).guestWndVa ≠ 0 → w ∉ L →
    ∀ f ∈ s.hierarchyFields w, s.guestWord w f.1 = some f.2

section Copies

variable {s s' : WindowStore} {t : TreeLinks Int} {D D' L L' : List Int} {v w : Int}
  {heap : DesktopHeap} {fs : List (UInt32 × UInt32)} {o : UInt32} {f : Wnd → Wnd}

/-- The links and the other fields are in different places. -/
theorem spaced_copy (s : WindowStore) (v w : Int) :
    Spaced ((s.hierarchyFields v ++ guestWndSyncFields (s.wnd w)).map Prod.fst) := by
  show Spaced [wndSpwndNext, wndSpwndPrev, wndSpwndParent, wndSpwndChild, wndSpwndOwner, wndState,
    wndState2, wndExStyle, wndStyle, wndRcWindow + 0, wndRcWindow + 4, wndRcWindow + 8,
    wndRcWindow + 12, wndRcClient + 0, wndRcClient + 4, wndRcClient + 8, wndRcClient + 12,
    wndLpfnWndProc, wndDwUserData, wndIdMenu]
  decide +kernel

theorem offset_links {g : UInt32 × UInt32} (hg : g ∈ s.hierarchyFields w) :
    g.1.toNat + 4 ≤ wndBaseSize.toNat :=
  (spaced_copy s w w).1 g.1 (List.mem_map_of_mem (List.mem_append_left _ hg))

theorem offset_fields {g : UInt32 × UInt32} (hg : g ∈ guestWndSyncFields (s.wnd w)) :
    g.1.toNat + 4 ≤ wndBaseSize.toNat :=
  (spaced_copy s w w).1 g.1 (List.mem_map_of_mem (List.mem_append_right _ hg))

theorem spaced_hierarchyFields (s : WindowStore) (w : Int) :
    Spaced ((s.hierarchyFields w).map Prod.fst) := by
  obtain ⟨hin, hpair⟩ := spaced_copy s w w
  rw [List.map_append] at hin hpair
  exact ⟨fun o ho => hin o (List.mem_append_left _ ho), (List.pairwise_append.mp hpair).1⟩

/-- Writing to the copy of a window leaves the other copies. -/
theorem Copies.word_other (h : Copies s D L) (hv : v ∈ s.live) (hva : (s.wnd v).guestWndVa ≠ 0)
    (hw : w ∈ s.live) (hwva : (s.wnd w).guestWndVa ≠ 0) (hne : w ≠ v)
    (hfs : ∀ g ∈ fs, g.1.toNat + 4 ≤ wndBaseSize.toNat) (ho : o.toNat + 4 ≤ wndBaseSize.toNat) :
    (desktopHeapWrites heap (s.wnd v).guestWndVa fs).word ((s.wnd w).guestWndVa + o) =
      heap.word ((s.wnd w).guestWndVa + o) :=
  word_writes_of_place (h.place v hv hva).1 hfs (h.place w hw hwva).1 ho
    (h.apart v hv w hw hne.symm hva hwva)

/-- Other links of some windows. -/
theorem Copies.relink (h : Copies s D L) (hL : ∀ v ∈ L, v ∈ L')
    (hsame : ∀ v, v ∉ L' → t.parent v = s.links.parent v ∧ t.child v = s.links.child v ∧
      t.next v = s.links.next v ∧ t.prev v = s.links.prev v) : Copies (s.relink t) D L' where
  null := h.null
  fits := h.fits
  place := h.place
  apart := h.apart
  fields w hw hva hwD := by
    obtain ⟨hwords, hplain⟩ := h.fields w hw hva hwD
    exact ⟨hwords, hplain.state, hplain.rcClient⟩
  links w hw hva hwL := by
    obtain ⟨hparent, hchild, hnext, hprev⟩ := hsame w hwL
    rw [hierarchyFields_relink, hparent, hchild, hnext, hprev]
    exact h.links w hw hva fun hin => hwL (hL w hin)

/-- What `guest_wnd_update_hierarchy` has done when it returns. -/
theorem update_some (h : s.guestWndUpdateHierarchy v = some s') :
    s' = { s with heap := s.syncLinks s.heap v } ∧
      (s.vaOf v ≠ 0 → v ∈ s.live ∧ s.Points (s.wnd v).spwndOwner) := by
  have hget : ∀ {u : Int} {va : UInt32}, s.guestWndGetVa u = some va →
      va = s.vaOf u ∧ s.Points u := by
    intro u va hu
    unfold WindowStore.guestWndGetVa at hu
    unfold WindowStore.vaOf
    by_cases hz : u = 0
    · rw [if_pos hz] at hu ⊢
      exact ⟨(Option.some.inj hu).symm, .inl hz⟩
    · rw [if_neg hz] at hu ⊢
      unfold WindowStore.read at hu
      split at hu
      · next hlive => exact ⟨(Option.some.inj hu).symm, .inr hlive⟩
      · cases hu
  unfold WindowStore.guestWndUpdateHierarchy at h
  unfold WindowStore.syncLinks
  by_cases hzero : v = 0
  · have hva : s.vaOf v = 0 := if_pos hzero
    rw [if_pos hzero] at h
    rw [if_pos hva]
    exact ⟨(Option.some.inj h).symm, fun hne => absurd hva hne⟩
  · have hva : s.vaOf v = (s.wnd v).guestWndVa := if_neg hzero
    rw [if_neg hzero] at h
    obtain ⟨host, hread, h⟩ := Option.bind_eq_some_iff.mp h
    unfold WindowStore.read at hread
    split at hread
    · next hlive =>
      cases hread
      by_cases hnone : (s.wnd v).guestWndVa = 0
      · rw [if_pos hnone] at h
        rw [if_pos (hva.trans hnone)]
        exact ⟨(Option.some.inj h).symm, fun hne => absurd (hva.trans hnone) hne⟩
      · rw [if_neg hnone] at h
        rw [if_neg fun hz => hnone (hva.symm.trans hz)]
        obtain ⟨nextVa, hnext, h⟩ := Option.bind_eq_some_iff.mp h
        obtain ⟨prevVa, hprev, h⟩ := Option.bind_eq_some_iff.mp h
        obtain ⟨parentVa, hparent, h⟩ := Option.bind_eq_some_iff.mp h
        obtain ⟨childVa, hchild, h⟩ := Option.bind_eq_some_iff.mp h
        obtain ⟨ownerVa, howner, h⟩ := Option.bind_eq_some_iff.mp h
        rw [(hget hnext).1, (hget hprev).1, (hget hparent).1, (hget hchild).1, (hget howner).1] at h
        refine ⟨?_, fun _ => ⟨hlive, (hget howner).2⟩⟩
        rw [hva]
        exact (Option.some.inj h).symm
    · cases hread

theorem Copies.vaOf_live (h : Copies s D L) (hw : w ∈ s.live) :
    s.vaOf w = (s.wnd w).guestWndVa := if_neg fun hz : w = 0 => h.null (hz ▸ hw)

/-- Writing to the copy of a window. -/
theorem Copies.write (h : Copies s D L) (hv : v ∈ s.live) (hva : (s.wnd v).guestWndVa ≠ 0)
    (hheap : s.heap = some heap) (hfs : ∀ g ∈ fs, g.1.toNat + 4 ≤ wndBaseSize.toNat)
    (hfields : v ∉ D' → ∀ g ∈ guestWndSyncFields (s.wnd v),
      (desktopHeapWrites heap (s.wnd v).guestWndVa fs).word ((s.wnd v).guestWndVa + g.1) = g.2)
    (hplain : v ∉ D' → (s.wnd v).Plain)
    (hlinks : v ∉ L' → ∀ g ∈ s.hierarchyFields v,
      (desktopHeapWrites heap (s.wnd v).guestWndVa fs).word ((s.wnd v).guestWndVa + g.1) = g.2)
    (hD : ∀ w, w ≠ v → w ∈ D → w ∈ D') (hL : ∀ w, w ≠ v → w ∈ L → w ∈ L') :
    Copies { s with heap := some (desktopHeapWrites heap (s.wnd v).guestWndVa fs) } D' L' where
  null := h.null
  fits heap' hheap' := by
    cases hheap'
    unfold DesktopHeap.Fits
    rw [allocOffset_writes]
    exact h.fits heap hheap
  place w hw hwva := by
    obtain ⟨hplace, heap', hheap', htop⟩ := h.place w hw hwva
    rw [hheap] at hheap'
    cases hheap'
    refine ⟨hplace, _, rfl, ?_⟩
    rw [allocOffset_writes]
    exact htop
  apart := h.apart
  fields w hw hwva hwD := by
    by_cases hwv : w = v
    · subst hwv
      exact ⟨fun g hg => congrArg some (hfields hwD g hg), hplain hwD⟩
    · obtain ⟨hwords, hwplain⟩ := h.fields w hw hwva fun hin => hwD (hD w hwv hin)
      refine ⟨fun g hg => ?_, hwplain⟩
      rw [← hwords g hg]
      unfold WindowStore.guestWord
      rw [hheap]
      exact congrArg some (h.word_other hv hva hw hwva hwv hfs (offset_fields hg))
  links w hw hwva hwL g hg := by
    by_cases hwv : w = v
    · subst hwv
      exact congrArg some (hlinks hwL g hg)
    · have hword := h.links w hw hwva (fun hin => hwL (hL w hwv hin)) g hg
      rw [← hword]
      unfold WindowStore.guestWord
      rw [hheap]
      exact congrArg some (h.word_other hv hva hw hwva hwv hfs (offset_links hg))

/-- The links of a window are brought up to date. -/
theorem Copies.update (h : Copies s D (v :: L)) (hup : s.guestWndUpdateHierarchy v = some s') :
    Copies s' D L := by
  obtain ⟨rfl, hlive⟩ := update_some hup
  unfold WindowStore.syncLinks
  by_cases hva : s.vaOf v = 0
  · rw [if_pos hva]
    refine ⟨h.null, h.fits, h.place, h.apart, h.fields, fun w hw hwva hwL => ?_⟩
    refine h.links w hw hwva fun hin => ?_
    rcases List.mem_cons.mp hin with rfl | hin
    · exact hwva ((h.vaOf_live hw).symm.trans hva)
    · exact hwL hin
  · have hv := (hlive hva).1
    have hvaOf := h.vaOf_live hv
    rw [if_neg hva, hvaOf]
    rw [hvaOf] at hva
    obtain ⟨hplace, heap, hheap, -⟩ := h.place v hv hva
    have hspaced := spaced_hierarchyFields s v
    have hin : ∀ g ∈ s.hierarchyFields v, g.1.toNat + 4 ≤ wndBaseSize.toNat :=
      fun g hg => offset_links hg
    rw [hheap]
    apply h.write hv hva hheap hin
    · intro hvD g hg
      have hword := (h.fields v hv hva hvD).1 g hg
      unfold WindowStore.guestWord at hword
      rw [hheap] at hword
      refine (word_writes_of_apart hplace hin fun g' hg' => ?_).trans (Option.some.inj hword)
      have hpair := (spaced_copy s v v).2
      rw [List.map_append, List.pairwise_append] at hpair
      have hspace := hpair.2.2 g'.1 (List.mem_map_of_mem hg') g.1 (List.mem_map_of_mem hg)
      rw [toNat_add_offset hplace (offset_fields hg)]
      omega
    · exact fun hvD => (h.fields v hv hva hvD).2
    · exact fun _ g hg => word_writes hplace hspaced hg
    · exact fun w _ hw => hw
    · exact fun w hwv hw => (List.mem_cons.mp hw).resolve_left hwv

/-- The links of a window that its copy has. -/
def Wnd.sameLinks (wnd wnd' : Wnd) : Prop :=
  wnd'.spwndNext = wnd.spwndNext ∧ wnd'.spwndPrev = wnd.spwndPrev ∧
    wnd'.spwndParent = wnd.spwndParent ∧ wnd'.spwndChild = wnd.spwndChild ∧
    wnd'.spwndOwner = wnd.spwndOwner

/-- Changing a window. -/
theorem Copies.set (h : Copies s D L) (hva : (f (s.wnd v)).guestWndVa = (s.wnd v).guestWndVa)
    (hD : ∀ w ∈ D, w ∈ D') (hL : ∀ w ∈ L, w ∈ L')
    (hsync : (s.wnd v).guestWndVa ≠ 0 → v ∉ D' →
      guestWndSyncFields (f (s.wnd v)) = guestWndSyncFields (s.wnd v))
    (hlinks : (s.wnd v).guestWndVa ≠ 0 → v ∉ L' → (s.wnd v).sameLinks (f (s.wnd v))) :
    Copies (s.set v f) D' L' := by
  have hself : (s.set v f).wnd v = f (s.wnd v) := Function.update_self v _ s.wnd
  have hother : ∀ w, w ≠ v → (s.set v f).wnd w = s.wnd w :=
    fun w hw => Function.update_of_ne hw _ s.wnd
  have hvas : ∀ w, ((s.set v f).wnd w).guestWndVa = (s.wnd w).guestWndVa := by
    intro w
    by_cases hw : w = v
    · rw [hw, hself, hva]
    · rw [hother w hw]
  have hvaOf : ∀ w, (s.set v f).vaOf w = s.vaOf w := by
    intro w
    unfold WindowStore.vaOf
    rw [hvas]
  have hword : ∀ w o, (s.set v f).guestWord w o = s.guestWord w o := by
    intro w o
    unfold WindowStore.guestWord
    rw [hvas]
    rfl
  refine ⟨h.null, h.fits, fun w hw hwva => ?_, fun u hu w hw hne huva hwva => ?_,
    fun w hw hwva hwD => ?_, fun w hw hwva hwL g hg => ?_⟩
  · rw [hvas] at hwva ⊢
    exact h.place w hw hwva
  · rw [hvas] at huva hwva ⊢
    rw [hvas]
    exact h.apart u hu w hw hne huva hwva
  · rw [hvas] at hwva
    obtain ⟨hwords, hplain⟩ := h.fields w hw hwva fun hin => hwD (hD w hin)
    by_cases hwv : w = v
    · subst hwv
      rw [hself]
      have hsame := hsync hwva hwD
      refine ⟨fun g hg => ?_, hplain.congr hsame⟩
      rw [hword]
      exact hwords g (hsame ▸ hg)
    · rw [hother w hwv]
      refine ⟨fun g hg => ?_, hplain⟩
      rw [hword]
      exact hwords g hg
  · rw [hvas] at hwva
    have hold := h.links w hw hwva fun hin => hwL (hL w hin)
    have hfields : (s.set v f).hierarchyFields w = s.hierarchyFields w := by
      unfold WindowStore.hierarchyFields
      simp only [hvaOf]
      by_cases hwv : w = v
      · subst hwv
        obtain ⟨hnext, hprev, hparent, hchild, howner⟩ := hlinks hwva hwL
        rw [hself, hnext, hprev, hparent, hchild, howner]
      · rw [hother w hwv]
    rw [hword]
    exact hold g (hfields ▸ hg)

/-- Another window in memory. -/
theorem Copies.added (h : Copies s D L) (hclosed : s.Closed) (hzero : w ≠ 0) (hfresh : w ∉ s.live)
    (hwnd : ∀ v, v ≠ w → s'.wnd v = s.wnd v) (hlive : s'.live = insert w s.live)
    (hfits : ∀ heap, s'.heap = some heap → heap.Fits)
    (htop : ∀ heap, s.heap = some heap → ∃ heap', s'.heap = some heap' ∧
      heap.allocOffset.toNat ≤ heap'.allocOffset.toNat)
    (hwords : ∀ v ∈ s.live, (s.wnd v).guestWndVa ≠ 0 → ∀ o : UInt32,
      o.toNat + 4 ≤ wndBaseSize.toNat → s'.guestWord v o = s.guestWord v o)
    (hnew : (s'.wnd w).guestWndVa ≠ 0 → (WndPlace (s'.wnd w).guestWndVa ∧
      ∃ heap, s'.heap = some heap ∧ (s'.wnd w).guestWndVa.toNat + wndBaseSize.toNat ≤
        desktopHeapBaseVa.toNat + heap.allocOffset.toNat) ∧
      (∀ v ∈ s.live, (s.wnd v).guestWndVa ≠ 0 →
        (s.wnd v).guestWndVa.toNat + wndBaseSize.toNat ≤ (s'.wnd w).guestWndVa.toNat) ∧
      ((∀ g ∈ guestWndSyncFields (s'.wnd w), s'.guestWord w g.1 = some g.2) ∧ (s'.wnd w).Plain) ∧
      ∀ g ∈ s'.hierarchyFields w, s'.guestWord w g.1 = some g.2) :
    Copies s' D L := by
  have hne : ∀ v ∈ s.live, v ≠ w := fun v hv hvw => hfresh (hvw ▸ hv)
  have hvaOf : ∀ u, s.Points u → s'.vaOf u = s.vaOf u := by
    intro u hu
    unfold WindowStore.vaOf
    rcases hu with hz | hu
    · rw [if_pos hz, if_pos hz]
    · rw [hwnd u (hne u hu)]
  have hcases : ∀ {v}, v ∈ s'.live → v ≠ w → v ∈ s.live := fun hv hvw =>
    (Finset.mem_insert.mp (hlive ▸ hv)).resolve_left hvw
  refine ⟨?_, hfits, fun v hv hva => ?_, fun u hu v hv huv huva hva => ?_,
    fun v hv hva hvD => ?_, fun v hv hva hvL => ?_⟩
  · rw [hlive, Finset.mem_insert]
    exact fun hz => hz.elim (fun hz => hzero hz.symm) h.null
  · by_cases hvw : v = w
    · subst hvw
      exact (hnew hva).1
    · rw [hwnd v hvw] at hva ⊢
      obtain ⟨hplace, heap, hheap, hle⟩ := h.place v (hcases hv hvw) hva
      obtain ⟨heap', hheap', hgrow⟩ := htop heap hheap
      exact ⟨hplace, heap', hheap', by omega⟩
  · by_cases huw : u = w
    · subst huw
      rw [hwnd v huv.symm] at hva ⊢
      exact .inr ((hnew huva).2.1 v (hcases hv huv.symm) hva)
    · rw [hwnd u huw] at huva ⊢
      by_cases hvw : v = w
      · subst hvw
        exact .inl ((hnew hva).2.1 u (hcases hu huw) huva)
      · rw [hwnd v hvw] at hva ⊢
        exact h.apart u (hcases hu huw) v (hcases hv hvw) huv huva hva
  · by_cases hvw : v = w
    · subst hvw
      exact (hnew hva).2.2.1
    · have hlive := hcases hv hvw
      rw [hwnd v hvw] at hva ⊢
      obtain ⟨hold, hplain⟩ := h.fields v hlive hva hvD
      refine ⟨fun g hg => ?_, hplain⟩
      rw [hwords v hlive hva g.1 (offset_fields hg)]
      exact hold g hg
  · by_cases hvw : v = w
    · subst hvw
      exact (hnew hva).2.2.2
    · have hlive := hcases hv hvw
      rw [hwnd v hvw] at hva
      have hfields : s'.hierarchyFields v = s.hierarchyFields v := by
        unfold WindowStore.hierarchyFields
        rw [hwnd v hvw, hvaOf _ (hclosed.next v hlive), hvaOf _ (hclosed.prev v hlive),
          hvaOf _ (hclosed.parent v hlive), hvaOf _ (hclosed.child v hlive),
          hvaOf _ (hclosed.owner v hlive hva)]
      intro g hg
      rw [hfields] at hg
      rw [hwords v hlive hva g.1 (offset_links hg)]
      exact h.links v hlive hva hvL g hg

/-- A window without links. -/
structure Wnd.Unlinked (wnd : Wnd) : Prop where
  next : wnd.spwndNext = 0
  prev : wnd.spwndPrev = 0
  parent : wnd.spwndParent = 0
  child : wnd.spwndChild = 0
  owner : wnd.spwndOwner = 0

/-- A new window gets a copy that is up to date, or none. -/
theorem Copies.placed {wnd : Wnd} (h : Copies s D L) (hclosed : s.Closed) (hzero : w ≠ 0)
    (hfresh : w ∉ s.live) (hva : wnd.guestWndVa = 0) (hlinks : wnd.Unlinked)
    (hplain : wnd.Plain) : Copies (s.place w wnd) D L := by
  have hwnd : ∀ (x : Wnd) v, v ≠ w → Function.update s.wnd w x v = s.wnd v :=
    fun x v hv => Function.update_of_ne hv _ s.wnd
  have hself : ∀ x : Wnd, Function.update s.wnd w x w = x := fun x => Function.update_self w x s.wnd
  cases hheap : s.heap with
  | none =>
    have hplace : s.place w wnd =
        { s with wnd := Function.update s.wnd w wnd, live := insert w s.live } := by
      unfold WindowStore.place
      rw [hheap]
    rw [hplace]
    refine h.added hclosed hzero hfresh (hwnd wnd) rfl h.fits ?_ ?_ ?_
    · exact fun heap hsome => ⟨heap, hsome, Nat.le_refl _⟩
    · intro v hv hvva o ho
      unfold WindowStore.guestWord
      dsimp only
      rw [hheap]
      rfl
    · intro hne
      dsimp only at hne
      rw [hself, hva] at hne
      exact absurd rfl hne
  | some heap =>
    rw [place_some hheap]
    rcases guestWndCreate_spec (h.fits heap hheap) wnd with ⟨hnone, hsame⟩ | ⟨hsome, hmade⟩
    · rw [hnone, hsame]
      refine h.added hclosed hzero hfresh (hwnd _) rfl ?_ ?_ ?_ ?_
      · exact fun heap' hsome => h.fits heap' (hheap.trans hsome)
      · exact fun heap' hsome => ⟨heap, rfl, by
          rw [hheap] at hsome
          cases hsome
          exact Nat.le_refl _⟩
      · intro v hv hvva o ho
        have hvw : v ≠ w := fun hvw => hfresh (hvw ▸ hv)
        unfold WindowStore.guestWord
        dsimp only
        rw [hheap, hwnd _ v hvw]
      · intro hne
        dsimp only at hne
        rw [hself] at hne
        exact absurd rfl hne
    · generalize (guestWndCreate heap wnd).1 = heap' at hmade ⊢
      generalize (guestWndCreate heap wnd).2 = va at hsome hmade ⊢
      have hbelow : ∀ v ∈ s.live, (s.wnd v).guestWndVa ≠ 0 →
          (s.wnd v).guestWndVa.toNat + wndBaseSize.toNat ≤ va.toNat := by
        intro v hv hvva
        obtain ⟨-, heap'', hheap'', htop⟩ := h.place v hv hvva
        rw [hheap] at hheap''
        cases hheap''
        have hstart := hmade.start
        omega
      refine h.added hclosed hzero hfresh (hwnd _) rfl ?_ ?_ ?_ ?_
      · intro heap'' hsome
        cases hsome
        exact hmade.fits
      · intro heap'' hsome
        rw [hheap] at hsome
        cases hsome
        have hstart := hmade.start
        have htop := hmade.top
        exact ⟨heap', rfl, by omega⟩
      · intro v hv hvva o ho
        have hvw : v ≠ w := fun hvw => hfresh (hvw ▸ hv)
        have hend := hbelow v hv hvva
        unfold WindowStore.guestWord
        dsimp only
        rw [hheap, hwnd _ v hvw]
        refine congrArg some (hmade.others _ ?_)
        rw [toNat_add_offset (h.place v hv hvva).1 ho]
        omega
      · intro _
        have hword : ∀ g ∈ guestWndFields wnd va,
            some (heap'.word (va + g.1)) = some g.2 := fun g hg => congrArg some (hmade.words g hg)
        have hvaOf : ∀ s : WindowStore, s.vaOf 0 = 0 := fun _ => if_pos rfl
        unfold WindowStore.guestWord WindowStore.hierarchyFields
        dsimp only
        rw [hself]
        refine ⟨⟨hmade.place, heap', rfl, hmade.top⟩, hbelow,
          ⟨fun g hg => hword g (syncFields_subset wnd va g hg), hplain.state, hplain.rcClient⟩, ?_⟩
        intro g hg
        apply hword g
        simp only [hlinks.next, hlinks.prev, hlinks.parent, hlinks.child, hlinks.owner,
          hvaOf, List.mem_cons, List.not_mem_nil, or_false] at hg
        unfold guestWndFields
        simp only [List.mem_append, List.mem_cons, List.not_mem_nil, or_false]
        tauto

end Copies

section Calls

variable {s s' : WindowStore} {kids : Int → List Int} {D L : List Int} {v w p : Int} {n : Nat}

theorem live_of_read {wnd : Wnd} (h : s.read w = some wnd) : w ∈ s.live ∧ wnd = s.wnd w := by
  unfold WindowStore.read at h
  split at h
  · next hlive => exact ⟨hlive, (Option.some.inj h).symm⟩
  · cases h

theorem live_of_modify {f : Wnd → Wnd} (h : s.modify w f = some s') :
    w ∈ s.live ∧ s' = s.set w f := by
  unfold WindowStore.modify at h
  split at h
  · next hlive => exact ⟨hlive, (Option.some.inj h).symm⟩
  · cases h

/-- Where the links are lists of children, `user_window_unlink` keeps the copies. -/
theorem Copies.unlink (hl : ChildLists s.links s.live kids) (h : Copies s D L)
    (hL : ∀ v ∈ L, v = w) (hzero : w ≠ 0) (hcall : s.userWindowUnlink w = some s') :
    w ∈ s.live ∧ (s.vaOf w ≠ 0 → s.Points (s.wnd w).spwndOwner) ∧ Copies s' D [] ∧
      ∃ heap, s' = { s.relink (s.links.unlink w) with heap } := by
  have hw : w ∈ s.live := by
    unfold WindowStore.userWindowUnlink at hcall
    rw [if_neg hzero] at hcall
    obtain ⟨old, hread, -⟩ := Option.bind_eq_some_iff.mp hcall
    exact (live_of_read hread).1
  have hnext : s.Points (s.links.next w) := (hl.next_sibling hw).imp id And.left
  have hprev : s.Points (s.links.prev w) := (hl.prev_sibling hw).imp id And.left
  rw [unlink_updates hzero hw (hl.parent w hw) hnext hprev (hl.next_prev_ne_self hw).2] at hcall
  obtain ⟨s₁, hup₁, hcall⟩ := Option.bind_eq_some_iff.mp hcall
  obtain ⟨s₂, hup₂, hcall⟩ := Option.bind_eq_some_iff.mp hcall
  obtain ⟨s₃, hup₃, hup₄⟩ := Option.bind_eq_some_iff.mp hcall
  have hrelink : Copies (s.relink (s.links.unlink w)) D
      [w, s.links.prev w, s.links.next w, s.links.parent w] := by
    apply h.relink
    · exact fun v hv => hL v hv ▸ List.mem_cons_self
    · intro v hv
      simp only [List.mem_cons, List.not_mem_nil, or_false, not_or] at hv
      simp [TreeLinks.unlink, hv.1, hv.2.1, hv.2.2.1, hv.2.2.2]
  refine ⟨hw, fun hva => ((update_some hup₁).2 hva).2,
    (((hrelink.update hup₁).update hup₂).update hup₃).update hup₄, ?_⟩
  have h₁ := (update_some hup₁).1
  have h₂ := (update_some hup₂).1
  have h₃ := (update_some hup₃).1
  have h₄ := (update_some hup₄).1
  subst h₁ h₂ h₃ h₄
  exact ⟨_, rfl⟩

/-- So does `user_window_link_child`. -/
theorem Copies.linkChild (hl : ChildLists s.links s.live kids) (h : Copies s D L)
    (hL : ∀ v ∈ L, v = w) (hp : p ≠ 0) (hzero : w ≠ 0)
    (hcall : s.userWindowLinkChild p w = some s') :
    (p ∈ s.live ∧ w ∈ s.live) ∧ (s.vaOf w ≠ 0 → s.Points (s.wnd w).spwndOwner) ∧
      Copies s' D [] ∧ ∃ heap, s' = { s.relink ((s.links.unlink w).linkFront p w) with heap } := by
  have hwhole := hcall
  unfold WindowStore.userWindowLinkChild at hcall
  rw [if_neg (not_or.mpr ⟨hp, hzero⟩)] at hcall
  obtain ⟨s₁, hunlink, hcall⟩ := Option.bind_eq_some_iff.mp hcall
  obtain ⟨s₂, hparent, hcall⟩ := Option.bind_eq_some_iff.mp hcall
  obtain ⟨par, hread, -⟩ := Option.bind_eq_some_iff.mp hcall
  obtain ⟨hw, howner, hcopies, heap₁, rfl⟩ := h.unlink hl hL hzero hunlink
  have hplive : p ∈ s.live := by
    have hlive := (live_of_read hread).1
    rw [(live_of_modify hparent).2] at hlive
    exact hlive
  let u := s.links.unlink w
  let s₀ : WindowStore := { s.relink u with heap := heap₁ }
  have hlists := hl.unlink hw
  have hpoints : s.Points (u.child p) := (hlists.child_sibling hplive).imp id And.left
  have hfirst : u.child p ≠ w := by
    intro heq
    rcases hlists.child_sibling hplive with hz | ⟨-, hback⟩
    · exact hzero (heq.symm.trans hz)
    · have hnone : u.parent w = 0 := if_pos rfl
      exact hp (hback.symm.trans ((congrArg u.parent heq).trans hnone))
  rw [linkChild_updates hp hzero hunlink hplive hw hpoints hfirst] at hwhole
  obtain ⟨s₃, hup₁, hwhole⟩ := Option.bind_eq_some_iff.mp hwhole
  obtain ⟨s₄, hchild, hwhole⟩ := Option.bind_eq_some_iff.mp hwhole
  obtain ⟨s₅, hup₂, hup₃⟩ := Option.bind_eq_some_iff.mp hwhole
  have hsiblings : Copies (s₀.relink (linkSiblings u p w)) D [u.child p, w] := by
    apply hcopies.relink fun v hv => absurd hv List.not_mem_nil
    intro v hv
    simp only [List.mem_cons, List.not_mem_nil, or_false, not_or] at hv
    have hlinks : s₀.links = u := rfl
    show _ ∧ _ = s₀.links.child v ∧ _
    rw [hlinks]
    simp [linkSiblings, TreeLinks.linkFront, hv.1, hv.2]
  have h₁ := hsiblings.update hup₁
  obtain ⟨heap₂, rfl⟩ : ∃ heap, s₃ =
      WindowStore.relink { s with heap } (linkSiblings u p w) :=
    ⟨(s₀.relink (linkSiblings u p w)).syncLinks heap₁ (u.child p), (update_some hup₁).1⟩
  rw [modify_firstChild (s := { s with heap := heap₂ }) hplive] at hchild
  obtain rfl := Option.some.inj hchild
  have hsame : ∀ v, v ∉ [w, p] →
      (u.linkFront p w).parent v = (linkSiblings u p w).parent v ∧
        (u.linkFront p w).child v = (linkSiblings u p w).child v ∧
        (u.linkFront p w).next v = (linkSiblings u p w).next v ∧
        (u.linkFront p w).prev v = (linkSiblings u p w).prev v := by
    intro v hv
    simp only [List.mem_cons, List.not_mem_nil, or_false, not_or] at hv
    simp [linkSiblings, TreeLinks.linkFront, hv.2]
  have hfront : Copies (WindowStore.relink { s with heap := heap₂ } (u.linkFront p w)) D [w, p] :=
    h₁.relink (fun v hv => List.mem_cons.mpr (.inl (List.mem_singleton.mp hv))) hsame
  refine ⟨⟨hplive, hw⟩, howner, (hfront.update hup₂).update hup₃, ?_⟩
  have heq₂ := (update_some hup₂).1
  have heq₃ := (update_some hup₃).1
  subst heq₂ heq₃
  exact ⟨_, rfl⟩

/-- The windows after `user_window_destroy`, with those below `w` freed. -/
structure Frees (s s' : WindowStore) (w : Int) : Prop where
  desktop : s'.desktop = s.desktop
  live : s'.live ⊆ s.live
  parent : ∀ v ∈ s'.live, s'.links.parent v = s.links.parent v
  same : ∀ v ∈ s'.live, (s'.wnd v).spwndOwner = (s.wnd v).spwndOwner ∧
    (s'.wnd v).guestWndVa = (s.wnd v).guestWndVa
  within : ∀ v ∈ s.live, v ∉ s'.live → s.links.Within s.live v w

theorem Frees.refl (s : WindowStore) (w : Int) : Frees s s w :=
  ⟨rfl, Finset.Subset.refl _, fun _ _ => rfl, fun _ _ => ⟨rfl, rfl⟩, fun _ hv hnot => absurd hv hnot⟩

theorem Frees.trans {s'' : WindowStore} (h : Frees s s' w) (h' : Frees s' s'' w) :
    Frees s s'' w where
  desktop := h'.desktop.trans h.desktop
  live := h'.live.trans h.live
  parent v hv := (h'.parent v hv).trans (h.parent v (h'.live hv))
  same v hv := ⟨(h'.same v hv).1.trans (h.same v (h'.live hv)).1,
    (h'.same v hv).2.trans (h.same v (h'.live hv)).2⟩
  within v hv hnot := by
    by_cases hmid : v ∈ s'.live
    · refine Relation.ReflTransGen.mono ?_ v w (h'.within v hmid hnot)
      rintro a b ⟨ha, hb, hne⟩
      exact ⟨h.live ha, (h.parent a ha).symm.trans hb, hne⟩
    · exact h.within v hv hmid

/-- Freeing a child and the windows below it. -/
theorem Frees.up {c : Int} (h : Frees s s' c) (hc : s.links.ChildOf s.live c w) : Frees s s' w :=
  { h with within := fun v hv hnot => (h.within v hv hnot).tail hc }

theorem Copies.marked (h : Copies s D L) (w : Int) : Copies (s.marked w) (w :: D) L :=
  h.set rfl (fun _ hv => List.mem_cons_of_mem w hv) (fun _ hv => hv)
    (fun _ hnot => absurd List.mem_cons_self hnot) fun _ _ => ⟨rfl, rfl, rfl, rfl, rfl⟩

/-- A window is freed, and its copy marked as the copy of none. -/
theorem Copies.freed {handles : UserHandleTable} (h : Copies s (w :: D) []) (hw : w ∈ s.live) :
    Copies { s with
      heap := if (s.wnd w).guestWndVa ≠ 0 then
          s.heap.map fun heap => guestWndDestroy heap (s.wnd w).guestWndVa
        else s.heap
      handles, live := s.live.erase w } D [] := by
  have hout : ∀ v ∈ s.live.erase w, v ∈ s.live ∧ v ≠ w := fun v hv =>
    ⟨(Finset.mem_erase.mp hv).2, (Finset.mem_erase.mp hv).1⟩
  have hkeep : ∀ {heap}, Copies { s with heap } (w :: D) [w] →
      Copies { s with heap, handles, live := s.live.erase w } D [] := by
    intro heap hc
    refine ⟨fun hz => h.null (hout 0 hz).1, hc.fits, fun v hv => hc.place v (hout v hv).1,
      fun u hu v hv => hc.apart u (hout u hu).1 v (hout v hv).1, fun v hv hva hvD => ?_,
      fun v hv hva _ => hc.links v (hout v hv).1 hva fun hin =>
        (hout v hv).2 (List.mem_singleton.mp hin)⟩
    refine hc.fields v (hout v hv).1 hva fun hin => ?_
    exact (List.mem_cons.mp hin).elim (hout v hv).2 hvD
  by_cases hva : (s.wnd w).guestWndVa = 0
  · rw [if_neg (not_not.mpr hva)]
    exact hkeep ⟨h.null, h.fits, h.place, h.apart, h.fields,
      fun v hv hva _ => h.links v hv hva List.not_mem_nil⟩
  · rw [if_pos hva]
    obtain ⟨hplace, heap, hheap, -⟩ := h.place w hw hva
    have hcontains : desktopHeapContains (s.wnd w).guestWndVa = true := by
      have hlo := hplace.lo
      have hhi := hplace.hi
      have hbase : wndBaseSize.toNat = 228 := by decide
      unfold desktopHeapContains
      rw [decide_eq_true_iff, GE.ge, UInt32.le_iff_toNat_le, UInt32.lt_iff_toNat_lt]
      omega
    have hdestroy : guestWndDestroy heap (s.wnd w).guestWndVa =
        desktopHeapWrites heap (s.wnd w).guestWndVa [(wndHeadH, 0)] := if_pos ⟨hva, hcontains⟩
    rw [hheap, Option.map_some, hdestroy]
    apply hkeep
    have hin : wndHeadH.toNat + 4 ≤ wndBaseSize.toNat := by decide
    apply h.write hw hva hheap
    · exact fun g hg => (List.mem_singleton.mp hg).symm ▸ hin
    · exact fun hnot => absurd List.mem_cons_self hnot
    · exact fun hnot => absurd List.mem_cons_self hnot
    · exact fun hnot => absurd (List.mem_singleton.mpr rfl) hnot
    · exact fun _ _ hv => hv
    · exact fun _ _ hv => absurd hv List.not_mem_nil

/-- The end of `user_window_destroy`, for a window without children. -/
theorem Copies.release (hl : ChildLists s.links s.live kids) (h : Copies s (w :: D) [])
    (hchild : s.links.child w = 0) (hzero : w ≠ 0) (hcall : s.release w = some s') :
    (∃ kids, ChildLists s'.links s'.live kids) ∧ Copies s' D [] ∧ Frees s s' w ∧ w ∉ s'.live := by
  unfold WindowStore.release at hcall
  obtain ⟨s₁, hunlink, hcall⟩ := Option.bind_eq_some_iff.mp hcall
  obtain ⟨wnd, hread, hcall⟩ := Option.bind_eq_some_iff.mp hcall
  obtain ⟨hw, -, hcopies, heap₁, rfl⟩ :=
    h.unlink hl (fun v hv => absurd hv List.not_mem_nil) hzero hunlink
  obtain ⟨-, rfl⟩ := live_of_read hread
  obtain rfl := Option.some.inj hcall
  have hkids : (kids w).erase w = [] := by
    rcases hl.child_cases hw with ⟨-, hnil⟩ | ⟨ws, hcons⟩
    · rw [hnil]
      rfl
    · have hmem : (0 : Int) ∈ kids w := by
        rw [hcons, hchild]
        exact List.mem_cons_self
      exact absurd hmem (hl.not_mem_kids_zero hw)
  refine ⟨⟨_, (hl.unlink hw).erase hw (if_pos rfl) hkids⟩, ?_, ?_, ?_⟩
  · apply hcopies.freed hw
  · refine ⟨rfl, Finset.erase_subset _ _, fun v hv => ?_, fun _ _ => ⟨rfl, rfl⟩, fun v hv hnot => ?_⟩
    · exact if_neg (Finset.mem_erase.mp hv).1
    · have hvw : v = w := by
        by_contra hne
        exact hnot (Finset.mem_erase.mpr ⟨hne, hv⟩)
      rw [hvw]
      exact .refl
  · exact fun hin => (Finset.mem_erase.mp hin).1 rfl

/-- What `user_window_destroy` keeps, however deep it goes, when it returns. -/
def DestroyKeeps (n : Nat) : Prop :=
  ∀ (s s' : WindowStore) (kids : Int → List Int) (D : List Int) (w : Int),
    ChildLists s.links s.live kids → Copies s D [] → s.userWindowDestroy n w = some s' →
    (∃ kids, ChildLists s'.links s'.live kids) ∧ Copies s' D [] ∧ Frees s s' w ∧
      (w ≠ 0 → w ≠ s.desktop → w ∉ s'.live)

/-- The loop over the children ends where there are none. -/
theorem whileChild_keeps (hdestroy : DestroyKeeps n) {k : Nat}
    (hl : ChildLists s.links s.live kids) (h : Copies s D []) (hzero : w ≠ 0)
    (hcall : WindowStore.whileChild (WindowStore.userWindowDestroy n) w k s = some s') :
    (∃ kids, ChildLists s'.links s'.live kids) ∧ Copies s' D [] ∧ Frees s s' w ∧
      s'.links.child w = 0 := by
  induction k generalizing s kids with
  | zero => cases hcall
  | succ k ih =>
    obtain ⟨wnd, hread, hrest⟩ := Option.bind_eq_some_iff.mp hcall
    obtain ⟨hw, rfl⟩ := live_of_read hread
    by_cases hchild : (s.wnd w).spwndChild = 0
    · rw [if_pos hchild] at hrest
      obtain rfl := Option.some.inj hrest
      exact ⟨⟨kids, hl⟩, h, .refl s w, hchild⟩
    · rw [if_neg hchild] at hrest
      obtain ⟨s₁, hfirst, hrest⟩ := Option.bind_eq_some_iff.mp hrest
      obtain ⟨⟨kids₁, hl₁⟩, h₁, hfrees, -⟩ := hdestroy s s₁ kids D _ hl h hfirst
      obtain ⟨hl', h', hfrees', hnone⟩ := ih hl₁ h₁ hrest
      obtain ⟨hc, hparent⟩ := (hl.child_sibling hw).resolve_left hchild
      exact ⟨hl', h', (hfrees.up ⟨hc, hparent, hzero⟩).trans hfrees', hnone⟩

theorem destroyKeeps (n : Nat) : DestroyKeeps n := by
  induction n with
  | zero => exact fun s s' kids D w _ _ hcall => by cases hcall
  | succ n ih =>
    intro s s' kids D w hl h hcall
    rw [WindowStore.userWindowDestroy] at hcall
    by_cases hzero : w = 0
    · rw [if_pos hzero] at hcall
      obtain rfl := Option.some.inj hcall
      exact ⟨⟨kids, hl⟩, h, .refl s w, fun hne => absurd hzero hne⟩
    · rw [if_neg hzero] at hcall
      by_cases hdesktop : w = s.desktop
      · rw [if_pos hdesktop] at hcall
        obtain rfl := Option.some.inj hcall
        exact ⟨⟨kids, hl⟩, h, .refl s w, fun _ hne => absurd hdesktop hne⟩
      · rw [if_neg hdesktop] at hcall
        obtain ⟨s₁, hmark, hcall⟩ := Option.bind_eq_some_iff.mp hcall
        obtain ⟨s₂, hwhile, hrelease⟩ := Option.bind_eq_some_iff.mp hcall
        obtain ⟨-, rfl⟩ := live_of_modify hmark
        have hlmark : ChildLists (s.marked w).links (s.marked w).live kids := by
          rw [marked_links]
          exact hl
        obtain ⟨⟨kids₂, hl₂⟩, h₂, hfrees, hchild⟩ :=
          whileChild_keeps ih hlmark (h.marked w) hzero hwhile
        obtain ⟨hl', h', hfrees', hgone⟩ := h₂.release hl₂ hchild hzero hrelease
        have hmarked : Frees s (s.marked w) w := by
          refine ⟨rfl, Finset.Subset.refl _, fun v _ => ?_, fun v _ => sameOwners_marked v,
            fun v hv hnot => absurd hv hnot⟩
          rw [marked_links]
        exact ⟨hl', h', (hmarked.trans hfrees).trans hfrees', fun _ _ => hgone⟩

end Calls

end Wbox.User
