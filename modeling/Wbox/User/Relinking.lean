import Wbox.User.GuestCopies

/-!
# What linking leaves

Linking and unlinking change the links of windows and the guest's copies; whatever the links are,
the windows and the rest of their records stay.
-/

namespace Wbox.User

/-- A window without its links. -/
def Wnd.unlinked (wnd : Wnd) : Wnd :=
  { wnd with spwndNext := 0, spwndPrev := 0, spwndParent := 0, spwndChild := 0, spwndOwner := 0 }

/-- The same windows with other links. -/
structure Relinked (s s' : WindowStore) : Prop where
  live : s'.live = s.live
  desktop : s'.desktop = s.desktop
  records : ∀ w, (s'.wnd w).unlinked = (s.wnd w).unlinked

variable {s s' s'' : WindowStore} {w parent child owner : Int} {f : Wnd → Wnd}

namespace Relinked

theorem refl (s : WindowStore) : Relinked s s := ⟨rfl, rfl, fun _ => rfl⟩

theorem trans (h : Relinked s s') (h' : Relinked s' s'') : Relinked s s'' where
  live := h'.live.trans h.live
  desktop := h'.desktop.trans h.desktop
  records w := (h'.records w).trans (h.records w)

theorem style (h : Relinked s s') (w : Int) : (s'.wnd w).style = (s.wnd w).style := by
  show (s'.wnd w).unlinked.style = (s.wnd w).unlinked.style
  rw [h.records w]

theorem state (h : Relinked s s') (w : Int) : (s'.wnd w).state = (s.wnd w).state := by
  show (s'.wnd w).unlinked.state = (s.wnd w).unlinked.state
  rw [h.records w]

/-- A change of links of a single window. -/
theorem modify (h : s.modify w f = some s') (hf : ∀ wnd, (f wnd).unlinked = wnd.unlinked) :
    Relinked s s' := by
  unfold WindowStore.modify at h
  split at h
  · obtain rfl := Option.some.inj h
    refine ⟨rfl, rfl, fun v => ?_⟩
    by_cases hv : v = w
    · subst hv
      show (Function.update s.wnd v (f (s.wnd v)) v).unlinked = _
      rw [Function.update_self, hf]
    · show (Function.update s.wnd w (f (s.wnd w)) v).unlinked = _
      rw [Function.update_of_ne hv]
  · cases h

theorem modifyAt (h : s.modifyAt w f = some s') (hf : ∀ wnd, (f wnd).unlinked = wnd.unlinked) :
    Relinked s s' := by
  unfold WindowStore.modifyAt at h
  split at h
  · obtain rfl := Option.some.inj h
    exact refl s
  · exact modify h hf

theorem update (h : s.guestWndUpdateHierarchy w = some s') : Relinked s s' := by
  obtain ⟨rfl, -⟩ := update_some h
  exact ⟨rfl, rfl, fun _ => rfl⟩

theorem unlinkFirst {next : Int} (h : s.unlinkFirst w parent next = some s') : Relinked s s' := by
  unfold WindowStore.unlinkFirst at h
  split at h
  · obtain rfl := Option.some.inj h
    exact refl s
  · obtain ⟨wnd, -, h⟩ := Option.bind_eq_some_iff.mp h
    split at h
    · exact modify h fun _ => rfl
    · obtain rfl := Option.some.inj h
      exact refl s

/-- `user_window_unlink`. -/
theorem unlink (h : s.userWindowUnlink w = some s') : Relinked s s' := by
  unfold WindowStore.userWindowUnlink at h
  split at h
  · obtain rfl := Option.some.inj h
    exact refl s
  · obtain ⟨old, -, h⟩ := Option.bind_eq_some_iff.mp h
    obtain ⟨s₁, h₁, h⟩ := Option.bind_eq_some_iff.mp h
    obtain ⟨wnd, -, h⟩ := Option.bind_eq_some_iff.mp h
    obtain ⟨s₂, h₂, h⟩ := Option.bind_eq_some_iff.mp h
    obtain ⟨wnd', -, h⟩ := Option.bind_eq_some_iff.mp h
    obtain ⟨s₃, h₃, h⟩ := Option.bind_eq_some_iff.mp h
    obtain ⟨s₄, h₄, h⟩ := Option.bind_eq_some_iff.mp h
    obtain ⟨s₅, h₅, h⟩ := Option.bind_eq_some_iff.mp h
    obtain ⟨s₆, h₆, h⟩ := Option.bind_eq_some_iff.mp h
    obtain ⟨s₇, h₇, h⟩ := Option.bind_eq_some_iff.mp h
    have hlinks := ((modifyAt h₁ fun _ => rfl).trans (modifyAt h₂ fun _ => rfl)).trans
      ((unlinkFirst h₃).trans (modify h₄ fun _ => rfl))
    exact hlinks.trans (((update h₅).trans (update h₆)).trans ((update h₇).trans (update h)))

/-- `user_window_link_child`. -/
theorem linkChild (h : s.userWindowLinkChild parent child = some s') : Relinked s s' := by
  unfold WindowStore.userWindowLinkChild at h
  split at h
  · obtain rfl := Option.some.inj h
    exact refl s
  · obtain ⟨s₁, h₁, h⟩ := Option.bind_eq_some_iff.mp h
    obtain ⟨s₂, h₂, h⟩ := Option.bind_eq_some_iff.mp h
    obtain ⟨par, -, h⟩ := Option.bind_eq_some_iff.mp h
    obtain ⟨s₃, h₃, h⟩ := Option.bind_eq_some_iff.mp h
    obtain ⟨s₄, h₄, h⟩ := Option.bind_eq_some_iff.mp h
    obtain ⟨s₅, h₅, h⟩ := Option.bind_eq_some_iff.mp h
    obtain ⟨s₆, h₆, h⟩ := Option.bind_eq_some_iff.mp h
    obtain ⟨s₇, h₇, h⟩ := Option.bind_eq_some_iff.mp h
    have hlinks := ((unlink h₁).trans (modify h₂ fun _ => rfl)).trans
      ((modify h₃ fun _ => rfl).trans (modifyAt h₄ fun _ => rfl))
    exact hlinks.trans
      (((update h₅).trans (modify h₆ fun _ => rfl)).trans ((update h₇).trans (update h)))

end Relinked

/-- `user_window_create` makes no window, or puts a new one into memory and links it. -/
theorem create_cases {mem : WndMemory} {a : WndArgs}
    (h : s.userWindowCreate mem a parent owner = some (s', w)) :
    (w = 0 ∧ (s.windowCreateInternal mem a.withDefaults).2 = 0 ∧ ∃ handles, s' = { s with handles }) ∨
      (w = mem.wnd ∧ w ≠ 0 ∧ (s.windowCreateInternal mem a.withDefaults).2 ≠ 0 ∧
        ∃ handles hwnd, Relinked
          (WindowStore.place { s with handles } w (newWnd hwnd a.withDefaults)) s') := by
  unfold WindowStore.userWindowCreate at h
  dsimp only at h
  rcases createInternal_cases s mem a.withDefaults with ⟨handles, hnone⟩ | ⟨handles, hwnd, hzero, hnew⟩
  · rw [hnone] at h ⊢
    obtain ⟨rfl, rfl⟩ := Prod.mk.inj (Option.some.inj h)
    exact .inl ⟨rfl, rfl, handles, rfl⟩
  · rw [hnew] at h ⊢
    dsimp only at h
    rw [if_neg hzero] at h
    obtain ⟨s₁, h₁, h⟩ := Option.bind_eq_some_iff.mp h
    obtain ⟨s₂, h₂, h⟩ := Option.bind_eq_some_iff.mp h
    obtain ⟨rfl, rfl⟩ := Prod.mk.inj (Option.some.inj h)
    exact .inr ⟨rfl, hzero, hzero, handles, hwnd,
      (Relinked.modify h₁ fun _ => rfl).trans (Relinked.linkChild h₂)⟩

end Wbox.User
