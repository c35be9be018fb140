import Wbox.Lib.Bits
import Wbox.Lib.Trace
import Wbox.User.Relinking
import Wbox.User.WindowLongs

/-!
# What the style and the state of a window say

Four facts stand in the style and in the state of a window. `window_create_internal` takes them from
the style, `user_window_show` changes the state and only the first of them in the style, and
`user_window_set_long` brings two of them into the state (`src/user/user_window.c:83–95,415–554`).
-/

namespace Wbox.User

open Wbox.Lib Wbox.Vm

namespace Wnd

/-- The style and the state say the same, and not both minimized and maximized. -/
structure Coherent (wnd : Wnd) : Prop where
  visible : wnd.style &&& wsVisible ≠ 0 ↔ wnd.state &&& wndsVisible ≠ 0
  disabled : wnd.style &&& wsDisabled ≠ 0 ↔ wnd.state &&& wndsDisabled ≠ 0
  minimized : wnd.style &&& wsMinimize ≠ 0 ↔ wnd.state &&& wndsMinimized ≠ 0
  maximized : wnd.style &&& wsMaximize ≠ 0 ↔ wnd.state &&& wndsMaximized ≠ 0
  notBoth : ¬ (wnd.style &&& wsMinimize ≠ 0 ∧ wnd.style &&& wsMaximize ≠ 0)

/-- The window after `user_window_show`. -/
def userShown (wnd : Wnd) (nCmdShow : Int32) : Wnd :=
  { wnd with
    state := (userWindowShow wnd.state wnd.style nCmdShow).1
    style := (userWindowShow wnd.state wnd.style nCmdShow).2 }

/-- The style has the bits of a command that shows the window minimized, maximized or as neither;
other commands leave these bits of the state. -/
def ShowFits (style : UInt32) (nCmdShow : Int32) : Prop :=
  if nCmdShow = 5 ∨ nCmdShow = 1 ∨ nCmdShow = 8 ∨ nCmdShow = 4 ∨ nCmdShow = 9 then
    style &&& wsMinimize = 0 ∧ style &&& wsMaximize = 0
  else if nCmdShow = 2 ∨ nCmdShow = 6 ∨ nCmdShow = 7 ∨ nCmdShow = 11 then
    style &&& wsMinimize ≠ 0 ∧ style &&& wsMaximize = 0
  else if nCmdShow = 3 then style &&& wsMaximize ≠ 0 ∧ style &&& wsMinimize = 0
  else True

end Wnd

/-- Creating, showing and changing windows. -/
inductive StateOp where
  | create (mem : WndMemory) (args : WndArgs) (parent owner : Int)
  | userShow (wnd : Int) (nCmdShow : Int32)
  | setLong (wnd : Int) (index : Int32) (value : UInt32)

namespace WindowMemory

/-- A call. -/
def stateStep (s : WindowMemory) : StateOp → Option WindowMemory
  | .create mem args parent owner => s.wndStep 0 (.call (.create mem args parent owner))
  | .userShow w nCmdShow => (s.modifyAt w fun wnd => wnd.userShown nCmdShow).map fun store =>
    { s with toWindowStore := store }
  | .setLong w index value => s.wndStep 0 (.setLong w index value)

/-- All windows are coherent. -/
def AllCoherent (s : WindowMemory) : Prop := ∀ w ∈ s.live, (s.wnd w).Coherent

/-- A new window is not both minimized and maximized; a command finds the style as it leaves the
state; and a new style keeps these two bits. -/
def KeepsCoherent (s : WindowMemory) : StateOp → Prop
  | .create mem args _ _ => (s.windowCreateInternal mem args.withDefaults).2 = 0 ∨
    ¬ (args.style &&& wsMinimize ≠ 0 ∧ args.style &&& wsMaximize ≠ 0)
  | .userShow w nCmdShow => w = 0 ∨ Wnd.ShowFits (s.wnd w).style nCmdShow
  | .setLong w index value => w = 0 ∨ (index = gwlStyle →
    (value &&& wsMinimize ≠ 0 ↔ (s.wnd w).style &&& wsMinimize ≠ 0) ∧
      (value &&& wsMaximize ≠ 0 ↔ (s.wnd w).style &&& wsMaximize ≠ 0))

end WindowMemory

namespace Wnd

variable {wnd : Wnd} {style state value x : UInt32} {nCmdShow index : Int32}

theorem visible_style (x : UInt32) : x &&& wsVisible ≠ 0 ↔ bit x 28 = true :=
  and_mask_ne_zero x (by decide : 28 < 32)

theorem disabled_style (x : UInt32) : x &&& wsDisabled ≠ 0 ↔ bit x 27 = true :=
  and_mask_ne_zero x (by decide : 27 < 32)

theorem minimize_style (x : UInt32) : x &&& wsMinimize ≠ 0 ↔ bit x 29 = true :=
  and_mask_ne_zero x (by decide : 29 < 32)

theorem maximize_style (x : UInt32) : x &&& wsMaximize ≠ 0 ↔ bit x 24 = true :=
  and_mask_ne_zero x (by decide : 24 < 32)

theorem visible_state (x : UInt32) : x &&& wndsVisible ≠ 0 ↔ bit x 0 = true :=
  and_mask_ne_zero x (by decide : 0 < 32)

theorem disabled_state (x : UInt32) : x &&& wndsDisabled ≠ 0 ↔ bit x 1 = true :=
  and_mask_ne_zero x (by decide : 1 < 32)

theorem maximized_state (x : UInt32) : x &&& wndsMaximized ≠ 0 ↔ bit x 2 = true :=
  and_mask_ne_zero x (by decide : 2 < 32)

theorem minimized_state (x : UInt32) : x &&& wndsMinimized ≠ 0 ↔ bit x 3 = true :=
  and_mask_ne_zero x (by decide : 3 < 32)

/-- The bits of the masks of the state. -/
theorem bits_states :
    (bit wndsVisible 0 = true ∧ bit wndsVisible 1 = false ∧ bit wndsVisible 2 = false ∧
      bit wndsVisible 3 = false) ∧
    (bit wndsDisabled 0 = false ∧ bit wndsDisabled 1 = true ∧ bit wndsDisabled 2 = false ∧
      bit wndsDisabled 3 = false) ∧
    (bit wndsMaximized 0 = false ∧ bit wndsMaximized 1 = false ∧ bit wndsMaximized 2 = true ∧
      bit wndsMaximized 3 = false) ∧
    (bit wndsMinimized 0 = false ∧ bit wndsMinimized 1 = false ∧ bit wndsMinimized 2 = false ∧
      bit wndsMinimized 3 = true) := by
  decide

/-- The bits of the mask of `WS_VISIBLE`. -/
theorem bits_visible : bit wsVisible 28 = true ∧ bit wsVisible 27 = false ∧
    bit wsVisible 29 = false ∧ bit wsVisible 24 = false := by
  decide

/-- A style and a state that say the same, by their bits. -/
def CoherentWords (style state : UInt32) : Prop :=
  bit style 28 = bit state 0 ∧ bit style 27 = bit state 1 ∧ bit style 29 = bit state 3 ∧
    bit style 24 = bit state 2 ∧ ¬ (bit style 29 = true ∧ bit style 24 = true)

theorem coherent_iff : wnd.Coherent ↔ CoherentWords wnd.style wnd.state := by
  unfold CoherentWords
  constructor
  · intro h
    have hvisible := h.visible
    have hdisabled := h.disabled
    have hminimized := h.minimized
    have hmaximized := h.maximized
    have hnot := h.notBoth
    rw [visible_style, visible_state] at hvisible
    rw [disabled_style, disabled_state] at hdisabled
    rw [minimize_style, minimized_state] at hminimized
    rw [maximize_style, maximized_state] at hmaximized
    rw [minimize_style, maximize_style] at hnot
    exact ⟨Bool.eq_iff_iff.mpr hvisible, Bool.eq_iff_iff.mpr hdisabled,
      Bool.eq_iff_iff.mpr hminimized, Bool.eq_iff_iff.mpr hmaximized, hnot⟩
  · rintro ⟨hvisible, hdisabled, hminimized, hmaximized, hnot⟩
    constructor
    · rw [visible_style, visible_state, hvisible]
    · rw [disabled_style, disabled_state, hdisabled]
    · rw [minimize_style, minimized_state, hminimized]
    · rw [maximize_style, maximized_state, hmaximized]
    · rw [minimize_style, maximize_style]
      exact hnot

/-- The bits of the state of a new window. -/
theorem bits_initialState (style : UInt32) :
    bit (initialState style) 0 = bit style 28 ∧ bit (initialState style) 1 = bit style 27 ∧
      bit (initialState style) 3 = bit style 29 ∧ bit (initialState style) 2 = bit style 24 := by
  unfold initialState
  simp only [visible_style, disabled_style, minimize_style, maximize_style]
  cases bit style 28 <;> cases bit style 27 <;> cases bit style 29 <;> cases bit style 24 <;>
    simp [bits_states]

/-- A new window is coherent unless it is to be both minimized and maximized. -/
theorem coherent_initial (hstate : wnd.state = initialState wnd.style) :
    wnd.Coherent ↔ ¬ (wnd.style &&& wsMinimize ≠ 0 ∧ wnd.style &&& wsMaximize ≠ 0) := by
  obtain ⟨hvisible, hdisabled, hminimized, hmaximized⟩ := bits_initialState wnd.style
  rw [coherent_iff, CoherentWords, hstate, hvisible, hdisabled, hminimized, hmaximized,
    minimize_style, maximize_style]
  simp

theorem minimize_style_zero (x : UInt32) : x &&& wsMinimize = 0 ↔ bit x 29 = false := by
  rw [← Bool.not_eq_true, ← minimize_style, not_not]

theorem maximize_style_zero (x : UInt32) : x &&& wsMaximize = 0 ↔ bit x 24 = false := by
  rw [← Bool.not_eq_true, ← maximize_style, not_not]

theorem hide_words (h : CoherentWords style state) :
    CoherentWords (style &&& ~~~wsVisible) (state &&& ~~~wndsVisible) := by
  obtain ⟨hvisible, hdisabled, hminimized, hmaximized, hboth⟩ := h
  unfold CoherentWords
  simp only [bit_and, bit_not _ (by decide : 28 < 32), bit_not _ (by decide : 27 < 32),
    bit_not _ (by decide : 29 < 32), bit_not _ (by decide : 24 < 32),
    bit_not _ (by decide : 0 < 32), bit_not _ (by decide : 1 < 32), bit_not _ (by decide : 2 < 32),
    bit_not _ (by decide : 3 < 32), bits_states, bits_visible, Bool.not_true, Bool.not_false,
    Bool.and_false, Bool.and_true]
  exact ⟨trivial, hdisabled, hminimized, hmaximized, hboth⟩

/-- A command that shows the window sets the first bit, and clears or sets the other two. -/
theorem show_words (h : CoherentWords style state) {set clear : UInt32}
    (hset : bit set 0 = true ∧ bit set 1 = false) (hclear : bit clear 0 = false ∧ bit clear 1 = false)
    (hmin : bit set 3 = !bit clear 3) (hmax : bit set 2 = !bit clear 2) :
    CoherentWords (style ||| wsVisible) ((state ||| set) &&& ~~~clear) ↔
      bit style 29 = bit set 3 ∧ bit style 24 = bit set 2 ∧
        ¬ (bit set 3 = true ∧ bit set 2 = true) := by
  obtain ⟨hvisible, hdisabled, hminimized, hmaximized, hboth⟩ := h
  unfold CoherentWords
  simp only [bit_and, bit_or, bit_not _ (by decide : 0 < 32), bit_not _ (by decide : 1 < 32),
    bit_not _ (by decide : 2 < 32), bit_not _ (by decide : 3 < 32), bits_visible, hset, hclear,
    hmin, hmax, Bool.not_false, Bool.and_true, Bool.or_true, Bool.or_false, true_and, hdisabled]
  cases bit style 29 <;> cases bit style 24 <;> cases bit clear 3 <;> cases bit clear 2 <;> simp

/-- A coherent window that is shown stays so if and only if its style fits the command. -/
theorem coherent_userShown (h : wnd.Coherent) (nCmdShow : Int32) :
    (wnd.userShown nCmdShow).Coherent ↔ ShowFits wnd.style nCmdShow := by
  rw [coherent_iff] at h ⊢
  unfold userShown userWindowShow ShowFits
  simp only [ne_eq, minimize_style_zero, maximize_style_zero, Bool.not_eq_false]
  by_cases hhide : nCmdShow = 0
  · subst hhide
    rw [if_pos rfl, if_neg (by decide), if_neg (by decide), if_neg (by decide)]
    exact iff_of_true (hide_words h) trivial
  rw [if_neg hhide]
  by_cases hnormal : nCmdShow = 5 ∨ nCmdShow = 1 ∨ nCmdShow = 8 ∨ nCmdShow = 4 ∨ nCmdShow = 9
  · have hwords : CoherentWords (wnd.style ||| wsVisible)
        ((wnd.state ||| wndsVisible) &&& ~~~(wndsMinimized ||| wndsMaximized)) ↔
          bit wnd.style 29 = false ∧ bit wnd.style 24 = false := by
      rw [show_words h (by decide) (by decide) (by decide) (by decide)]
      simp [bits_states]
    rcases hnormal with rfl | rfl | rfl | rfl | rfl <;> exact hwords
  rw [if_neg hnormal]
  by_cases hminimized : nCmdShow = 2 ∨ nCmdShow = 6 ∨ nCmdShow = 7 ∨ nCmdShow = 11
  · have hwords : CoherentWords (wnd.style ||| wsVisible)
        ((wnd.state ||| (wndsVisible ||| wndsMinimized)) &&& ~~~wndsMaximized) ↔
          bit wnd.style 29 = true ∧ bit wnd.style 24 = false := by
      rw [show_words h (by decide) (by decide) (by decide) (by decide)]
      simp [bits_states]
    rcases hminimized with rfl | rfl | rfl | rfl <;> exact hwords
  rw [if_neg hminimized]
  by_cases hmaximized : nCmdShow = 3
  · have hwords : CoherentWords (wnd.style ||| wsVisible)
        ((wnd.state ||| (wndsVisible ||| wndsMaximized)) &&& ~~~wndsMinimized) ↔
          bit wnd.style 24 = true ∧ bit wnd.style 29 = false := by
      rw [show_words h (by decide) (by decide) (by decide) (by decide)]
      simp [bits_states, and_comm]
    rcases hmaximized with rfl
    exact hwords
  -- the other commands are not known
  rw [if_neg hmaximized]
  have hfour : ¬ (nCmdShow = 5 ∨ nCmdShow = 1 ∨ nCmdShow = 8 ∨ nCmdShow = 4) :=
    fun hin => hnormal (by rcases hin with h | h | h | h <;> simp [h])
  have hnine : nCmdShow ≠ 9 := fun h => hnormal (by simp [h])
  rw [if_neg hfour, if_neg hminimized, if_neg hmaximized, if_neg hnine]
  exact iff_of_true h trivial

/-- The bits of the state after a new style. -/
theorem bits_styleState (state value : UInt32) :
    bit (styleState state value) 0 = bit value 28 ∧ bit (styleState state value) 1 = bit value 27 ∧
      bit (styleState state value) 3 = bit state 3 ∧
      bit (styleState state value) 2 = bit state 2 := by
  unfold styleState
  simp only [visible_style, disabled_style]
  cases bit value 28 <;> cases bit value 27 <;>
    simp [bits_states, bit_not _ (by decide : 0 < 32), bit_not _ (by decide : 1 < 32),
      bit_not _ (by decide : 2 < 32), bit_not _ (by decide : 3 < 32)]

/-- A coherent window with a new style stays so if and only if the style keeps two of its bits. -/
theorem coherent_setLong (h : wnd.Coherent) (index : Int32) (value : UInt32) :
    (wnd.setLong index value).Coherent ↔ (index = gwlStyle →
      (value &&& wsMinimize ≠ 0 ↔ wnd.style &&& wsMinimize ≠ 0) ∧
        (value &&& wsMaximize ≠ 0 ↔ wnd.style &&& wsMaximize ≠ 0)) := by
  by_cases hstyle : index = gwlStyle
  · subst hstyle
    have hset : wnd.setLong gwlStyle value =
        { wnd with style := value, state := styleState wnd.state value } := rfl
    obtain ⟨hvisible, hdisabled, hminimized, hmaximized⟩ := bits_styleState wnd.state value
    rw [coherent_iff] at h ⊢
    obtain ⟨-, -, hmin, hmax, hnot⟩ := h
    rw [hset, CoherentWords, hvisible, hdisabled, hminimized, hmaximized, ← hmin, ← hmax]
    simp only [minimize_style, maximize_style, true_and]
    constructor
    · rintro ⟨hsame, hsame', -⟩ -
      rw [hsame, hsame']
      exact ⟨Iff.rfl, Iff.rfl⟩
    · intro hsame
      obtain ⟨hsame, hsame'⟩ := hsame trivial
      refine ⟨Bool.eq_iff_iff.mpr hsame, Bool.eq_iff_iff.mpr hsame', ?_⟩
      rwa [hsame, hsame']
  · rw [coherent_iff] at h ⊢
    rw [WindowMemory.setLong_style hstyle, WindowMemory.setLong_state hstyle]
    exact iff_of_true h fun heq => absurd heq hstyle

end Wnd

namespace WindowMemory

variable {s s' : WindowMemory} {w : Int} {op : StateOp}

/-- The coherence of all windows depends on their words. -/
theorem AllCoherent.congr (h : s.AllCoherent) (hlive : s'.live = s.live)
    (hwnd : ∀ v ∈ s.live, (s'.wnd v).style = (s.wnd v).style ∧ (s'.wnd v).state = (s.wnd v).state) :
    s'.AllCoherent := by
  intro v hv
  rw [hlive] at hv
  obtain ⟨hstyle, hstate⟩ := hwnd v hv
  have hold := h v hv
  rw [Wnd.coherent_iff] at hold ⊢
  rw [hstyle, hstate]
  exact hold

/-- A window that is changed or new among coherent ones. -/
theorem AllCoherent.iff_of_rest (h : s.AllCoherent) (hw : w ∈ s'.live)
    (hlive : ∀ v ∈ s'.live, v ≠ w → v ∈ s.live ∧ (s'.wnd v).style = (s.wnd v).style ∧
      (s'.wnd v).state = (s.wnd v).state) :
    s'.AllCoherent ↔ (s'.wnd w).Coherent := by
  refine ⟨fun hall => hall w hw, fun hself v hv => ?_⟩
  by_cases hvw : v = w
  · rw [hvw]
    exact hself
  · obtain ⟨hin, hstyle, hstate⟩ := hlive v hv hvw
    have hold := h v hin
    rw [Wnd.coherent_iff] at hold ⊢
    rw [hstyle, hstate]
    exact hold

/-- Making a window among coherent ones. -/
theorem AllCoherent.create {mem : WndMemory} {a : WndArgs} {parent owner : Int}
    (h : s.AllCoherent) (hstep : s.stateStep (.create mem a parent owner) = some s') :
    s'.AllCoherent ↔ s.KeepsCoherent (.create mem a parent owner) := by
  unfold stateStep wndStep WindowStore.windowStep at hstep
  obtain ⟨store, hcall, rfl⟩ := Option.map_eq_some_iff.mp hstep
  dsimp only at hcall
  split at hcall
  · cases hcall
  · next hfresh =>
    unfold WindowStore.windowCall at hcall
    obtain ⟨⟨store', w⟩, hcreate, rfl⟩ := Option.map_eq_some_iff.mp hcall
    dsimp only [KeepsCoherent]
    rcases create_cases hcreate with ⟨-, hnone, handles, rfl⟩ | ⟨rfl, -, hsome, handles, hwnd, hlinks⟩
    · exact iff_of_true (h.congr rfl fun _ _ => ⟨rfl, rfl⟩) (.inl hnone)
    · obtain ⟨hlive, -, hother, va, hself⟩ := place_spec { s.toWindowStore with handles } mem.wnd
        (newWnd hwnd a.withDefaults)
      have hlive' : store'.live = insert mem.wnd s.live := hlinks.live.trans hlive
      rw [h.iff_of_rest (w := mem.wnd) (by rw [hlive']; exact Finset.mem_insert_self _ _) ?_,
        Wnd.coherent_initial ?_, or_iff_right hsome, hlinks.style, hself]
      · rfl
      · rw [hlinks.state, hlinks.style, hself]
        rfl
      · intro v hv hvw
        rw [hlive'] at hv
        refine ⟨(Finset.mem_insert.mp hv).resolve_left hvw, ?_, ?_⟩
        · rw [hlinks.style, hother v hvw]
        · rw [hlinks.state, hother v hvw]

/-- Changing a window among coherent ones. -/
theorem AllCoherent.set {f : Wnd → Wnd} {store : WindowStore} {extra : Int → Nat → UInt8}
    (h : s.AllCoherent) (hw : w ∈ s.live) (hstore : store = s.set w f) :
    AllCoherent { toWindowStore := store, extraBytes := extra } ↔ (f (s.wnd w)).Coherent := by
  subst hstore
  have hself : (s.set w f).wnd w = f (s.wnd w) := Function.update_self _ _ _
  rw [← hself]
  apply h.iff_of_rest
  · exact hw
  · intro v hv hvw
    have hother : (s.set w f).wnd v = s.wnd v := Function.update_of_ne hvw _ _
    exact ⟨hv, congrArg (fun wnd : Wnd => wnd.style) hother,
      congrArg (fun wnd : Wnd => wnd.state) hother⟩

/-- Showing a window among coherent ones. -/
theorem AllCoherent.userShow {nCmdShow : Int32} (h : s.AllCoherent)
    (hstep : s.stateStep (.userShow w nCmdShow) = some s') :
    s'.AllCoherent ↔ s.KeepsCoherent (.userShow w nCmdShow) := by
  unfold stateStep WindowStore.modifyAt at hstep
  dsimp only [KeepsCoherent]
  obtain ⟨store, hstore, rfl⟩ := Option.map_eq_some_iff.mp hstep
  by_cases hzero : w = 0
  · rw [if_pos hzero] at hstore
    obtain rfl := Option.some.inj hstore
    exact iff_of_true h (.inl hzero)
  · rw [if_neg hzero] at hstore
    unfold WindowStore.modify at hstore
    split at hstore
    · next hw =>
      rw [h.set hw (Option.some.inj hstore).symm, Wnd.coherent_userShown (h w hw),
        or_iff_right hzero]
    · cases hstore

/-- Setting a long of a window among coherent ones. -/
theorem AllCoherent.setLong {index : Int32} {value : UInt32} (h : s.AllCoherent)
    (hstep : s.stateStep (.setLong w index value) = some s') :
    s'.AllCoherent ↔ s.KeepsCoherent (.setLong w index value) := by
  unfold stateStep wndStep at hstep
  dsimp only [KeepsCoherent]
  obtain ⟨⟨s'', old⟩, hset, rfl⟩ := Option.map_eq_some_iff.mp hstep
  by_cases hzero : w = 0
  · unfold userWindowSetLong at hset
    rw [if_pos hzero] at hset
    obtain ⟨rfl, -⟩ := Prod.mk.inj (Option.some.inj hset)
    exact iff_of_true h (.inl hzero)
  · have hw : w ∈ s.live := by
      by_contra hdead
      unfold userWindowSetLong userWindowGetLong WindowStore.read at hset
      rw [if_neg hzero, if_neg hzero, if_neg hdead] at hset
      cases hset
    have hget : ∃ old', s.userWindowGetLong w index = some old' := by
      unfold userWindowSetLong at hset
      rw [if_neg hzero] at hset
      obtain ⟨old', hget, -⟩ := Option.bind_eq_some_iff.mp hset
      exact ⟨old', hget⟩
    obtain ⟨old', hget⟩ := hget
    rw [userWindowSetLong_eq hzero hw hget] at hset
    obtain ⟨rfl, -⟩ := Prod.mk.inj (Option.some.inj hset)
    rw [or_iff_right hzero, ← Wnd.coherent_setLong (h w hw) index value]
    exact h.set hw (longSet_store s w index value)

theorem AllCoherent.step (h : s.AllCoherent) (hstep : s.stateStep op = some s') :
    s'.AllCoherent ↔ s.KeepsCoherent op := by
  cases op with
  | create mem a parent owner => exact h.create hstep
  | userShow w nCmdShow => exact h.userShow hstep
  | setLong w index value => exact h.setLong hstep

/-- The windows after `user_window_init`. -/
def windowStart (store : WindowStore) (mem : WndMemory) (desktopCls : Option WndClass) :
    WindowMemory where
  toWindowStore := (store.userWindowInit mem desktopCls).1
  extraBytes _ _ := 0

/-- The desktop is coherent. -/
theorem allCoherent_start {store : WindowStore} (hempty : store.live = ∅) (mem : WndMemory)
    (desktopCls : Option WndClass) : (windowStart store mem desktopCls).AllCoherent := by
  intro w hw
  unfold windowStart WindowStore.userWindowInit at hw ⊢
  dsimp only at hw ⊢
  rcases createInternal_cases store mem { pcls := desktopCls
                                          style := wsPopup ||| wsVisible ||| wsClipChildren
                                          cx := 800, cy := 600 }
    with ⟨handles, hnone⟩ | ⟨handles, hwnd, -, hnew⟩
  · rw [hnone] at hw
    dsimp only at hw
    rw [hempty] at hw
    cases hw
  · rw [hnew] at hw ⊢
    dsimp only at hw ⊢
    obtain ⟨hlive, -, -, va, hself⟩ := place_spec { store with handles } mem.wnd
      (newWnd hwnd { pcls := desktopCls, style := wsPopup ||| wsVisible ||| wsClipChildren
                     cx := 800, cy := 600 })
    rw [hlive] at hw
    dsimp only at hw
    rw [hempty] at hw
    have hwm : w = mem.wnd := by simpa using hw
    rw [hwm, hself, Wnd.coherent_initial rfl]
    have hstyle : ¬ ((wsPopup ||| wsVisible ||| wsClipChildren) &&& wsMinimize ≠ 0 ∧
        (wsPopup ||| wsVisible ||| wsClipChildren) &&& wsMaximize ≠ 0) := by decide
    exact hstyle

/-- In a run of creating, showing and changing windows all are coherent, exactly if every call keeps
them so. -/
theorem windowRun_coherent_iff {store : WindowStore} (hempty : store.live = ∅) {mem : WndMemory}
    {desktopCls : Option WndClass} {ops : List StateOp} {tr : List WindowMemory}
    (h : trace stateStep (windowStart store mem desktopCls) ops = some tr) :
    (∀ a ∈ tr, a.AllCoherent) ↔
      Guarded stateStep KeepsCoherent (windowStart store mem desktopCls) ops :=
  trace_forall_iff_guarded (fun _ ha => ha) (fun _ _ _ ha hok hab => (ha.step hab).mpr hok)
    (fun _ _ _ ha hok hab hb => hok ((ha.step hab).mp hb))
    (allCoherent_start hempty mem desktopCls) h

/-- The desktop alone. -/
def desktopStart : WindowMemory := windowStart emptyStore ⟨1, true⟩ none

/-- A visible child of the desktop is made and hidden. -/
theorem windowRun_coherent_hidden : ∃ tr,
    trace stateStep desktopStart
      [.create ⟨2, true⟩ { style := wsChild ||| wsVisible } 1 0, .userShow 2 0] = some tr ∧
      ((∀ a ∈ tr, a.AllCoherent) ↔ Guarded stateStep KeepsCoherent desktopStart
        [.create ⟨2, true⟩ { style := wsChild ||| wsVisible } 1 0, .userShow 2 0]) := by
  have hrun : (trace stateStep desktopStart
      [.create ⟨2, true⟩ { style := wsChild ||| wsVisible } 1 0, .userShow 2 0]).isSome = true := by
    decide +kernel
  obtain ⟨tr, htr⟩ := Option.isSome_iff_exists.mp hrun
  exact ⟨tr, htr, windowRun_coherent_iff rfl htr⟩

/-- A window that is shown minimized has no `WS_MINIMIZE` in its style. -/
theorem windowRun_not_coherent : ∃ tr,
    trace stateStep desktopStart
      [.create ⟨2, true⟩ { style := wsChild ||| wsVisible } 1 0, .userShow 2 2] = some tr ∧
      ¬ ∀ a ∈ tr, a.AllCoherent := by
  have hrun : (trace stateStep desktopStart
      [.create ⟨2, true⟩ { style := wsChild ||| wsVisible } 1 0, .userShow 2 2]).isSome = true := by
    decide +kernel
  obtain ⟨tr, htr⟩ := Option.isSome_iff_exists.mp hrun
  have hlast : (tr[2]?.map fun a => (decide (2 ∈ a.live), (a.wnd 2).style &&& wsMinimize,
      (a.wnd 2).state &&& wndsMinimized)) = some (true, 0, wndsMinimized) := by
    have hend : ((trace stateStep desktopStart
        [.create ⟨2, true⟩ { style := wsChild ||| wsVisible } 1 0, .userShow 2 2]).bind fun tr =>
          tr[2]?.map fun a => (decide (2 ∈ a.live), (a.wnd 2).style &&& wsMinimize,
            (a.wnd 2).state &&& wndsMinimized)) = some (true, 0, wndsMinimized) := by
      decide +kernel
    rw [htr] at hend
    exact hend
  refine ⟨tr, htr, fun hall => ?_⟩
  obtain ⟨a, ha, heq⟩ := Option.map_eq_some_iff.mp hlast
  obtain ⟨hlive, heq⟩ := Prod.mk.inj heq
  obtain ⟨hstyle, hstate⟩ := Prod.mk.inj heq
  have hcoherent := hall a (List.mem_of_getElem? ha) 2 (of_decide_eq_true hlive)
  exact hcoherent.minimized.mpr (by rw [hstate]; decide) hstyle

end WindowMemory

end Wbox.User
