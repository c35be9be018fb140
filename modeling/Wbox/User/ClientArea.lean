import Wbox.Lib.Bits
import Wbox.Lib.SignedWord
import Wbox.User.Relinking
import Wbox.User.WindowChanges

/-!
# Client areas

What `user_window_calc_client_rect` takes off a window rectangle, as a frame on all four sides and
a caption at the top, and when what is left lies inside the window.
-/

namespace Wbox.User

open Wbox.Lib

/-- The width of the frame of a window: its border, its frames and its edges. -/
def frameWidth (style exStyle : UInt32) : Int :=
  (if style &&& wsBorder ≠ 0 then 1 else 0) +
    (if style &&& wsThickFrame ≠ 0 then defaultBorderWidth.toInt else 0) +
    (if style &&& wsDlgFrame ≠ 0 then defaultBorderWidth.toInt else 0) +
    (if exStyle &&& wsExClientEdge ≠ 0 then 2 else 0) +
    (if exStyle &&& wsExWindowEdge ≠ 0 then 2 else 0)

/-- What the code takes off the top for the caption: any bit of `WS_CAPTION` is enough. -/
def captionTaken (style : UInt32) : Int :=
  if style &&& wsCaption ≠ 0 then defaultCaptionHeight.toInt else 0

/-- The style has a caption: both bits of it. -/
def HasCaption (style : UInt32) : Prop := style &&& wsCaption = wsCaption

instance (style : UInt32) : Decidable (HasCaption style) :=
  inferInstanceAs (Decidable (_ = _))

/-- The client rectangle of a window: it has no negative size, it lies inside the window
rectangle, and its top is below the frame, and below the caption if there is one. -/
structure ClientArea (style exStyle : UInt32) (win client : WboxRect) : Prop where
  width : client.left.toInt ≤ client.right.toInt
  height : client.top.toInt ≤ client.bottom.toInt
  left : win.left.toInt ≤ client.left.toInt
  top : win.top.toInt ≤ client.top.toInt
  right : client.right.toInt ≤ win.right.toInt
  bottom : client.bottom.toInt ≤ win.bottom.toInt
  caption : HasCaption style →
    client.top.toInt = win.top.toInt + frameWidth style exStyle + defaultCaptionHeight.toInt
  noCaption : ¬ HasCaption style →
    client.top.toInt = win.top.toInt + frameWidth style exStyle

/-- The bits of `WS_CAPTION` are both set or both clear, and the frame and the caption that are
taken off fit into the window. -/
structure FrameFits (style exStyle : UInt32) (cx cy : Int32) : Prop where
  bits : style &&& wsBorder ≠ 0 ↔ style &&& wsDlgFrame ≠ 0
  width : frameWidth style exStyle ≤ cx.toInt
  height : frameWidth style exStyle + captionTaken style ≤ cy.toInt

/-- Nothing overflows when a frame of width `a` and a caption of height `c` are taken off. -/
structure Room (win : WboxRect) (a c : Int) : Prop where
  left : win.left.toInt + a < 2 ^ 31
  top : win.top.toInt + a + c < 2 ^ 31
  right : -2 ^ 31 ≤ win.right.toInt - a
  bottom : -2 ^ 31 ≤ win.bottom.toInt - a

private theorem ite_nonneg (p : Prop) [Decidable p] {w : Int} (hw : 0 ≤ w) :
    0 ≤ if p then w else 0 := by
  split
  · exact hw
  · exact le_refl 0

theorem frameWidth_nonneg (style exStyle : UInt32) : 0 ≤ frameWidth style exStyle := by
  have hborder : (0 : Int) ≤ defaultBorderWidth.toInt := by decide
  have h₁ := ite_nonneg (style &&& wsBorder ≠ 0) (w := 1) (by decide)
  have h₂ := ite_nonneg (style &&& wsThickFrame ≠ 0) hborder
  have h₃ := ite_nonneg (style &&& wsDlgFrame ≠ 0) hborder
  have h₄ := ite_nonneg (exStyle &&& wsExClientEdge ≠ 0) (w := 2) (by decide)
  have h₅ := ite_nonneg (exStyle &&& wsExWindowEdge ≠ 0) (w := 2) (by decide)
  unfold frameWidth
  omega

theorem captionTaken_nonneg (style : UInt32) : 0 ≤ captionTaken style :=
  ite_nonneg _ (by decide)

variable {win rc : WboxRect} {a a' c c' : Int} {style exStyle : UInt32}

theorem Room.mono (h : Room win a' c') (ha : a ≤ a') (hc : c ≤ c') : Room win a c where
  left := by have := h.left; omega
  top := by have := h.top; omega
  right := by have := h.right; omega
  bottom := by have := h.bottom; omega

/-- A rectangle is a window rectangle with a frame and a caption taken off. -/
structure Taken (win : WboxRect) (a c : Int) (rc : WboxRect) : Prop where
  left : rc.left.toInt = win.left.toInt + a
  top : rc.top.toInt = win.top.toInt + a + c
  right : rc.right.toInt = win.right.toInt - a
  bottom : rc.bottom.toInt = win.bottom.toInt - a

namespace Taken

theorem refl (win : WboxRect) : Taken win 0 0 win := by
  constructor <;> simp

/-- A border takes its width off all sides. -/
theorem inset (h : Taken win a c rc) (w : Int32) (hw : 0 ≤ w.toInt)
    (hroom : Room win (a + w.toInt) c) : Taken win (a + w.toInt) c (rc.inset w) := by
  have hl := h.left
  have ht := h.top
  have hr := h.right
  have hb := h.bottom
  have hlo₁ := rc.left.le_toInt
  have hlo₂ := rc.top.le_toInt
  have hhi₁ := rc.right.toInt_lt
  have hhi₂ := rc.bottom.toInt_lt
  have hroomL := hroom.left
  have hroomT := hroom.top
  have hroomR := hroom.right
  have hroomB := hroom.bottom
  constructor
  · show (rc.left + w).toInt = _
    rw [int_add_of_fits (by omega) (by omega)]
    omega
  · show (rc.top + w).toInt = _
    rw [int_add_of_fits (by omega) (by omega)]
    omega
  · show (rc.right - w).toInt = _
    rw [int_sub_of_fits (by omega) (by omega)]
    omega
  · show (rc.bottom - w).toInt = _
    rw [int_sub_of_fits (by omega) (by omega)]
    omega

/-- A border that only some styles have. -/
theorem insetIf (h : Taken win a c rc) (p : Prop) [Decidable p] (w : Int32) (hw : 0 ≤ w.toInt)
    (hroom : Room win (a + if p then w.toInt else 0) c) :
    Taken win (a + if p then w.toInt else 0) c (if p then rc.inset w else rc) := by
  split
  · next hp =>
    rw [if_pos hp] at hroom
    exact h.inset w hw hroom
  · rw [Int.add_zero]
    exact h

/-- The caption takes its height off the top. -/
theorem captionIf (h : Taken win a 0 rc) (hroom : Room win a (captionTaken style)) :
    Taken win a (captionTaken style)
      (if style &&& wsCaption ≠ 0 then { rc with top := rc.top + defaultCaptionHeight }
        else rc) := by
  unfold captionTaken at hroom ⊢
  split
  · next hp =>
    rw [if_pos hp] at hroom
    have hheight : (0 : Int) ≤ defaultCaptionHeight.toInt := by decide
    have ht := h.top
    have hlo := rc.top.le_toInt
    have hroomT := hroom.top
    refine ⟨h.left, ?_, h.right, h.bottom⟩
    show (rc.top + defaultCaptionHeight).toInt = _
    rw [int_add_of_fits (by omega) (by omega)]
    omega
  · exact h

end Taken

/-- The last two statements of `user_window_calc_client_rect`: no side is beyond its opposite. -/
def WboxRect.repaired (rc : WboxRect) : WboxRect :=
  let rc := if rc.right < rc.left then { rc with right := rc.left } else rc
  if rc.bottom < rc.top then { rc with bottom := rc.top } else rc

@[simp] theorem repaired_left (rc : WboxRect) : rc.repaired.left = rc.left := by
  unfold WboxRect.repaired
  dsimp only
  split <;> split <;> rfl

@[simp] theorem repaired_top (rc : WboxRect) : rc.repaired.top = rc.top := by
  unfold WboxRect.repaired
  dsimp only
  split <;> split <;> rfl

theorem repaired_right (rc : WboxRect) :
    rc.repaired.right.toInt = max rc.right.toInt rc.left.toInt := by
  unfold WboxRect.repaired
  dsimp only
  by_cases hx : rc.right < rc.left
  · have hlt := Int32.lt_iff_toInt_lt.mp hx
    rw [if_pos hx]
    split <;> exact (max_eq_right hlt.le).symm
  · have hle := Int.not_lt.mp (mt Int32.lt_iff_toInt_lt.mpr hx)
    rw [if_neg hx]
    split <;> exact (max_eq_left hle).symm

theorem repaired_bottom (rc : WboxRect) :
    rc.repaired.bottom.toInt = max rc.bottom.toInt rc.top.toInt := by
  unfold WboxRect.repaired
  dsimp only
  by_cases hx : rc.right < rc.left
  · rw [if_pos hx]
    by_cases hy : rc.bottom < rc.top
    · rw [if_pos hy]
      exact (max_eq_right (Int32.lt_iff_toInt_lt.mp hy).le).symm
    · rw [if_neg hy]
      exact (max_eq_left (Int.not_lt.mp (mt Int32.lt_iff_toInt_lt.mpr hy))).symm
  · rw [if_neg hx]
    by_cases hy : rc.bottom < rc.top
    · rw [if_pos hy]
      exact (max_eq_right (Int32.lt_iff_toInt_lt.mp hy).le).symm
    · rw [if_neg hy]
      exact (max_eq_left (Int.not_lt.mp (mt Int32.lt_iff_toInt_lt.mpr hy))).symm

/-- The client rectangle is the window rectangle with the frame and the caption taken off,
repaired. -/
theorem calcClientRect_taken
    (hroom : Room win (frameWidth style exStyle) (captionTaken style)) :
    ∃ rc, Taken win (frameWidth style exStyle) (captionTaken style) rc ∧
      calcClientRect style exStyle win = rc.repaired := by
  have hborder : (0 : Int) ≤ defaultBorderWidth.toInt := by decide
  have h₂ := ite_nonneg (style &&& wsThickFrame ≠ 0) hborder
  have h₃ := ite_nonneg (style &&& wsDlgFrame ≠ 0) hborder
  have h₄ := ite_nonneg (exStyle &&& wsExClientEdge ≠ 0) (w := 2) (by decide)
  have h₅ := ite_nonneg (exStyle &&& wsExWindowEdge ≠ 0) (w := 2) (by decide)
  have hcap : 0 ≤ captionTaken style := captionTaken_nonneg style
  unfold frameWidth at hroom ⊢
  have t₁ := (Taken.refl win).insetIf (style &&& wsBorder ≠ 0) 1 (by decide)
    (hroom.mono (by simp; omega) hcap)
  have t₂ := t₁.insetIf (style &&& wsThickFrame ≠ 0) defaultBorderWidth hborder
    (hroom.mono (by simp; omega) hcap)
  have t₃ : Taken win _ (captionTaken style) _ :=
    t₂.captionIf (hroom.mono (by simp; omega) (le_refl _))
  have t₄ := t₃.insetIf (style &&& wsDlgFrame ≠ 0) defaultBorderWidth hborder
    (hroom.mono (by simp; omega) (le_refl _))
  have t₅ := t₄.insetIf (exStyle &&& wsExClientEdge ≠ 0) 2 (by decide)
    (hroom.mono (by simp; omega) (le_refl _))
  have t₆ := t₅.insetIf (exStyle &&& wsExWindowEdge ≠ 0) 2 (by decide)
    (hroom.mono (by simp) (le_refl _))
  have hone : (1 : Int32).toInt = 1 := rfl
  have htwo : (2 : Int32).toInt = 2 := rfl
  rw [hone, htwo, Int.zero_add] at t₆
  exact ⟨_, t₆, rfl⟩

section Caption

variable {style : UInt32}

private theorem bit_caption (k : Nat) : bit wsCaption k = (decide (k = 23) || decide (k = 22)) := by
  have hmask : wsCaption = 1 <<< UInt32.ofNat 23 ||| 1 <<< UInt32.ofNat 22 := rfl
  rw [hmask, bit_or, bit_mask (by decide), bit_mask (by decide)]

theorem border_ne_zero : style &&& wsBorder ≠ 0 ↔ bit style 23 = true :=
  and_mask_ne_zero style (n := 23) (by decide)

theorem dlgFrame_ne_zero : style &&& wsDlgFrame ≠ 0 ↔ bit style 22 = true :=
  and_mask_ne_zero style (n := 22) (by decide)

/-- Both bits of `WS_CAPTION`. -/
theorem hasCaption_iff :
    HasCaption style ↔ style &&& wsBorder ≠ 0 ∧ style &&& wsDlgFrame ≠ 0 := by
  rw [border_ne_zero, dlgFrame_ne_zero]
  constructor
  · intro h
    have hbit : ∀ k, bit wsCaption k = true → bit style k = true := by
      intro k hk
      have hk' := congrArg (fun v => bit v k) h
      simp only [bit_and, hk, Bool.and_true] at hk'
      exact hk'
    exact ⟨hbit 23 (by simp [bit_caption]), hbit 22 (by simp [bit_caption])⟩
  · rintro ⟨h₁, h₂⟩
    refine bit_ext fun k _ => ?_
    rw [bit_and, bit_caption]
    by_cases hk₁ : k = 23
    · simp [hk₁, h₁]
    · by_cases hk₂ : k = 22
      · simp [hk₂, h₂]
      · simp [hk₁, hk₂]

/-- Any bit of `WS_CAPTION`. -/
theorem caption_ne_zero :
    style &&& wsCaption ≠ 0 ↔ style &&& wsBorder ≠ 0 ∨ style &&& wsDlgFrame ≠ 0 := by
  have hsplit : style &&& wsCaption = style &&& wsBorder ||| style &&& wsDlgFrame := by
    have hmask : wsCaption = wsBorder ||| wsDlgFrame := rfl
    refine bit_ext fun k _ => ?_
    simp only [hmask, bit_and, bit_or, Bool.and_or_distrib_left]
  rw [hsplit, ne_eq, UInt32.or_eq_zero_iff, not_and_or]

/-- The code takes the caption off exactly the windows that have one where both bits agree. -/
theorem captionTaken_right (h : style &&& wsBorder ≠ 0 ↔ style &&& wsDlgFrame ≠ 0) :
    captionTaken style = if HasCaption style then defaultCaptionHeight.toInt else 0 := by
  unfold captionTaken
  by_cases hc : style &&& wsBorder ≠ 0
  · rw [if_pos (caption_ne_zero.mpr (.inl hc)), if_pos (hasCaption_iff.mpr ⟨hc, h.mp hc⟩)]
  · have hd := mt h.mpr hc
    rw [if_neg fun hcap => (caption_ne_zero.mp hcap).elim hc hd,
      if_neg fun hcap => hc (hasCaption_iff.mp hcap).1]

/-- With one bit of the two, the caption is taken off a window that has none. -/
theorem captionTaken_wrong (h : ¬(style &&& wsBorder ≠ 0 ↔ style &&& wsDlgFrame ≠ 0)) :
    ¬HasCaption style ∧ captionTaken style = defaultCaptionHeight.toInt := by
  refine ⟨fun hcap => h ?_, if_pos (caption_ne_zero.mpr ?_)⟩
  · obtain ⟨hb, hd⟩ := hasCaption_iff.mp hcap
    exact ⟨fun _ => hd, fun _ => hb⟩
  · by_contra hnone
    obtain ⟨hb, hd⟩ := not_or.mp hnone
    exact h ⟨fun hb' => (hb hb').elim, fun hd' => (hd hd').elim⟩

end Caption

/-- What is left of a window rectangle is a client area exactly if the frame
fits and the bits of `WS_CAPTION` agree. -/
theorem calcClientRect_iff {x y cx cy : Int32} (hx : (x + cx).toInt = x.toInt + cx.toInt)
    (hy : (y + cy).toInt = y.toInt + cy.toInt)
    (hroom : Room ⟨x, y, x + cx, y + cy⟩ (frameWidth style exStyle) (captionTaken style)) :
    ClientArea style exStyle ⟨x, y, x + cx, y + cy⟩
        (calcClientRect style exStyle ⟨x, y, x + cx, y + cy⟩) ↔
      FrameFits style exStyle cx cy := by
  obtain ⟨rc, htaken, hcalc⟩ := calcClientRect_taken hroom
  have hl := htaken.left
  have ht := htaken.top
  have hr := htaken.right
  have hb := htaken.bottom
  have hframe : 0 ≤ frameWidth style exStyle := frameWidth_nonneg style exStyle
  have hcap : 0 ≤ captionTaken style := captionTaken_nonneg style
  dsimp only at hl ht hr hb
  rw [hcalc]
  constructor
  · intro h
    have hright := h.right
    have hbottom := h.bottom
    rw [repaired_right] at hright
    rw [repaired_bottom] at hbottom
    dsimp only at hright hbottom
    refine ⟨?_, by omega, by omega⟩
    by_contra hbits
    obtain ⟨hnone, htake⟩ := captionTaken_wrong hbits
    have htop := h.noCaption hnone
    rw [repaired_top] at htop
    dsimp only at htop
    have hheight : defaultCaptionHeight.toInt = 19 := rfl
    omega
  · intro h
    have hw := h.width
    have hh := h.height
    have htake := captionTaken_right h.bits
    constructor
    · rw [repaired_left, repaired_right]
      exact le_max_right _ _
    · rw [repaired_top, repaired_bottom]
      exact le_max_right _ _
    · rw [repaired_left]
      dsimp only
      omega
    · rw [repaired_top]
      dsimp only
      omega
    · rw [repaired_right]
      dsimp only
      omega
    · rw [repaired_bottom]
      dsimp only
      omega
    · intro hcaption
      rw [if_pos hcaption] at htake
      rw [repaired_top]
      dsimp only
      omega
    · intro hcaption
      rw [if_neg hcaption] at htake
      rw [repaired_top]
      dsimp only
      omega

/-- A window that `user_window_create` has made, or that `user_window_set_pos` has moved, with
its style and its place. -/
inductive Placed : UInt32 → UInt32 → Int32 → Int32 → Int32 → Int32 → Wnd → Prop
  | created {s s' : WindowStore} {mem : WndMemory} {args : WndArgs} {parent owner w : Int}
      (call : s.userWindowCreate mem args parent owner = some (s', w)) (made : w ≠ 0) :
      Placed args.style args.exStyle args.withDefaults.x args.withDefaults.y args.withDefaults.cx
        args.withDefaults.cy (s'.wnd w)
  | moved (wnd : Wnd) (x y cx cy : Int32) (flags : UInt32) :
      Placed wnd.style wnd.exStyle x y cx cy (wnd.setPos x y cx cy flags)

/-- A window put into memory is the record but for the address of its copy. -/
theorem place_wnd (s : WindowStore) (w : Int) (wnd : Wnd) :
    ∃ va, (s.place w wnd).wnd w = { wnd with guestWndVa := va } := by
  unfold WindowStore.place
  cases s.heap with
  | none => exact ⟨wnd.guestWndVa, Function.update_self ..⟩
  | some heap => exact ⟨(guestWndCreate heap wnd).2, Function.update_self ..⟩

variable {x y cx cy : Int32} {wnd : Wnd}

/-- Both compute the client rectangle from the window rectangle. -/
theorem Placed.rects (h : Placed style exStyle x y cx cy wnd) :
    wnd.style = style ∧ wnd.exStyle = exStyle ∧ wnd.rcWindow = ⟨x, y, x + cx, y + cy⟩ ∧
      wnd.rcClient = calcClientRect style exStyle ⟨x, y, x + cx, y + cy⟩ := by
  cases h with
  | @created s s' mem args parent owner w call made =>
    rcases create_cases call with ⟨rfl, -⟩ | ⟨-, -, -, handles, hwnd, hlinks⟩
    · exact absurd rfl made
    · have hrec := hlinks.records w
      obtain ⟨va, hnew⟩ := place_wnd { s with handles } w (newWnd hwnd args.withDefaults)
      rw [hnew] at hrec
      exact ⟨congrArg Wnd.style hrec, congrArg Wnd.exStyle hrec, congrArg Wnd.rcWindow hrec,
        congrArg Wnd.rcClient hrec⟩
  | moved wnd x y cx cy flags => exact ⟨rfl, rfl, rfl, rfl⟩

/-- The client rectangle of a window that was created or moved is a client area exactly if the
frame and the caption fit into the window and the bits of `WS_CAPTION` are both set or both
clear. -/
theorem clientArea_iff (hplaced : Placed style exStyle x y cx cy wnd)
    (hx : (x + cx).toInt = x.toInt + cx.toInt) (hy : (y + cy).toInt = y.toInt + cy.toInt)
    (hroom : Room wnd.rcWindow (frameWidth style exStyle) (captionTaken style)) :
    ClientArea style exStyle wnd.rcWindow wnd.rcClient ↔ FrameFits style exStyle cx cy := by
  obtain ⟨-, -, hwin, hclient⟩ := hplaced.rects
  rw [hwin] at hroom
  rw [hwin, hclient]
  exact calcClientRect_iff hx hy hroom

/-- A window of 100 by 50 pixels with a border only. -/
def borderedWnd : Wnd :=
  Wnd.setPos { hwnd := 0x10001, style := wsBorder } 0 0 100 50 0

/-- One of 100 by 50 pixels with a caption. -/
def captionedWnd : Wnd :=
  Wnd.setPos { hwnd := 0x10001, style := wsCaption } 0 0 100 50 0

theorem clientArea_iff_captionedWnd :
    ClientArea wsCaption 0 captionedWnd.rcWindow captionedWnd.rcClient :=
  (clientArea_iff (.moved { hwnd := 0x10001, style := wsCaption } 0 0 100 50 0) rfl rfl
    (by constructor <;> decide)).mpr ⟨by decide, by decide, by decide⟩

/-- The caption is taken off a window that has only a border. -/
theorem borderedWnd_noClientArea :
    Placed wsBorder 0 0 0 100 50 borderedWnd ∧
      Room borderedWnd.rcWindow (frameWidth wsBorder 0) (captionTaken wsBorder) ∧
      ¬ClientArea wsBorder 0 borderedWnd.rcWindow borderedWnd.rcClient := by
  refine ⟨.moved { hwnd := 0x10001, style := wsBorder } 0 0 100 50 0,
    by constructor <;> decide, ?_⟩
  intro h
  exact absurd (h.noCaption (by decide)) (by decide)

end Wbox.User
