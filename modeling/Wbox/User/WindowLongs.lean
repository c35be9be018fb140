import Wbox.User.WindowChanges
import Wbox.User.WindowLinking
import Wbox.Vm.Bytes

/-!
# Window longs

`user_window_get_long` and `user_window_set_long` take the named values and the words of the extra
bytes by one signed index (`src/user/user_window.c:487–554`). The test of an index of extra bytes
adds 4 to it, and for the last four indices the sum is negative.
-/

namespace Wbox.User

open Wbox.Lib Wbox.Vm

/-- The indices of the values that can be set. -/
def gwlSettable : List Int32 :=
  [gwlWndProc, gwlHInstance, gwlStyle, gwlExStyle, gwlUserData, gwlId]

/-- The word at an index lies inside the extra bytes. -/
def Wnd.Inside (wnd : Wnd) (index : Int32) : Prop :=
  0 ≤ index.toInt ∧ index.toInt + 4 ≤ wnd.cbWndExtra.toInt

/-- Two indices are those of one value, or of words that have a byte in common. -/
def LongsOverlap (i j : Int32) : Prop :=
  i = j ∨ 0 ≤ i.toInt ∧ 0 ≤ j.toInt ∧ i.toInt < j.toInt + 4 ∧ j.toInt < i.toInt + 4

namespace WindowMemory

/-- Getting and setting a long: both return, which they do if they stay inside the extra bytes; a
value that can be set is there afterwards, and nothing else has changed. -/
def LongKept (s : WindowMemory) (w : Int) (index : Int32) (value : UInt32) : Prop :=
  ∃ s' old, s.userWindowGetLong w index = some old ∧
    s.userWindowSetLong w index value = some (s', old) ∧
    (index ∈ gwlSettable ∨ (s.wnd w).Inside index → s'.userWindowGetLong w index = some value) ∧
    (∀ j, ¬ LongsOverlap index j → s'.userWindowGetLong w j = s.userWindowGetLong w j) ∧
    (∀ k : Nat, (s.wnd w).cbWndExtra.toInt ≤ (k : Int) → s'.extraBytes w k = s.extraBytes w k) ∧
    (¬ (index ∈ gwlSettable ∨ (s.wnd w).Inside index) → s' = s)

variable {s : WindowMemory} {w : Int} {wnd : Wnd} {i j index : Int32} {value old : UInt32}

/-- The test for an index of extra bytes fails to do its work for the last four indices only. -/
theorem isExtra_iff :
    isExtra wnd index ↔ wnd.Inside index ∨ 2 ^ 31 - 4 ≤ index.toInt ∧ 0 < wnd.cbWndExtra.toInt := by
  have hlow := Int32.le_toInt wnd.cbWndExtra
  have hhigh := Int32.toInt_lt index
  have hzero : (0 : Int32).toInt = 0 := rfl
  have hfour : (4 : Int32).toInt = 4 := rfl
  unfold isExtra Wnd.Inside
  rw [ge_iff_le, gt_iff_lt, Int32.le_iff_toInt_le, Int32.le_iff_toInt_le, Int32.lt_iff_toInt_lt,
    Int32.toInt_add, hzero, hfour]
  by_cases hwrap : 2 ^ 31 - 4 ≤ index.toInt
  · have hsum : (index.toInt + 4).bmod (2 ^ 32) = index.toInt + 4 - 2 ^ 32 := by
      rw [← Int.sub_bmod_right (index.toInt + 4) (2 ^ 32)]
      exact bmod_of_fits (by omega) (by omega)
    rw [hsum]
    omega
  · by_cases hneg : 0 ≤ index.toInt
    · have hsum : (index.toInt + 4).bmod (2 ^ 32) = index.toInt + 4 :=
        bmod_of_fits (by omega) (by omega)
      rw [hsum]
      omega
    · omega

section Fields

theorem setLong_lpfnWndProc (h : index ≠ gwlWndProc) :
    (wnd.setLong index value).lpfnWndProc = wnd.lpfnWndProc := by
  unfold Wnd.setLong
  rw [if_neg h]
  split_ifs <;> rfl

theorem setLong_hInstance (h : index ≠ gwlHInstance) :
    (wnd.setLong index value).hInstance = wnd.hInstance := by
  unfold Wnd.setLong
  rw [if_neg h]
  split_ifs <;> rfl

theorem setLong_style (h : index ≠ gwlStyle) : (wnd.setLong index value).style = wnd.style := by
  unfold Wnd.setLong
  rw [if_neg h]
  split_ifs <;> rfl

theorem setLong_state (h : index ≠ gwlStyle) : (wnd.setLong index value).state = wnd.state := by
  unfold Wnd.setLong
  rw [if_neg h]
  split_ifs <;> rfl

theorem setLong_exStyle (h : index ≠ gwlExStyle) :
    (wnd.setLong index value).exStyle = wnd.exStyle := by
  unfold Wnd.setLong
  rw [if_neg h]
  split_ifs <;> rfl

theorem setLong_dwUserData (h : index ≠ gwlUserData) :
    (wnd.setLong index value).dwUserData = wnd.dwUserData := by
  unfold Wnd.setLong
  rw [if_neg h]
  split_ifs <;> rfl

theorem setLong_idMenu (h : index ≠ gwlId) : (wnd.setLong index value).idMenu = wnd.idMenu := by
  unfold Wnd.setLong
  rw [if_neg h]
  split_ifs <;> rfl

/-- The handle, the parent and the number of extra bytes are never set. -/
theorem setLong_rest (wnd : Wnd) (index : Int32) (value : UInt32) :
    (wnd.setLong index value).hwnd = wnd.hwnd ∧
      (wnd.setLong index value).spwndParent = wnd.spwndParent ∧
      (wnd.setLong index value).cbWndExtra = wnd.cbWndExtra := by
  unfold Wnd.setLong
  split_ifs <;> exact ⟨rfl, rfl, rfl⟩

/-- Nothing is set at another index. -/
theorem setLong_of_not_mem (h : index ∉ gwlSettable) : wnd.setLong index value = wnd := by
  simp only [gwlSettable, List.mem_cons, List.not_mem_nil, or_false, not_or] at h
  obtain ⟨hproc, hinst, hstyle, hex, hdata, hid⟩ := h
  unfold Wnd.setLong
  rw [if_neg hproc, if_neg hinst, if_neg hstyle, if_neg hex, if_neg hdata, if_neg hid]

end Fields

/-- The windows after a long has been set. -/
def longSet (s : WindowMemory) (w : Int) (index : Int32) (value : UInt32) : WindowMemory :=
  setExtra { s with toWindowStore := s.set w fun wnd => wnd.setLong index value } w (s.wnd w) index
    value

theorem longSet_store (s : WindowMemory) (w : Int) (index : Int32) (value : UInt32) :
    (s.longSet w index value).toWindowStore = s.set w fun wnd => wnd.setLong index value := by
  unfold longSet setExtra
  split <;> rfl

theorem longSet_wnd (s : WindowMemory) (w : Int) (index : Int32) (value : UInt32) :
    (s.longSet w index value).wnd w = (s.wnd w).setLong index value := by
  rw [longSet_store]
  exact Function.update_self _ _ _

/-- A long that is read can be set. -/
theorem userWindowSetLong_eq (hzero : w ≠ 0) (hw : w ∈ s.live)
    (hget : s.userWindowGetLong w index = some old) :
    s.userWindowSetLong w index value = some (s.longSet w index value, old) := by
  unfold userWindowSetLong
  rw [if_neg hzero, hget, read_live hw, modify_live _ hw]
  rfl

/-- What is read of a live window. -/
theorem userWindowGetLong_eq (hzero : w ≠ 0) (hw : w ∈ s.live) (j : Int32) :
    s.userWindowGetLong w j =
      if j = gwlWndProc then some (s.wnd w).lpfnWndProc
      else if j = gwlHInstance then some (s.wnd w).hInstance
      else if j = gwlHwndParent then s.hwndOf (s.wnd w).spwndParent
      else if j = gwlStyle then some (s.wnd w).style
      else if j = gwlExStyle then some (s.wnd w).exStyle
      else if j = gwlUserData then some (s.wnd w).dwUserData
      else if j = gwlId then some (s.wnd w).idMenu
      else if isExtra (s.wnd w) j then s.extraWord w (s.wnd w) j
      else some 0 := by
  unfold userWindowGetLong
  rw [if_neg hzero, read_live hw]
  rfl

theorem longSet_live (s : WindowMemory) (w : Int) (index : Int32) (value : UInt32) :
    (s.longSet w index value).live = s.live := by
  rw [longSet_store]
  rfl

/-- The handles of the windows are never set. -/
theorem longSet_hwndOf (s : WindowMemory) (w : Int) (index : Int32) (value : UInt32) (p : Int) :
    (s.longSet w index value).hwndOf p = s.hwndOf p := by
  have hread : ((s.longSet w index value).read p).map (fun wnd => wnd.hwnd) =
      (s.read p).map fun wnd => wnd.hwnd := by
    rw [longSet_store]
    unfold WindowStore.read WindowStore.set
    by_cases hp : p ∈ s.live
    · rw [if_pos hp, if_pos hp]
      by_cases heq : p = w
      · subst heq
        simp only [Function.update_self, Option.map_some]
        rw [(setLong_rest _ _ _).1]
      · simp only [Function.update_of_ne heq]
    · rw [if_neg hp, if_neg hp]
  unfold hwndOf
  rw [hread]

/-- Another long is read as before, if its word of extra bytes is. -/
theorem getLong_longSet_of_ne (hzero : w ≠ 0) (hw : w ∈ s.live) (hne : index ≠ j)
    (hextra : isExtra (s.wnd w) j →
      (s.longSet w index value).extraWord w (s.wnd w) j = s.extraWord w (s.wnd w) j) :
    (s.longSet w index value).userWindowGetLong w j = s.userWindowGetLong w j := by
  obtain ⟨-, hparent, hcount⟩ := setLong_rest (s.wnd w) index value
  have hisExtra : isExtra ((s.wnd w).setLong index value) j ↔ isExtra (s.wnd w) j := by
    unfold isExtra
    rw [hcount]
  have hword (s' : WindowMemory) : s'.extraWord w ((s.wnd w).setLong index value) j =
      s'.extraWord w (s.wnd w) j := by
    unfold extraWord
    rw [hcount]
  have hlive : w ∈ (s.longSet w index value).live := by
    rw [longSet_live]
    exact hw
  rw [userWindowGetLong_eq hzero hlive, userWindowGetLong_eq hzero hw, longSet_wnd, longSet_hwndOf,
    hparent, hword]
  by_cases hproc : j = gwlWndProc
  · rw [if_pos hproc, if_pos hproc, setLong_lpfnWndProc (hproc ▸ hne)]
  rw [if_neg hproc, if_neg hproc]
  by_cases hinst : j = gwlHInstance
  · rw [if_pos hinst, if_pos hinst, setLong_hInstance (hinst ▸ hne)]
  rw [if_neg hinst, if_neg hinst]
  by_cases hpar : j = gwlHwndParent
  · rw [if_pos hpar, if_pos hpar]
  rw [if_neg hpar, if_neg hpar]
  by_cases hstyle : j = gwlStyle
  · rw [if_pos hstyle, if_pos hstyle, setLong_style (hstyle ▸ hne)]
  rw [if_neg hstyle, if_neg hstyle]
  by_cases hex : j = gwlExStyle
  · rw [if_pos hex, if_pos hex, setLong_exStyle (hex ▸ hne)]
  rw [if_neg hex, if_neg hex]
  by_cases hdata : j = gwlUserData
  · rw [if_pos hdata, if_pos hdata, setLong_dwUserData (hdata ▸ hne)]
  rw [if_neg hdata, if_neg hdata]
  by_cases hid : j = gwlId
  · rw [if_pos hid, if_pos hid, setLong_idMenu (hid ▸ hne)]
  rw [if_neg hid, if_neg hid]
  by_cases hin : isExtra (s.wnd w) j
  · rw [if_pos (hisExtra.mpr hin), if_pos hin, hextra hin]
  · rw [if_neg fun h => hin (hisExtra.mp h), if_neg hin]

/-- The extra bytes after a word of them has been set. -/
theorem longSet_extraBytes (hin : isExtra (s.wnd w) index) :
    (s.longSet w index value).extraBytes =
      Function.update s.extraBytes w (storeWord (s.extraBytes w) index.toInt.toNat value) := by
  unfold longSet setExtra
  rw [if_pos hin]

theorem longSet_extraBytes_of_not (hin : ¬ isExtra (s.wnd w) index) :
    (s.longSet w index value).extraBytes = s.extraBytes := by
  unfold longSet setExtra
  rw [if_neg hin]

theorem nonneg_not_settable (hneg : 0 ≤ index.toInt) : index ∉ gwlSettable := by
  intro hmem
  have hall : ∀ i ∈ gwlSettable, i.toInt < 0 := by
    intro i hi
    simp only [gwlSettable, List.mem_cons, List.not_mem_nil, or_false] at hi
    rcases hi with rfl | rfl | rfl | rfl | rfl | rfl <;> decide
  exact absurd (hall index hmem) (by omega)

/-- A value that has been set is read back. -/
theorem getLong_longSet_settable (hzero : w ≠ 0) (hw : w ∈ s.live) (hset : index ∈ gwlSettable) :
    (s.longSet w index value).userWindowGetLong w index = some value := by
  have hlive : w ∈ (s.longSet w index value).live := by
    rw [longSet_live]
    exact hw
  rw [userWindowGetLong_eq hzero hlive, longSet_wnd]
  simp only [gwlSettable, List.mem_cons, List.not_mem_nil, or_false] at hset
  rcases hset with rfl | rfl | rfl | rfl | rfl | rfl <;> rfl

/-- A word of extra bytes that has been set is read back. -/
theorem getLong_longSet_inside (hzero : w ≠ 0) (hw : w ∈ s.live)
    (hin : (s.wnd w).Inside index) :
    (s.longSet w index value).userWindowGetLong w index = some value := by
  have hextra : isExtra (s.wnd w) index := isExtra_iff.mpr (.inl hin)
  have hlive : w ∈ (s.longSet w index value).live := by
    rw [longSet_live]
    exact hw
  have hne {c : Int32} (hc : c.toInt < 0) : index ≠ c := by
    rintro rfl
    exact absurd hin.1 (by omega)
  rw [userWindowGetLong_eq hzero hlive, longSet_wnd,
    setLong_of_not_mem (nonneg_not_settable hin.1), if_neg (hne (by decide)),
    if_neg (hne (by decide)), if_neg (hne (by decide)), if_neg (hne (by decide)),
    if_neg (hne (by decide)), if_neg (hne (by decide)), if_neg (hne (by decide)),
    if_pos hextra]
  unfold extraWord
  rw [if_pos hin.2, longSet_extraBytes hextra, Function.update_self, loadWord_storeWord]

/-- A word of extra bytes apart from the one that is set. -/
theorem extraWord_longSet_of_apart (hwrap : ¬ (2 ^ 31 - 4 ≤ index.toInt ∧
      0 < (s.wnd w).cbWndExtra.toInt)) (hapart : ¬ LongsOverlap index j)
    (hj : isExtra (s.wnd w) j) :
    (s.longSet w index value).extraWord w (s.wnd w) j = s.extraWord w (s.wnd w) j := by
  unfold extraWord
  by_cases hin : isExtra (s.wnd w) index
  · rw [longSet_extraBytes hin, Function.update_self]
    by_cases hfits : j.toInt + 4 ≤ (s.wnd w).cbWndExtra.toInt
    · rw [if_pos hfits, if_pos hfits, loadWord_storeWord_of_ne]
      have hpos : (s.wnd w).Inside index := (isExtra_iff.mp hin).resolve_right hwrap
      have hposj : 0 ≤ j.toInt := Int32.le_iff_toInt_le.mp hj.1
      unfold Wnd.Inside at hpos
      unfold LongsOverlap at hapart
      rw [not_or] at hapart
      omega
    · rw [if_neg hfits, if_neg hfits]
  · rw [longSet_extraBytes_of_not hin]

/-- Reading a long returns unless the test of an index of extra bytes wraps, or a parent is read
that has been freed. -/
theorem getLong_isSome_iff (hzero : w ≠ 0) (hw : w ∈ s.live) :
    (∃ old, s.userWindowGetLong w index = some old) ↔
      ¬ (2 ^ 31 - 4 ≤ index.toInt ∧ 0 < (s.wnd w).cbWndExtra.toInt) ∧
        (index = gwlHwndParent → s.Points (s.wnd w).spwndParent) := by
  have hcount := Int32.toInt_lt (s.wnd w).cbWndExtra
  have hextra : isExtra (s.wnd w) index ↔ (s.wnd w).Inside index ∨
      2 ^ 31 - 4 ≤ index.toInt ∧ 0 < (s.wnd w).cbWndExtra.toInt := isExtra_iff
  rw [userWindowGetLong_eq hzero hw]
  by_cases hparent : index = gwlHwndParent
  · have hval : gwlHwndParent.toInt = -8 := rfl
    have hne : gwlHwndParent ≠ gwlWndProc ∧ gwlHwndParent ≠ gwlHInstance := by decide
    rw [hparent, if_neg hne.1, if_neg hne.2, if_pos rfl, hval]
    unfold hwndOf WindowStore.Points WindowStore.read
    constructor
    · rintro ⟨old, hold⟩
      refine ⟨by omega, fun _ => ?_⟩
      by_contra hpoints
      rw [not_or] at hpoints
      rw [if_neg hpoints.1, if_neg hpoints.2] at hold
      cases hold
    · rintro ⟨-, hpoints⟩
      rcases hpoints rfl with hnull | hlive
      · exact ⟨0, if_pos hnull⟩
      · by_cases hnull : (s.wnd w).spwndParent = 0
        · exact ⟨0, if_pos hnull⟩
        · rw [if_neg hnull, if_pos hlive]
          exact ⟨_, rfl⟩
  · have hrest : (index = gwlHwndParent → s.Points (s.wnd w).spwndParent) ↔ True :=
      iff_true_intro fun h => absurd h hparent
    rw [hrest, and_true]
    by_cases hin : isExtra (s.wnd w) index
    · have hpos : 0 ≤ index.toInt := Int32.le_iff_toInt_le.mp hin.1
      have hne {c : Int32} (hc : c.toInt < 0) : index ≠ c := by
        rintro rfl
        exact absurd hpos (by omega)
      rw [if_neg (hne (by decide)), if_neg (hne (by decide)), if_neg (hne (by decide)),
        if_neg (hne (by decide)), if_neg (hne (by decide)), if_neg (hne (by decide)),
        if_neg (hne (by decide)), if_pos hin]
      unfold extraWord
      constructor
      · rintro ⟨old, hold⟩ hwrap
        rw [if_neg (by omega)] at hold
        cases hold
      · intro hwrap
        have hinside := (hextra.mp hin).resolve_right hwrap
        exact ⟨_, if_pos hinside.2⟩
    · refine ⟨fun _ hwrap => hin (hextra.mpr (.inr hwrap)), fun _ => ?_⟩
      split_ifs <;> exact ⟨_, rfl⟩

/-- Getting and setting a long of a live window are right if and only if the index is not one of the
last four, or the window has no extra bytes; the parent whose handle is read has not been freed. -/
theorem longKept_iff (hzero : w ≠ 0) (hw : w ∈ s.live) :
    s.LongKept w index value ↔
      ¬ (2 ^ 31 - 4 ≤ index.toInt ∧ 0 < (s.wnd w).cbWndExtra.toInt) ∧
        (index = gwlHwndParent → s.Points (s.wnd w).spwndParent) := by
  rw [← getLong_isSome_iff hzero hw]
  constructor
  · rintro ⟨s', old, hget, -⟩
    exact ⟨old, hget⟩
  · rintro ⟨old, hget⟩
    obtain ⟨hwrap, -⟩ := (getLong_isSome_iff hzero hw).mp ⟨old, hget⟩
    have hextra : isExtra (s.wnd w) index ↔ (s.wnd w).Inside index ∨
        2 ^ 31 - 4 ≤ index.toInt ∧ 0 < (s.wnd w).cbWndExtra.toInt := isExtra_iff
    refine ⟨s.longSet w index value, old, hget, userWindowSetLong_eq hzero hw hget, ?_, ?_, ?_, ?_⟩
    · rintro (hset | hin)
      · exact getLong_longSet_settable hzero hw hset
      · exact getLong_longSet_inside hzero hw hin
    · intro j hapart
      apply getLong_longSet_of_ne hzero hw
      · exact fun heq => hapart (.inl heq)
      · exact extraWord_longSet_of_apart hwrap hapart
    · intro k hk
      by_cases hin : isExtra (s.wnd w) index
      · have hinside := (hextra.mp hin).resolve_right hwrap
        unfold Wnd.Inside at hinside
        rw [longSet_extraBytes hin, Function.update_self]
        exact storeWord_of_ne value (by omega)
      · rw [longSet_extraBytes_of_not hin]
    · intro hnot
      rw [not_or] at hnot
      have hin : ¬ isExtra (s.wnd w) index := by
        rw [hextra, not_or]
        exact ⟨hnot.2, hwrap⟩
      unfold longSet setExtra WindowStore.set
      rw [if_neg hin]
      simp only [setLong_of_not_mem hnot.1, Function.update_eq_self]

/-- A window with eight extra bytes. -/
def eightBytes : WindowMemory where
  toWindowStore := { emptyStore with wnd := fun _ => { cbWndExtra := 8 }, live := {1} }
  extraBytes _ _ := 0

/-- The second of two words of extra bytes. -/
theorem longKept_second : eightBytes.LongKept 1 4 0x12345678 ↔
    ¬ (2 ^ 31 - 4 ≤ (4 : Int32).toInt ∧ 0 < (eightBytes.wnd 1).cbWndExtra.toInt) ∧
      ((4 : Int32) = gwlHwndParent → eightBytes.Points (eightBytes.wnd 1).spwndParent) :=
  longKept_iff (by decide) (Finset.mem_singleton_self 1)

/-- The largest index passes the test. -/
theorem not_longKept_largest : ¬ eightBytes.LongKept 1 0x7FFFFFFF 0x12345678 := by
  rintro ⟨s', old, hget, -⟩
  have hnone : eightBytes.userWindowGetLong 1 0x7FFFFFFF = none := by
    rw [userWindowGetLong_eq (by decide) (Finset.mem_singleton_self 1)]
    rfl
  rw [hnone] at hget
  cases hget

end WindowMemory

end Wbox.User
