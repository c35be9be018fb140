import Wbox.Lib.SignedWord
import Wbox.Lib.Word
import Wbox.User.DesktopHeap
import Wbox.Vm.Bytes

/-!
# The guest's copies of windows

A guest `WND` takes a part of the desktop heap that no other one takes, and its fields are read
back as they were written last (`src/user/guest_wnd.c:12–180`, `src/user/desktop_heap.c:77–153`).
-/

namespace Wbox.User

open Wbox.Lib Wbox.Vm

/-- The fields that `guest_wnd_sync` brings up to date, `guest_wnd.c:160–180`. Nothing calls it. -/
def guestWndSyncFields (wnd : Wnd) : List (UInt32 × UInt32) :=
  [(wndState, wnd.state), (wndState2, wnd.state2), (wndExStyle, wnd.exStyle),
    (wndStyle, wnd.style)] ++
  rectFields wndRcWindow wnd.rcWindow ++ rectFields wndRcClient wnd.rcClient ++
  [(wndLpfnWndProc, wnd.lpfnWndProc), (wndDwUserData, wnd.dwUserData), (wndIdMenu, wnd.idMenu)]

/-- The word at an address of the heap. -/
def DesktopHeap.word (heap : DesktopHeap) (va : UInt32) : UInt32 := loadWord heap.bytes va.toNat

/-- The heap has not given away more than it has. -/
def DesktopHeap.Fits (heap : DesktopHeap) : Prop := heap.allocOffset.toNat ≤ desktopHeapSize.toNat

/-- There is room for a `WND` at an address, in the memory of the heap. -/
structure WndPlace (va : UInt32) : Prop where
  lo : desktopHeapBaseVa.toNat ≤ va.toNat
  hi : va.toNat + wndBaseSize.toNat ≤ desktopHeapLimitVa.toNat

/-- Offsets of words in a `WND` that do not overlap. -/
def Spaced (offsets : List UInt32) : Prop :=
  (∀ o ∈ offsets, o.toNat + 4 ≤ wndBaseSize.toNat) ∧
    offsets.Pairwise fun o o' => o.toNat + 4 ≤ o'.toNat ∨ o'.toNat + 4 ≤ o.toNat

instance (offsets : List UInt32) : Decidable (Spaced offsets) :=
  @instDecidableAnd _ _ (List.decidableBAll _ offsets) inferInstance

section Words

variable {heap : DesktopHeap} {va a o value : UInt32} {fields : List (UInt32 × UInt32)}
  {f : UInt32 × UInt32}

theorem toNat_add_offset (h : WndPlace va) (ho : o.toNat + 4 ≤ wndBaseSize.toNat) :
    (va + o).toNat = va.toNat + o.toNat := by
  have hhi := h.hi
  have hlimit : desktopHeapLimitVa.toNat < 2 ^ 32 := by decide
  rw [UInt32.toNat_add, Nat.mod_eq_of_lt (by omega)]

theorem write32_of_place (h : WndPlace va) (ho : o.toNat + 4 ≤ wndBaseSize.toNat) :
    desktopHeapWrite32 heap (va + o) value =
      { heap with bytes := storeWord heap.bytes (va.toNat + o.toNat) value } := by
  have haddr := toNat_add_offset h ho
  have hlo := h.lo
  have hhi := h.hi
  have hlimit : desktopHeapLimitVa.toNat < 2 ^ 32 := by decide
  have hend : (va + o + 4).toNat = va.toNat + o.toNat + 4 := by
    rw [UInt32.toNat_add, haddr]
    exact Nat.mod_eq_of_lt (by show _ + 4 < _; omega)
  unfold desktopHeapWrite32
  rw [if_neg, haddr]
  rw [UInt32.lt_iff_toNat_lt, GT.gt, UInt32.lt_iff_toNat_lt, hend, haddr]
  omega

theorem word_write32_of_apart (h : a.toNat + 4 ≤ va.toNat ∨ va.toNat + 4 ≤ a.toNat) :
    (desktopHeapWrite32 heap va value).word a = heap.word a := by
  unfold desktopHeapWrite32
  split
  · rfl
  · exact loadWord_storeWord_of_ne value h

theorem allocOffset_write32 : (desktopHeapWrite32 heap va value).allocOffset = heap.allocOffset := by
  unfold desktopHeapWrite32
  split <;> rfl

theorem allocOffset_writes : (desktopHeapWrites heap va fields).allocOffset = heap.allocOffset := by
  induction fields generalizing heap with
  | nil => rfl
  | cons f fields ih => exact (@ih (desktopHeapWrite32 heap _ _)).trans allocOffset_write32

/-- A word that is none of those written is left. -/
theorem word_writes_of_apart (h : WndPlace va)
    (hfields : ∀ f ∈ fields, f.1.toNat + 4 ≤ wndBaseSize.toNat)
    (hapart : ∀ f ∈ fields, a.toNat + 4 ≤ va.toNat + f.1.toNat ∨
      va.toNat + f.1.toNat + 4 ≤ a.toNat) :
    (desktopHeapWrites heap va fields).word a = heap.word a := by
  induction fields generalizing heap with
  | nil => rfl
  | cons f fields ih =>
    have hrest := @ih (desktopHeapWrite32 heap (va + f.1) f.2)
      (fun g hg => hfields g (List.mem_cons_of_mem f hg))
      fun g hg => hapart g (List.mem_cons_of_mem f hg)
    refine hrest.trans (word_write32_of_apart ?_)
    rw [toNat_add_offset h (hfields f List.mem_cons_self)]
    exact hapart f List.mem_cons_self

/-- The words of another `WND` are left. -/
theorem word_writes_of_place {va' : UInt32} (h : WndPlace va)
    (hfields : ∀ f ∈ fields, f.1.toNat + 4 ≤ wndBaseSize.toNat) (h' : WndPlace va')
    (ho : o.toNat + 4 ≤ wndBaseSize.toNat)
    (hapart : va.toNat + wndBaseSize.toNat ≤ va'.toNat ∨
      va'.toNat + wndBaseSize.toNat ≤ va.toNat) :
    (desktopHeapWrites heap va fields).word (va' + o) = heap.word (va' + o) := by
  apply word_writes_of_apart h hfields
  intro f hf
  have hoff := hfields f hf
  rw [toNat_add_offset h' ho]
  omega

/-- A word is read back as it was written. -/
theorem word_writes (h : WndPlace va) (hspaced : Spaced (fields.map Prod.fst)) (hf : f ∈ fields) :
    (desktopHeapWrites heap va fields).word (va + f.1) = f.2 := by
  induction fields generalizing heap with
  | nil => cases hf
  | cons g fields ih =>
    obtain ⟨hin, hpair⟩ := hspaced
    rw [List.map_cons, List.pairwise_cons] at hpair
    have hin' : ∀ o ∈ fields.map Prod.fst, o.toNat + 4 ≤ wndBaseSize.toNat :=
      fun o ho => hin o (List.mem_cons_of_mem _ ho)
    rcases List.mem_cons.mp hf with rfl | hmem
    · have hfirst := hin f.1 List.mem_cons_self
      have hrest : (desktopHeapWrites (desktopHeapWrite32 heap (va + f.1) f.2) va fields).word
          (va + f.1) = (desktopHeapWrite32 heap (va + f.1) f.2).word (va + f.1) := by
        apply word_writes_of_apart h fun g hg => hin' g.1 (List.mem_map_of_mem hg)
        intro g hg
        rw [toNat_add_offset h hfirst]
        have hspace := hpair.1 g.1 (List.mem_map_of_mem hg)
        omega
      refine hrest.trans ?_
      unfold DesktopHeap.word
      rw [write32_of_place h hfirst, toNat_add_offset h hfirst]
      exact loadWord_storeWord _ _ _
    · exact @ih (desktopHeapWrite32 heap (va + g.1) g.2) ⟨hin', hpair.2⟩ hmem

end Words

section Create

variable {heap : DesktopHeap} {size : UInt32} {wnd : Wnd}

/-- `desktop_heap_alloc` gives the memory behind what it has given already. -/
theorem alloc_spec (hfits : heap.Fits) (hpos : 0 < size.toNat) (hsize : size.toNat + 3 < 2 ^ 32)
    (hsum : heap.allocOffset.toNat + (size.toNat + 3) / 4 * 4 < 2 ^ 32)
    (hva : (desktopHeapAlloc heap size).2 ≠ 0) :
    (desktopHeapAlloc heap size).1.bytes = heap.bytes ∧
      (desktopHeapAlloc heap size).1.Fits ∧
      (desktopHeapAlloc heap size).2.toNat =
        desktopHeapBaseVa.toNat + heap.allocOffset.toNat ∧
      (desktopHeapAlloc heap size).1.allocOffset.toNat =
        heap.allocOffset.toNat + (size.toNat + 3) / 4 * 4 := by
  have hne : size ≠ 0 := fun hz => by simp [hz] at hpos
  have hround : ((size + 3) &&& ~~~3).toNat = (size.toNat + 3) / 4 * 4 := toNat_roundUp4 hsize
  have hheap : desktopHeapSize.toNat = 2 ^ 20 := by decide
  have hbase : desktopHeapBaseVa.toNat = 2 ^ 24 := by decide
  unfold DesktopHeap.Fits at hfits ⊢
  unfold desktopHeapAlloc at hva ⊢
  rw [if_neg hne] at hva ⊢
  dsimp only at hva ⊢
  have hend : (heap.allocOffset + ((size + 3) &&& ~~~3)).toNat =
      heap.allocOffset.toNat + (size.toNat + 3) / 4 * 4 := by
    rw [UInt32.toNat_add, hround, Nat.mod_eq_of_lt (by omega)]
  by_cases hfull : heap.allocOffset + ((size + 3) &&& ~~~3) > desktopHeapSize
  · rw [if_pos hfull] at hva
    exact absurd rfl hva
  · rw [if_neg hfull]
    rw [GT.gt, UInt32.lt_iff_toNat_lt, hend] at hfull
    refine ⟨rfl, ?_, ?_, ?_⟩
    · rw [hend]
      omega
    · rw [UInt32.toNat_add, Nat.mod_eq_of_lt (by omega)]
    · exact hend

/-- Where the heap has no room it is left. -/
theorem alloc_zero (hfits : heap.Fits) (h : (desktopHeapAlloc heap size).2 = 0) :
    (desktopHeapAlloc heap size).1 = heap := by
  have hheap : desktopHeapSize.toNat = 2 ^ 20 := by decide
  have hbase : desktopHeapBaseVa.toNat = 2 ^ 24 := by decide
  unfold DesktopHeap.Fits at hfits
  have hva : desktopHeapBaseVa + heap.allocOffset ≠ 0 := by
    intro hz
    have hnat := congrArg UInt32.toNat hz
    rw [UInt32.toNat_add, Nat.mod_eq_of_lt (by omega)] at hnat
    have hzero : (0 : UInt32).toNat = 0 := rfl
    omega
  unfold desktopHeapAlloc at h ⊢
  by_cases hsize : size = 0
  · rw [if_pos hsize]
  · rw [if_neg hsize] at h ⊢
    dsimp only at h ⊢
    split
    · rfl
    · next hroom =>
      rw [if_neg hroom] at h
      exact absurd h hva

/-- The heap with some of the extra bytes of a window zeroed. -/
def zeroExtra (heap : DesktopHeap) (va : UInt32) (is : List Nat) : DesktopHeap :=
  is.foldl (fun heap i => desktopHeapWrite8 heap (va + wndBaseSize + UInt32.ofNat i) 0) heap

theorem allocOffset_zeroExtra (heap : DesktopHeap) (va : UInt32) (is : List Nat) :
    (zeroExtra heap va is).allocOffset = heap.allocOffset := by
  induction is generalizing heap with
  | nil => rfl
  | cons i is ih =>
    refine (ih (desktopHeapWrite8 heap (va + wndBaseSize + UInt32.ofNat i) 0)).trans ?_
    unfold desktopHeapWrite8
    split <;> rfl

theorem word_zeroExtra {va a : UInt32} {is : List Nat}
    (h : ∀ i ∈ is, a.toNat + 4 ≤ (va + wndBaseSize + UInt32.ofNat i).toNat) :
    (zeroExtra heap va is).word a = heap.word a := by
  induction is generalizing heap with
  | nil => rfl
  | cons i is ih =>
    have hrest := @ih (desktopHeapWrite8 heap (va + wndBaseSize + UInt32.ofNat i) 0)
      fun j hj => h j (List.mem_cons_of_mem i hj)
    refine hrest.trans ?_
    have haddr := h i List.mem_cons_self
    unfold desktopHeapWrite8
    split
    · rfl
    · apply loadWord_congr
      intro k hk
      exact Function.update_of_ne (by omega) _ _

/-- A guest `WND` has been made in the heap. -/
structure WndMade (heap heap' : DesktopHeap) (wnd : Wnd) (va : UInt32) : Prop where
  fits : heap'.Fits
  place : WndPlace va
  start : va.toNat = desktopHeapBaseVa.toNat + heap.allocOffset.toNat
  top : va.toNat + wndBaseSize.toNat ≤ desktopHeapBaseVa.toNat + heap'.allocOffset.toNat
  words : ∀ f ∈ guestWndFields wnd va, heap'.word (va + f.1) = f.2
  others : ∀ a : UInt32, a.toNat + 4 ≤ va.toNat → heap'.word a = heap.word a

/-- The size of a guest `WND`. -/
theorem wndSize_spec (cb : Int32) :
    (if cb > 0 then wndBaseSize + cb.toUInt32 else wndBaseSize).toNat =
      wndBaseSize.toNat + cb.toInt.toNat ∧ cb.toInt.toNat < 2 ^ 31 := by
  have hbase : wndBaseSize.toNat = 228 := by decide
  have hlt : cb.toInt < 2 ^ 31 := cb.toInt_lt
  by_cases hpos : cb > 0
  · have hcb : 0 < cb.toInt := Int32.lt_iff_toInt_lt.mp hpos
    have hnat := toNat_toUInt32 (a := cb) (by omega)
    rw [if_pos hpos, UInt32.toNat_add, hnat, Nat.mod_eq_of_lt (by omega)]
    omega
  · have hcb : cb.toInt ≤ 0 := by
      have hle := mt Int32.lt_iff_toInt_lt.mpr hpos
      exact Int.not_lt.mp hle
    rw [if_neg hpos]
    omega

theorem spaced_guestWndFields (wnd : Wnd) (va : UInt32) :
    Spaced ((guestWndFields wnd va).map Prod.fst) := by
  show Spaced [wndHeadH, wndHeadCLockObj, wndHeadPti, wndHeadRpDesk, wndHeadPSelf, wndState,
    wndState2, wndExStyle, wndStyle, wndHModule, wndFnid, wndSpwndNext, wndSpwndPrev,
    wndSpwndParent, wndSpwndChild, wndSpwndOwner, wndRcWindow + 0, wndRcWindow + 4,
    wndRcWindow + 8, wndRcWindow + 12, wndRcClient + 0, wndRcClient + 4, wndRcClient + 8,
    wndRcClient + 12, wndLpfnWndProc, wndPcls, wndHrgnUpdate, wndPropListHead + 0,
    wndPropListHead + 4, wndPropListItems, wndPSBInfo, wndSystemMenu, wndIdMenu, wndHrgnClip,
    wndHrgnNewFrame, wndStrName + 0, wndStrName + 4, wndStrName + 8, wndCbWndExtra,
    wndSpwndLastActive, wndHImc, wndDwUserData, wndPActCtx, wndSpwndClipboard, wndExStyle2,
    wndInternalPos + 0, wndInternalPos + 4, wndInternalPos + 8, wndInternalPos + 12,
    wndInternalPos + 16, wndInternalPos + 20, wndInternalPos + 24, wndFlags, wndPSBInfoEx,
    wndThreadListEntry + 0, wndThreadListEntry + 4, wndDialogPointer]
  decide +kernel

/-- `guest_wnd_create` makes a `WND` behind all others, or leaves the heap. -/
theorem guestWndCreate_spec (hfits : heap.Fits) (wnd : Wnd) :
    (guestWndCreate heap wnd).2 = 0 ∧ (guestWndCreate heap wnd).1 = heap ∨
      (guestWndCreate heap wnd).2 ≠ 0 ∧
        WndMade heap (guestWndCreate heap wnd).1 wnd (guestWndCreate heap wnd).2 := by
  obtain ⟨hsize, hextra⟩ := wndSize_spec wnd.cbWndExtra
  have hbase : wndBaseSize.toNat = 228 := by decide
  unfold guestWndCreate
  dsimp only
  generalize hs : (if wnd.cbWndExtra > 0 then wndBaseSize + wnd.cbWndExtra.toUInt32
    else wndBaseSize) = size at hsize ⊢
  by_cases hva : (desktopHeapAlloc heap size).2 = 0
  · rw [if_pos hva]
    exact .inl ⟨rfl, alloc_zero hfits hva⟩
  · rw [if_neg hva]
    have hroom : heap.allocOffset.toNat ≤ 2 ^ 20 := Nat.le_trans hfits (by decide)
    obtain ⟨hbytes, hfits', hstart, htop⟩ :=
      alloc_spec hfits (by omega) (by omega) (by omega) hva
    generalize (desktopHeapAlloc heap size).1 = heap₁ at hbytes hfits' htop ⊢
    generalize (desktopHeapAlloc heap size).2 = va at hva hstart ⊢
    have hlimit : desktopHeapLimitVa.toNat = desktopHeapBaseVa.toNat + desktopHeapSize.toNat := by
      decide
    have hlimit' : desktopHeapLimitVa.toNat < 2 ^ 32 := by decide
    unfold DesktopHeap.Fits at hfits'
    have hplace : WndPlace va := ⟨by omega, by omega⟩
    have hin : ∀ f ∈ guestWndFields wnd va, f.1.toNat + 4 ≤ wndBaseSize.toNat := fun f hf =>
      (spaced_guestWndFields wnd va).1 f.1 (List.mem_map_of_mem hf)
    have haddr : ∀ i ∈ List.range wnd.cbWndExtra.toInt.toNat,
        (va + wndBaseSize + UInt32.ofNat i).toNat = va.toNat + wndBaseSize.toNat + i := by
      intro i hi
      have hi := List.mem_range.mp hi
      have hnat : (UInt32.ofNat i).toNat = i := UInt32.toNat_ofNat_of_lt' (by
        show i < 2 ^ 32
        omega)
      rw [UInt32.toNat_add, UInt32.toNat_add, hnat, Nat.mod_eq_of_lt (a := va.toNat + _) (by omega),
        Nat.mod_eq_of_lt (by omega)]
    have hwords : ∀ a : UInt32, a.toNat + 4 ≤ va.toNat + wndBaseSize.toNat →
        (zeroExtra (desktopHeapWrites heap₁ va (guestWndFields wnd va)) va
          (List.range wnd.cbWndExtra.toInt.toNat)).word a =
        (desktopHeapWrites heap₁ va (guestWndFields wnd va)).word a := by
      intro a ha
      apply word_zeroExtra
      intro i hi
      rw [haddr i hi]
      omega
    have hoffset : (zeroExtra (desktopHeapWrites heap₁ va (guestWndFields wnd va)) va
        (List.range wnd.cbWndExtra.toInt.toNat)).allocOffset = heap₁.allocOffset :=
      (allocOffset_zeroExtra _ _ _).trans allocOffset_writes
    refine .inr ⟨hva, ?_, hplace, hstart, ?_, fun f hf => ?_, fun a ha => ?_⟩
    · show (zeroExtra _ _ _).allocOffset.toNat ≤ _
      rw [hoffset]
      exact hfits'
    · show _ ≤ _ + (zeroExtra _ _ _).allocOffset.toNat
      rw [hoffset]
      omega
    · refine (hwords _ ?_).trans (word_writes hplace (spaced_guestWndFields wnd va) hf)
      rw [toNat_add_offset hplace (hin f hf)]
      have hoff := hin f hf
      omega
    · refine (hwords a (by omega)).trans ((word_writes_of_apart hplace hin fun f _ => ?_).trans ?_)
      · omega
      · unfold DesktopHeap.word
        rw [hbytes]

/-- What is kept up to date is among what is written first. -/
theorem syncFields_subset (wnd : Wnd) (va : UInt32) :
    ∀ f ∈ guestWndSyncFields wnd, f ∈ guestWndFields wnd va := by
  unfold guestWndSyncFields guestWndFields rectFields
  intro f hf
  simp only [List.mem_append, List.mem_cons, List.not_mem_nil, or_false] at hf ⊢
  tauto

end Create

end Wbox.User
