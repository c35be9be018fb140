import Mathlib
import Wbox.Vm.GuestBuffer
import Wbox.Vm.Strings

/-!
# Words in an area

An area of guest memory lies in one piece of physical memory. Its words are words of the array,
which the guest, and the host after a translation, read and write there.
-/

namespace Wbox.Vm

open Wbox.Lib

variable {m m' : PhysMem} {ctx : PagingContext} {written : Set Nat} {a b : Area} {o k n : Nat}

/-- A word of the array is stored. -/
def PhysMem.storeAt (m : PhysMem) (i : Nat) (val : UInt32) : PhysMem :=
  { m with ram := storeWord m.ram i val }

theorem PhysMem.sameOn_storeAt (m : PhysMem) (i : Nat) (val : UInt32) :
    SameOn {x | x < i ∨ i + 4 ≤ x} m (m.storeAt i val) :=
  ⟨rfl, fun _ hx => storeWord_of_ne val hx⟩

/-- `mem_writew_phys`. -/
theorem sameOn_writew (m : PhysMem) (addr : UInt32) (val : UInt16) :
    SameOn (Outside addr 2) m (memWritewPhys m addr val) := by
  unfold memWritewPhys
  split
  · refine ⟨rfl, ?_⟩
    intro x hx
    have hout : x < addr.toNat ∨ addr.toNat + 2 ≤ x := hx
    dsimp only
    rw [Function.update_of_ne (by omega), Function.update_of_ne (by omega)]
  · exact .refl _ m

namespace Area

/-- The bytes of the array outside `n` bytes of an area. -/
def Except (a : Area) (o n : Nat) : Set Nat := {x | x < a.phys.toNat + o ∨ a.phys.toNat + o + n ≤ x}

theorem except_subset (hsub : b.range ⊆ written) (hn : o + n ≤ b.len.toNat) :
    {x | x ∉ written} ⊆ b.Except o n := by
  intro x hx
  by_contra hin
  have hout : ¬ (x < b.phys.toNat + o ∨ b.phys.toNat + o + n ≤ x) := hin
  refine hx (hsub ?_)
  constructor <;> omega

/-- The bytes of another area are outside. -/
theorem mem_except_of_disjoint {x : Nat} (hdisjoint : Disjoint a.range b.range) (hx : x ∈ a.range)
    (hn : o + n ≤ b.len.toNat) : x ∈ b.Except o n := by
  by_contra hin
  have hout : ¬ (x < b.phys.toNat + o ∨ b.phys.toNat + o + n ≤ x) := hin
  have hx' : x ∈ b.range := by
    constructor <;> omega
  exact Set.disjoint_left.mp hdisjoint hx hx'

namespace Ready

/-- What is written into an area leaves all areas ready. -/
theorem keep (h : a.Ready m ctx written) (hsub : b.range ⊆ written) (hn : o + n ≤ b.len.toNat)
    (hsame : SameOn (b.Except o n) m m') : a.Ready m' ctx written :=
  h.after (hsame.mono (except_subset hsub hn))

/-- A loop that writes into an area. -/
theorem foldl {ι : Type} {f : PhysMem → ι → PhysMem} {xs : List ι} (h : a.Ready m ctx written)
    (hram : m.ramSize ≤ 2 ^ 32) (hsub : a.range ⊆ written) (hn : o + n ≤ a.len.toNat)
    (hstep : ∀ m, a.Ready m ctx written → m.ramSize ≤ 2 ^ 32 → ∀ x ∈ xs,
      SameOn (a.Except o n) m (f m x)) : SameOn (a.Except o n) m (xs.foldl f m) := by
  induction xs generalizing m with
  | nil => exact .refl _ m
  | cons x xs ih =>
    have hone := hstep m h hram x List.mem_cons_self
    exact hone.trans (ih (h.keep hsub hn hone) (by rw [hone.size]; exact hram)
      fun m hm hram y hy => hstep m hm hram y (List.mem_cons_of_mem x hy))

variable (h : a.Ready m ctx written) (hram : m.ramSize ≤ 2 ^ 32)
include h hram

/-- The physical address of a byte of an area, and of one behind it. -/
theorem toNat_getPhys_add (hok : o + k < a.len.toNat) :
    (pagingGetPhys m ctx (a.va + UInt32.ofNat o) + UInt32.ofNat k).toNat =
      a.phys.toNat + o + k := by
  rw [h.translated m (.refl _ m) o (by omega), add_ofNat_ofNat,
    toNat_add_ofNat hok (h.inside.trans hram), Nat.add_assoc]

theorem toNat_getPhys (hok : o < a.len.toNat) :
    (pagingGetPhys m ctx (a.va + UInt32.ofNat o)).toNat = a.phys.toNat + o := by
  have hadd := h.toNat_getPhys_add hram (k := 0) hok
  rwa [show UInt32.ofNat 0 = 0 from rfl, UInt32.add_zero] at hadd

theorem getPhys_ne_zero (hok : o < a.len.toNat) :
    pagingGetPhys m ctx (a.va + UInt32.ofNat o) ≠ 0 := by
  intro hzero
  have hnat := h.toNat_getPhys hram hok
  rw [hzero] at hnat
  have hmapped : a.phys.toNat ≠ 0 := fun heq => h.mapped (UInt32.toNat_inj.mp heq)
  have hpos : (0 : UInt32).toNat = 0 := rfl
  omega

theorem except_outside (hok : o + n ≤ a.len.toNat) (hn : 0 < n) :
    a.Except o n ⊆ Outside (pagingGetPhys m ctx (a.va + UInt32.ofNat o)) n := by
  intro x hx
  have hout : x < a.phys.toNat + o ∨ a.phys.toNat + o + n ≤ x := hx
  show x < _ ∨ _ ≤ x
  rw [h.toNat_getPhys hram (by omega)]
  exact hout

/-- A word that the host reads at an address of the area. -/
theorem readl (hok : o + k + 4 ≤ a.len.toNat) :
    memReadlPhys m (pagingGetPhys m ctx (a.va + UInt32.ofNat o) + UInt32.ofNat k) =
      loadWord m.ram (a.phys.toNat + o + k) := by
  have hinside := h.inside
  have haddr := h.toNat_getPhys_add hram (o := o) (k := k) (by omega)
  have hlast := h.toNat_getPhys_add hram (o := o) (k := k + 3) (by omega)
  rw [← add_ofNat_ofNat] at hlast
  have hfits : (pagingGetPhys m ctx (a.va + UInt32.ofNat o) + UInt32.ofNat k + 3).toNat <
      m.ramSize := by
    rw [show (3 : UInt32) = UInt32.ofNat 3 from rfl, hlast]
    omega
  unfold memReadlPhys loadWord
  rw [if_pos hfits, haddr]

/-- A word that it writes there. -/
theorem writel (hok : o + k + 4 ≤ a.len.toNat) (val : UInt32) :
    memWritelPhys m (pagingGetPhys m ctx (a.va + UInt32.ofNat o) + UInt32.ofNat k) val =
      m.storeAt (a.phys.toNat + o + k) val := by
  have hinside := h.inside
  have haddr := h.toNat_getPhys_add hram (o := o) (k := k) (by omega)
  have hlast := h.toNat_getPhys_add hram (o := o) (k := k + 3) (by omega)
  rw [← add_ofNat_ofNat] at hlast
  have hfits : (pagingGetPhys m ctx (a.va + UInt32.ofNat o) + UInt32.ofNat k + 3).toNat <
      m.ramSize := by
    rw [show (3 : UInt32) = UInt32.ofNat 3 from rfl, hlast]
    omega
  unfold memWritelPhys PhysMem.storeAt
  rw [if_pos hfits, haddr]

/-- A word as the guest sees it. -/
theorem guestWord_eq (hok : o + 4 ≤ a.len.toNat) :
    guestWord m ctx (a.va + UInt32.ofNat o) = loadWord m.ram (a.phys.toNat + o) := by
  have hinside := h.inside
  have hbyte : ∀ j < 4, guestByte m ctx (a.va + UInt32.ofNat o + UInt32.ofNat j) =
      m.ram (a.phys.toNat + o + j) := by
    intro j hj
    unfold guestByte memReadbPhys
    rw [add_ofNat_ofNat, h.toNat_getPhys hram (by omega), if_pos (by omega), Nat.add_assoc]
  unfold guestWord loadWord
  simp only [Nat.zero_add]
  rw [hbyte 0 (by decide), hbyte 1 (by decide), hbyte 2 (by decide), hbyte 3 (by decide),
    Nat.add_zero]

end Ready

end Area

end Wbox.Vm
