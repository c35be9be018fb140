import Wbox.Vm.Areas
import Wbox.Vm.Buffers

/-!
# Fields written to the guest

A structure is written to a guest buffer field by field, each at an address of its own that is
translated when it is written. Where the tables are out of reach of such writes, they touch exactly
the bytes of the buffer if the fields end where the buffer ends and none of them crosses into a
frame that does not follow.
-/

namespace Wbox.Vm

open Wbox.Lib Wbox.Lib.Logged

/-- A field of a structure. -/
inductive GuestField where
  | dword (val : UInt32)
  | word (val : UInt16)
  | byte (val : UInt8)
  deriving DecidableEq, Repr

namespace GuestField

def size : GuestField → Nat
  | dword _ => 4
  | word _ => 2
  | byte _ => 1

/-- The bytes of a field, the lowest one first. -/
def bytes : GuestField → List UInt8
  | dword val => [wordByte val 0, wordByte val 1, wordByte val 2, wordByte val 3]
  | word val => [halfByte val 0, halfByte val 1]
  | byte val => [val]

/-- The write of a field to physical memory. -/
def put : GuestField → UInt32 → PhysM PUnit
  | dword val, phys => writel phys val
  | word val, phys => writew phys val
  | byte val, phys => writeb phys val

theorem size_pos (f : GuestField) : 0 < f.size := by
  cases f <;> simp [size]

theorem size_le (f : GuestField) : f.size ≤ 4 := by
  cases f <;> simp [size]

theorem put_events (f : GuestField) (phys : UInt32) (m : PhysMem) :
    (f.put phys).events m = (physRange phys f.size).map .write := by
  cases f <;> rfl

theorem put_sameOn (f : GuestField) (phys : UInt32) (m : PhysMem) :
    SameOn (Outside phys f.size) m ((f.put phys).after m) := by
  cases f with
  | dword val => exact sameOn_writel m phys val
  | word val => exact sameOn_writew m phys val
  | byte val => exact sameOn_writeb m phys val

/-- The bytes of a field that has been written. -/
theorem put_bytes (f : GuestField) {phys : UInt32} {m : PhysMem}
    (hroom : phys.toNat + f.size ≤ 2 ^ 32) (hfits : phys.toNat + f.size ≤ m.ramSize) {j : Nat}
    (hj : j < f.size) :
    ((f.put phys).after m).ram (phys.toNat + j) = f.bytes.getD j 0 := by
  have hlast : ∀ n < f.size, (phys + UInt32.ofNat n).toNat < m.ramSize := by
    intro n hn
    rw [toNat_add_ofNat hn (by omega)]
    omega
  cases f with
  | dword val =>
    have hin : (phys + 3).toNat < m.ramSize := hlast 3 (by simp [size])
    have hafter : ((dword val).put phys).after m =
        { m with ram := storeWord m.ram phys.toNat val } := if_pos hin
    have hsmall : j < 4 := hj
    have hcases : j = 0 ∨ j = 1 ∨ j = 2 ∨ j = 3 := by omega
    rw [hafter]
    rcases hcases with rfl | rfl | rfl | rfl <;>
      simp [storeWord, Function.update, bytes, wordByte]
  | word val =>
    have hin : (phys + 1).toNat < m.ramSize := hlast 1 (by simp [size])
    have hafter : ((word val).put phys).after m =
        { m with ram := storeHalf m.ram phys.toNat val } := if_pos hin
    have hsmall : j < 2 := hj
    have hcases : j = 0 ∨ j = 1 := by omega
    rw [hafter]
    rcases hcases with rfl | rfl <;> simp [storeHalf, Function.update, bytes, halfByte]
  | byte val =>
    have hin : phys.toNat < m.ramSize := by
      have hsize : (byte val).size = 1 := rfl
      omega
    have hafter : ((byte val).put phys).after m =
        { m with ram := Function.update m.ram phys.toNat val } := if_pos hin
    have hzero : j = 0 := by
      have hsmall : j < 1 := hj
      omega
    rw [hafter, hzero]
    exact Function.update_self _ _ _

end GuestField

/-- A write to an address of the guest; nothing is written to the address 0 or to a page that is not
mapped. -/
def writeGuest (ctx : PagingContext) (guestPtr : UInt32) (write : UInt32 → PhysM PUnit) :
    PhysM PUnit :=
  if guestPtr = 0 then return
  else do
    let phys ← getPhys ctx guestPtr
    if phys ≠ 0 then write phys

/-- The size of fields one after the other. -/
def sizeOfFields (fs : List GuestField) : Nat := (fs.map GuestField.size).sum

/-- Fields with their offsets, from one on. -/
def placed : Nat → List GuestField → List (Nat × GuestField)
  | _, [] => []
  | o, f :: fs => (o, f) :: placed (o + f.size) fs

/-- The fields are written at their offsets from an address. -/
def writePlaced (ctx : PagingContext) (va : UInt32) (fs : List (Nat × GuestField)) : PhysM PUnit :=
  fs.forM fun p => writeGuest ctx (va + UInt32.ofNat p.1) p.2.put

theorem mem_placed_bounds {fs : List GuestField} {o : Nat} {p : Nat × GuestField}
    (hp : p ∈ placed o fs) : o ≤ p.1 ∧ p.1 + p.2.size ≤ o + sizeOfFields fs := by
  induction fs generalizing o with
  | nil => cases hp
  | cons f fs ih =>
    have hsize : sizeOfFields (f :: fs) = f.size + sizeOfFields fs := rfl
    rcases List.mem_cons.mp hp with rfl | hp
    · dsimp only
      omega
    · obtain ⟨hlo, hhi⟩ := ih hp
      omega

/-- Every byte of the fields is in one of them. -/
theorem exists_placed (fs : List GuestField) {o i : Nat} (hlo : o ≤ i)
    (hhi : i < o + sizeOfFields fs) : ∃ p ∈ placed o fs, p.1 ≤ i ∧ i < p.1 + p.2.size := by
  induction fs generalizing o with
  | nil =>
    have hsize : sizeOfFields [] = 0 := rfl
    omega
  | cons f fs ih =>
    have hsize : sizeOfFields (f :: fs) = f.size + sizeOfFields fs := rfl
    by_cases hin : i < o + f.size
    · exact ⟨(o, f), List.mem_cons_self, hlo, hin⟩
    · obtain ⟨p, hp, hbounds⟩ := ih (o := o + f.size) (by omega) (by omega)
      exact ⟨p, List.mem_cons_of_mem _ hp, hbounds⟩

/-- Two fields have no byte in common. -/
theorem placed_apart {fs : List GuestField} {o i : Nat} {p p' : Nat × GuestField}
    (hp : p ∈ placed o fs) (hp' : p' ∈ placed o fs) (hi : p.1 ≤ i ∧ i < p.1 + p.2.size)
    (hi' : p'.1 ≤ i ∧ i < p'.1 + p'.2.size) : p = p' := by
  induction fs generalizing o with
  | nil => cases hp
  | cons f fs ih =>
    rcases List.mem_cons.mp hp with rfl | hp
    · rcases List.mem_cons.mp hp' with rfl | hp'
      · rfl
      · have hbounds := mem_placed_bounds hp'
        dsimp only at hi
        omega
    · rcases List.mem_cons.mp hp' with rfl | hp'
      · have hbounds := mem_placed_bounds hp
        dsimp only at hi'
        omega
      · exact ih hp hp'

theorem placed_append (o : Nat) (fs gs : List GuestField) :
    placed o (fs ++ gs) = placed o fs ++ placed (o + sizeOfFields fs) gs := by
  induction fs generalizing o with
  | nil => rfl
  | cons f fs ih =>
    have hsize : sizeOfFields (f :: fs) = f.size + sizeOfFields fs := rfl
    rw [List.cons_append, placed, placed, ih, hsize, List.cons_append, Nat.add_assoc]

theorem writePlaced_append (ctx : PagingContext) (va : UInt32) (ps qs : List (Nat × GuestField)) :
    writePlaced ctx va (ps ++ qs) = writePlaced ctx va ps >>= fun _ => writePlaced ctx va qs :=
  forM_append ps qs

/-- The fields that end in the first bytes. -/
def endingBy (k : Nat) (ps : List (Nat × GuestField)) : List (Nat × GuestField) :=
  ps.filter fun p => p.1 + p.2.size ≤ k

section Ends

variable {k o : Nat} {p : Nat × GuestField} {ps qs : List (Nat × GuestField)}

theorem mem_endingBy : p ∈ endingBy k ps ↔ p ∈ ps ∧ p.1 + p.2.size ≤ k := by
  unfold endingBy
  rw [List.mem_filter, decide_eq_true_iff]

theorem endingBy_cons_of_le (h : p.1 + p.2.size ≤ k) :
    endingBy k (p :: ps) = p :: endingBy k ps :=
  List.filter_cons_of_pos (decide_eq_true h)

theorem endingBy_cons_of_not_le (h : ¬ p.1 + p.2.size ≤ k) :
    endingBy k (p :: ps) = endingBy k ps :=
  List.filter_cons_of_neg fun hle => h (of_decide_eq_true hle)

theorem endingBy_append (k : Nat) (ps qs : List (Nat × GuestField)) :
    endingBy k (ps ++ qs) = endingBy k ps ++ endingBy k qs :=
  List.filter_append ps qs

/-- Fields behind the bytes do not end in them. -/
theorem endingBy_of_le {fs : List GuestField} (hk : k ≤ o) : endingBy k (placed o fs) = [] := by
  apply List.filter_eq_nil_iff.mpr
  intro p hp hend
  have hle := of_decide_eq_true hend
  have hbounds := mem_placed_bounds hp
  have hpos := p.2.size_pos
  omega

end Ends

section Machine

variable {vm : PagedVm} {m m' : PhysMem} {va : UInt32} {i j k o n : Nat} {x : Nat}
variable {ps : List (Nat × GuestField)}

/-- The bytes before the allocation area, where the tables are, have not changed. -/
def TablesKept (vm : PagedVm) (m : PhysMem) : Prop :=
  SameOn {x | x < vm.paging.physAllocBase.toNat} vm.mem m

/-- The bytes of a field follow one another in physical memory, and it is not at the address 0. -/
def Straight (vm : PagedVm) (va : UInt32) (o n : Nat) : Prop :=
  va + UInt32.ofNat o ≠ 0 ∧ ∀ j < n, vm.translate (va + UInt32.ofNat (o + j)) =
    vm.translate (va + UInt32.ofNat o) + UInt32.ofNat j

/-- The bytes that a field touches. -/
def touchedBy (vm : PagedVm) (va : UInt32) (p : Nat × GuestField) : List UInt32 :=
  if va + UInt32.ofNat p.1 ≠ 0 ∧ vm.translate (va + UInt32.ofNat p.1) ≠ 0 then
    physRange (vm.translate (va + UInt32.ofNat p.1)) p.2.size
  else []

/-- What is mapped is in the allocation area, with room behind it. -/
theorem PageTables.translate_bounds (h : PageTables vm) (hva : vm.translate va ≠ 0) :
    vm.paging.physAllocBase.toNat ≤ (vm.translate va).toNat ∧
      (vm.translate va).toNat < vm.mem.ramSize ∧ (vm.translate va).toNat + 4096 ≤ 2 ^ 32 := by
  obtain ⟨hlo, hhi⟩ := h.translate_frame hva
  have hhigh := h.high
  have hram := h.ram
  have hmemory := h.memory
  exact ⟨hlo, by omega, by omega⟩

/-- An address keeps its place in its page. -/
theorem translate_mod (hva : vm.translate va ≠ 0) :
    (vm.translate va).toNat % 4096 = va.toNat % 4096 := by
  rw [translate_eq_entry] at hva ⊢
  split at hva
  · next hpresent =>
    rw [if_pos hpresent, frame_or_offset_toNat, pageMask_toNat]
    omega
  · exact absurd rfl hva

theorem PageTables.getPhys_kept (h : PageTables vm) (hm : TablesKept vm m) (va : UInt32) :
    pagingGetPhys m vm.paging.toPagingContext va = vm.translate va := (h.sameOn hm).2 va

/-- A write of a field, as far as the tables are kept. -/
theorem PageTables.writeGuest_eq (h : PageTables vm) (va : UInt32) (hm : TablesKept vm m)
    (p : Nat × GuestField) :
    (writeGuest vm.paging.toPagingContext (va + UInt32.ofNat p.1) p.2.put).events m =
        (touchedBy vm va p).map .write ∧
      (writeGuest vm.paging.toPagingContext (va + UInt32.ofNat p.1) p.2.put).after m =
        if va + UInt32.ofNat p.1 ≠ 0 ∧ vm.translate (va + UInt32.ofNat p.1) ≠ 0 then
          (p.2.put (vm.translate (va + UInt32.ofNat p.1))).after m
        else m := by
  unfold writeGuest touchedBy
  by_cases hzero : va + UInt32.ofNat p.1 = 0
  · rw [if_pos hzero, if_neg fun hin => hin.1 hzero, if_neg fun hin => hin.1 hzero]
    exact ⟨rfl, rfl⟩
  · rw [if_neg hzero, events_bind, after_bind]
    have hvalue : (getPhys vm.paging.toPagingContext (va + UInt32.ofNat p.1)).value m =
        vm.translate (va + UInt32.ofNat p.1) := h.getPhys_kept hm _
    have hafter : (getPhys vm.paging.toPagingContext (va + UInt32.ofNat p.1)).after m = m := rfl
    have hevents : (getPhys vm.paging.toPagingContext (va + UInt32.ofNat p.1)).events m = [] := rfl
    rw [hvalue, hafter, hevents, List.nil_append]
    by_cases hphys : vm.translate (va + UInt32.ofNat p.1) = 0
    · rw [if_neg (not_not_intro hphys), if_neg fun hin => hin.2 hphys,
        if_neg fun hin => hin.2 hphys]
      exact ⟨rfl, rfl⟩
    · rw [if_pos hphys, if_pos ⟨hzero, hphys⟩, if_pos ⟨hzero, hphys⟩]
      exact ⟨p.2.put_events _ m, rfl⟩

/-- A field that is written leaves everything but the bytes that it touches. -/
theorem PageTables.writeGuest_same (h : PageTables vm) (va : UInt32) (hm : TablesKept vm m)
    (p : Nat × GuestField) :
    SameOn {x | ∀ a ∈ touchedBy vm va p, a.toNat ≠ x} m
      ((writeGuest vm.paging.toPagingContext (va + UInt32.ofNat p.1) p.2.put).after m) := by
  rw [(h.writeGuest_eq _ hm p).2]
  split
  · next hin =>
    obtain ⟨-, -, hroom⟩ := h.translate_bounds hin.2
    apply (p.2.put_sameOn _ m).mono
    intro x hx
    have hsize := p.2.size_le
    apply Classical.byContradiction
    intro hout
    have hnot : ¬ (x < (vm.translate (va + UInt32.ofNat p.1)).toNat ∨
        (vm.translate (va + UInt32.ofNat p.1)).toNat + p.2.size ≤ x) := hout
    generalize ht : vm.translate (va + UInt32.ofNat p.1) = t at hnot hroom hin
    apply hx (t + UInt32.ofNat (x - t.toNat))
    · unfold touchedBy
      rw [ht, if_pos hin]
      exact List.mem_map.mpr ⟨x - t.toNat, List.mem_range.mpr (by omega), rfl⟩
    · rw [toNat_add_ofNat (n := 4) (by omega) (by omega)]
      omega
  · exact .refl _ m

/-- No field touches the tables. -/
theorem PageTables.touchedBy_base (h : PageTables vm) {p : Nat × GuestField} {a : UInt32}
    (ha : a ∈ touchedBy vm va p) : vm.paging.physAllocBase.toNat ≤ a.toNat := by
  unfold touchedBy at ha
  split at ha
  · next hin =>
    obtain ⟨hlo, -, hroom⟩ := h.translate_bounds hin.2
    obtain ⟨j, hj, rfl⟩ := List.mem_map.mp ha
    have hsize := p.2.size_le
    rw [toNat_add_ofNat (List.mem_range.mp hj) (by omega)]
    omega
  · cases ha

theorem PageTables.writeGuest_kept (h : PageTables vm) (va : UInt32) (hm : TablesKept vm m)
    (p : Nat × GuestField) : TablesKept vm
      ((writeGuest vm.paging.toPagingContext (va + UInt32.ofNat p.1) p.2.put).after m) := by
  apply SameOn.trans hm
  apply (h.writeGuest_same _ hm p).mono
  intro x hx a ha heq
  have hbase := h.touchedBy_base ha
  have hlt : x < vm.paging.physAllocBase.toNat := hx
  omega

/-- What the fields touch, one after the other, and what they leave. -/
theorem PageTables.writePlaced_spec (h : PageTables vm) (va : UInt32) (hm : TablesKept vm m)
    (ps : List (Nat × GuestField)) :
    (writePlaced vm.paging.toPagingContext va ps).events m =
        (ps.flatMap (touchedBy vm va)).map .write ∧
      SameOn {x | ∀ p ∈ ps, ∀ a ∈ touchedBy vm va p, a.toNat ≠ x} m
        ((writePlaced vm.paging.toPagingContext va ps).after m) ∧
      TablesKept vm ((writePlaced vm.paging.toPagingContext va ps).after m) := by
  induction ps generalizing m with
  | nil => exact ⟨rfl, .refl _ m, hm⟩
  | cons p ps ih =>
    obtain ⟨hevents, -⟩ := h.writeGuest_eq va hm p
    obtain ⟨hrest, hsame, hkept⟩ := ih (h.writeGuest_kept va hm p)
    have hfirst : writePlaced vm.paging.toPagingContext va (p :: ps) =
        (writeGuest vm.paging.toPagingContext (va + UInt32.ofNat p.1) p.2.put >>= fun _ =>
          writePlaced vm.paging.toPagingContext va ps) := rfl
    rw [hfirst, events_bind, after_bind, hevents, hrest, List.flatMap_cons, List.map_append]
    refine ⟨rfl, ?_, hkept⟩
    apply ((h.writeGuest_same _ hm p).mono _).trans (hsame.mono _)
    · exact fun x hx => hx p List.mem_cons_self
    · exact fun x hx p' hp' => hx p' (List.mem_cons_of_mem p hp')

/-- A field that is not at the address 0 and is mapped. -/
theorem Straight.touchedBy {p : Nat × GuestField} (hstraight : Straight vm va p.1 p.2.size)
    (hmapped : vm.translate (va + UInt32.ofNat p.1) ≠ 0) :
    touchedBy vm va p = physRange (vm.translate (va + UInt32.ofNat p.1)) p.2.size :=
  if_pos ⟨hstraight.1, hmapped⟩

/-- A byte that a field touches has the place in its page that the byte of the field has. -/
theorem PageTables.touchedBy_mod (h : PageTables vm) {p : Nat × GuestField} {a : UInt32}
    (ha : a ∈ touchedBy vm va p) :
    ∃ j < p.2.size, a = vm.translate (va + UInt32.ofNat p.1) + UInt32.ofNat j ∧
      a.toNat % 4096 = (va.toNat + p.1 + j) % 4096 ∧ va + UInt32.ofNat p.1 ≠ 0 := by
  unfold Vm.touchedBy at ha
  split at ha
  · next hin =>
    obtain ⟨j, hj, rfl⟩ := List.mem_map.mp ha
    have hlt := List.mem_range.mp hj
    refine ⟨j, hlt, rfl, ?_, hin.1⟩
    obtain ⟨-, -, hroom⟩ := h.translate_bounds hin.2
    have hmod := translate_mod hin.2
    have hsize := p.2.size_le
    rw [UInt32.toNat_add, UInt32.toNat_ofNat'] at hmod
    rw [toNat_add_ofNat hlt (by omega)]
    omega
  · cases ha

/-- The byte of a page that a field touches is one that the field has. -/
theorem PageTables.eq_of_touched (h : PageTables vm) {p : Nat × GuestField}
    (hp : p.1 + p.2.size ≤ 4096) (hi : i < 4096) (hmapped : vm.translate (va + UInt32.ofNat i) ≠ 0)
    {a : UInt32} (ha : a ∈ touchedBy vm va p)
    (heq : a.toNat = (vm.translate (va + UInt32.ofNat i)).toNat) :
    p.1 ≤ i ∧ i < p.1 + p.2.size ∧
      a = vm.translate (va + UInt32.ofNat p.1) + UInt32.ofNat (i - p.1) := by
  obtain ⟨j, hj, hbyte, hplace, -⟩ := h.touchedBy_mod ha
  have hmod := translate_mod hmapped
  rw [UInt32.toNat_add, UInt32.toNat_ofNat'] at hmod
  have hij : i = p.1 + j := by omega
  subst hij
  refine ⟨by omega, by omega, ?_⟩
  rw [Nat.add_sub_cancel_left]
  exact hbyte

/-- The bytes of a straight field, and the room that they have. -/
theorem PageTables.straight_room (h : PageTables vm) (hstraight : Straight vm va o n) (hn : n ≤ 4)
    (hmapped : ∀ j < n, vm.translate (va + UInt32.ofNat (o + j)) ≠ 0) (hpos : 0 < n) :
    (vm.translate (va + UInt32.ofNat o)).toNat + n ≤ vm.mem.ramSize ∧
      (vm.translate (va + UInt32.ofNat o)).toNat + 4096 ≤ 2 ^ 32 ∧
      ∀ j < n, (vm.translate (va + UInt32.ofNat (o + j))).toNat =
        (vm.translate (va + UInt32.ofNat o)).toNat + j := by
  have hfirst : vm.translate (va + UInt32.ofNat o) ≠ 0 := hmapped 0 hpos
  obtain ⟨-, -, hroom⟩ := h.translate_bounds hfirst
  have hbytes : ∀ j < n, (vm.translate (va + UInt32.ofNat (o + j))).toNat =
      (vm.translate (va + UInt32.ofNat o)).toNat + j := by
    intro j hj
    rw [hstraight.2 j hj, toNat_add_ofNat hj (by omega)]
  refine ⟨?_, hroom, hbytes⟩
  have hlast := (h.translate_bounds (hmapped (n - 1) (by omega))).2.1
  rw [hbytes (n - 1) (by omega)] at hlast
  omega

/-- The bytes of a straight field after all have been written. -/
theorem PageTables.writePlaced_bytes (h : PageTables vm) (va : UInt32)
    (ps : List (Nat × GuestField)) (hm : TablesKept vm m)
    (hfits : ∀ p ∈ ps, p.1 + p.2.size ≤ 4096)
    (hapart : ∀ p ∈ ps, ∀ p' ∈ ps, ∀ i, p.1 ≤ i ∧ i < p.1 + p.2.size →
      p'.1 ≤ i ∧ i < p'.1 + p'.2.size → p = p')
    {p : Nat × GuestField} (hp : p ∈ ps) (hstraight : Straight vm va p.1 p.2.size)
    (hmapped : ∀ j < p.2.size, vm.translate (va + UInt32.ofNat (p.1 + j)) ≠ 0) (hj : j < p.2.size) :
    ((writePlaced vm.paging.toPagingContext va ps).after m).ram
      (vm.translate (va + UInt32.ofNat (p.1 + j))).toNat = p.2.bytes.getD j 0 := by
  induction ps generalizing m with
  | nil => cases hp
  | cons q ps ih =>
    have hkept := h.writeGuest_kept va hm q
    have hafter : (writePlaced vm.paging.toPagingContext va (q :: ps)).after m =
        (writePlaced vm.paging.toPagingContext va ps).after
          ((writeGuest vm.paging.toPagingContext (va + UInt32.ofNat q.1) q.2.put).after m) := rfl
    rw [hafter]
    by_cases hrest : p ∈ ps
    · exact ih hkept (fun p hp => hfits p (List.mem_cons_of_mem q hp))
        (fun p hp p' hp' => hapart p (List.mem_cons_of_mem q hp) p' (List.mem_cons_of_mem q hp'))
        hrest
    · obtain rfl : p = q := (List.mem_cons.mp hp).resolve_right hrest
      obtain ⟨-, hsame, -⟩ := h.writePlaced_spec va hkept ps
      have hin := hfits p List.mem_cons_self
      -- no later field touches the byte
      rw [hsame.ram]
      · have hpos := p.2.size_pos
        obtain ⟨hram, hroom, hbytes⟩ := h.straight_room hstraight p.2.size_le hmapped hpos
        have hsize := p.2.size_le
        rw [(h.writeGuest_eq _ hm p).2, if_pos ⟨hstraight.1, hmapped 0 hpos⟩, hbytes j hj]
        apply p.2.put_bytes (by omega) _ hj
        rw [hm.size]
        exact hram
      · intro p' hp' a ha heq
        have hlater := List.mem_cons_of_mem p hp'
        obtain ⟨hlo, hhi, -⟩ := h.eq_of_touched (hfits p' hlater) (by omega) (hmapped j hj) ha heq
        have hsamefield := hapart p hp p' hlater (p.1 + j) ⟨by omega, by omega⟩ ⟨hlo, hhi⟩
        rw [hsamefield] at hrest
        exact hrest hp'

/-- If one of the fields ends where the bytes end, each byte is in a field that ends by then. -/
theorem exists_endingBy {fs : List GuestField} (hends : ∃ p ∈ placed 0 fs, p.1 + p.2.size = k)
    (hi : i < k) : ∃ p ∈ endingBy k (placed 0 fs), p.1 ≤ i ∧ i < p.1 + p.2.size := by
  obtain ⟨q, hq, hqend⟩ := hends
  have hqin := mem_placed_bounds hq
  obtain ⟨p, hp, hlo, hhi⟩ := exists_placed fs (o := 0) (i := i) (by omega) (by omega)
  refine ⟨p, mem_endingBy.mpr ⟨hp, ?_⟩, hlo, hhi⟩
  apply Classical.byContradiction
  intro hover
  have hqpos := q.2.size_pos
  obtain rfl : p = q := placed_apart (i := k - 1) hp hq ⟨by omega, by omega⟩ ⟨by omega, by omega⟩
  omega

/-- The fields that end in the first bytes touch exactly these if one of them ends where the bytes
end and all are straight. -/
theorem PageTables.endingBy_exact_iff (h : PageTables vm) (va : UInt32) (fs : List GuestField)
    (hk : k ≤ 4096) (hpos : 0 < k) (hmapped : ∀ i < k, vm.translate (va + UInt32.ofNat i) ≠ 0) :
    (∀ a, a ∈ (endingBy k (placed 0 fs)).flatMap (touchedBy vm va) ↔
        ∃ i < k, vm.translate (va + UInt32.ofNat i) = a) ↔
      (∃ p ∈ placed 0 fs, p.1 + p.2.size = k) ∧
        ∀ p ∈ endingBy k (placed 0 fs), Straight vm va p.1 p.2.size := by
  constructor
  · intro hexact
    -- every byte is touched by the field that has it
    have htouch : ∀ i < k, ∃ p ∈ endingBy k (placed 0 fs), p.1 ≤ i ∧ i < p.1 + p.2.size ∧
        va + UInt32.ofNat p.1 ≠ 0 ∧ vm.translate (va + UInt32.ofNat i) =
          vm.translate (va + UInt32.ofNat p.1) + UInt32.ofNat (i - p.1) := by
      intro i hi
      obtain ⟨p, hp, ha⟩ := List.mem_flatMap.mp ((hexact _).mpr ⟨i, hi, rfl⟩)
      have hend := (mem_endingBy.mp hp).2
      obtain ⟨hlo, hhi, hbyte⟩ := h.eq_of_touched (by omega) (by omega) (hmapped i hi) ha rfl
      obtain ⟨-, -, -, -, hzero⟩ := h.touchedBy_mod ha
      exact ⟨p, hp, hlo, hhi, hzero, hbyte⟩
    constructor
    · obtain ⟨p, hp, hlo, hhi, -⟩ := htouch (k - 1) (by omega)
      obtain ⟨hmem, hend⟩ := mem_endingBy.mp hp
      exact ⟨p, hmem, by omega⟩
    · intro p hp
      obtain ⟨hmem, hend⟩ := mem_endingBy.mp hp
      have hown : ∀ j < p.2.size, va + UInt32.ofNat p.1 ≠ 0 ∧
          vm.translate (va + UInt32.ofNat (p.1 + j)) =
            vm.translate (va + UInt32.ofNat p.1) + UInt32.ofNat j := by
        intro j hj
        obtain ⟨p', hp', hlo, hhi, hzero, hbyte⟩ := htouch (p.1 + j) (by omega)
        obtain rfl : p = p' := placed_apart hmem (mem_endingBy.mp hp').1
          ⟨by omega, by omega⟩ ⟨hlo, hhi⟩
        rw [Nat.add_sub_cancel_left] at hbyte
        exact ⟨hzero, hbyte⟩
      exact ⟨(hown 0 p.2.size_pos).1, fun j hj => (hown j hj).2⟩
  · intro ⟨hends, hstraight⟩ a
    constructor
    · intro ha
      obtain ⟨p, hp, ha⟩ := List.mem_flatMap.mp ha
      obtain ⟨-, hend⟩ := mem_endingBy.mp hp
      obtain ⟨j, hj, rfl, -⟩ := h.touchedBy_mod ha
      exact ⟨p.1 + j, by omega, (hstraight p hp).2 j hj⟩
    · intro ⟨i, hi, heq⟩
      obtain ⟨p, hp, hlo, hhi⟩ := exists_endingBy hends hi
      apply List.mem_flatMap.mpr
      refine ⟨p, hp, ?_⟩
      rw [(hstraight p hp).touchedBy (hmapped p.1 (by omega))]
      refine List.mem_map.mpr ⟨i - p.1, List.mem_range.mpr (by omega), ?_⟩
      rw [← (hstraight p hp).2 (i - p.1) (by omega), ← heq]
      congr 3
      omega

end Machine

end Wbox.Vm
