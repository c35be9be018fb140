import Mathlib.Order.Interval.Finset.Nat
import Mathlib.Data.List.Nodup
import Wbox.Gdi.StaleHandles
import Wbox.Lib.SignedWord

/-!
# Live GDI handles

Runs of `gdi_alloc_handle` and `gdi_free_handle`, with the handles whose entries have not been freed
since they were returned (`src/gdi/gdi_handle_table.c`), against a finite map. Entry 0 is reserved,
with type 0, and a handle of type 0 frees it.
-/

namespace Wbox.Gdi

open Wbox.Lib

/-- A handle that has been returned, and what it was allocated with. -/
structure LiveHandle where
  handle : UInt32
  object : Option GdiPtr
  type : UInt8

/-- The table, and the handles whose entries have not been freed since they were returned. -/
structure GdiLiveRun where
  table : GdiHandleTable
  live : List LiveHandle

/-- The entry of a handle. -/
def LiveHandle.index (x : LiveHandle) : Nat := gdiHandleIndex x.handle

/-- One call. -/
def gdiLiveStep (r : GdiLiveRun) : GdiHandleOp → GdiLiveRun
  | .alloc object type =>
      let made := gdiAllocHandle r.table object type
      { table := made.1, live := if made.2 = 0 then r.live else ⟨made.2, object, type⟩ :: r.live }
  | .free handle =>
      let done := gdiFreeHandle r.table handle
      { table := done.1
        live := if done.2 then r.live.filter fun x => x.index ≠ gdiHandleIndex handle else r.live }

/-- The table after `gdi_handle_table_init`. -/
def gdiLiveStart : GdiLiveRun := { table := gdiHandleTableInit, live := [] }

/-- A new handle has the index of an entry that was free; there is none only if no entry is free. -/
structure AllocSound (t : GdiHandleTable) (object : Option GdiPtr) (type : UInt8) : Prop where
  free : (gdiAllocHandle t object type).2 ≠ 0 →
    1 ≤ gdiHandleIndex (gdiAllocHandle t object type).2 ∧
      gdiHandleIndex (gdiAllocHandle t object type).2 < gdiMaxHandles ∧
      (t.entries (gdiHandleIndex (gdiAllocHandle t object type).2)).inUse = false
  full : (gdiAllocHandle t object type).2 = 0 → ∀ i, 1 ≤ i → i < gdiMaxHandles →
    (t.entries i).inUse = true

/-- A handle resolves with its own type to its own object, and with no other type. -/
structure Resolves (t : GdiHandleTable) (x : LiveHandle) : Prop where
  own : gdiGetObject t x.handle x.type = x.object
  other : ∀ type, type ≠ x.type → gdiGetObject t x.handle type = none

/-- The table is a finite map from the live handles to their objects. -/
structure TableSound (r : GdiLiveRun) : Prop where
  alloc : ∀ object type, AllocSound r.table object type
  distinct : (r.live.map LiveHandle.handle).Nodup
  resolves : ∀ x ∈ r.live, Resolves r.table x
  count : r.table.handleCount.toInt = 1 + r.live.length

/-- The call does not free entry 0 with a handle of its type 0. -/
def SparesReserved : GdiHandleOp → Prop
  | .alloc _ _ => True
  | .free handle => ¬ (handle ≠ 0 ∧ gdiHandleIsStock handle = false ∧ gdiHandleIndex handle = 0 ∧
      gdiHandleType handle = 0)

instance : DecidablePred SparesReserved := fun op => by
  cases op with
  | alloc object type => exact isTrue trivial
  | free handle => exact inferInstanceAs (Decidable (¬ _))

variable {t : GdiHandleTable} {r : GdiLiveRun} {handle : UInt32} {object : Option GdiPtr}
  {type : UInt8} {x : LiveHandle} {i j : Nat} {op : GdiHandleOp}

section Search

/-- The search for a free entry covers all but the reserved one. -/
theorem freeSlot_none_iff (hlo : 1 ≤ t.nextFree) (hhi : t.nextFree ≤ gdiMaxHandles) :
    t.freeSlot = none ↔ ∀ i, 1 ≤ i → i < gdiMaxHandles → (t.entries i).inUse = true := by
  unfold GdiHandleTable.freeSlot GdiHandleTable.freeIn
  simp only [Option.or_eq_none_iff, List.find?_eq_none, List.mem_range'_1, Bool.not_eq_true,
    Bool.not_eq_false']
  constructor
  · intro ⟨hahead, hwrap⟩ i hpos hi
    by_cases hnext : t.nextFree ≤ i
    · exact hahead i ⟨hnext, by omega⟩
    · exact hwrap i ⟨hpos, by omega⟩
  · intro h
    exact ⟨fun i hi => h i (by omega) (by omega), fun i hi => h i (by omega) (by omega)⟩

theorem freeSlot_pos (hlo : 1 ≤ t.nextFree) (h : t.freeSlot = some i) : 1 ≤ i := by
  rcases Option.or_eq_some_iff.mp h with hahead | ⟨-, hwrap⟩
  · exact Nat.le_trans hlo (freeIn_some hahead).1
  · exact (freeIn_some hwrap).1

theorem gdiMakeHandle_ne_zero_of_pos {reuse : UInt16} (hpos : 1 ≤ i) (hi : i < gdiMaxHandles) :
    gdiMakeHandle i type reuse ≠ 0 := by
  intro hzero
  have hindex : gdiHandleIndex (gdiMakeHandle i type reuse) = i := gdiHandleIndex_make hi
  rw [hzero] at hindex
  have hnone : gdiHandleIndex 0 = 0 := rfl
  omega

/-- The free entry that was found is used. -/
theorem gdiAllocHandle_eq (h : t.freeSlot = some i) :
    gdiAllocHandle t object type =
      ({ t.set i ⟨object, type, (t.entries i).reuseCount + 1, true⟩ with
          nextFree := if i + 1 ≥ gdiMaxHandles then 1 else i + 1
          handleCount := t.handleCount + 1 },
        gdiMakeHandle i type ((t.entries i).reuseCount + 1)) := by
  unfold gdiAllocHandle
  rw [h]

theorem gdiAllocHandle_full (h : t.freeSlot = none) :
    gdiAllocHandle t object type = (t, 0) := by
  unfold gdiAllocHandle
  rw [h]

/-- The handle names an entry in use, by its type. -/
structure Frees (t : GdiHandleTable) (handle : UInt32) : Prop where
  regular : Regular handle
  inUse : (t.entries (gdiHandleIndex handle)).inUse = true
  type : (t.entries (gdiHandleIndex handle)).type = gdiHandleType handle

theorem gdiFreeHandle_eq (h : Frees t handle) :
    gdiFreeHandle t handle =
      ({ t.set (gdiHandleIndex handle)
            { t.entries (gdiHandleIndex handle) with inUse := false, object := none } with
          nextFree := if gdiHandleIndex handle < t.nextFree then gdiHandleIndex handle
            else t.nextFree
          handleCount := t.handleCount - 1 }, true) := by
  unfold gdiFreeHandle
  dsimp only
  rw [if_neg h.regular.ne_zero, h.regular.notStock, if_neg Bool.false_ne_true,
    if_neg (Nat.not_le.mpr h.regular.index), h.inUse, if_neg (by decide),
    if_neg (not_not.mpr h.type)]

theorem gdiFreeHandle_reject (h : ¬ Frees t handle) : gdiFreeHandle t handle = (t, false) := by
  rcases gdiFreeHandle_cases t handle with heq | ⟨hregular, huse, htype, -⟩
  · exact heq
  · exact absurd ⟨hregular, huse, htype⟩ h

end Search

section Invariant

/-- The handle's entry is in use, with what the handle was allocated with. -/
structure Holds (t : GdiHandleTable) (x : LiveHandle) : Prop where
  regular : Regular x.handle
  inUse : (t.entries x.index).inUse = true
  type : (t.entries x.index).type = x.type
  object : (t.entries x.index).object = x.object
  reuse : (t.entries x.index).reuseCount &&& 0x7F = gdiHandleReuse x.handle

/-- Entry 0 is reserved; the others in use are those of the live handles. -/
structure LiveInv (r : GdiLiveRun) : Prop where
  reserved : (r.table.entries 0).inUse = true ∧ (r.table.entries 0).type = 0
  next : 1 ≤ r.table.nextFree ∧ r.table.nextFree ≤ gdiMaxHandles
  indices : (r.live.map LiveHandle.index).Nodup
  mem_iff : ∀ i, i ∈ r.live.map LiveHandle.index ↔
    1 ≤ i ∧ i < gdiMaxHandles ∧ (r.table.entries i).inUse = true
  holds : ∀ x ∈ r.live, Holds r.table x
  count : r.table.handleCount.toInt = 1 + r.live.length

theorem Holds.resolves (h : Holds t x) : Resolves t x := by
  have hstock := h.regular.notStock
  have hindex := Nat.not_le.mpr h.regular.index
  have hown : ∀ type, gdiGetObject t x.handle type =
      if x.type ≠ type then none else x.object := by
    intro type
    unfold gdiGetObject
    dsimp only
    rw [if_neg h.regular.ne_zero, hstock, if_neg Bool.false_ne_true, if_neg hindex]
    rw [show t.entries (gdiHandleIndex x.handle) = t.entries x.index from rfl, h.inUse, h.type,
      h.object, if_neg (not_not.mpr h.reuse)]
    rfl
  constructor
  · rw [hown, if_neg (not_not.mpr rfl)]
  · intro type hne
    rw [hown, if_pos (Ne.symm hne)]

/-- A handle whose entry does not change keeps what it holds. -/
theorem Holds.congr {t' : GdiHandleTable} (h : Holds t x)
    (hsame : t'.entries x.index = t.entries x.index) : Holds t' x :=
  ⟨h.regular, hsame ▸ h.inUse, hsame ▸ h.type, hsame ▸ h.object, hsame ▸ h.reuse⟩

theorem LiveInv.length_lt (h : LiveInv r) : r.live.length < gdiMaxHandles := by
  have hsub : (r.live.map LiveHandle.index).toFinset ⊆ Finset.Ico 1 gdiMaxHandles := by
    intro i hi
    obtain ⟨hpos, hlt, -⟩ := (h.mem_iff i).mp (List.mem_toFinset.mp hi)
    exact Finset.mem_Ico.mpr ⟨hpos, hlt⟩
  have hcard := Finset.card_le_card hsub
  rw [List.toFinset_card_of_nodup h.indices, List.length_map, Nat.card_Ico] at hcard
  have hmax : gdiMaxHandles = 4096 := rfl
  omega

theorem LiveInv.distinct (h : LiveInv r) : (r.live.map LiveHandle.handle).Nodup := by
  have hindices : ((r.live.map LiveHandle.handle).map gdiHandleIndex).Nodup := by
    rw [List.map_map]
    exact h.indices
  exact hindices.of_map

theorem LiveInv.allocSound (h : LiveInv r) (object : Option GdiPtr) (type : UInt8) :
    AllocSound r.table object type := by
  cases hslot : r.table.freeSlot with
  | none =>
    have hfull := (freeSlot_none_iff h.next.1 h.next.2).mp hslot
    constructor
    · intro hmade
      rw [gdiAllocHandle_full hslot] at hmade
      exact absurd rfl hmade
    · exact fun _ => hfull
  | some i =>
    have hpos := freeSlot_pos h.next.1 hslot
    have hi := freeSlot_lt h.next.2 hslot
    constructor
    · intro _
      rw [gdiAllocHandle_eq hslot, gdiHandleIndex_make hi]
      exact ⟨hpos, hi, freeSlot_free hslot⟩
    · intro hzero
      rw [gdiAllocHandle_eq hslot] at hzero
      exact absurd hzero (gdiMakeHandle_ne_zero_of_pos hpos hi)

theorem LiveInv.sound (h : LiveInv r) : TableSound r :=
  ⟨h.allocSound, h.distinct, fun x hx => (h.holds x hx).resolves, h.count⟩

theorem liveInv_start : LiveInv gdiLiveStart where
  reserved := ⟨rfl, rfl⟩
  next := by decide
  indices := List.nodup_nil
  mem_iff := by
    intro i
    refine iff_of_false List.not_mem_nil ?_
    rintro ⟨hpos, -, huse⟩
    have hfree : (gdiHandleTableInit.entries i).inUse = false := by
      unfold gdiHandleTableInit
      dsimp only
      rw [Function.update_of_ne (by omega)]
    exact Bool.false_ne_true (hfree.symm.trans huse)
  holds := fun _ hmem => absurd hmem List.not_mem_nil
  count := by decide

theorem LiveInv.alloc (h : LiveInv r) : LiveInv (gdiLiveStep r (.alloc object type)) := by
  cases hslot : r.table.freeSlot with
  | none =>
    have hsame : gdiLiveStep r (.alloc object type) = r := by
      simp only [gdiLiveStep, gdiAllocHandle_full hslot, if_true]
    rwa [hsame]
  | some i =>
    have hpos := freeSlot_pos h.next.1 hslot
    have hi := freeSlot_lt h.next.2 hslot
    have hindex : gdiHandleIndex
        (gdiMakeHandle i type ((r.table.entries i).reuseCount + 1)) = i := gdiHandleIndex_make hi
    have hnew : i ∉ r.live.map LiveHandle.index := by
      intro hmem
      have huse := ((h.mem_iff i).mp hmem).2.2
      rw [freeSlot_free hslot] at huse
      exact Bool.false_ne_true huse
    simp only [gdiLiveStep, gdiAllocHandle_eq hslot, if_neg (gdiMakeHandle_ne_zero_of_pos hpos hi)]
    refine ⟨?_, ?_, ?_, ?_, ?_, ?_⟩
    · rw [set_entries, Function.update_of_ne (by omega)]
      exact h.reserved
    · dsimp only
      split
      · decide
      · omega
    · rw [List.map_cons, LiveHandle.index, hindex]
      exact List.nodup_cons.mpr ⟨hnew, h.indices⟩
    · intro j
      rw [List.map_cons, LiveHandle.index, hindex, List.mem_cons, h.mem_iff, set_entries]
      by_cases hji : j = i
      · subst hji
        rw [Function.update_self]
        exact iff_of_true (.inl rfl) ⟨hpos, hi, rfl⟩
      · rw [Function.update_of_ne hji, or_iff_right hji]
    · intro x hx
      rcases List.mem_cons.mp hx with rfl | hx
      · have hself : Function.update r.table.entries i
            ⟨object, type, (r.table.entries i).reuseCount + 1, true⟩
            (gdiHandleIndex (gdiMakeHandle i type ((r.table.entries i).reuseCount + 1))) =
            ⟨object, type, (r.table.entries i).reuseCount + 1, true⟩ := by
          rw [hindex, Function.update_self]
        have hregular : Regular
            (gdiMakeHandle i type ((r.table.entries i).reuseCount + 1)) :=
          ⟨gdiMakeHandle_ne_zero_of_pos hpos hi, gdiHandleIsStock_make hi, hindex.symm ▸ hi⟩
        refine ⟨hregular, ?_, ?_, ?_, ?_⟩
        · exact congrArg GdiHandleEntry.inUse hself
        · exact congrArg GdiHandleEntry.type hself
        · exact congrArg GdiHandleEntry.object hself
        · rw [gdiHandleReuse_make hi]
          exact congrArg (fun e => GdiHandleEntry.reuseCount e &&& 0x7F) hself
      · refine (h.holds x hx).congr (Function.update_of_ne ?_ ..)
        intro heq
        exact hnew (heq ▸ List.mem_map_of_mem hx)
    · have hlen := h.length_lt
      have hmax : gdiMaxHandles = 4096 := rfl
      have hone : (1 : Int32).toInt = 1 := rfl
      dsimp only
      rw [Int32.toInt_add, h.count, hone, List.length_cons, bmod_of_fits (by omega) (by omega)]
      omega

/-- The live handles when one entry is freed. -/
theorem map_filter_index (live : List LiveHandle) (i : Nat) :
    (live.filter fun x => x.index ≠ i).map LiveHandle.index =
      (live.map LiveHandle.index).filter fun j => j ≠ i := by
  rw [List.filter_map]
  rfl

theorem LiveInv.free (h : LiveInv r) (hspares : SparesReserved (.free handle)) :
    LiveInv (gdiLiveStep r (.free handle)) := by
  by_cases hfrees : Frees r.table handle
  · have hpos : 1 ≤ gdiHandleIndex handle := by
      apply Nat.one_le_iff_ne_zero.mpr
      intro hzero
      apply hspares
      refine ⟨hfrees.regular.ne_zero, hfrees.regular.notStock, hzero, ?_⟩
      rw [← hfrees.type, hzero, h.reserved.2]
    have hmem := (h.mem_iff _).mpr ⟨hpos, hfrees.regular.index, hfrees.inUse⟩
    simp only [gdiLiveStep, gdiFreeHandle_eq hfrees, if_true]
    refine ⟨?_, ?_, ?_, ?_, ?_, ?_⟩
    · rw [set_entries, Function.update_of_ne (by omega)]
      exact h.reserved
    · have hnext := h.next
      dsimp only
      split
      · exact ⟨hpos, Nat.le_of_lt hfrees.regular.index⟩
      · exact hnext
    · rw [map_filter_index]
      exact h.indices.filter _
    · intro j
      rw [map_filter_index, List.mem_filter, h.mem_iff, set_entries, decide_eq_true_eq]
      by_cases hji : j = gdiHandleIndex handle
      · subst hji
        rw [Function.update_self]
        exact iff_of_false (fun hne => hne.2 rfl) fun huse => Bool.false_ne_true huse.2.2
      · rw [Function.update_of_ne hji, and_iff_left hji]
    · intro x hx
      obtain ⟨hx, hne⟩ := List.mem_filter.mp hx
      exact (h.holds x hx).congr (Function.update_of_ne (of_decide_eq_true hne) ..)
    · have hlen := h.length_lt
      have hmax : gdiMaxHandles = 4096 := rfl
      have hone : (1 : Int32).toInt = 1 := rfl
      have hcount : (r.live.filter fun x => x.index ≠ gdiHandleIndex handle).length + 1 =
          r.live.length := by
        have herase := List.length_erase_add_one hmem
        rw [h.indices.erase_eq_filter, List.length_map] at herase
        rw [← herase, ← List.length_map (f := LiveHandle.index), map_filter_index]
        have hpred : (fun j => decide (j ≠ gdiHandleIndex handle)) =
            fun j => j != gdiHandleIndex handle := funext fun j => by
          rw [decide_not]
          rfl
        rw [hpred]
      dsimp only
      rw [Int32.toInt_sub, h.count, hone, bmod_of_fits (by omega) (by omega)]
      omega
  · have hsame : gdiLiveStep r (.free handle) = r := by
      simp only [gdiLiveStep, gdiFreeHandle_reject hfrees, Bool.false_eq_true, if_false]
    rwa [hsame]

theorem LiveInv.step (h : LiveInv r) (hspares : SparesReserved op) :
    LiveInv (gdiLiveStep r op) := by
  cases op with
  | alloc object type => exact h.alloc
  | free handle => exact h.free hspares

/-- When entry 0 is freed, it is no longer counted. -/
theorem LiveInv.not_sound (h : LiveInv r) (hspares : ¬ SparesReserved op) :
    ¬ TableSound (gdiLiveStep r op) := by
  cases op with
  | alloc object type => exact absurd trivial hspares
  | free handle =>
    obtain ⟨hzero, hstock, hindex, htype⟩ := not_not.mp hspares
    have hfrees : Frees r.table handle := by
      refine ⟨⟨hzero, hstock, ?_⟩, ?_, ?_⟩
      · rw [hindex]
        decide
      · rw [hindex, h.reserved.1]
      · rw [hindex, h.reserved.2, htype]
    have hlive : (r.live.filter fun x => x.index ≠ gdiHandleIndex handle) = r.live := by
      apply List.filter_eq_self.mpr
      intro x hx
      have hpos := ((h.mem_iff x.index).mp (List.mem_map_of_mem hx)).1
      rw [hindex, decide_eq_true_eq]
      omega
    intro hsound
    have hcount := hsound.count
    simp only [gdiLiveStep, gdiFreeHandle_eq hfrees, if_true, hlive] at hcount
    have hlen := h.length_lt
    have hmax : gdiMaxHandles = 4096 := rfl
    have hone : (1 : Int32).toInt = 1 := rfl
    rw [Int32.toInt_sub, h.count, hone, bmod_of_fits (by omega) (by omega)] at hcount
    omega

end Invariant

section Results

/-- From a state of the invariant, the table is sound all the time exactly if no call frees the
reserved entry. -/
theorem LiveInv.sound_iff (h : LiveInv r) (ops : List GdiHandleOp) :
    (∀ k, TableSound ((ops.take k).foldl gdiLiveStep r)) ↔ ∀ op ∈ ops, SparesReserved op := by
  induction ops generalizing r with
  | nil =>
    simp only [List.take_nil, List.foldl_nil]
    exact iff_of_true (fun _ => h.sound) fun op hmem => absurd hmem List.not_mem_nil
  | cons op ops ih =>
    rw [List.forall_mem_cons]
    constructor
    · intro hsound
      have hspares : SparesReserved op := by
        by_contra hnot
        exact h.not_sound hnot (hsound 1)
      exact ⟨hspares, (ih (h.step hspares)).mp fun k => hsound (k + 1)⟩
    · intro ⟨hspares, hrest⟩ k
      cases k with
      | zero => exact h.sound
      | succ k => exact (ih (h.step hspares)).mpr hrest k

/-- The table is a finite map after all calls of a run exactly if none of them frees the reserved
entry. -/
theorem gdiHandleTable_sound_iff (ops : List GdiHandleOp) :
    (∀ k, TableSound ((ops.take k).foldl gdiLiveStep gdiLiveStart)) ↔
      ∀ op ∈ ops, SparesReserved op :=
  liveInv_start.sound_iff ops

/-- The handle 0x01000000 frees the reserved entry, and the next allocation returns it. -/
theorem gdiHandleTable_frees_reserved :
    ¬ TableSound ([GdiHandleOp.free 0x01000000].foldl gdiLiveStep gdiLiveStart) := by
  intro hsound
  have hmade := hsound.alloc none gdiObjBrush
  have hindex := (hmade.free (by decide +kernel)).1
  exact absurd hindex (by decide +kernel)

end Results

end Wbox.Gdi
