import Wbox.Lib.Refinement
import Wbox.Nt.HandleNumbers

/-!
# The handle table is a map

What `handles_add`, `handles_add_object`, `handles_get` and `handles_remove`
(`src/nt/handles.c:38–131`) are for: a map from the numbers 1 to 255 to entries, where an addition
picks a number that is free.
-/

namespace Wbox.Nt

open Wbox.Lib

/-- The entries by their numbers. -/
abbrev HandleMap : Type := Nat → Option HandleEntry

namespace HandleMap

/-- No number from 1 to 255 is free. -/
def Full (m : HandleMap) : Prop := ∀ i, 1 ≤ i → i ≤ 255 → m i ≠ none

/-- A number gets an entry, or none. -/
def set (m : HandleMap) (i : Nat) (entry : Option HandleEntry) : HandleMap :=
  Function.update m i entry

end HandleMap

/-- The entry as a number has it: one of no type is not in use. -/
def HandleEntry.used (entry : HandleEntry) : Option HandleEntry :=
  if entry.type = .none then none else some entry

/-- What the table stands for. -/
def HandleTable.toMap (ht : HandleTable) : HandleMap := fun i =>
  if 1 ≤ i ∧ i ≤ 255 then (ht.entries i).used else none

/-- A call on the table; the arguments are arbitrary. -/
inductive HandleCall where
  | add (type : HandleType) (hostFd : Int)
  | addObject (type : HandleType) (objectData : Option Ptr)
  | remove (handle : UInt32)

/-- The entry that a call adds. -/
def HandleCall.entry : HandleCall → Option HandleEntry
  | .add type hostFd => some ⟨type, hostFd, 0, 0, none⟩
  | .addObject type objectData => some ⟨type, -1, 0, 0, objectData⟩
  | .remove _ => none

/-- A call, and the number it returns; `handles_remove` returns none. -/
def handleCall (ht : HandleTable) : HandleCall → HandleTable × UInt32
  | .add type hostFd => handlesAdd ht type hostFd
  | .addObject type objectData => handlesAddObject ht type objectData
  | .remove handle => ((handlesRemove ht handle).1, 0)

/-- What a call may do to the map, and return. -/
inductive MapCall (m : HandleMap) : HandleCall → UInt32 → HandleMap → Prop where
  | added {call : HandleCall} {entry : HandleEntry} {n : UInt32} (hentry : call.entry = some entry)
      (hlo : 1 ≤ n.toNat) (hhi : n.toNat ≤ 255) (hfree : m n.toNat = none) :
      MapCall m call n (m.set n.toNat entry.used)
  | full {call : HandleCall} {entry : HandleEntry} (hentry : call.entry = some entry)
      (hfull : m.Full) : MapCall m call 0 m
  | removed (handle : UInt32) : MapCall m (.remove handle) 0 (m.set handle.toNat none)

/-- An addition fills a free entry with what it is given and touches no other one, or there is no
free entry and it touches none. -/
inductive AddsEntry (ht : HandleTable) (entry : HandleEntry) : HandleTable × UInt32 → Prop where
  | added {ht' : HandleTable} {n : UInt32} (hlo : 1 ≤ n.toNat) (hhi : n.toNat ≤ 255)
      (hfree : (ht.entries n.toNat).type = .none) (hentry : ht'.entries n.toNat = entry)
      (hothers : ∀ i, i ≠ n.toNat → ht'.entries i = ht.entries i) : AddsEntry ht entry (ht', n)
  | full (hfull : ∀ i, 1 ≤ i → i ≤ 255 → (ht.entries i).type ≠ .none) : AddsEntry ht entry (ht, 0)

/-- The table is a map after these calls, and so it is in the next one. -/
structure IsMapAfter (calls : List HandleCall) : Prop where
  refines : RunsTo MapCall handlesInit.toMap calls (runOutputs handleCall handlesInit calls).2
    (runOutputs handleCall handlesInit calls).1.toMap
  get : ∀ handle, handlesGet (runOutputs handleCall handlesInit calls).1 handle =
    (runOutputs handleCall handlesInit calls).1.toMap handle.toNat
  adds : ∀ call entry, call.entry = some entry →
    AddsEntry (runOutputs handleCall handlesInit calls).1 entry
      (handleCall (runOutputs handleCall handlesInit calls).1 call)

section Refinement

variable {ht : HandleTable} {entry : HandleEntry} {i : Nat}

theorem HandleEntry.used_eq_none : entry.used = none ↔ entry.type = .none := by
  unfold HandleEntry.used
  split
  · next h => exact iff_of_true rfl h
  · next h => exact iff_of_false nofun h

/-- A number from 1 to 255 is free where the entry has no type. -/
theorem HandleTable.toMap_of_mem (hlo : 1 ≤ i) (hhi : i ≤ 255) :
    ht.toMap i = (ht.entries i).used := if_pos ⟨hlo, hhi⟩

theorem handlesGet_eq_toMap (ht : HandleTable) (handle : UInt32) :
    handlesGet ht handle = ht.toMap handle.toNat := by
  have hzero : handle = 0 ↔ handle.toNat = 0 := UInt32.toNat_inj.symm
  unfold handlesGet HandleTable.toMap HandleEntry.used maxHandles
  by_cases hout : handle = 0 ∨ handle.toNat ≥ 256
  · have hnot : ¬ (1 ≤ handle.toNat ∧ handle.toNat ≤ 255) := by
      rw [hzero] at hout
      omega
    rw [if_pos hout, if_neg hnot]
  · have hin : 1 ≤ handle.toNat ∧ handle.toNat ≤ 255 := by
      rw [hzero] at hout
      omega
    rw [if_neg hout, if_pos hin]

/-- Changing an entry changes what the table stands for at its number. -/
theorem toMap_update {ht' : HandleTable} (hlo : 1 ≤ i) (hhi : i ≤ 255)
    (hentry : ht'.entries i = entry) (hothers : ∀ j, j ≠ i → ht'.entries j = ht.entries j) :
    ht'.toMap = ht.toMap.set i entry.used := by
  funext j
  unfold HandleMap.set
  by_cases hj : j = i
  · subst hj
    rw [Function.update_self, HandleTable.toMap_of_mem hlo hhi, hentry]
  · rw [Function.update_of_ne hj]
    unfold HandleTable.toMap
    rw [hothers j hj]

/-- The two searches together find a free entry if there is one. -/
theorem insert_addsEntry (ht : HandleTable) (entry : HandleEntry) :
    AddsEntry ht entry (ht.insert entry) := by
  rcases ht.insert_cases entry with ⟨hnone, hinsert⟩ | ⟨i, hslot, hinsert⟩
  · rw [hinsert]
    have hfull := HandleTable.freeSlot_none_iff.mp hnone
    exact .full fun i hlo hhi => hfull i hlo (Nat.lt_succ_of_le hhi)
  · have hpos := HandleTable.freeSlot_pos hslot
    obtain ⟨hlt, hfree⟩ := HandleTable.freeSlot_some hslot
    have hnat := HandleTable.slot_toNat hslot
    rw [hinsert]
    apply AddsEntry.added
    · omega
    · rw [hnat]
      exact Nat.le_of_lt_succ hlt
    · rw [hnat]
      exact hfree
    · rw [hnat]
      exact Function.update_self i entry ht.entries
    · intro j hj
      rw [hnat] at hj
      exact Function.update_of_ne hj entry ht.entries

theorem handleCall_of_entry {call : HandleCall} (h : call.entry = some entry) :
    handleCall ht call = ht.insert entry := by
  cases call with
  | add type hostFd =>
    cases h
    rfl
  | addObject type objectData =>
    cases h
    rfl
  | remove handle => cases h

/-- An addition to the table is one to the map. -/
theorem AddsEntry.mapCall {call : HandleCall} {r : HandleTable × UInt32}
    (h : AddsEntry ht entry r) (hentry : call.entry = some entry) :
    MapCall ht.toMap call r.2 r.1.toMap := by
  cases h with
  | added hlo hhi hfree hnew hothers =>
    rw [toMap_update hlo hhi hnew hothers]
    apply MapCall.added hentry hlo hhi
    rw [HandleTable.toMap_of_mem hlo hhi]
    exact HandleEntry.used_eq_none.mpr hfree
  | full hfull =>
    apply MapCall.full hentry
    intro i hlo hhi hnone
    rw [HandleTable.toMap_of_mem hlo hhi] at hnone
    exact hfull i hlo hhi (HandleEntry.used_eq_none.mp hnone)

/-- Removing a number that is not from 1 to 255 changes neither the table nor the map. -/
theorem remove_toMap (ht : HandleTable) (handle : UInt32) :
    (handlesRemove ht handle).1.toMap = ht.toMap.set handle.toNat none := by
  unfold handlesRemove
  by_cases hin : 0 < handle ∧ handle.toNat < maxHandles
  · have hlo : 1 ≤ handle.toNat := UInt32.lt_iff_toNat_lt.mp hin.1
    rw [if_pos hin]
    show _ = ht.toMap.set handle.toNat HandleEntry.free.used
    apply toMap_update hlo (Nat.le_of_lt_succ hin.2)
    · exact Function.update_self handle.toNat HandleEntry.free ht.entries
    · exact fun j hj => Function.update_of_ne hj HandleEntry.free ht.entries
  · have hnone : ht.toMap handle.toNat = none := by
      rw [UInt32.lt_iff_toNat_lt] at hin
      unfold maxHandles at hin
      apply if_neg
      have hzero : (0 : UInt32).toNat = 0 := rfl
      omega
    rw [if_neg hin]
    exact (Function.update_eq_self_iff.mpr hnone.symm).symm

/-- A call on the table is one on the map. -/
theorem handleCall_mapCall (ht : HandleTable) (call : HandleCall) :
    MapCall ht.toMap call (handleCall ht call).2 (handleCall ht call).1.toMap := by
  cases hentry : call.entry with
  | some entry =>
    rw [handleCall_of_entry hentry]
    exact (insert_addsEntry ht entry).mapCall hentry
  | none =>
    cases call with
    | add type hostFd => cases hentry
    | addObject type objectData => cases hentry
    | remove handle =>
      show MapCall ht.toMap _ 0 (handlesRemove ht handle).1.toMap
      rw [remove_toMap]
      exact .removed handle

/-- Whatever calls are made from `handles_init` on, the handle table is a map. -/
theorem handles_isMap (calls : List HandleCall) : IsMapAfter calls where
  refines := RunsTo.of_step handleCall_mapCall handlesInit calls
  get := handlesGet_eq_toMap _
  adds call entry hentry := by
    rw [handleCall_of_entry hentry]
    exact insert_addsEntry _ entry

end Refinement

end Wbox.Nt
