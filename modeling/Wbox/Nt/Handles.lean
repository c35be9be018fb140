import Mathlib.Logic.Function.Basic
import Wbox.Nt.Sync

/-!
# The handle table

`src/nt/handles.h` and `src/nt/handles.c`: 256 entries, searched for a free one from the
entry after the last one handed out and then from the first.
-/

namespace Wbox.Nt

/-- `MAX_HANDLES`. -/
def maxHandles : Nat := 256

/-- `handle_entry_t`, `src/nt/handles.h:26–32`. -/
structure HandleEntry where
  type : HandleType
  hostFd : Int
  accessMask : UInt32
  fileOffset : UInt64
  objectData : Option Ptr
  deriving DecidableEq, Repr

/-- `handle_table_t`, `src/nt/handles.h:38–41`. -/
structure HandleTable where
  entries : Nat → HandleEntry
  nextHandle : Nat
  next_le : nextHandle ≤ maxHandles
  next_pos : 0 < nextHandle

/-- An entry that is not in use. -/
def HandleEntry.free : HandleEntry := ⟨.none, -1, 0, 0, none⟩

/-- `handles_init`, `src/nt/handles.c:14–36`: the three console handles. -/
def handlesInit : HandleTable where
  entries := fun i => match i with
    | 1 => ⟨.consoleIn, 0, 0, 0, none⟩
    | 2 => ⟨.consoleOut, 1, 0, 0, none⟩
    | 3 => ⟨.consoleErr, 2, 0, 0, none⟩
    | 0 => ⟨.none, -1, 0, 0, none⟩
    | _ => ⟨.none, 0, 0, 0, none⟩
  nextHandle := 4
  next_le := by decide
  next_pos := by decide

/-- The first free entry of `[first, last)`. -/
def HandleTable.freeIn (ht : HandleTable) (first last : Nat) : Option Nat :=
  (List.range' first (last - first)).find? fun i => decide ((ht.entries i).type = .none)

/-- The entry the next handle is made of: the two searches of `handles_add`. -/
def HandleTable.freeSlot (ht : HandleTable) : Option Nat :=
  match ht.freeIn ht.nextHandle maxHandles with
  | some i => some i
  | none => ht.freeIn 1 ht.nextHandle

/-- The search finds a free entry of its range. -/
theorem HandleTable.freeIn_some {ht : HandleTable} {first last i : Nat}
    (h : ht.freeIn first last = some i) :
    first ≤ i ∧ i < last ∧ (ht.entries i).type = .none := by
  have hp := List.find?_some h
  have hm := List.mem_of_find?_eq_some h
  rw [List.mem_range'_1] at hm
  exact ⟨hm.1, by omega, of_decide_eq_true hp⟩

/-- It finds none exactly if the range has no free entry. -/
theorem HandleTable.freeIn_none {ht : HandleTable} {first last : Nat} :
    ht.freeIn first last = none ↔ ∀ i, first ≤ i → i < last → (ht.entries i).type ≠ .none := by
  unfold HandleTable.freeIn
  rw [List.find?_eq_none]
  constructor
  · intro h i hf hl
    simpa using h i (by rw [List.mem_range'_1]; omega)
  · intro h i hi
    rw [List.mem_range'_1] at hi
    simpa using h i hi.1 (by omega)

/-- The entry found is a free one of the table. -/
theorem HandleTable.freeSlot_some {ht : HandleTable} {i : Nat} (h : ht.freeSlot = some i) :
    i < maxHandles ∧ (ht.entries i).type = .none := by
  unfold HandleTable.freeSlot at h
  split at h
  · next j hj =>
    have hij : j = i := Option.some.inj h
    exact hij ▸ (HandleTable.freeIn_some hj).2
  · obtain ⟨-, hlt, hfree⟩ := HandleTable.freeIn_some h
    exact ⟨by have := ht.next_le; omega, hfree⟩

/-- The entry 0 is never handed out. -/
theorem HandleTable.freeSlot_pos {ht : HandleTable} {i : Nat} (h : ht.freeSlot = some i) :
    0 < i := by
  have hnext := ht.next_pos
  unfold HandleTable.freeSlot at h
  split at h
  · next j hj =>
    have hij : j = i := Option.some.inj h
    have hle := (HandleTable.freeIn_some hj).1
    omega
  · have hle := (HandleTable.freeIn_some h).1
    omega

/-- Use an entry of the table. -/
def HandleTable.use (ht : HandleTable) (i : Nat) (hi : i < maxHandles) (entry : HandleEntry) :
    HandleTable where
  entries := Function.update ht.entries i entry
  nextHandle := i + 1
  next_le := hi
  next_pos := Nat.succ_pos i

/-- Put an entry in the table; the handle 0 says that the table is full. -/
def HandleTable.insert (ht : HandleTable) (entry : HandleEntry) : HandleTable × UInt32 :=
  match h : ht.freeSlot with
  | some i => (ht.use i (ht.freeSlot_some h).1 entry, UInt32.ofNat i)
  | none => (ht, 0)

/-- `handles_add`, `src/nt/handles.c:38–68`. -/
def handlesAdd (ht : HandleTable) (type : HandleType) (hostFd : Int) : HandleTable × UInt32 :=
  ht.insert ⟨type, hostFd, 0, 0, none⟩

/-- `handles_add_object`, `src/nt/handles.c:70–101`. -/
def handlesAddObject (ht : HandleTable) (type : HandleType) (objectData : Option Ptr) :
    HandleTable × UInt32 :=
  ht.insert ⟨type, -1, 0, 0, objectData⟩

/-- `handles_get`, `src/nt/handles.c:102–113`. -/
def handlesGet (ht : HandleTable) (handle : UInt32) : Option HandleEntry :=
  if handle = 0 ∨ handle.toNat ≥ maxHandles then none
  else if (ht.entries handle.toNat).type = .none then none
  else some (ht.entries handle.toNat)

/-- `handles_remove`, `src/nt/handles.c:115–131`: the table, and the object
`sync_free_object` is given. -/
def handlesRemove (ht : HandleTable) (handle : UInt32) : HandleTable × Option Ptr :=
  if 0 < handle ∧ handle.toNat < maxHandles then
    ({ ht with entries := Function.update ht.entries handle.toNat .free },
      (ht.entries handle.toNat).objectData)
  else (ht, none)

/-- Address of a handle entry: one of the three static ones, or an entry of the table. -/
inductive EntryRef where
  | stdIn
  | stdOut
  | stdErr
  | entry (index : Nat)
  deriving DecidableEq, Repr

/-- `STD_INPUT_HANDLE`. -/
def stdInputHandle : UInt32 := 0xFFFFFFF6
/-- `STD_OUTPUT_HANDLE`. -/
def stdOutputHandle : UInt32 := 0xFFFFFFF5
/-- `STD_ERROR_HANDLE`. -/
def stdErrorHandle : UInt32 := 0xFFFFFFF4

/-- The address `handles_get` returns. -/
def handlesGetRef (ht : HandleTable) (handle : UInt32) : Option EntryRef :=
  (handlesGet ht handle).map fun _ => .entry handle.toNat

/-- `handles_resolve`, `src/nt/handles.c:133–159`. -/
def handlesResolve (ht : HandleTable) (handle : UInt32) : Option EntryRef :=
  if handle = stdInputHandle then some .stdIn
  else if handle = stdOutputHandle then some .stdOut
  else if handle = stdErrorHandle then some .stdErr
  else if handle = 0 then some .stdIn
  else if handle = 1 then some .stdOut
  else if handle = 2 then some .stdErr
  else handlesGetRef ht handle

/-- An insertion fails on a full table, or uses the first free entry. -/
theorem HandleTable.insert_cases (ht : HandleTable) (entry : HandleEntry) :
    (ht.freeSlot = none ∧ ht.insert entry = (ht, 0)) ∨
      ∃ i, ∃ hi : ht.freeSlot = some i,
        ht.insert entry = (ht.use i (ht.freeSlot_some hi).1 entry, UInt32.ofNat i) := by
  unfold HandleTable.insert
  split
  · next i hi => exact Or.inr ⟨i, hi, rfl⟩
  · next hnone => exact Or.inl ⟨hnone, rfl⟩

/-- The number of an entry of the table is a handle. -/
theorem HandleTable.slot_toNat {ht : HandleTable} {i : Nat} (hi : ht.freeSlot = some i) :
    (UInt32.ofNat i).toNat = i := by
  have hlt := (ht.freeSlot_some hi).1
  unfold maxHandles at hlt
  exact UInt32.toNat_ofNat_of_lt' (Nat.lt_trans hlt (by decide))

/-- A handle that was returned is not 0. -/
theorem HandleTable.slot_ne_zero {ht : HandleTable} {i : Nat} (hi : ht.freeSlot = some i) :
    UInt32.ofNat i ≠ 0 := by
  intro hzero
  have hpos := ht.freeSlot_pos hi
  have hnat := ht.slot_toNat hi
  rw [hzero] at hnat
  simp only [UInt32.toNat_zero] at hnat
  omega

/-- A handle is valid after an insertion if it names the new entry or was valid before. -/
theorem handlesGet_insert {ht : HandleTable} {entry x : HandleEntry} {handle : UInt32}
    (h : handlesGet (ht.insert entry).1 handle = some x) :
    x = entry ∨ handlesGet ht handle = some x := by
  unfold HandleTable.insert at h
  split at h
  · next i hi =>
    by_cases hh : handle.toNat = i
    · left
      simp only [handlesGet, HandleTable.use, hh, Function.update_self] at h
      split at h
      · cases h
      · split at h
        · cases h
        · exact (Option.some.inj h).symm
    · right
      simpa only [handlesGet, HandleTable.use, Function.update_of_ne hh] using h
  · exact Or.inr h

/-- A handle that gets an entry names it by its number. -/
theorem handlesGet_some {ht : HandleTable} {handle : UInt32} {entry : HandleEntry}
    (h : handlesGet ht handle = some entry) :
    0 < handle ∧ handle.toNat < maxHandles ∧ entry = ht.entries handle.toNat := by
  unfold handlesGet at h
  split at h
  · cases h
  · next hvalid =>
    rw [not_or] at hvalid
    split at h
    · cases h
    · exact ⟨UInt32.pos_iff_ne_zero.mpr hvalid.1, Nat.not_le.mp hvalid.2, (Option.some.inj h).symm⟩

/-- The handle of an entry in use gets it. -/
theorem handlesGet_of_entry {ht : HandleTable} {handle : UInt32} {entry : HandleEntry}
    (hpos : 0 < handle.toNat) (hlt : handle.toNat < maxHandles)
    (hentry : ht.entries handle.toNat = entry) (htype : entry.type ≠ .none) :
    handlesGet ht handle = some entry := by
  have hne : handle ≠ 0 := by
    rintro rfl
    exact absurd hpos (by decide)
  simp only [handlesGet, hne, hentry, htype, Nat.not_le.mpr hlt, false_or, ge_iff_le, if_false]

end Wbox.Nt
