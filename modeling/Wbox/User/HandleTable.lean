import Mathlib.Logic.Function.Basic
import Wbox.Lib.Word

/-!
# The USER handle table

Handles of windows, menus, cursors and other USER objects (`src/user/user_handle_table.c`). A handle
is the index of an entry and its generation, which counts the times the entry has been freed. A free
entry keeps the index of the next one in the place of its pointer. The flags are written but not
read here.
-/

namespace Wbox.User

open Wbox.Lib

/-- `USER_MAX_HANDLES`. -/
def userMaxHandles : Nat := 4096

/-- `USER_HANDLE_TYPE`. -/
inductive UserHandleType where
  | free | window | menu | cursor | setWindowPos | hook | clipData | callProc | accel | ddeAccess
  | ddeConv | ddeXact | monitor | kbdLayout | kbdFile | winEventHook | timer | inputContext
  | hidData | deviceInfo | touchInput | gestureInfo
  deriving DecidableEq, Repr

/-- `USER_HANDLE_ENTRY`; `NULL` is 0. -/
structure UserHandleEntry where
  ptr : Int
  owner : Int
  type : UserHandleType
  generation : UInt16
  deriving DecidableEq, Repr

/-- `USER_HANDLE_TABLE`. -/
structure UserHandleTable where
  entries : Nat → UserHandleEntry
  firstFree : Int
  handleCount : Int32

/-- `USER_MAKE_HANDLE`. -/
def userMakeHandle (index : Nat) (gen : UInt16) : UInt32 :=
  let index : UInt32 := UInt32.ofNat index &&& 0xFFFF
  gen.toUInt32 <<< 16 ||| index

/-- `USER_HANDLE_INDEX`. -/
def userHandleIndex (h : UInt32) : Nat := (h &&& 0xFFFF).toNat

/-- `USER_HANDLE_GEN`. -/
def userHandleGen (h : UInt32) : UInt16 := (h >>> 16 &&& 0xFFFF).toUInt16

/-- `(int)(uintptr_t)` of a pointer. -/
def intOfPtr (ptr : Int) : Int := ptr.bmod (2 ^ 32)

/-- `user_handle_table_init`, `user_handle_table.c:18–46`. -/
def userHandleTableInit : UserHandleTable where
  entries i :=
    if i = 0 then ⟨0, 0, .window, 1⟩
    else if i = userMaxHandles - 1 then ⟨-1, 0, .free, 1⟩
    else ⟨(i : Int) + 1, 0, .free, 1⟩
  firstFree := 1
  handleCount := 1

/-- Change an entry. -/
def UserHandleTable.set (t : UserHandleTable) (i : Nat) (entry : UserHandleEntry) :
    UserHandleTable :=
  { t with entries := Function.update t.entries i entry }

/-- `user_handle_alloc`, `user_handle_table.c:66–95`. -/
def userHandleAlloc (t : UserHandleTable) (ptr : Int) (type : UserHandleType) (owner : Int) :
    UserHandleTable × UInt32 :=
  if type = .free then (t, 0)
  else if t.firstFree < 0 ∨ t.firstFree ≥ userMaxHandles then (t, 0)
  else
    let i := t.firstFree.toNat
    let entry := t.entries i
    let t' := t.set i { entry with ptr, owner, type }
    ({ t' with firstFree := intOfPtr entry.ptr, handleCount := t.handleCount + 1 },
      userMakeHandle i entry.generation)

/-- `user_handle_free`, `user_handle_table.c:97–134`. -/
def userHandleFree (t : UserHandleTable) (handle : UInt32) : UserHandleTable × Bool :=
  let i := userHandleIndex handle
  let entry := t.entries i
  if handle = 0 then (t, false)
  else if i ≥ userMaxHandles then (t, false)
  else if entry.generation ≠ userHandleGen handle then (t, false)
  else if entry.type = .free then (t, false)
  else
    let t' := t.set i
      { ptr := t.firstFree, owner := 0, type := .free, generation := entry.generation + 1 }
    ({ t' with firstFree := i, handleCount := t.handleCount - 1 }, true)

/-- `user_handle_get`, `user_handle_table.c:136–168`. -/
def userHandleGet (t : UserHandleTable) (handle : UInt32) : Int :=
  let i := userHandleIndex handle
  let entry := t.entries i
  if handle = 0 then (t.entries 0).ptr
  else if i ≥ userMaxHandles then 0
  else if entry.generation ≠ userHandleGen handle then 0
  else if entry.type = .free then 0
  else entry.ptr

/-- `user_handle_get_typed`, `user_handle_table.c:170–203`. -/
def userHandleGetTyped (t : UserHandleTable) (handle : UInt32) (expectedType : UserHandleType) :
    Int :=
  let i := userHandleIndex handle
  let entry := t.entries i
  if handle = 0 ∧ expectedType = .window then (t.entries 0).ptr
  else if i ≥ userMaxHandles then 0
  else if entry.generation ≠ userHandleGen handle then 0
  else if entry.type ≠ expectedType then 0
  else entry.ptr

/-- `user_handle_get_type`, `user_handle_table.c:201–221`. -/
def userHandleGetType (t : UserHandleTable) (handle : UInt32) : UserHandleType :=
  let i := userHandleIndex handle
  let entry := t.entries i
  if handle = 0 then .free
  else if i ≥ userMaxHandles then .free
  else if entry.generation ≠ userHandleGen handle then .free
  else entry.type

/-- `user_handle_is_valid`, `user_handle_table.c:247–268`. -/
def userHandleIsValid (t : UserHandleTable) (handle : UInt32) : Bool :=
  let i := userHandleIndex handle
  let entry := t.entries i
  if handle = 0 then true
  else if i ≥ userMaxHandles then false
  else entry.generation = userHandleGen handle ∧ entry.type ≠ .free

section Handles

variable {i : Nat} {g : UInt16} {handle : UInt32}

theorem userHandleIndex_eq (handle : UInt32) : userHandleIndex handle = handle.toNat % 2 ^ 16 := by
  unfold userHandleIndex
  rw [UInt32.toNat_and]
  exact Nat.and_two_pow_sub_one_eq_mod handle.toNat 16

theorem userHandleGen_toNat (handle : UInt32) :
    (userHandleGen handle).toNat = handle.toNat / 2 ^ 16 := by
  have hlt := handle.toNat_lt
  have hmask : (handle >>> 16 &&& 0xFFFF).toNat = handle.toNat / 2 ^ 16 := by
    rw [UInt32.toNat_and, UInt32.toNat_shiftRight]
    show handle.toNat >>> 16 &&& (2 ^ 16 - 1) = _
    rw [Nat.and_two_pow_sub_one_eq_mod, Nat.shiftRight_eq_div_pow]
    omega
  unfold userHandleGen
  rw [UInt32.toNat_toUInt16, hmask]
  omega

theorem userMakeHandle_toNat (hi : i < userMaxHandles) :
    (userMakeHandle i g).toNat = g.toNat * 2 ^ 16 + i := by
  unfold userMaxHandles at hi
  have hg := g.toNat_lt
  have hindex : (UInt32.ofNat i &&& 0xFFFF).toNat = i := by
    rw [UInt32.toNat_and]
    show (UInt32.ofNat i).toNat &&& (2 ^ 16 - 1) = i
    rw [Nat.and_two_pow_sub_one_eq_mod, UInt32.toNat_ofNat']
    omega
  have hgen : (g.toUInt32 <<< 16).toNat = g.toNat <<< 16 := by
    rw [UInt32.toNat_shiftLeft, UInt16.toNat_toUInt32]
    show g.toNat <<< 16 % 2 ^ 32 = _
    rw [Nat.shiftLeft_eq]
    omega
  unfold userMakeHandle
  dsimp only
  rw [UInt32.toNat_or, hindex, hgen, Nat.or_comm, or_shiftLeft _ (by omega)]
  omega

/-- A handle is told by its index and its generation. -/
theorem handle_ext {handle' : UInt32} (hindex : userHandleIndex handle = userHandleIndex handle')
    (hgen : userHandleGen handle = userHandleGen handle') : handle = handle' := by
  have hgen' := congrArg UInt16.toNat hgen
  rw [userHandleGen_toNat, userHandleGen_toNat] at hgen'
  rw [userHandleIndex_eq, userHandleIndex_eq] at hindex
  apply UInt32.toNat_inj.mp
  omega

theorem userHandleIndex_make (hi : i < userMaxHandles) :
    userHandleIndex (userMakeHandle i g) = i := by
  rw [userHandleIndex_eq, userMakeHandle_toNat hi]
  unfold userMaxHandles at hi
  omega

theorem userHandleGen_make (hi : i < userMaxHandles) : userHandleGen (userMakeHandle i g) = g := by
  apply UInt16.toNat_inj.mp
  rw [userHandleGen_toNat, userMakeHandle_toNat hi]
  unfold userMaxHandles at hi
  omega

end Handles

section Calls

variable {t : UserHandleTable} {handle : UInt32}

/-- The entry that the next handle is made for. -/
def UserHandleTable.nextEntry (t : UserHandleTable) : Option Nat :=
  if t.firstFree < 0 ∨ t.firstFree ≥ userMaxHandles then none else some t.firstFree.toNat

theorem nextEntry_lt {i : Nat} (h : t.nextEntry = some i) : i < userMaxHandles := by
  unfold UserHandleTable.nextEntry at h
  split at h
  · cases h
  · cases h
    omega

theorem userHandleAlloc_cases (t : UserHandleTable) (ptr : Int) (type : UserHandleType)
    (owner : Int) :
    ((type = .free ∨ t.nextEntry = none) ∧ userHandleAlloc t ptr type owner = (t, 0)) ∨
      ∃ i, type ≠ .free ∧ t.nextEntry = some i ∧
        (userHandleAlloc t ptr type owner).1.entries =
          Function.update t.entries i { t.entries i with ptr, owner, type } ∧
        (userHandleAlloc t ptr type owner).2 = userMakeHandle i (t.entries i).generation := by
  unfold userHandleAlloc UserHandleTable.nextEntry
  by_cases htype : type = .free
  · rw [if_pos htype]
    exact .inl ⟨.inl htype, rfl⟩
  · rw [if_neg htype]
    split
    · exact .inl ⟨.inr rfl, rfl⟩
    · exact .inr ⟨_, htype, rfl, rfl, rfl⟩

/-- What a handle needs to be freed: its generation is that of its entry, which is in use. -/
structure Live (t : UserHandleTable) (handle : UInt32) : Prop where
  ne_zero : handle ≠ 0
  index : userHandleIndex handle < userMaxHandles
  generation : (t.entries (userHandleIndex handle)).generation = userHandleGen handle
  used : (t.entries (userHandleIndex handle)).type ≠ .free

theorem userHandleFree_cases (t : UserHandleTable) (handle : UInt32) :
    (¬ Live t handle ∧ userHandleFree t handle = (t, false)) ∨
      Live t handle ∧
        (userHandleFree t handle).1.entries = Function.update t.entries (userHandleIndex handle)
          { ptr := t.firstFree, owner := 0, type := .free
            generation := (t.entries (userHandleIndex handle)).generation + 1 } ∧
        (userHandleFree t handle).2 = true := by
  unfold userHandleFree
  dsimp only
  split
  · next hzero => exact .inl ⟨fun h => h.ne_zero hzero, rfl⟩
  · next hzero =>
    split
    · next hindex => exact .inl ⟨fun h => absurd h.index (by omega), rfl⟩
    · next hindex =>
      split
      · next hgen => exact .inl ⟨fun h => hgen h.generation, rfl⟩
      · next hgen =>
        split
        · next hfree => exact .inl ⟨fun h => h.used hfree, rfl⟩
        · next hused => exact .inr ⟨⟨hzero, by omega, not_not.mp hgen, hused⟩, rfl, rfl⟩

end Calls

end Wbox.User
