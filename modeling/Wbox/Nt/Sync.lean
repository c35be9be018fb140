import Mathlib.Algebra.Ring.Int.Defs
import Mathlib.Algebra.Ring.Nat
import Mathlib.Data.Int.Init

/-!
# Synchronization objects

`src/nt/sync.h` and `src/nt/sync.c`: the dispatcher header, events, semaphores and
mutants in one record, the signal test and the effect of a satisfied wait.
-/

namespace Wbox.Nt

/-- Address of a host structure (`wbox_thread_t *`, `wbox_sync_object_t *`). -/
abbrev Ptr := Nat

/-- Pointer to a wait block: block `index` of the array inside a thread structure. -/
structure WbPtr where
  thread : Ptr
  index : Nat
  deriving DecidableEq, Repr

/-- `wbox_disp_type_t`, `src/nt/sync.h:17–24`; `unknown` is a type word outside the enumeration. -/
inductive DispType where
  | eventNotification
  | eventSynchronization
  | semaphore
  | mutant
  | timer
  | thread
  | unknown
  deriving DecidableEq, Repr

/-- `handle_type_t`, `src/nt/handles.h:10–23`. -/
inductive HandleType where
  | none
  | file
  | consoleIn
  | consoleOut
  | consoleErr
  | event
  | semaphore
  | mutex
  | mutant
  | section
  | key
  | thread
  deriving DecidableEq, Repr

/-- `wbox_sync_object_t`, `src/nt/sync.h:26–85`: the header, the semaphore's limit and the
mutant's owner. A signed overflow of `signal_state` or `recursion_count` needs 2^31
nested acquisitions and is undefined in C, so both count in `Int`. -/
structure SyncObject where
  type : DispType
  signalState : Int
  waitList : Option WbPtr
  limit : Int := 0
  ownerThreadId : UInt32 := 0
  recursionCount : Int := 0
  abandoned : Bool := false
  deriving DecidableEq, Repr

/-- Two's complement value of a 32-bit `int` computation. -/
def toInt32 (x : Int) : Int := Int.bmod x (2 ^ 32)

/-- `sync_create_event`, `src/nt/sync.c:9–26`. -/
def syncCreateEvent (type : DispType) (initialState : Bool) : Option SyncObject :=
  if type ≠ .eventNotification ∧ type ≠ .eventSynchronization then none
  else some { type := type, signalState := if initialState then 1 else 0, waitList := none }

/-- `sync_create_semaphore`, `src/nt/sync.c:28–45`. -/
def syncCreateSemaphore (initialCount maxCount : Int) : Option SyncObject :=
  if maxCount ≤ 0 ∨ initialCount < 0 ∨ initialCount > maxCount then none
  else some { type := .semaphore, signalState := initialCount, waitList := none, limit := maxCount }

/-- `sync_create_mutant`, `src/nt/sync.c:47–71`. -/
def syncCreateMutant (initialOwner : Bool) (ownerThreadId : UInt32) : SyncObject :=
  if initialOwner then
    { type := .mutant, signalState := -1, waitList := none
      ownerThreadId := ownerThreadId, recursionCount := 1 }
  else
    { type := .mutant, signalState := 1, waitList := none
      ownerThreadId := 0, recursionCount := 0 }

/-- `sync_is_signaled`, `src/nt/sync.c:83–123`. -/
def syncIsSignaled (obj : SyncObject) (threadId : UInt32) : Bool :=
  match obj.type with
  | .eventNotification | .eventSynchronization => decide (obj.signalState > 0)
  | .semaphore => decide (obj.signalState > 0)
  | .mutant =>
      if obj.signalState > 0 then true
      else decide (obj.ownerThreadId = threadId ∧ threadId ≠ 0)
  | .timer => decide (obj.signalState > 0)
  | .thread => decide (obj.signalState > 0)
  | .unknown => false

/-- `sync_satisfy_wait`, `src/nt/sync.c:125–174`. -/
def syncSatisfyWait (obj : SyncObject) (threadId : UInt32) : SyncObject :=
  match obj.type with
  | .eventNotification => obj
  | .eventSynchronization => { obj with signalState := 0 }
  | .semaphore =>
      if obj.signalState > 0 then { obj with signalState := obj.signalState - 1 } else obj
  | .mutant =>
      if obj.signalState > 0 then
        { obj with signalState := -1, ownerThreadId := threadId, recursionCount := 1 }
      else if obj.ownerThreadId = threadId then
        { obj with
          signalState := obj.signalState - 1
          recursionCount := obj.recursionCount + 1 }
      else obj
  | .timer => obj
  | .thread => obj
  | .unknown => obj

/-- The tags for which `sync_get_header` (`src/nt/sync.c:176–195`) returns the header of a
non-null object; for every other tag it returns `NULL`. -/
def syncGetHeader (type : HandleType) : Bool :=
  match type with
  | .event => true
  | .semaphore => true
  | .mutex => true
  | _ => false

/-- Satisfying a wait keeps the type and the wait list of the object. -/
@[simp] theorem syncSatisfyWait_type (obj : SyncObject) (id : UInt32) :
    (syncSatisfyWait obj id).type = obj.type := by
  unfold syncSatisfyWait
  split <;> (try split) <;> (try split) <;> rfl

@[simp] theorem syncSatisfyWait_waitList (obj : SyncObject) (id : UInt32) :
    (syncSatisfyWait obj id).waitList = obj.waitList := by
  unfold syncSatisfyWait
  split <;> (try split) <;> (try split) <;> rfl

/-- The signal test reads neither the wait list nor the limit. -/
@[simp] theorem syncIsSignaled_waitList (obj : SyncObject) (w : Option WbPtr) (id : UInt32) :
    syncIsSignaled { obj with waitList := w } id = syncIsSignaled obj id := rfl

@[simp] theorem syncSatisfyWait_with_waitList (obj : SyncObject) (w : Option WbPtr)
    (id : UInt32) :
    syncSatisfyWait { obj with waitList := w } id =
      { syncSatisfyWait obj id with waitList := w } := by
  unfold syncSatisfyWait
  dsimp only
  split <;> (try split) <;> (try split) <;> rfl

/-- A satisfied wait never makes the object signaled for a thread it was not signaled for. -/
theorem syncIsSignaled_of_satisfyWait {obj : SyncObject} {id u : UInt32}
    (h : syncIsSignaled (syncSatisfyWait obj id) u = true) : syncIsSignaled obj u = true := by
  obtain ⟨type, st, wl, lim, owner, rc, ab⟩ := obj
  cases type with
  | eventSynchronization => simp [syncIsSignaled, syncSatisfyWait] at h
  | semaphore =>
    simp only [syncSatisfyWait] at h
    split at h
    · simpa [syncIsSignaled] using by assumption
    · exact h
  | mutant =>
    simp only [syncSatisfyWait] at h
    split at h
    · next hs => simp [syncIsSignaled, hs]
    · next hs =>
      split at h
      · simp only [syncIsSignaled] at h ⊢
        split at h
        · omega
        · simpa [hs] using h
      · exact h
  | _ => exact h

/-- A satisfied wait raises no signal state above zero. -/
theorem signalState_pos_of_satisfyWait {obj : SyncObject} {id : UInt32}
    (h : 0 < (syncSatisfyWait obj id).signalState) : 0 < obj.signalState := by
  unfold syncSatisfyWait at h
  split at h
  · exact h
  · simp at h
  · split at h
    · assumption
    · exact h
  · split at h
    · assumption
    · split at h
      · dsimp only at h
        omega
      · exact h
  · exact h
  · exact h
  · exact h

end Wbox.Nt
