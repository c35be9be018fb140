import Wbox.Nt.HandleNumbers
import Wbox.Nt.Mutants
import Wbox.Thread.Memory

/-!
# Creating objects

`NtCreateEvent`, `NtCreateSemaphore`, `NtCreateMutant` and `NtCreateThread` of
`src/nt/ntdll.c`: an object is made, put in the handle table, and its handle written to the
guest. `handles_add_object` fails with 0; only `NtCreateEvent` tests for that.
-/

namespace Wbox.Nt

open Wbox.Lib Wbox.Thread Wbox.Vm

/-- The virtual machine with its scheduler, the static counters of `thread.c` and the handles. -/
structure NtVm extends ThreadVm where
  handles : HandleTable
  hasScheduler : Bool

/-- What the system calls on objects use of it. -/
def NtVm.context (v : NtVm) : VmContext where
  mem := v.vm.mem
  paging := v.vm.paging.toPagingContext
  handles := v.handles
  sched := v.sched
  hasScheduler := v.hasScheduler

/-- The machine after they have changed that. -/
def NtVm.withContext (v : NtVm) (c : VmContext) : NtVm :=
  { v with vm := { v.vm with mem := c.mem }, handles := c.handles, sched := c.sched }

/-- How a creation ends: the machine, the status, the new object unless it has been freed, and
the handle it writes if the guest's pointer leads anywhere. -/
structure Creation where
  v : NtVm
  status : UInt32
  object : Option Ptr
  handle : Option UInt32

/-- A creation that ends before there is an object. -/
def Creation.fail (v : NtVm) (status : UInt32) : Creation := ⟨v, status, none, none⟩

/-- The end the creations of synchronization objects share: the object is allocated, unless
`calloc` fails, put in the table, and freed if `failed` says so of the handle. -/
def createObject (failed : UInt32 → Bool) (v : NtVm) (allocOk : Bool) (type : HandleType)
    (obj : SyncObject) (handlePtr : UInt32) : Creation :=
  if allocOk = false then .fail v statusInsufficientResources
  else
    let object := v.sched.heapNext
    let c := v.context.allocObject obj
    let (handles, handle) := handlesAddObject c.handles type (some object)
    if failed handle then .fail (v.withContext c) statusInsufficientResources
    else ⟨v.withContext ({ c with handles := handles }.writeOut handlePtr handle), statusSuccess,
      some object, some handle⟩

/-- The test `!handle`. -/
def isZeroHandle (handle : UInt32) : Bool := handle == 0

/-- The test `handle == INVALID_HANDLE_VALUE`. -/
def isInvalidHandle (handle : UInt32) : Bool := handle == invalidHandleValue

/-- `NtCreateEvent`, `ntdll.c:165–212`. -/
def ntCreateEvent (v : NtVm) (allocOk : Bool) (handlePtr eventType initialState : UInt32) :
    Creation :=
  if handlePtr = 0 then .fail v statusInvalidParameter
  else if eventType > 1 then .fail v statusInvalidParameter
  else
    let dtype := if eventType = 0 then DispType.eventNotification else .eventSynchronization
    match syncCreateEvent dtype (decide (initialState ≠ 0)) with
    | none => .fail v statusInsufficientResources
    | some event => createObject isZeroHandle v allocOk .event event handlePtr

/-- `NtCreateSemaphore`, `ntdll.c:1099–1154`. -/
def ntCreateSemaphore (v : NtVm) (allocOk : Bool) (handlePtr initialCount maxCount : UInt32) :
    Creation :=
  let initialCount := initialCount.toInt32.toInt
  let maxCount := maxCount.toInt32.toInt
  if maxCount ≤ 0 ∨ initialCount < 0 ∨ initialCount > maxCount then
    .fail v statusInvalidParameter
  else
    match syncCreateSemaphore initialCount maxCount with
    | none => .fail v statusInsufficientResources
    | some sem => createObject isInvalidHandle v allocOk .semaphore sem handlePtr

/-- `NtCreateMutant`, `ntdll.c:1215–1272`, with a `calloc` that may fail. -/
def ntCreateMutantAlloc (v : NtVm) (allocOk : Bool) (handlePtr initialOwner : UInt32) :
    Creation :=
  createObject isInvalidHandle v allocOk .mutant (newMutant v.context initialOwner) handlePtr

/-- The arguments of `NtCreateThread` that it uses. -/
structure NtCreateThreadArgs where
  handlePtr : UInt32
  clientIdPtr : UInt32
  contextPtr : UInt32
  createSuspended : UInt32

/-- The start address and the parameter, EIP and EAX of the CONTEXT, `ntdll.c:1506–1523`. -/
def readStart (v : NtVm) (contextPtr : UInt32) : UInt32 × UInt32 :=
  if contextPtr = 0 then (0, 0)
  else
    let phys := pagingGetPhys v.vm.mem v.vm.paging.toPagingContext contextPtr
    if phys = 0 then (0, 0)
    else (memReadlPhys v.vm.mem (phys + 0xB8), memReadlPhys v.vm.mem (phys + 0xA4))

/-- Write the CLIENT_ID, `ntdll.c:1564–1571`. -/
def VmContext.writeClientId (vm : VmContext) (clientIdPtr processId threadId : UInt32) :
    VmContext :=
  if clientIdPtr = 0 then vm
  else
    let phys := pagingGetPhys vm.mem vm.paging clientIdPtr
    if phys = 0 then vm
    else { vm with mem := memWritelPhys (memWritelPhys vm.mem phys processId) (phys + 4) threadId }

/-- The thread enters the scheduler, `ntdll.c:1542–1546`. -/
def NtVm.schedule (v : NtVm) (thread : Ptr) : NtVm :=
  if v.hasScheduler then { v with sched := schedulerAddThread v.sched thread } else v

/-- `NtCreateThread`, `ntdll.c:1475–1577`; the stack has the default size. -/
def ntCreateThread (v : NtVm) (allocOk : Bool) (a : NtCreateThreadArgs) : Creation :=
  let (startAddress, parameter) := readStart v a.contextPtr
  if startAddress = 0 then .fail v statusInvalidParameter
  else
    match threadCreateVm v.toThreadVm allocOk startAddress parameter 0
        (decide (a.createSuspended ≠ 0)) with
    | (w, none) => .fail { v with toThreadVm := w } statusInsufficientResources
    | (w, some (thread, _)) =>
        let v := { v with toThreadVm := w }.schedule thread
        let (handles, handle) := handlesAddObject v.handles .thread (some thread)
        if isInvalidHandle handle then ⟨v, statusInsufficientResources, some thread, none⟩
        else
          let c := { v.context with handles := handles }.writeOut a.handlePtr handle
          let c := c.writeClientId a.clientIdPtr wboxProcessId (c.sched.threads thread).threadId
          ⟨v.withContext c, statusSuccess, some thread, some handle⟩

/-- The creating calls. -/
inductive CreateCall where
  | event (handlePtr eventType initialState : UInt32)
  | semaphore (handlePtr initialCount maxCount : UInt32)
  | mutant (handlePtr initialOwner : UInt32)
  | thread (args : NtCreateThreadArgs)

/-- A creating call; `allocOk` says whether `calloc` succeeds. -/
def ntCreate (v : NtVm) (allocOk : Bool) : CreateCall → Creation
  | .event handlePtr eventType initialState =>
      ntCreateEvent v allocOk handlePtr eventType initialState
  | .semaphore handlePtr initialCount maxCount =>
      ntCreateSemaphore v allocOk handlePtr initialCount maxCount
  | .mutant handlePtr initialOwner => ntCreateMutantAlloc v allocOk handlePtr initialOwner
  | .thread args => ntCreateThread v allocOk args

/-- The handle gets an entry that holds the object. -/
def Holds (ht : HandleTable) (handle : UInt32) (object : Ptr) : Prop :=
  ∃ entry, handlesGet ht handle = some entry ∧ entry.objectData = some object

/-- The scheduler leads to an address: as a thread of its lists, as the current or idle thread,
or as the object of a registered wait. -/
def InScheduler (s : WboxScheduler) (p : Ptr) : Prop :=
  (∃ ts, Chain s.threadLink s.allThreads ts ∧ p ∈ ts) ∨
    (∃ ts, Chain s.readyLink s.readyHead ts ∧ p ∈ ts) ∨
      s.currentThread = some p ∨ s.idleThread = p ∨ ∃ wb, s.WaitsOn wb p

/-- The handle table or the scheduler leads to an address. -/
def NtVm.Reachable (v : NtVm) (p : Ptr) : Prop :=
  (∃ handle, Holds v.handles handle p) ∨ InScheduler v.sched p

/-- A success hands out a handle of the new object; after an error nothing new is reachable. -/
structure AllOrNothing (v : NtVm) (r : Creation) : Prop where
  success : r.status = statusSuccess →
    ∃ handle object, r.handle = some handle ∧ r.object = some object ∧
      Holds r.v.handles handle object
  error : r.status ≠ statusSuccess → ∀ p, r.v.Reachable p → v.Reachable p

/-- The call gets as far as to test its handle against `INVALID_HANDLE_VALUE`: its parameters are
valid and there is room for the object. -/
def CreateCall.MissesFailure (v : NtVm) (allocOk : Bool) : CreateCall → Prop
  | .event _ _ _ => False
  | .semaphore _ initialCount maxCount =>
      allocOk = true ∧ 0 < maxCount.toInt32.toInt ∧ 0 ≤ initialCount.toInt32.toInt ∧
        initialCount.toInt32.toInt ≤ maxCount.toInt32.toInt
  | .mutant _ _ => allocOk = true
  | .thread args =>
      allocOk = true ∧ (readStart v args.contextPtr).1 ≠ 0 ∧ RoomForThread v.toThreadVm

variable {v : NtVm} {ht : HandleTable} {handle : UInt32} {p object : Ptr} {allocOk : Bool}
  {type : HandleType} {obj : SyncObject} {handlePtr : UInt32} {failed : UInt32 → Bool}

section Table

/-- A full table is left as it is. -/
theorem handlesAddObject_full (hfull : ht.Full) (objectData : Option Ptr) :
    handlesAddObject ht type objectData = (ht, 0) := by
  rcases ht.insert_cases ⟨type, -1, 0, 0, objectData⟩ with ⟨-, h⟩ | ⟨i, hi, -⟩
  · exact h
  · rw [HandleTable.freeSlot_none_iff.mpr hfull] at hi
    cases hi

/-- Otherwise the handle is a number of the table and gets the object. -/
theorem handlesAddObject_free (hfree : ¬ ht.Full) (htype : type ≠ .none) (object : Ptr) :
    (handlesAddObject ht type (some object)).2 ≠ 0 ∧
      (handlesAddObject ht type (some object)).2.toNat < maxHandles ∧
      Holds (handlesAddObject ht type (some object)).1
        (handlesAddObject ht type (some object)).2 object := by
  unfold handlesAddObject
  rcases ht.insert_cases ⟨type, -1, 0, 0, some object⟩ with ⟨hnone, -⟩ | ⟨i, hi, h⟩
  · exact absurd (HandleTable.freeSlot_none_iff.mp hnone) hfree
  have hnat := ht.slot_toNat hi
  have hlt := (ht.freeSlot_some hi).1
  have hpos := ht.freeSlot_pos hi
  rw [h]
  refine ⟨ht.slot_ne_zero hi, by rwa [hnat], ⟨type, -1, 0, 0, some object⟩, ?_, rfl⟩
  apply handlesGet_of_entry
  · rwa [hnat]
  · rwa [hnat]
  · rw [hnat]
    exact Function.update_self _ _ _
  · exact htype

/-- A number of the table is not `INVALID_HANDLE_VALUE`. -/
theorem isInvalidHandle_false (h : handle.toNat < maxHandles) : isInvalidHandle handle = false := by
  unfold isInvalidHandle
  rw [beq_eq_false_iff_ne]
  rintro rfl
  exact absurd h (by decide)

/-- No handle of the table is taken for `INVALID_HANDLE_VALUE`. -/
theorem isInvalidHandle_added (ht : HandleTable) (htype : type ≠ .none) (object : Ptr) :
    isInvalidHandle (handlesAddObject ht type (some object)).2 = false := by
  by_cases hfull : ht.Full
  · rw [handlesAddObject_full hfull]
    rfl
  · exact isInvalidHandle_false (handlesAddObject_free hfull htype object).2.1

/-- The handle 0 gets nothing. -/
theorem not_holds_zero (ht : HandleTable) (object : Ptr) : ¬ Holds ht 0 object := by
  rintro ⟨entry, hget, -⟩
  cases hget

end Table

section Reach

/-- What the scheduler leads to is decided by its threads and its heads. -/
theorem InScheduler.congr {s s' : WboxScheduler} (hthreads : s'.threads = s.threads)
    (hall : s'.allThreads = s.allThreads) (hready : s'.readyHead = s.readyHead)
    (hcur : s'.currentThread = s.currentThread) (hidle : s'.idleThread = s.idleThread)
    (h : InScheduler s' p) : InScheduler s p := by
  unfold InScheduler WboxScheduler.threadLink WboxScheduler.readyLink WboxScheduler.WaitsOn
    WboxScheduler.block at h ⊢
  rwa [hthreads, hall, hready, hcur, hidle] at h

end Reach

section Objects

/-- A creation that fails and leaves nothing behind. -/
theorem AllOrNothing.fail {v' : NtVm} {status : UInt32} (hstatus : status ≠ statusSuccess)
    (h : ∀ p, v'.Reachable p → v.Reachable p) : AllOrNothing v (.fail v' status) where
  success := fun hok => absurd hok hstatus
  error := fun _ => h

/-- A creation that succeeds with a handle that gets the object. -/
theorem AllOrNothing.done {r : Creation} (hstatus : r.status = statusSuccess)
    (hhandle : r.handle = some handle) (hobject : r.object = some object)
    (h : Holds r.v.handles handle object) : AllOrNothing v r where
  success := fun _ => ⟨handle, object, hhandle, hobject, h⟩
  error := fun hne => absurd hstatus hne

/-- One that succeeds with the handle 0. -/
theorem not_allOrNothing_zero {r : Creation} (hstatus : r.status = statusSuccess)
    (hhandle : r.handle = some 0) : ¬ AllOrNothing v r := by
  intro h
  obtain ⟨handle, object, hsome, -, hholds⟩ := h.success hstatus
  rw [← Option.some.inj (hhandle.symm.trans hsome)] at hholds
  exact not_holds_zero _ _ hholds

/-- An object that is allocated and freed again is not reachable. -/
theorem allocObject_reachable (h : (v.withContext (v.context.allocObject obj)).Reachable p) :
    v.Reachable p := by
  rcases h with h | h
  · exact Or.inl h
  · exact Or.inr (h.congr rfl rfl rfl rfl rfl)

/-- Without memory nothing is made. -/
theorem createObject_noMemory (failed : UInt32 → Bool) (type : HandleType) (obj : SyncObject)
    (handlePtr : UInt32) : AllOrNothing v (createObject failed v false type obj handlePtr) :=
  .fail (by decide) fun _ h => h

/-- With room in the table a creation succeeds. -/
theorem createObject_free (hfree : ¬ v.handles.Full) (htype : type ≠ .none)
    (hfailed : ∀ handle, handle ≠ 0 → handle.toNat < maxHandles → failed handle = false) :
    AllOrNothing v (createObject failed v true type obj handlePtr) := by
  obtain ⟨hne, hlt, hholds⟩ := handlesAddObject_free hfree htype v.sched.heapNext
  have hok := hfailed _ hne hlt
  unfold createObject
  simp only [Bool.true_eq_false, if_false, VmContext.allocObject, NtVm.context, hok]
  apply AllOrNothing.done rfl rfl rfl
  simpa [NtVm.withContext] using hholds

/-- With a full table the test `!handle` finds out and the object is freed. -/
theorem createObject_zero_full (hfull : v.handles.Full) :
    AllOrNothing v (createObject isZeroHandle v true type obj handlePtr) := by
  have hadd : handlesAddObject v.handles type (some v.sched.heapNext) = (v.handles, 0) :=
    handlesAddObject_full hfull _
  have hfails : createObject isZeroHandle v true type obj handlePtr =
      .fail (v.withContext (v.context.allocObject obj)) statusInsufficientResources := by
    unfold createObject
    simp only [Bool.true_eq_false, if_false, VmContext.allocObject, NtVm.context, hadd]
    rfl
  rw [hfails]
  exact .fail (by decide) fun _ => allocObject_reachable

/-- The test against `INVALID_HANDLE_VALUE` does not. -/
theorem createObject_invalid_full (hfull : v.handles.Full) :
    ¬ AllOrNothing v (createObject isInvalidHandle v true type obj handlePtr) := by
  have hadd : handlesAddObject v.handles type (some v.sched.heapNext) = (v.handles, 0) :=
    handlesAddObject_full hfull _
  have hzero : isInvalidHandle 0 = false := by decide
  have hgoes : (createObject isInvalidHandle v true type obj handlePtr).status = statusSuccess ∧
      (createObject isInvalidHandle v true type obj handlePtr).handle = some 0 := by
    unfold createObject
    simp only [Bool.true_eq_false, if_false, VmContext.allocObject, NtVm.context, hadd, hzero]
    exact ⟨rfl, rfl⟩
  exact not_allOrNothing_zero hgoes.1 hgoes.2

/-- A creation with the test `!handle` is all or nothing. -/
theorem createObject_zero (htype : type ≠ .none) :
    AllOrNothing v (createObject isZeroHandle v allocOk type obj handlePtr) := by
  cases allocOk with
  | false => exact createObject_noMemory _ _ _ _
  | true =>
    by_cases hfull : v.handles.Full
    · exact createObject_zero_full hfull
    · apply createObject_free hfull htype
      intro handle hne _
      exact beq_eq_false_iff_ne.mpr hne

/-- One with the other test is if the table has room, or there is no memory. -/
theorem createObject_invalid_iff (htype : type ≠ .none) :
    AllOrNothing v (createObject isInvalidHandle v allocOk type obj handlePtr) ↔
      (v.handles.Full → allocOk = false) := by
  cases allocOk with
  | false =>
    simp only [implies_true, iff_true]
    exact createObject_noMemory _ _ _ _
  | true =>
    simp only [Bool.true_eq_false, imp_false]
    constructor
    · exact fun h hfull => createObject_invalid_full hfull h
    · exact fun hfree => createObject_free hfree htype fun _ _ => isInvalidHandle_false

/-- `NtCreateEvent` is all or nothing. -/
theorem ntCreateEvent_allOrNothing (eventType initialState : UInt32) :
    AllOrNothing v (ntCreateEvent v allocOk handlePtr eventType initialState) := by
  unfold ntCreateEvent
  split
  · exact .fail (by decide) fun _ h => h
  · split
    · exact .fail (by decide) fun _ h => h
    · dsimp only
      split
      · exact .fail (by decide) fun _ h => h
      · exact createObject_zero (by decide)

/-- `NtCreateSemaphore` is if the table has room, or it does not get as far. -/
theorem ntCreateSemaphore_iff (initialCount maxCount : UInt32) :
    AllOrNothing v (ntCreateSemaphore v allocOk handlePtr initialCount maxCount) ↔
      (v.handles.Full →
        ¬ (CreateCall.semaphore handlePtr initialCount maxCount).MissesFailure v allocOk) := by
  unfold ntCreateSemaphore CreateCall.MissesFailure
  dsimp only
  split
  · next hbad =>
    have hok : AllOrNothing v (.fail v statusInvalidParameter) := .fail (by decide) fun _ h => h
    simp only [hok, true_iff]
    omega
  · next hgood =>
    have hmake : syncCreateSemaphore initialCount.toInt32.toInt maxCount.toInt32.toInt =
        some { type := .semaphore, signalState := initialCount.toInt32.toInt, waitList := none
               limit := maxCount.toInt32.toInt } := by
      unfold syncCreateSemaphore
      rw [if_neg hgood]
    rw [hmake]
    dsimp only
    rw [createObject_invalid_iff (by decide)]
    have hcounts : 0 < maxCount.toInt32.toInt ∧ 0 ≤ initialCount.toInt32.toInt ∧
        initialCount.toInt32.toInt ≤ maxCount.toInt32.toInt := by omega
    simp only [hcounts, and_true, Bool.not_eq_true]

/-- `NtCreateMutant` in the same way. -/
theorem ntCreateMutantAlloc_iff (initialOwner : UInt32) :
    AllOrNothing v (ntCreateMutantAlloc v allocOk handlePtr initialOwner) ↔
      (v.handles.Full →
        ¬ (CreateCall.mutant handlePtr initialOwner).MissesFailure v allocOk) := by
  unfold ntCreateMutantAlloc CreateCall.MissesFailure
  rw [createObject_invalid_iff (by decide), Bool.not_eq_true]

end Objects

section Threads

variable {args : NtCreateThreadArgs}

/-- The CLIENT_ID is written to memory only. -/
@[simp] theorem VmContext.writeClientId_handles (vm : VmContext) (ptr processId threadId : UInt32) :
    (vm.writeClientId ptr processId threadId).handles = vm.handles := by
  unfold VmContext.writeClientId
  split
  · rfl
  · dsimp only
    split <;> rfl

/-- The scheduler does not touch the handles. -/
@[simp] theorem NtVm.schedule_handles (v : NtVm) (thread : Ptr) :
    (v.schedule thread).handles = v.handles := by
  unfold NtVm.schedule
  split <;> rfl

/-- A thread creation that fails leaves nothing reachable. -/
theorem threadCreateVm_none_reachable {allocOk suspended : Bool} {start parameter : UInt32}
    (h : (threadCreateVm v.toThreadVm allocOk start parameter 0 suspended).2 = none)
    (hp : NtVm.Reachable { v with toThreadVm :=
      (threadCreateVm v.toThreadVm allocOk start parameter 0 suspended).1 } p) :
    v.Reachable p := by
  obtain ⟨id, hsched⟩ := threadCreateVm_none h
  rcases hp with hp | hp
  · exact Or.inl hp
  · right
    dsimp only at hp
    rw [hsched] at hp
    exact hp.congr rfl rfl rfl rfl rfl

/-- How `NtCreateThread` ends. -/
theorem ntCreateThread_cases (v : NtVm) (allocOk : Bool) (args : NtCreateThreadArgs) :
    (¬ (CreateCall.thread args).MissesFailure v allocOk ∧
        AllOrNothing v (ntCreateThread v allocOk args)) ∨
      (CreateCall.thread args).MissesFailure v allocOk ∧
        ∃ thread, (ntCreateThread v allocOk args).status = statusSuccess ∧
          (ntCreateThread v allocOk args).object = some thread ∧
          (ntCreateThread v allocOk args).handle =
            some (handlesAddObject v.handles .thread (some thread)).2 ∧
          (ntCreateThread v allocOk args).v.handles =
            (handlesAddObject v.handles .thread (some thread)).1 := by
  rcases hstart : readStart v args.contextPtr with ⟨start, parameter⟩
  by_cases hzero : start = 0
  · left
    have hfails : ntCreateThread v allocOk args = .fail v statusInvalidParameter := by
      unfold ntCreateThread
      simp only [hstart, hzero, if_true]
    rw [hfails]
    constructor
    · rintro ⟨-, hne, -⟩
      rw [hstart] at hne
      exact hne hzero
    · exact .fail (by decide) fun _ h => h
  rcases hmade : threadCreateVm v.toThreadVm allocOk start parameter 0
      (decide (args.createSuspended ≠ 0)) with ⟨w, _ | ⟨thread, memory⟩⟩
  · left
    have hfails : ntCreateThread v allocOk args =
        .fail { v with toThreadVm := w } statusInsufficientResources := by
      unfold ntCreateThread
      simp only [hstart, hzero, if_false, hmade]
    rw [hfails]
    constructor
    · rintro ⟨rfl, -, hroom⟩
      have hsome := (threadCreateVm_iff v.toThreadVm start parameter
        (decide (args.createSuspended ≠ 0))).mpr hroom
      rw [hmade] at hsome
      cases hsome
    · have hnone := congrArg Prod.snd hmade
      have hw := congrArg Prod.fst hmade
      refine .fail (by decide) fun p hp => threadCreateVm_none_reachable hnone ?_
      rwa [hw]
  · right
    have halloc : allocOk = true := by
      cases allocOk with
      | true => rfl
      | false => cases congrArg Prod.snd hmade
    subst halloc
    have hroom : RoomForThread v.toThreadVm := by
      rw [← threadCreateVm_iff v.toThreadVm start parameter (decide (args.createSuspended ≠ 0)),
        hmade]
      rfl
    refine ⟨⟨rfl, by rwa [hstart], hroom⟩, thread, ?_⟩
    have htype : HandleType.thread ≠ .none := by decide
    have htest := isInvalidHandle_added v.handles htype thread
    unfold ntCreateThread
    simp only [hstart, hzero, if_false, hmade, NtVm.schedule_handles, htest, Bool.false_eq_true]
    exact ⟨trivial, trivial, trivial, by simp [NtVm.withContext]⟩

/-- `NtCreateThread` is all or nothing if the table has room, or it does not get as far. -/
theorem ntCreateThread_iff :
    AllOrNothing v (ntCreateThread v allocOk args) ↔
      (v.handles.Full → ¬ (CreateCall.thread args).MissesFailure v allocOk) := by
  rcases ntCreateThread_cases v allocOk args with ⟨hmiss, hok⟩ | ⟨hmiss, thread, hstatus, hobject,
    hhandle, htable⟩
  · simp only [hok, hmiss, not_false_eq_true, implies_true]
  · simp only [hmiss, not_true_eq_false, imp_false]
    constructor
    · intro h hfull
      rw [handlesAddObject_full hfull] at hhandle
      exact not_allOrNothing_zero hstatus hhandle h
    · intro hfree
      have htype : HandleType.thread ≠ .none := by decide
      obtain ⟨-, -, hholds⟩ := handlesAddObject_free hfree htype thread
      exact .done hstatus hhandle hobject (htable ▸ hholds)

end Threads

/-- A creating call is all or nothing exactly if the handle table has a free entry, or the call
does not get as far as to test its handle against `INVALID_HANDLE_VALUE`. -/
theorem ntCreate_allOrNothing_iff (v : NtVm) (allocOk : Bool) (call : CreateCall) :
    AllOrNothing v (ntCreate v allocOk call) ↔
      (v.handles.Full → ¬ call.MissesFailure v allocOk) := by
  cases call with
  | event handlePtr eventType initialState =>
    exact ⟨fun _ _ hmiss => hmiss, fun _ => ntCreateEvent_allOrNothing eventType initialState⟩
  | semaphore handlePtr initialCount maxCount => exact ntCreateSemaphore_iff initialCount maxCount
  | mutant handlePtr initialOwner => exact ntCreateMutantAlloc_iff initialOwner
  | thread args => exact ntCreateThread_iff

/-- A machine whose guest has made 252 events. -/
def fullVm : NtVm where
  toThreadVm := bootThreads.v
  handles :=
    { entries := fun i => if i < 4 then handlesInit.entries i else ⟨.event, -1, 0, 0, some i⟩
      nextHandle := 256
      next_le := by decide
      next_pos := by decide }
  hasScheduler := true

/-- Another semaphore is a success with the handle 0. -/
theorem ntCreateSemaphore_fullTable : ¬ AllOrNothing fullVm
    (ntCreate fullVm true (.semaphore 0x7FFDF000 1 1)) := by
  have hvalid : (CreateCall.semaphore 0x7FFDF000 1 1).MissesFailure fullVm true := by
    unfold CreateCall.MissesFailure
    decide
  intro h
  have hmiss : fullVm.handles.Full → ¬ (CreateCall.semaphore 0x7FFDF000 1 1).MissesFailure fullVm
      true := (ntCreateSemaphore_iff 1 1).mp h
  refine hmiss ?_ hvalid
  intro i hpos hlt
  unfold HandleTable.InUse fullVm
  dsimp only
  split
  · next hlow =>
    have hcases : i = 1 ∨ i = 2 ∨ i = 3 := by omega
    rcases hcases with rfl | rfl | rfl <;> decide
  · nofun

end Wbox.Nt
