import Wbox.Thread.State

/-!
# The scheduler

The functions of `src/thread/scheduler.c` and the thread functions of
`src/thread/thread.c` they call, in source order. `none` is a call that does not return:
a walk round a cyclic list.
-/

namespace Wbox.Thread

open Wbox.Cpu Wbox.Nt Wbox.Lib

/-- `STATUS_SUCCESS` and `STATUS_WAIT_0`, `src/nt/syscalls.h:334–335`. -/
def statusWait0 : UInt32 := 0x00000000

/-- `STATUS_TIMEOUT`. -/
def statusTimeout : UInt32 := 0x00000102

/-- `STATUS_INVALID_PARAMETER`. -/
def statusInvalidParameter : UInt32 := 0xC000000D

/-- The value of `wait_status` while a wait is pending, `scheduler.c:429`. -/
def statusNotSet : UInt32 := 0xDEADBEEF

/-- `thread_save_context`, `src/thread/thread.c:224–310`. -/
def threadSaveContext (s : WboxScheduler) (thread : Ptr) : WboxScheduler :=
  s.modifyThread thread fun th =>
    { th with context := saveContext s.cpu, contextValid := true }

/-- `thread_restore_context`, `src/thread/thread.c:312–397`. -/
def threadRestoreContext (s : WboxScheduler) (thread : Ptr) : WboxScheduler :=
  if (s.threads thread).contextValid then
    { s with cpu := restoreContext (s.threads thread).context (s.threads thread).tebAddr s.cpu }
  else s

/-- `thread_terminate`, `src/thread/thread.c:207–222`. -/
def threadTerminate (s : WboxScheduler) (thread : Ptr) (exitCode : UInt32) : WboxScheduler :=
  s.modifyThread thread fun th =>
    { th with exitCode := exitCode, terminated := true, state := .terminated }

/-- `scheduler_get_time_100ns`, `scheduler.c:31–43`: one reading of the host clock. -/
def schedulerGetTime100ns (s : WboxScheduler) : UInt64 × WboxScheduler :=
  (s.clock s.clockReads + s.timeOffset, { s with clockReads := s.clockReads + 1 })

/-- `scheduler_advance_time`, `scheduler.c:45–50`. -/
def schedulerAdvanceTime (s : WboxScheduler) (amount : UInt64) : WboxScheduler :=
  { s with timeOffset := s.timeOffset + amount }

/-- Put a thread behind `ready_tail`, `scheduler.c:129–137`. -/
def appendReady (s : WboxScheduler) (thread : Ptr) : WboxScheduler :=
  match s.readyTail with
  | some tail => { s.setReadyNext tail (some thread) with readyTail := some thread }
  | none => { s with readyHead := some thread, readyTail := some thread }

/-- Leave the idle state, `scheduler.c:139–143`. -/
def clearIdle (s : WboxScheduler) : WboxScheduler :=
  { s with cpuExitRequested := if s.idle then false else s.cpuExitRequested, idle := false }

/-- `scheduler_add_ready`, `scheduler.c:123–145`. -/
def schedulerAddReady (s : WboxScheduler) (thread : Ptr) : WboxScheduler :=
  clearIdle (appendReady (s.setReadyNext thread none) thread)

/-- Store a pointer in a slot of the ready queue (`prev->ready_next` or `ready_head`). -/
def storeReady (s : WboxScheduler) (slot : Slot Ptr) (v : Option Ptr) : WboxScheduler :=
  match slot with
  | .head => { s with readyHead := v }
  | .after prev => s.setReadyNext prev v

/-- `scheduler_remove_ready`, `scheduler.c:147–175`. -/
def schedulerRemoveReady (s : WboxScheduler) (thread : Ptr) : Option WboxScheduler := do
  match ← findSlot s.readyLink thread s.threadSteps .head s.readyHead with
  | none => return s
  | some slot =>
      let s' := storeReady s slot (s.readyLink thread)
      let s' := if s.readyTail = some thread then { s' with readyTail := slot.node } else s'
      return s'.setReadyNext thread none

/-- Take the head off the ready queue, `scheduler.c:217–224`. -/
def takeReady (s : WboxScheduler) (head : Ptr) : WboxScheduler :=
  let next := s.readyLink head
  { s.setReadyNext head none with
    readyHead := next
    readyTail := if next = none then none else s.readyTail }

/-- Save the context of the thread that is switched out if it is running,
`scheduler.c:235–238`. -/
def saveRunning (s : WboxScheduler) (oldThread : Option Ptr) : WboxScheduler :=
  match oldThread with
  | some old => if (s.threads old).state = .running then threadSaveContext s old else s
  | none => s

/-- No thread is ready: the idle thread becomes current, `scheduler.c:226–233`. -/
def switchIdle (s : WboxScheduler) : WboxScheduler :=
  { s with idle := true, currentThread := some s.idleThread, cpuExitRequested := true }

/-- Switch to the thread at the head of the ready queue. -/
def switchTo (s : WboxScheduler) (newThread : Ptr) : WboxScheduler :=
  let s := takeReady s newThread
  let s := saveRunning s s.currentThread
  let s := { s with currentThread := some newThread }
  let s := s.setState newThread .running
  let s := threadRestoreContext s newThread
  { s with
    contextSwitches := s.contextSwitches + 1
    idle := false
    preemptionPending := false }

/-- `scheduler_switch`, `scheduler.c:207–250`. -/
def schedulerSwitch (s : WboxScheduler) : WboxScheduler :=
  match s.readyHead with
  | none => switchIdle s
  | some newThread => switchTo s newThread

/-- Count a tick and decrement the quantum, `scheduler.c:183–188`. -/
def countTick (s : WboxScheduler) (cur : Ptr) : WboxScheduler :=
  { s.modifyThread cur fun th =>
      { th with quantum := if th.quantum > 0 then th.quantum - 1 else th.quantum } with
    tickCount := s.tickCount + 1 }

/-- Put the current thread behind the ready threads and switch, `scheduler.c:196–203`. -/
def preempt (s : WboxScheduler) (cur : Ptr) : WboxScheduler :=
  let s := { s with preemptionPending := true }
  let s := s.setState cur .ready
  schedulerSwitch (schedulerAddReady s cur)

/-- `scheduler_tick`, `scheduler.c:177–205`. -/
def schedulerTick (s : WboxScheduler) : WboxScheduler :=
  match s.currentThread with
  | none => s
  | some cur =>
      let s := countTick s cur
      if (s.threads cur).quantum = 0 then
        let s := s.modifyThread cur fun th => { th with quantum := th.quantumReset }
        if s.readyHead ≠ none then preempt s cur else s
      else s

/-- Take one wait block off the wait list of its object, `scheduler.c:273–281`, `558–567`. -/
def unlinkWaitBlock (s : WboxScheduler) (object : Ptr) (wb : WbPtr) : Option WboxScheduler := do
  match ← findSlot s.blockLink wb s.blockSteps .head (s.objects object).waitList with
  | none => return s
  | some .head => return s.setWaitList object (s.blockLink wb)
  | some (.after prev) => return s.setBlockNext prev (s.blockLink wb)

/-- The loop `for (i = 0; i < thread->wait_count; i++)` over the blocks with an object. -/
def unlinkWaitBlocks (s : WboxScheduler) (thread : Ptr) : Option WboxScheduler :=
  (List.range (s.threads thread).waitCount).foldlM (fun s i =>
    match (s.block ⟨thread, i⟩).object with
    | none => some s
    | some object => unlinkWaitBlock s object ⟨thread, i⟩) s

/-- The body of `scheduler_check_timeouts` for an expired wait, `scheduler.c:263–292`. -/
def expireWait (s : WboxScheduler) (thread : Ptr) : Option WboxScheduler := do
  let s := s.modifyThread thread fun th =>
    { th with
      waitStatus := statusTimeout
      context := { th.context with eax := statusTimeout } }
  let s ← unlinkWaitBlocks s thread
  let s := s.modifyThread thread fun th => { th with waitCount := 0, waitTimeout := 0 }
  let s := s.setState thread .ready
  return schedulerAddReady s thread

/-- The test of `scheduler_check_timeouts`: a wait whose deadline has come. -/
def waitExpired (th : WboxThread) (now : UInt64) : Bool :=
  decide (th.state = .waiting ∧ th.waitTimeout ≠ 0 ∧ th.waitTimeout ≤ now)

/-- The loop of `scheduler_check_timeouts` from a node of the list of all threads. -/
def checkTimeoutsFrom (now : UInt64) :
    Nat → Option Ptr → WboxScheduler → Option WboxScheduler
  | _, none, s => some s
  | 0, some _, _ => none
  | n + 1, some thread, s => do
      let s ← if waitExpired (s.threads thread) now then expireWait s thread else some s
      checkTimeoutsFrom now n (s.threadLink thread) s

/-- `scheduler_check_timeouts`, `scheduler.c:252–296`. -/
def schedulerCheckTimeouts (s : WboxScheduler) : Option WboxScheduler :=
  let (now, s) := schedulerGetTime100ns s
  checkTimeoutsFrom now s.threadSteps s.allThreads s

/-- `scheduler_add_thread`, `scheduler.c:298–312`. -/
def schedulerAddThread (s : WboxScheduler) (thread : Ptr) : WboxScheduler :=
  let s := s.setNext thread s.allThreads
  let s := { s with allThreads := some thread }
  if (s.threads thread).state = .ready then schedulerAddReady s thread else s

/-- Unlink a thread from the list of all threads, `scheduler.c:320–328`. -/
def unlinkThread (s : WboxScheduler) (thread : Ptr) : Option WboxScheduler := do
  match ← findSlot s.threadLink thread s.threadSteps .head s.allThreads with
  | none => return s
  | some .head => return { s with allThreads := s.threadLink thread }
  | some (.after prev) => return s.setNext prev (s.threadLink thread)

/-- `scheduler_remove_thread`, `scheduler.c:314–338`. -/
def schedulerRemoveThread (s : WboxScheduler) (thread : Ptr) : Option WboxScheduler := do
  let s ← unlinkThread s thread
  let s ← schedulerRemoveReady s thread
  if s.currentThread = some thread then
    return schedulerSwitch { s with currentThread := none }
  else return s

/-- WaitAny: the first object that is signaled is consumed, `scheduler.c:358–364`. -/
def satisfyAny (objects : Ptr → SyncObject) (id : UInt32) :
    Nat → List (Option Ptr) → Option ((Ptr → SyncObject) × Nat)
  | _, [] => none
  | i, none :: rest => satisfyAny objects id (i + 1) rest
  | i, some o :: rest =>
      if syncIsSignaled (objects o) id then
        some (Function.update objects o (syncSatisfyWait (objects o) id), i)
      else satisfyAny objects id (i + 1) rest

/-- WaitAll: every object that is there is signaled, `scheduler.c:367–373`, `528–537`. -/
def allSignaled (objects : Ptr → SyncObject) (id : UInt32) (os : List (Option Ptr)) : Bool :=
  os.all fun o => match o with
    | none => true
    | some o => syncIsSignaled (objects o) id

/-- WaitAll: consume the objects in order, `scheduler.c:377–381`, `551–556`. -/
def satisfyAll (objects : Ptr → SyncObject) (id : UInt32) (os : List (Option Ptr)) :
    Ptr → SyncObject :=
  os.foldl (fun objects o => match o with
    | none => objects
    | some o => Function.update objects o (syncSatisfyWait (objects o) id)) objects

/-- The test for immediate satisfaction, with the status to return, `scheduler.c:356–384`. -/
def satisfyNow (objects : Ptr → SyncObject) (id : UInt32) (waitType : WaitType)
    (os : List (Option Ptr)) : Option ((Ptr → SyncObject) × UInt32) :=
  match waitType with
  | .any => (satisfyAny objects id 0 os).map fun r => (r.1, statusWait0 + UInt32.ofNat r.2)
  | .all =>
      if allSignaled objects id os then some (satisfyAll objects id os, statusWait0) else none

/-- Set up one wait block and push it on the wait list of its object, `scheduler.c:399–411`. -/
def registerBlock (s : WboxScheduler) (thread : Ptr) (i : Nat) (object : Option Ptr) :
    WboxScheduler :=
  let wb : WaitBlock :=
    { thread := some thread
      object := object
      next := object.bind fun o => (s.objects o).waitList
      waitKey := i }
  let s := s.modifyThread thread fun th =>
    { th with waitBlocks := Function.update th.waitBlocks i wb }
  match object with
  | none => s
  | some o => s.setWaitList o (some ⟨thread, i⟩)

/-- The loop over the objects of the wait. -/
def registerBlocks (thread : Ptr) :
    Nat → List (Option Ptr) → WboxScheduler → WboxScheduler
  | _, [], s => s
  | i, object :: rest, s => registerBlocks thread (i + 1) rest (registerBlock s thread i object)

/-- Record the wait in the thread, `scheduler.c:392–397`. -/
def prepareWait (s : WboxScheduler) (thread : Ptr) (count : Nat) (waitType : WaitType)
    (timeout : UInt64) (alertable : Bool) : WboxScheduler :=
  s.modifyThread thread fun th =>
    { th with
      waitCount := count
      waitType := waitType
      waitTimeout := timeout
      alertable := alertable }

/-- Save the context and mark the thread as waiting, `scheduler.c:416–430`. -/
def parkThread (s : WboxScheduler) (thread : Ptr) : WboxScheduler :=
  let s := threadSaveContext s thread
  let s := s.modifyThread thread fun th =>
    { th with context := { th.context with eip := s.cpu.regs.eip } }
  let s := s.setState thread .waiting
  s.modifyThread thread fun th => { th with waitStatus := statusNotSet }

/-- `scheduler_block_thread` from the wait set-up to the context switch, `scheduler.c:392–434`. -/
def schedulerBlockEnter (s : WboxScheduler) (thread : Ptr) (objects : List (Option Ptr))
    (waitType : WaitType) (timeout : UInt64) (alertable : Bool) : WboxScheduler :=
  let s := prepareWait s thread objects.length waitType timeout alertable
  let s := registerBlocks thread 0 objects s
  schedulerSwitch (parkThread s thread)

/-- The condition of the loop: the wait is pending, `scheduler.c:439`. -/
def waitPending (th : WboxThread) : Bool :=
  decide (th.state = .waiting ∧ th.waitStatus = statusNotSet)

/-- Jump the clock past the deadline when it lies ahead, `scheduler.c:447–450`. -/
def fastForward (s : WboxScheduler) (thread : Ptr) : WboxScheduler :=
  let (now, s) := schedulerGetTime100ns s
  let deadline := (s.threads thread).waitTimeout
  if deadline > now then schedulerAdvanceTime s (deadline - now + 1) else s

/-- One iteration of the loop up to its exit tests, `scheduler.c:442–452`. -/
def schedulerBlockPoll (s : WboxScheduler) (thread : Ptr) : Option WboxScheduler := do
  let s ← schedulerCheckTimeouts s
  if (s.threads thread).state = .waiting ∧ (s.threads thread).waitTimeout ≠ 0 then
    schedulerCheckTimeouts (fastForward s thread)
  else return s

/-- The waiting loop of `scheduler_block_thread`, `scheduler.c:438–469`; the argument is the
number of iterations left before the safety break, `100 - loop_count`. -/
def schedulerBlockLoop (thread : Ptr) : Nat → WboxScheduler → Option WboxScheduler
  | left, s =>
      if waitPending (s.threads thread) then do
        let s ← schedulerBlockPoll s thread
        if (s.threads thread).state = .waiting ∧ (s.threads thread).waitTimeout = 0 then
          return s.modifyThread thread fun th => { th with waitStatus := statusTimeout }
        else match left with
          | 0 => return s.modifyThread thread fun th =>
              { th with waitStatus := statusTimeout, state := .ready }
          | left + 1 => schedulerBlockLoop thread left s
      else some s

/-- The caller becomes the current thread again, `scheduler.c:475–478`. -/
def restoreCurrent (s : WboxScheduler) (thread : Ptr) : WboxScheduler :=
  if s.currentThread ≠ some thread then { s with currentThread := some thread } else s

/-- `scheduler_block_thread` after the loop, `scheduler.c:471–487`. -/
def schedulerBlockReturn (s : WboxScheduler) (thread : Ptr) :
    Option (WboxScheduler × UInt32) := do
  let s ← schedulerRemoveReady (restoreCurrent s thread) thread
  let s := { s.setState thread .running with idle := false }
  return (s, (s.threads thread).waitStatus)

/-- `scheduler_block_thread` from the loop on. -/
def schedulerBlockFinish (s : WboxScheduler) (thread : Ptr) :
    Option (WboxScheduler × UInt32) := do
  let s ← schedulerBlockLoop thread 100 s
  schedulerBlockReturn s thread

/-- What the entry tests of `scheduler_block_thread` decide: return at once, or wait. -/
inductive BlockEntry where
  | done (s : WboxScheduler) (status : UInt32)
  | wait (thread : Ptr)

/-- The entry tests of `scheduler_block_thread`, `scheduler.c:345–390`. -/
def schedulerBlockEntry (s : WboxScheduler) (objects : List (Option Ptr)) (waitType : WaitType)
    (timeout : UInt64) : BlockEntry :=
  match s.currentThread with
  | none => .done s statusInvalidParameter
  | some thread =>
      if objects.length > threadWaitObjects then .done s statusInvalidParameter
      else match satisfyNow s.objects (s.threads thread).threadId waitType objects with
        | some (objs, status) => .done { s with objects := objs } status
        | none => if timeout = 0 then .done s statusTimeout else .wait thread

/-- `scheduler_block_thread`, `scheduler.c:340–487`. The argument `types` is not read. -/
def schedulerBlockThread (s : WboxScheduler) (objects : List (Option Ptr)) (waitType : WaitType)
    (timeout : UInt64) (alertable : Bool) : Option (WboxScheduler × UInt32) :=
  match schedulerBlockEntry s objects waitType timeout with
  | .done s status => some (s, status)
  | .wait thread =>
      schedulerBlockFinish (schedulerBlockEnter s thread objects waitType timeout alertable) thread

/-- The status a waiter is woken with, if its wait is satisfied, `scheduler.c:514–543`. -/
def wakeStatus (s : WboxScheduler) (object : Ptr) (wb : WbPtr) (thread : Ptr) : Option UInt32 :=
  match (s.threads thread).waitType with
  | .any =>
      if syncIsSignaled (s.objects object) (s.threads thread).threadId then
        some (statusWait0 + UInt32.ofNat (s.block wb).waitKey)
      else none
  | .all =>
      if allSignaled s.objects (s.threads thread).threadId (s.waitObjects thread) then
        some statusWait0
      else none

/-- The objects a woken thread consumes, `scheduler.c:546–556`. -/
def consumeWait (s : WboxScheduler) (object : Ptr) (thread : Ptr) : Ptr → SyncObject :=
  match (s.threads thread).waitType with
  | .any => satisfyAll s.objects (s.threads thread).threadId [some object]
  | .all => satisfyAll s.objects (s.threads thread).threadId (s.waitObjects thread)

/-- Satisfy, unlink and wake one waiter, `scheduler.c:545–579`. -/
def wakeThread (s : WboxScheduler) (object : Ptr) (thread : Ptr) (status : UInt32) :
    Option WboxScheduler := do
  let s := { s with objects := consumeWait s object thread }
  let s ← unlinkWaitBlocks s thread
  let s := s.modifyThread thread fun th =>
    { th with
      waitStatus := status
      context := { th.context with eax := status }
      waitCount := 0
      waitTimeout := 0
      state := .ready }
  return schedulerAddReady s thread

/-- The early stop after a wake, `scheduler.c:581–589`: an auto-reset event or a semaphore
that is no longer signaled. -/
def signalExhausted (obj : SyncObject) : Bool :=
  decide (obj.type = .eventSynchronization ∨ obj.type = .semaphore) && !syncIsSignaled obj 0

/-- The loop of `scheduler_signal_object` from a node of the wait list. -/
def signalFrom (object : Ptr) : Nat → Option WbPtr → WboxScheduler → Option WboxScheduler
  | _, none, s => some s
  | 0, some _, _ => none
  | n + 1, some wb, s =>
      let next := s.blockLink wb
      match (s.block wb).thread with
      | none => signalFrom object n next s
      | some thread =>
          if (s.threads thread).state ≠ .waiting then signalFrom object n next s
          else match wakeStatus s object wb thread with
            | none => signalFrom object n next s
            | some status => do
                let s ← wakeThread s object thread status
                if signalExhausted (s.objects object) then return s
                else signalFrom object n next s

/-- `scheduler_signal_object`, `scheduler.c:489–599`, on a non-null object. -/
def schedulerSignalObject (s : WboxScheduler) (object : Ptr) (type : HandleType) :
    Option WboxScheduler :=
  if syncGetHeader type then signalFrom object s.blockSteps (s.objects object).waitList s
  else some s

end Wbox.Thread
