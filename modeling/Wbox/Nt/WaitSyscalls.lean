import Wbox.Nt.Handles
import Wbox.Thread.Scheduler
import Wbox.Vm.Memory

/-!
# The wait system calls

`NtWaitForSingleObject` and `NtWaitForMultipleObjects` of `src/nt/ntdll.c`: what the
syscall layer decides itself, and the call of `scheduler_block_thread` it makes otherwise.
-/

namespace Wbox.Nt

open Wbox.Thread Wbox.Vm

/-- `STATUS_INVALID_HANDLE`. -/
def statusInvalidHandle : UInt32 := 0xC0000008

/-- `STATUS_OBJECT_TYPE_MISMATCH`. -/
def statusObjectTypeMismatch : UInt32 := 0xC0000024

/-- `vm_context_t`, the parts the system calls use. `hasScheduler` tells whether
`vm->scheduler` is set; the host memory of the objects is part of `sched` in any case. -/
structure VmContext where
  mem : PhysMem
  paging : PagingContext
  handles : HandleTable
  sched : WboxScheduler
  hasScheduler : Bool

/-- The arguments of a wait call, as `nt_read_arg` reads them. -/
inductive WaitArgs where
  | single (handle alertable timeoutPtr : UInt32)
  | multiple (count handlesPtr waitType alertable timeoutPtr : UInt32)
  deriving DecidableEq, Repr

/-- How a wait call ends in the syscall layer: with a status, or in a call of
`scheduler_block_thread` with these arguments. -/
inductive WaitCall where
  | ret (s : WboxScheduler) (status : UInt32)
  | block (s : WboxScheduler) (objects : List (Option Ptr)) (waitType : WaitType)
      (timeout : UInt64) (alertable : Bool)

/-- The scheduler state and the status when the call returns. -/
def WaitCall.run : WaitCall → Option (WboxScheduler × UInt32)
  | .ret s status => some (s, status)
  | .block s objects waitType timeout alertable =>
      schedulerBlockThread s objects waitType timeout alertable

/-- `thread_get_current_id`, `src/thread/thread.c:489–496`. -/
def threadGetCurrentId (vm : VmContext) : UInt32 :=
  if vm.hasScheduler then
    match vm.sched.currentThread with
    | some t => (vm.sched.threads t).threadId
    | none => wboxThreadId
  else wboxThreadId

/-- The timeout a pointer leads to, `ntdll.c:273–283`, `344–354`; `none` leaves `has_timeout`
false. -/
def readTimeout (vm : VmContext) (timeoutPtr : UInt32) : Option Int64 :=
  if timeoutPtr = 0 then none
  else
    let phys := pagingGetPhys vm.mem vm.paging timeoutPtr
    if phys = 0 then none
    else some ((memReadlPhys vm.mem phys).toUInt64 |||
      (memReadlPhys vm.mem (phys + 4)).toUInt64 <<< 32).toInt64

/-- The deadline handed to the scheduler, `ntdll.c:294–304`, `404–410`. Only a relative
timeout reads the clock. The negation of the least value is that of two's complement. -/
def absTimeout (s : WboxScheduler) (timeout : Option Int64) : UInt64 × WboxScheduler :=
  match timeout with
  | none => (0, s)
  | some t =>
      if t < 0 then
        let (now, s) := schedulerGetTime100ns s
        (now + (-t).toUInt64, s)
      else (t.toUInt64, s)

/-- The deadline a timeout gives, and the state after the clock has been read for it. -/
theorem absTimeout_eq (s : WboxScheduler) (timeout : Option Int64) : ∃ reads,
    absTimeout s timeout = ((absTimeout s timeout).1, { s with clockReads := reads }) := by
  cases timeout with
  | none => exact ⟨s.clockReads, rfl⟩
  | some t =>
    by_cases ht : t < 0
    · refine ⟨s.clockReads + 1, ?_⟩
      simp [absTimeout, ht, schedulerGetTime100ns]
    · refine ⟨s.clockReads, ?_⟩
      simp [absTimeout, ht]

/-- The end both calls share, `ntdll.c:285–316`, `396–421`: poll, or block on the scheduler. -/
def pollOrBlock (vm : VmContext) (objects : List (Option Ptr)) (waitType : WaitType)
    (timeout : Option Int64) (alertable : UInt32) : WaitCall :=
  if timeout = some 0 then .ret vm.sched statusTimeout
  else if vm.hasScheduler then
    let (deadline, s) := absTimeout vm.sched timeout
    .block s objects waitType deadline (decide (alertable ≠ 0))
  else .ret vm.sched statusTimeout

/-- The object of `NtWaitForSingleObject`, or the status to return without one,
`ntdll.c:241–263`. -/
def singleObject (vm : VmContext) (handle : UInt32) : Except UInt32 Ptr :=
  match handlesGet vm.handles handle with
  | none => .error statusInvalidHandle
  | some entry =>
      if entry.type ≠ .event ∧ entry.type ≠ .semaphore ∧ entry.type ≠ .mutex then
        .error statusObjectTypeMismatch
      else match entry.objectData with
        | none => .error statusWait0
        | some obj => .ok obj

/-- `NtWaitForSingleObject`, `ntdll.c:229–317`. -/
def ntWaitForSingleObject (vm : VmContext) (handle alertable timeoutPtr : UInt32) : WaitCall :=
  match singleObject vm handle with
  | .error status => .ret vm.sched status
  | .ok obj =>
      let s := vm.sched
      let id := threadGetCurrentId vm
      if syncIsSignaled (s.objects obj) id then
        .ret (s.modifyObject obj fun o => syncSatisfyWait o id) statusWait0
      else pollOrBlock vm [some obj] .any (readTimeout vm timeoutPtr) alertable

/-- The object a handle of the array names; a bad handle names none, `ntdll.c:359–369`. -/
def arrayObject (vm : VmContext) (handle : UInt32) : Option Ptr :=
  (handlesGet vm.handles handle).bind HandleEntry.objectData

/-- The objects of `NtWaitForMultipleObjects`, or the status to return, `ntdll.c:331–369`. -/
def multipleObjects (vm : VmContext) (count handlesPtr : UInt32) :
    Except UInt32 (List (Option Ptr)) :=
  if count = 0 ∨ count > 64 ∨ handlesPtr = 0 then .error statusInvalidParameter
  else
    let phys := pagingGetPhys vm.mem vm.paging handlesPtr
    if phys = 0 then .error statusInvalidParameter
    else .ok ((List.range count.toNat).map fun i =>
      arrayObject vm (memReadlPhys vm.mem (phys + UInt32.ofNat i * 4)))

/-- The reading of `WaitType` in the test for immediate satisfaction, `ntdll.c:372`. -/
def immediateType (waitType : UInt32) : WaitType := if waitType = 1 then .any else .all

/-- The reading of `WaitType` in the call of the scheduler, `ntdll.c:413`. -/
def blockType (waitType : UInt32) : WaitType := if waitType = 0 then .all else .any

/-- `NtWaitForMultipleObjects`, `ntdll.c:319–423`. -/
def ntWaitForMultipleObjects (vm : VmContext)
    (count handlesPtr waitType alertable timeoutPtr : UInt32) : WaitCall :=
  match multipleObjects vm count handlesPtr with
  | .error status => .ret vm.sched status
  | .ok objects =>
      let s := vm.sched
      match satisfyNow s.objects (threadGetCurrentId vm) (immediateType waitType) objects with
      | some (objs, status) => .ret { s with objects := objs } status
      | none =>
          pollOrBlock vm objects (blockType waitType) (readTimeout vm timeoutPtr) alertable

/-- Either wait call. -/
def ntWait (vm : VmContext) : WaitArgs → WaitCall
  | .single handle alertable timeoutPtr =>
      ntWaitForSingleObject vm handle alertable timeoutPtr
  | .multiple count handlesPtr waitType alertable timeoutPtr =>
      ntWaitForMultipleObjects vm count handlesPtr waitType alertable timeoutPtr

/-- The pointer to the timeout. -/
def WaitArgs.timeoutPtr : WaitArgs → UInt32
  | .single _ _ timeoutPtr => timeoutPtr
  | .multiple _ _ _ _ timeoutPtr => timeoutPtr

/-- The objects a call with valid arguments waits for. -/
def WaitArgs.objects (vm : VmContext) : WaitArgs → Option (List (Option Ptr))
  | .single handle _ _ => (singleObject vm handle).toOption.map fun obj => [some obj]
  | .multiple count handlesPtr _ _ _ => (multipleObjects vm count handlesPtr).toOption

/-- The wait types by which the objects are tested, in the syscall layer and by the
scheduler. -/
def WaitArgs.waitTypes : WaitArgs → List WaitType
  | .single _ _ _ => [.any]
  | .multiple _ _ waitType _ _ => [immediateType waitType, blockType waitType]

end Wbox.Nt
