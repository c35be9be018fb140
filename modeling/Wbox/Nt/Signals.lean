import Mathlib.Algebra.Ring.Int.Defs
import Mathlib.Algebra.Ring.Nat
import Wbox.Nt.WaitSyscalls
import Wbox.Thread.Machine
import Wbox.Thread.Wakeup

/-!
# Setting events and releasing semaphores

`NtSetEvent` and `NtReleaseSemaphore` of `src/nt/ntdll.c`: the new state of the object, and
the threads the call wakes. The count of a semaphore is a 32-bit `int`, and the test against
its limit adds before it compares.
-/

namespace Wbox.Nt

open Wbox.Thread Wbox.Vm

/-- `STATUS_SEMAPHORE_LIMIT_EXCEEDED`. -/
def statusSemaphoreLimitExceeded : UInt32 := 0xC0000045

/-- How a call ends in the syscall layer: with a status, or in a call of
`scheduler_signal_object` after which it returns `STATUS_SUCCESS`. -/
inductive SignalCall where
  | ret (vm : VmContext) (status : UInt32)
  | signal (vm : VmContext) (object : Ptr) (type : HandleType)

/-- The state and the status when the call returns. -/
def SignalCall.run : SignalCall → Option (VmContext × UInt32)
  | .ret vm status => some (vm, status)
  | .signal vm object type =>
      (schedulerSignalObject vm.sched object type).map fun s =>
        ({ vm with sched := s }, statusWait0)

/-- Store a word through an optional pointer of the guest. -/
def VmContext.writeOut (vm : VmContext) (ptr val : UInt32) : VmContext :=
  if ptr = 0 then vm
  else
    let phys := pagingGetPhys vm.mem vm.paging ptr
    if phys = 0 then vm else { vm with mem := memWritelPhys vm.mem phys val }

/-- `obj->header.signal_state = v`. -/
def VmContext.setSignalState (vm : VmContext) (o : Ptr) (v : Int) : VmContext :=
  { vm with sched := vm.sched.modifyObject o fun obj => { obj with signalState := v } }

/-- `scheduler_signal_object` if there is a scheduler. -/
def signalOrReturn (vm : VmContext) (object : Ptr) (type : HandleType) : SignalCall :=
  if vm.hasScheduler then .signal vm object type else .ret vm statusWait0

/-- `NtSetEvent`, `ntdll.c:425–468`. -/
def ntSetEvent (vm : VmContext) (eventHandle prevStatePtr : UInt32) : SignalCall :=
  match handlesGet vm.handles eventHandle with
  | none => .ret vm statusInvalidHandle
  | some entry =>
      if entry.type ≠ .event then .ret vm statusInvalidHandle
      else match entry.objectData with
        | none => .ret vm statusWait0
        | some event =>
            let prev := (vm.sched.objects event).signalState
            let vm := vm.setSignalState event 1
            let vm := vm.writeOut prevStatePtr (UInt32.ofInt prev)
            signalOrReturn vm event .event

/-- The object of `NtReleaseSemaphore`, `ntdll.c:1178–1184`. -/
def semaphoreObject (vm : VmContext) (handle : UInt32) : Option Ptr :=
  match handlesGet vm.handles handle with
  | none => none
  | some entry => if entry.type ≠ .semaphore then none else entry.objectData

/-- `NtReleaseSemaphore`, `ntdll.c:1156–1213`. -/
def ntReleaseSemaphore (vm : VmContext) (handle releaseCount prevCountPtr : UInt32) :
    SignalCall :=
  let releaseCount := releaseCount.toInt32.toInt
  if releaseCount ≤ 0 then .ret vm statusInvalidParameter
  else match semaphoreObject vm handle with
    | none => .ret vm statusInvalidHandle
    | some sem =>
        let previous := (vm.sched.objects sem).signalState
        if toInt32 (previous + releaseCount) > (vm.sched.objects sem).limit then
          .ret vm statusSemaphoreLimitExceeded
        else
          let vm := vm.writeOut prevCountPtr (UInt32.ofInt previous)
          let vm := vm.setSignalState sem (toInt32 (previous + releaseCount))
          signalOrReturn vm sem .semaphore

/-- The arguments of either call. -/
inductive SignalArgs where
  | setEvent (eventHandle prevStatePtr : UInt32)
  | releaseSemaphore (handle releaseCount prevCountPtr : UInt32)
  deriving DecidableEq, Repr

/-- Either call. -/
def ntSignal (vm : VmContext) : SignalArgs → SignalCall
  | .setEvent eventHandle prevStatePtr => ntSetEvent vm eventHandle prevStatePtr
  | .releaseSemaphore handle releaseCount prevCountPtr =>
      ntReleaseSemaphore vm handle releaseCount prevCountPtr

variable {vm vm' : VmContext} {args : SignalArgs} {o : Ptr} {type : HandleType}

@[simp] theorem VmContext.writeOut_sched (vm : VmContext) (ptr val : UInt32) :
    (vm.writeOut ptr val).sched = vm.sched := by
  unfold VmContext.writeOut
  split
  · rfl
  · dsimp only
    split
    · rfl
    · rfl

/-- A sum that fits is not changed by the wrap-around. -/
theorem toInt32_of_lt {x : Int} (h0 : 0 ≤ x) (h : x < 2 ^ 31) : toInt32 x = x := by
  unfold toInt32
  rw [Int.bmod_eq_of_le]
  · omega
  · omega

/-- A sum of two counts that does not fit wraps to a negative count. -/
theorem toInt32_neg {x : Int} (h : 2 ^ 31 ≤ x) (hx : x < 2 ^ 32) : toInt32 x < 0 := by
  unfold toInt32
  rw [Int.bmod_def]
  omega

private theorem setSignalState_threads (vm : VmContext) (o : Ptr) (v : Int) :
    (vm.setSignalState o v).sched.threads = vm.sched.threads := rfl

end Wbox.Nt
