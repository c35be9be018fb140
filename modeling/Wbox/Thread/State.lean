import Mathlib.Logic.Function.Basic
import Wbox.Cpu.Context
import Wbox.Lib.Chain
import Wbox.Nt.Sync

/-!
# Thread and scheduler records

`src/thread/thread.h` and `src/thread/scheduler.h`. Host memory is one address space:
`threads` and `objects` are the structures found at an address, and `heapNext` is the
first address that has not been handed out. The host clock and the CPU are part of the
state, since the scheduler reads the one and switches the other.
-/

namespace Wbox.Thread

open Wbox.Cpu Wbox.Nt Wbox.Lib

/-- `wbox_thread_state_t`, `src/thread/thread.h:18–24`. -/
inductive ThreadState where
  | initialized
  | ready
  | running
  | waiting
  | terminated
  deriving DecidableEq, Repr

/-- `wbox_wait_type_t`, `src/thread/thread.h:29–32`. -/
inductive WaitType where
  | all
  | any
  deriving DecidableEq, Repr

/-- `wbox_wait_block_t`, `src/thread/thread.h:82–87`. -/
structure WaitBlock where
  thread : Option Ptr
  object : Option Ptr
  next : Option WbPtr
  waitKey : Nat
  deriving DecidableEq, Repr

/-- `THREAD_WAIT_OBJECTS`. -/
def threadWaitObjects : Nat := 64

/-- `THREAD_DEFAULT_QUANTUM`. -/
def threadDefaultQuantum : UInt8 := 6

/-- `WBOX_THREAD_ID`. -/
def wboxThreadId : UInt32 := 0x1004

/-- `I_FLAG`, the interrupt flag a new thread starts with. -/
def iFlag : UInt16 := 0x0200

/-- `wbox_thread_t`, `src/thread/thread.h:104–153`: the fields the scheduler uses. -/
structure WboxThread where
  threadId : UInt32
  state : ThreadState
  context : Registers
  contextValid : Bool
  tebAddr : UInt32
  waitStatus : UInt32
  waitTimeout : UInt64
  waitBlocks : Nat → WaitBlock
  waitCount : Nat
  waitType : WaitType
  alertable : Bool
  quantum : UInt8
  quantumReset : UInt8
  exitCode : UInt32
  terminated : Bool
  isIdleThread : Bool
  next : Option Ptr
  readyNext : Option Ptr

/-- A wait block as `calloc` leaves it. -/
def WaitBlock.zero : WaitBlock := ⟨none, none, none, 0⟩

/-- A thread structure as `calloc` leaves it. -/
def WboxThread.zero : WboxThread where
  threadId := 0
  state := .initialized
  context := default
  contextValid := false
  tebAddr := 0
  waitStatus := 0
  waitTimeout := 0
  waitBlocks := fun _ => WaitBlock.zero
  waitCount := 0
  waitType := .all
  alertable := false
  quantum := 0
  quantumReset := 0
  exitCode := 0
  terminated := false
  isIdleThread := false
  next := none
  readyNext := none

/-- `wbox_scheduler_t`, `src/thread/scheduler.h:19–42`, with the memory, CPU and clock it
works on. `clock n` is the `n`-th reading of `CLOCK_MONOTONIC` in 100 ns units;
`nextThreadId` is the static counter of `src/thread/thread.c`. -/
structure WboxScheduler where
  threads : Ptr → WboxThread
  objects : Ptr → SyncObject
  heapNext : Nat
  allThreads : Option Ptr
  currentThread : Option Ptr
  idleThread : Ptr
  readyHead : Option Ptr
  readyTail : Option Ptr
  nextThreadId : UInt32
  tickCount : UInt64
  contextSwitches : UInt32
  idle : Bool
  preemptionPending : Bool
  timeOffset : UInt64
  cpu : CpuState
  cpuExitRequested : Bool
  clock : Nat → UInt64
  clockReads : Nat

namespace WboxScheduler

/-- Update the thread structure at an address. -/
def modifyThread (s : WboxScheduler) (t : Ptr) (f : WboxThread → WboxThread) : WboxScheduler :=
  { s with threads := Function.update s.threads t (f (s.threads t)) }

/-- Update the synchronization object at an address. -/
def modifyObject (s : WboxScheduler) (o : Ptr) (f : SyncObject → SyncObject) : WboxScheduler :=
  { s with objects := Function.update s.objects o (f (s.objects o)) }

/-- The wait block a pointer names. -/
def block (s : WboxScheduler) (wb : WbPtr) : WaitBlock := (s.threads wb.thread).waitBlocks wb.index

/-- `thread->state = state`. -/
def setState (s : WboxScheduler) (t : Ptr) (state : ThreadState) : WboxScheduler :=
  s.modifyThread t fun th => { th with state := state }

/-- `thread->ready_next = v`. -/
def setReadyNext (s : WboxScheduler) (t : Ptr) (v : Option Ptr) : WboxScheduler :=
  s.modifyThread t fun th => { th with readyNext := v }

/-- `thread->next = v`. -/
def setNext (s : WboxScheduler) (t : Ptr) (v : Option Ptr) : WboxScheduler :=
  s.modifyThread t fun th => { th with next := v }

/-- `wb->next = v`. -/
def setBlockNext (s : WboxScheduler) (wb : WbPtr) (v : Option WbPtr) : WboxScheduler :=
  s.modifyThread wb.thread fun th =>
    let wait := { th.waitBlocks wb.index with next := v }
    { th with waitBlocks := Function.update th.waitBlocks wb.index wait }

/-- `object->header.wait_list = v`. -/
def setWaitList (s : WboxScheduler) (o : Ptr) (v : Option WbPtr) : WboxScheduler :=
  s.modifyObject o fun obj => { obj with waitList := v }

/-- Links of the ready queue. -/
def readyLink (s : WboxScheduler) : Ptr → Option Ptr := fun t => (s.threads t).readyNext

/-- Links of the list of all threads. -/
def threadLink (s : WboxScheduler) : Ptr → Option Ptr := fun t => (s.threads t).next

/-- Links of the wait lists. -/
def blockLink (s : WboxScheduler) : WbPtr → Option WbPtr := fun wb => (s.block wb).next

/-- A list of threads has at most as many nodes as there are addresses handed out. A walk
that takes more steps has gone round a cycle and does not end. -/
def threadSteps (s : WboxScheduler) : Nat := s.heapNext

/-- The same bound for lists of wait blocks. -/
def blockSteps (s : WboxScheduler) : Nat := s.heapNext * threadWaitObjects

/-- The objects of a thread's registered wait, `wait_blocks[i].object` for `i < wait_count`. -/
def waitObjects (s : WboxScheduler) (t : Ptr) : List (Option Ptr) :=
  (List.range (s.threads t).waitCount).map fun i => ((s.threads t).waitBlocks i).object

end WboxScheduler
end Wbox.Thread
