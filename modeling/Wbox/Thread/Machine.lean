import Wbox.Lib.Trace
import Wbox.Thread.Scheduler

/-!
# The system the scheduler is part of

Thread creation (`src/thread/thread.c`), the thread syscalls of `src/nt/ntdll.c`, and the
steps the host can take: guest instructions, timer ticks, the idle loop of `vm_start`
(`src/vm/vm.c:541–581`) and system calls. A call of `scheduler_block_thread` that waits is
two steps, up to its waiting loop and from there to its return, with no other step between.
-/

namespace Wbox.Thread

open Wbox.Cpu Wbox.Nt Wbox.Lib

/-- `thread_create_idle`, `src/thread/thread.c:506–544`. -/
def threadCreateIdle : WboxThread :=
  { WboxThread.zero with state := .ready, isIdleThread := true }

/-- `thread_create_main`, `src/thread/thread.c:36–80`. -/
def threadCreateMain : WboxThread :=
  { WboxThread.zero with
    threadId := wboxThreadId
    state := .running
    tebAddr := 0x7FFDF000
    quantum := threadDefaultQuantum
    quantumReset := threadDefaultQuantum }

/-- The initial registers of `thread_create`, `src/thread/thread.c:132–187`. -/
def initialContext (cpu : CpuState) (startAddress stackBase tebAddr : UInt32) : Registers :=
  let segCs := cpu.regs.segCs
  let segDs := { segCs with seg := cpu.regs.segDs.seg, base := cpu.regs.segDs.base }
  { (default : Registers) with
    eip := startAddress
    esp := stackBase - 8
    ebp := 0
    segCs := segCs
    segDs := segDs
    segEs := { segDs with seg := cpu.regs.segEs.seg }
    segSs := { segDs with seg := cpu.regs.segSs.seg }
    segFs := { segDs with seg := cpu.regs.segFs.seg, base := tebAddr }
    segGs := { segDs with seg := cpu.regs.segGs.seg }
    flags := iFlag
    eflags := 0 }

/-- `thread_create`, `src/thread/thread.c:82–205`, once the TEB at `tebAddr` and the stack with
top `stackBase` have been allocated. The structure is placed at a fresh address. -/
def threadCreate (s : WboxScheduler) (startAddress stackBase tebAddr : UInt32)
    (suspended : Bool) : WboxScheduler × Ptr :=
  let thread : WboxThread :=
    { WboxThread.zero with
      threadId := s.nextThreadId
      tebAddr := tebAddr
      contextValid := true
      context := initialContext s.cpu startAddress stackBase tebAddr
      quantum := threadDefaultQuantum
      quantumReset := threadDefaultQuantum
      state := if suspended then .initialized else .ready }
  ({ s with
      threads := Function.update s.threads s.heapNext thread
      heapNext := s.heapNext + 1
      nextThreadId := s.nextThreadId + 4 }, s.heapNext)

/-- `scheduler_init`, `src/thread/scheduler.c:52–89`: the idle thread, then the main thread,
which runs on the CPU state it finds. -/
def schedulerInit (cpu : CpuState) (clock : Nat → UInt64) : WboxScheduler where
  threads := Function.update (Function.update (fun _ => WboxThread.zero) 0 threadCreateIdle)
    1 threadCreateMain
  objects := fun _ => { type := .unknown, signalState := 0, waitList := none }
  heapNext := 2
  allThreads := some 1
  currentThread := some 1
  idleThread := 0
  readyHead := none
  readyTail := none
  nextThreadId := wboxThreadId + 4
  tickCount := 0
  contextSwitches := 0
  idle := false
  preemptionPending := false
  timeOffset := 0
  cpu := cpu
  cpuExitRequested := false
  clock := clock
  clockReads := 0

/-- Switch away if the thread is the current one, `src/nt/ntdll.c:1623–1626`, `1787–1790`. -/
def switchIfCurrent (s : WboxScheduler) (thread : Ptr) : WboxScheduler :=
  if s.currentThread = some thread then schedulerSwitch s else s

/-- `NtTerminateThread` on a thread, `src/nt/ntdll.c:1616–1626`. -/
def ntTerminateThread (s : WboxScheduler) (thread : Ptr) (exitStatus : UInt32) :
    Option WboxScheduler :=
  (schedulerRemoveThread (threadTerminate s thread exitStatus) thread).map fun s =>
    switchIfCurrent s thread

/-- `NtResumeThread` on a thread, `src/nt/ntdll.c:1733–1740`. -/
def ntResumeThread (s : WboxScheduler) (thread : Ptr) : WboxScheduler :=
  if (s.threads thread).state = .initialized then
    schedulerAddReady (s.setState thread .ready) thread
  else s

/-- A READY thread leaves the queue, `src/nt/ntdll.c:1778–1780`. -/
def unqueueReady (s : WboxScheduler) (thread : Ptr) : Option WboxScheduler :=
  if (s.threads thread).state = .ready then schedulerRemoveReady s thread else some s

/-- A READY or RUNNING thread becomes INITIALIZED, `src/nt/ntdll.c:1782–1785`. -/
def parkRunnable (s : WboxScheduler) (thread : Ptr) : WboxScheduler :=
  if (s.threads thread).state = .ready ∨ (s.threads thread).state = .running then
    s.setState thread .initialized
  else s

/-- `NtSuspendThread` on a thread, `src/nt/ntdll.c:1778–1793`. -/
def ntSuspendThread (s : WboxScheduler) (thread : Ptr) : Option WboxScheduler :=
  (unqueueReady s thread).map fun s => switchIfCurrent (parkRunnable s thread) thread

/-- The scheduler, the threads that handles name, and the thread in whose
`scheduler_block_thread` the host is, if any. -/
structure Config where
  sched : WboxScheduler
  threadHandles : List Ptr
  blocked : Option Ptr

/-- The thread argument of a syscall: a handle, or `none` for the current thread. -/
abbrev ThreadArg := Option Nat

/-- Look up the thread argument; `none` is `STATUS_INVALID_HANDLE`. -/
def Config.thread? (c : Config) : ThreadArg → Option Ptr
  | none => c.sched.currentThread
  | some h => c.threadHandles[h]?

/-- Steps of the host. `exec` runs guest instructions, which may leave any CPU state.
`createObject` and `writeObject` are the syscalls that make objects and set their state. -/
inductive Event where
  | exec (cpu : CpuState)
  | tick
  | switch
  | checkTimeouts
  | blockEnter (objects : List (Option Ptr)) (waitType : WaitType) (timeout : UInt64)
      (alertable : Bool)
  | blockFinish
  | signal (object : Ptr) (type : HandleType)
  | createThread (startAddress stackBase tebAddr : UInt32) (suspended : Bool)
  | removeThread (thread : ThreadArg)
  | terminateThread (thread : ThreadArg) (exitStatus : UInt32)
  | suspendThread (handle : Nat)
  | resumeThread (handle : Nat)
  | createObject (obj : SyncObject)
  | writeObject (object : Ptr) (obj : SyncObject)

/-- The configuration in which the host has a new scheduler state. -/
def Config.withSched (c : Config) (s : WboxScheduler) : Config := { c with sched := s }

/-- A step outside `scheduler_block_thread`'s waiting loop. Guest instructions run only
while a guest thread is current. -/
def Config.stepIdle (c : Config) : Event → Option Config
  | .exec cpu =>
      match c.sched.currentThread with
      | some t =>
          if t = c.sched.idleThread then none
          else some (c.withSched { c.sched with cpu := cpu })
      | none => none
  | .tick => some (c.withSched (schedulerTick c.sched))
  | .switch => some (c.withSched (schedulerSwitch c.sched))
  | .checkTimeouts => (schedulerCheckTimeouts c.sched).map c.withSched
  | .blockEnter objects waitType timeout alertable =>
      match schedulerBlockEntry c.sched objects waitType timeout with
      | .done s _ => some (c.withSched s)
      | .wait thread =>
          some { c with
            sched := schedulerBlockEnter c.sched thread objects waitType timeout alertable
            blocked := some thread }
  | .blockFinish => none
  | .signal object type => (schedulerSignalObject c.sched object type).map c.withSched
  | .createThread start stack teb suspended =>
      let (s, thread) := threadCreate c.sched start stack teb suspended
      some { c with
        sched := schedulerAddThread s thread
        threadHandles := c.threadHandles ++ [thread] }
  | .removeThread arg =>
      match c.thread? arg with
      | none => some c
      | some thread => (schedulerRemoveThread c.sched thread).map c.withSched
  | .terminateThread arg exitStatus =>
      match c.thread? arg with
      | none => some c
      | some thread => (ntTerminateThread c.sched thread exitStatus).map c.withSched
  | .suspendThread handle =>
      match c.thread? (some handle) with
      | none => some c
      | some thread => (ntSuspendThread c.sched thread).map c.withSched
  | .resumeThread handle =>
      match c.thread? (some handle) with
      | none => some c
      | some thread => some (c.withSched (ntResumeThread c.sched thread))
  | .createObject obj =>
      some (c.withSched { c.sched with
        objects := Function.update c.sched.objects c.sched.heapNext { obj with waitList := none }
        heapNext := c.sched.heapNext + 1 })
  | .writeObject object obj =>
      some (c.withSched (c.sched.modifyObject object fun old =>
        { obj with waitList := old.waitList }))

/-- A step of the host: inside the waiting loop only the rest of the call can follow. -/
def Config.step (c : Config) (e : Event) : Option Config :=
  match c.blocked with
  | none => c.stepIdle e
  | some thread =>
      match e with
      | .blockFinish =>
          (schedulerBlockFinish c.sched thread).map fun r =>
            { c with sched := r.1, blocked := none }
      | _ => none

/-- The configuration after `scheduler_init`. -/
def boot (cpu : CpuState) (clock : Nat → UInt64) : Config :=
  { sched := schedulerInit cpu clock, threadHandles := [], blocked := none }

/-- A second thread, an event nobody sets, and a wait of the main thread on it that times
out. The second thread sleeps (`suspended`) or is ready to run meanwhile. -/
def waitRun (suspended : Bool) : List Event :=
  [.createThread 0x401000 0x800000 0x7FFDE000 suspended,
    .createObject { type := .eventNotification, signalState := 0, waitList := none },
    .blockEnter [some 3] .any 5 false, .blockFinish]

end Wbox.Thread
