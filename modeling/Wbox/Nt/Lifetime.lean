import Wbox.Nt.Creation
import Wbox.Thread.References

/-!
# The lifetime of objects

Threads and synchronization objects are shared by the handle table, the lists of the scheduler
and the wait blocks. `handles_remove` (`src/nt/handles.c:115–131`) frees the object of the handle
it removes; nothing counts the references that are left.
-/

namespace Wbox.Nt

open Wbox.Cpu Wbox.Lib Wbox.Thread Wbox.Vm

/-- The machine, and the objects that `handles_remove` has freed. -/
structure ObjectRun where
  v : NtVm
  freed : List Ptr

/-- The system calls on objects, and what the host does between them. -/
inductive ObjectOp where
  | create (allocOk : Bool) (call : CreateCall)
  | wait (args : WaitArgs)
  | terminateThread (handle exitStatus : UInt32)
  | close (handle : UInt32)
  | exec (cpu : CpuState)
  | tick
  | switch
  | checkTimeouts

/-- The machine after the scheduler has gone on. -/
def NtVm.withSched (v : NtVm) (s : WboxScheduler) : NtVm := { v with sched := s }

/-- The thread a handle names; 0 and -1 are the current one, `ntdll.c:1599–1611`. -/
def NtVm.thread? (v : NtVm) (handle : UInt32) : Option Ptr :=
  if handle = 0 ∨ handle = 0xFFFFFFFF then
    if v.hasScheduler then v.sched.currentThread else none
  else match handlesGet v.handles handle with
    | none => none
    | some entry => if entry.type = .thread then entry.objectData else none

/-- `NtTerminateThread`, `ntdll.c:1579–1637`, without the request to leave the machine when no
thread is left. -/
def sysNtTerminateThread (v : NtVm) (handle exitStatus : UInt32) : Option NtVm :=
  match v.thread? handle with
  | none => some v
  | some thread =>
      if v.hasScheduler then (ntTerminateThread v.sched thread exitStatus).map v.withSched
      else some (v.withSched (threadTerminate v.sched thread exitStatus))

/-- One step; `none` is a call that does not return. -/
def objectStep (r : ObjectRun) : ObjectOp → Option ObjectRun
  | .create allocOk call => some { r with v := (ntCreate r.v allocOk call).v }
  | .wait args =>
      (ntWait r.v.context args).run.map fun result => { r with v := r.v.withSched result.1 }
  | .terminateThread handle exitStatus =>
      (sysNtTerminateThread r.v handle exitStatus).map fun v => { r with v := v }
  | .close handle =>
      let closed := sysNtClose r.v.handles handle
      some ⟨{ r.v with handles := closed.table }, closed.freed.toList ++ r.freed⟩
  | .exec cpu => some { r with v := r.v.withSched { r.v.sched with cpu := cpu } }
  | .tick => some { r with v := r.v.withSched (schedulerTick r.v.sched) }
  | .switch => some { r with v := r.v.withSched (schedulerSwitch r.v.sched) }
  | .checkTimeouts =>
      (schedulerCheckTimeouts r.v.sched).map fun s => { r with v := r.v.withSched s }

/-- A machine after `handles_init` and `scheduler_init`. -/
def objectStart (v : NtVm) (cpu : CpuState) (clock : Nat → UInt64) : ObjectRun where
  v := { v with handles := handlesInit, sched := schedulerInit cpu clock }
  freed := []

/-- The scheduler leads to no freed object. -/
def NoneDangling (r : ObjectRun) : Prop := ∀ p ∈ r.freed, ¬ InScheduler r.v.sched p

/-- The step is no `NtClose` of a handle whose object the scheduler leads to. -/
def ClosesUnused (r : ObjectRun) : ObjectOp → Prop
  | .close handle => ∀ p, Holds r.v.handles handle p → ¬ InScheduler r.v.sched p
  | _ => True

/-- The invariant: a freed object has no handle, an object one handle at most, and new objects
get addresses that have not been used. -/
structure ObjectsOwned (r : ObjectRun) (d : Dispatcher) : Prop where
  represents : Represents r.v.sched d
  steady : d.Steady
  dangling : NoneDangling r
  freed : ∀ p ∈ r.freed, p < d.limit
  owned : ∀ i p, (r.v.handles.entries i).objectData = some p → p < d.limit ∧ p ∉ r.freed
  single : ∀ i j p, (r.v.handles.entries i).objectData = some p →
    (r.v.handles.entries j).objectData = some p → i = j

variable {r r' : ObjectRun} {d d' : Dispatcher} {p : Ptr} {op : ObjectOp}

/-- What the scheduler leads to, in terms of the dispatcher. -/
theorem inScheduler_iff {s : WboxScheduler} (h : Represents s d) :
    InScheduler s p ↔ d.Knows p ∨ ∃ wb, s.WaitsOn wb p := by
  have hall : (∃ ts, Chain s.threadLink s.allThreads ts ∧ p ∈ ts) ↔ p ∈ d.all := by
    constructor
    · rintro ⟨ts, hc, hp⟩
      rwa [h.all.unique hc]
    · exact fun hp => ⟨d.all, h.all, hp⟩
  have hready : (∃ ts, Chain s.readyLink s.readyHead ts ∧ p ∈ ts) ↔ p ∈ d.ready := by
    constructor
    · rintro ⟨ts, hc, hp⟩
      rwa [h.ready.chain.unique hc]
    · exact fun hp => ⟨d.ready, h.ready.chain, hp⟩
  unfold InScheduler Dispatcher.Knows
  rw [hall, hready, h.current, h.idle]
  tauto

/-- The scheduler goes on. -/
theorem ObjectsOwned.moved {s' : WboxScheduler} (h : ObjectsOwned r d)
    (hm : Moved r.v.sched d s' d') : ObjectsOwned { r with v := r.v.withSched s' } d' where
  represents := hm.represents
  steady := hm.steady
  dangling := by
    intro p hp hin
    apply h.dangling p hp
    rw [inScheduler_iff h.represents]
    rcases (inScheduler_iff hm.represents).mp hin with hk | ⟨wb, hwb⟩
    · exact Or.inl (hm.known p hk)
    · exact Or.inr ⟨wb, hm.waits.waitsOn hwb⟩
  freed p hp := hm.limit ▸ h.freed p hp
  owned i p hp := hm.limit ▸ h.owned i p hp
  single := h.single

/-- A new object, which may enter the scheduler and get a handle. -/
theorem ObjectsOwned.add {v' : NtVm} (h : ObjectsOwned r d) (hr : Represents v'.sched d')
    (hs : d'.Steady) (hlimit : d'.limit = d.limit + 1)
    (hknown : ∀ p, d'.Knows p → d.Knows p ∨ p = d.limit) (hw : NoNewWaits r.v.sched v'.sched)
    (hh : v'.handles = r.v.handles ∨
      ∃ type, v'.handles = (handlesAddObject r.v.handles type (some d.limit)).1) :
    ObjectsOwned { r with v := v' } d' := by
  have hentry : ∀ i q, (v'.handles.entries i).objectData = some q →
      (r.v.handles.entries i).objectData = some q ∨ q = d.limit ∧
        ∀ j, j ≠ i → v'.handles.entries j = r.v.handles.entries j := by
    intro i q hq
    rcases hh with hh | ⟨type, hh⟩
    · exact Or.inl (hh ▸ hq)
    · rw [hh] at hq ⊢
      unfold handlesAddObject at hq ⊢
      rcases r.v.handles.insert_cases ⟨type, -1, 0, 0, some d.limit⟩ with ⟨-, he⟩ | ⟨k, hk, he⟩
      · rw [he] at hq
        exact Or.inl hq
      · rw [he] at hq ⊢
        by_cases hik : i = k
        · subst hik
          simp only [HandleTable.use, Function.update_self, Option.some.injEq] at hq
          exact Or.inr ⟨hq.symm, fun j hj => Function.update_of_ne hj _ _⟩
        · simp only [HandleTable.use, Function.update_of_ne hik] at hq
          exact Or.inl hq
  have hfresh : ∀ i, (r.v.handles.entries i).objectData ≠ some d.limit :=
    fun i hi => absurd (h.owned i _ hi).1 (Nat.lt_irrefl _)
  refine ⟨hr, hs, ?_, ?_, ?_, ?_⟩
  · intro p hp hin
    rcases (inScheduler_iff hr).mp hin with hk | ⟨wb, hwb⟩
    · rcases hknown p hk with hk | rfl
      · exact h.dangling p hp ((inScheduler_iff h.represents).mpr (Or.inl hk))
      · exact absurd (h.freed _ hp) (Nat.lt_irrefl _)
    · exact h.dangling p hp ((inScheduler_iff h.represents).mpr (Or.inr ⟨wb, hw.waitsOn hwb⟩))
  · intro p hp
    rw [hlimit]
    exact Nat.lt_succ_of_lt (h.freed p hp)
  · intro i q hq
    rw [hlimit]
    rcases hentry i q hq with hq | ⟨rfl, -⟩
    · exact ⟨Nat.lt_succ_of_lt (h.owned i q hq).1, (h.owned i q hq).2⟩
    · exact ⟨Nat.lt_succ_self _, fun hp => absurd (h.freed _ hp) (Nat.lt_irrefl _)⟩
  · intro i j q hi hj
    by_contra hij
    rcases hentry i q hi with hi' | ⟨rfl, hsame⟩
    · rcases hentry j q hj with hj' | ⟨rfl, -⟩
      · exact hij (h.single i j q hi' hj')
      · exact hfresh i hi'
    · have hj' : v'.handles.entries j = r.v.handles.entries j := hsame j (Ne.symm hij)
      exact hfresh j (hj' ▸ hj)

section Create

@[simp] theorem VmContext.writeClientId_sched (vm : VmContext) (ptr processId threadId : UInt32) :
    (vm.writeClientId ptr processId threadId).sched = vm.sched := by
  unfold VmContext.writeClientId
  split
  · rfl
  · dsimp only
    split <;> rfl

/-- A new object takes the next address. -/
theorem represents_allocObject {c : VmContext} (h : Represents c.sched d) (obj : SyncObject) :
    Represents (c.allocObject obj).sched (d.allocate 1) :=
  ⟨h.all, ⟨h.ready.chain, h.ready.tail⟩, h.current, h.idle, h.state, congrArg (· + 1) h.limit⟩

/-- A synchronization object the scheduler does not know. -/
theorem ObjectsOwned.addObject {v' : NtVm} (h : ObjectsOwned r d) (obj : SyncObject)
    (hsched : v'.sched = (r.v.context.allocObject obj).sched)
    (hh : v'.handles = r.v.handles ∨
      ∃ type, v'.handles = (handlesAddObject r.v.handles type (some d.limit)).1) :
    ∃ d', ObjectsOwned { r with v := v' } d' := by
  have hr : Represents v'.sched (d.allocate 1) := by
    rw [hsched]
    exact represents_allocObject h.represents obj
  have hw : NoNewWaits r.v.sched v'.sched := by
    rw [hsched]
    exact .of_threads rfl
  exact ⟨_, h.add hr (h.steady.allocate 1) rfl (fun _ hp => Or.inl hp) hw hh⟩

/-- The creation of a synchronization object makes none, or makes it and puts it in the table. -/
theorem createObject_effect (failed : UInt32 → Bool) (v : NtVm) (allocOk : Bool)
    (type : HandleType) (obj : SyncObject) (handlePtr : UInt32) :
    (createObject failed v allocOk type obj handlePtr).v = v ∨
      (createObject failed v allocOk type obj handlePtr).v.sched =
          (v.context.allocObject obj).sched ∧
        ((createObject failed v allocOk type obj handlePtr).v.handles = v.handles ∨
          (createObject failed v allocOk type obj handlePtr).v.handles =
            (handlesAddObject v.handles type (some v.sched.heapNext)).1) := by
  unfold Wbox.Nt.createObject
  split
  · exact Or.inl rfl
  · right
    dsimp only
    split
    · exact ⟨rfl, Or.inl rfl⟩
    · refine ⟨?_, Or.inr ?_⟩
      · simp only [NtVm.withContext, VmContext.writeOut_sched]
      · simp only [NtVm.withContext, VmContext.writeOut_handles]
        rfl

theorem ObjectsOwned.createObject (h : ObjectsOwned r d) (failed : UInt32 → Bool)
    (allocOk : Bool) (type : HandleType) (obj : SyncObject) (handlePtr : UInt32) :
    ∃ d', ObjectsOwned
      { r with v := (createObject failed r.v allocOk type obj handlePtr).v } d' := by
  rcases createObject_effect failed r.v allocOk type obj handlePtr with hsame | ⟨hsched, hhandles⟩
  · rw [hsame]
    exact ⟨d, h⟩
  · apply h.addObject obj hsched
    rw [← h.represents.limit]
    exact hhandles.imp_right fun hadd => ⟨type, hadd⟩

/-- `NtCreateThread` makes no thread, or puts a new one in the table and, with a scheduler, in its
lists. -/
theorem ntCreateThread_effect (v : NtVm) (allocOk : Bool) (args : NtCreateThreadArgs) :
    (∃ id, (ntCreateThread v allocOk args).object = none ∧
        (ntCreateThread v allocOk args).v.handles = v.handles ∧
        (ntCreateThread v allocOk args).v.sched = { v.sched with nextThreadId := id }) ∨
      ∃ start stackBase tebAddr suspended,
        (ntCreateThread v allocOk args).v.handles =
          (handlesAddObject v.handles .thread (some v.sched.heapNext)).1 ∧
        (ntCreateThread v allocOk args).v.sched =
          if v.hasScheduler then
            schedulerAddThread (threadCreate v.sched start stackBase tebAddr suspended).1
              v.sched.heapNext
          else (threadCreate v.sched start stackBase tebAddr suspended).1 := by
  rcases hstart : readStart v args.contextPtr with ⟨start, parameter⟩
  by_cases hzero : start = 0
  · left
    have hfails : ntCreateThread v allocOk args = .fail v statusInvalidParameter := by
      unfold ntCreateThread
      simp only [hstart, hzero, if_true]
    rw [hfails]
    exact ⟨v.sched.nextThreadId, rfl, rfl, rfl⟩
  rcases hmade : threadCreateVm v.toThreadVm allocOk start parameter 0
      (decide (args.createSuspended ≠ 0)) with ⟨w, _ | ⟨thread, memory⟩⟩
  · left
    have hfails : ntCreateThread v allocOk args =
        .fail { v with toThreadVm := w } statusInsufficientResources := by
      unfold ntCreateThread
      simp only [hstart, hzero, if_false, hmade]
    obtain ⟨id, hsched⟩ := threadCreateVm_none (congrArg Prod.snd hmade)
    rw [hmade] at hsched
    rw [hfails]
    exact ⟨id, rfl, rfl, hsched⟩
  · right
    obtain ⟨hsched, hthread⟩ := threadCreateVm_made hmade
    have htype : HandleType.thread ≠ .none := by decide
    have htest := isInvalidHandle_added v.handles htype thread
    refine ⟨start, memory.stackBase, memory.tebAddr, decide (args.createSuspended ≠ 0), ?_, ?_⟩
    · unfold ntCreateThread
      simp only [hstart, hzero, if_false, hmade, NtVm.schedule_handles, htest, Bool.false_eq_true]
      simp [NtVm.withContext, hthread]
    · rw [← hsched, ← hthread]
      unfold ntCreateThread
      simp only [hstart, hzero, if_false, hmade, NtVm.schedule_handles, htest, Bool.false_eq_true]
      simp only [NtVm.withContext, VmContext.writeClientId_sched, VmContext.writeOut_sched,
        NtVm.context, NtVm.schedule]
      split <;> rfl

/-- `NtCreateThread`. -/
theorem ObjectsOwned.createThread (h : ObjectsOwned r d) (allocOk : Bool)
    (args : NtCreateThreadArgs) :
    ∃ d', ObjectsOwned { r with v := (ntCreateThread r.v allocOk args).v } d' := by
  rcases ntCreateThread_effect r.v allocOk args with ⟨id, -, hhandles, hsched⟩ |
    ⟨start, stackBase, tebAddr, suspended, hhandles, hsched⟩
  · have hmoved : Moved r.v.sched d (ntCreateThread r.v allocOk args).v.sched d := by
      rw [hsched]
      have hsame : SameOutline r.v.sched { r.v.sched with nextThreadId := id } :=
        ⟨fun _ => rfl, fun _ => rfl, fun _ => rfl, rfl, rfl, rfl, rfl, rfl, rfl⟩
      exact .of_same h.represents h.steady hsame (.of_threads rfl)
    obtain ⟨hrep, hsteady, hdangling, hfreed, howned, hsingle⟩ := h.moved hmoved
    refine ⟨d, hrep, hsteady, hdangling, hfreed, ?_, ?_⟩
    · rw [hhandles]
      exact howned
    · rw [hhandles]
      exact hsingle
  · rw [h.represents.limit] at hhandles
    have hobject : ∃ type, (ntCreateThread r.v allocOk args).v.handles =
        (handlesAddObject r.v.handles type (some d.limit)).1 := ⟨.thread, hhandles⟩
    have hnew := NoNewWaits.threadCreate r.v.sched start stackBase tebAddr suspended
    cases hhas : r.v.hasScheduler with
    | true =>
      rw [hhas, if_pos rfl] at hsched
      obtain ⟨d', hr, hs, hlimit, -, hknown⟩ := created_addThread h.represents h.steady start
        stackBase tebAddr suspended
      rw [← hsched] at hr
      refine ⟨d', h.add hr hs hlimit hknown ?_ (Or.inr hobject)⟩
      rw [hsched]
      exact hnew.trans (.addThread _ _)
    | false =>
      rw [hhas, if_neg Bool.false_ne_true] at hsched
      have hr := h.represents.create h.steady.listed.allLimit h.steady.listed.readyLimit start
        stackBase tebAddr suspended
      rw [← hsched] at hr
      have hst : (if suspended then ThreadState.initialized else .ready) ≠ .waiting := by
        split <;> simp
      refine ⟨_, h.add hr ((h.steady.allocate 1).setState d.limit hst) rfl (fun _ hp => Or.inl hp)
        ?_ (Or.inr hobject)⟩
      rw [hsched]
      exact hnew

/-- The creating calls. -/
theorem ObjectsOwned.create (h : ObjectsOwned r d) (allocOk : Bool) (call : CreateCall) :
    ∃ d', ObjectsOwned { r with v := (ntCreate r.v allocOk call).v } d' := by
  cases call with
  | event handlePtr eventType initialState =>
    simp only [ntCreate, ntCreateEvent]
    split
    · exact ⟨d, h⟩
    · split
      · exact ⟨d, h⟩
      · split
        · exact ⟨d, h⟩
        · next event _ => exact h.createObject isZeroHandle allocOk .event event handlePtr
  | semaphore handlePtr initialCount maxCount =>
    simp only [ntCreate, ntCreateSemaphore]
    split
    · exact ⟨d, h⟩
    · split
      · exact ⟨d, h⟩
      · next sem _ => exact h.createObject isInvalidHandle allocOk .semaphore sem handlePtr
  | mutant handlePtr initialOwner =>
    exact h.createObject isInvalidHandle allocOk .mutant (newMutant r.v.context initialOwner)
      handlePtr
  | thread args => exact h.createThread allocOk args

end Create

section Step

/-- A wait call. -/
theorem ObjectsOwned.wait {args : WaitArgs} {s : WboxScheduler} {status : UInt32}
    (h : ObjectsOwned r d) (hrun : (ntWait r.v.context args).run = some (s, status)) :
    ∃ d', ObjectsOwned { r with v := r.v.withSched s } d' := by
  rcases ntWait_waitDone hrun with ⟨id, xs, hs⟩ | ⟨reads, os, waitType, timeout, alertable, hblock⟩
  · have hsame : Moved r.v.sched d s d := by
      rw [hs]
      exact .of_same h.represents h.steady (.objects r.v.sched _) (.of_threads rfl)
    exact ⟨d, h.moved hsame⟩
  · have hclock : Moved r.v.sched d { r.v.sched with clockReads := reads } d :=
      .of_same h.represents h.steady (.time r.v.sched reads r.v.sched.timeOffset)
        (.of_threads rfl)
    obtain ⟨d', hmoved⟩ := Moved.blockThread hclock.represents hclock.steady hblock
    exact ⟨d', h.moved (hclock.trans hmoved)⟩

/-- `NtTerminateThread`. -/
theorem ObjectsOwned.terminateThread {handle exitStatus : UInt32} {v : NtVm}
    (h : ObjectsOwned r d) (hrun : sysNtTerminateThread r.v handle exitStatus = some v) :
    ∃ d', ObjectsOwned { r with v := v } d' := by
  unfold sysNtTerminateThread at hrun
  split at hrun
  · rw [← Option.some.inj hrun]
    exact ⟨d, h⟩
  · next thread _ =>
    split at hrun
    · obtain ⟨s, hs, rfl⟩ := Option.map_eq_some_iff.mp hrun
      obtain ⟨d', hmoved⟩ := Moved.terminate h.represents h.steady hs
      exact ⟨d', h.moved hmoved⟩
    · rw [← Option.some.inj hrun]
      exact ⟨_, h.moved (.threadTerminate h.represents h.steady thread exitStatus)⟩

/-- `NtClose` of a handle whose object the scheduler does not lead to. -/
theorem ObjectsOwned.close {handle : UInt32} (h : ObjectsOwned r d)
    (hunused : ClosesUnused r (.close handle)) (hstep : objectStep r (.close handle) = some r') :
    ObjectsOwned r' d := by
  rw [← Option.some.inj hstep]
  rcases sysNtClose_cases r.v.handles handle with ⟨-, htable, hfreed⟩ | ⟨hget, htable, hfreed⟩
  · rw [htable, hfreed]
    exact ⟨h.represents, h.steady, h.dangling, h.freed, h.owned, h.single⟩
  rw [htable, hfreed]
  have hentry : ∀ i q, (Function.update r.v.handles.entries handle.toNat .free i).objectData =
      some q → i ≠ handle.toNat ∧ (r.v.handles.entries i).objectData = some q := by
    intro i q hq
    by_cases hi : i = handle.toNat
    · rw [hi, Function.update_self] at hq
      cases hq
    · rw [Function.update_of_ne hi] at hq
      exact ⟨hi, hq⟩
  have hfrees : ∀ p, p ∈ (r.v.handles.entries handle.toNat).objectData.toList ++ r.freed →
      (r.v.handles.entries handle.toNat).objectData = some p ∨ p ∈ r.freed := by
    intro p hp
    simpa using hp
  refine ⟨h.represents, h.steady, ?_, ?_, ?_, ?_⟩
  · intro p hp
    rcases hfrees p hp with hp | hp
    · exact hunused p ⟨_, hget, hp⟩
    · exact h.dangling p hp
  · intro p hp
    rcases hfrees p hp with hp | hp
    · exact (h.owned _ p hp).1
    · exact h.freed p hp
  · intro i q hq
    obtain ⟨hi, hq⟩ := hentry i q hq
    obtain ⟨hlt, hnot⟩ := h.owned i q hq
    refine ⟨hlt, fun hmem => ?_⟩
    rcases hfrees q hmem with hp | hp
    · exact hi (h.single i _ q hq hp)
    · exact hnot hp
  · intro i j q hi hj
    exact h.single i j q (hentry i q hi).2 (hentry j q hj).2

/-- Any other `NtClose` frees an object the scheduler leads to. -/
theorem not_noneDangling_close (hused : ¬ ClosesUnused r op) (hstep : objectStep r op = some r') :
    ¬ NoneDangling r' := by
  cases op with
  | close handle =>
    have hused : ¬ ∀ p, Holds r.v.handles handle p → ¬ InScheduler r.v.sched p := hused
    simp only [not_forall, not_not] at hused
    obtain ⟨p, ⟨entry, hentry, hobject⟩, hin⟩ := hused
    rw [← Option.some.inj hstep]
    intro hnone
    refine hnone p ?_ hin
    rcases sysNtClose_cases r.v.handles handle with ⟨hget, -, -⟩ | ⟨hget, -, hfreed⟩
    · rw [hget] at hentry
      cases hentry
    · rw [Option.some.inj (hget.symm.trans hentry), hobject] at hfreed
      rw [hfreed]
      exact List.mem_cons_self
  | _ => exact absurd trivial hused

/-- Every step but such an `NtClose` keeps the invariant. -/
theorem ObjectsOwned.step (h : ObjectsOwned r d) (hunused : ClosesUnused r op)
    (hstep : objectStep r op = some r') : ∃ d', ObjectsOwned r' d' := by
  cases op with
  | create allocOk call =>
    rw [← Option.some.inj hstep]
    exact h.create allocOk call
  | wait args =>
    obtain ⟨⟨s, status⟩, hrun, rfl⟩ := Option.map_eq_some_iff.mp hstep
    exact h.wait hrun
  | terminateThread handle exitStatus =>
    obtain ⟨v, hrun, rfl⟩ := Option.map_eq_some_iff.mp hstep
    exact h.terminateThread hrun
  | close handle => exact ⟨d, h.close hunused hstep⟩
  | exec cpu =>
    rw [← Option.some.inj hstep]
    have hsame : SameOutline r.v.sched { r.v.sched with cpu := cpu } :=
      ⟨fun _ => rfl, fun _ => rfl, fun _ => rfl, rfl, rfl, rfl, rfl, rfl, rfl⟩
    exact ⟨d, h.moved (.of_same h.represents h.steady hsame (.of_threads rfl))⟩
  | tick =>
    rw [← Option.some.inj hstep]
    obtain ⟨d', hmoved⟩ := Moved.tick h.represents h.steady
    exact ⟨d', h.moved hmoved⟩
  | switch =>
    rw [← Option.some.inj hstep]
    exact ⟨_, h.moved (.switch h.represents h.steady)⟩
  | checkTimeouts =>
    obtain ⟨s, hrun, rfl⟩ := Option.map_eq_some_iff.mp hstep
    obtain ⟨d', hmoved⟩ := Moved.checkTimeouts h.represents h.steady hrun
    exact ⟨d', h.moved hmoved⟩

end Step

section Run

variable {v : NtVm} {cpu : CpuState} {clock : Nat → UInt64} {ops : List ObjectOp}
  {tr : List ObjectRun}

theorem bootDispatcher_steady : bootDispatcher.Steady where
  listed := ⟨by simp [bootDispatcher], by simp [bootDispatcher], by simp [bootDispatcher]⟩
  current := by simp [bootDispatcher]
  idleLimit := by decide
  idle := by simp [bootDispatcher]

/-- The console handles hold no object. -/
theorem handlesInit_objectData (i : Nat) : (handlesInit.entries i).objectData = none := by
  simp only [handlesInit]
  split <;> rfl

/-- At the start nothing has been freed. -/
theorem objectsOwned_start (v : NtVm) (cpu : CpuState) (clock : Nat → UInt64) :
    ObjectsOwned (objectStart v cpu clock) bootDispatcher := by
  refine ⟨(placed_boot cpu clock).represents, bootDispatcher_steady, ?_, ?_, ?_, ?_⟩
  · intro p hp
    cases hp
  · intro p hp
    cases hp
  · intro i p hp
    cases (handlesInit_objectData i).symm.trans hp
  · intro i j p hp
    cases (handlesInit_objectData i).symm.trans hp

/-- Along a run the scheduler never leads to a freed object exactly if every `NtClose` of the run
closes a handle whose object the scheduler does not lead to. -/
theorem objectRun_noneDangling_iff (h : trace objectStep (objectStart v cpu clock) ops = some tr) :
    (∀ r ∈ tr, NoneDangling r) ↔ Guarded objectStep ClosesUnused (objectStart v cpu clock) ops := by
  have hstep : ∀ a e b, (∃ d, ObjectsOwned a d) → ClosesUnused a e → objectStep a e = some b →
      ∃ d, ObjectsOwned b d := by
    rintro a e b ⟨d, ha⟩ hunused hab
    exact ha.step hunused hab
  exact trace_forall_iff_guarded (fun a ⟨_, ha⟩ => ha.dangling) hstep
    (fun _ _ _ _ hused hab => not_noneDangling_close hused hab)
    ⟨_, objectsOwned_start v cpu clock⟩ h

/-- At the start the scheduler leads to the idle thread and the main thread. -/
theorem inScheduler_start {p : Ptr} (h : InScheduler (schedulerInit cpu clock) p) : p < 2 := by
  rcases (inScheduler_iff (placed_boot cpu clock).represents).mp h with hk | ⟨wb, hwait, -, -⟩
  · exact bootDispatcher_steady.lt_limit hk
  · have hst := (placed_boot cpu clock).represents.state wb.thread
    have hwaiting : bootDispatcher.state wb.thread = .waiting := hst.symm.trans hwait
    simp only [bootDispatcher, Function.update_apply] at hwaiting
    split at hwaiting
    · cases hwaiting
    · split at hwaiting
      · cases hwaiting
      · cases hwaiting

/-- The first synchronization object of a guest can be closed right away. -/
theorem closesUnused_first {failed : UInt32 → Bool} {allocOk : Bool} {type : HandleType}
    {obj : SyncObject} {handlePtr handle : UInt32} {freed : List Ptr} :
    ClosesUnused ⟨(createObject failed (objectStart v cpu clock).v allocOk type obj handlePtr).v,
      freed⟩ (.close handle) := by
  rintro p ⟨entry, hget, hobject⟩ hin
  have hinit : handlesGet handlesInit handle ≠ some entry := by
    intro hstart
    obtain ⟨-, -, rfl⟩ := handlesGet_some hstart
    cases (handlesInit_objectData handle.toNat).symm.trans hobject
  rcases createObject_effect failed (objectStart v cpu clock).v allocOk type obj handlePtr with
    hsame | ⟨hsched, hhandles | hhandles⟩
  · rw [hsame] at hget
    exact hinit hget
  · rw [hhandles] at hget
    exact hinit hget
  · rw [hhandles] at hget
    rw [hsched] at hin
    have hold : InScheduler (schedulerInit cpu clock) p := hin.congr rfl rfl rfl rfl rfl
    have hlt := inScheduler_start hold
    rcases handlesGet_insert hget with rfl | hstart
    · have hp : 2 = p := Option.some.inj hobject
      exact absurd (hp ▸ hlt) (Nat.lt_irrefl 2)
    · exact hinit hstart

/-- The first thread of a guest, which has the handle 4, cannot. -/
theorem not_closesUnused_first {args : NtCreateThreadArgs} {freed : List Ptr}
    (hscheduler : v.hasScheduler = true)
    (hmiss : (CreateCall.thread args).MissesFailure (objectStart v cpu clock).v true) :
    ¬ ClosesUnused ⟨(ntCreate (objectStart v cpu clock).v true (.thread args)).v, freed⟩
      (.close 4) := by
  rw [ntCreate]
  have hfree : ¬ handlesInit.Full := by
    intro hfull
    exact hfull 4 (by decide) (by decide) rfl
  have htype : HandleType.thread ≠ .none := by decide
  have hhandle : (handlesAddObject handlesInit .thread (some 2)).2 = 4 := by decide +kernel
  rcases ntCreateThread_effect (objectStart v cpu clock).v true args with ⟨id, hnone, -, -⟩ |
    ⟨start, base, teb, suspended, hhandles, hsched⟩
  · rcases ntCreateThread_cases (objectStart v cpu clock).v true args with
      ⟨hnot, -⟩ | ⟨-, thread, -, hsome, -, -⟩
    · exact absurd hmiss hnot
    · cases hnone.symm.trans hsome
  · obtain ⟨-, -, hholds⟩ := handlesAddObject_free hfree htype 2
    rw [hhandle] at hholds
    obtain ⟨d', hrep, -, -, hmem, -⟩ := created_addThread (placed_boot cpu clock).represents
      bootDispatcher_steady start base teb suspended
    have hhas : (objectStart v cpu clock).v.hasScheduler = true := hscheduler
    rw [hhas, if_pos rfl] at hsched
    intro hunused
    refine hunused 2 ?_ (Or.inl ⟨d'.all, ?_, hmem⟩)
    · rw [hhandles]
      exact hholds
    · rw [hsched]
      exact hrep.all

/-- A guest that has a CONTEXT at `0x400000` for a thread that starts at `0x401000`. -/
def contextVm : NtVm where
  toThreadVm :=
    { bootThreads.v with
      vm :=
        { bootThreads.v.vm with
          mem :=
            { ram := storeWord (storeWord (storeWord (fun _ => 0) 0x100004 0x101007) 0x101000
                0x102007) 0x1020B8 0x401000
              ramSize := 0x10000000 } } }
  handles := handlesInit
  hasScheduler := true

/-- A new mutant that the guest closes again is freed; no thread waits for it. -/
theorem objectRun_mutant : ∃ tr, trace objectStep (objectStart contextVm default fun _ => 0)
    [.create true (.mutant 0x7FFDF000 0), .close 4] = some tr ∧ ∀ r ∈ tr, NoneDangling r := by
  have hrun : (trace objectStep (objectStart contextVm default fun _ => 0)
      [.create true (.mutant 0x7FFDF000 0), .close 4]).isSome = true := rfl
  obtain ⟨tr, htr⟩ := Option.isSome_iff_exists.mp hrun
  refine ⟨tr, htr, (objectRun_noneDangling_iff htr).mpr ⟨trivial, ?_⟩⟩
  intro r hr
  rw [← Option.some.inj hr]
  exact ⟨closesUnused_first, fun _ _ => trivial⟩

/-- A thread is created and its handle closed: it is freed, but stays in `all_threads`. -/
theorem objectRun_close_thread : ∃ tr, trace objectStep (objectStart contextVm default fun _ => 0)
    [.create true (.thread ⟨0x7FFDF000, 0, 0x400000, 0⟩), .close 4] = some tr ∧
      ¬ ∀ r ∈ tr, NoneDangling r := by
  have hrun : (trace objectStep (objectStart contextVm default fun _ => 0)
      [.create true (.thread ⟨0x7FFDF000, 0, 0x400000, 0⟩), .close 4]).isSome = true := rfl
  have hmiss : (CreateCall.thread ⟨0x7FFDF000, 0, 0x400000, 0⟩).MissesFailure
      (objectStart contextVm default fun _ => 0).v true := by
    refine ⟨rfl, ?_, ?_, ?_, ?_⟩
    · decide +kernel
    · decide
    · decide
    · have hlength : (nextStackPages (objectStart contextVm default fun _ => 0).v.toThreadVm).length =
          16 := by decide +kernel
      rw [hlength]
      simp only [PagesLeft]
      decide
  obtain ⟨tr, htr⟩ := Option.isSome_iff_exists.mp hrun
  refine ⟨tr, htr, ?_⟩
  intro hnone
  obtain ⟨r, rest, hcreate, hrest, rfl⟩ := trace_cons htr
  obtain ⟨r', rest', hclose, hrest', rfl⟩ := trace_cons hrest
  have hmem : r' ∈ rest' := List.mem_of_getElem? (trace_head hrest')
  refine not_noneDangling_close ?_ hclose (hnone r' (by simp [hmem]))
  have hscheduler : contextVm.hasScheduler = true := rfl
  rw [← Option.some.inj hcreate]
  exact not_closesUnused_first hscheduler hmiss

end Run

end Wbox.Nt
