import Wbox.Lib.Trace
import Wbox.Nt.Signals
import Wbox.Thread.Pending

/-!
# Mutants

`NtCreateMutant` and `NtReleaseMutant` of `src/nt/ntdll.c`, and runs of mutant calls by any
threads. Mutants carry the tag `HANDLE_TYPE_MUTANT`, for which `sync_get_header` knows no
header (`src/nt/sync.c:176–195`): a release signals nobody.
-/

namespace Wbox.Nt

open Wbox.Thread Wbox.Vm Wbox.Lib

/-- `STATUS_MUTANT_NOT_OWNED`. -/
def statusMutantNotOwned : UInt32 := 0xC0000046

/-- `STATUS_INSUFFICIENT_RESOURCES`. -/
def statusInsufficientResources : UInt32 := 0xC000009A

/-- `INVALID_HANDLE_VALUE`, `src/nt/syscalls.h:365`. -/
def invalidHandleValue : UInt32 := 0xFFFFFFFF

/-- The id of the current thread, or 0 without one, `ntdll.c:1235–1242`, `1299–1304`. -/
def currentThreadId (vm : VmContext) : UInt32 :=
  if vm.hasScheduler then
    match vm.sched.currentThread with
    | some t => (vm.sched.threads t).threadId
    | none => 0
  else 0

/-- Place a new object at a fresh address. -/
def VmContext.allocObject (vm : VmContext) (obj : SyncObject) : VmContext :=
  { vm with sched :=
    { vm.sched with
      objects := Function.update vm.sched.objects vm.sched.heapNext obj
      heapNext := vm.sched.heapNext + 1 } }

/-- The object `NtCreateMutant` makes, `ntdll.c:1235–1245`. -/
def newMutant (vm : VmContext) (initialOwner : UInt32) : SyncObject :=
  syncCreateMutant (decide (initialOwner ≠ 0))
    (if initialOwner ≠ 0 then currentThreadId vm else 0)

/-- `NtCreateMutant`, `ntdll.c:1215–1272`. `handles_add_object` fails with 0, which is not
`INVALID_HANDLE_VALUE`. -/
def ntCreateMutant (vm : VmContext) (handlePtr initialOwner : UInt32) : VmContext × UInt32 :=
  let mutant := vm.sched.heapNext
  let vm := vm.allocObject (newMutant vm initialOwner)
  let (handles, handle) := handlesAddObject vm.handles .mutant (some mutant)
  if handle = invalidHandleValue then (vm, statusInsufficientResources)
  else ({ vm with handles := handles }.writeOut handlePtr handle, statusWait0)

/-- The object of `NtReleaseMutant`, `ntdll.c:1289–1295`. -/
def mutantObject (vm : VmContext) (handle : UInt32) : Option Ptr :=
  match handlesGet vm.handles handle with
  | none => none
  | some entry => if entry.type ≠ .mutant then none else entry.objectData

/-- `mutant->recursion_count--`. -/
def VmContext.decRecursion (vm : VmContext) (o : Ptr) : VmContext :=
  { vm with sched := vm.sched.modifyObject o fun obj =>
    { obj with recursionCount := obj.recursionCount - 1 } }

/-- Give a mutant up, `ntdll.c:1324–1326`. -/
def VmContext.freeMutant (vm : VmContext) (o : Ptr) : VmContext :=
  { vm with sched := vm.sched.modifyObject o fun obj =>
    { obj with ownerThreadId := 0, signalState := 1 } }

/-- `NtReleaseMutant`, `ntdll.c:1274–1337`. -/
def ntReleaseMutant (vm : VmContext) (handle prevCountPtr : UInt32) : SignalCall :=
  match mutantObject vm handle with
  | none => .ret vm statusInvalidHandle
  | some mutant =>
      let obj := vm.sched.objects mutant
      if obj.ownerThreadId ≠ currentThreadId vm then .ret vm statusMutantNotOwned
      else
        let previous := if obj.recursionCount > 0 then -obj.recursionCount else 1
        let vm := (vm.writeOut prevCountPtr (UInt32.ofInt previous)).decRecursion mutant
        if (vm.sched.objects mutant).recursionCount = 0 then
          signalOrReturn (vm.freeMutant mutant) mutant .mutant
        else .ret vm statusWait0

/-- The calls on mutants, made by whatever thread is current, and the switches between. -/
inductive MutantOp where
  | create (handlePtr initialOwner : UInt32)
  | wait (args : WaitArgs)
  | release (handle prevCountPtr : UInt32)
  | tick
  | switch
  deriving DecidableEq, Repr

/-- One step of a run; a wait takes as long as the call does. -/
def mutantStep (vm : VmContext) : MutantOp → Option VmContext
  | .create handlePtr initialOwner => some (ntCreateMutant vm handlePtr initialOwner).1
  | .wait args => (ntWait vm args).run.map fun r => { vm with sched := r.1 }
  | .release handle prevCountPtr => (ntReleaseMutant vm handle prevCountPtr).run.map Prod.fst
  | .tick => some { vm with sched := schedulerTick vm.sched }
  | .switch => some { vm with sched := schedulerSwitch vm.sched }

/-- There is a scheduler, a mutant handle names a mutant, waits are for allocated objects, and
nobody has been overlooked so far. -/
structure MutantsOk (vm : VmContext) : Prop where
  scheduler : vm.hasScheduler = true
  mutants : ∀ handle o, mutantObject vm handle = some o → (vm.sched.objects o).type = .mutant
  allocated : ∀ wb o, vm.sched.WaitsOn wb o → o < vm.sched.heapNext
  noneStuck : NoneStuck vm.sched

/-- The current thread releases the mutant `o` it has acquired once. -/
def FinalRelease (vm : VmContext) (handle : UInt32) (o : Ptr) : Prop :=
  mutantObject vm handle = some o ∧ (vm.sched.objects o).ownerThreadId = currentThreadId vm ∧
    (vm.sched.objects o).recursionCount = 1

/-- The thread is WAITING for `o`, and only for `o`. -/
def Wants (vm : VmContext) (t o : Ptr) : Prop :=
  vm.sched.Waiter t o ∧ (vm.sched.waitOf t).WantsOnly vm.sched.signals o

/-- The step is no final release of a mutant that a thread wants. -/
def Unwanted (vm : VmContext) (op : MutantOp) : Prop :=
  ∀ handle prevCountPtr o, op = .release handle prevCountPtr → FinalRelease vm handle o →
    ∀ t, ¬ Wants vm t o

variable {vm vm' : VmContext} {op : MutantOp} {s : WboxScheduler} {status : UInt32} {t o : Ptr}

/-- A wait call that returns has consumed some objects, or read the clock and blocked. -/
def WaitDone (before : WboxScheduler) (status : UInt32) (after : WboxScheduler) : Prop :=
  (∃ id xs, after = { before with objects := satisfyAll before.objects id xs }) ∨
    ∃ reads os waitType timeout alertable,
      schedulerBlockThread { before with clockReads := reads } os waitType timeout alertable =
        some (after, status)

private theorem WaitDone.same (s : WboxScheduler) (status : UInt32) : WaitDone s status s :=
  Or.inl ⟨0, [], rfl⟩

private theorem waitDone_pollOrBlock {os : List (Option Ptr)} {waitType : WaitType}
    {timeout : Option Int64} {alertable : UInt32}
    (h : (pollOrBlock vm os waitType timeout alertable).run = some (s, status)) :
    WaitDone vm.sched status s := by
  unfold pollOrBlock at h
  split at h
  · have hs : vm.sched = s := congrArg Prod.fst (Option.some.inj h)
    exact hs ▸ .same _ _
  · split at h
    · obtain ⟨reads, habs⟩ := absTimeout_eq vm.sched timeout
      rw [habs] at h
      exact Or.inr ⟨reads, os, waitType, _, _, h⟩
    · have hs : vm.sched = s := congrArg Prod.fst (Option.some.inj h)
      exact hs ▸ .same _ _

theorem ntWait_waitDone {args : WaitArgs} (h : (ntWait vm args).run = some (s, status)) :
    WaitDone vm.sched status s := by
  cases args with
  | single handle alertable timeoutPtr =>
    simp only [ntWait, ntWaitForSingleObject] at h
    split at h
    · have hs : vm.sched = s := congrArg Prod.fst (Option.some.inj h)
      exact hs ▸ .same _ _
    · next obj _ =>
      split at h
      · have hs := congrArg Prod.fst (Option.some.inj h)
        exact Or.inl ⟨threadGetCurrentId vm, [some obj], hs.symm⟩
      · exact waitDone_pollOrBlock h
  | multiple count handlesPtr waitType alertable timeoutPtr =>
    simp only [ntWait, ntWaitForMultipleObjects] at h
    split at h
    · have hs : vm.sched = s := congrArg Prod.fst (Option.some.inj h)
      exact hs ▸ .same _ _
    · split at h
      · next objs st hnow =>
        obtain ⟨xs, rfl⟩ := satisfyNow_consumes hnow
        have hs := congrArg Prod.fst (Option.some.inj h)
        exact Or.inl ⟨_, xs, hs.symm⟩
      · exact waitDone_pollOrBlock h

/-- A wait call that returns has started no wait that is still pending and signaled nothing. -/
theorem ntWait_nothingNew {args : WaitArgs} (h : (ntWait vm args).run = some (s, status)) :
    NothingNew vm.sched s := by
  rcases ntWait_waitDone h with ⟨id, xs, rfl⟩ | ⟨reads, os, waitType, timeout, alertable, hblock⟩
  · exact .consume vm.sched id xs
  · have hclock : NothingNew vm.sched { vm.sched with clockReads := reads } :=
      .of_same (.of_threads rfl) ⟨rfl, rfl⟩
    exact hclock.trans (.blockThread hblock)

/-- The handle table and the allocated objects decide what a mutant handle names. -/
theorem MutantsOk.of_nothingNew (hw : MutantsOk vm) (h : NothingNew vm.sched vm'.sched)
    (hh : vm'.handles = vm.handles) (hs : vm'.hasScheduler = vm.hasScheduler) :
    MutantsOk vm' where
  scheduler := hs.trans hw.scheduler
  mutants handle o ho := by
    rw [h.type]
    apply hw.mutants handle o
    rwa [mutantObject, hh] at ho
  allocated wb o hwb := by
    rw [h.heapNext]
    exact hw.allocated wb o (h.waits.waitsOn hwb)
  noneStuck := h.noneStuck hw.noneStuck

@[simp] theorem VmContext.writeOut_handles (vm : VmContext) (ptr val : UInt32) :
    (vm.writeOut ptr val).handles = vm.handles := by
  unfold VmContext.writeOut
  split
  · rfl
  · dsimp only
    split
    · rfl
    · rfl

@[simp] theorem VmContext.writeOut_hasScheduler (vm : VmContext) (ptr val : UInt32) :
    (vm.writeOut ptr val).hasScheduler = vm.hasScheduler := by
  unfold VmContext.writeOut
  split
  · rfl
  · dsimp only
    split
    · rfl
    · rfl

theorem newMutant_type (vm : VmContext) (initialOwner : UInt32) :
    (newMutant vm initialOwner).type = .mutant := by
  unfold newMutant syncCreateMutant
  split
  · rfl
  · rfl

/-- What `NtCreateMutant` does to the scheduler and the handles. -/
theorem ntCreateMutant_eq (vm : VmContext) (handlePtr initialOwner : UInt32) :
    (ntCreateMutant vm handlePtr initialOwner).1.sched =
        (vm.allocObject (newMutant vm initialOwner)).sched ∧
    ((ntCreateMutant vm handlePtr initialOwner).1.handles = vm.handles ∨
      (ntCreateMutant vm handlePtr initialOwner).1.handles =
        (handlesAddObject vm.handles .mutant (some vm.sched.heapNext)).1) ∧
    (ntCreateMutant vm handlePtr initialOwner).1.hasScheduler = vm.hasScheduler := by
  unfold ntCreateMutant
  dsimp only
  split
  · exact ⟨rfl, Or.inl rfl, rfl⟩
  · exact ⟨VmContext.writeOut_sched _ _ _, Or.inr (VmContext.writeOut_handles _ _ _),
      VmContext.writeOut_hasScheduler _ _ _⟩

/-- Creating a mutant touches no waiter. -/
theorem MutantsOk.create (hw : MutantsOk vm) (handlePtr initialOwner : UInt32) :
    MutantsOk (ntCreateMutant vm handlePtr initialOwner).1 := by
  obtain ⟨hsched, hhandles, hhas⟩ := ntCreateMutant_eq vm handlePtr initialOwner
  have hty := newMutant_type vm initialOwner
  have hobj : ∀ x, x ≠ vm.sched.heapNext →
      (ntCreateMutant vm handlePtr initialOwner).1.sched.objects x = vm.sched.objects x := by
    intro x hx
    rw [hsched]
    exact Function.update_of_ne hx _ _
  have hnew : (ntCreateMutant vm handlePtr initialOwner).1.sched.objects vm.sched.heapNext =
      newMutant vm initialOwner := by
    rw [hsched]
    exact Function.update_self _ _ _
  have hon : ∀ wb o, (ntCreateMutant vm handlePtr initialOwner).1.sched.WaitsOn wb o ↔
      vm.sched.WaitsOn wb o := by
    intro wb o
    rw [hsched]
    rfl
  refine ⟨hhas.trans hw.scheduler, ?_, ?_, ?_⟩
  · intro handle o ho
    by_cases hoh : o = vm.sched.heapNext
    · rw [hoh, hnew, hty]
    · rw [hobj o hoh]
      apply hw.mutants handle o
      simp only [mutantObject] at ho ⊢
      split at ho
      · cases ho
      · next entry hget =>
        rcases hhandles with hh | hh
        · rw [hh] at hget
          rw [hget]
          exact ho
        · rw [hh] at hget
          rcases handlesGet_insert hget with rfl | hold
          · have hne : some vm.sched.heapNext = some o := ho
            exact absurd (Option.some.inj hne).symm hoh
          · rw [hold]
            exact ho
  · intro wb o hwb
    have hlt := hw.allocated wb o ((hon wb o).mp hwb)
    rw [hsched]
    exact Nat.lt_succ_of_lt hlt
  · rintro t o hmt hav ⟨i, hi⟩ hsat
    have hold := (hon _ o).mp hi
    have hne : ∀ x, some x ∈ (vm.sched.waitOf t).objects → x ≠ vm.sched.heapNext := by
      intro x hx hxe
      obtain ⟨j, hj, hjx⟩ := List.mem_map.mp hx
      have hlt := hw.allocated ⟨t, j⟩ x ⟨hold.1, List.mem_range.mp hj, hjx⟩
      exact absurd hxe (Nat.ne_of_lt hlt)
    have ho := hne o hold.mem
    rw [hobj o ho] at hmt hav
    apply hw.noneStuck t o hmt hav ⟨i, hold⟩
    have hwait : (ntCreateMutant vm handlePtr initialOwner).1.sched.waitOf t =
        vm.sched.waitOf t := by
      rw [hsched]
      rfl
    rw [hwait] at hsat
    have hsig : ∀ x, some x ∈ (vm.sched.waitOf t).objects →
        (ntCreateMutant vm handlePtr initialOwner).1.sched.signals x = vm.sched.signals x := by
      intro x hx
      simp only [WboxScheduler.signals, hobj x (hne x hx)]
    unfold Wait.SatisfiableBy at hsat ⊢
    split at hsat
    · next hany =>
      rw [hsig o hold.mem] at hsat
      exact hsat
    · next hall =>
      rw [allSignaled, List.all_eq_true] at hsat ⊢
      intro x hx
      cases x with
      | none => rfl
      | some x =>
        have hx' := hsat (some x) hx
        dsimp only at hx'
        rwa [hsig x hx] at hx'

/-- What a release does, up to its output word: nothing, or one recursion less on a mutant of the
caller's, which is given up with the last. No call of it wakes a thread. -/
theorem release_spec {handle prevCountPtr : UInt32}
    (h : mutantStep vm (.release handle prevCountPtr) = some vm') (hs : vm.hasScheduler = true) :
    vm'.handles = vm.handles ∧ vm'.hasScheduler = vm.hasScheduler ∧
      (vm'.sched = vm.sched ∧ (∀ o, mutantObject vm handle = some o →
          (vm.sched.objects o).ownerThreadId ≠ currentThreadId vm) ∨
        ∃ o, mutantObject vm handle = some o ∧
          (vm.sched.objects o).ownerThreadId = currentThreadId vm ∧
          ((vm.sched.objects o).recursionCount ≠ 1 ∧ vm'.sched = (vm.decRecursion o).sched ∨
            (vm.sched.objects o).recursionCount = 1 ∧
              vm'.sched = ((vm.decRecursion o).freeMutant o).sched)) := by
  obtain ⟨⟨vm'', status⟩, hrun, rfl⟩ := Option.map_eq_some_iff.mp h
  dsimp only
  unfold ntReleaseMutant at hrun
  split at hrun
  · next hobj =>
    have hvm : vm = vm'' := congrArg Prod.fst (Option.some.inj hrun)
    rw [← hvm]
    exact ⟨rfl, rfl, Or.inl ⟨rfl, fun o ho => by simp [hobj] at ho⟩⟩
  · next mutant hobj =>
    dsimp only at hrun
    split at hrun
    · next howner =>
      have hvm : vm = vm'' := congrArg Prod.fst (Option.some.inj hrun)
      rw [← hvm]
      refine ⟨rfl, rfl, Or.inl ⟨rfl, ?_⟩⟩
      intro o ho
      have hom : mutant = o := Option.some.inj (hobj.symm.trans ho)
      exact hom ▸ howner
    · next howner =>
      have hrec : ∀ p v, (((vm.writeOut p v).decRecursion mutant).sched.objects
          mutant).recursionCount = (vm.sched.objects mutant).recursionCount - 1 := by
        intro p v
        simp [VmContext.decRecursion, WboxScheduler.modifyObject]
      rw [hrec] at hrun
      split at hrun
      · next hzero =>
        have hsig : ∀ a b : VmContext, a.hasScheduler = true →
            (signalOrReturn a mutant .mutant).run = some (b, status) → a = b := by
          intro a b ha hab
          rw [signalOrReturn, if_pos ha] at hab
          exact congrArg Prod.fst (Option.some.inj hab)
        have hvm := hsig _ vm'' (by
          simp only [VmContext.freeMutant, VmContext.decRecursion,
            VmContext.writeOut_hasScheduler, hs]) hrun
        rw [← hvm]
        refine ⟨VmContext.writeOut_handles _ _ _, VmContext.writeOut_hasScheduler _ _ _,
          Or.inr ⟨mutant, hobj, not_not.mp howner, Or.inr ⟨by omega, ?_⟩⟩⟩
        simp only [VmContext.freeMutant, VmContext.decRecursion, VmContext.writeOut_sched]
      · next hzero =>
        have hvm := congrArg Prod.fst (Option.some.inj hrun)
        dsimp only at hvm
        rw [← hvm]
        refine ⟨VmContext.writeOut_handles _ _ _, VmContext.writeOut_hasScheduler _ _ _,
          Or.inr ⟨mutant, hobj, not_not.mp howner, Or.inl ⟨by omega, ?_⟩⟩⟩
        simp only [VmContext.decRecursion, VmContext.writeOut_sched]

/-- The same, with the final releases told apart. -/
theorem release_cases {handle prevCountPtr : UInt32}
    (h : mutantStep vm (.release handle prevCountPtr) = some vm') (hw : MutantsOk vm) :
    vm'.handles = vm.handles ∧ vm'.hasScheduler = vm.hasScheduler ∧
      (vm'.sched = vm.sched ∧ (∀ o, ¬ FinalRelease vm handle o) ∨
        ∃ o, mutantObject vm handle = some o ∧
          (vm'.sched = (vm.decRecursion o).sched ∧ (∀ o, ¬ FinalRelease vm handle o) ∨
            vm'.sched = ((vm.decRecursion o).freeMutant o).sched ∧ FinalRelease vm handle o)) := by
  obtain ⟨hh, hhas, hsched⟩ := release_spec h hw.scheduler
  refine ⟨hh, hhas, ?_⟩
  rcases hsched with ⟨hsame, hno⟩ | ⟨o, hobj, howner, ⟨hone, hdec⟩ | ⟨hone, hfree⟩⟩
  · exact Or.inl ⟨hsame, fun o hf => hno o hf.1 hf.2.1⟩
  · refine Or.inr ⟨o, hobj, Or.inl ⟨hdec, ?_⟩⟩
    intro x hf
    have hox : o = x := Option.some.inj (hobj.symm.trans hf.1)
    exact hone (hox ▸ hf.2.2)
  · exact Or.inr ⟨o, hobj, Or.inr ⟨hfree, hobj, howner, hone⟩⟩

private theorem given_up (vm : VmContext) (o : Ptr) :
    (∀ x, x ≠ o → ((vm.decRecursion o).freeMutant o).sched.objects x = vm.sched.objects x) ∧
      (((vm.decRecursion o).freeMutant o).sched.objects o).type = (vm.sched.objects o).type ∧
      (((vm.decRecursion o).freeMutant o).sched.objects o).signalState = 1 := by
  refine ⟨?_, ?_, ?_⟩
  · intro x hx
    simp [VmContext.decRecursion, VmContext.freeMutant, WboxScheduler.modifyObject, hx]
  · simp [VmContext.decRecursion, VmContext.freeMutant, WboxScheduler.modifyObject]
  · simp [VmContext.decRecursion, VmContext.freeMutant, WboxScheduler.modifyObject]

private theorem nothingNew_decRecursion (vm : VmContext) (o : Ptr) :
    NothingNew vm.sched (vm.decRecursion o).sched := by
  have hobj : ∀ x, ∃ r, (vm.decRecursion o).sched.objects x =
      { vm.sched.objects x with recursionCount := r } := by
    intro x
    by_cases hx : x = o
    · subst hx
      exact ⟨_, Function.update_self _ _ _⟩
    · exact ⟨_, Function.update_of_ne hx _ _⟩
  refine ⟨.of_threads rfl, ?_, ?_, ?_, rfl⟩
  · intro x
    obtain ⟨r, hr⟩ := hobj x
    rw [hr]
  · intro x h
    obtain ⟨r, hr⟩ := hobj x
    rw [hr] at h
    exact h
  · intro x u h
    obtain ⟨r, hr⟩ := hobj x
    rw [hr] at h
    exact h

/-- Giving up a mutant that nobody wants overlooks nobody. -/
private theorem noneStuck_given_up (h : NoneStuck vm.sched) (hq : ∀ t, ¬ Wants vm t o) :
    NoneStuck ((vm.decRecursion o).freeMutant o).sched := by
  obtain ⟨hne, hty, -⟩ := given_up vm o
  have hsig : ∀ x, x ≠ o →
      ((vm.decRecursion o).freeMutant o).sched.signals x = vm.sched.signals x := by
    intro x hx
    simp only [WboxScheduler.signals, hne x hx]
  rintro t o' hmt hav ⟨i, hi⟩ hsat
  have hi' : vm.sched.WaitsOn ⟨t, i⟩ o' := hi
  have hsat' : (vm.sched.waitOf t).SatisfiableBy
      ((vm.decRecursion o).freeMutant o).sched.signals o' := hsat
  have hall : (vm.sched.waitOf t).type = .all → ∀ x, some x ∈ (vm.sched.waitOf t).objects →
      syncIsSignaled (((vm.decRecursion o).freeMutant o).sched.signals x)
        (vm.sched.waitOf t).id = true := by
    intro htype x hx
    rw [Wait.SatisfiableBy, htype] at hsat'
    exact signaled_of_allSignaled hsat' hx
  by_cases hwo : vm.sched.Waiter t o
  · apply hq t
    refine ⟨hwo, ?_⟩
    unfold Wait.WantsOnly
    split
    · trivial
    · next htype =>
      intro x hx hxo
      rw [← hsig x hxo]
      exact hall htype x hx
  · have hoo : o' ≠ o := by
      rintro rfl
      exact hwo ⟨i, hi'⟩
    rw [hne o' hoo] at hmt hav
    apply h t o' hmt hav ⟨i, hi'⟩
    unfold Wait.SatisfiableBy at hsat' ⊢
    split at hsat'
    · rwa [hsig o' hoo] at hsat'
    · next htype =>
      rw [allSignaled, List.all_eq_true]
      intro x hx
      cases x with
      | none => rfl
      | some x =>
        have hxo : x ≠ o := by
          rintro rfl
          obtain ⟨j, hj, hjx⟩ := List.mem_map.mp hx
          exact hwo ⟨j, hi'.1, List.mem_range.mp hj, hjx⟩
        dsimp only
        rw [← hsig x hxo]
        exact hall htype x hx

/-- A step that releases no wanted mutant overlooks nobody. -/
theorem MutantsOk.step (hw : MutantsOk vm) (hq : Unwanted vm op)
    (hs : mutantStep vm op = some vm') : MutantsOk vm' := by
  cases op with
  | create handlePtr initialOwner =>
    rw [← Option.some.inj hs]
    exact hw.create handlePtr initialOwner
  | wait args =>
    obtain ⟨⟨s, status⟩, hrun, rfl⟩ := Option.map_eq_some_iff.mp hs
    exact hw.of_nothingNew (ntWait_nothingNew hrun) rfl rfl
  | release handle prevCountPtr =>
    obtain ⟨hh, hhas, hsched⟩ := release_cases hs hw
    rcases hsched with ⟨hsame, -⟩ | ⟨o, hobj, ⟨hdec, -⟩ | ⟨hfree, hfinal⟩⟩
    · exact hw.of_nothingNew (.of_same (hsame ▸ .refl _) (hsame ▸ .refl _)) hh hhas
    · exact hw.of_nothingNew (hdec ▸ nothingNew_decRecursion vm o) hh hhas
    · refine ⟨hhas.trans hw.scheduler, ?_, ?_, ?_⟩
      · intro h x hx
        rw [mutantObject, hh] at hx
        rw [hfree]
        by_cases hxo : x = o
        · rw [hxo, (given_up vm o).2.1]
          exact hw.mutants handle o hobj
        · rw [(given_up vm o).1 x hxo]
          exact hw.mutants h x hx
      · rw [hfree]
        exact hw.allocated
      · rw [hfree]
        exact noneStuck_given_up hw.noneStuck (hq handle prevCountPtr o rfl hfinal)
  | tick =>
    rw [← Option.some.inj hs]
    exact hw.of_nothingNew (.of_same (.tick _) (.tick _)) rfl rfl
  | switch =>
    rw [← Option.some.inj hs]
    exact hw.of_nothingNew (.of_same (.switch _) (.switch _)) rfl rfl

end Wbox.Nt
