import Wbox.Nt.Mutants

/-!
# Mutant accounting

`owner_thread_id`, `recursion_count` and `signal_state` of a mutant (`src/nt/sync.h:57–67`) say
who owns it and how often. Runs of mutant calls, of calls that signal other objects and of
switches between the threads keep the three together, but for a release that is not the last.
-/

namespace Wbox.Nt

open Wbox.Thread Wbox.Vm Wbox.Lib

/-- Nobody owns the mutant. -/
def SyncObject.Free (obj : SyncObject) : Prop :=
  obj.signalState = 1 ∧ obj.ownerThreadId = 0 ∧ obj.recursionCount = 0

/-- The thread with this id owns the mutant, as often as its signal state says. -/
def SyncObject.OwnedBy (obj : SyncObject) (id : UInt32) : Prop :=
  obj.ownerThreadId = id ∧ id ≠ 0 ∧ 1 ≤ obj.recursionCount ∧
    obj.signalState = -obj.recursionCount

/-- The mutant is free, or one thread owns it. -/
def SyncObject.Balanced (obj : SyncObject) : Prop := obj.Free ∨ ∃ id, obj.OwnedBy id

/-- Steps of the system: the calls on mutants and the switches, and the calls that signal an
event or a semaphore and may complete a wait for a mutant as well. -/
inductive MutantEvent where
  | mutant (op : MutantOp)
  | signal (args : SignalArgs)
  deriving DecidableEq, Repr

/-- A step that guest code makes. -/
def MutantEvent.isCall : MutantEvent → Bool
  | .mutant .tick => false
  | .mutant .switch => false
  | _ => true

/-- One step. Guest code runs in a guest thread, and the id 0 is the idle thread's
(`src/thread/thread.c:514`). -/
def mutantEventStep (vm : VmContext) (e : MutantEvent) : Option VmContext :=
  if e.isCall = true ∧ currentThreadId vm = 0 then none
  else match e with
    | .mutant op => mutantStep vm op
    | .signal args => (ntSignal vm args).run.map Prod.fst

/-- Every mutant is free or owned by one thread. -/
def Accounted (vm : VmContext) : Prop :=
  ∀ o, o < vm.sched.heapNext → (vm.sched.objects o).type = .mutant →
    (vm.sched.objects o).Balanced

/-- The state of a run: there is a scheduler, the tag of a handle says whether its object is a
mutant, the idle thread does not wait, and the mutants are accounted for. -/
structure AccountsOk (vm : VmContext) : Prop where
  scheduler : vm.hasScheduler = true
  handles : ∀ handle entry o, handlesGet vm.handles handle = some entry →
    entry.objectData = some o →
    o < vm.sched.heapNext ∧ (entry.type = .mutant ↔ (vm.sched.objects o).type = .mutant)
  waiters : ∀ t, (vm.sched.threads t).state = .waiting → (vm.sched.threads t).threadId ≠ 0
  accounted : Accounted vm

/-- The caller releases no mutant that it has acquired more than once. -/
def NotNested (vm : VmContext) (e : MutantEvent) : Prop :=
  ∀ handle prevCountPtr o, e = .mutant (.release handle prevCountPtr) →
    mutantObject vm handle = some o →
    (vm.sched.objects o).ownerThreadId = currentThreadId vm →
    (vm.sched.objects o).recursionCount ≤ 1

variable {vm vm' : VmContext} {e : MutantEvent} {s s' s'' : WboxScheduler} {status id : UInt32}
  {t o : Ptr} {objs : Objects}

/-- The object is the same mutant still, balanced if it was, and its count is no lower. -/
def Upheld (obj obj' : SyncObject) : Prop :=
  obj'.type = obj.type ∧ (obj.type = .mutant → obj.Balanced →
    obj'.Balanced ∧ obj.recursionCount ≤ obj'.recursionCount)

theorem Upheld.refl (obj : SyncObject) : Upheld obj obj := ⟨rfl, fun _ hb => ⟨hb, Int.le_refl _⟩⟩

theorem Upheld.trans {a b c : SyncObject} (h : Upheld a b) (h' : Upheld b c) : Upheld a c := by
  refine ⟨h'.1.trans h.1, ?_⟩
  intro ht hb
  obtain ⟨hb', hle⟩ := h.2 ht hb
  obtain ⟨hb'', hle'⟩ := h'.2 (h.1.trans ht) hb'
  exact ⟨hb'', Int.le_trans hle hle'⟩

/-- A thread that acquires a balanced mutant owns it, once or once more. -/
theorem Upheld.satisfyWait (obj : SyncObject) (hid : id ≠ 0) :
    Upheld obj (syncSatisfyWait obj id) := by
  refine ⟨syncSatisfyWait_type obj id, ?_⟩
  intro ht hb
  rw [syncSatisfyWait, ht]
  dsimp only
  rcases hb with ⟨hst, how, hrc⟩ | ⟨u, how, hu, hrc, hst⟩
  · rw [if_pos (by omega)]
    refine ⟨Or.inr ⟨id, rfl, hid, Int.le_refl _, rfl⟩, ?_⟩
    show obj.recursionCount ≤ 1
    omega
  · rw [if_neg (by omega)]
    split
    · next hown =>
      refine ⟨Or.inr ⟨id, hown, hid, ?_, ?_⟩, ?_⟩
      · show 1 ≤ obj.recursionCount + 1
        omega
      · show obj.signalState - 1 = -(obj.recursionCount + 1)
        omega
      · show obj.recursionCount ≤ obj.recursionCount + 1
        omega
    · exact ⟨Or.inr ⟨u, how, hu, hrc, hst⟩, Int.le_refl _⟩

theorem Upheld.satisfyAll (hid : id ≠ 0) (os : List (Option Ptr)) (x : Ptr) :
    Upheld (objs x) (satisfyAll objs id os x) := by
  refine satisfyAll_invariant (I := fun a => Upheld (objs x) (a x)) ?_ (.refl _)
  intro a y _ ha
  by_cases hxy : x = y
  · subst hxy
    rw [Function.update_self]
    exact ha.trans (.satisfyWait _ hid)
  · rwa [Function.update_of_ne hxy]

/-- The wait list of an object is none of the account. -/
theorem Upheld.of_signals (h : s'.signals = s.signals) (x : Ptr) :
    Upheld (s.objects x) (s'.objects x) := by
  have hsig : s'.signals x = s.signals x := congrFun h x
  have hx : s'.objects x = { s.objects x with waitList := (s'.objects x).waitList } :=
    congrArg (fun a : SyncObject => { a with waitList := (s'.objects x).waitList }) hsig
  rw [hx]
  exact ⟨rfl, fun _ hb => ⟨hb, Int.le_refl _⟩⟩

/-- From `s` to `s'` the mutants are upheld and no thread starts to wait. -/
structure Upholds (s s' : WboxScheduler) : Prop where
  waits : NoNewWaits s s'
  mutants : ∀ x, Upheld (s.objects x) (s'.objects x)
  heapNext : s'.heapNext = s.heapNext

theorem Upholds.trans (h : Upholds s s') (h' : Upholds s' s'') : Upholds s s'' :=
  ⟨h.waits.trans h'.waits, fun x => (h.mutants x).trans (h'.mutants x),
    h'.heapNext.trans h.heapNext⟩

theorem Upholds.of_same (hw : NoNewWaits s s') (hs : SameObjects s s') : Upholds s s' :=
  ⟨hw, Upheld.of_signals hs.signals, hs.heapNext⟩

theorem Upholds.consume (s : WboxScheduler) (hid : id ≠ 0) (os : List (Option Ptr)) :
    Upholds s { s with objects := satisfyAll s.objects id os } :=
  ⟨.of_threads rfl, Upheld.satisfyAll hid os, rfl⟩

/-- The thread that calls is the one its wait is satisfied for. -/
theorem threadGetCurrentId_eq (h : currentThreadId vm ≠ 0) :
    threadGetCurrentId vm = currentThreadId vm := by
  unfold currentThreadId at h
  unfold threadGetCurrentId currentThreadId
  split
  · next hs =>
    rw [if_pos hs] at h
    cases hc : vm.sched.currentThread with
    | none => simp [hc] at h
    | some t => rfl
  · next hs => simp [hs] at h

theorem currentThreadId_eq (hs : vm.hasScheduler = true) (ht : vm.sched.currentThread = some t) :
    currentThreadId vm = (vm.sched.threads t).threadId := by
  simp [currentThreadId, hs, ht]

private theorem Upholds.pollOrBlock {os : List (Option Ptr)} {waitType : WaitType}
    {timeout : Option Int64} {alertable : UInt32} (hid : currentThreadId vm ≠ 0)
    (h : (pollOrBlock vm os waitType timeout alertable).run = some (s, status)) :
    Upholds vm.sched s := by
  have hrefl : Upholds vm.sched vm.sched := .of_same (.refl _) (.refl _)
  unfold Nt.pollOrBlock at h
  split at h
  · have hs : vm.sched = s := congrArg Prod.fst (Option.some.inj h)
    exact hs ▸ hrefl
  · split at h
    · next hsched =>
      obtain ⟨reads, habs⟩ := absTimeout_eq vm.sched timeout
      rw [habs] at h
      have hclock : Upholds vm.sched { vm.sched with clockReads := reads } :=
        .of_same (.of_threads rfl) ⟨rfl, rfl⟩
      apply hclock.trans
      rcases schedulerBlockThread_cases h with ⟨t, objs, hcur, -, hnow, rfl⟩ | ⟨hwaits, hsame, -⟩
      · obtain ⟨xs, rfl⟩ := satisfyNow_consumes hnow
        apply Upholds.consume
        rwa [currentThreadId_eq hsched hcur] at hid
      · exact .of_same hwaits hsame
    · have hs : vm.sched = s := congrArg Prod.fst (Option.some.inj h)
      exact hs ▸ hrefl

/-- A wait call of a guest thread upholds the mutants. -/
theorem Upholds.ntWait {args : WaitArgs} (hid : currentThreadId vm ≠ 0)
    (h : (ntWait vm args).run = some (s, status)) : Upholds vm.sched s := by
  have hrefl : Upholds vm.sched vm.sched := .of_same (.refl _) (.refl _)
  have hget : threadGetCurrentId vm ≠ 0 := by rwa [threadGetCurrentId_eq hid]
  cases args with
  | single handle alertable timeoutPtr =>
    simp only [Nt.ntWait, ntWaitForSingleObject] at h
    split at h
    · have hs : vm.sched = s := congrArg Prod.fst (Option.some.inj h)
      exact hs ▸ hrefl
    · next obj _ =>
      split at h
      · have hs := congrArg Prod.fst (Option.some.inj h)
        dsimp only at hs
        rw [← hs]
        exact Upholds.consume vm.sched hget [some obj]
      · exact .pollOrBlock hid h
  | multiple count handlesPtr waitType alertable timeoutPtr =>
    simp only [Nt.ntWait, ntWaitForMultipleObjects] at h
    split at h
    · have hs : vm.sched = s := congrArg Prod.fst (Option.some.inj h)
      exact hs ▸ hrefl
    · split at h
      · next objs st hnow =>
        obtain ⟨xs, rfl⟩ := satisfyNow_consumes hnow
        have hs := congrArg Prod.fst (Option.some.inj h)
        dsimp only at hs
        rw [← hs]
        exact Upholds.consume vm.sched hget xs
      · exact .pollOrBlock hid h

/-- A signal satisfies the waits of guest threads only, and so upholds the mutants. -/
theorem Upholds.signal {type : HandleType}
    (hw : ∀ t, (s.threads t).state = .waiting → (s.threads t).threadId ≠ 0)
    (h : schedulerSignalObject s o type = some s') : Upholds s s' := by
  refine schedulerSignalObject_invariant (R := fun a => Upholds s a) ?_
    (.of_same (.refl s) (.refl s)) h
  intro a wb t status b ha _ ht _ hwake
  have hid : (a.threads t).threadId ≠ 0 := by
    obtain ⟨hst, hsame⟩ := ha.waits t ht
    rw [hsame.threadId]
    exact hw t hst
  have hcons : Upholds a { a with objects := consumeWait a o t } := by
    rw [consumeWait_eq, Wait.consume]
    exact .consume a hid _
  have hwoken := wakeThread_woken hwake
  exact ha.trans (hcons.trans (.of_same (.woken hwoken) (.woken hwoken)))

/-- A step that upholds the mutants and touches no handle keeps the account. -/
theorem AccountsOk.of_upholds (hw : AccountsOk vm) (h : Upholds vm.sched vm'.sched)
    (hh : vm'.handles = vm.handles) (hs : vm'.hasScheduler = vm.hasScheduler) :
    AccountsOk vm' where
  scheduler := hs.trans hw.scheduler
  handles handle entry x hget hx := by
    rw [hh] at hget
    rw [h.heapNext, (h.mutants x).1]
    exact hw.handles handle entry x hget hx
  waiters t ht := by
    obtain ⟨hst, hsame⟩ := h.waits t ht
    rw [hsame.threadId]
    exact hw.waiters t hst
  accounted x hx ht := by
    rw [h.heapNext] at hx
    rw [(h.mutants x).1] at ht
    exact ((h.mutants x).2 ht (hw.accounted x hx ht)).1

/-- What a call that signals does to the scheduler: nothing, or it sets the state of an object
that a handle names, not a mutant's, and signals it. -/
theorem ntSignal_cases {args : SignalArgs} (hs : vm.hasScheduler = true)
    (h : (ntSignal vm args).run = some (vm', status)) :
    vm'.handles = vm.handles ∧ vm'.hasScheduler = vm.hasScheduler ∧
      (vm'.sched = vm.sched ∨ ∃ handle entry x v type,
        handlesGet vm.handles handle = some entry ∧ entry.objectData = some x ∧
        entry.type ≠ .mutant ∧
        schedulerSignalObject (vm.setSignalState x v).sched x type = some vm'.sched) := by
  have hret : ∀ {st}, SignalCall.run (.ret vm st) = some (vm', status) → vm' = vm := by
    intro st hr
    exact (congrArg Prod.fst (Option.some.inj hr)).symm
  have hsignal : ∀ {a : VmContext} {x : Ptr} {type : HandleType}, a.hasScheduler = true →
      (signalOrReturn a x type).run = some (vm', status) →
      vm'.handles = a.handles ∧ vm'.hasScheduler = a.hasScheduler ∧
        schedulerSignalObject a.sched x type = some vm'.sched := by
    intro a x type ha hr
    rw [signalOrReturn, if_pos ha] at hr
    obtain ⟨b, hb, he⟩ := Option.map_eq_some_iff.mp hr
    cases he
    exact ⟨rfl, rfl, hb⟩
  cases args with
  | setEvent eventHandle prevStatePtr =>
    simp only [ntSignal, ntSetEvent] at h
    split at h
    · rw [hret h]
      exact ⟨rfl, rfl, Or.inl rfl⟩
    · next entry hget =>
      split at h
      · rw [hret h]
        exact ⟨rfl, rfl, Or.inl rfl⟩
      · next htype =>
        split at h
        · rw [hret h]
          exact ⟨rfl, rfl, Or.inl rfl⟩
        · next x hx =>
          obtain ⟨hh, hhas, hsig⟩ := hsignal (by simpa [VmContext.setSignalState] using hs) h
          refine ⟨by simpa [VmContext.setSignalState] using hh,
            by simpa [VmContext.setSignalState] using hhas,
            Or.inr ⟨eventHandle, entry, x, 1, .event, hget, hx, ?_, ?_⟩⟩
          · rw [not_not.mp htype]
            decide
          · simpa using hsig
  | releaseSemaphore handle releaseCount prevCountPtr =>
    simp only [ntSignal, ntReleaseSemaphore] at h
    split at h
    · rw [hret h]
      exact ⟨rfl, rfl, Or.inl rfl⟩
    · split at h
      · rw [hret h]
        exact ⟨rfl, rfl, Or.inl rfl⟩
      · next x hx =>
        split at h
        · rw [hret h]
          exact ⟨rfl, rfl, Or.inl rfl⟩
        · unfold semaphoreObject at hx
          split at hx
          · cases hx
          · next entry hget =>
            split at hx
            · cases hx
            · next htype =>
              obtain ⟨hh, hhas, hsig⟩ := hsignal (by simpa [VmContext.setSignalState] using hs) h
              refine ⟨by simpa [VmContext.setSignalState] using hh,
                by simpa [VmContext.setSignalState] using hhas,
                Or.inr ⟨handle, entry, x,
                  toInt32 ((vm.sched.objects x).signalState + releaseCount.toInt32.toInt),
                  .semaphore, hget, hx, ?_, ?_⟩⟩
              · rw [not_not.mp htype]
                decide
              · simpa [VmContext.setSignalState] using hsig

/-- A call that signals upholds the mutants. -/
theorem AccountsOk.signal {args : SignalArgs} (hw : AccountsOk vm)
    (h : (ntSignal vm args).run = some (vm', status)) :
    Upholds vm.sched vm'.sched ∧ vm'.handles = vm.handles ∧
      vm'.hasScheduler = vm.hasScheduler := by
  obtain ⟨hh, hhas, hsame | ⟨handle, entry, x, v, type, hget, hx, htag, hsig⟩⟩ :=
    ntSignal_cases hw.scheduler h
  · exact ⟨hsame ▸ .of_same (.refl _) (.refl _), hh, hhas⟩
  · have hset : Upholds vm.sched (vm.setSignalState x v).sched := by
      refine ⟨.of_threads rfl, ?_, rfl⟩
      intro y
      by_cases hyx : y = x
      · subst hyx
        have hno : (vm.sched.objects y).type ≠ .mutant :=
          fun ht => htag ((hw.handles handle entry y hget hx).2.mpr ht)
        have hy : (vm.setSignalState y v).sched.objects y =
            { vm.sched.objects y with signalState := v } := Function.update_self _ _ _
        rw [hy]
        exact ⟨rfl, fun ht => absurd ht hno⟩
      · have hy : (vm.setSignalState x v).sched.objects y = vm.sched.objects y :=
          Function.update_of_ne hyx _ _
        rw [hy]
        exact .refl _
    have hwaits : ∀ t, ((vm.setSignalState x v).sched.threads t).state = .waiting →
        ((vm.setSignalState x v).sched.threads t).threadId ≠ 0 := hw.waiters
    exact ⟨hset.trans (.signal hwaits hsig), hh, hhas⟩

/-- A new mutant is free, or its creator owns it once. -/
theorem newMutant_balanced {initialOwner : UInt32} (hid : currentThreadId vm ≠ 0) :
    (newMutant vm initialOwner).Balanced := by
  unfold newMutant syncCreateMutant
  by_cases ho : initialOwner = 0
  · subst ho
    exact Or.inl ⟨rfl, rfl, rfl⟩
  · rw [decide_eq_true ho, if_pos rfl, if_pos ho]
    exact Or.inr ⟨currentThreadId vm, rfl, hid, Int.le_refl 1, rfl⟩

/-- Creating a mutant keeps the account. -/
theorem AccountsOk.create (hw : AccountsOk vm) (hid : currentThreadId vm ≠ 0)
    (handlePtr initialOwner : UInt32) :
    AccountsOk (ntCreateMutant vm handlePtr initialOwner).1 ∧
      ∀ x, x < vm.sched.heapNext →
        (ntCreateMutant vm handlePtr initialOwner).1.sched.objects x = vm.sched.objects x := by
  obtain ⟨hsched, hhandles, hhas⟩ := ntCreateMutant_eq vm handlePtr initialOwner
  have hnew : (ntCreateMutant vm handlePtr initialOwner).1.sched.objects vm.sched.heapNext =
      newMutant vm initialOwner := by
    rw [hsched]
    exact Function.update_self _ _ _
  have hold : ∀ x, x < vm.sched.heapNext →
      (ntCreateMutant vm handlePtr initialOwner).1.sched.objects x = vm.sched.objects x := by
    intro x hx
    rw [hsched]
    exact Function.update_of_ne (Nat.ne_of_lt hx) _ _
  have hnext : (ntCreateMutant vm handlePtr initialOwner).1.sched.heapNext =
      vm.sched.heapNext + 1 := by
    rw [hsched]
    rfl
  refine ⟨⟨hhas.trans hw.scheduler, ?_, ?_, ?_⟩, hold⟩
  · intro handle entry x hget hx
    have hcases : entry = ⟨.mutant, -1, 0, 0, some vm.sched.heapNext⟩ ∨
        handlesGet vm.handles handle = some entry := by
      rcases hhandles with hh | hh
      · exact Or.inr (hh ▸ hget)
      · rw [hh] at hget
        exact handlesGet_insert hget
    rcases hcases with rfl | hget
    · obtain rfl : vm.sched.heapNext = x := Option.some.inj hx
      rw [hnew, newMutant_type, hnext]
      exact ⟨Nat.lt_succ_self _, by simp⟩
    · obtain ⟨hlt, htag⟩ := hw.handles handle entry x hget hx
      rw [hold x hlt, hnext]
      exact ⟨Nat.lt_succ_of_lt hlt, htag⟩
  · rw [hsched]
    exact hw.waiters
  · intro x hx ht
    rw [hnext] at hx
    rcases Nat.lt_succ_iff_lt_or_eq.mp hx with hlt | rfl
    · rw [hold x hlt] at ht ⊢
      exact hw.accounted x hlt ht
    · rw [hnew]
      exact newMutant_balanced hid

/-- The mutants after a release of `o` with one recursion less. -/
private theorem decRecursion_objects (vm : VmContext) (o : Ptr) :
    (vm.decRecursion o).sched.objects o =
        { vm.sched.objects o with recursionCount := (vm.sched.objects o).recursionCount - 1 } ∧
      ∀ x, x ≠ o → (vm.decRecursion o).sched.objects x = vm.sched.objects x :=
  ⟨Function.update_self _ _ _, fun _ hx => Function.update_of_ne hx _ _⟩

private theorem given_up_objects (vm : VmContext) (o : Ptr)
    (hone : (vm.sched.objects o).recursionCount = 1) :
    ((vm.decRecursion o).freeMutant o).sched.objects o =
        { vm.sched.objects o with
          recursionCount := 0
          ownerThreadId := 0
          signalState := 1 } ∧
      ∀ x, x ≠ o → ((vm.decRecursion o).freeMutant o).sched.objects x = vm.sched.objects x := by
  obtain ⟨hself, hne⟩ := decRecursion_objects vm o
  constructor
  · have hfree : ((vm.decRecursion o).freeMutant o).sched.objects o =
        { (vm.decRecursion o).sched.objects o with ownerThreadId := 0, signalState := 1 } :=
      Function.update_self _ _ _
    rw [hfree, hself, hone]
    rfl
  · intro x hx
    have hfree : ((vm.decRecursion o).freeMutant o).sched.objects x =
        (vm.decRecursion o).sched.objects x := Function.update_of_ne hx _ _
    rw [hfree, hne x hx]

/-- A release keeps the account unless it is nested, which spoils it; and it lowers the count of
no mutant but the one it releases, which the caller owns. -/
theorem AccountsOk.release {handle prevCountPtr : UInt32} (hw : AccountsOk vm)
    (hid : currentThreadId vm ≠ 0)
    (h : mutantStep vm (.release handle prevCountPtr) = some vm') :
    AccountsOk vm' ∧ (∀ x, (vm.sched.objects x).recursionCount ≤
        (vm'.sched.objects x).recursionCount) ∧
      (∀ o, mutantObject vm handle = some o →
        (vm.sched.objects o).ownerThreadId ≠ currentThreadId vm) ∨
    ∃ o, mutantObject vm handle = some o ∧
      (vm.sched.objects o).OwnedBy (currentThreadId vm) ∧ o < vm.sched.heapNext ∧
      (vm.sched.objects o).type = .mutant ∧
      (∀ x, x ≠ o → vm'.sched.objects x = vm.sched.objects x) ∧
      ((vm.sched.objects o).recursionCount ≤ 1 → AccountsOk vm') ∧
      (1 < (vm.sched.objects o).recursionCount → ¬ Accounted vm') := by
  obtain ⟨hh, hhas, hsched⟩ := release_spec h hw.scheduler
  rcases hsched with ⟨hsame, hno⟩ | ⟨o, hobj, howner, hcases⟩
  · refine Or.inl ⟨hw.of_upholds (hsame ▸ .of_same (.refl _) (.refl _)) hh hhas, ?_, hno⟩
    intro x
    exact Int.le_of_eq (by rw [hsame])
  · obtain ⟨hlt, hmut⟩ : o < vm.sched.heapNext ∧ (vm.sched.objects o).type = .mutant := by
      unfold mutantObject at hobj
      split at hobj
      · cases hobj
      · next entry hget =>
        split at hobj
        · cases hobj
        · next htype =>
          obtain ⟨hlt, htag⟩ := hw.handles handle entry o hget hobj
          exact ⟨hlt, htag.mp (not_not.mp htype)⟩
    have howned : (vm.sched.objects o).OwnedBy (currentThreadId vm) := by
      rcases hw.accounted o hlt hmut with ⟨-, hfree, -⟩ | ⟨u, hu, hu0, hrc, hst⟩
      · exact absurd (howner.symm.trans hfree) hid
      · exact ⟨howner, hid, hrc, hst⟩
    refine Or.inr ⟨o, hobj, howned, hlt, hmut, ?_⟩
    obtain ⟨-, -, hrc, hst⟩ := howned
    rcases hcases with ⟨hone, hdec⟩ | ⟨hone, hfree⟩
    · obtain ⟨hself, hne⟩ := decRecursion_objects vm o
      rw [← hdec] at hself hne
      refine ⟨hne, fun hle => by omega, ?_⟩
      intro hnest hacc
      have hbal : (vm'.sched.objects o).Balanced := by
        apply hacc o
        · rw [hdec]
          exact hlt
        · rw [hself]
          exact hmut
      rw [hself] at hbal
      rcases hbal with ⟨hone', -, -⟩ | ⟨u, -, -, -, hst'⟩
      · dsimp only at hone'
        omega
      · dsimp only at hst'
        omega
    · obtain ⟨hself, hne⟩ := given_up_objects vm o hone
      rw [← hfree] at hself hne
      refine ⟨hne, ?_, fun hnest => by omega⟩
      intro _
      have htype : ∀ x, (vm'.sched.objects x).type = (vm.sched.objects x).type := by
        intro x
        by_cases hx : x = o
        · rw [hx, hself]
        · rw [hne x hx]
      have hnext : vm'.sched.heapNext = vm.sched.heapNext := by rw [hfree]; rfl
      refine ⟨hhas.trans hw.scheduler, ?_, ?_, ?_⟩
      · intro handle' entry x hget hx
        rw [hh] at hget
        rw [htype, hnext]
        exact hw.handles handle' entry x hget hx
      · rw [hfree]
        exact hw.waiters
      · intro x hx hty
        rw [hnext] at hx
        rw [htype] at hty
        by_cases hxo : x = o
        · rw [hxo, hself]
          exact Or.inl ⟨rfl, rfl, rfl⟩
        · rw [hne x hxo]
          exact hw.accounted x hx hty

/-- A step that is no release is no nested release. -/
theorem notNested_of_ne (h : ∀ handle prevCountPtr, e ≠ .mutant (.release handle prevCountPtr)) :
    NotNested vm e :=
  fun handle prevCountPtr _ he => absurd he (h handle prevCountPtr)

/-- What a step does to the account: it keeps it and lowers no count, or it is a release by the
owner. -/
theorem AccountsOk.event (hw : AccountsOk vm) (hs : mutantEventStep vm e = some vm') :
    AccountsOk vm' ∧ NotNested vm e ∧ (∀ x, x < vm.sched.heapNext →
        (vm.sched.objects x).type = .mutant →
        (vm.sched.objects x).recursionCount ≤ (vm'.sched.objects x).recursionCount) ∨
    ∃ handle prevCountPtr o, e = .mutant (.release handle prevCountPtr) ∧
      mutantObject vm handle = some o ∧
      (vm.sched.objects o).OwnedBy (currentThreadId vm) ∧
      (∀ x, x ≠ o → vm'.sched.objects x = vm.sched.objects x) ∧
      ((vm.sched.objects o).recursionCount ≤ 1 → AccountsOk vm') ∧
      (1 < (vm.sched.objects o).recursionCount → ¬ Accounted vm') := by
  unfold mutantEventStep at hs
  split at hs
  · cases hs
  · next hcall =>
    have hkeep : Upholds vm.sched vm'.sched → ∀ x, x < vm.sched.heapNext →
        (vm.sched.objects x).type = .mutant →
        (vm.sched.objects x).recursionCount ≤ (vm'.sched.objects x).recursionCount :=
      fun hu x hx ht => ((hu.mutants x).2 ht (hw.accounted x hx ht)).2
    cases e with
    | signal args =>
      obtain ⟨⟨b, status⟩, hrun, rfl⟩ := Option.map_eq_some_iff.mp hs
      obtain ⟨hu, hh, hhas⟩ := hw.signal hrun
      exact Or.inl ⟨hw.of_upholds hu hh hhas, notNested_of_ne (by simp), hkeep hu⟩
    | mutant op =>
      cases op with
      | create handlePtr initialOwner =>
        have hid : currentThreadId vm ≠ 0 := fun h0 => hcall ⟨rfl, h0⟩
        obtain ⟨hok, hold⟩ := hw.create hid handlePtr initialOwner
        have hvm : (ntCreateMutant vm handlePtr initialOwner).1 = vm' := Option.some.inj hs
        rw [← hvm]
        refine Or.inl ⟨hok, notNested_of_ne (by simp), ?_⟩
        intro x hx _
        exact Int.le_of_eq (by rw [hold x hx])
      | wait args =>
        have hid : currentThreadId vm ≠ 0 := fun h0 => hcall ⟨rfl, h0⟩
        obtain ⟨⟨s, status⟩, hrun, rfl⟩ := Option.map_eq_some_iff.mp hs
        have hu : Upholds vm.sched s := .ntWait hid hrun
        exact Or.inl ⟨hw.of_upholds hu rfl rfl, notNested_of_ne (by simp), hkeep hu⟩
      | release handle prevCountPtr =>
        have hid : currentThreadId vm ≠ 0 := fun h0 => hcall ⟨rfl, h0⟩
        rcases hw.release hid hs with ⟨hok, hle, hno⟩ | ⟨o, hobj, hown, -, -, hrest⟩
        · refine Or.inl ⟨hok, ?_, fun x _ _ => hle x⟩
          rintro handle' _ o he hobj howner
          cases he
          exact absurd howner (hno o hobj)
        · exact Or.inr ⟨handle, prevCountPtr, o, rfl, hobj, hown, hrest⟩
      | tick =>
        have hvm := Option.some.inj hs
        have hu : Upholds vm.sched (schedulerTick vm.sched) := .of_same (.tick _) (.tick _)
        rw [← hvm]
        exact Or.inl ⟨hw.of_upholds hu rfl rfl, notNested_of_ne (by simp),
          fun x hx ht => ((hu.mutants x).2 ht (hw.accounted x hx ht)).2⟩
      | switch =>
        have hvm := Option.some.inj hs
        have hu : Upholds vm.sched (schedulerSwitch vm.sched) := .of_same (.switch _) (.switch _)
        rw [← hvm]
        exact Or.inl ⟨hw.of_upholds hu rfl rfl, notNested_of_ne (by simp),
          fun x hx ht => ((hu.mutants x).2 ht (hw.accounted x hx ht)).2⟩

/-- A step that is no nested release keeps the account. -/
theorem AccountsOk.step (hw : AccountsOk vm) (hn : NotNested vm e)
    (hs : mutantEventStep vm e = some vm') : AccountsOk vm' := by
  rcases hw.event hs with ⟨hok, -⟩ | ⟨handle, prevCountPtr, o, he, hobj, hown, -, hkeep, -⟩
  · exact hok
  · exact hkeep (hn handle prevCountPtr o he hobj hown.1)

end Wbox.Nt
