import Wbox.Nt.Lifetime

/-!
# The count of a semaphore

`NtReleaseSemaphore` adds the release count to the count of a semaphore before it compares with
the limit (`src/nt/ntdll.c:1187–1205`). Runs of creations, of calls that signal and of waits keep
every count between zero and its limit exactly if no such sum exceeds an `int32_t`.
-/

namespace Wbox.Nt

open Wbox.Cpu Wbox.Lib Wbox.Thread Wbox.Vm

/-- The calls on semaphores, those that complete waits for them, and the switches between. -/
inductive SemaphoreOp where
  | create (allocOk : Bool) (call : CreateCall)
  | signal (args : SignalArgs)
  | wait (args : WaitArgs)
  | tick
  | switch
  | checkTimeouts

/-- One step; a wait takes as long as the call does. -/
def semaphoreStep (v : NtVm) : SemaphoreOp → Option NtVm
  | .create allocOk call => some (ntCreate v allocOk call).v
  | .signal args => (ntSignal v.context args).run.map fun r => v.withContext r.1
  | .wait args => (ntWait v.context args).run.map fun r => v.withSched r.1
  | .tick => some (v.withSched (schedulerTick v.sched))
  | .switch => some (v.withSched (schedulerSwitch v.sched))
  | .checkTimeouts => (schedulerCheckTimeouts v.sched).map v.withSched

/-- The count of a semaphore is between zero and its limit. -/
def SyncObject.WithinLimit (obj : SyncObject) : Prop :=
  0 ≤ obj.signalState ∧ obj.signalState ≤ obj.limit

/-- Every semaphore has such a count. -/
def CountsWithin (v : NtVm) : Prop :=
  ∀ o, (v.sched.objects o).type = .semaphore → (v.sched.objects o).WithinLimit

/-- A release that would exceed the limit is refused and changes nothing. -/
def RefusesSurplus (v : NtVm) : SemaphoreOp → Prop
  | .signal (.releaseSemaphore handle releaseCount prevCountPtr) =>
      ∀ sem, semaphoreObject v.context handle = some sem → 0 < releaseCount.toInt32.toInt →
        (v.sched.objects sem).limit <
          (v.sched.objects sem).signalState + releaseCount.toInt32.toInt →
        (ntReleaseSemaphore v.context handle releaseCount prevCountPtr).run =
          some (v.context, statusSemaphoreLimitExceeded)
  | _ => True

/-- The sum that a release compares with the limit is an `int32_t`. -/
def SumFits (v : NtVm) : SemaphoreOp → Prop
  | .signal (.releaseSemaphore handle releaseCount _) =>
      ∀ sem, semaphoreObject v.context handle = some sem →
        (v.sched.objects sem).signalState + releaseCount.toInt32.toInt < 2 ^ 31
  | _ => True

/-- The state of a run: the counts are within limits that are `int32_t`s, and the tag of a handle
says whether its object is a semaphore. -/
structure SemaphoresOk (v : NtVm) : Prop where
  within : CountsWithin v
  limits : ∀ o, (v.sched.objects o).type = .semaphore → (v.sched.objects o).limit < 2 ^ 31
  fresh : ∀ o, v.sched.heapNext ≤ o → (v.sched.objects o).type ≠ .semaphore
  handles : ∀ handle entry o, handlesGet v.handles handle = some entry →
    entry.objectData = some o →
    o < v.sched.heapNext ∧ (entry.type = .semaphore ↔ (v.sched.objects o).type = .semaphore)

/-- The object is the same still, and if it is a semaphore it has been drawn from at most. -/
structure Drawn (obj obj' : SyncObject) : Prop where
  type : obj'.type = obj.type
  limit : obj'.limit = obj.limit
  le : obj.type = .semaphore → obj'.signalState ≤ obj.signalState
  ge : obj.type = .semaphore → min 0 obj.signalState ≤ obj'.signalState

/-- From `s` to `s'` objects have been drawn from at most. -/
structure Draws (s s' : WboxScheduler) : Prop where
  objects : ∀ x, Drawn (s.objects x) (s'.objects x)
  heapNext : s'.heapNext = s.heapNext

variable {v v' : NtVm} {vm vm' : VmContext} {s s' s'' : WboxScheduler} {status : UInt32}
  {x sem : Ptr} {op : SemaphoreOp} {objs : Objects}

section Drawn

variable {a b c : SyncObject}

theorem Drawn.refl (obj : SyncObject) : Drawn obj obj :=
  ⟨rfl, rfl, fun _ => Int.le_refl _, fun _ => Int.min_le_right _ _⟩

theorem Drawn.trans (h : Drawn a b) (h' : Drawn b c) : Drawn a c where
  type := h'.type.trans h.type
  limit := h'.limit.trans h.limit
  le ht := Int.le_trans (h'.le (h.type.trans ht)) (h.le ht)
  ge ht := by
    have hab := h.ge ht
    have hbc := h'.ge (h.type.trans ht)
    omega

/-- A wait that is satisfied takes one of a count that is positive. -/
theorem Drawn.satisfyWait (obj : SyncObject) (id : UInt32) :
    Drawn obj (syncSatisfyWait obj id) := by
  refine ⟨syncSatisfyWait_type obj id, ?_, ?_, ?_⟩
  · unfold syncSatisfyWait
    split <;> (try split) <;> (try split) <;> rfl
  · intro ht
    unfold syncSatisfyWait
    rw [ht]
    dsimp only
    split
    · show obj.signalState - 1 ≤ obj.signalState
      omega
    · exact Int.le_refl _
  · intro ht
    unfold syncSatisfyWait
    rw [ht]
    dsimp only
    split
    · show min 0 obj.signalState ≤ obj.signalState - 1
      omega
    · exact Int.min_le_right _ _

theorem Drawn.satisfyAll (id : UInt32) (os : List (Option Ptr)) (x : Ptr) :
    Drawn (objs x) (satisfyAll objs id os x) := by
  refine satisfyAll_invariant (I := fun a => Drawn (objs x) (a x)) ?_ (.refl _)
  intro a y _ ha
  by_cases hxy : x = y
  · subst hxy
    rw [Function.update_self]
    exact ha.trans (.satisfyWait _ id)
  · rwa [Function.update_of_ne hxy]

/-- A count within its limit stays within it. -/
theorem Drawn.withinLimit (h : Drawn a b) (ht : a.type = .semaphore) (ha : a.WithinLimit) :
    b.WithinLimit := by
  have hle := h.le ht
  have hge := h.ge ht
  obtain ⟨hzero, hlimit⟩ := ha
  constructor
  · omega
  · rw [h.limit]
    omega

end Drawn

section Draws

theorem Draws.refl (s : WboxScheduler) : Draws s s := ⟨fun _ => .refl _, rfl⟩

theorem Draws.trans (h : Draws s s') (h' : Draws s' s'') : Draws s s'' :=
  ⟨fun x => (h.objects x).trans (h'.objects x), h'.heapNext.trans h.heapNext⟩

/-- The wait list of a semaphore is not its count. -/
theorem Draws.of_same (h : SameObjects s s') : Draws s s' where
  objects x := by
    have hsignal : s'.signals x = s.signals x := congrFun h.signals x
    have hx : s'.objects x = { s.objects x with waitList := (s'.objects x).waitList } :=
      congrArg (fun a : SyncObject => { a with waitList := (s'.objects x).waitList }) hsignal
    rw [hx]
    exact ⟨rfl, rfl, fun _ => Int.le_refl _, fun _ => Int.min_le_right _ _⟩
  heapNext := h.heapNext

theorem Draws.consume (s : WboxScheduler) (id : UInt32) (os : List (Option Ptr)) :
    Draws s { s with objects := satisfyAll s.objects id os } :=
  ⟨fun x => Drawn.satisfyAll id os x, rfl⟩

/-- A wait call. -/
theorem Draws.ntWait {args : WaitArgs} (h : (ntWait vm args).run = some (s, status)) :
    Draws vm.sched s := by
  rcases ntWait_waitDone h with ⟨id, xs, rfl⟩ | ⟨reads, os, waitType, timeout, alertable, hblock⟩
  · exact .consume vm.sched id xs
  · have hclock : Draws vm.sched { vm.sched with clockReads := reads } := .of_same ⟨rfl, rfl⟩
    apply hclock.trans
    rcases schedulerBlockThread_cases hblock with ⟨t, objs, -, -, hnow, rfl⟩ | ⟨-, hsame, -⟩
    · obtain ⟨xs, rfl⟩ := satisfyNow_consumes hnow
      exact .consume _ _ xs
    · exact .of_same hsame

/-- The threads that a signal wakes draw from the objects they have waited for. -/
theorem Draws.signal {type : HandleType} (h : schedulerSignalObject s x type = some s') :
    Draws s s' := by
  refine schedulerSignalObject_invariant (R := fun a => Draws s a) ?_ (.refl s) h
  intro a wb t status b ha _ _ _ hwake
  have hcons : Draws a { a with objects := consumeWait a x t } := by
    rw [consumeWait_eq, Wait.consume]
    exact .consume a _ _
  exact ha.trans (hcons.trans (.of_same (.woken (wakeThread_woken hwake))))

theorem Draws.signalOrReturn {type : HandleType}
    (h : (signalOrReturn vm x type).run = some (vm', status)) :
    vm'.handles = vm.handles ∧ Draws vm.sched vm'.sched := by
  unfold Nt.signalOrReturn at h
  split at h
  · obtain ⟨b, hb, he⟩ := Option.map_eq_some_iff.mp h
    cases he
    exact ⟨rfl, .signal hb⟩
  · cases h
    exact ⟨rfl, .refl _⟩

end Draws

section Signal

variable {handle releaseCount prevCountPtr : UInt32}

/-- A release that passes the test sets the count to the sum, from which waits may draw. -/
theorem ntReleaseSemaphore_passes (hpos : 0 < releaseCount.toInt32.toInt)
    (hobj : semaphoreObject vm handle = some sem)
    (htest : toInt32 ((vm.sched.objects sem).signalState + releaseCount.toInt32.toInt) ≤
      (vm.sched.objects sem).limit)
    (h : (ntReleaseSemaphore vm handle releaseCount prevCountPtr).run = some (vm', status)) :
    vm'.handles = vm.handles ∧ Draws (vm.setSignalState sem
      (toInt32 ((vm.sched.objects sem).signalState + releaseCount.toInt32.toInt))).sched
      vm'.sched := by
  unfold ntReleaseSemaphore at h
  simp only [hobj, if_neg (Int.not_le.mpr hpos), if_neg (Int.not_lt.mpr htest)] at h
  obtain ⟨hhandles, hdraws⟩ := Draws.signalOrReturn h
  refine ⟨hhandles.trans (VmContext.writeOut_handles _ _ _), ?_⟩
  simpa only [VmContext.setSignalState, VmContext.writeOut_sched] using hdraws

/-- A release that does not pass it changes nothing. -/
theorem ntReleaseSemaphore_refuses (prevCountPtr : UInt32) (hpos : 0 < releaseCount.toInt32.toInt)
    (hobj : semaphoreObject vm handle = some sem)
    (htest : (vm.sched.objects sem).limit <
      toInt32 ((vm.sched.objects sem).signalState + releaseCount.toInt32.toInt)) :
    (ntReleaseSemaphore vm handle releaseCount prevCountPtr).run =
      some (vm, statusSemaphoreLimitExceeded) := by
  unfold ntReleaseSemaphore
  simp only [hobj, if_neg (Int.not_le.mpr hpos), gt_iff_lt, if_pos htest]
  rfl

/-- A release that gets no further than its parameters changes nothing. -/
theorem ntReleaseSemaphore_invalid
    (hbad : ∀ sem, semaphoreObject vm handle = some sem → ¬ 0 < releaseCount.toInt32.toInt)
    (h : (ntReleaseSemaphore vm handle releaseCount prevCountPtr).run = some (vm', status)) :
    vm' = vm := by
  unfold ntReleaseSemaphore at h
  dsimp only at h
  split at h
  · exact (congrArg Prod.fst (Option.some.inj h)).symm
  · next hpos =>
    split at h
    · exact (congrArg Prod.fst (Option.some.inj h)).symm
    · next sem hobj => exact absurd (Int.not_le.mp hpos) (hbad sem hobj)

/-- `NtSetEvent` changes nothing, or signals the event its handle names. -/
theorem ntSetEvent_cases {eventHandle prevStatePtr : UInt32}
    (h : (ntSetEvent vm eventHandle prevStatePtr).run = some (vm', status)) :
    vm' = vm ∨ ∃ entry event, handlesGet vm.handles eventHandle = some entry ∧
      entry.type = .event ∧ entry.objectData = some event ∧ vm'.handles = vm.handles ∧
      Draws (vm.setSignalState event 1).sched vm'.sched := by
  unfold ntSetEvent at h
  split at h
  · exact Or.inl (congrArg Prod.fst (Option.some.inj h)).symm
  · next entry hget =>
    split at h
    · exact Or.inl (congrArg Prod.fst (Option.some.inj h)).symm
    · next htype =>
      split at h
      · exact Or.inl (congrArg Prod.fst (Option.some.inj h)).symm
      · next event hevent =>
        obtain ⟨hhandles, hdraws⟩ := Draws.signalOrReturn h
        refine Or.inr ⟨entry, event, hget, not_not.mp htype, hevent, ?_, ?_⟩
        · exact hhandles.trans (VmContext.writeOut_handles _ _ _)
        · simpa only [VmContext.setSignalState, VmContext.writeOut_sched] using hdraws

end Signal

/-- What a semaphore handle names is a semaphore. -/
theorem SemaphoresOk.semaphore (h : SemaphoresOk v) {handle : UInt32}
    (hobj : semaphoreObject v.context handle = some sem) :
    sem < v.sched.heapNext ∧ (v.sched.objects sem).type = .semaphore := by
  unfold semaphoreObject at hobj
  split at hobj
  · cases hobj
  · next entry hget =>
    split at hobj
    · cases hobj
    · next htype =>
      obtain ⟨hlt, htag⟩ := h.handles handle entry sem hget hobj
      exact ⟨hlt, htag.mp (not_not.mp htype)⟩

/-- A step that draws from semaphores at most keeps their counts within the limits. -/
theorem SemaphoresOk.of_draws (h : SemaphoresOk v) (hdraws : Draws v.sched v'.sched)
    (hhandles : v'.handles = v.handles) : SemaphoresOk v' where
  within o ht := by
    have hdrawn := hdraws.objects o
    rw [hdrawn.type] at ht
    exact hdrawn.withinLimit ht (h.within o ht)
  limits o ht := by
    have hdrawn := hdraws.objects o
    rw [hdrawn.type] at ht
    rw [hdrawn.limit]
    exact h.limits o ht
  fresh o ho := by
    rw [hdraws.heapNext] at ho
    rw [(hdraws.objects o).type]
    exact h.fresh o ho
  handles handle entry o hget ho := by
    rw [hhandles] at hget
    rw [hdraws.heapNext, (hdraws.objects o).type]
    exact h.handles handle entry o hget ho

/-- So does a step that sets the state of one object, if that is within the limit in the case of
a semaphore. -/
theorem SemaphoresOk.set (h : SemaphoresOk v) (x : Ptr) (state : Int)
    (hstate : (v.sched.objects x).type = .semaphore →
      0 ≤ state ∧ state ≤ (v.sched.objects x).limit) :
    SemaphoresOk (v.withContext (v.context.setSignalState x state)) := by
  have hself : (v.context.setSignalState x state).sched.objects x =
      { v.sched.objects x with signalState := state } := Function.update_self _ _ _
  have hne : ∀ y, y ≠ x → (v.context.setSignalState x state).sched.objects y =
      v.sched.objects y := fun y hy => Function.update_of_ne hy _ _
  have htype : ∀ y, ((v.context.setSignalState x state).sched.objects y).type =
      (v.sched.objects y).type := by
    intro y
    by_cases hy : y = x
    · rw [hy, hself]
    · rw [hne y hy]
  constructor
  · intro y ht
    show ((v.context.setSignalState x state).sched.objects y).WithinLimit
    rw [show ((v.withContext (v.context.setSignalState x state)).sched.objects y).type =
      (v.sched.objects y).type from htype y] at ht
    by_cases hy : y = x
    · subst hy
      rw [hself]
      exact hstate ht
    · rw [hne y hy]
      exact h.within y ht
  · intro y ht
    show ((v.context.setSignalState x state).sched.objects y).limit < 2 ^ 31
    rw [show ((v.withContext (v.context.setSignalState x state)).sched.objects y).type =
      (v.sched.objects y).type from htype y] at ht
    by_cases hy : y = x
    · subst hy
      rw [hself]
      exact h.limits y ht
    · rw [hne y hy]
      exact h.limits y ht
  · intro y hy
    show ((v.context.setSignalState x state).sched.objects y).type ≠ .semaphore
    rw [htype]
    exact h.fresh y hy
  · intro handle entry y hget hy
    show y < v.sched.heapNext ∧ (entry.type = .semaphore ↔
      ((v.context.setSignalState x state).sched.objects y).type = .semaphore)
    rw [htype]
    exact h.handles handle entry y hget hy

section Create

/-- A new entry of the handle table, or an old one. -/
theorem handlesGet_addObject {ht : HandleTable} {type : HandleType} {object : Ptr}
    {handle : UInt32} {entry : HandleEntry}
    (h : handlesGet (handlesAddObject ht type (some object)).1 handle = some entry) :
    entry.type = type ∧ entry.objectData = some object ∨ handlesGet ht handle = some entry := by
  rcases handlesGet_insert h with rfl | hold
  · exact Or.inl ⟨rfl, rfl⟩
  · exact Or.inr hold

/-- A new object keeps the counts, if it is a semaphore within its limit or has another tag. -/
theorem SemaphoresOk.addObject (h : SemaphoresOk v) {obj : SyncObject} {type : HandleType}
    (hsched : v'.sched = (v.context.allocObject obj).sched)
    (hhandles : v'.handles = v.handles ∨
      v'.handles = (handlesAddObject v.handles type (some v.sched.heapNext)).1)
    (htag : type = .semaphore ↔ obj.type = .semaphore)
    (hwithin : obj.type = .semaphore → obj.WithinLimit ∧ obj.limit < 2 ^ 31) :
    SemaphoresOk v' := by
  have hnew : v'.sched.objects v.sched.heapNext = obj := by
    rw [hsched]
    exact Function.update_self _ _ _
  have hold : ∀ o, o ≠ v.sched.heapNext → v'.sched.objects o = v.sched.objects o := by
    intro o ho
    rw [hsched]
    exact Function.update_of_ne ho _ _
  have hnext : v'.sched.heapNext = v.sched.heapNext + 1 := by
    rw [hsched]
    rfl
  constructor
  · intro o ht
    by_cases ho : o = v.sched.heapNext
    · rw [ho, hnew] at ht ⊢
      exact (hwithin ht).1
    · rw [hold o ho] at ht ⊢
      exact h.within o ht
  · intro o ht
    by_cases ho : o = v.sched.heapNext
    · rw [ho, hnew] at ht ⊢
      exact (hwithin ht).2
    · rw [hold o ho] at ht ⊢
      exact h.limits o ht
  · intro o ho
    rw [hnext] at ho
    rw [hold o (Nat.ne_of_gt ho)]
    exact h.fresh o (Nat.le_of_succ_le ho)
  · intro handle entry o hget ho
    have hcases : entry.type = type ∧ entry.objectData = some v.sched.heapNext ∨
        handlesGet v.handles handle = some entry := by
      rcases hhandles with hsame | hadd
      · exact Or.inr (hsame ▸ hget)
      · rw [hadd] at hget
        exact handlesGet_addObject hget
    rw [hnext]
    rcases hcases with ⟨htype, hdata⟩ | hget
    · obtain rfl : v.sched.heapNext = o := Option.some.inj (hdata.symm.trans ho)
      rw [hnew, htype]
      exact ⟨Nat.lt_succ_self _, htag⟩
    · obtain ⟨hlt, hiff⟩ := h.handles handle entry o hget ho
      rw [hold o (Nat.ne_of_lt hlt)]
      exact ⟨Nat.lt_succ_of_lt hlt, hiff⟩

theorem SemaphoresOk.createObject (h : SemaphoresOk v) (failed : UInt32 → Bool) (allocOk : Bool)
    {type : HandleType} {obj : SyncObject} (handlePtr : UInt32)
    (htag : type = .semaphore ↔ obj.type = .semaphore)
    (hwithin : obj.type = .semaphore → obj.WithinLimit ∧ obj.limit < 2 ^ 31) :
    SemaphoresOk (createObject failed v allocOk type obj handlePtr).v := by
  rcases createObject_effect failed v allocOk type obj handlePtr with hsame | ⟨hsched, hhandles⟩
  · rw [hsame]
    exact h
  · exact h.addObject hsched hhandles htag hwithin

theorem sameObjects_addThread (s : WboxScheduler) (thread : Ptr) :
    SameObjects s (schedulerAddThread s thread) := by
  unfold schedulerAddThread
  dsimp only
  split
  · refine SameObjects.trans ?_ (.addReady _ thread)
    exact ⟨rfl, rfl⟩
  · exact ⟨rfl, rfl⟩

/-- A new thread is no semaphore. -/
theorem SemaphoresOk.createThread (h : SemaphoresOk v) (allocOk : Bool)
    (args : NtCreateThreadArgs) : SemaphoresOk (ntCreateThread v allocOk args).v := by
  rcases ntCreateThread_effect v allocOk args with ⟨id, -, hhandles, hsched⟩ |
    ⟨start, stackBase, tebAddr, suspended, hhandles, hsched⟩
  · refine h.of_draws ?_ hhandles
    rw [hsched]
    exact .of_same ⟨rfl, rfl⟩
  · have hobjects : ∀ x, Drawn (v.sched.objects x)
        ((ntCreateThread v allocOk args).v.sched.objects x) := by
      intro x
      rw [hsched]
      split
      · exact (Draws.of_same (sameObjects_addThread
          (threadCreate v.sched start stackBase tebAddr suspended).1 v.sched.heapNext)).objects x
      · exact .refl _
    have hnext : (ntCreateThread v allocOk args).v.sched.heapNext = v.sched.heapNext + 1 := by
      rw [hsched]
      split
      · exact (sameObjects_addThread _ v.sched.heapNext).heapNext
      · rfl
    constructor
    · intro o ht
      rw [(hobjects o).type] at ht
      exact (hobjects o).withinLimit ht (h.within o ht)
    · intro o ht
      rw [(hobjects o).type] at ht
      rw [(hobjects o).limit]
      exact h.limits o ht
    · intro o ho
      rw [hnext] at ho
      rw [(hobjects o).type]
      exact h.fresh o (Nat.le_of_succ_le ho)
    · intro handle entry o hget ho
      rw [hhandles] at hget
      rw [hnext, (hobjects o).type]
      rcases handlesGet_addObject hget with ⟨htype, hdata⟩ | hget
      · obtain rfl : v.sched.heapNext = o := Option.some.inj (hdata.symm.trans ho)
        refine ⟨Nat.lt_succ_self _, iff_of_false ?_ (h.fresh _ (Nat.le_refl _))⟩
        rw [htype]
        decide
      · obtain ⟨hlt, hiff⟩ := h.handles handle entry o hget ho
        exact ⟨Nat.lt_succ_of_lt hlt, hiff⟩

theorem syncCreateEvent_type {type : DispType} {initialState : Bool} {event : SyncObject}
    (h : syncCreateEvent type initialState = some event) : event.type ≠ .semaphore := by
  unfold syncCreateEvent at h
  split at h
  · cases h
  · next hvalid =>
    rw [← Option.some.inj h]
    rintro rfl
    exact hvalid ⟨by decide, by decide⟩

theorem SemaphoresOk.create (h : SemaphoresOk v) (allocOk : Bool) (call : CreateCall) :
    SemaphoresOk (ntCreate v allocOk call).v := by
  cases call with
  | event handlePtr eventType initialState =>
    simp only [ntCreate, ntCreateEvent]
    split
    · exact h
    · split
      · exact h
      · generalize hmade : syncCreateEvent _ _ = made
        cases made with
        | none => exact h
        | some event =>
          have htype := syncCreateEvent_type hmade
          exact h.createObject isZeroHandle allocOk handlePtr (iff_of_false (by decide) htype)
            fun ht => absurd ht htype
  | semaphore handlePtr initialCount maxCount =>
    simp only [ntCreate, ntCreateSemaphore]
    split
    · exact h
    · next hvalid =>
      split
      · exact h
      · next sem hsem =>
        unfold syncCreateSemaphore at hsem
        rw [if_neg hvalid] at hsem
        rw [← Option.some.inj hsem]
        refine h.createObject isInvalidHandle allocOk handlePtr (iff_of_true rfl rfl) ?_
        intro _
        have hlt := Int32.toInt_lt maxCount.toInt32
        simp only [not_or, Int.not_le, Int.not_lt, gt_iff_lt] at hvalid
        exact ⟨⟨hvalid.2.1, hvalid.2.2⟩, hlt⟩
  | mutant handlePtr initialOwner =>
    have htype : (newMutant v.context initialOwner).type ≠ .semaphore := by
      rw [newMutant_type]
      decide
    exact h.createObject isInvalidHandle allocOk handlePtr (iff_of_false (by decide) htype)
      fun ht => absurd ht htype
  | thread args => exact h.createThread allocOk args

end Create

/-- A step of the run whose sum fits keeps the counts within the limits. -/
theorem SemaphoresOk.step (h : SemaphoresOk v) (hfits : SumFits v op)
    (hstep : semaphoreStep v op = some v') : SemaphoresOk v' := by
  cases op with
  | create allocOk call =>
    cases hstep
    exact h.create allocOk call
  | wait args =>
    obtain ⟨⟨s, status⟩, hrun, rfl⟩ := Option.map_eq_some_iff.mp hstep
    exact h.of_draws (.ntWait hrun) rfl
  | tick =>
    cases hstep
    exact h.of_draws (.of_same (.tick v.sched)) rfl
  | switch =>
    cases hstep
    exact h.of_draws (.of_same (.switch v.sched)) rfl
  | checkTimeouts =>
    obtain ⟨s, hs, rfl⟩ := Option.map_eq_some_iff.mp hstep
    exact h.of_draws (.of_same (.checkTimeouts hs)) rfl
  | signal args =>
    obtain ⟨⟨vm, status⟩, hrun, rfl⟩ := Option.map_eq_some_iff.mp hstep
    cases args with
    | setEvent eventHandle prevStatePtr =>
      rcases ntSetEvent_cases hrun with heq | ⟨entry, event, hget, htype, hdata, hhandles, hdraws⟩
      · rw [heq]
        exact h
      · have hevent : (v.sched.objects event).type ≠ .semaphore := by
          intro ht
          have htag := (h.handles eventHandle entry event hget hdata).2.mpr ht
          rw [htype] at htag
          cases htag
        exact (h.set event 1 fun ht => absurd ht hevent).of_draws hdraws hhandles
    | releaseSemaphore handle releaseCount prevCountPtr =>
      by_cases hvalid : ∃ sem, semaphoreObject v.context handle = some sem ∧
          0 < releaseCount.toInt32.toInt
      · obtain ⟨sem, hobj, hpos⟩ := hvalid
        obtain ⟨-, htype⟩ := h.semaphore hobj
        have hcount := h.within sem htype
        have hsum : toInt32 ((v.sched.objects sem).signalState + releaseCount.toInt32.toInt) =
            (v.sched.objects sem).signalState + releaseCount.toInt32.toInt :=
          toInt32_of_lt (by have hzero := hcount.1; omega) (hfits sem hobj)
        by_cases htest : toInt32 ((v.sched.objects sem).signalState +
            releaseCount.toInt32.toInt) ≤ (v.sched.objects sem).limit
        · obtain ⟨hhandles, hdraws⟩ := ntReleaseSemaphore_passes hpos hobj htest hrun
          refine (h.set sem _ ?_).of_draws hdraws hhandles
          intro _
          have hzero := hcount.1
          refine ⟨?_, htest⟩
          show 0 ≤ toInt32 ((v.sched.objects sem).signalState + releaseCount.toInt32.toInt)
          rw [hsum]
          omega
        · have hrefused := ntReleaseSemaphore_refuses prevCountPtr hpos hobj (Int.not_le.mp htest)
          have heq : v.context = vm :=
            congrArg Prod.fst (Option.some.inj (hrefused.symm.trans hrun))
          rw [← heq]
          exact h
      · have heq : vm = v.context := by
          refine ntReleaseSemaphore_invalid ?_ hrun
          exact fun sem hobj hpos => hvalid ⟨sem, hobj, hpos⟩
        rw [heq]
        exact h

/-- A release whose sum does not fit leaves a negative count. -/
theorem not_countsWithin (h : SemaphoresOk v) (hbad : ¬ SumFits v op)
    (hstep : semaphoreStep v op = some v') : ¬ CountsWithin v' := by
  cases op with
  | signal args =>
    cases args with
    | releaseSemaphore handle releaseCount prevCountPtr =>
      simp only [SumFits, not_forall, Int.not_lt] at hbad
      obtain ⟨sem, hobj, hsum⟩ := hbad
      obtain ⟨⟨vm, status⟩, hrun, rfl⟩ := Option.map_eq_some_iff.mp hstep
      obtain ⟨-, htype⟩ := h.semaphore hobj
      obtain ⟨hzero, hlimit⟩ := h.within sem htype
      have hbound := h.limits sem htype
      have hcount := Int32.toInt_lt releaseCount.toInt32
      have hneg : toInt32 ((v.sched.objects sem).signalState + releaseCount.toInt32.toInt) < 0 :=
        toInt32_neg hsum (by omega)
      obtain ⟨-, hdraws⟩ := ntReleaseSemaphore_passes (by omega) hobj
        (show _ ≤ (v.sched.objects sem).limit by
          show toInt32 ((v.sched.objects sem).signalState + releaseCount.toInt32.toInt) ≤ _
          omega) hrun
      have hset : (v.context.setSignalState sem (toInt32 ((v.sched.objects sem).signalState +
          releaseCount.toInt32.toInt))).sched.objects sem = { v.sched.objects sem with
            signalState := toInt32 ((v.sched.objects sem).signalState +
              releaseCount.toInt32.toInt) } := Function.update_self _ _ _
      have hdrawn := hdraws.objects sem
      rw [show (v.context.sched.objects sem).signalState =
        (v.sched.objects sem).signalState from rfl, hset] at hdrawn
      intro hwithin
      have hafter := (hwithin sem (hdrawn.type.trans htype)).1
      have hle := hdrawn.le htype
      dsimp only at hle
      have hafter' : 0 ≤ (vm.sched.objects sem).signalState := hafter
      omega
    | setEvent eventHandle prevStatePtr => exact absurd trivial hbad
  | create allocOk call => exact absurd trivial hbad
  | wait args => exact absurd trivial hbad
  | tick => exact absurd trivial hbad
  | switch => exact absurd trivial hbad
  | checkTimeouts => exact absurd trivial hbad

/-- Where the sum fits, the test is against the limit. -/
theorem SemaphoresOk.refusesSurplus (h : SemaphoresOk v) (hfits : SumFits v op) :
    RefusesSurplus v op := by
  cases op with
  | signal args =>
    cases args with
    | releaseSemaphore handle releaseCount prevCountPtr =>
      intro sem hobj hpos hsurplus
      obtain ⟨-, htype⟩ := h.semaphore hobj
      have hzero := (h.within sem htype).1
      refine ntReleaseSemaphore_refuses prevCountPtr hpos hobj ?_
      show (v.sched.objects sem).limit <
        toInt32 ((v.sched.objects sem).signalState + releaseCount.toInt32.toInt)
      rw [toInt32_of_lt (by omega) (hfits sem hobj)]
      exact hsurplus
    | setEvent eventHandle prevStatePtr => trivial
  | create allocOk call => trivial
  | wait args => trivial
  | tick => trivial
  | switch => trivial
  | checkTimeouts => trivial

/-- A machine after `handles_init` and `scheduler_init`. -/
def semaphoreStart (v : NtVm) (cpu : CpuState) (clock : Nat → UInt64) : NtVm :=
  (objectStart v cpu clock).v

theorem semaphoresOk_start (v : NtVm) (cpu : CpuState) (clock : Nat → UInt64) :
    SemaphoresOk (semaphoreStart v cpu clock) where
  within o ht := by cases ht
  limits o ht := by cases ht
  fresh o _ ht := by cases ht
  handles handle entry o hget ho := by
    obtain ⟨-, -, rfl⟩ := handlesGet_some hget
    have hnone := handlesInit_objectData handle.toNat
    rw [show (semaphoreStart v cpu clock).handles = handlesInit from rfl] at ho
    rw [hnone] at ho
    cases ho

/-- Along a run every count is between zero and its limit, and every surplus release is refused,
exactly if no release makes a sum that is no `int32_t`. -/
theorem semaphoreRun_withinLimit_iff {v : NtVm} {cpu : CpuState} {clock : Nat → UInt64}
    {ops : List SemaphoreOp} {tr : List NtVm}
    (h : trace semaphoreStep (semaphoreStart v cpu clock) ops = some tr) :
    ((∀ a ∈ tr, CountsWithin a) ∧
        ∀ (k : Nat) (a : NtVm) (op : SemaphoreOp), tr[k]? = some a → ops[k]? = some op →
          RefusesSurplus a op) ↔
      Guarded semaphoreStep SumFits (semaphoreStart v cpu clock) ops := by
  have hstep : ∀ a op b, SemaphoresOk a → SumFits a op → semaphoreStep a op = some b →
      SemaphoresOk b := fun a op b ha hfits hs => ha.step hfits hs
  have hiff := trace_forall_iff_guarded (fun a ha => ha.within) hstep
    (fun a op b ha hbad hs => not_countsWithin ha hbad hs) (semaphoresOk_start v cpu clock) h
  constructor
  · exact fun hall => hiff.mp hall.1
  · intro hg
    refine ⟨hiff.mpr hg, (guarded_iff_at h).mp ?_⟩
    exact hg.imp hstep (fun a op ha hfits => ha.refusesSurplus hfits) (semaphoresOk_start v cpu clock)

/-- A semaphore that is released up to its limit. -/
theorem semaphoreRun_to_limit : ∃ tr,
    trace semaphoreStep (semaphoreStart contextVm default fun _ => 0)
      [.create true (.semaphore 0 0 1), .signal (.releaseSemaphore 4 1 0)] = some tr ∧
    (∀ a ∈ tr, CountsWithin a) ∧
      ∀ (k : Nat) (a : NtVm) (op : SemaphoreOp), tr[k]? = some a →
        [.create true (.semaphore 0 0 1), .signal (.releaseSemaphore 4 1 0)][k]? = some op →
        RefusesSurplus a op := by
  have hrun : (trace semaphoreStep (semaphoreStart contextVm default fun _ => 0)
      [.create true (.semaphore 0 0 1), .signal (.releaseSemaphore 4 1 0)]).isSome = true := rfl
  obtain ⟨tr, htr⟩ := Option.isSome_iff_exists.mp hrun
  refine ⟨tr, htr, (semaphoreRun_withinLimit_iff htr).mpr ⟨trivial, ?_⟩⟩
  intro made hmade
  cases hmade
  refine ⟨?_, fun _ _ => trivial⟩
  intro sem hobj
  obtain rfl : sem = 2 := by
    cases hobj
    rfl
  decide +kernel

/-- A full semaphore with the highest limit is released once more: its count becomes negative. -/
theorem semaphoreRun_overflows : ∃ tr,
    trace semaphoreStep (semaphoreStart contextVm default fun _ => 0)
      [.create true (.semaphore 0 0x7FFFFFFF 0x7FFFFFFF),
        .signal (.releaseSemaphore 4 1 0)] = some tr ∧
    ∃ a ∈ tr, (a.sched.objects 2).type = .semaphore ∧ (a.sched.objects 2).limit = 2 ^ 31 - 1 ∧
      (a.sched.objects 2).signalState = -2 ^ 31 ∧ ¬ CountsWithin a := by
  refine ⟨_, rfl, _, List.mem_cons_of_mem _ (List.mem_cons_of_mem _ List.mem_cons_self), ?_⟩
  refine ⟨by decide +kernel, by decide +kernel, by decide +kernel, ?_⟩
  intro hwithin
  have hzero := (hwithin 2 (by decide +kernel)).1
  revert hzero
  decide +kernel

end Wbox.Nt
