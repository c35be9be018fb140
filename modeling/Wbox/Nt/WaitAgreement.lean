import Wbox.Nt.WaitSyscalls
import Wbox.Thread.Pending
import Wbox.Thread.WaitTypes

/-!
# One handle, two system calls

`NtWaitForSingleObject` and `NtWaitForMultipleObjects` look a handle up, test its object and
block in code of their own (`src/nt/ntdll.c:229–423`). Only the first one looks at the tag of the
handle; the second takes whatever the entry holds for a dispatcher object.
-/

namespace Wbox.Nt

open Wbox.Thread Wbox.Vm Wbox.Lib

/-- The tags of handles to dispatcher objects. -/
def HandleType.isDispatcher : HandleType → Bool
  | .event | .semaphore | .mutex | .mutant => true
  | _ => false

/-- The guest's array of one handle is mapped and holds the handle. -/
def ArrayHolds (vm : VmContext) (handlesPtr handle : UInt32) : Prop :=
  handlesPtr ≠ 0 ∧ pagingGetPhys vm.mem vm.paging handlesPtr ≠ 0 ∧
    memReadlPhys vm.mem (pagingGetPhys vm.mem vm.paging handlesPtr) = handle

/-- Two calls return the same status and leave the same state, but for the `wait_type` that the
caller's structure keeps of its last wait. -/
def SameReturn (vm : VmContext) (r r' : Option (WboxScheduler × UInt32)) : Prop :=
  r' = r ∨ ∃ t type, vm.sched.currentThread = some t ∧
    r' = r.map fun x => (x.1.setWaitType t type, x.2)

/-- If a call uses the object of the handle, it is a dispatcher object. -/
def AsDispatcher (vm : VmContext) (handle : UInt32) (used : Option Ptr) : Prop :=
  ∀ entry o, handlesGet vm.handles handle = some entry → used = some o →
    entry.type.isDispatcher = true

/-- The handle is one to an event, a semaphore or a mutex; without an object only for a
WaitAll. -/
def Waitable (vm : VmContext) (handle waitType : UInt32) : Prop :=
  ∃ entry, handlesGet vm.handles handle = some entry ∧
    (entry.type = .event ∨ entry.type = .semaphore ∨ entry.type = .mutex) ∧
    (entry.objectData = none → waitType ≠ 1)

variable {vm : VmContext} {handle handlesPtr waitType alertable timeoutPtr status : UInt32}
  {s s' : WboxScheduler} {o : Ptr}

theorem SameReturn.status_eq {r r' : Option (WboxScheduler × UInt32)} (h : SameReturn vm r r') :
    r'.map Prod.snd = r.map Prod.snd := by
  rcases h with rfl | ⟨t, type, -, rfl⟩
  · rfl
  · cases r with
    | none => rfl
    | some x => rfl

/-- An array of one handle names one object. -/
theorem ArrayHolds.objects (h : ArrayHolds vm handlesPtr handle) :
    multipleObjects vm 1 handlesPtr = .ok [arrayObject vm handle] := by
  obtain ⟨hptr, hphys, hread⟩ := h
  unfold multipleObjects
  rw [if_neg (by simpa using hptr)]
  dsimp only
  rw [if_neg hphys]
  have hone : (List.range (1 : UInt32).toNat) = [0] := rfl
  have hzero : pagingGetPhys vm.mem vm.paging handlesPtr + UInt32.ofNat 0 * 4 =
      pagingGetPhys vm.mem vm.paging handlesPtr := by simp
  rw [hone, List.map_singleton, hzero, hread]

/-- The entry tests on one object do not depend on the rule. -/
theorem satisfyNow_singleton (objects : Ptr → SyncObject) (id : UInt32) (type : WaitType)
    (o : Ptr) : satisfyNow objects id type [some o] =
      if syncIsSignaled (objects o) id = true then
        some (Function.update objects o (syncSatisfyWait (objects o) id), statusWait0)
      else none := by
  cases type with
  | any =>
    by_cases hs : syncIsSignaled (objects o) id = true
    · simp [satisfyNow, satisfyAny, hs, statusWait0]
    · simp [satisfyNow, satisfyAny, hs]
  | all =>
    by_cases hs : syncIsSignaled (objects o) id = true
    · simp [satisfyNow, allSignaled, satisfyAll, hs]
    · simp [satisfyNow, allSignaled, hs]

/-- Without an object a WaitAll succeeds at once and a WaitAny never does. -/
theorem satisfyNow_none (objects : Ptr → SyncObject) (id : UInt32) :
    satisfyNow objects id .all [none] = some (objects, statusWait0) ∧
      satisfyNow objects id .any [none] = none := ⟨rfl, rfl⟩

/-- A wait for one object blocks in the same way under either rule. -/
theorem schedulerBlockThread_waitType (s : WboxScheduler) (o : Ptr) (type : WaitType)
    (timeout : UInt64) (alertable : Bool) :
    schedulerBlockThread s [some o] type timeout alertable =
        schedulerBlockThread s [some o] .any timeout alertable ∨
      ∃ t, s.currentThread = some t ∧
        schedulerBlockThread s [some o] type timeout alertable =
          (schedulerBlockThread s [some o] .any timeout alertable).map
            fun x => (x.1.setWaitType t type, x.2) := by
  have hentry : schedulerBlockEntry s [some o] type timeout =
      schedulerBlockEntry s [some o] .any timeout := by
    simp only [schedulerBlockEntry, satisfyNow_singleton]
  unfold schedulerBlockThread
  rw [hentry]
  cases h : schedulerBlockEntry s [some o] .any timeout with
  | done s status => exact Or.inl rfl
  | wait t =>
    exact Or.inr ⟨t, (schedulerBlockEntry_wait h).1,
      schedulerBlock_waitType s t [some o] .any type timeout alertable⟩

theorem pollOrBlock_waitType (vm : VmContext) (o : Ptr) (type : WaitType)
    (timeout : Option Int64) (alertable : UInt32) :
    SameReturn vm (pollOrBlock vm [some o] .any timeout alertable).run
      (pollOrBlock vm [some o] type timeout alertable).run := by
  unfold pollOrBlock
  split
  · exact Or.inl rfl
  · split
    · obtain ⟨reads, habs⟩ := absTimeout_eq vm.sched timeout
      rw [habs]
      rcases schedulerBlockThread_waitType { vm.sched with clockReads := reads } o type
        (absTimeout vm.sched timeout).1 (decide (alertable ≠ 0)) with h | ⟨t, ht, h⟩
      · exact Or.inl h
      · exact Or.inr ⟨t, type, ht, h⟩
    · exact Or.inl rfl

/-- On a waitable handle the calls agree. -/
theorem Waitable.sameReturn (hw : Waitable vm handle waitType)
    (h : ArrayHolds vm handlesPtr handle) :
    SameReturn vm (ntWait vm (.single handle alertable timeoutPtr)).run
      (ntWait vm (.multiple 1 handlesPtr waitType alertable timeoutPtr)).run := by
  obtain ⟨entry, hget, htag, hnone⟩ := hw
  have htag' : ¬ (entry.type ≠ .event ∧ entry.type ≠ .semaphore ∧ entry.type ≠ .mutex) := by
    rcases htag with he | he | he
    · simp [he]
    · simp [he]
    · simp [he]
  simp only [ntWait, ntWaitForSingleObject, ntWaitForMultipleObjects, h.objects]
  cases hobj : entry.objectData with
  | none =>
    have htype : immediateType waitType = .all := if_neg (hnone hobj)
    have hsingle : singleObject vm handle = .error statusWait0 := by
      simp only [singleObject, hget, if_neg htag', hobj]
    have harray : arrayObject vm handle = none := by
      simp only [arrayObject, hget, Option.bind_some, hobj]
    rw [hsingle, harray, htype, (satisfyNow_none _ _).1]
    exact Or.inl rfl
  | some obj =>
    have hsingle : singleObject vm handle = .ok obj := by
      simp only [singleObject, hget, if_neg htag', hobj]
    have harray : arrayObject vm handle = some obj := by
      simp only [arrayObject, hget, Option.bind_some, hobj]
    rw [hsingle, harray]
    dsimp only
    rw [satisfyNow_singleton]
    by_cases hs : syncIsSignaled (vm.sched.objects obj) (threadGetCurrentId vm) = true
    · rw [if_pos hs, if_pos hs]
      exact Or.inl rfl
    · rw [if_neg hs, if_neg hs]
      exact pollOrBlock_waitType vm obj (blockType waitType) (readTimeout vm timeoutPtr) alertable

/-- A wait for one entry of an array that polls or blocks returns one of these. -/
theorem pollOrBlock_status {type : WaitType} {x : Option Ptr} {timeout : Option Int64}
    (h : (pollOrBlock vm [x] type timeout alertable).run = some (s, status)) :
    (status = statusWait0 ∧ (x = none → type = .all)) ∨ Unsatisfied status := by
  have htimeout : (WaitCall.ret vm.sched statusTimeout).run = some (s, status) →
      Unsatisfied status :=
    fun hret => Or.inl (congrArg Prod.snd (Option.some.inj hret)).symm
  unfold pollOrBlock at h
  split at h
  · exact Or.inr (htimeout h)
  · split at h
    · obtain ⟨reads, habs⟩ := absTimeout_eq vm.sched timeout
      rw [habs] at h
      rcases schedulerBlockThread_cases h with ⟨t, objs, -, -, hnow, -⟩ | ⟨-, -, hst, -⟩
      · left
        cases x with
        | some o =>
          rw [satisfyNow_singleton] at hnow
          split at hnow
          · exact ⟨(congrArg Prod.snd (Option.some.inj hnow)).symm, by simp⟩
          · cases hnow
        | none =>
          cases type with
          | any => cases hnow
          | all => exact ⟨(congrArg Prod.snd (Option.some.inj hnow)).symm, fun _ => rfl⟩
      · exact Or.inr hst
    · exact Or.inr (htimeout h)

/-- What `NtWaitForMultipleObjects` returns for one handle, whatever the handle is. -/
theorem multiple_status (h : ArrayHolds vm handlesPtr handle)
    (hrun : (ntWait vm (.multiple 1 handlesPtr waitType alertable timeoutPtr)).run =
      some (s, status)) :
    (status = statusWait0 ∧ (arrayObject vm handle = none → waitType ≠ 1)) ∨
      Unsatisfied status := by
  simp only [ntWait, ntWaitForMultipleObjects, h.objects] at hrun
  split at hrun
  · next objs st hnow =>
    left
    have hst : st = status := congrArg Prod.snd (Option.some.inj hrun)
    cases hx : arrayObject vm handle with
    | some o =>
      rw [hx, satisfyNow_singleton] at hnow
      split at hnow
      · exact ⟨hst ▸ (congrArg Prod.snd (Option.some.inj hnow)).symm, by simp⟩
      · cases hnow
    | none =>
      rw [hx] at hnow
      by_cases h1 : waitType = 1
      · rw [immediateType, if_pos h1] at hnow
        cases hnow
      · rw [immediateType, if_neg h1] at hnow
        exact ⟨hst ▸ (congrArg Prod.snd (Option.some.inj hnow)).symm, fun _ => h1⟩
  · rcases pollOrBlock_status hrun with ⟨hst, hall⟩ | hst
    · refine Or.inl ⟨hst, ?_⟩
      rintro hx rfl
      exact absurd (hall hx) (by decide)
    · exact Or.inr hst

/-- Statuses that only `NtWaitForSingleObject` returns. -/
theorem not_multiple_status (hst : status = statusInvalidHandle ∨
    status = statusObjectTypeMismatch) : status ≠ statusWait0 ∧ ¬ Unsatisfied status := by
  rcases hst with rfl | rfl
  · refine ⟨by decide, ?_⟩
    rintro (h | h | h)
    · exact absurd h (by decide)
    · exact absurd h (by decide)
    · exact absurd h (by decide)
  · refine ⟨by decide, ?_⟩
    rintro (h | h | h)
    · exact absurd h (by decide)
    · exact absurd h (by decide)
    · exact absurd h (by decide)

/-- Where the calls agree, the handle is waitable. -/
theorem SameReturn.waitable (h : ArrayHolds vm handlesPtr handle)
    (hsame : SameReturn vm (ntWait vm (.single handle alertable timeoutPtr)).run
      (ntWait vm (.multiple 1 handlesPtr waitType alertable timeoutPtr)).run) :
    Waitable vm handle waitType := by
  -- What the first call returns as an error of its own, the second does not return.
  have herr : ∀ st, singleObject vm handle = .error st →
      (st = statusWait0 ∧ (arrayObject vm handle = none → waitType ≠ 1)) ∨ Unsatisfied st := by
    intro st hst
    have hstatus := hsame.status_eq
    simp only [ntWait, ntWaitForSingleObject, hst, WaitCall.run, Option.map_some] at hstatus
    obtain ⟨⟨s', st'⟩, hrun, rfl⟩ := Option.map_eq_some_iff.mp hstatus
    exact multiple_status h hrun
  have hnot : ∀ st, (st = statusInvalidHandle ∨ st = statusObjectTypeMismatch) →
      singleObject vm handle ≠ .error st := by
    intro st hst hsingle
    obtain ⟨hne, huns⟩ := not_multiple_status hst
    rcases herr st hsingle with ⟨h0, -⟩ | h0
    · exact hne h0
    · exact huns h0
  cases hget : handlesGet vm.handles handle with
  | none => exact absurd (by simp only [singleObject, hget]) (hnot _ (Or.inl rfl))
  | some entry =>
    by_cases htag : entry.type ≠ .event ∧ entry.type ≠ .semaphore ∧ entry.type ≠ .mutex
    · exact absurd (by simp only [singleObject, hget, if_pos htag]) (hnot _ (Or.inr rfl))
    · refine ⟨entry, hget, by tauto, ?_⟩
      intro hobj
      have hsingle : singleObject vm handle = .error statusWait0 := by
        simp only [singleObject, hget, if_neg htag, hobj]
      have harray : arrayObject vm handle = none := by
        simp only [arrayObject, hget, Option.bind_some, hobj]
      rcases herr statusWait0 hsingle with ⟨-, h1⟩ | h0
      · exact h1 harray
      · rcases h0 with h0 | h0 | h0
        · exact absurd h0 (by decide)
        · exact absurd h0 (by decide)
        · exact absurd h0 (by decide)

/-- The two calls agree on a handle and use dispatcher objects only, exactly if the handle is one
to an event, a semaphore or a mutex, with an object unless the array is waited for under
WaitAll. -/
theorem waits_agree_iff (h : ArrayHolds vm handlesPtr handle) :
    (SameReturn vm (ntWait vm (.single handle alertable timeoutPtr)).run
        (ntWait vm (.multiple 1 handlesPtr waitType alertable timeoutPtr)).run ∧
      AsDispatcher vm handle (singleObject vm handle).toOption ∧
      AsDispatcher vm handle (arrayObject vm handle)) ↔ Waitable vm handle waitType := by
  constructor
  · exact fun hagree => hagree.1.waitable h
  · intro hw
    refine ⟨hw.sameReturn h, ?_⟩
    obtain ⟨entry, hget, htag, -⟩ := hw
    have hdisp : ∀ used, AsDispatcher vm handle used := by
      intro used entry' _ hget' _
      obtain rfl : entry = entry' := Option.some.inj (hget.symm.trans hget')
      rcases htag with he | he | he
      · rw [he]
        rfl
      · rw [he]
        rfl
      · rw [he]
        rfl
    exact ⟨hdisp _, hdisp _⟩

/-- A machine with events at the handles 4, 5, 6 and 8, a mutant at 7 and the main thread at 9;
events and mutant are signaled. Every word of its memory is `word`: as a page table entry it maps
a page to the frame 0, and it is the handle in any array. -/
def agreementVm (word : UInt8) : VmContext where
  mem := { ram := fun a => if a % 4 = 0 then word else 0, ramSize := 4096 }
  paging := { pdPhys := 0 }
  handles :=
    [(.event, 2), (.event, 2), (.event, 2), (.mutant, 3), (.event, 2), (.thread, 1)].foldl
      (fun ht (entry : HandleType × Ptr) => (handlesAddObject ht entry.1 (some entry.2)).1)
      handlesInit
  sched :=
    { schedulerInit default (fun _ => 0) with
      objects := fun o =>
        { type := if o = 2 then .eventNotification else .mutant, signalState := 1, waitList := none }
      heapNext := 4 }
  hasScheduler := true

/-- On the event the calls agree, under either rule. -/
theorem waits_agree_agreementVm :
    SameReturn (agreementVm 5) (ntWait (agreementVm 5) (.single 5 0 0)).run
        (ntWait (agreementVm 5) (.multiple 1 4 0 0 0)).run ∧
      SameReturn (agreementVm 5) (ntWait (agreementVm 5) (.single 5 0 0)).run
        (ntWait (agreementVm 5) (.multiple 1 4 1 0 0)).run := by
  have hholds : ArrayHolds (agreementVm 5) 4 5 := by
    unfold ArrayHolds
    decide +kernel
  have hget : handlesGet (agreementVm 5).handles 5 = some ⟨.event, -1, 0, 0, some 2⟩ := by
    decide +kernel
  exact ⟨((waits_agree_iff hholds).mpr ⟨_, hget, Or.inl rfl, by simp⟩).1,
    ((waits_agree_iff hholds).mpr ⟨_, hget, Or.inl rfl, by simp⟩).1⟩

/-- On the mutant they disagree, and the second call takes the thread for a dispatcher object. -/
theorem waits_disagree :
    ArrayHolds (agreementVm 7) 4 7 ∧
    ¬ SameReturn (agreementVm 7) (ntWait (agreementVm 7) (.single 7 0 0)).run
      (ntWait (agreementVm 7) (.multiple 1 4 1 0 0)).run ∧
    ArrayHolds (agreementVm 9) 4 9 ∧
    ¬ AsDispatcher (agreementVm 9) 9 (arrayObject (agreementVm 9) 9) := by
  have hget : handlesGet (agreementVm 9).handles 9 = some ⟨.thread, -1, 0, 0, some 1⟩ := by
    decide +kernel
  refine ⟨?_, ?_, ?_, ?_⟩
  · unfold ArrayHolds
    decide +kernel
  · intro hsame
    have hstatus := hsame.status_eq
    have hsingle : (ntWait (agreementVm 7) (.single 7 0 0)).run.map Prod.snd =
        some statusObjectTypeMismatch := by decide +kernel
    have hmultiple : (ntWait (agreementVm 7) (.multiple 1 4 1 0 0)).run.map Prod.snd =
        some statusWait0 := by decide +kernel
    rw [hsingle, hmultiple] at hstatus
    exact absurd hstatus (by decide)
  · unfold ArrayHolds
    decide +kernel
  · intro hdisp
    have hused : arrayObject (agreementVm 9) 9 = some 1 := by
      rw [arrayObject, hget]
      rfl
    have h := hdisp _ 1 hget hused
    cases h

end Wbox.Nt
