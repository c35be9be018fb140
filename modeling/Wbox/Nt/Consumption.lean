import Wbox.Nt.WaitSyscalls
import Wbox.Thread.Consumption

/-!
# What the wait system calls consume

A wait can be completed by the tests of the system call itself (`src/nt/ntdll.c:265–271`,
`371–394`), by those of `scheduler_block_thread`, and by `scheduler_signal_object`. All three
take what they report, but for a WaitAll that lists an object more often than it has units.
-/

namespace Wbox.Nt

open Wbox.Thread Wbox.Vm Wbox.Lib

/-- The rule of the wait, for the two values of `WaitType` there are. -/
def WaitArgs.waitType? : WaitArgs → Option WaitType
  | .single _ _ _ => some .any
  | .multiple _ _ waitType _ _ =>
      if waitType = 0 then some .all else if waitType = 1 then some .any else none

/-- The wait of a call with valid arguments. -/
def WaitArgs.wait (vm : VmContext) (args : WaitArgs) : Option Wait :=
  args.waitType?.bind fun type =>
    (args.objects vm).map fun objects => ⟨threadGetCurrentId vm, type, objects⟩

variable {vm : VmContext} {args : WaitArgs} {w : Wait} {s : WboxScheduler} {status : UInt32}

/-- A wait that polls or blocks after its objects have been found wanting takes nothing that it
does not report. -/
theorem pollOrBlock_consumed {timeout : Option Int64} {alertable : UInt32}
    (hid : w.id = threadGetCurrentId vm)
    (hnow : satisfyNow vm.sched.objects w.id w.type w.objects = none)
    (h : (pollOrBlock vm w.objects w.type timeout alertable).run = some (s, status)) :
    w.Consumed status vm.sched.signals s.signals ↔ w.Enough vm.sched.signals := by
  have henough : w.Enough vm.sched.signals := by
    apply Wait.Enough.of_none
    show satisfyNow (unlinked vm.sched.objects) w.id w.type w.objects = none
    rw [satisfyNow_unlinked, hnow]
    rfl
  have htimeout : (WaitCall.ret vm.sched statusTimeout).run = some (s, status) →
      w.Consumed status vm.sched.signals s.signals := by
    intro hret
    obtain ⟨hs, hst⟩ := Prod.mk.inj (Option.some.inj hret)
    rw [← hs, ← hst]
    exact .of_not_succeeds (Unsatisfied.not_succeeds (Or.inl rfl))
  refine iff_of_true ?_ henough
  unfold pollOrBlock at h
  split at h
  · exact htimeout h
  · split at h
    · next hsched =>
      obtain ⟨reads, habs⟩ := absTimeout_eq vm.sched timeout
      rw [habs] at h
      refine (schedulerBlockThread_consumed_iff ?_ h).mpr fun _ _ => henough
      intro t ht
      have hcur : vm.sched.currentThread = some t := ht
      rw [hid, threadGetCurrentId, if_pos hsched, hcur]
    · exact htimeout h

/-- The objects of a wait are at most 64. -/
theorem WaitArgs.objects_length (h : args.wait vm = some w) :
    w.objects.length ≤ threadWaitObjects := by
  obtain ⟨type, -, h⟩ := Option.bind_eq_some_iff.mp h
  obtain ⟨os, hos, rfl⟩ := Option.map_eq_some_iff.mp h
  dsimp only
  cases args with
  | single handle alertable timeoutPtr =>
    obtain ⟨obj, -, rfl⟩ := Option.map_eq_some_iff.mp hos
    show 1 ≤ 64
    decide
  | multiple count handlesPtr waitType alertable timeoutPtr =>
    simp only [WaitArgs.objects, multipleObjects] at hos
    split at hos
    · cases hos
    · next hcount =>
      split at hos
      · cases hos
      · rw [← Option.some.inj hos]
        have hle : ¬ count > 64 := fun hgt => hcount (Or.inr (Or.inl hgt))
        have hle' : count.toNat ≤ 64 := UInt32.le_iff_toNat_le.mp (UInt32.not_lt.mp hle)
        simpa [threadWaitObjects] using hle'

/-- A wait call consumes what it reports exactly if there are enough units. -/
theorem ntWait_consumed_iff (hw : args.wait vm = some w)
    (h : (ntWait vm args).run = some (s, status)) :
    w.Consumed status vm.sched.signals s.signals ↔ w.Enough vm.sched.signals := by
  have hlen := WaitArgs.objects_length hw
  obtain ⟨type, htype, hw⟩ := Option.bind_eq_some_iff.mp hw
  obtain ⟨os, hos, rfl⟩ := Option.map_eq_some_iff.mp hw
  cases args with
  | single handle alertable timeoutPtr =>
    obtain rfl : WaitType.any = type := Option.some.inj htype
    obtain ⟨obj, hobj, rfl⟩ := Option.map_eq_some_iff.mp hos
    have hok : singleObject vm handle = .ok obj := by
      cases hsingle : singleObject vm handle with
      | error st => simp [hsingle, Except.toOption] at hobj
      | ok o => simpa [hsingle, Except.toOption] using hobj
    simp only [ntWait, ntWaitForSingleObject, hok] at h
    by_cases hsig : syncIsSignaled (vm.sched.objects obj) (threadGetCurrentId vm) = true
    · rw [if_pos hsig] at h
      obtain ⟨hs, hst⟩ := Prod.mk.inj (Option.some.inj h)
      have hsat : s.signals =
          satisfyAll vm.sched.signals (threadGetCurrentId vm) [some obj] := by
        rw [← hs]
        exact (satisfyAll_signals vm.sched.objects (threadGetCurrentId vm) [some obj]).symm
      rw [hsat, ← hst]
      exact iff_of_true (Wait.Consumed.of_any (i := 0) rfl hlen rfl hsig) (.of_any rfl)
    · rw [if_neg hsig] at h
      refine pollOrBlock_consumed (w := ⟨threadGetCurrentId vm, .any, [some obj]⟩) rfl ?_ h
      simp [satisfyNow, satisfyAny, hsig]
  | multiple count handlesPtr waitType alertable timeoutPtr =>
    have hok : multipleObjects vm count handlesPtr = .ok os := by
      cases hmulti : multipleObjects vm count handlesPtr with
      | error st => simp [WaitArgs.objects, hmulti, Except.toOption] at hos
      | ok o => simpa [WaitArgs.objects, hmulti, Except.toOption] using hos
    have htypes : immediateType waitType = type ∧ blockType waitType = type := by
      simp only [WaitArgs.waitType?] at htype
      split at htype
      · next h0 =>
        rw [← Option.some.inj htype, h0]
        exact ⟨rfl, rfl⟩
      · next h0 =>
        split at htype
        · next h1 =>
          rw [← Option.some.inj htype, h1]
          exact ⟨rfl, rfl⟩
        · cases htype
    simp only [ntWait, ntWaitForMultipleObjects, hok, htypes.1, htypes.2] at h
    split at h
    · next objs st hnow =>
      obtain ⟨hs, hst⟩ := Prod.mk.inj (Option.some.inj h)
      have hsignals : s.signals = unlinked objs := by
        rw [← hs]
        rfl
      rw [hsignals, ← hst]
      apply Wait.consumed_iff_enough hlen
      show satisfyNow (unlinked vm.sched.objects) (threadGetCurrentId vm) type os = _
      rw [satisfyNow_unlinked, hnow]
      rfl
    · next hnow =>
      exact pollOrBlock_consumed (w := ⟨threadGetCurrentId vm, type, os⟩) rfl hnow h

/-- A call that waits for nothing touches nothing. -/
theorem ntWait_refused (hw : args.objects vm = none)
    (h : (ntWait vm args).run = some (s, status)) : s = vm.sched := by
  cases args with
  | single handle alertable timeoutPtr =>
    cases hsingle : singleObject vm handle with
    | ok o => simp [WaitArgs.objects, hsingle, Except.toOption] at hw
    | error st =>
      simp only [ntWait, ntWaitForSingleObject, hsingle] at h
      exact (congrArg Prod.fst (Option.some.inj h)).symm
  | multiple count handlesPtr waitType alertable timeoutPtr =>
    cases hmulti : multipleObjects vm count handlesPtr with
    | ok o => simp [WaitArgs.objects, hmulti, Except.toOption] at hw
    | error st =>
      simp only [ntWait, ntWaitForMultipleObjects, hmulti] at h
      exact (congrArg Prod.fst (Option.some.inj h)).symm

/-- Wherever a wait is completed, it has consumed what it reports exactly if, as a WaitAll with
all objects signaled, it lists no auto-reset event twice and no semaphore more often than it
counts; and a call that waits for nothing consumes nothing. -/
theorem waits_consume_iff (vm : VmContext) (args : WaitArgs) (w : Wait) (s : WboxScheduler)
    (status : UInt32) :
    (args.wait vm = some w → (ntWait vm args).run = some (s, status) →
      (w.Consumed status vm.sched.signals s.signals ↔ w.Enough vm.sched.signals)) ∧
    (args.objects vm = none → (ntWait vm args).run = some (s, status) → s = vm.sched) ∧
    (∀ (s' : WboxScheduler) (timeout : UInt64) (alertable : Bool),
      (∀ t, s.currentThread = some t → (s.threads t).threadId = w.id) →
      schedulerBlockThread s w.objects w.type timeout alertable = some (s', status) →
        (w.Consumed status s.signals s'.signals ↔
          (s.currentThread ≠ none → w.objects.length ≤ threadWaitObjects →
            w.Enough s.signals))) ∧
    (∀ (o : Ptr) (type : HandleType), WaitLists s → WaitKeys s →
      ∃ ws s', schedulerSignalObject s o type = some s' ∧ WokenBy s o ws s' ∧
        (Guarded (wakeStep o) (WakeConsumes o) s ws ↔
          Guarded (wakeStep o) (WakeEnough o) s ws)) := by
  refine ⟨ntWait_consumed_iff, ntWait_refused,
    fun _ _ _ => schedulerBlockThread_consumed_iff, ?_⟩
  intro o type hlists hkeys
  by_cases htag : syncGetHeader type = true
  · obtain ⟨ws, s', hs, -, hwoken⟩ := schedulerSignalObject_wakes (o := o) hlists htag
    exact ⟨ws, s', hs, hwoken, hwoken.consumes_iff hkeys⟩
  · refine ⟨[], s, ?_, .nil s o, Iff.rfl⟩
    rw [schedulerSignalObject, if_neg htag]

/-- A machine with a semaphore of count 1 at handle 5. Every word of its memory is 5: as a page
table entry it maps a page to the frame 0, and as a handle it names the semaphore. -/
def oneUnitVm : VmContext where
  mem := { ram := fun a => if a % 4 = 0 then 5 else 0, ramSize := 4096 }
  paging := { pdPhys := 0 }
  handles := (handlesAddObject (handlesAddObject handlesInit .event (some 2)).1
    .semaphore (some 3)).1
  sched :=
    { schedulerInit default (fun _ => 0) with
      objects := fun _ => { type := .semaphore, signalState := 1, waitList := none, limit := 5 }
      heapNext := 4 }
  hasScheduler := true

/-- A WaitAny on the semaphore takes its unit. -/
theorem waits_consume_oneUnitVm : ∃ s,
    (ntWait oneUnitVm (.multiple 1 4 1 0 0)).run = some (s, statusWait0) ∧
    (⟨0x1004, .any, [some 3]⟩ : Wait).Consumed statusWait0 oneUnitVm.sched.signals s.signals := by
  have hrun : ((ntWait oneUnitVm (.multiple 1 4 1 0 0)).run.map Prod.snd) =
      some statusWait0 := by decide +kernel
  obtain ⟨⟨s, status⟩, hs, rfl⟩ := Option.map_eq_some_iff.mp hrun
  have hos : WaitArgs.objects oneUnitVm (.multiple 1 4 1 0 0) = some [some 3] := by
    decide +kernel
  have hw : WaitArgs.wait oneUnitVm (.multiple 1 4 1 0 0) =
      some ⟨threadGetCurrentId oneUnitVm, .any, [some 3]⟩ := by
    rw [WaitArgs.wait, hos]
    rfl
  refine ⟨s, hs, ((waits_consume_iff oneUnitVm _ _ s _).1 hw hs).mpr ?_⟩
  intro hall
  cases hall

/-- A WaitAll that lists the semaphore twice succeeds and takes one unit. -/
theorem waitAll_twice_takes_one : ∃ s,
    WaitArgs.wait oneUnitVm (.multiple 2 4 0 0 0) =
      some ⟨threadGetCurrentId oneUnitVm, .all, [some 3, some 3]⟩ ∧
    (ntWait oneUnitVm (.multiple 2 4 0 0 0)).run = some (s, statusWait0) ∧
    ¬ (⟨threadGetCurrentId oneUnitVm, .all, [some 3, some 3]⟩ : Wait).Consumed statusWait0
      oneUnitVm.sched.signals s.signals := by
  have hrun : ((ntWait oneUnitVm (.multiple 2 4 0 0 0)).run.map Prod.snd) =
      some statusWait0 := by decide +kernel
  obtain ⟨⟨s, status⟩, hs, rfl⟩ := Option.map_eq_some_iff.mp hrun
  have hos : WaitArgs.objects oneUnitVm (.multiple 2 4 0 0 0) = some [some 3, some 3] := by
    decide +kernel
  refine ⟨s, ?_, hs, ?_⟩
  · rw [WaitArgs.wait, hos]
    rfl
  · intro hc
    have htake := hc.2 rfl
    have hnone : (takeUnits oneUnitVm.sched.signals (threadGetCurrentId oneUnitVm)
        [some 3, some 3]).isNone = true := by decide +kernel
    rw [htake] at hnone
    cases hnone

end Wbox.Nt
