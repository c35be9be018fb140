import Mathlib.Algebra.Ring.Int.Defs
import Mathlib.Algebra.Ring.Nat
import Wbox.Nt.WaitSyscalls
import Wbox.Thread.VirtualTime

/-!
# Timeouts of the wait system calls

The guest passes a pointer to a signed 64-bit timeout; the scheduler takes an absolute
deadline in which 0 polls (`src/thread/scheduler.c:386–390`), although its interface reads
0 as infinite (`src/thread/scheduler.h:108`). The layers agree on every timeout that is
passed and whose deadline does not wrap, and on no absent one.
-/

namespace Wbox.Nt

open Wbox.Thread Wbox.Vm

/-- The clock at the time of the call. -/
def VmContext.now (vm : VmContext) : UInt64 := (schedulerGetTime100ns vm.sched).1

/-- The call makes its thread wait with deadline `d`. -/
def WaitCall.HasDeadline (call : WaitCall) (thread : Ptr) (d : Nat) : Prop :=
  ∃ s objects waitType timeout alertable,
    call = .block s objects waitType timeout alertable ∧
    schedulerBlockEntry s objects waitType timeout = .wait thread ∧
    ((schedulerBlockEnter s thread objects waitType timeout alertable).threads
      thread).waitTimeout.toNat = d

/-- The call of `thread` reads its timeout as NT defines it: absent, zero, relative or
absolute. A pointer to an address that is not mapped carries no timeout. -/
structure HonoursTimeout (vm : VmContext) (args : WaitArgs) (thread : Ptr) : Prop where
  absent : args.timeoutPtr = 0 → ∀ s status, (ntWait vm args).run = some (s, status) →
    status ≠ statusTimeout
  zero : readTimeout vm args.timeoutPtr = some 0 →
    (ntWait vm args).run = some (vm.sched, statusTimeout)
  relative : ∀ t, readTimeout vm args.timeoutPtr = some t → t < 0 →
    (ntWait vm args).HasDeadline thread (vm.now.toNat + t.toInt.natAbs)
  absolute : ∀ t, readTimeout vm args.timeoutPtr = some t → 0 < t →
    (ntWait vm args).HasDeadline thread t.toInt.toNat

/-- A timeout is passed, and the deadline of a relative one fits in 64 bits. -/
def DeadlineFits (vm : VmContext) (timeoutPtr : UInt32) : Prop :=
  timeoutPtr ≠ 0 ∧ ∀ t, readTimeout vm timeoutPtr = some t → t < 0 →
    vm.now.toNat + t.toInt.natAbs < 2 ^ 64

/-- `thread` makes a wait call with valid arguments, and its objects do not satisfy the wait
under either reading of the wait type. -/
structure MustWait (vm : VmContext) (args : WaitArgs) (thread : Ptr) (objects : List (Option Ptr)) :
    Prop where
  scheduler : vm.hasScheduler = true
  current : vm.sched.currentThread = some thread
  valid : args.objects vm = some objects
  unsatisfied : ∀ waitType ∈ args.waitTypes,
    satisfyNow vm.sched.objects (vm.sched.threads thread).threadId waitType objects = none

variable {vm : VmContext} {args : WaitArgs} {thread : Ptr} {objects : List (Option Ptr)}

private theorem toInt_neg_iff (t : Int64) : t < 0 ↔ t.toInt < 0 := by
  rw [Int64.lt_iff_toInt_lt]
  rfl

private theorem toInt_cases (t : Int64) :
    (0 ≤ t.toInt ∧ t.toInt = t.toUInt64.toNat) ∨
      (t.toInt < 0 ∧ t.toInt = (t.toUInt64.toNat : Int) - 2 ^ 64) := by
  have hlt := t.toBitVec.isLt
  have hcond : t.toInt = _ := BitVec.toInt_eq_toNat_cond t.toBitVec
  have hnat : t.toUInt64.toNat = t.toBitVec.toNat := rfl
  rw [hnat, hcond]
  split
  · left
    omega
  · right
    omega

private theorem neg_toNat (t : Int64) : (-t).toUInt64.toNat = (2 ^ 64 - t.toUInt64.toNat) % 2 ^ 64 :=
  BitVec.toNat_neg t.toBitVec

/-- The negation of a negative timeout is its absolute value, the least one included. -/
theorem neg_toUInt64 {t : Int64} (h : t < 0) : (-t).toUInt64.toNat = t.toInt.natAbs := by
  rw [toInt_neg_iff] at h
  have hlt := t.toUInt64.toNat_lt
  have hle := Int64.le_toInt t
  rw [neg_toNat]
  rcases toInt_cases t with ⟨hn, -⟩ | ⟨-, he⟩
  · omega
  · omega

/-- A timeout that is not negative is its own bit pattern. -/
theorem toUInt64_of_not_neg {t : Int64} (h : ¬ t < 0) : t.toUInt64.toNat = t.toInt.toNat := by
  rw [toInt_neg_iff] at h
  rcases toInt_cases t with ⟨-, he⟩ | ⟨hn, -⟩
  · omega
  · omega

private theorem schedulerSwitch_waitTimeout (s : WboxScheduler) (u : Ptr) :
    ((schedulerSwitch s).threads u).waitTimeout = (s.threads u).waitTimeout := by
  cases h : s.readyHead with
  | none => rw [schedulerSwitch_none h, switchIdle]
  | some n =>
    rw [schedulerSwitch_some h]
    obtain ⟨ctx, valid, hl⟩ := leavingThread_eq s u
    by_cases hu : u = n
    · subst hu
      simp [switchedTo, hl]
    · simp [switchedTo, hu, hl]

private theorem registerBlocks_waitTimeout (t : Ptr) (i : Nat) (os : List (Option Ptr))
    (s : WboxScheduler) (u : Ptr) :
    ((registerBlocks t i os s).threads u).waitTimeout = (s.threads u).waitTimeout := by
  induction os generalizing i s with
  | nil => rfl
  | cons o os ih =>
    have hone : ((registerBlock s t i o).threads u).waitTimeout = (s.threads u).waitTimeout := by
      have hmod : ∀ b, ((s.modifyThread t fun th =>
          { th with waitBlocks := Function.update th.waitBlocks i b }).threads u).waitTimeout =
            (s.threads u).waitTimeout := by
        intro b
        rw [WboxScheduler.modifyThread_threads]
        split
        · rfl
        · rfl
      cases o with
      | none => exact hmod _
      | some o => exact hmod _
    rw [← hone]
    exact ih (i + 1) _

/-- Entering the wait leaves the thread with the deadline that was passed. -/
theorem schedulerBlockEnter_waitTimeout (s : WboxScheduler) (t : Ptr) (os : List (Option Ptr))
    (waitType : WaitType) (timeout : UInt64) (alertable : Bool) :
    ((schedulerBlockEnter s t os waitType timeout alertable).threads t).waitTimeout = timeout := by
  unfold schedulerBlockEnter
  dsimp only
  rw [schedulerSwitch_waitTimeout, parkThread_eq, WboxScheduler.setState,
    WboxScheduler.modifyThread_modifyThread, WboxScheduler.modifyThread_self]
  dsimp only
  rw [registerBlocks_waitTimeout, prepareWait, WboxScheduler.modifyThread_self]

/-- A call that has to wait polls or blocks with the timeout it reads. -/
theorem MustWait.ntWait_eq (h : MustWait vm args thread objects) :
    ∃ waitType ∈ args.waitTypes, ∃ alertable, ntWait vm args =
      pollOrBlock vm objects waitType (readTimeout vm args.timeoutPtr) alertable := by
  have hid : threadGetCurrentId vm = (vm.sched.threads thread).threadId := by
    simp [threadGetCurrentId, h.scheduler, h.current]
  cases args with
  | single handle alertable timeoutPtr =>
    refine ⟨.any, by simp [WaitArgs.waitTypes], alertable, ?_⟩
    have hobj := h.valid
    simp only [WaitArgs.objects] at hobj
    cases hs : singleObject vm handle with
    | error status => simp [hs, Except.toOption] at hobj
    | ok obj =>
      have hos : [some obj] = objects := by simpa [hs, Except.toOption] using hobj
      have hu := h.unsatisfied .any (by simp [WaitArgs.waitTypes])
      subst hos
      have hsig : syncIsSignaled (vm.sched.objects obj) (threadGetCurrentId vm) = false := by
        rw [hid]
        simpa [satisfyNow, satisfyAny] using hu
      simp [ntWait, ntWaitForSingleObject, hs, hsig, WaitArgs.timeoutPtr]
  | multiple count handlesPtr waitType alertable timeoutPtr =>
    refine ⟨blockType waitType, by simp [WaitArgs.waitTypes], alertable, ?_⟩
    have hobj := h.valid
    simp only [WaitArgs.objects] at hobj
    cases hs : multipleObjects vm count handlesPtr with
    | error status => simp [hs, Except.toOption] at hobj
    | ok os =>
      have hos : os = objects := by simpa [hs, Except.toOption] using hobj
      have hu := h.unsatisfied (immediateType waitType) (by simp [WaitArgs.waitTypes])
      subst hos
      rw [← hid] at hu
      simp [ntWait, ntWaitForMultipleObjects, hs, hu, WaitArgs.timeoutPtr]

/-- Reading the clock does not decide whether a call of the scheduler has to wait. -/
private theorem schedulerBlockEntry_eq (h : MustWait vm args thread objects)
    {waitType : WaitType} (hw : waitType ∈ args.waitTypes) (hl : objects.length ≤ 64)
    (reads : Nat) (deadline : UInt64) :
    schedulerBlockEntry { vm.sched with clockReads := reads } objects waitType deadline =
      if deadline = 0 then .done { vm.sched with clockReads := reads } statusTimeout
      else .wait thread := by
  have hn : ¬ objects.length > threadWaitObjects := by
    unfold threadWaitObjects
    omega
  simp [schedulerBlockEntry, h.current, hn, h.unsatisfied waitType hw]

/-- At most 64 objects are waited for. -/
theorem MustWait.length_le (h : MustWait vm args thread objects) : objects.length ≤ 64 := by
  have hobj := h.valid
  cases args with
  | single handle alertable timeoutPtr =>
    simp only [WaitArgs.objects, Option.map_eq_some_iff] at hobj
    obtain ⟨obj, -, rfl⟩ := hobj
    simp
  | multiple count handlesPtr waitType alertable timeoutPtr =>
    simp only [WaitArgs.objects, multipleObjects] at hobj
    split at hobj
    · cases hobj
    · next hc =>
      simp only [not_or, UInt32.not_lt] at hc
      have hle : count.toNat ≤ 64 := UInt32.le_iff_toNat_le.mp hc.2.1
      split at hobj
      · cases hobj
      · have hos := Option.some.inj hobj
        rw [← hos]
        simpa using hle

/-- A nonzero deadline makes the thread wait for it. -/
theorem MustWait.hasDeadline (h : MustWait vm args thread objects) {t : Int64} (ht : t ≠ 0)
    (hr : readTimeout vm args.timeoutPtr = some t)
    (hd : (absTimeout vm.sched (some t)).1 ≠ 0) :
    (ntWait vm args).HasDeadline thread (absTimeout vm.sched (some t)).1.toNat := by
  obtain ⟨waitType, hw, alertable, heq⟩ := h.ntWait_eq
  obtain ⟨reads, habs⟩ := absTimeout_eq vm.sched (some t)
  refine ⟨{ vm.sched with clockReads := reads }, objects, waitType,
    (absTimeout vm.sched (some t)).1, decide (alertable ≠ 0), ?_, ?_, ?_⟩
  · rw [heq, hr, pollOrBlock, if_neg (by simpa using ht), if_pos h.scheduler, habs]
  · rw [schedulerBlockEntry_eq h hw h.length_le, if_neg hd]
  · rw [schedulerBlockEnter_waitTimeout]

/-- The deadline of a call is the one computed from its timeout. -/
theorem MustWait.hasDeadline_eq (h : MustWait vm args thread objects) {t : Int64}
    (hr : readTimeout vm args.timeoutPtr = some t) {d : Nat}
    (hd : (ntWait vm args).HasDeadline thread d) :
    d = (absTimeout vm.sched (some t)).1.toNat := by
  obtain ⟨s, os, wt, timeout, al, hcall, -, htime⟩ := hd
  obtain ⟨waitType, hw, alertable, heq⟩ := h.ntWait_eq
  rw [schedulerBlockEnter_waitTimeout] at htime
  rw [heq, hr, pollOrBlock, if_pos h.scheduler] at hcall
  split at hcall
  · cases hcall
  · cases hcall
    exact htime.symm

/-- Without a timeout the call does not wait at all. -/
theorem MustWait.run_absent (h : MustWait vm args thread objects)
    (hr : readTimeout vm args.timeoutPtr = none) :
    (ntWait vm args).run = some (vm.sched, statusTimeout) := by
  obtain ⟨waitType, hw, alertable, heq⟩ := h.ntWait_eq
  have hentry := schedulerBlockEntry_eq h hw h.length_le vm.sched.clockReads 0
  rw [if_pos rfl] at hentry
  rw [heq, hr, pollOrBlock, if_neg (by simp), if_pos h.scheduler]
  simp only [absTimeout, WaitCall.run, schedulerBlockThread]
  rw [hentry]

/-- The two layers agree on the timeout of every call that has to wait exactly if a timeout is
passed and its deadline fits in the scheduler's word. -/
theorem ntWait_honoursTimeout_iff (h : MustWait vm args thread objects) :
    HonoursTimeout vm args thread ↔ DeadlineFits vm args.timeoutPtr := by
  constructor
  · intro hh
    refine ⟨?_, ?_⟩
    · intro hp
      have hr : readTimeout vm args.timeoutPtr = none := by simp [readTimeout, hp]
      exact hh.absent hp _ _ (h.run_absent hr) rfl
    · intro t hr ht
      have hd := h.hasDeadline_eq hr (hh.relative t hr ht)
      rw [hd]
      exact (absTimeout vm.sched (some t)).1.toNat_lt
  · rintro ⟨hp, hfit⟩
    refine ⟨fun h0 => absurd h0 hp, ?_, ?_, ?_⟩
    · intro hr
      obtain ⟨waitType, -, alertable, heq⟩ := h.ntWait_eq
      rw [heq, hr, pollOrBlock, if_pos rfl, WaitCall.run]
    · intro t hr ht
      have hsum := hfit t hr ht
      have habs : (absTimeout vm.sched (some t)).1.toNat = vm.now.toNat + t.toInt.natAbs := by
        simp only [absTimeout, if_pos ht]
        rw [UInt64.toNat_add, neg_toUInt64 ht]
        exact Nat.mod_eq_of_lt hsum
      have hneg : t.toInt < 0 := (toInt_neg_iff t).mp ht
      rw [← habs]
      apply h.hasDeadline ?_ hr
      · intro h0
        rw [h0, UInt64.toNat_zero] at habs
        omega
      · rintro rfl
        exact absurd ht (by decide)
    · intro t hr ht
      have hnn : ¬ t < 0 := by
        intro hlt
        rw [toInt_neg_iff] at hlt
        rw [Int64.lt_iff_toInt_lt] at ht
        have h0 : (0 : Int64).toInt = 0 := rfl
        omega
      have habs : (absTimeout vm.sched (some t)).1.toNat = t.toInt.toNat := by
        simp only [absTimeout, if_neg hnn]
        exact toUInt64_of_not_neg hnn
      have hpos : 0 < t.toInt := by
        rw [Int64.lt_iff_toInt_lt] at ht
        exact ht
      rw [← habs]
      apply h.hasDeadline ?_ hr
      · intro h0
        rw [h0, UInt64.toNat_zero] at habs
        omega
      · rintro rfl
        exact absurd ht (by decide)

/-- A machine with an unsignaled event at handle 4. Page 0x3000 is mapped and holds the
timeouts 5 (at 0x3000) and -5 (at 0x3008). -/
def eventVm : VmContext where
  mem :=
    { ram := fun i =>
        if i = 0x1000 ∨ i = 0x200C then 0x01
        else if i = 0x1001 then 0x20
        else if i = 0x200D then 0x30
        else if i = 0x3000 then 0x05
        else if i = 0x3008 then 0xFB
        else if 0x3008 < i ∧ i < 0x3010 then 0xFF
        else 0
      ramSize := 0x10000 }
  paging := { pdPhys := 0x1000 }
  handles := (handlesAddObject handlesInit .event (some 2)).1
  sched :=
    { schedulerInit default (fun _ => 100) with
      objects := fun _ => { type := .eventNotification, signalState := 0, waitList := none }
      heapNext := 3 }
  hasScheduler := true

/-- The main thread has to wait for the event, whatever the timeout. -/
theorem eventVm_mustWait (timeoutPtr : UInt32) :
    MustWait eventVm (.single 4 0 timeoutPtr) 1 [some 2] where
  scheduler := rfl
  current := rfl
  valid := by
    have h : (singleObject eventVm 4).toOption = some 2 := by decide +kernel
    simp [WaitArgs.objects, h]
  unsatisfied := by
    intro waitType hw
    have hany : waitType = .any := by simpa [WaitArgs.waitTypes] using hw
    subst hany
    rfl

/-- The relative timeout of 5 units gives the deadline 105. -/
theorem ntWait_honoursTimeout_eventVm : HonoursTimeout eventVm (.single 4 0 0x3008) 1 := by
  have hread : readTimeout eventVm 0x3008 = some (-5) := by decide +kernel
  refine (ntWait_honoursTimeout_iff (eventVm_mustWait 0x3008)).mpr ⟨by decide, ?_⟩
  intro t ht _
  have hm : t = -5 := Option.some.inj (ht.symm.trans hread)
  subst hm
  decide +kernel

/-- Without a timeout pointer the wait for the event ends at once with `STATUS_TIMEOUT`. -/
theorem ntWait_nullTimeout_times_out : MustWait eventVm (.single 4 0 0) 1 [some 2] ∧
    ¬ HonoursTimeout eventVm (.single 4 0 0) 1 := by
  refine ⟨eventVm_mustWait 0, ?_⟩
  intro h
  exact h.absent rfl _ _ ((eventVm_mustWait 0).run_absent rfl) rfl

end Wbox.Nt
