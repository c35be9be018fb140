import Wbox.Thread.Invariant

/-!
# What does not depend on the rule of a wait

`wait_type` is read for the waiters of a signaled object only. All else a blocking call does is
the same whatever rules the threads wait under.
-/

namespace Wbox.Thread

open Wbox.Cpu Wbox.Nt Wbox.Lib

namespace WboxScheduler

/-- Replace the `wait_type` of every thread. -/
def withWaitTypes (s : WboxScheduler) (wt : Ptr → WaitType) : WboxScheduler :=
  { s with threads := fun t => { s.threads t with waitType := wt t } }

/-- `thread->wait_type = type`. -/
def setWaitType (s : WboxScheduler) (t : Ptr) (type : WaitType) : WboxScheduler :=
  s.modifyThread t fun th => { th with waitType := type }

/-- The `wait_type` of every thread. -/
def waitTypes (s : WboxScheduler) : Ptr → WaitType := fun t => (s.threads t).waitType

variable (s : WboxScheduler) (wt : Ptr → WaitType)

@[simp] theorem withWaitTypes_waitTypes : (s.withWaitTypes wt).waitTypes = wt := rfl

/-- Storing one rule, as an update of the rules. -/
theorem setWaitType_eq (t : Ptr) (type : WaitType) :
    s.setWaitType t type = s.withWaitTypes (Function.update s.waitTypes t type) := by
  have ht : (s.setWaitType t type).threads =
      (s.withWaitTypes (Function.update s.waitTypes t type)).threads := by
    ext u : 1
    by_cases hu : u = t
    · subst hu
      simp [setWaitType, withWaitTypes]
    · simp [setWaitType, withWaitTypes, hu, waitTypes]
  have h : s.setWaitType t type = { s with threads := (s.setWaitType t type).threads } := rfl
  rw [h, ht]
  rfl

/-- An update of a thread that leaves its rule alone commutes. -/
theorem withWaitTypes_modifyThread {g : WboxThread → WboxThread}
    (hg : ∀ th type, g { th with waitType := type } = { g th with waitType := type }) (t : Ptr) :
    (s.withWaitTypes wt).modifyThread t g = (s.modifyThread t g).withWaitTypes wt := by
  have ht : ((s.withWaitTypes wt).modifyThread t g).threads =
      ((s.modifyThread t g).withWaitTypes wt).threads := by
    ext u : 1
    by_cases hu : u = t
    · subst hu
      rw [modifyThread_self]
      show g { s.threads u with waitType := wt u } = _
      rw [hg]
      simp only [withWaitTypes, modifyThread_self]
    · rw [modifyThread_of_ne _ _ hu]
      simp only [withWaitTypes, modifyThread_of_ne _ _ hu]
  have h : (s.withWaitTypes wt).modifyThread t g =
      { (s.modifyThread t g).withWaitTypes wt with
        threads := ((s.withWaitTypes wt).modifyThread t g).threads } := rfl
  rw [h, ht]

end WboxScheduler

variable (s : WboxScheduler) (wt : Ptr → WaitType) (t : Ptr)

theorem setState_withWaitTypes (st : ThreadState) :
    (s.withWaitTypes wt).setState t st = (s.setState t st).withWaitTypes wt :=
  s.withWaitTypes_modifyThread wt (fun _ _ => rfl) t

theorem setReadyNext_withWaitTypes (v : Option Ptr) :
    (s.withWaitTypes wt).setReadyNext t v = (s.setReadyNext t v).withWaitTypes wt :=
  s.withWaitTypes_modifyThread wt (fun _ _ => rfl) t

theorem schedulerAddReady_withWaitTypes :
    schedulerAddReady (s.withWaitTypes wt) t = (schedulerAddReady s t).withWaitTypes wt := by
  unfold schedulerAddReady
  rw [setReadyNext_withWaitTypes]
  unfold appendReady
  have htail : ((s.setReadyNext t none).withWaitTypes wt).readyTail =
      (s.setReadyNext t none).readyTail := rfl
  rw [htail]
  cases (s.setReadyNext t none).readyTail with
  | none => rfl
  | some tail =>
    dsimp only
    rw [setReadyNext_withWaitTypes]
    rfl

theorem storeReady_withWaitTypes (slot : Slot Ptr) (v : Option Ptr) :
    storeReady (s.withWaitTypes wt) slot v = (storeReady s slot v).withWaitTypes wt := by
  cases slot with
  | head => rfl
  | after prev => exact setReadyNext_withWaitTypes s wt prev v

theorem schedulerRemoveReady_withWaitTypes :
    schedulerRemoveReady (s.withWaitTypes wt) t =
      (schedulerRemoveReady s t).map fun a => a.withWaitTypes wt := by
  unfold schedulerRemoveReady
  have hfind : findSlot (s.withWaitTypes wt).readyLink t (s.withWaitTypes wt).threadSteps .head
      (s.withWaitTypes wt).readyHead = findSlot s.readyLink t s.threadSteps .head s.readyHead := rfl
  rw [hfind]
  cases findSlot s.readyLink t s.threadSteps .head s.readyHead with
  | none => rfl
  | some found =>
    cases found with
    | none => rfl
    | some slot =>
      simp only [Option.bind_eq_bind, Option.bind_some, Option.pure_def, Option.map_some,
        Option.some.injEq]
      rw [storeReady_withWaitTypes]
      have htail : (s.withWaitTypes wt).readyTail = s.readyTail := rfl
      have hlink : (s.withWaitTypes wt).readyLink = s.readyLink := rfl
      rw [htail, hlink]
      split
      · exact setReadyNext_withWaitTypes
          { storeReady s slot (s.readyLink t) with readyTail := slot.node } wt t none
      · exact setReadyNext_withWaitTypes (storeReady s slot (s.readyLink t)) wt t none

theorem schedulerSwitch_withWaitTypes :
    schedulerSwitch (s.withWaitTypes wt) = (schedulerSwitch s).withWaitTypes wt := by
  have hhead : (s.withWaitTypes wt).readyHead = s.readyHead := rfl
  cases h : s.readyHead with
  | none =>
    rw [schedulerSwitch_none h, schedulerSwitch_none (hhead.trans h)]
    rfl
  | some n =>
    rw [schedulerSwitch_some h, schedulerSwitch_some (hhead.trans h)]
    have hleave : ∀ u, leavingThread (s.withWaitTypes wt) u =
        { leavingThread s u with waitType := wt u } := by
      intro u
      unfold leavingThread
      have hcond : ((s.withWaitTypes wt).currentThread = some u ∧
          ((s.withWaitTypes wt).threads u).state = .running) ↔
          (s.currentThread = some u ∧ (s.threads u).state = .running) := Iff.rfl
      by_cases hc : s.currentThread = some u ∧ (s.threads u).state = .running
      · rw [if_pos hc, if_pos (hcond.mpr hc)]
        rfl
      · rw [if_neg hc, if_neg (fun h' => hc (hcond.mp h'))]
        rfl
    have hcpu : arrivingCpu (s.withWaitTypes wt) n = arrivingCpu s n := by
      unfold arrivingCpu
      rw [hleave]
      rfl
    have hthreads : (switchedTo (s.withWaitTypes wt) n).threads =
        ((switchedTo s n).withWaitTypes wt).threads := by
      ext u : 1
      simp only [switchedTo, WboxScheduler.withWaitTypes] at hleave ⊢
      by_cases hun : u = n
      · simp only [hun, if_true]
        rw [hleave n]
      · simp only [hun, if_false]
        exact hleave u
    have hswitch : switchedTo (s.withWaitTypes wt) n =
        { (switchedTo s n).withWaitTypes wt with
          threads := (switchedTo (s.withWaitTypes wt) n).threads
          cpu := arrivingCpu (s.withWaitTypes wt) n } := rfl
    rw [hswitch, hthreads, hcpu]
    rfl

theorem unlinkWaitBlock_withWaitTypes (object : Ptr) (wb : WbPtr) :
    unlinkWaitBlock (s.withWaitTypes wt) object wb =
      (unlinkWaitBlock s object wb).map fun a => a.withWaitTypes wt := by
  rw [unlinkWaitBlock_eq, unlinkWaitBlock_eq]
  have hfind : findSlot (s.withWaitTypes wt).blockLink wb (s.withWaitTypes wt).blockSteps .head
      ((s.withWaitTypes wt).waitHead object) =
      findSlot s.blockLink wb s.blockSteps .head (s.waitHead object) := rfl
  rw [hfind]
  cases findSlot s.blockLink wb s.blockSteps .head (s.waitHead object) with
  | none => rfl
  | some found =>
    cases found with
    | none => rfl
    | some slot => rfl

theorem unlinkWaitBlocks_withWaitTypes :
    unlinkWaitBlocks (s.withWaitTypes wt) t =
      (unlinkWaitBlocks s t).map fun a => a.withWaitTypes wt := by
  unfold unlinkWaitBlocks
  refine foldlM_comm (g := fun a => a.withWaitTypes wt) ?_ s
    (List.range (s.threads t).waitCount)
  intro a i
  have hblock : ((a.withWaitTypes wt).block ⟨t, i⟩).object = (a.block ⟨t, i⟩).object := rfl
  rw [hblock]
  cases (a.block ⟨t, i⟩).object with
  | none => rfl
  | some object => exact unlinkWaitBlock_withWaitTypes a wt object ⟨t, i⟩

theorem expireWait_withWaitTypes :
    expireWait (s.withWaitTypes wt) t = (expireWait s t).map fun a => a.withWaitTypes wt := by
  unfold expireWait
  simp only [Option.bind_eq_bind, Option.pure_def]
  rw [s.withWaitTypes_modifyThread wt (fun _ _ => rfl) t, unlinkWaitBlocks_withWaitTypes]
  cases unlinkWaitBlocks (s.modifyThread t fun th =>
      { th with
        waitStatus := statusTimeout
        context := { th.context with eax := statusTimeout } }) t with
  | none => rfl
  | some a =>
    simp only [Option.map_some, Option.bind_some, Option.some.injEq]
    rw [a.withWaitTypes_modifyThread wt (fun _ _ => rfl) t, setState_withWaitTypes,
      schedulerAddReady_withWaitTypes]

theorem checkTimeoutsFrom_withWaitTypes (now : UInt64) (n : Nat) (p : Option Ptr) :
    checkTimeoutsFrom now n p (s.withWaitTypes wt) =
      (checkTimeoutsFrom now n p s).map fun a => a.withWaitTypes wt := by
  induction n generalizing p s with
  | zero =>
    cases p with
    | none => rfl
    | some u => rfl
  | succ n ih =>
    cases p with
    | none => rfl
    | some u =>
      have hexp : waitExpired ((s.withWaitTypes wt).threads u) now =
          waitExpired (s.threads u) now := rfl
      simp only [checkTimeoutsFrom, hexp, Option.bind_eq_bind]
      by_cases hx : waitExpired (s.threads u) now = true
      · rw [if_pos hx, if_pos hx, expireWait_withWaitTypes]
        cases expireWait s u with
        | none => rfl
        | some a => exact ih a (a.threadLink u)
      · rw [if_neg hx, if_neg hx]
        exact ih s (s.threadLink u)

theorem schedulerCheckTimeouts_withWaitTypes :
    schedulerCheckTimeouts (s.withWaitTypes wt) =
      (schedulerCheckTimeouts s).map fun a => a.withWaitTypes wt :=
  checkTimeoutsFrom_withWaitTypes { s with clockReads := s.clockReads + 1 } wt
    (s.clock s.clockReads + s.timeOffset) s.threadSteps s.allThreads

theorem fastForward_withWaitTypes :
    fastForward (s.withWaitTypes wt) t = (fastForward s t).withWaitTypes wt := by
  by_cases hlate : (s.threads t).waitTimeout > s.clock s.clockReads + s.timeOffset
  · have h : ∀ a : WboxScheduler, (a.threads t).waitTimeout > a.clock a.clockReads + a.timeOffset →
        fastForward a t = schedulerAdvanceTime { a with clockReads := a.clockReads + 1 }
          ((a.threads t).waitTimeout - (a.clock a.clockReads + a.timeOffset) + 1) :=
      fun a ha => if_pos ha
    rw [h s hlate, h (s.withWaitTypes wt) hlate]
    rfl
  · have h : ∀ a : WboxScheduler,
        ¬ (a.threads t).waitTimeout > a.clock a.clockReads + a.timeOffset →
        fastForward a t = { a with clockReads := a.clockReads + 1 } :=
      fun a ha => if_neg ha
    rw [h s hlate, h (s.withWaitTypes wt) hlate]
    rfl

theorem schedulerBlockPoll_withWaitTypes :
    schedulerBlockPoll (s.withWaitTypes wt) t =
      (schedulerBlockPoll s t).map fun a => a.withWaitTypes wt := by
  unfold schedulerBlockPoll
  rw [schedulerCheckTimeouts_withWaitTypes]
  cases schedulerCheckTimeouts s with
  | none => rfl
  | some a =>
    simp only [Option.map_some, Option.bind_eq_bind, Option.bind_some, Option.pure_def]
    have hcond : (((a.withWaitTypes wt).threads t).state = .waiting ∧
        ((a.withWaitTypes wt).threads t).waitTimeout ≠ 0) ↔
        ((a.threads t).state = .waiting ∧ (a.threads t).waitTimeout ≠ 0) := Iff.rfl
    by_cases hc : (a.threads t).state = .waiting ∧ (a.threads t).waitTimeout ≠ 0
    · rw [if_pos hc, if_pos (hcond.mpr hc), fastForward_withWaitTypes]
      exact schedulerCheckTimeouts_withWaitTypes (fastForward a t) wt
    · rw [if_neg hc, if_neg (fun h => hc (hcond.mp h))]
      rfl

theorem schedulerBlockLoop_withWaitTypes (left : Nat) :
    schedulerBlockLoop t left (s.withWaitTypes wt) =
      (schedulerBlockLoop t left s).map fun a => a.withWaitTypes wt := by
  have hpending : ∀ a : WboxScheduler, waitPending ((a.withWaitTypes wt).threads t) =
      waitPending (a.threads t) := fun _ => rfl
  have hforever : ∀ a : WboxScheduler, (((a.withWaitTypes wt).threads t).state = .waiting ∧
      ((a.withWaitTypes wt).threads t).waitTimeout = 0) ↔
      ((a.threads t).state = .waiting ∧ (a.threads t).waitTimeout = 0) := fun _ => Iff.rfl
  induction left generalizing s with
  | zero =>
    unfold schedulerBlockLoop
    rw [hpending]
    split
    · rw [schedulerBlockPoll_withWaitTypes]
      cases schedulerBlockPoll s t with
      | none => rfl
      | some a =>
        simp only [Option.map_some, Option.bind_eq_bind, Option.bind_some, Option.pure_def,
          hforever]
        split
        · exact congrArg some (a.withWaitTypes_modifyThread wt (fun _ _ => rfl) t)
        · exact congrArg some (a.withWaitTypes_modifyThread wt (fun _ _ => rfl) t)
    · rfl
  | succ left ih =>
    unfold schedulerBlockLoop
    rw [hpending]
    split
    · rw [schedulerBlockPoll_withWaitTypes]
      cases schedulerBlockPoll s t with
      | none => rfl
      | some a =>
        simp only [Option.map_some, Option.bind_eq_bind, Option.bind_some, Option.pure_def,
          hforever]
        split
        · exact congrArg some (a.withWaitTypes_modifyThread wt (fun _ _ => rfl) t)
        · exact ih a
    · rfl

theorem schedulerBlockReturn_withWaitTypes :
    schedulerBlockReturn (s.withWaitTypes wt) t =
      (schedulerBlockReturn s t).map fun r => (r.1.withWaitTypes wt, r.2) := by
  have hcur : restoreCurrent (s.withWaitTypes wt) t = (restoreCurrent s t).withWaitTypes wt := by
    have hc : (s.withWaitTypes wt).currentThread = s.currentThread := rfl
    unfold restoreCurrent
    rw [hc]
    split
    · rfl
    · rfl
  unfold schedulerBlockReturn
  rw [hcur, schedulerRemoveReady_withWaitTypes]
  cases schedulerRemoveReady (restoreCurrent s t) t with
  | none => rfl
  | some a =>
    simp only [Option.map_some, Option.bind_eq_bind, Option.bind_some, Option.pure_def,
      setState_withWaitTypes]
    rfl

/-- A blocking call does not look at the rules from its waiting loop on. -/
theorem schedulerBlockFinish_withWaitTypes :
    schedulerBlockFinish (s.withWaitTypes wt) t =
      (schedulerBlockFinish s t).map fun r => (r.1.withWaitTypes wt, r.2) := by
  unfold schedulerBlockFinish
  rw [schedulerBlockLoop_withWaitTypes]
  cases schedulerBlockLoop t 100 s with
  | none => rfl
  | some a => exact schedulerBlockReturn_withWaitTypes a wt t

theorem registerBlock_withWaitTypes (i : Nat) (object : Option Ptr) :
    registerBlock (s.withWaitTypes wt) t i object =
      (registerBlock s t i object).withWaitTypes wt := by
  have hmod : ∀ wb : WaitBlock, (s.withWaitTypes wt).modifyThread t (fun th =>
      { th with waitBlocks := Function.update th.waitBlocks i wb }) =
      (s.modifyThread t fun th =>
        { th with waitBlocks := Function.update th.waitBlocks i wb }).withWaitTypes wt :=
    fun _ => s.withWaitTypes_modifyThread wt (fun _ _ => rfl) t
  cases object with
  | none => exact hmod _
  | some o => exact congrArg (fun a => a.setWaitList o (some ⟨t, i⟩)) (hmod _)

theorem registerBlocks_withWaitTypes (i : Nat) (os : List (Option Ptr)) :
    registerBlocks t i os (s.withWaitTypes wt) = (registerBlocks t i os s).withWaitTypes wt := by
  induction os generalizing i s with
  | nil => rfl
  | cons o os ih =>
    unfold registerBlocks
    rw [registerBlock_withWaitTypes]
    exact ih _ (i + 1)

theorem parkThread_withWaitTypes :
    parkThread (s.withWaitTypes wt) t = (parkThread s t).withWaitTypes wt := by
  rw [parkThread_eq, parkThread_eq, setState_withWaitTypes]
  exact (s.setState t .waiting).withWaitTypes_modifyThread wt (fun _ _ => rfl) t

/-- Up to its waiting loop a blocking call only records its rule. -/
theorem schedulerBlockEnter_waitType (os : List (Option Ptr)) (type type' : WaitType)
    (timeout : UInt64) (alertable : Bool) :
    schedulerBlockEnter s t os type' timeout alertable =
      (schedulerBlockEnter s t os type timeout alertable).withWaitTypes
        (Function.update s.waitTypes t type') := by
  have hprepare : prepareWait s t os.length type' timeout alertable =
      (prepareWait s t os.length type timeout alertable).withWaitTypes
        (Function.update s.waitTypes t type') := by
    have hset : prepareWait s t os.length type' timeout alertable =
        (prepareWait s t os.length type timeout alertable).setWaitType t type' := by
      simp only [prepareWait, WboxScheduler.setWaitType, WboxScheduler.modifyThread_modifyThread]
    rw [hset, WboxScheduler.setWaitType_eq]
    congr 1
    ext u : 1
    by_cases hu : u = t
    · subst hu
      simp
    · simp [hu, WboxScheduler.waitTypes, prepareWait]
  unfold schedulerBlockEnter
  dsimp only
  rw [hprepare, registerBlocks_withWaitTypes, parkThread_withWaitTypes,
    schedulerSwitch_withWaitTypes]

/-- The rule of a wait that blocks is left in the caller's structure and shows nowhere else. -/
theorem schedulerBlock_waitType (os : List (Option Ptr)) (type type' : WaitType)
    (timeout : UInt64) (alertable : Bool) :
    schedulerBlockFinish (schedulerBlockEnter s t os type' timeout alertable) t =
      (schedulerBlockFinish (schedulerBlockEnter s t os type timeout alertable) t).map
        fun r => (r.1.setWaitType t type', r.2) := by
  -- The rules at the end are those of the beginning, as the call with its own rule shows.
  have hself := schedulerBlockFinish_withWaitTypes
    (schedulerBlockEnter s t os type timeout alertable) (Function.update s.waitTypes t type) t
  rw [← schedulerBlockEnter_waitType] at hself
  rw [schedulerBlockEnter_waitType s t os type type', schedulerBlockFinish_withWaitTypes]
  cases hr : schedulerBlockFinish (schedulerBlockEnter s t os type timeout alertable) t with
  | none => rfl
  | some r =>
    rw [hr] at hself
    have hr1 : r.1 = r.1.withWaitTypes (Function.update s.waitTypes t type) :=
      congrArg Prod.fst (Option.some.inj hself)
    have htypes : r.1.waitTypes = Function.update s.waitTypes t type := by
      rw [hr1, WboxScheduler.withWaitTypes_waitTypes]
    simp only [Option.map_some, WboxScheduler.setWaitType_eq, htypes, Function.update_idem]

end Wbox.Thread
