import Wbox.Thread.Waiting
import Wbox.Thread.Wakeup

/-!
# Waits that are overdue

A thread that stays WAITING on an available mutant has been overlooked. The operations of
the scheduler that signal nothing cannot bring this about: they add no waiter and signal no
object (`NothingNew`).
-/

namespace Wbox.Thread

open Wbox.Cpu Wbox.Nt Wbox.Lib

/-- Nothing but `o` keeps the wait from being satisfied: a WaitAny on it, or a WaitAll whose
other objects are all signaled. -/
def Wait.WantsOnly (w : Wait) (objs : Objects) (o : Ptr) : Prop :=
  match w.type with
  | .any => True
  | .all => ∀ x, some x ∈ w.objects → x ≠ o → syncIsSignaled (objs x) w.id = true

/-- No thread stays WAITING on an available mutant that satisfies it. -/
def NoneStuck (s : WboxScheduler) : Prop :=
  ∀ t o, (s.objects o).type = .mutant → 0 < (s.objects o).signalState → s.Waiter t o →
    ¬ (s.waitOf t).SatisfiableBy s.signals o

/-- The objects are those of `s`, but for their wait lists. -/
structure SameObjects (s s' : WboxScheduler) : Prop where
  signals : s'.signals = s.signals
  heapNext : s'.heapNext = s.heapNext

/-- From `s` to `s'` no thread starts to wait and no object gets signaled. -/
structure NothingNew (s s' : WboxScheduler) : Prop where
  waits : NoNewWaits s s'
  type : ∀ o, (s'.objects o).type = (s.objects o).type
  available : ∀ o, 0 < (s'.objects o).signalState → 0 < (s.objects o).signalState
  signaled : ∀ o u, syncIsSignaled (s'.objects o) u = true → syncIsSignaled (s.objects o) u = true
  heapNext : s'.heapNext = s.heapNext

variable {s s' s'' : WboxScheduler} {t o : Ptr} {status : UInt32}

theorem SameObjects.refl (s : WboxScheduler) : SameObjects s s := ⟨rfl, rfl⟩

theorem SameObjects.trans (h : SameObjects s s') (h' : SameObjects s' s'') :
    SameObjects s s'' :=
  ⟨h'.signals.trans h.signals, h'.heapNext.trans h.heapNext⟩

theorem SameObjects.modifyThread (s : WboxScheduler) (t : Ptr) (f : WboxThread → WboxThread) :
    SameObjects s (s.modifyThread t f) := ⟨rfl, rfl⟩

theorem SameObjects.addReady (s : WboxScheduler) (t : Ptr) :
    SameObjects s (schedulerAddReady s t) := by
  obtain ⟨links, head, tail, h⟩ := schedulerAddReady_eq s t
  rw [h]
  exact ⟨rfl, rfl⟩

theorem SameObjects.removeReady (h : schedulerRemoveReady s t = some s') : SameObjects s s' := by
  obtain ⟨links, head, tail, rfl⟩ := schedulerRemoveReady_eq h
  exact ⟨rfl, rfl⟩

theorem SameObjects.switch (s : WboxScheduler) : SameObjects s (schedulerSwitch s) := by
  cases h : s.readyHead with
  | none =>
    rw [schedulerSwitch_none h]
    exact ⟨rfl, rfl⟩
  | some n =>
    rw [schedulerSwitch_some h]
    exact ⟨rfl, rfl⟩

theorem SameObjects.tick (s : WboxScheduler) : SameObjects s (schedulerTick s) := by
  unfold schedulerTick
  split
  · exact .refl s
  · dsimp only
    split
    · split
      · unfold preempt
        dsimp only
        refine SameObjects.trans ?_ (.switch _)
        refine SameObjects.trans ?_ (.addReady _ _)
        exact ⟨rfl, rfl⟩
      · exact ⟨rfl, rfl⟩
    · exact ⟨rfl, rfl⟩

theorem SameObjects.woken (h : Woken s t status s') : SameObjects s s' := by
  obtain ⟨nexts, lists, links, head, tail, rfl⟩ := h.eq
  exact ⟨rfl, rfl⟩

theorem SameObjects.checkTimeouts (h : schedulerCheckTimeouts s = some s') :
    SameObjects s s' := by
  refine schedulerCheckTimeouts_invariant (R := fun x => SameObjects s x) ⟨rfl, rfl⟩ ?_ h
  intro a u b ha _ hw
  exact ha.trans (.woken hw)

theorem SameObjects.registerBlocks (t : Ptr) (i : Nat) (os : List (Option Ptr))
    (s : WboxScheduler) : SameObjects s (registerBlocks t i os s) := by
  induction os generalizing i s with
  | nil => exact .refl s
  | cons o os ih =>
    refine SameObjects.trans ?_ (ih (i + 1) _)
    cases o with
    | none => exact ⟨rfl, rfl⟩
    | some o =>
      refine ⟨?_, rfl⟩
      ext x : 1
      by_cases hx : x = o
      · subst hx
        simp [registerBlock, WboxScheduler.signals, WboxScheduler.setWaitList,
          WboxScheduler.modifyObject, WboxScheduler.modifyThread]
      · simp [registerBlock, WboxScheduler.signals, WboxScheduler.setWaitList,
          WboxScheduler.modifyObject, WboxScheduler.modifyThread, hx]

theorem SameObjects.blockEnter (s : WboxScheduler) (t : Ptr) (os : List (Option Ptr))
    (waitType : WaitType) (timeout : UInt64) (alertable : Bool) :
    SameObjects s (schedulerBlockEnter s t os waitType timeout alertable) := by
  unfold schedulerBlockEnter
  dsimp only
  refine SameObjects.trans ?_ (.switch _)
  rw [parkThread_eq]
  refine SameObjects.trans ?_ (.modifyThread _ t _)
  refine SameObjects.trans ?_ (.modifyThread _ t _)
  exact (SameObjects.modifyThread s t _).trans (.registerBlocks t 0 os _)

theorem SameObjects.blockFinish (h : schedulerBlockFinish s t = some (s', status)) :
    SameObjects s s' := by
  unfold schedulerBlockFinish at h
  obtain ⟨a, ha, h⟩ := Option.bind_eq_some_iff.mp h
  have hloop : SameObjects s a := by
    refine schedulerBlockLoop_invariant (R := fun x => SameObjects s x)
      (T := fun x => SameObjects s x) ?_ ?_ (fun _ hx => hx) ?_ ?_ (.refl s) ha
    · intro x reads offset hx
      exact hx.trans ⟨rfl, rfl⟩
    · intro x y hx hy
      exact hx.trans (.checkTimeouts hy)
    · intro x hx
      exact hx.trans (.modifyThread x t _)
    · intro x hx
      exact hx.trans (.modifyThread x t _)
  unfold schedulerBlockReturn at h
  obtain ⟨b, hb, h⟩ := Option.bind_eq_some_iff.mp h
  have hs' := congrArg Prod.fst (Option.some.inj h)
  dsimp only at hs'
  have hcur : SameObjects a (restoreCurrent a t) := by
    unfold restoreCurrent
    split
    · exact ⟨rfl, rfl⟩
    · exact .refl a
  rw [← hs']
  exact (hloop.trans (hcur.trans (.removeReady hb))).trans ⟨rfl, rfl⟩

theorem NothingNew.trans (h : NothingNew s s') (h' : NothingNew s' s'') : NothingNew s s'' where
  waits := h.waits.trans h'.waits
  type x := (h'.type x).trans (h.type x)
  available x hx := h.available x (h'.available x hx)
  signaled x u hx := h.signaled x u (h'.signaled x u hx)
  heapNext := h'.heapNext.trans h.heapNext

/-- Nothing is new if no thread starts to wait and the objects stay as they are. -/
theorem NothingNew.of_same (hw : NoNewWaits s s') (hs : SameObjects s s') : NothingNew s s' := by
  have hx : ∀ x, s'.signals x = s.signals x := fun x => congrFun hs.signals x
  refine ⟨hw, ?_, ?_, ?_, hs.heapNext⟩
  · intro x
    have hty : (s'.signals x).type = (s.signals x).type := by rw [hx]
    exact hty
  · intro x h0
    have hst : (s'.signals x).signalState = (s.signals x).signalState := by rw [hx]
    have hst' : (s'.objects x).signalState = (s.objects x).signalState := hst
    exact hst' ▸ h0
  · intro x u h0
    have hsig : syncIsSignaled (s'.signals x) u = syncIsSignaled (s.signals x) u := by rw [hx]
    exact hsig ▸ h0

/-- Consuming objects makes nothing new. -/
theorem NothingNew.consume (s : WboxScheduler) (id : UInt32) (os : List (Option Ptr)) :
    NothingNew s { s with objects := satisfyAll s.objects id os } where
  waits := .of_threads rfl
  type x := satisfyAll_type
  available x := by
    refine satisfyAll_invariant (I := fun a =>
      0 < (a x).signalState → 0 < (s.objects x).signalState) ?_ (fun h => h)
    intro a y _ ha hy
    by_cases hxy : x = y
    · subst hxy
      rw [Function.update_self] at hy
      exact ha (signalState_pos_of_satisfyWait hy)
    · rw [Function.update_of_ne hxy] at hy
      exact ha hy
  signaled x u h := signaled_of_satisfyAll h
  heapNext := rfl

/-- A waiter that is new to nobody was a waiter before. -/
theorem NoNewWaits.waitsOn (h : NoNewWaits s s') {wb : WbPtr} (hwb : s'.WaitsOn wb o) :
    s.WaitsOn wb o := by
  obtain ⟨hst, hi, ho⟩ := hwb
  obtain ⟨hw, hsame⟩ := h wb.thread hst
  refine ⟨hw, ?_, ?_⟩
  · rw [← hsame.waitCount]
    exact hi
  · rw [WboxScheduler.block] at ho ⊢
    rw [← hsame.object]
    exact ho

/-- A waiting thread still waits for what it waited for. -/
theorem NoNewWaits.waitOf (h : NoNewWaits s s') (ht : (s'.threads t).state = .waiting) :
    s'.waitOf t = s.waitOf t := by
  obtain ⟨-, hid, hty, hcount, hobj⟩ := h t ht
  simp only [WboxScheduler.waitOf, WboxScheduler.waitObjects, hid, hty, hcount, hobj]

/-- If nothing is new, nobody gets stuck. -/
theorem NothingNew.noneStuck (h : NothingNew s s') (hs : NoneStuck s) : NoneStuck s' := by
  rintro t x hty hav ⟨i, hi⟩ hsat
  have hst : (s'.threads t).state = .waiting := hi.1
  rw [h.waits.waitOf hst] at hsat
  exact hs t x (h.type x ▸ hty) (h.available x hav) ⟨i, h.waits.waitsOn hi⟩ (hsat.mono h.signaled)

/-- An immediate satisfaction consumes a list of objects. -/
theorem satisfyNow_consumes {objects objs : Objects} {id : UInt32} {waitType : WaitType}
    {os : List (Option Ptr)} (h : satisfyNow objects id waitType os = some (objs, status)) :
    ∃ xs, objs = satisfyAll objects id xs := by
  have hany : ∀ (i : Nat) (os : List (Option Ptr)) (r : Objects × Nat),
      satisfyAny objects id i os = some r → ∃ xs, r.1 = satisfyAll objects id xs := by
    intro i os r hr
    induction os generalizing i with
    | nil => cases hr
    | cons o os ih =>
      cases o with
      | none => exact ih (i + 1) hr
      | some o =>
        simp only [satisfyAny] at hr
        split at hr
        · rw [← Option.some.inj hr]
          exact ⟨[some o], rfl⟩
        · exact ih (i + 1) hr
  cases waitType with
  | any =>
    obtain ⟨r, hr, he⟩ := Option.map_eq_some_iff.mp h
    have hobjs : r.1 = objs := congrArg Prod.fst he
    exact hobjs ▸ hany 0 os r hr
  | all =>
    simp only [satisfyNow] at h
    split at h
    · exact ⟨os, (congrArg Prod.fst (Option.some.inj h)).symm⟩
    · cases h

/-- The status is one of those that `scheduler_block_thread` returns for a wait that no object
has satisfied. -/
def Unsatisfied (status : UInt32) : Prop :=
  status = statusTimeout ∨ status = statusInvalidParameter ∨ status = statusNotSet

theorem schedulerSwitch_waitStatus (s : WboxScheduler) (t : Ptr) :
    ((schedulerSwitch s).threads t).waitStatus = (s.threads t).waitStatus := by
  cases h : s.readyHead with
  | none => rw [schedulerSwitch_none h, switchIdle]
  | some n =>
    rw [schedulerSwitch_some h]
    obtain ⟨ctx, valid, hl⟩ := leavingThread_eq s t
    by_cases htn : t = n
    · subst htn
      simp [switchedTo, hl]
    · simp [switchedTo, htn, hl]

/-- A blocking call that has not been satisfied times out, or comes back as it was parked. -/
theorem schedulerBlockFinish_status (h0 : (s.threads t).waitStatus = statusNotSet)
    (h : schedulerBlockFinish s t = some (s', status)) : Unsatisfied status := by
  unfold schedulerBlockFinish at h
  obtain ⟨a, ha, h⟩ := Option.bind_eq_some_iff.mp h
  have hloop : Unsatisfied (a.threads t).waitStatus := by
    refine schedulerBlockLoop_invariant (R := fun x => Unsatisfied (x.threads t).waitStatus)
      (T := fun x => Unsatisfied (x.threads t).waitStatus) (fun _ _ _ hx => hx) ?_
      (fun _ hx => hx) ?_ ?_ (Or.inr (Or.inr h0)) ha
    · intro x y hx hy
      refine schedulerCheckTimeouts_invariant (R := fun x => Unsatisfied (x.threads t).waitStatus)
        hx ?_ hy
      intro b u c hb _ hw
      obtain ⟨nexts, lists, links, head, tail, rfl⟩ := hw.eq
      show Unsatisfied ((woken b u statusTimeout).threads t).waitStatus
      rw [woken, WboxScheduler.modifyThread_threads]
      split
      · exact Or.inl rfl
      · exact hb
    · intro x _
      rw [WboxScheduler.modifyThread_self]
      exact Or.inl rfl
    · intro x _
      rw [WboxScheduler.modifyThread_self]
      exact Or.inl rfl
  unfold schedulerBlockReturn at h
  obtain ⟨b, hb, h⟩ := Option.bind_eq_some_iff.mp h
  obtain ⟨links, head, tail, rfl⟩ := schedulerRemoveReady_eq hb
  have hst := congrArg Prod.snd (Option.some.inj h)
  have hcur : ((restoreCurrent a t).threads t).waitStatus = (a.threads t).waitStatus := by
    unfold restoreCurrent
    split
    · rfl
    · rfl
  simp only [WboxScheduler.setState, WboxScheduler.modifyThread_self, WboxScheduler.withReady]
    at hst
  rw [← hst, hcur]
  exact hloop

/-- A call of `scheduler_block_thread` that returns has consumed objects for the caller at once,
or has left the objects as they are, which did not satisfy the wait. -/
theorem schedulerBlockThread_cases {os : List (Option Ptr)} {waitType : WaitType}
    {timeout : UInt64} {alertable : Bool}
    (h : schedulerBlockThread s os waitType timeout alertable = some (s', status)) :
    (∃ t objs, s.currentThread = some t ∧ os.length ≤ threadWaitObjects ∧
      satisfyNow s.objects (s.threads t).threadId waitType os = some (objs, status) ∧
      s' = { s with objects := objs }) ∨
    (NoNewWaits s s' ∧ SameObjects s s' ∧ Unsatisfied status ∧
      ∀ t, s.currentThread = some t → os.length ≤ threadWaitObjects →
        satisfyNow s.objects (s.threads t).threadId waitType os = none) := by
  unfold schedulerBlockThread at h
  split at h
  · next a st hentry =>
    have ha : a = s' := congrArg Prod.fst (Option.some.inj h)
    have hst : st = status := congrArg Prod.snd (Option.some.inj h)
    subst ha hst
    unfold schedulerBlockEntry at hentry
    split at hentry
    · next hcur =>
      cases hentry
      exact Or.inr ⟨.refl _, .refl _, Or.inr (Or.inl rfl), fun t ht => by simp [hcur] at ht⟩
    · next t hcur =>
      split at hentry
      · next hlen =>
        cases hentry
        exact Or.inr ⟨.refl _, .refl _, Or.inr (Or.inl rfl), fun _ _ hle => absurd hle (by omega)⟩
      · next hlen =>
        split at hentry
        · next objs status hnow =>
          cases hentry
          exact Or.inl ⟨t, objs, hcur, Nat.not_lt.mp hlen, hnow, rfl⟩
        · next hnow =>
          split at hentry
          · cases hentry
            refine Or.inr ⟨.refl _, .refl _, Or.inl rfl, ?_⟩
            intro u hu _
            obtain rfl : t = u := Option.some.inj (hcur.symm.trans hu)
            exact hnow
          · cases hentry
  · next u hentry =>
    refine Or.inr ⟨?_, (SameObjects.blockEnter s u os waitType timeout alertable).trans
      (.blockFinish h), ?_, ?_⟩
    · intro v hv
      obtain ⟨hvu, hw, hsame⟩ := (schedulerBlockFinish_caller h).2.2 v hv
      rcases schedulerBlockEnter_waits hw with rfl | ⟨hw', hsame'⟩
      · exact absurd rfl hvu
      · exact ⟨hw', hsame'.trans hsame⟩
    · apply schedulerBlockFinish_status _ h
      rw [schedulerBlockEnter, schedulerSwitch_waitStatus, parkThread_eq,
        WboxScheduler.modifyThread_self]
    · intro t ht _
      obtain ⟨hu, -, hnow, -⟩ := schedulerBlockEntry_wait_iff.mp hentry
      obtain rfl : u = t := Option.some.inj (hu.symm.trans ht)
      exact hnow

/-- A call of `scheduler_block_thread` that returns leaves nothing new behind. -/
theorem NothingNew.blockThread {os : List (Option Ptr)} {waitType : WaitType} {timeout : UInt64}
    {alertable : Bool}
    (h : schedulerBlockThread s os waitType timeout alertable = some (s', status)) :
    NothingNew s s' := by
  rcases schedulerBlockThread_cases h with ⟨t, objs, -, -, hnow, rfl⟩ | ⟨hwaits, hsame, -⟩
  · obtain ⟨xs, rfl⟩ := satisfyNow_consumes hnow
    exact .consume s _ xs
  · exact .of_same hwaits hsame

end Wbox.Thread
