import Wbox.Lib.Trace
import Wbox.Thread.Pending

/-!
# What a wait consumes

A unit is the signal of an auto-reset event, one count of a semaphore or one ownership level of
a mutant. `sync_is_signaled` tests and `sync_satisfy_wait` takes, and the two are apart: a
WaitAll tests each of its objects once before it takes from any.
-/

namespace Wbox.Nt

/-- One unit of the object for the thread with this id, if one is available. The objects of the
other types are signaled or not, and never consumed. -/
def SyncObject.takeUnit (obj : SyncObject) (id : UInt32) : Option SyncObject :=
  match obj.type with
  | .eventSynchronization => if 0 < obj.signalState then some { obj with signalState := 0 } else none
  | .semaphore =>
      if 0 < obj.signalState then some { obj with signalState := obj.signalState - 1 } else none
  | .mutant =>
      if 0 < obj.signalState then
        some { obj with signalState := -1, ownerThreadId := id, recursionCount := 1 }
      else if obj.ownerThreadId = id then
        some { obj with
          signalState := obj.signalState - 1
          recursionCount := obj.recursionCount + 1 }
      else none
  | .eventNotification | .timer | .thread => if 0 < obj.signalState then some obj else none
  | .unknown => none

/-- The object has `n` units for the thread; all units there are, if it is no semaphore and no
auto-reset event. -/
def SyncObject.HasUnits (obj : SyncObject) (id : UInt32) (n : Nat) : Prop :=
  match obj.type with
  | .eventSynchronization => 0 < obj.signalState ∧ n ≤ 1
  | .semaphore => n ≤ obj.signalState
  | .mutant => 0 < obj.signalState ∨ obj.ownerThreadId = id
  | .eventNotification | .timer | .thread => 0 < obj.signalState
  | .unknown => False

/-- A listing of the object `n` times asks for no more units than it has. -/
def SyncObject.Covers (obj : SyncObject) (n : Nat) : Prop :=
  (obj.type = .eventSynchronization → n ≤ 1) ∧ (obj.type = .semaphore → n ≤ obj.signalState)

variable {obj obj' : SyncObject} {id : UInt32} {n : Nat}

/-- The unit that is taken is what `sync_satisfy_wait` takes. -/
theorem SyncObject.takeUnit_eq (h : obj.takeUnit id = some obj') :
    obj' = syncSatisfyWait obj id := by
  unfold takeUnit at h
  unfold syncSatisfyWait
  cases ht : obj.type with
  | unknown => simp [ht] at h
  | mutant =>
    simp only [ht] at h ⊢
    split at h
    · next h0 =>
      rw [if_pos h0]
      exact (Option.some.inj h).symm
    · next h0 =>
      split at h
      · next ho =>
        rw [if_neg h0, if_pos ho]
        exact (Option.some.inj h).symm
      · cases h
  | semaphore =>
    simp only [ht] at h ⊢
    split at h
    · next h0 =>
      rw [if_pos h0]
      exact (Option.some.inj h).symm
    · cases h
  | eventSynchronization | eventNotification | timer | thread =>
    simp only [ht] at h ⊢
    split at h
    · exact (Option.some.inj h).symm
    · cases h

/-- An object that is signaled for the thread has a unit for it. -/
theorem SyncObject.takeUnit_of_signaled (h : syncIsSignaled obj id = true) :
    obj.takeUnit id = some (syncSatisfyWait obj id) := by
  cases ht : obj.type with
  | unknown => simp [syncIsSignaled, ht] at h
  | mutant =>
    simp only [syncIsSignaled, ht] at h
    split at h
    · next h0 => simp [takeUnit, syncSatisfyWait, ht, h0]
    · next h0 =>
      have ho : obj.ownerThreadId = id := (of_decide_eq_true h).1
      simp [takeUnit, syncSatisfyWait, ht, h0, ho]
  | semaphore | eventSynchronization | eventNotification | timer | thread =>
    have h0 : 0 < obj.signalState := by simpa [syncIsSignaled, ht] using h
    simp [takeUnit, syncSatisfyWait, ht, h0]

/-- The units of an object are one unit and the rest. -/
theorem SyncObject.hasUnits_succ : obj.HasUnits id (n + 1) ↔
    ∃ obj', obj.takeUnit id = some obj' ∧ (0 < n → obj'.HasUnits id n) := by
  unfold takeUnit
  cases ht : obj.type with
  | unknown => simp [HasUnits, ht]
  | mutant =>
    by_cases h0 : 0 < obj.signalState
    · simp [HasUnits, ht, h0]
    · by_cases ho : obj.ownerThreadId = id
      · simp [HasUnits, ht, h0, ho]
      · simp [HasUnits, ht, h0, ho]
  | semaphore =>
    by_cases h0 : 0 < obj.signalState
    · simp only [HasUnits, ht, h0, if_true, Option.some.injEq, exists_eq_left']
      omega
    · simp only [HasUnits, ht, h0, if_false, reduceCtorEq, false_and, exists_false, iff_false]
      omega
  | eventSynchronization =>
    by_cases h0 : 0 < obj.signalState
    · simp only [HasUnits, ht, h0, if_true, Option.some.injEq, exists_eq_left', true_and]
      omega
    · simp [HasUnits, ht, h0]
  | eventNotification | timer | thread =>
    by_cases h0 : 0 < obj.signalState
    · simp [HasUnits, ht, h0]
    · simp [HasUnits, ht, h0]

/-- A signaled object has the units a listing asks for if the listing does not ask for more. -/
theorem SyncObject.hasUnits_iff_covers (h : syncIsSignaled obj id = true) :
    obj.HasUnits id n ↔ obj.Covers n := by
  unfold syncIsSignaled at h
  cases ht : obj.type with
  | unknown => simp [ht] at h
  | mutant =>
    have hown : 0 < obj.signalState ∨ obj.ownerThreadId = id := by
      simp only [ht] at h
      split at h
      · next h0 => exact Or.inl h0
      · exact Or.inr (of_decide_eq_true h).1
    simp [HasUnits, Covers, ht, hown]
  | semaphore => simp [HasUnits, Covers, ht]
  | eventSynchronization =>
    have h0 : 0 < obj.signalState := by simpa [ht] using h
    simp [HasUnits, Covers, ht, h0]
  | eventNotification | timer | thread =>
    have h0 : 0 < obj.signalState := by simpa [ht] using h
    simp [HasUnits, Covers, ht, h0]

end Wbox.Nt

namespace Wbox.Thread

open Wbox.Cpu Wbox.Nt Wbox.Lib

/-- One unit from each object of the list in turn, as often as it is listed. -/
def takeUnits (objs : Objects) (id : UInt32) : List (Option Ptr) → Option Objects
  | [] => some objs
  | none :: os => takeUnits objs id os
  | some o :: os =>
      match (objs o).takeUnit id with
      | none => none
      | some obj => takeUnits (Function.update objs o obj) id os

/-- The status with which the wait reports that it was satisfied. -/
def Wait.Succeeds (w : Wait) (status : UInt32) : Prop :=
  match w.type with
  | .any => ∃ i, i < w.objects.length ∧ i < threadWaitObjects ∧
      status = statusWait0 + UInt32.ofNat i
  | .all => status = statusWait0

/-- The wait has consumed what its status reports: a WaitAny one unit of the object it names, a
WaitAll one unit for each listed occurrence, and a wait that was not satisfied nothing. -/
def Wait.Consumed (w : Wait) (status : UInt32) (objs objs' : Objects) : Prop :=
  (¬ w.Succeeds status → objs' = objs) ∧
    match w.type with
    | .any => ∀ i, i < w.objects.length → i < threadWaitObjects →
        status = statusWait0 + UInt32.ofNat i →
        ∃ o, w.objects[i]? = some (some o) ∧ takeUnits objs w.id [some o] = some objs'
    | .all => status = statusWait0 → takeUnits objs w.id w.objects = some objs'

/-- A WaitAll whose objects are all signaled lists no auto-reset event twice and no semaphore
more often than it counts. -/
def Wait.Enough (w : Wait) (objs : Objects) : Prop :=
  w.type = .all → allSignaled objs w.id w.objects = true →
    ∀ o, some o ∈ w.objects → (objs o).Covers (w.objects.count (some o))

variable {objs objs' : Objects} {id status : UInt32} {os : List (Option Ptr)} {w : Wait}
  {s s' : WboxScheduler} {t o : Ptr}

/-- Units that are taken are taken as `sync_satisfy_wait` does. -/
theorem takeUnits_eq (h : takeUnits objs id os = some objs') :
    objs' = satisfyAll objs id os := by
  induction os generalizing objs with
  | nil => exact (Option.some.inj h).symm
  | cons y ys ih =>
    cases y with
    | none => exact ih h
    | some y =>
      simp only [takeUnits] at h
      split at h
      · cases h
      · next obj hobj =>
        rw [SyncObject.takeUnit_eq hobj] at h
        exact ih h

/-- All units can be taken if each object has as many as it is listed. -/
theorem takeUnits_isSome_iff : (takeUnits objs id os).isSome = true ↔
    ∀ o, some o ∈ os → (objs o).HasUnits id (os.count (some o)) := by
  induction os generalizing objs with
  | nil => simp [takeUnits]
  | cons y ys ih =>
    cases y with
    | none => simp [takeUnits, ih]
    | some y =>
      have hself : (some y :: ys).count (some y) = ys.count (some y) + 1 := by simp
      have hne : ∀ o, o ≠ y → (some y :: ys).count (some o) = ys.count (some o) := by
        intro o ho
        have hoy : some y ≠ some o := fun he => ho (Option.some.inj he).symm
        rw [List.count_cons_of_ne hoy]
      constructor
      · intro h
        simp only [takeUnits] at h
        split at h
        · cases h
        · next obj hobj =>
          have hrest := ih.mp h
          intro o ho
          by_cases hoy : o = y
          · subst hoy
            rw [hself, SyncObject.hasUnits_succ]
            refine ⟨obj, hobj, ?_⟩
            intro hpos
            have hmem := hrest o (List.count_pos_iff.mp hpos)
            rwa [Function.update_self] at hmem
          · rw [hne o hoy]
            have hmem : some o ∈ ys := by simpa [hoy] using ho
            have h' := hrest o hmem
            rwa [Function.update_of_ne hoy] at h'
      · intro h
        have hy := h y List.mem_cons_self
        rw [hself, SyncObject.hasUnits_succ] at hy
        obtain ⟨obj, hobj, hunits⟩ := hy
        simp only [takeUnits, hobj]
        apply ih.mpr
        intro o ho
        by_cases hoy : o = y
        · subst hoy
          rw [Function.update_self]
          exact hunits (List.count_pos_iff.mpr ho)
        · rw [Function.update_of_ne hoy, ← hne o hoy]
          exact h o (List.mem_cons_of_mem _ ho)

/-- What a satisfied WaitAll consumes is a unit for each occurrence exactly if there is one. -/
theorem takeUnits_satisfyAll_iff (h : allSignaled objs id os = true) :
    takeUnits objs id os = some (satisfyAll objs id os) ↔
      ∀ o, some o ∈ os → (objs o).Covers (os.count (some o)) := by
  have hsome : takeUnits objs id os = some (satisfyAll objs id os) ↔
      (takeUnits objs id os).isSome = true := by
    constructor
    · intro he
      rw [he]
      rfl
    · intro hs
      obtain ⟨x, hx⟩ := Option.isSome_iff_exists.mp hs
      rw [hx, takeUnits_eq hx]
  rw [hsome, takeUnits_isSome_iff]
  constructor
  · intro hunits o ho
    exact (SyncObject.hasUnits_iff_covers (signaled_of_allSignaled h ho)).mp (hunits o ho)
  · intro hcovers o ho
    exact (SyncObject.hasUnits_iff_covers (signaled_of_allSignaled h ho)).mpr (hcovers o ho)

/-- A satisfied WaitAny takes a unit of the first object that is signaled. -/
theorem satisfyAny_spec {k i : Nat} (h : satisfyAny objs id k os = some (objs', i)) :
    ∃ j o, i = k + j ∧ os[j]? = some (some o) ∧ syncIsSignaled (objs o) id = true ∧
      objs' = satisfyAll objs id [some o] := by
  induction os generalizing k with
  | nil => cases h
  | cons y ys ih =>
    have hrest : satisfyAny objs id (k + 1) ys = some (objs', i) →
        ∃ j o, i = k + j ∧ (y :: ys)[j]? = some (some o) ∧
          syncIsSignaled (objs o) id = true ∧ objs' = satisfyAll objs id [some o] := by
      intro hys
      obtain ⟨j, o, hi, hj, hsig, hobjs⟩ := ih hys
      exact ⟨j + 1, o, by omega, hj, hsig, hobjs⟩
    cases y with
    | none => exact hrest h
    | some y =>
      simp only [satisfyAny] at h
      split at h
      · next hsig =>
        have he := Option.some.inj h
        exact ⟨0, y, (congrArg Prod.snd he).symm, rfl, hsig, (congrArg Prod.fst he).symm⟩
      · exact hrest h

/-- The objects without their wait lists. -/
def unlinked (objs : Objects) : Objects := fun x => { objs x with waitList := none }

/-- The entry tests do not look at the wait lists. -/
theorem satisfyNow_unlinked (objs : Objects) (id : UInt32) (type : WaitType)
    (os : List (Option Ptr)) :
    satisfyNow (unlinked objs) id type os =
      (satisfyNow objs id type os).map fun r => (unlinked r.1, r.2) := by
  have hany : ∀ k, satisfyAny (unlinked objs) id k os =
      (satisfyAny objs id k os).map fun r => (unlinked r.1, r.2) := by
    induction os with
    | nil => exact fun _ => rfl
    | cons y ys ih =>
      intro k
      cases y with
      | none => exact ih (k + 1)
      | some y =>
        have hsig : syncIsSignaled (unlinked objs y) id = syncIsSignaled (objs y) id := rfl
        simp only [satisfyAny, hsig]
        by_cases hs : syncIsSignaled (objs y) id = true
        · rw [if_pos hs, if_pos hs]
          exact congrArg (fun a => some (a, k)) (satisfyAll_signals objs id [some y])
        · rw [if_neg hs, if_neg hs]
          exact ih (k + 1)
  cases type with
  | any => simp only [satisfyNow, hany, Option.map_map, Function.comp_def]
  | all =>
    have hall : allSignaled (unlinked objs) id os = allSignaled objs id os := rfl
    simp only [satisfyNow, hall]
    split
    · exact congrArg (fun a => some (a, statusWait0)) (satisfyAll_signals objs id os)
    · rfl

/-- Different indices of a wait are different statuses. -/
theorem status_inj {i j : Nat} (hi : i < threadWaitObjects) (hj : j < threadWaitObjects)
    (h : statusWait0 + UInt32.ofNat i = statusWait0 + UInt32.ofNat j) : i = j := by
  simp only [statusWait0, UInt32.zero_add] at h
  have hlt : threadWaitObjects < UInt32.size := by decide
  have hn := congrArg UInt32.toNat h
  rwa [UInt32.toNat_ofNat_of_lt' (Nat.lt_trans hi hlt), UInt32.toNat_ofNat_of_lt' (Nat.lt_trans hj hlt)] at hn

/-- A WaitAny that reports the index of a signaled object has taken one unit of it. -/
theorem Wait.Consumed.of_any {i : Nat} (ht : w.type = .any)
    (hlen : w.objects.length ≤ threadWaitObjects) (hi : w.objects[i]? = some (some o))
    (hsig : syncIsSignaled (objs o) w.id = true) :
    w.Consumed (statusWait0 + UInt32.ofNat i) objs (satisfyAll objs w.id [some o]) := by
  have hil : i < w.objects.length := (List.getElem?_eq_some_iff.mp hi).1
  have hi64 : i < threadWaitObjects := Nat.lt_of_lt_of_le hil hlen
  refine ⟨fun hno => absurd ?_ hno, ?_⟩
  · rw [Succeeds, ht]
    exact ⟨i, hil, hi64, rfl⟩
  · rw [ht]
    intro k _ hk hkst
    obtain rfl : i = k := status_inj hi64 hk hkst
    refine ⟨o, hi, ?_⟩
    simp only [takeUnits, SyncObject.takeUnit_of_signaled hsig]
    rfl

/-- A WaitAll whose objects are signaled has taken what it reports exactly if there are enough
units. -/
theorem Wait.consumed_all_iff (ht : w.type = .all)
    (hall : allSignaled objs w.id w.objects = true) :
    w.Consumed statusWait0 objs (satisfyAll objs w.id w.objects) ↔ w.Enough objs := by
  simp [Consumed, Enough, Succeeds, ht, hall, takeUnits_satisfyAll_iff hall]

/-- Only a WaitAll asks for more than one unit. -/
theorem Wait.Enough.of_any (ht : w.type = .any) : w.Enough objs :=
  fun hall => by simp [ht] at hall

/-- A wait that its entry tests satisfy consumes what it reports exactly if there are enough
units. -/
theorem Wait.consumed_iff_enough (hlen : w.objects.length ≤ threadWaitObjects)
    (h : satisfyNow objs w.id w.type w.objects = some (objs', status)) :
    w.Consumed status objs objs' ↔ w.Enough objs := by
  cases ht : w.type with
  | any =>
    rw [ht] at h
    obtain ⟨⟨objs₁, i⟩, hany, he⟩ := Option.map_eq_some_iff.mp h
    obtain ⟨hobjs, hst⟩ := Prod.mk.inj he
    obtain ⟨j, o, hi, hj, hsig, htake⟩ := satisfyAny_spec hany
    obtain rfl : i = j := by omega
    dsimp only at hobjs hst htake
    rw [← hobjs, ← hst, htake]
    exact iff_of_true (.of_any ht hlen hj hsig) (.of_any ht)
  | all =>
    simp only [ht, satisfyNow] at h
    split at h
    · next hall =>
      obtain ⟨hobjs, hst⟩ := Prod.mk.inj (Option.some.inj h)
      rw [← hobjs, ← hst]
      exact consumed_all_iff ht hall
    · cases h

/-- A wait whose status is no success has taken nothing if the objects are as they were. -/
theorem Wait.Consumed.of_not_succeeds (h : ¬ w.Succeeds status) : w.Consumed status objs objs := by
  refine ⟨fun _ => rfl, ?_⟩
  unfold Succeeds at h
  split
  · next ht =>
    rw [ht] at h
    intro i hi hi' hst
    exact absurd ⟨i, hi, hi', hst⟩ h
  · next ht =>
    rw [ht] at h
    exact fun hst => absurd hst h

/-- A wait that its entry tests do not satisfy has enough units. -/
theorem Wait.Enough.of_none (h : satisfyNow objs w.id w.type w.objects = none) :
    w.Enough objs := by
  intro ht hall
  simp [satisfyNow, ht, hall] at h

/-- The status of a wait that was not satisfied is no success. -/
theorem Unsatisfied.not_succeeds (h : Unsatisfied status) : ¬ w.Succeeds status := by
  have hbig : threadWaitObjects ≤ status.toNat := by
    rcases h with rfl | rfl | rfl
    · decide
    · decide
    · decide
  unfold Wait.Succeeds
  split
  · rintro ⟨i, -, hi, rfl⟩
    have hlt : threadWaitObjects < UInt32.size := by decide
    rw [statusWait0, UInt32.zero_add, UInt32.toNat_ofNat_of_lt' (Nat.lt_trans hi hlt)] at hbig
    omega
  · rintro rfl
    exact absurd hbig (by decide)

/-- A call of `scheduler_block_thread` consumes what it reports exactly if there are enough
units. -/
theorem schedulerBlockThread_consumed_iff {timeout : UInt64} {alertable : Bool}
    (hid : ∀ t, s.currentThread = some t → (s.threads t).threadId = w.id)
    (h : schedulerBlockThread s w.objects w.type timeout alertable = some (s', status)) :
    w.Consumed status s.signals s'.signals ↔
      (s.currentThread ≠ none → w.objects.length ≤ threadWaitObjects →
        w.Enough s.signals) := by
  rcases schedulerBlockThread_cases h with
    ⟨t, objs, hcur, hlen, hnow, rfl⟩ | ⟨-, hsame, hst, hnone⟩
  · rw [hid t hcur] at hnow
    have hsig : satisfyNow s.signals w.id w.type w.objects = some (unlinked objs, status) := by
      show satisfyNow (unlinked s.objects) w.id w.type w.objects = _
      rw [satisfyNow_unlinked, hnow]
      rfl
    show w.Consumed status s.signals (unlinked objs) ↔ _
    rw [Wait.consumed_iff_enough hlen hsig]
    simp [hcur, hlen]
  · rw [hsame.signals]
    constructor
    · intro _ hcur hlen
      obtain ⟨t, ht⟩ := Option.ne_none_iff_exists'.mp hcur
      apply Wait.Enough.of_none
      have hnow := hnone t ht hlen
      rw [hid t ht] at hnow
      show satisfyNow (unlinked s.objects) w.id w.type w.objects = none
      rw [satisfyNow_unlinked, hnow]
      rfl
    · exact fun _ => .of_not_succeeds hst.not_succeeds

/-- Each registered block has its index for a key, `scheduler.c:403`. -/
def WaitKeys (s : WboxScheduler) : Prop :=
  ∀ wb o, s.WaitsOn wb o → (s.block wb).waitKey = wb.index

/-- The wake-up consumes what it reports to the thread. -/
def WakeConsumes (o : Ptr) (s : WboxScheduler) (w : WbPtr × UInt32) : Prop :=
  ∀ s', wakeStep o s w = some s' →
    (s.waitOf w.1.thread).Consumed w.2 s.signals s'.signals

/-- There are enough units for the wait that is completed. -/
def WakeEnough (_ : Ptr) (s : WboxScheduler) (w : WbPtr × UInt32) : Prop :=
  (s.waitOf w.1.thread).Enough s.signals

/-- A wake-up changes no block of another thread. -/
theorem WakeStep.waitKeys (h : WakeStep s o t status s') (hk : WaitKeys s) : WaitKeys s' := by
  intro wb x hwb
  have hne : wb.thread ≠ t := by
    intro he
    have hst := hwb.1
    rw [he, h.ready] at hst
    cases hst
  have hkept := h.kept wb.thread hne
  have hkey := hk wb x (hkept.waitsOn.mp hwb)
  obtain ⟨nexts, ready, he⟩ := hkept
  rw [← hkey]
  simp only [WboxScheduler.block, he]

/-- A wake-up consumes what it reports exactly if there are enough units. -/
theorem wakeConsumes_iff {w : WbPtr × UInt32} (hw : Waking o s w) (hk : WaitKeys s) :
    WakeConsumes o s w ↔ WakeEnough o s w := by
  obtain ⟨hlists, hon, hst⟩ := hw
  obtain ⟨s', hs', hstep⟩ : ∃ s', wakeThread s o w.1.thread w.2 = some s' ∧
      WakeStep s o w.1.thread w.2 s' := wakeThread_spec hlists hon.1
  have hiff : WakeConsumes o s w ↔
      (s.waitOf w.1.thread).Consumed w.2 s.signals s'.signals := by
    constructor
    · exact fun h => h s' hs'
    · intro h b hb
      obtain rfl : s' = b := Option.some.inj (hs'.symm.trans hb)
      exact h
  rw [hiff, hstep.signals, WakeEnough, Wait.consume, Wait.consumed]
  unfold wakeStatus at hst
  cases ht : (s.threads w.1.thread).waitType with
  | any =>
    have hty : (s.waitOf w.1.thread).type = .any := ht
    simp only [ht] at hst
    split at hst
    · next hsig =>
      have hidx : (s.waitOf w.1.thread).objects[w.1.index]? = some (some o) := by
        have hlt : w.1.index < (s.threads w.1.thread).waitCount := hon.2.1
        have hobj : ((s.threads w.1.thread).waitBlocks w.1.index).object = some o := hon.2.2
        simp [WboxScheduler.waitOf, WboxScheduler.waitObjects, hlt, hobj]
      have hlen : (s.waitOf w.1.thread).objects.length ≤ threadWaitObjects := by
        have hle := hlists.count_le w.1.thread hon.1
        simpa [WboxScheduler.waitOf, WboxScheduler.waitObjects] using hle
      rw [← Option.some.inj hst, hk w.1 o hon, hty]
      exact iff_of_true (.of_any hty hlen hidx hsig) (.of_any hty)
    · cases hst
  | all =>
    have hty : (s.waitOf w.1.thread).type = .all := ht
    simp only [ht] at hst
    split at hst
    · next hall =>
      rw [← Option.some.inj hst, hty]
      exact Wait.consumed_all_iff hty hall
    · cases hst

/-- The waits that a signal completes consume what they report exactly if there are enough units
for each when its turn comes. -/
theorem WokenBy.consumes_iff {ws : List (WbPtr × UInt32)} (h : WokenBy s o ws s')
    (hk : WaitKeys s) :
    Guarded (wakeStep o) (WakeConsumes o) s ws ↔ Guarded (wakeStep o) (WakeEnough o) s ws := by
  have hg : Guarded (wakeStep o) (fun a w => Waking o a w ∧ WaitKeys a) s ws := by
    refine h.waking.imp (I := WaitKeys) ?_ (fun a w ha hw => ⟨hw, ha⟩) hk
    intro a w b ha hw hb
    obtain ⟨c, hc, hstep⟩ : ∃ c, wakeThread a o w.1.thread w.2 = some c ∧
        WakeStep a o w.1.thread w.2 c := wakeThread_spec hw.1 hw.2.1.1
    obtain rfl : c = b := Option.some.inj (hc.symm.trans hb)
    exact hstep.waitKeys ha
  exact hg.iff fun a w hw => wakeConsumes_iff hw.1 hw.2

end Wbox.Thread
