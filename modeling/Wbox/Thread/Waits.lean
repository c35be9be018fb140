import Wbox.Thread.WaitList

/-!
# Waits and what satisfies them

A wait by itself: who waits, for what, and under which rule. The purpose of
`scheduler_signal_object` is stated on waits: each wake-up consumes what it was satisfied
by, so a wait that could not be satisfied once cannot be satisfied later in the same signal.
-/

namespace Wbox.Thread

open Wbox.Cpu Wbox.Nt Wbox.Lib

/-- A registered wait. -/
structure Wait where
  id : UInt32
  type : WaitType
  objects : List (Option Ptr)

/-- The state of every object, without its wait list. -/
abbrev Objects := Ptr → SyncObject

namespace Wait

/-- A signal of `o` can satisfy the wait: by `o` itself, or by all objects together. -/
def SatisfiableBy (w : Wait) (objs : Objects) (o : Ptr) : Prop :=
  match w.type with
  | .any => syncIsSignaled (objs o) w.id = true
  | .all => allSignaled objs w.id w.objects = true

/-- The objects a signal of `o` consumes to satisfy the wait. -/
def consumed (w : Wait) (o : Ptr) : List (Option Ptr) :=
  match w.type with
  | .any => [some o]
  | .all => w.objects

/-- The objects once the wait has been satisfied by a signal of `o`. -/
def consume (o : Ptr) (objs : Objects) (w : Wait) : Objects :=
  satisfyAll objs w.id (w.consumed o)

/-- The objects once these waits have been satisfied, one after the other. -/
def consumeAll (o : Ptr) (objs : Objects) (ws : List Wait) : Objects := ws.foldl (consume o) objs

/-- Each wait of the list can be satisfied when its turn comes. -/
def InTurn (o : Ptr) (objs : Objects) (ws : List Wait) : Prop :=
  ∀ k (h : k < ws.length), (ws.get ⟨k, h⟩).SatisfiableBy (consumeAll o objs (ws.take k)) o

end Wait

variable {objs : Objects} {o x : Ptr} {id u : UInt32} {os : List (Option Ptr)} {w : Wait}
  {ws : List Wait}

theorem satisfyAll_some (y : Ptr) :
    satisfyAll objs id (some y :: os) =
      satisfyAll (Function.update objs y (syncSatisfyWait (objs y) id)) id os := rfl

/-- Satisfying a list of objects, one object at a time. -/
theorem satisfyAll_invariant {I : Objects → Prop}
    (hstep : ∀ objs y, some y ∈ os → I objs →
      I (Function.update objs y (syncSatisfyWait (objs y) id))) (h0 : I objs) :
    I (satisfyAll objs id os) := by
  induction os generalizing objs with
  | nil => exact h0
  | cons y ys ih =>
    cases y with
    | none => exact ih (fun objs y hy => hstep objs y (by simp [hy])) h0
    | some y =>
      exact ih (fun objs y hy => hstep objs y (by simp [hy])) (hstep objs y (by simp) h0)

/-- Satisfied waits signal nothing. -/
theorem signaled_of_satisfyAll (h : syncIsSignaled (satisfyAll objs id os x) u = true) :
    syncIsSignaled (objs x) u = true := by
  refine satisfyAll_invariant (I := fun a =>
    syncIsSignaled (a x) u = true → syncIsSignaled (objs x) u = true) ?_ (fun ha => ha) h
  intro a y _ ha hy
  apply ha
  by_cases hxy : x = y
  · subst hxy
    rw [Function.update_self] at hy
    exact syncIsSignaled_of_satisfyWait hy
  · rwa [Function.update_of_ne hxy] at hy

/-- Satisfied waits keep the type of an object. -/
@[simp] theorem satisfyAll_type : (satisfyAll objs id os x).type = (objs x).type := by
  refine satisfyAll_invariant (I := fun a => (a x).type = (objs x).type) ?_ rfl
  intro a y _ ha
  by_cases hxy : x = y
  · subst hxy
    rw [Function.update_self, syncSatisfyWait_type, ha]
  · rw [Function.update_of_ne hxy, ha]

/-- Satisfied waits keep the wait list of an object. -/
@[simp] theorem satisfyAll_waitList : (satisfyAll objs id os x).waitList = (objs x).waitList := by
  refine satisfyAll_invariant (I := fun a => (a x).waitList = (objs x).waitList) ?_ rfl
  intro a y _ ha
  by_cases hxy : x = y
  · subst hxy
    rw [Function.update_self, syncSatisfyWait_waitList, ha]
  · rw [Function.update_of_ne hxy, ha]

/-- An auto-reset event among satisfied objects is reset. -/
theorem satisfyAll_autoReset (ht : (objs x).type = .eventSynchronization) (hx : some x ∈ os) :
    (satisfyAll objs id os x).signalState = 0 := by
  have hkeep : ∀ objs : Objects, (objs x).type = .eventSynchronization →
      (objs x).signalState = 0 → ∀ os, (satisfyAll objs id os x).signalState = 0 := by
    intro objs ht h0 os
    refine (satisfyAll_invariant (I := fun a =>
      (a x).type = .eventSynchronization ∧ (a x).signalState = 0) ?_ ⟨ht, h0⟩).2
    rintro a y - ⟨hat, ha⟩
    by_cases hxy : x = y
    · subst hxy
      rw [Function.update_self, syncSatisfyWait_type]
      exact ⟨hat, by simp [syncSatisfyWait, hat]⟩
    · rw [Function.update_of_ne hxy]
      exact ⟨hat, ha⟩
  induction os generalizing objs with
  | nil => cases hx
  | cons y ys ih =>
    cases y with
    | none => exact ih ht (by simpa using hx)
    | some y =>
      by_cases hxy : x = y
      · subst hxy
        rw [satisfyAll_some]
        apply hkeep
        · rw [Function.update_self, syncSatisfyWait_type, ht]
        · rw [Function.update_self]
          simp [syncSatisfyWait, ht]
      · rw [satisfyAll_some]
        apply ih
        · rw [Function.update_of_ne hxy, ht]
        · simpa [hxy] using hx

/-- What all objects satisfy of a list they satisfy of each member. -/
theorem signaled_of_allSignaled (h : allSignaled objs id os = true) (hx : some x ∈ os) :
    syncIsSignaled (objs x) id = true :=
  List.all_eq_true.mp h (some x) hx

/-- If consuming signals nothing new, neither does it for all objects of a list. -/
theorem allSignaled_mono {objs' : Objects}
    (hm : ∀ y, syncIsSignaled (objs' y) id = true → syncIsSignaled (objs y) id = true)
    (h : allSignaled objs' id os = true) : allSignaled objs id os = true := by
  rw [allSignaled, List.all_eq_true] at h ⊢
  intro y hy
  cases y with
  | none => rfl
  | some y => exact hm y (h (some y) hy)

namespace Wait

/-- A wait that could be satisfied by a signal of `o` after objects were consumed could be
before. -/
theorem SatisfiableBy.mono {objs' : Objects}
    (hm : ∀ y u, syncIsSignaled (objs' y) u = true → syncIsSignaled (objs y) u = true)
    (h : w.SatisfiableBy objs' o) : w.SatisfiableBy objs o := by
  unfold SatisfiableBy at h ⊢
  split at h
  · exact hm o w.id h
  · exact allSignaled_mono (fun y => hm y w.id) h

/-- The wait names the object: then an auto-reset event is reset by satisfying it. -/
theorem consume_autoReset (ht : (objs o).type = .eventSynchronization) (ho : some o ∈ w.objects) :
    (consume o objs w o).signalState = 0 := by
  apply satisfyAll_autoReset ht
  unfold consumed
  split
  · simp
  · exact ho

/-- A signal of an object that is not signaled satisfies no wait for it. -/
theorem not_satisfiableBy (hs : syncIsSignaled (objs o) w.id = false) (ho : some o ∈ w.objects) :
    ¬ w.SatisfiableBy objs o := by
  unfold SatisfiableBy
  split
  · simp [hs]
  · intro h
    simp [signaled_of_allSignaled h ho] at hs

/-- The first wait and then the others are satisfied in turn. -/
theorem InTurn.cons (hw : w.SatisfiableBy objs o) (h : InTurn o (consume o objs w) ws) :
    InTurn o objs (w :: ws) := by
  intro k hk
  cases k with
  | zero => exact hw
  | succ k => exact h k (by simpa using hk)

end Wait
end Wbox.Thread
