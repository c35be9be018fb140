import Mathlib.Logic.Function.Basic
import Mathlib.Data.Option.Basic

/-!
# Pools of objects

An array of objects that are marked while they are in use, and blocks of the heap once the array
is full. An address is the index of an object of the array, or beyond its size a block of the heap.
Giving an object back leaves its contents; only a block of the heap may not be touched afterwards.
-/

namespace Wbox.Lib

/-- Objects that carry the mark of being in use. -/
class PoolObject (α : Type) where
  zero : α
  inUse : α → Bool
  setInUse : Bool → α → α
  inUse_setInUse : ∀ b x, inUse (setInUse b x) = b

/-- The objects, and how often each of them has been given back. -/
structure Pool (α : Type) where
  size : Nat
  object : Nat → α
  frees : Nat → Nat

namespace Pool

variable {α : Type}

/-- Replace an object. -/
def set (p : Pool α) (a : Nat) (x : α) : Pool α :=
  { p with object := Function.update p.object a x }

@[simp] theorem set_object (p : Pool α) (a : Nat) (x : α) :
    (p.set a x).object = Function.update p.object a x := rfl

@[simp] theorem set_size (p : Pool α) (a : Nat) (x : α) : (p.set a x).size = p.size := rfl

@[simp] theorem set_frees (p : Pool α) (a : Nat) (x : α) : (p.set a x).frees = p.frees := rfl

variable [PoolObject α]

/-- The objects before the first of them is used. -/
def init (size : Nat) : Pool α where
  size := size
  object := fun _ => PoolObject.zero
  frees := fun _ => 0

/-- The object at an address is in use. -/
def inUse (p : Pool α) (a : Nat) : Bool := PoolObject.inUse (p.object a)

/-- The first object of the array that is not in use. -/
def firstFree (p : Pool α) : Option Nat := (List.range p.size).find? fun a => !p.inUse a

/-- A block that the heap can answer with: it is not in use. -/
def heapBlock (p : Pool α) (answer : Option Nat) : Option Nat :=
  answer.filter fun a => decide (p.size ≤ a) && !p.inUse a

/-- A cleared object, of the array or else what the heap answers with. -/
def alloc (p : Pool α) (answer : Option Nat) : Option (Pool α × Nat) :=
  (p.firstFree.or (p.heapBlock answer)).map fun a =>
    (p.set a (PoolObject.setInUse true PoolObject.zero), a)

/-- The object that a pointer points to, unless it points to a block that has been given back. -/
def read (p : Pool α) (a : Nat) : Option α :=
  if a < p.size ∨ p.inUse a = true then some (p.object a) else none

/-- Give an object back. -/
def free (p : Pool α) (a : Nat) : Option (Pool α) :=
  (p.read a).map fun x =>
    { p.set a (PoolObject.setInUse false x) with
      frees := Function.update p.frees a (p.frees a + 1) }

variable {p p' : Pool α} {a b : Nat} {x : α} {answer : Option Nat}

/-- Pools that agree on all objects but one. -/
def AgreeOff (p p' : Pool α) (a : Nat) : Prop :=
  ∀ b ≠ a, p'.object b = p.object b ∧ p'.frees b = p.frees b

omit [PoolObject α] in
theorem AgreeOff.set (h : p.AgreeOff p' a) (x : α) : p.AgreeOff (p'.set a x) a := by
  intro b hb
  rw [set_object, Function.update_of_ne hb]
  exact h b hb

theorem AgreeOff.inUse (h : p.AgreeOff p' a) (hb : b ≠ a) : p'.inUse b = p.inUse b :=
  congrArg PoolObject.inUse (h b hb).1

/-- They agree on all marks if they agree on the mark of that one. -/
theorem AgreeOff.marks (h : p.AgreeOff p' a) (ha : p'.inUse a = p.inUse a) (b : Nat) :
    p'.inUse b = p.inUse b := by
  by_cases hb : b = a
  · rw [hb, ha]
  · exact h.inUse hb

/-- A new object was not in use; nothing else changes. -/
theorem alloc_spec (h : p.alloc answer = some (p', a)) :
    p.inUse a = false ∧ p' = p.set a (PoolObject.setInUse true PoolObject.zero) := by
  obtain ⟨b, hb, heq⟩ := Option.map_eq_some_iff.mp h
  obtain ⟨rfl, rfl⟩ := Prod.mk.inj heq
  refine ⟨?_, rfl⟩
  rcases Option.or_eq_some_iff.mp hb with hfirst | ⟨-, hheap⟩
  · simpa using List.find?_some hfirst
  · simpa using (Bool.and_eq_true_iff.mp (Option.filter_eq_some_iff.mp hheap).2).2

/-- What is read is the object at the address. -/
theorem read_eq (h : p.read a = some x) : x = p.object a := by
  unfold read at h
  split at h
  · exact (Option.some.inj h).symm
  · cases h

/-- An object in use can be read. -/
theorem read_inUse (h : p.inUse a = true) : p.read a = some (p.object a) := by
  unfold read
  rw [if_pos (.inr h)]

/-- An object that is given back is not in use, and keeps its contents otherwise. -/
theorem free_spec (h : p.free a = some p') :
    p'.object = Function.update p.object a (PoolObject.setInUse false (p.object a)) ∧
      p'.frees = Function.update p.frees a (p.frees a + 1) := by
  obtain ⟨x, hx, rfl⟩ := Option.map_eq_some_iff.mp h
  rw [read_eq hx]
  exact ⟨rfl, rfl⟩

/-- It is not in use afterwards. -/
theorem free_inUse (h : p.free a = some p') : p'.inUse a = false := by
  unfold inUse
  rw [(free_spec h).1, Function.update_self, PoolObject.inUse_setInUse]

theorem free_agreeOff (h : p.free a = some p') : p.AgreeOff p' a := by
  obtain ⟨hobject, hfrees⟩ := free_spec h
  intro b hb
  rw [hobject, hfrees, Function.update_of_ne hb, Function.update_of_ne hb]
  exact ⟨rfl, rfl⟩

theorem alloc_agreeOff (h : p.alloc answer = some (p', a)) : p.AgreeOff p' a := by
  obtain ⟨-, rfl⟩ := alloc_spec h
  exact AgreeOff.set (fun _ _ => ⟨rfl, rfl⟩) _

/-- An object in use can be given back. -/
theorem free_isSome (h : p.inUse a = true) : ∃ p', p.free a = some p' := by
  unfold free
  rw [read_inUse h]
  exact ⟨_, rfl⟩

/-- A new object is in use, and so is what was. -/
theorem alloc_inUse (h : p.alloc answer = some (p', a)) (hb : p.inUse b = true ∨ b = a) :
    p'.inUse b = true := by
  obtain ⟨hfree, rfl⟩ := alloc_spec h
  unfold inUse
  by_cases hab : b = a
  · rw [hab, set_object, Function.update_self, PoolObject.inUse_setInUse]
  · rw [set_object, Function.update_of_ne hab]
    exact hb.resolve_right hab

end Pool

end Wbox.Lib
