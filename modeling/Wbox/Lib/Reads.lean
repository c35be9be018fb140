import Mathlib.Data.List.Basic

/-!
# Computations that read a buffer

A `Reading` computes a result from the contents of a buffer and logs every read it makes.
Nothing bounds the reads; `InBounds` says that all of them end inside a given size, and the
rules below take it apart along the computation.
-/

namespace Wbox.Lib

/-- A read of `len` elements from `offset` on. -/
structure Access where
  offset : Nat
  len : Nat
  deriving DecidableEq, Repr

/-- The reads of a computation over a buffer, in order, and its result. -/
def Reading (β ε α : Type) := (Nat → β) → List Access × Except ε α

variable {β ε α γ : Type}

namespace Reading

instance : Monad (Reading β ε) where
  pure a := fun _ => ([], .ok a)
  bind x f := fun buf =>
    match x buf with
    | (reads, .ok a) => (reads ++ (f a buf).1, (f a buf).2)
    | (reads, .error e) => (reads, .error e)

private theorem id_map' (x : Reading β ε α) : id <$> x = x := by
  funext buf
  change (match x buf with
    | (reads, .ok a) => (reads ++ [], .ok a)
    | (reads, .error e) => (reads, .error e)) = x buf
  rcases x buf with ⟨reads, e | a⟩
  · rfl
  · simp only [List.append_nil]

private theorem bind_assoc' {δ : Type} (x : Reading β ε α) (f : α → Reading β ε γ)
    (g : γ → Reading β ε δ) : x >>= f >>= g = x >>= fun a => f a >>= g := by
  funext buf
  simp only [bind]
  rcases x buf with ⟨reads, e | a⟩
  · rfl
  · rcases hf : f a buf with ⟨reads', e | c⟩ <;> simp [hf]

instance : LawfulMonad (Reading β ε) :=
  LawfulMonad.mk' _ id_map' (fun _ _ => rfl) bind_assoc'

/-- Fail without a read. -/
def throw (e : ε) : Reading β ε α := fun _ => ([], .error e)

/-- Read `len` elements from `offset` on. -/
def read (offset len : Nat) : Reading β ε (List β) := fun buf =>
  ([⟨offset, len⟩], .ok ((List.range len).map fun i => buf (offset + i)))

/-- Every read ends inside the first `size` elements. -/
def InBounds (x : Reading β ε α) (buf : Nat → β) (size : Nat) : Prop :=
  ∀ a ∈ (x buf).1, a.offset + a.len ≤ size

/-- The computation succeeds on the buffer with the value. -/
def Yields (x : Reading β ε α) (buf : Nat → β) (a : α) : Prop := (x buf).2 = .ok a

variable {buf : Nat → β} {size : Nat} {x : Reading β ε α} {f : α → Reading β ε γ}

@[simp] theorem inBounds_pure (a : α) : (pure a : Reading β ε α).InBounds buf size := by
  intro access h
  cases h

@[simp] theorem inBounds_throw (e : ε) : (throw e : Reading β ε α).InBounds buf size := by
  intro access h
  cases h

@[simp] theorem inBounds_read (offset len : Nat) :
    (read offset len : Reading β ε (List β)).InBounds buf size ↔ offset + len ≤ size := by
  simp [InBounds, read]

theorem yields_pure (a : α) : (pure a : Reading β ε α).Yields buf a := rfl

theorem yields_read (offset len : Nat) :
    (read offset len : Reading β ε (List β)).Yields buf
      ((List.range len).map fun i => buf (offset + i)) := rfl

/-- After a value, a computation goes on with what follows. -/
theorem bind_apply {a : α} (h : x.Yields buf a) :
    (x >>= f) buf = ((x buf).1 ++ (f a buf).1, (f a buf).2) := by
  obtain ⟨reads, hx⟩ : ∃ reads, x buf = (reads, .ok a) := ⟨_, Prod.ext rfl h⟩
  simp only [bind, hx]

/-- The reads of a sequence are those of both parts. -/
theorem inBounds_bind {a : α} (h : x.Yields buf a) :
    (x >>= f).InBounds buf size ↔ x.InBounds buf size ∧ (f a).InBounds buf size := by
  unfold InBounds
  rw [bind_apply h]
  exact List.forall_mem_append

theorem yields_bind {a : α} {c : γ} (h : x.Yields buf a) (hf : (f a).Yields buf c) :
    (x >>= f).Yields buf c := by
  unfold Yields
  rw [bind_apply h]
  exact hf

/-- A check that fails stops the computation. -/
theorem inBounds_check {c : Prop} [Decidable c] {e : ε} :
    (if c then throw e else x).InBounds buf size ↔ (¬ c → x.InBounds buf size) := by
  by_cases hc : c <;> simp [hc]

variable {ι : Type} {g : ι → Reading β ε γ} {v : ι → γ}

theorem yields_mapM (h : ∀ i, (g i).Yields buf (v i)) (is : List ι) :
    (is.mapM g).Yields buf (is.map v) := by
  induction is with
  | nil => exact yields_pure _
  | cons i is ih =>
    rw [List.mapM_cons]
    exact yields_bind (h i) (yields_bind ih (yields_pure _))

/-- A loop reads what its iterations read. -/
theorem inBounds_mapM (h : ∀ i, (g i).Yields buf (v i)) (is : List ι) :
    (is.mapM g).InBounds buf size ↔ ∀ i ∈ is, (g i).InBounds buf size := by
  induction is with
  | nil => simp
  | cons i is ih =>
    rw [List.mapM_cons, inBounds_bind (h i), inBounds_bind (yields_mapM h is), ih]
    simp

end Reading

end Wbox.Lib
