import Mathlib.Data.List.Basic

/-!
# Computations that log what they touch

A `Logged` computation works on a state and logs events. What it logs is taken apart along the
computation: the rules for `bind`, for loops, and for computations whose log does not depend on the
state (`Emits`).
-/

namespace Wbox.Lib

/-- A computation on a state, with the events it logs, in order. -/
def Logged (σ ε α : Type) := σ → α × σ × List ε

namespace Logged

variable {σ ε α β ι : Type}

/-- The result. -/
def value (x : Logged σ ε α) (s : σ) : α := (x s).1

/-- The state left behind. -/
def after (x : Logged σ ε α) (s : σ) : σ := (x s).2.1

/-- What has been logged. -/
def events (x : Logged σ ε α) (s : σ) : List ε := (x s).2.2

instance : Monad (Logged σ ε) where
  pure a := fun s => (a, s, [])
  bind x f := fun s =>
    ((f (x.value s)).value (x.after s), (f (x.value s)).after (x.after s),
      x.events s ++ (f (x.value s)).events (x.after s))

/-- An operation that logs fixed events. -/
def op (log : List ε) (f : σ → α × σ) : Logged σ ε α := fun s => ((f s).1, (f s).2, log)

variable {x : Logged σ ε α} {f : α → Logged σ ε β} {s : σ}

@[simp] theorem events_pure (a : α) (s : σ) : (pure a : Logged σ ε α).events s = [] := rfl

@[simp] theorem value_pure (a : α) (s : σ) : (pure a : Logged σ ε α).value s = a := rfl

@[simp] theorem after_pure (a : α) (s : σ) : (pure a : Logged σ ε α).after s = s := rfl

@[simp] theorem events_bind (x : Logged σ ε α) (f : α → Logged σ ε β) (s : σ) :
    (x >>= f).events s = x.events s ++ (f (x.value s)).events (x.after s) := rfl

@[simp] theorem value_bind (x : Logged σ ε α) (f : α → Logged σ ε β) (s : σ) :
    (x >>= f).value s = (f (x.value s)).value (x.after s) := rfl

@[simp] theorem after_bind (x : Logged σ ε α) (f : α → Logged σ ε β) (s : σ) :
    (x >>= f).after s = (f (x.value s)).after (x.after s) := rfl

@[simp] theorem events_op (log : List ε) (f : σ → α × σ) (s : σ) : (op log f).events s = log := rfl

@[simp] theorem value_op (log : List ε) (f : σ → α × σ) (s : σ) : (op log f).value s = (f s).1 :=
  rfl

@[simp] theorem after_op (log : List ε) (f : σ → α × σ) (s : σ) : (op log f).after s = (f s).2 :=
  rfl

/-- The log is the same in every state. -/
def Emits (x : Logged σ ε α) (log : List ε) : Prop := ∀ s, x.events s = log

theorem emits_pure (a : α) : (pure a : Logged σ ε α).Emits [] := fun _ => rfl

theorem emits_op (log : List ε) (f : σ → α × σ) : (op log f).Emits log := fun _ => rfl

/-- One computation after the other. -/
theorem Emits.bind {log log' : List ε} (h : x.Emits log) (h' : ∀ a, (f a).Emits log') :
    (x >>= f).Emits (log ++ log') := by
  intro s
  rw [events_bind, h, h']

/-- A loop logs what its rounds do. -/
theorem emits_forM {body : ι → Logged σ ε PUnit} {log : ι → List ε}
    (h : ∀ i, (body i).Emits (log i)) (is : List ι) : (is.forM body).Emits (is.flatMap log) := by
  induction is with
  | nil => exact emits_pure _
  | cons i is ih =>
    rw [List.flatMap_cons]
    show (body i >>= fun _ => is.forM body).Emits (log i ++ is.flatMap log)
    exact (h i).bind fun _ => ih

/-- So does a loop that collects the results of its rounds. -/
theorem emits_mapM {body : ι → Logged σ ε α} {log : ι → List ε} (h : ∀ i, (body i).Emits (log i))
    (is : List ι) : (is.mapM' body).Emits (is.flatMap log) := by
  induction is with
  | nil => exact emits_pure _
  | cons i is ih =>
    rw [List.mapM', List.flatMap_cons]
    apply (h i).bind
    intro a s
    rw [events_bind, ih, events_pure, List.append_nil]

/-- A loop over two lists is one loop after the other. -/
theorem forM_append {body : ι → Logged σ ε PUnit} (is js : List ι) :
    (is ++ js).forM body = is.forM body >>= fun _ => js.forM body := by
  induction is with
  | nil => rfl
  | cons i is ih =>
    show (body i >>= fun _ => (is ++ js).forM body) =
      ((body i >>= fun _ => is.forM body) >>= fun _ => js.forM body)
    rw [ih]
    funext s
    show (_, _, _ ++ (_ ++ _)) = (_, _, (_ ++ _) ++ _)
    rw [List.append_assoc]
    rfl

/-- A loop over two lists goes on where the first one ended. -/
theorem after_forM_append {body : ι → Logged σ ε PUnit} (is js : List ι) (s : σ) :
    ((is ++ js).forM body).after s = (js.forM body).after ((is.forM body).after s) := by
  rw [forM_append]
  rfl

/-- A counting loop goes through the states that its rounds lead to. -/
theorem after_forM_range {body : Nat → Logged σ ε PUnit} {states : Nat → σ} {n : Nat}
    (h : ∀ i < n, (body i).after (states i) = states (i + 1)) :
    ((List.range n).forM body).after (states 0) = states n := by
  induction n with
  | zero => rfl
  | succ n ih =>
    rw [List.range_succ, after_forM_append, ih fun i hi => h i (Nat.lt_succ_of_lt hi)]
    exact h n (Nat.lt_succ_self n)

/-- Every event of a computation has one property and its result another, whatever the state. -/
def Ensures (x : Logged σ ε α) (p : ε → Prop) (q : α → Prop) : Prop :=
  ∀ s, (∀ e ∈ x.events s, p e) ∧ q (x.value s)

variable {p : ε → Prop} {q : α → Prop} {r : β → Prop}

theorem ensures_pure {a : α} (h : q a) : (pure a : Logged σ ε α).Ensures p q :=
  fun _ => ⟨fun _ he => absurd he List.not_mem_nil, h⟩

theorem ensures_op {log : List ε} {f : σ → α × σ} (hlog : ∀ e ∈ log, p e)
    (hvalue : ∀ s, q (f s).1) : (op log f).Ensures p q := fun s => ⟨hlog, hvalue s⟩

/-- The second computation may rely on what the first one ensures. -/
theorem Ensures.bind (h : x.Ensures p q) (h' : ∀ a, q a → (f a).Ensures p r) :
    (x >>= f).Ensures p r := by
  intro s
  obtain ⟨hfirst, hvalue⟩ := h s
  obtain ⟨hsecond, hresult⟩ := h' (x.value s) hvalue (x.after s)
  refine ⟨?_, hresult⟩
  intro e he
  rw [events_bind] at he
  exact (List.mem_append.mp he).elim (hfirst e) (hsecond e)

/-- A loop ensures what each of its rounds does. -/
theorem ensures_forM {body : ι → Logged σ ε PUnit} {is : List ι}
    (h : ∀ i ∈ is, (body i).Ensures p fun _ => True) : (is.forM body).Ensures p fun _ => True := by
  induction is with
  | nil => exact ensures_pure trivial
  | cons i is ih =>
    show (body i >>= fun _ => is.forM body).Ensures p fun _ => True
    exact (h i List.mem_cons_self).bind fun _ _ => ih fun j hj => h j (List.mem_cons_of_mem i hj)

/-- An event is logged, whatever the state. -/
def Logs (x : Logged σ ε α) (e : ε) : Prop := ∀ s, e ∈ x.events s

variable {e : ε}

theorem Logs.bind_left (h : x.Logs e) (f : α → Logged σ ε β) : (x >>= f).Logs e := by
  intro s
  rw [events_bind]
  exact List.mem_append_left _ (h s)

theorem Logs.bind_right (h : ∀ a, (f a).Logs e) (x : Logged σ ε α) : (x >>= f).Logs e := by
  intro s
  rw [events_bind]
  exact List.mem_append_right _ (h (x.value s) (x.after s))

/-- A loop logs what one of its rounds does. -/
theorem logs_forM {body : ι → Logged σ ε PUnit} {is : List ι} {i : ι} (hi : i ∈ is)
    (h : (body i).Logs e) : (is.forM body).Logs e := by
  induction is with
  | nil => cases hi
  | cons j is ih =>
    show (body j >>= fun _ => is.forM body).Logs e
    rcases List.mem_cons.mp hi with rfl | hi
    · exact h.bind_left _
    · exact Logs.bind_right (fun _ => ih hi) _

/-- What a loop leaves behind is made round by round. -/
theorem after_forM {body : ι → Logged σ ε PUnit} {g : σ → ι → σ} {is : List ι}
    (h : ∀ i ∈ is, ∀ s, (body i).after s = g s i) (s : σ) :
    (is.forM body).after s = is.foldl g s := by
  induction is generalizing s with
  | nil => rfl
  | cons i is ih =>
    show (body i >>= fun _ => is.forM body).after s = (i :: is).foldl g s
    rw [after_bind, h i List.mem_cons_self, List.foldl_cons]
    exact ih (fun j hj => h j (List.mem_cons_of_mem i hj)) (g s i)

end Logged

end Wbox.Lib
