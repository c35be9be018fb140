import Wbox.Thread.State

/-!
# The dispatcher, abstractly

What the scheduler is for, without links, contexts or wait blocks: the threads it knows,
the queue of those that can run, the one that runs, and the state each thread says it is in.
The scheduler of `src/thread/scheduler.c` is related to it in `Wbox.Thread.Refinement`.
-/

namespace Wbox.Thread

open Wbox.Nt

/-- The dispatcher's view of a scheduler. Thread structures live below `limit`. -/
structure Dispatcher where
  all : List Ptr
  ready : List Ptr
  current : Option Ptr
  idle : Ptr
  state : Ptr → ThreadState
  limit : Nat

namespace Dispatcher

/-- A thread changes its state word. -/
def setState (d : Dispatcher) (t : Ptr) (st : ThreadState) : Dispatcher :=
  { d with state := Function.update d.state t st }

/-- A thread goes to the end of the ready queue. -/
def enqueue (d : Dispatcher) (t : Ptr) : Dispatcher := { d with ready := d.ready ++ [t] }

/-- A thread leaves the ready queue. -/
def dequeue (d : Dispatcher) (t : Ptr) : Dispatcher := { d with ready := d.ready.erase t }

/-- The first ready thread runs, or the idle thread if there is none. -/
def dispatch (d : Dispatcher) : Dispatcher :=
  match d.ready with
  | [] => { d with current := some d.idle }
  | t :: rest =>
      { d with ready := rest, current := some t, state := Function.update d.state t .running }

/-- A thread becomes known. -/
def add (d : Dispatcher) (t : Ptr) : Dispatcher := { d with all := t :: d.all }

/-- A thread is forgotten. -/
def forget (d : Dispatcher) (t : Ptr) : Dispatcher := { d with all := d.all.erase t }

/-- Another thread becomes current. -/
def setCurrent (d : Dispatcher) (current : Option Ptr) : Dispatcher := { d with current := current }

/-- The next `n` addresses are handed out. -/
def allocate (d : Dispatcher) (n : Nat) : Dispatcher := { d with limit := d.limit + n }

/-- Every thread is where its state says: RUNNING is being current, READY is being queued
once, WAITING and INITIALIZED are neither; the queue repeats no thread and holds neither
the idle thread nor a terminated one. -/
structure InPlace (d : Dispatcher) : Prop where
  running : ∀ t ∈ d.all, d.state t = .running ↔ d.current = some t
  ready : ∀ t ∈ d.all, d.state t = .ready ↔ d.ready.count t = 1
  parked : ∀ t ∈ d.all, (d.state t = .waiting ∨ d.state t = .initialized) ↔
    (d.current ≠ some t ∧ t ∉ d.ready)
  nodup : d.ready.Nodup
  idle : d.idle ∉ d.ready
  live : ∀ t ∈ d.ready, d.state t ≠ .terminated

/-- The part of the invariant that concerns the queue and the addresses in use. -/
structure QueueOk (d : Dispatcher) : Prop where
  nodup : d.ready.Nodup
  queued : ∀ t ∈ d.ready, d.state t = .ready
  idle : d.idle ∉ d.ready
  idleAll : d.idle ∉ d.all
  idleLimit : d.idle < d.limit
  allNodup : d.all.Nodup
  allLimit : ∀ t ∈ d.all, t < d.limit
  readyLimit : ∀ t ∈ d.ready, t < d.limit
  currentLimit : ∀ t, d.current = some t → t < d.limit
  fresh : ∀ t, d.limit ≤ t → d.state t = .initialized

/-- The part of the invariant that concerns the known threads: a READY one is queued. -/
structure Accounted (d : Dispatcher) : Prop where
  live : ∀ t ∈ d.all, d.state t ≠ .terminated
  queued : ∀ t ∈ d.all, d.state t = .ready → t ∈ d.ready

/-- No known thread is RUNNING. -/
def NoneRunning (d : Dispatcher) : Prop := ∀ t ∈ d.all, d.state t ≠ .running

/-- The current thread is the idle thread or RUNNING. -/
def HasCurrent (d : Dispatcher) : Prop :=
  d.current = some d.idle ∨ ∃ t, d.current = some t ∧ d.state t = .running

/-- The inductive invariant behind `InPlace`. -/
structure Settled (d : Dispatcher) : Prop where
  queue : d.QueueOk
  accounted : d.Accounted
  running : ∀ t ∈ d.all, d.state t = .running → d.current = some t
  current : d.HasCurrent

variable {d : Dispatcher} {t : Ptr} {st : ThreadState}

theorem dispatch_nil (h : d.ready = []) : d.dispatch = d.setCurrent (some d.idle) := by
  simp [Dispatcher.dispatch, Dispatcher.setCurrent, h]

theorem dispatch_cons {rest : List Ptr} (h : d.ready = t :: rest) : d.dispatch =
    { d with ready := rest, current := some t, state := Function.update d.state t .running } := by
  simp [Dispatcher.dispatch, h]

@[simp] theorem setState_idle (d : Dispatcher) (t : Ptr) (st : ThreadState) :
    (d.setState t st).idle = d.idle := rfl

@[simp] theorem setState_limit (d : Dispatcher) (t : Ptr) (st : ThreadState) :
    (d.setState t st).limit = d.limit := rfl

@[simp] theorem setState_all (d : Dispatcher) (t : Ptr) (st : ThreadState) :
    (d.setState t st).all = d.all := rfl

@[simp] theorem setState_self (d : Dispatcher) (t : Ptr) (st : ThreadState) :
    (d.setState t st).state t = st := by
  simp [setState]

@[simp] theorem setState_of_ne (d : Dispatcher) {t u : Ptr} (st : ThreadState) (h : u ≠ t) :
    (d.setState t st).state u = d.state u := by
  simp [setState, h]

@[simp] theorem dispatch_all (d : Dispatcher) : d.dispatch.all = d.all := by
  unfold dispatch
  split
  · rfl
  · rfl

@[simp] theorem dispatch_idle (d : Dispatcher) : d.dispatch.idle = d.idle := by
  unfold dispatch
  split
  · rfl
  · rfl

@[simp] theorem dispatch_limit (d : Dispatcher) : d.dispatch.limit = d.limit := by
  unfold dispatch
  split
  · rfl
  · rfl

/-- The invariant puts every thread in its place. -/
theorem Settled.inPlace (h : d.Settled) : d.InPlace := by
  obtain ⟨hq, ha, hr, hc⟩ := h
  have hrun : ∀ t ∈ d.all, d.state t = .running ↔ d.current = some t := by
    intro t ht
    constructor
    · exact hr t ht
    · intro hcur
      rcases hc with hi | ⟨u, hu, hr⟩
      · have hti : t = d.idle := Option.some.inj (hcur.symm.trans hi)
        exact absurd ht (hti ▸ hq.idleAll)
      · have htu : t = u := Option.some.inj (hcur.symm.trans hu)
        exact htu ▸ hr
  have hready : ∀ t ∈ d.all, d.state t = .ready ↔ t ∈ d.ready := fun t ht =>
    ⟨ha.queued t ht, hq.queued t⟩
  refine ⟨hrun, ?_, ?_, hq.nodup, hq.idle, ?_⟩
  · intro t ht
    rw [hready t ht]
    constructor
    · exact List.count_eq_one_of_mem hq.nodup
    · intro h1
      exact List.count_pos_iff.mp (by omega)
  · intro t ht
    rw [ne_eq, ← hrun t ht, ← hready t ht]
    have hlive := ha.live t ht
    cases hs : d.state t <;> simp_all
  · intro t ht
    simp [hq.queued t ht]

theorem QueueOk.setState (h : d.QueueOk) (ht : t ∉ d.ready) (hl : t < d.limit) :
    (d.setState t st).QueueOk where
  nodup := h.nodup
  queued := by
    intro u hu
    have hut : u ≠ t := by
      rintro rfl
      exact ht hu
    simpa [Dispatcher.setState, hut] using h.queued u hu
  idle := h.idle
  idleAll := h.idleAll
  idleLimit := h.idleLimit
  allNodup := h.allNodup
  allLimit := h.allLimit
  readyLimit := h.readyLimit
  currentLimit := h.currentLimit
  fresh := by
    intro u hu
    have hut : u ≠ t := by
      rintro rfl
      exact absurd hl (Nat.not_lt.mpr hu)
    simpa [Dispatcher.setState, hut] using h.fresh u hu

theorem QueueOk.enqueue (h : d.QueueOk) (ht : t ∉ d.ready) (hs : d.state t = .ready)
    (hi : t ≠ d.idle) (hl : t < d.limit) : (d.enqueue t).QueueOk where
  nodup := by
    rw [Dispatcher.enqueue, List.nodup_append]
    refine ⟨h.nodup, by simp, ?_⟩
    rintro u hu v hv rfl
    rw [List.mem_singleton] at hv
    exact ht (hv ▸ hu)
  queued := by
    intro u hu
    rcases List.mem_append.mp hu with hu | hu
    · exact h.queued u hu
    · rw [List.mem_singleton.mp hu]
      exact hs
  idle := by
    simpa [Dispatcher.enqueue] using ⟨h.idle, Ne.symm hi⟩
  idleAll := h.idleAll
  idleLimit := h.idleLimit
  allNodup := h.allNodup
  allLimit := h.allLimit
  readyLimit := by
    intro u hu
    rcases List.mem_append.mp hu with hu | hu
    · exact h.readyLimit u hu
    · rw [List.mem_singleton.mp hu]
      exact hl
  currentLimit := h.currentLimit
  fresh := h.fresh

theorem QueueOk.dequeue (h : d.QueueOk) (t : Ptr) : (d.dequeue t).QueueOk where
  nodup := h.nodup.erase t
  queued := fun u hu => h.queued u (List.mem_of_mem_erase hu)
  idle := fun hi => h.idle (List.mem_of_mem_erase hi)
  idleAll := h.idleAll
  idleLimit := h.idleLimit
  allNodup := h.allNodup
  allLimit := h.allLimit
  readyLimit := fun u hu => h.readyLimit u (List.mem_of_mem_erase hu)
  currentLimit := h.currentLimit
  fresh := h.fresh

theorem QueueOk.setCurrent (h : d.QueueOk) {cur : Option Ptr}
    (hc : ∀ t, cur = some t → t < d.limit) : (d.setCurrent cur).QueueOk :=
  { h with currentLimit := hc }

theorem QueueOk.forget (h : d.QueueOk) (t : Ptr) : (d.forget t).QueueOk :=
  { h with
    idleAll := fun hi => h.idleAll (List.mem_of_mem_erase hi)
    allNodup := h.allNodup.erase t
    allLimit := fun u hu => h.allLimit u (List.mem_of_mem_erase hu) }

theorem QueueOk.add (h : d.QueueOk) (ht : t ∉ d.all) (hi : t ≠ d.idle) (hl : t < d.limit) :
    (d.add t).QueueOk :=
  { h with
    idleAll := by simpa [Dispatcher.add] using ⟨Ne.symm hi, h.idleAll⟩
    allNodup := List.nodup_cons.mpr ⟨ht, h.allNodup⟩
    allLimit := by
      intro u hu
      rcases List.mem_cons.mp hu with rfl | hu
      · exact hl
      · exact h.allLimit u hu }

theorem QueueOk.allocate (h : d.QueueOk) (n : Nat) : (d.allocate n).QueueOk :=
  { h with
    idleLimit := Nat.lt_add_right n h.idleLimit
    allLimit := fun u hu => Nat.lt_add_right n (h.allLimit u hu)
    readyLimit := fun u hu => Nat.lt_add_right n (h.readyLimit u hu)
    currentLimit := fun u hu => Nat.lt_add_right n (h.currentLimit u hu)
    fresh := fun u hu => h.fresh u (Nat.le_trans (Nat.le_add_right d.limit n) hu) }

theorem QueueOk.dispatch (h : d.QueueOk) : d.dispatch.QueueOk := by
  cases hr : d.ready with
  | nil =>
    rw [dispatch_nil hr]
    refine h.setCurrent ?_
    intro u hu
    exact (Option.some.inj hu) ▸ h.idleLimit
  | cons t rest =>
    rw [dispatch_cons hr]
    have hn : t ∉ rest ∧ rest.Nodup := List.nodup_cons.mp (hr ▸ h.nodup)
    have hsub : ∀ u ∈ rest, u ∈ d.ready := fun u hu => hr ▸ List.mem_cons_of_mem t hu
    have hl : t < d.limit := h.readyLimit t (by simp [hr])
    refine { h with nodup := hn.2, queued := ?_, idle := ?_, readyLimit := ?_,
                    currentLimit := ?_, fresh := ?_ }
    · intro u hu
      have hut : u ≠ t := by
        rintro rfl
        exact hn.1 hu
      simpa [hut] using h.queued u (hsub u hu)
    · exact fun hi => h.idle (hsub _ hi)
    · exact fun u hu => h.readyLimit u (hsub u hu)
    · intro u hu
      exact (Option.some.inj hu) ▸ hl
    · intro u hu
      have hut : u ≠ t := by
        rintro rfl
        exact absurd hl (Nat.not_lt.mpr hu)
      simpa [hut] using h.fresh u hu

/-- Dispatching always leaves a current thread that runs. -/
theorem hasCurrent_dispatch (d : Dispatcher) : d.dispatch.HasCurrent := by
  cases hr : d.ready with
  | nil =>
    rw [dispatch_nil hr]
    exact Or.inl rfl
  | cons t rest =>
    rw [dispatch_cons hr]
    exact Or.inr ⟨t, rfl, by simp⟩

/-- Dispatching changes the state of no thread but the one that runs next. -/
theorem dispatch_state (d : Dispatcher) (t : Ptr) :
    d.dispatch.state t = d.state t ∨ (t ∈ d.ready ∧ d.dispatch.state t = .running) := by
  cases hr : d.ready with
  | nil =>
    rw [dispatch_nil hr]
    exact Or.inl rfl
  | cons u rest =>
    rw [dispatch_cons hr]
    by_cases hu : t = u
    · subst hu
      exact Or.inr ⟨by simp, by simp⟩
    · exact Or.inl (by simp [hu])

theorem Accounted.dispatch (ha : d.Accounted) : d.dispatch.Accounted := by
  cases hr : d.ready with
  | nil =>
    rw [dispatch_nil hr]
    exact ⟨ha.live, ha.queued⟩
  | cons t rest =>
    rw [dispatch_cons hr]
    constructor
    · intro u hu
      by_cases hut : u = t
      · simp [hut]
      · simpa [hut] using ha.live u hu
    · intro u hu hs
      by_cases hut : u = t
      · simp [hut] at hs
      · have hm := ha.queued u hu (by simpa [hut] using hs)
        rw [hr] at hm
        exact (List.mem_cons.mp hm).resolve_left hut

/-- Dispatching settles a state in which only the current place was open. -/
theorem Settled.of_dispatch (hq : d.QueueOk) (ha : d.Accounted) (hn : d.NoneRunning) :
    d.dispatch.Settled := by
  refine ⟨hq.dispatch, ha.dispatch, ?_, d.hasCurrent_dispatch⟩
  cases hr : d.ready with
  | nil =>
    rw [dispatch_nil hr]
    exact fun u hu hs => absurd hs (hn u hu)
  | cons t rest =>
    rw [dispatch_cons hr]
    intro u hu hs
    by_cases hut : u = t
    · simp [hut]
    · exact absurd (by simpa [hut] using hs) (hn u hu)

/-- A waiting thread becomes READY and is queued. -/
def wake (d : Dispatcher) (t : Ptr) : Dispatcher := (d.setState t .ready).enqueue t

/-- A thread in another state than READY is not queued. -/
theorem QueueOk.not_mem (h : d.QueueOk) (hs : d.state t ≠ .ready) : t ∉ d.ready :=
  fun hm => hs (h.queued t hm)

theorem QueueOk.wake (h : d.QueueOk) (ht : t ∉ d.ready) (hi : t ≠ d.idle) (hl : t < d.limit) :
    (d.wake t).QueueOk :=
  (h.setState ht hl).enqueue ht (by simp [Dispatcher.setState]) hi hl

theorem Accounted.wake (h : d.Accounted) : (d.wake t).Accounted := by
  constructor
  · intro u hu
    by_cases hut : u = t
    · simp [Dispatcher.wake, Dispatcher.enqueue, Dispatcher.setState, hut]
    · simpa [Dispatcher.wake, Dispatcher.enqueue, Dispatcher.setState, hut] using h.live u hu
  · intro u hu hs
    by_cases hut : u = t
    · simp [Dispatcher.wake, Dispatcher.enqueue, hut]
    · refine List.mem_append_left _ (h.queued u hu ?_)
      simpa [Dispatcher.wake, Dispatcher.enqueue, Dispatcher.setState, hut] using hs

/-- Marking a thread READY where it is. -/
theorem QueueOk.setReady (h : d.QueueOk) (hl : t < d.limit) : (d.setState t .ready).QueueOk := by
  by_cases ht : t ∈ d.ready
  · have hs : Function.update d.state t .ready = d.state := by
      rw [← h.queued t ht, Function.update_eq_self]
    simpa only [Dispatcher.setState, hs] using h
  · exact h.setState ht hl

/-- A thread leaves the system with the state word `st`. -/
def remove (d : Dispatcher) (t : Ptr) (st : ThreadState) : Dispatcher :=
  ((d.setState t st).forget t).dequeue t

theorem QueueOk.remove (h : d.QueueOk) (hl : t < d.limit) : (d.remove t st).QueueOk := by
  have hq : ((d.forget t).dequeue t).QueueOk := (h.forget t).dequeue t
  exact hq.setState (fun hm => (h.nodup.mem_erase_iff.mp hm).1 rfl) hl

/-- The threads that stay are the other ones, with the state they had. -/
theorem QueueOk.mem_remove (h : d.QueueOk) {u : Ptr} (hu : u ∈ (d.remove t st).all) :
    u ≠ t ∧ u ∈ d.all ∧ (d.remove t st).state u = d.state u := by
  obtain ⟨hut, hm⟩ := h.allNodup.mem_erase_iff.mp hu
  exact ⟨hut, hm, by
    simp [Dispatcher.remove, Dispatcher.dequeue, Dispatcher.forget, Dispatcher.setState, hut]⟩

theorem QueueOk.accounted_remove (h : d.QueueOk) (ha : d.Accounted) :
    (d.remove t st).Accounted := by
  constructor
  · intro u hu
    obtain ⟨-, hm, hs⟩ := h.mem_remove hu
    rw [hs]
    exact ha.live u hm
  · intro u hu hr
    obtain ⟨hut, hm, hs⟩ := h.mem_remove hu
    rw [hs] at hr
    exact h.nodup.mem_erase_iff.mpr ⟨hut, ha.queued u hm hr⟩

/-- The end of a blocking call: the caller is current and RUNNING again. -/
def resume (d : Dispatcher) (t : Ptr) : Dispatcher :=
  ((d.setCurrent (some t)).dequeue t).setState t .running

theorem QueueOk.resume (h : d.QueueOk) (hl : t < d.limit) : (d.resume t).QueueOk := by
  have hc : ∀ u, some t = some u → u < d.limit := fun u hu => Option.some.inj hu ▸ hl
  have hd := (h.setCurrent hc).dequeue t
  exact hd.setState (fun hm => (h.nodup.mem_erase_iff.mp hm).1 rfl) hl

/-- Handing the CPU back to the caller of a blocking call settles an idle dispatcher. -/
theorem Settled.of_resume (hq : d.QueueOk) (ha : d.Accounted) (hn : d.NoneRunning)
    (hl : t < d.limit) : (d.resume t).Settled := by
  refine ⟨hq.resume hl, ⟨?_, ?_⟩, ?_, Or.inr ⟨t, rfl, by simp [resume, Dispatcher.setState]⟩⟩
  · intro u hu
    by_cases hut : u = t
    · simp [resume, Dispatcher.setState, hut]
    · simpa [resume, Dispatcher.setState, Dispatcher.dequeue, Dispatcher.setCurrent, hut]
        using ha.live u hu
  · intro u hu hs
    by_cases hut : u = t
    · simp [resume, Dispatcher.setState, hut] at hs
    · have hm := ha.queued u hu (by
        simpa [resume, Dispatcher.setState, Dispatcher.dequeue, Dispatcher.setCurrent, hut]
          using hs)
      exact hq.nodup.mem_erase_iff.mpr ⟨hut, hm⟩
  · intro u hu hs
    by_cases hut : u = t
    · rw [hut]
      rfl
    · exact absurd (by simpa [resume, Dispatcher.setState, Dispatcher.dequeue,
        Dispatcher.setCurrent, hut] using hs) (hn u hu)

/-- A state word that was overwritten before does not matter to `resume`. -/
theorem resume_setState (d : Dispatcher) (t : Ptr) (st : ThreadState) :
    (d.setState t st).resume t = d.resume t := by
  simp [resume, Dispatcher.setState, Dispatcher.dequeue, Dispatcher.setCurrent]

end Dispatcher
end Wbox.Thread
