import Wbox.Thread.Machine
import Wbox.Thread.Switch

/-!
# The operations of the ready queue

`scheduler_add_ready`, `scheduler_remove_ready` and the dequeue of `scheduler_switch` as the
list operations they are meant to be, on a queue whose threads are allocated.
-/

namespace Wbox.Thread

open Wbox.Nt Wbox.Lib

variable {s s' : WboxScheduler} {q : List Ptr} {t : Ptr}

/-- A well-formed ready queue: a chain of allocated threads from `ready_head` that ends at
`ready_tail`. It has no duplicates, since it ends. -/
structure WellFormedQueue (s : WboxScheduler) (q : List Ptr) : Prop
    extends ReadyQueue s q where
  allocated : ∀ u ∈ q, u < s.heapNext

/-- Appending leaves what is allocated as it is. -/
theorem schedulerAddReady_heapNext (s : WboxScheduler) (t : Ptr) :
    (schedulerAddReady s t).heapNext = s.heapNext := by
  obtain ⟨links, head, tail, h⟩ := schedulerAddReady_eq s t
  rw [h]
  rfl

/-- Appending a thread that is not queued. -/
theorem WellFormedQueue.add (hq : WellFormedQueue s q) (ht : t ∉ q) (hb : t < s.heapNext) :
    WellFormedQueue (schedulerAddReady s t) (q ++ [t]) := by
  refine ⟨hq.toReadyQueue.add ht, ?_⟩
  intro u hu
  rw [schedulerAddReady_heapNext]
  rcases List.mem_append.mp hu with hu | hu
  · exact hq.allocated u hu
  · rw [List.mem_singleton.mp hu]
    exact hb

/-- Removing returns with the thread deleted, and changes nothing but the queue. -/
theorem WellFormedQueue.remove (hq : WellFormedQueue s q) (t : Ptr) :
    ∃ s', schedulerRemoveReady s t = some s' ∧ WellFormedQueue s' (q.erase t) ∧
      s' = s.withReady s'.readyLink s'.readyHead s'.readyTail := by
  obtain ⟨s', hs, hr⟩ := hq.toReadyQueue.remove hq.allocated t
  obtain ⟨links, head, tail, rfl⟩ := schedulerRemoveReady_eq hs
  refine ⟨_, hs, ⟨hr, ?_⟩, rfl⟩
  intro u hu
  exact hq.allocated u (List.mem_of_mem_erase hu)

/-- Removing a thread that is not queued changes nothing. -/
theorem WellFormedQueue.remove_absent (hq : WellFormedQueue s q) (ht : t ∉ q) :
    schedulerRemoveReady s t = some s := by
  have hn : q.length ≤ s.threadSteps := Chain.length_le hq.chain hq.allocated
  simp [schedulerRemoveReady, hq.chain.findSlot_of_not_mem ht hn]

/-- A switch with threads queued runs the head and leaves the rest queued. -/
theorem WellFormedQueue.switch_cons {head : Ptr} {rest : List Ptr}
    (hq : WellFormedQueue s (head :: rest)) :
    WellFormedQueue (schedulerSwitch s) rest ∧
      (schedulerSwitch s).currentThread = some head := by
  rw [schedulerSwitch_some hq.chain.1]
  refine ⟨⟨hq.toReadyQueue.switchedTo, ?_⟩, rfl⟩
  intro u hu
  exact hq.allocated u (List.mem_cons_of_mem head hu)

/-- A switch with no thread queued leaves the queue empty. -/
theorem WellFormedQueue.switch_nil (hq : WellFormedQueue s []) :
    WellFormedQueue (schedulerSwitch s) [] := by
  rw [schedulerSwitch_none (hq.head_none.mpr rfl)]
  exact ⟨⟨hq.chain, hq.tail⟩, hq.allocated⟩

/-- Every operation of the ready queue is its list operation, and keeps the queue well formed:
a thread that is not queued is put last, a thread is deleted wherever it is queued, one that
is not queued is left alone, and a switch takes the head. -/
theorem readyQueue_operations (hq : WellFormedQueue s q) :
    q.Nodup ∧
      (∀ t < s.heapNext, t ∉ q → WellFormedQueue (schedulerAddReady s t) (q ++ [t])) ∧
      (∀ t ∈ q, ∃ s', schedulerRemoveReady s t = some s' ∧ WellFormedQueue s' (q.erase t) ∧
        s' = s.withReady s'.readyLink s'.readyHead s'.readyTail) ∧
      (∀ t ∉ q, schedulerRemoveReady s t = some s) ∧
      (∀ head rest, q = head :: rest → WellFormedQueue (schedulerSwitch s) rest ∧
        (schedulerSwitch s).currentThread = some head) ∧
      (q = [] → WellFormedQueue (schedulerSwitch s) []) := by
  refine ⟨hq.nodup, ?_, ?_, ?_, ?_, ?_⟩
  · intro t hb ht
    exact hq.add ht hb
  · intro t _
    exact hq.remove t
  · intro t ht
    exact hq.remove_absent ht
  · rintro head rest rfl
    exact hq.switch_cons
  · rintro rfl
    exact hq.switch_nil

/-- Threads 1 and 2 made ready one after the other. -/
def twoReady : WboxScheduler :=
  schedulerAddReady (schedulerAddReady
    { schedulerInit default (fun _ => 0) with heapNext := 3 } 1) 2

/-- They are queued in that order. -/
theorem wellFormedQueue_twoReady : WellFormedQueue twoReady [1, 2] :=
  ⟨⟨⟨rfl, rfl, rfl⟩, rfl⟩, by decide⟩

theorem readyQueue_operations_twoReady :
    schedulerRemoveReady twoReady 0 = some twoReady ∧
      WellFormedQueue (schedulerSwitch twoReady) [2] :=
  have h := readyQueue_operations wellFormedQueue_twoReady
  ⟨h.2.2.2.1 0 (by decide), (h.2.2.2.2.1 1 [2] rfl).1⟩

end Wbox.Thread
