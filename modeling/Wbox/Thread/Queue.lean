import Wbox.Thread.Scheduler

/-!
# The ready queue

The intrusive list through `ready_next` with its head and tail. Queue operations change
nothing but these links (`withReady`), and each is the list operation it is meant to be.
-/

namespace Wbox.Thread

open Wbox.Nt Wbox.Lib

namespace WboxScheduler

variable (s : WboxScheduler)

@[simp] theorem modifyThread_self (t : Ptr) (f : WboxThread → WboxThread) :
    (s.modifyThread t f).threads t = f (s.threads t) := by
  simp [modifyThread]

@[simp] theorem modifyThread_of_ne {t u : Ptr} (f : WboxThread → WboxThread) (h : u ≠ t) :
    (s.modifyThread t f).threads u = s.threads u := by
  simp [modifyThread, h]

theorem modifyThread_threads (t u : Ptr) (f : WboxThread → WboxThread) :
    (s.modifyThread t f).threads u = if u = t then f (s.threads u) else s.threads u := by
  by_cases h : u = t
  · subst h
    simp
  · simp [h]

/-- Two updates of one thread are one update. -/
theorem modifyThread_modifyThread (t : Ptr) (f g : WboxThread → WboxThread) :
    (s.modifyThread t f).modifyThread t g = s.modifyThread t fun th => g (f th) := by
  simp only [modifyThread, Function.update_self, Function.update_idem]

/-- Replace the links of the ready queue, its head and its tail. -/
def withReady (links : Ptr → Option Ptr) (head tail : Option Ptr) : WboxScheduler :=
  { s with
    threads := fun t => { s.threads t with readyNext := links t }
    readyHead := head
    readyTail := tail }

@[simp] theorem withReady_self : s.withReady s.readyLink s.readyHead s.readyTail = s := rfl

/-- Storing a link of the queue, as an update of the links. -/
theorem setReadyNext_eq (t : Ptr) (v : Option Ptr) :
    s.setReadyNext t v =
      s.withReady (Function.update s.readyLink t v) s.readyHead s.readyTail := by
  have ht : (s.setReadyNext t v).threads =
      fun u => { s.threads u with readyNext := Function.update s.readyLink t v u } := by
    funext u
    by_cases hu : u = t
    · subst hu
      simp [setReadyNext]
    · simp [setReadyNext, hu, readyLink]
  simp only [withReady, ← ht]
  rfl

/-- Storing a pointer in a slot of the queue, as an update of links and head. -/
theorem storeReady_eq (slot : Slot Ptr) (v : Option Ptr) :
    storeReady s slot v =
      s.withReady (slot.setNext v s.readyLink) (slot.setHead v s.readyHead) s.readyTail := by
  cases slot with
  | head => rfl
  | after prev => exact setReadyNext_eq s prev v

end WboxScheduler

variable {s s' : WboxScheduler} {q : List Ptr} {t : Ptr}

/-- The ready queue is the list `q`, and `ready_tail` is its last node. -/
structure ReadyQueue (s : WboxScheduler) (q : List Ptr) : Prop where
  chain : Chain s.readyLink s.readyHead q
  tail : s.readyTail = q.getLast?

/-- The queue has no duplicates. -/
theorem ReadyQueue.nodup (hq : ReadyQueue s q) : q.Nodup := hq.chain.nodup

/-- The head pointer is null exactly for the empty queue. -/
theorem ReadyQueue.head_none (hq : ReadyQueue s q) : s.readyHead = none ↔ q = [] := by
  rw [hq.chain.head_eq, List.head?_eq_none_iff]

/-- Appending behind the tail changes the queue only. -/
theorem appendReady_eq (s : WboxScheduler) (t : Ptr) :
    appendReady s t =
      match s.readyTail with
      | some tail => s.withReady (Function.update s.readyLink tail (some t)) s.readyHead (some t)
      | none => s.withReady s.readyLink (some t) (some t) := by
  unfold appendReady
  cases s.readyTail with
  | none => rfl
  | some tail => simp only [WboxScheduler.setReadyNext_eq, WboxScheduler.withReady]

/-- `scheduler_add_ready` changes the queue and the idle marks only. -/
theorem schedulerAddReady_eq (s : WboxScheduler) (t : Ptr) :
    ∃ links head tail, schedulerAddReady s t = clearIdle (s.withReady links head tail) := by
  unfold schedulerAddReady
  rw [WboxScheduler.setReadyNext_eq, appendReady_eq]
  cases ht : s.readyTail with
  | none => exact ⟨Function.update s.readyLink t none, some t, some t, rfl⟩
  | some tail =>
    exact ⟨Function.update (Function.update s.readyLink t none) tail (some t), s.readyHead,
      some t, rfl⟩

/-- Adding a thread that is not queued puts it last. -/
theorem ReadyQueue.add (hq : ReadyQueue s q) (ht : t ∉ q) :
    ReadyQueue (schedulerAddReady s t) (q ++ [t]) := by
  obtain ⟨hc, hl⟩ := hq
  unfold schedulerAddReady
  rw [WboxScheduler.setReadyNext_eq, appendReady_eq]
  rcases List.eq_nil_or_concat q with rfl | ⟨as, last, rfl⟩
  · have hn : s.readyTail = none := hl
    simp only [WboxScheduler.withReady, hn]
    exact ⟨⟨rfl, by simp [clearIdle, WboxScheduler.readyLink]⟩, rfl⟩
  · have hs : s.readyTail = some last := by simpa using hl
    rw [List.concat_eq_append] at hc ht ⊢
    have hch := hc.concat ht
    simp only [WboxScheduler.withReady, hs]
    exact ⟨hch, by simp [clearIdle]⟩

/-- `scheduler_remove_ready` changes the queue only. -/
theorem schedulerRemoveReady_eq (h : schedulerRemoveReady s t = some s') :
    ∃ links head tail, s' = s.withReady links head tail := by
  unfold schedulerRemoveReady at h
  cases hf : findSlot s.readyLink t s.threadSteps .head s.readyHead with
  | none => simp [hf] at h
  | some found =>
    cases found with
    | none =>
      have he : s = s' := by simpa [hf] using h
      exact ⟨_, _, _, by rw [← he, s.withReady_self]⟩
    | some slot =>
      simp only [hf, WboxScheduler.storeReady_eq, WboxScheduler.setReadyNext_eq,
        Option.pure_def, Option.bind_eq_bind, Option.bind_some, Option.some.injEq] at h
      split at h
      · exact ⟨_, _, _, h.symm⟩
      · exact ⟨_, _, _, h.symm⟩

/-- Removing a thread returns, and deletes it from the queue. -/
theorem ReadyQueue.remove (hq : ReadyQueue s q) (hb : ∀ u ∈ q, u < s.heapNext) (t : Ptr) :
    ∃ s', schedulerRemoveReady s t = some s' ∧ ReadyQueue s' (q.erase t) := by
  obtain ⟨hc, hl⟩ := hq
  have hn : q.length ≤ s.threadSteps := Chain.length_le hc hb
  by_cases ht : t ∈ q
  · obtain ⟨slot, hf, hch, hnode⟩ := hc.findSlot_of_mem ht hn
    have hte : t ∉ q.erase t := fun hm => (List.Nodup.mem_erase_iff hc.nodup).mp hm |>.1 rfl
    have hchain : Chain (Function.update (slot.setNext (s.readyLink t) s.readyLink) t none)
        (slot.setHead (s.readyLink t) s.readyHead) (q.erase t) :=
      hch.congr fun u hu => Function.update_of_ne (by rintro rfl; exact hte hu) _ _
    by_cases htl : s.readyTail = some t
    · refine ⟨(s.withReady (Function.update (slot.setNext (s.readyLink t) s.readyLink) t none)
        (slot.setHead (s.readyLink t) s.readyHead) slot.node), ?_, hchain, ?_⟩
      · simp only [schedulerRemoveReady, hf, WboxScheduler.storeReady_eq,
          WboxScheduler.setReadyNext_eq, Option.pure_def, Option.bind_eq_bind, Option.bind_some,
          htl, WboxScheduler.withReady]
        rfl
      · show slot.node = _
        rw [hnode, hc.erase_last (hl ▸ htl)]
    · refine ⟨(s.withReady (Function.update (slot.setNext (s.readyLink t) s.readyLink) t none)
        (slot.setHead (s.readyLink t) s.readyHead) s.readyTail), ?_, hchain, ?_⟩
      · simp only [schedulerRemoveReady, hf, WboxScheduler.storeReady_eq,
          WboxScheduler.setReadyNext_eq, Option.pure_def, Option.bind_eq_bind, Option.bind_some,
          htl, WboxScheduler.withReady, if_false]
        rfl
      · show s.readyTail = _
        cases hlast : q.getLast? with
        | none =>
          rw [List.getLast?_eq_none_iff] at hlast
          simp [hlast] at ht
        | some y =>
          have hy : y ≠ t := by
            rintro rfl
            exact htl (hl.trans hlast)
          rw [Chain.getLast?_erase_ne hlast hy, hl, hlast]
  · refine ⟨s, ?_, ?_⟩
    · simp [schedulerRemoveReady, hc.findSlot_of_not_mem ht hn]
    · rw [List.erase_of_not_mem ht]
      exact ⟨hc, hl⟩

end Wbox.Thread
