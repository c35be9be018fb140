import Wbox.Thread.Dispatcher
import Wbox.Thread.Switch
import Wbox.Thread.WaitList

/-!
# The scheduler refines the dispatcher

`Represents` relates the linked structures of `src/thread/scheduler.c` to the dispatcher
they stand for. Each operation of the scheduler is the dispatcher's operation.
-/

namespace Wbox.Thread

open Wbox.Cpu Wbox.Nt Wbox.Lib

/-- The lists, the current thread and the state words of `s` are those of `d`. -/
structure Represents (s : WboxScheduler) (d : Dispatcher) : Prop where
  all : Chain s.threadLink s.allThreads d.all
  ready : ReadyQueue s d.ready
  current : s.currentThread = d.current
  idle : s.idleThread = d.idle
  state : ∀ t, (s.threads t).state = d.state t
  limit : s.heapNext = d.limit

/-- `s'` has the lists, the current thread and the state words of `s`. -/
structure SameOutline (s s' : WboxScheduler) : Prop where
  state : ∀ t, (s'.threads t).state = (s.threads t).state
  next : ∀ t, (s'.threads t).next = (s.threads t).next
  readyNext : ∀ t, (s'.threads t).readyNext = (s.threads t).readyNext
  allThreads : s'.allThreads = s.allThreads
  readyHead : s'.readyHead = s.readyHead
  readyTail : s'.readyTail = s.readyTail
  currentThread : s'.currentThread = s.currentThread
  idleThread : s'.idleThread = s.idleThread
  heapNext : s'.heapNext = s.heapNext

variable {s s' : WboxScheduler} {d : Dispatcher} {t : Ptr} {status : UInt32}

/-- What a scheduler represents depends on its outline only. -/
theorem Represents.of_same (h : Represents s d) (hs : SameOutline s s') : Represents s' d where
  all := by
    rw [show s'.threadLink = s.threadLink from funext hs.next, hs.allThreads]
    exact h.all
  ready := by
    refine ⟨?_, hs.readyTail.trans h.ready.tail⟩
    rw [show s'.readyLink = s.readyLink from funext hs.readyNext, hs.readyHead]
    exact h.ready.chain
  current := hs.currentThread.trans h.current
  idle := hs.idleThread.trans h.idle
  state := fun t => (hs.state t).trans (h.state t)
  limit := hs.heapNext.trans h.limit

/-- An update of a thread that leaves its state word and its links alone. -/
theorem SameOutline.modifyThread (s : WboxScheduler) (t : Ptr) {f : WboxThread → WboxThread}
    (hs : ∀ th, (f th).state = th.state) (hn : ∀ th, (f th).next = th.next)
    (hr : ∀ th, (f th).readyNext = th.readyNext) : SameOutline s (s.modifyThread t f) := by
  refine ⟨?_, ?_, ?_, rfl, rfl, rfl, rfl, rfl, rfl⟩
  all_goals
    intro u
    rw [WboxScheduler.modifyThread_threads]
    split
  · exact hs _
  · rfl
  · exact hn _
  · rfl
  · exact hr _
  · rfl

theorem SameOutline.withWaitLinks (s : WboxScheduler) (nexts : WbPtr → Option WbPtr)
    (lists : Ptr → Option WbPtr) : SameOutline s (s.withWaitLinks nexts lists) :=
  ⟨fun _ => rfl, fun _ => rfl, fun _ => rfl, rfl, rfl, rfl, rfl, rfl, rfl⟩

theorem SameOutline.trans {s₁ s₂ s₃ : WboxScheduler} (h : SameOutline s₁ s₂)
    (h' : SameOutline s₂ s₃) : SameOutline s₁ s₃ where
  state t := (h'.state t).trans (h.state t)
  next t := (h'.next t).trans (h.next t)
  readyNext t := (h'.readyNext t).trans (h.readyNext t)
  allThreads := h'.allThreads.trans h.allThreads
  readyHead := h'.readyHead.trans h.readyHead
  readyTail := h'.readyTail.trans h.readyTail
  currentThread := h'.currentThread.trans h.currentThread
  idleThread := h'.idleThread.trans h.idleThread
  heapNext := h'.heapNext.trans h.heapNext

/-- Changes of the clock keep the outline. -/
theorem SameOutline.time (s : WboxScheduler) (reads : Nat) (offset : UInt64) :
    SameOutline s { s with clockReads := reads, timeOffset := offset } :=
  ⟨fun _ => rfl, fun _ => rfl, fun _ => rfl, rfl, rfl, rfl, rfl, rfl, rfl⟩

/-- Changes of the objects keep the outline. -/
theorem SameOutline.objects (s : WboxScheduler) (objects : Ptr → SyncObject) :
    SameOutline s { s with objects := objects } :=
  ⟨fun _ => rfl, fun _ => rfl, fun _ => rfl, rfl, rfl, rfl, rfl, rfl, rfl⟩

/-- A new state word. -/
theorem Represents.setState (h : Represents s d) (t : Ptr) (st : ThreadState) :
    Represents (s.setState t st) (d.setState t st) where
  all := h.all.congr fun u _ => by
    simp only [WboxScheduler.threadLink, WboxScheduler.setState,
      WboxScheduler.modifyThread_threads]
    split
    · rfl
    · rfl
  ready := by
    refine ⟨h.ready.chain.congr fun u _ => ?_, h.ready.tail⟩
    simp only [WboxScheduler.readyLink, WboxScheduler.setState,
      WboxScheduler.modifyThread_threads]
    split
    · rfl
    · rfl
  current := h.current
  idle := h.idle
  state := by
    intro u
    simp only [WboxScheduler.setState, WboxScheduler.modifyThread_threads, Dispatcher.setState]
    by_cases hu : u = t
    · subst hu
      simp
    · simp [hu, h.state u]
  limit := h.limit

/-- An update of the queue only. -/
theorem Represents.withReady {links : Ptr → Option Ptr} {head tail : Option Ptr} {q : List Ptr}
    (h : Represents s d) (hq : ReadyQueue (s.withReady links head tail) q) :
    Represents (s.withReady links head tail) { d with ready := q } :=
  ⟨h.all, hq, h.current, h.idle, h.state, h.limit⟩

/-- `scheduler_add_ready` of a thread that is not queued. -/
theorem Represents.addReady (h : Represents s d) (ht : t ∉ d.ready) :
    Represents (schedulerAddReady s t) (d.enqueue t) := by
  have hq := h.ready.add ht
  obtain ⟨links, head, tail, he⟩ := schedulerAddReady_eq s t
  rw [he] at hq ⊢
  have hq' : ReadyQueue (s.withReady links head tail) (d.ready ++ [t]) := ⟨hq.chain, hq.tail⟩
  have hr := h.withReady hq'
  exact ⟨hr.all, hq, hr.current, hr.idle, hr.state, hr.limit⟩

/-- `scheduler_remove_ready` returns. -/
theorem Represents.removeReady (h : Represents s d) (hd : ∀ u ∈ d.ready, u < d.limit)
    (t : Ptr) : ∃ s', schedulerRemoveReady s t = some s' ∧ Represents s' (d.dequeue t) := by
  have hb : ∀ u ∈ d.ready, u < s.heapNext := fun u hu => h.limit ▸ hd u hu
  obtain ⟨s', hs, hq⟩ := h.ready.remove hb t
  obtain ⟨links, head, tail, rfl⟩ := schedulerRemoveReady_eq hs
  exact ⟨_, hs, h.withReady hq⟩

/-- `scheduler_switch`. -/
theorem Represents.switch (h : Represents s d) : Represents (schedulerSwitch s) d.dispatch := by
  cases hr : d.ready with
  | nil =>
    rw [schedulerSwitch_none (h.ready.head_none.mpr hr), Dispatcher.dispatch_nil hr]
    exact ⟨h.all, ⟨h.ready.chain, h.ready.tail⟩, congrArg some h.idle, h.idle, h.state, h.limit⟩
  | cons n rest =>
    have hq : ReadyQueue s (n :: rest) := hr ▸ h.ready
    rw [schedulerSwitch_some hq.chain.1, Dispatcher.dispatch_cons hr]
    refine ⟨h.all.congr ?_, hq.switchedTo, rfl, h.idle, ?_, h.limit⟩
    · intro u _
      simp only [WboxScheduler.threadLink, switchedTo]
      split <;> simp
    · intro u
      simp only [switchedTo]
      by_cases hu : u = n
      · subst hu
        simp
      · simp [hu, h.state u]

/-- A wake-up: the thread becomes READY and is queued. -/
theorem Represents.wake (h : Represents s d) (ht : t ∉ d.ready) (hw : Woken s t status s') :
    Represents s' (d.wake t) := by
  obtain ⟨nexts, lists, rfl⟩ := hw
  refine Represents.addReady (d := d.setState t .ready) ?_ ht
  refine Represents.of_same ?_ (SameOutline.withWaitLinks _ nexts lists)
  have he : woken s t status = (s.setState t .ready).modifyThread t fun th =>
      { th with
        waitStatus := status
        context := { th.context with eax := status }
        waitCount := 0
        waitTimeout := 0 } := by
    rw [WboxScheduler.setState, WboxScheduler.modifyThread_modifyThread]
    rfl
  rw [he]
  exact (h.setState t .ready).of_same
    (SameOutline.modifyThread _ _ (fun _ => rfl) (fun _ => rfl) (fun _ => rfl))

/-- `scheduler_add_thread` links the thread, and queues it if it is READY. -/
theorem Represents.addThread (h : Represents s d) (ht : t ∉ d.all) (hq : t ∉ d.ready) :
    Represents (schedulerAddThread s t)
      (if d.state t = .ready then (d.add t).enqueue t else d.add t) := by
  have hadd : Represents { s.setNext t s.allThreads with allThreads := some t } (d.add t) := by
    refine ⟨⟨rfl, ?_⟩, ⟨h.ready.chain.congr ?_, h.ready.tail⟩, h.current, h.idle, ?_, h.limit⟩
    · simp only [WboxScheduler.threadLink, WboxScheduler.setNext,
        WboxScheduler.modifyThread_self]
      refine h.all.congr ?_
      intro u hu
      have hut : u ≠ t := by
        rintro rfl
        exact ht hu
      simp [WboxScheduler.threadLink, hut]
    · intro u _
      simp only [WboxScheduler.readyLink, WboxScheduler.setNext,
        WboxScheduler.modifyThread_threads]
      split
      · rfl
      · rfl
    · intro u
      rw [← show (s.threads u).state = (d.add t).state u from h.state u]
      simp only [WboxScheduler.setNext, WboxScheduler.modifyThread_threads]
      split
      · rfl
      · rfl
  have hst : ((s.setNext t s.allThreads).threads t).state = d.state t := hadd.state t
  unfold schedulerAddThread
  simp only [hst]
  split
  · exact hadd.addReady hq
  · exact hadd

/-- Unlinking a thread from the list of all threads returns. -/
theorem Represents.unlinkThread (h : Represents s d) (hd : ∀ u ∈ d.all, u < d.limit)
    (t : Ptr) : ∃ s', unlinkThread s t = some s' ∧ Represents s' (d.forget t) := by
  have hb : ∀ u ∈ d.all, u < s.heapNext := fun u hu => h.limit ▸ hd u hu
  have hn : d.all.length ≤ s.threadSteps := Chain.length_le h.all hb
  by_cases ht : t ∈ d.all
  · obtain ⟨slot, hf, hch, -⟩ := h.all.findSlot_of_mem ht hn
    cases slot with
    | head =>
      refine ⟨_, by simp only [Wbox.Thread.unlinkThread, hf]; rfl, ?_⟩
      exact ⟨hch, ⟨h.ready.chain, h.ready.tail⟩, h.current, h.idle, h.state, h.limit⟩
    | after prev =>
      refine ⟨_, by simp only [Wbox.Thread.unlinkThread, hf]; rfl, ?_⟩
      refine ⟨hch.congr ?_, ⟨h.ready.chain.congr ?_, h.ready.tail⟩, h.current, h.idle, ?_,
        h.limit⟩
      · intro u _
        simp only [WboxScheduler.threadLink, WboxScheduler.setNext,
          WboxScheduler.modifyThread_threads, Slot.setNext, Function.update_apply]
        split
        · rfl
        · rfl
      · intro u _
        simp only [WboxScheduler.readyLink, WboxScheduler.setNext,
          WboxScheduler.modifyThread_threads]
        split
        · rfl
        · rfl
      · intro u
        rw [← show (s.threads u).state = (d.forget t).state u from h.state u]
        simp only [WboxScheduler.setNext, WboxScheduler.modifyThread_threads]
        split
        · rfl
        · rfl
  · refine ⟨s, by simp [Wbox.Thread.unlinkThread, h.all.findSlot_of_not_mem ht hn], ?_⟩
    refine ⟨?_, h.ready, h.current, h.idle, h.state, h.limit⟩
    simpa only [Dispatcher.forget, List.erase_of_not_mem ht] using h.all

/-- `scheduler_remove_thread` of a thread with the state word `st`. -/
theorem Represents.removeThread {st : ThreadState} (h : Represents s (d.setState t st))
    (hall : ∀ u ∈ d.all, u < d.limit) (hready : ∀ u ∈ d.ready, u < d.limit) :
    ∃ s', schedulerRemoveThread s t = some s' ∧
      Represents s' (if d.current = some t then ((d.remove t st).setCurrent none).dispatch
        else d.remove t st) := by
  obtain ⟨a, ha, hra⟩ := h.unlinkThread hall t
  obtain ⟨b, hb, hrb⟩ := hra.removeReady hready t
  have hcur : b.currentThread = d.current := hrb.current
  by_cases hc : d.current = some t
  · have hnone : Represents { b with currentThread := none } ((d.remove t st).setCurrent none) :=
      ⟨hrb.all, ⟨hrb.ready.chain, hrb.ready.tail⟩, rfl, hrb.idle, hrb.state, hrb.limit⟩
    refine ⟨_, ?_, by
      rw [if_pos hc]
      exact hnone.switch⟩
    simp [schedulerRemoveThread, ha, hb, hcur, hc]
  · refine ⟨b, ?_, by rwa [if_neg hc]⟩
    simp [schedulerRemoveThread, ha, hb, hcur, hc]

/-- `thread_terminate` makes the thread TERMINATED. -/
theorem Represents.threadTerminate (h : Represents s d) (t : Ptr) (exitCode : UInt32) :
    Represents (threadTerminate s t exitCode) (d.setState t .terminated) := by
  have he : Wbox.Thread.threadTerminate s t exitCode =
      (s.setState t .terminated).modifyThread t fun th =>
        { th with exitCode := exitCode, terminated := true } := by
    rw [WboxScheduler.setState, WboxScheduler.modifyThread_modifyThread]
    rfl
  rw [he]
  exact (h.setState t .terminated).of_same
    (SameOutline.modifyThread _ t (fun _ => rfl) (fun _ => rfl) (fun _ => rfl))

/-- `scheduler_tick` changes nothing the dispatcher sees, or puts the current thread behind
the ready threads and dispatches. -/
theorem Represents.tick (h : Represents s d) (hq : ∀ t, d.current = some t → t ∉ d.ready) :
    Represents (schedulerTick s) d ∨
      ∃ t, d.current = some t ∧ d.ready ≠ [] ∧
        Represents (schedulerTick s) (d.wake t).dispatch := by
  cases hc : s.currentThread with
  | none => exact Or.inl (by simpa [schedulerTick, hc] using h)
  | some cur =>
    have hcur : d.current = some cur := h.current ▸ hc
    have h1 : Represents (countTick s cur) d := by
      have h0 := h.of_same (SameOutline.modifyThread s cur
        (f := fun th => { th with
          quantum := if th.quantum > 0 then th.quantum - 1 else th.quantum })
        (fun _ => rfl) (fun _ => rfl) (fun _ => rfl))
      exact ⟨h0.all, ⟨h0.ready.chain, h0.ready.tail⟩, h0.current, h0.idle, h0.state, h0.limit⟩
    have h2 : Represents ((countTick s cur).modifyThread cur fun th =>
        { th with quantum := th.quantumReset }) d :=
      h1.of_same (SameOutline.modifyThread _ cur (fun _ => rfl) (fun _ => rfl) (fun _ => rfl))
    by_cases hx : ((countTick s cur).threads cur).quantum = 0
    · by_cases hr : s.readyHead = none
      · refine Or.inl ?_
        have he : schedulerTick s = (countTick s cur).modifyThread cur fun th =>
            { th with quantum := th.quantumReset } := by
          simp only [schedulerTick, hc, hx, if_true]
          exact if_neg (not_not.mpr hr)
        rw [he]
        exact h2
      · have he : schedulerTick s = preempt ((countTick s cur).modifyThread cur fun th =>
            { th with quantum := th.quantumReset }) cur := by
          simp only [schedulerTick, hc, hx, if_true]
          exact if_pos hr
        refine Or.inr ⟨cur, hcur, fun hn => hr (h.ready.head_none.mpr hn), ?_⟩
        rw [he]
        refine Represents.switch (Represents.addReady (Represents.setState ?_ cur .ready)
          (hq cur hcur))
        exact ⟨h2.all, ⟨h2.ready.chain, h2.ready.tail⟩, h2.current, h2.idle, h2.state, h2.limit⟩
    · refine Or.inl ?_
      have he : schedulerTick s = countTick s cur := by simp [schedulerTick, hc, hx]
      rw [he]
      exact h1

private theorem registerBlock_outline (s : WboxScheduler) (thread : Ptr) (i : Nat)
    (object : Option Ptr) : SameOutline s (registerBlock s thread i object) := by
  have hth : ∀ b, SameOutline s (s.modifyThread thread fun th =>
      { th with waitBlocks := Function.update th.waitBlocks i b }) := fun b =>
    SameOutline.modifyThread s thread (fun _ => rfl) (fun _ => rfl) (fun _ => rfl)
  cases object with
  | none => exact hth _
  | some o => exact (hth _).trans (SameOutline.objects _ _)

/-- Setting up the wait blocks keeps the outline. -/
theorem registerBlocks_outline (thread : Ptr) (i : Nat) (objects : List (Option Ptr))
    (s : WboxScheduler) : SameOutline s (registerBlocks thread i objects s) := by
  induction objects generalizing i s with
  | nil => exact ⟨fun _ => rfl, fun _ => rfl, fun _ => rfl, rfl, rfl, rfl, rfl, rfl, rfl⟩
  | cons object rest ih =>
    exact (registerBlock_outline s thread i object).trans (ih (i + 1) _)

/-- Parking a thread saves the CPU in its context and makes it WAITING. -/
theorem parkThread_eq (s : WboxScheduler) (t : Ptr) :
    parkThread s t = (s.setState t .waiting).modifyThread t fun th =>
      { th with
        context := s.cpu.regs
        contextValid := true
        waitStatus := statusNotSet } := by
  simp only [parkThread, threadSaveContext, WboxScheduler.setState,
    WboxScheduler.modifyThread_modifyThread]
  rfl

/-- A blocking call up to its context switch: the caller is WAITING. -/
theorem Represents.parkThread (h : Represents s d) (t : Ptr) (objects : List (Option Ptr))
    (waitType : WaitType) (timeout : UInt64) (alertable : Bool) :
    Represents (parkThread (registerBlocks t 0 objects
      (prepareWait s t objects.length waitType timeout alertable)) t) (d.setState t .waiting) := by
  rw [parkThread_eq]
  refine Represents.of_same ?_
    (SameOutline.modifyThread _ t (fun _ => rfl) (fun _ => rfl) (fun _ => rfl))
  refine Represents.setState ?_ t .waiting
  refine Represents.of_same ?_ (registerBlocks_outline t 0 objects _)
  exact h.of_same (SameOutline.modifyThread s t (fun _ => rfl) (fun _ => rfl) (fun _ => rfl))

/-- A blocking call up to its waiting loop: the caller is WAITING, and the next thread runs. -/
theorem Represents.blockEnter (h : Represents s d) (t : Ptr) (objects : List (Option Ptr))
    (waitType : WaitType) (timeout : UInt64) (alertable : Bool) :
    Represents (schedulerBlockEnter s t objects waitType timeout alertable)
      (d.setState t .waiting).dispatch :=
  (h.parkThread t objects waitType timeout alertable).switch

/-- `scheduler_check_timeouts` wakes known waiting threads: what such wake-ups keep, it keeps. -/
theorem Represents.checkTimeouts {Inv : Dispatcher → Prop}
    (hwake : ∀ d t, Inv d → t ∈ d.all → d.state t = .waiting → t ∉ d.ready ∧ Inv (d.wake t))
    (h : Represents s d) (hd : Inv d) (hs : schedulerCheckTimeouts s = some s') :
    ∃ d', Represents s' d' ∧ Inv d' := by
  have hclock : Represents (schedulerGetTime100ns s).2 d :=
    h.of_same (SameOutline.time s (s.clockReads + 1) s.timeOffset)
  have hloop := checkTimeoutsFrom_invariant
    (Q := fun p s => ∃ d xs, Represents s d ∧ Inv d ∧ Chain s.threadLink p xs ∧ xs ⊆ d.all)
    ?_ ?_ ⟨d, d.all, hclock, hd, h.all, List.Subset.refl _⟩ hs
  · obtain ⟨d', _, hr, hi, -, -⟩ := hloop
    exact ⟨d', hr, hi⟩
  · rintro s t ⟨d, xs, hr, hi, hc, hsub⟩
    cases xs with
    | nil => exact absurd hc (by simp)
    | cons x xs =>
      have hx : t = x := Option.some.inj hc.1
      exact ⟨d, xs, hr, hi, hx ▸ hc.2, fun u hu => hsub (List.mem_cons_of_mem x hu)⟩
  · rintro s t s' ⟨d, xs, hr, hi, hc, hsub⟩ hx hw
    cases xs with
    | nil => exact absurd hc (by simp)
    | cons x xs =>
      have htx : t = x := Option.some.inj hc.1
      have hst : d.state t = .waiting := by
        rw [← hr.state t]
        exact (of_decide_eq_true hx).1
      obtain ⟨hq, hi'⟩ := hwake d t hi (hsub (htx ▸ List.mem_cons_self)) hst
      refine ⟨d.wake t, xs, hr.wake hq hw, hi', ?_, fun u hu => hsub (List.mem_cons_of_mem x hu)⟩
      rw [hw.threadLink, htx]
      exact hc.2

/-- The waiting loop keeps what wake-ups keep, up to the caller's own state word. -/
theorem Represents.blockLoop {Inv : Dispatcher → Prop} {left : Nat}
    (hwake : ∀ d t, Inv d → t ∈ d.all → d.state t = .waiting → t ∉ d.ready ∧ Inv (d.wake t))
    (h : Represents s d) (hd : Inv d) (hs : schedulerBlockLoop t left s = some s') :
    ∃ d', Inv d' ∧ (Represents s' d' ∨ Represents s' (d'.setState t .ready)) := by
  refine schedulerBlockLoop_invariant (R := fun s => ∃ d, Inv d ∧ Represents s d)
    (T := fun s => ∃ d, Inv d ∧ (Represents s d ∨ Represents s (d.setState t .ready)))
    ?_ ?_ ?_ ?_ ?_ ⟨d, hd, h⟩ hs
  · rintro s reads offset ⟨d, hd, h⟩
    exact ⟨d, hd, h.of_same (SameOutline.time s reads offset)⟩
  · rintro s s' ⟨d, hd, h⟩ hs
    obtain ⟨d', hr, hi⟩ := h.checkTimeouts hwake hd hs
    exact ⟨d', hi, hr⟩
  · rintro s ⟨d, hd, h⟩
    exact ⟨d, hd, Or.inl h⟩
  · rintro s ⟨d, hd, h⟩
    exact ⟨d, hd, Or.inl (h.of_same
      (SameOutline.modifyThread s t (fun _ => rfl) (fun _ => rfl) (fun _ => rfl)))⟩
  · rintro s ⟨d, hd, h⟩
    refine ⟨d, hd, Or.inr ?_⟩
    have hs := (h.setState t .ready).of_same (SameOutline.modifyThread (s.setState t .ready) t
      (f := fun th => { th with waitStatus := statusTimeout })
      (fun _ => rfl) (fun _ => rfl) (fun _ => rfl))
    rwa [WboxScheduler.setState, WboxScheduler.modifyThread_modifyThread] at hs

/-- The end of `scheduler_block_thread` hands the CPU back to the caller. -/
theorem Represents.blockReturn (h : Represents s d) (hd : ∀ u ∈ d.ready, u < d.limit) (t : Ptr) :
    ∃ s' st, schedulerBlockReturn s t = some (s', st) ∧ Represents s' (d.resume t) := by
  have hcur : Represents (restoreCurrent s t) (d.setCurrent (some t)) := by
    unfold restoreCurrent
    split
    · exact ⟨h.all, ⟨h.ready.chain, h.ready.tail⟩, rfl, h.idle, h.state, h.limit⟩
    · next hc => exact ⟨h.all, h.ready, not_not.mp hc, h.idle, h.state, h.limit⟩
  obtain ⟨a, ha, hr⟩ := hcur.removeReady hd t
  have hr := hr.setState t .running
  refine ⟨_, _, by simp only [schedulerBlockReturn, ha]; rfl, ?_⟩
  exact ⟨hr.all, ⟨hr.ready.chain, hr.ready.tail⟩, hr.current, hr.idle, hr.state, hr.limit⟩

end Wbox.Thread
