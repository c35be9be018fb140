import Wbox.Thread.Queue

/-!
# Context switches

What `scheduler_switch` and `scheduler_tick` do to every thread structure, to the CPU and
to the ready queue, as equations on the whole state.
-/

namespace Wbox.Thread

open Wbox.Cpu Wbox.Nt Wbox.Lib

/-- A thread structure once `scheduler_switch` has saved the thread that is switched out. -/
def leavingThread (s : WboxScheduler) (u : Ptr) : WboxThread :=
  if s.currentThread = some u ∧ (s.threads u).state = .running then
    { s.threads u with context := s.cpu.regs, contextValid := true }
  else s.threads u

/-- The CPU once `scheduler_switch` has restored the thread that is switched in. -/
def arrivingCpu (s : WboxScheduler) (n : Ptr) : CpuState :=
  if (leavingThread s n).contextValid then
    restoreContext (leavingThread s n).context (leavingThread s n).tebAddr s.cpu
  else s.cpu

/-- The whole effect of a switch to the head of the ready queue. -/
def switchedTo (s : WboxScheduler) (n : Ptr) : WboxScheduler :=
  { s with
    threads := fun u =>
      if u = n then { leavingThread s u with state := .running, readyNext := none }
      else leavingThread s u
    readyHead := s.readyLink n
    readyTail := if s.readyLink n = none then none else s.readyTail
    currentThread := some n
    cpu := arrivingCpu s n
    contextSwitches := s.contextSwitches + 1
    idle := false
    preemptionPending := false }

variable {s s' : WboxScheduler} {q : List Ptr} {t u n : Ptr}

/-- A thread that is not the running current thread is left as it is. -/
theorem leavingThread_of_ne (h : s.currentThread ≠ some u) : leavingThread s u = s.threads u := by
  simp [leavingThread, h]

/-- Only the context of a thread that is switched out changes. -/
theorem leavingThread_eq (s : WboxScheduler) (u : Ptr) :
    ∃ ctx valid, leavingThread s u =
      { s.threads u with context := ctx, contextValid := valid } := by
  unfold leavingThread
  split
  · exact ⟨_, _, rfl⟩
  · exact ⟨_, _, rfl⟩

@[simp] theorem leavingThread_state (s : WboxScheduler) (u : Ptr) :
    (leavingThread s u).state = (s.threads u).state := by
  obtain ⟨_, _, h⟩ := leavingThread_eq s u
  rw [h]

@[simp] theorem leavingThread_readyNext (s : WboxScheduler) (u : Ptr) :
    (leavingThread s u).readyNext = (s.threads u).readyNext := by
  obtain ⟨_, _, h⟩ := leavingThread_eq s u
  rw [h]

@[simp] theorem leavingThread_next (s : WboxScheduler) (u : Ptr) :
    (leavingThread s u).next = (s.threads u).next := by
  obtain ⟨_, _, h⟩ := leavingThread_eq s u
  rw [h]

/-- Taking the head off the queue, as an update of the queue. -/
theorem takeReady_eq (s : WboxScheduler) (n : Ptr) :
    takeReady s n = s.withReady (Function.update s.readyLink n none) (s.readyLink n)
      (if s.readyLink n = none then none else s.readyTail) := by
  unfold takeReady
  rw [WboxScheduler.setReadyNext_eq]
  rfl

private theorem saveRunning_threads (s : WboxScheduler) :
    (saveRunning s s.currentThread).threads = leavingThread s := by
  ext u : 1
  cases hc : s.currentThread with
  | none => simp [saveRunning, leavingThread, hc]
  | some old =>
    by_cases hu : u = old
    · subst hu
      by_cases hr : (s.threads u).state = .running
      · simp [saveRunning, leavingThread, hc, hr, threadSaveContext]
      · simp [saveRunning, leavingThread, hr]
    · rw [leavingThread_of_ne (by simp [hc, Ne.symm hu])]
      simp only [saveRunning]
      split
      · simp [threadSaveContext, hu]
      · rfl

/-- Saving the thread that is switched out, as an update of the thread structures. -/
theorem saveRunning_eq (s : WboxScheduler) :
    saveRunning s s.currentThread = { s with threads := leavingThread s } := by
  have h : ∀ old, saveRunning s old = { s with threads := (saveRunning s old).threads } := by
    intro old
    cases old with
    | none => rfl
    | some old =>
      simp only [saveRunning]
      split
      · rfl
      · rfl
  rw [← saveRunning_threads]
  exact h s.currentThread

/-- Restoring a context, as an update of the CPU. -/
theorem threadRestoreContext_eq (s : WboxScheduler) (t : Ptr) :
    threadRestoreContext s t =
      { s with
        cpu :=
          if (s.threads t).contextValid then
            restoreContext (s.threads t).context (s.threads t).tebAddr s.cpu
          else s.cpu } := by
  unfold threadRestoreContext
  split
  · rfl
  · rfl

private theorem leavingThread_takeReady (s : WboxScheduler) (n u : Ptr) :
    leavingThread (takeReady s n) u =
      { leavingThread s u with readyNext := Function.update s.readyLink n none u } := by
  rw [takeReady_eq]
  by_cases h : s.currentThread = some u ∧ (s.threads u).state = .running
  · simp [leavingThread, WboxScheduler.withReady, h]
  · simp [leavingThread, WboxScheduler.withReady, h]

/-- A switch to the head of the queue is the update `switchedTo`. -/
theorem switchTo_eq (s : WboxScheduler) (n : Ptr) : switchTo s n = switchedTo s n := by
  have hthreads : (switchedTo s n).threads =
      Function.update (leavingThread (takeReady s n)) n
        { leavingThread (takeReady s n) n with state := .running } := by
    ext u : 1
    by_cases hu : u = n
    · subst hu
      simp [switchedTo, leavingThread_takeReady]
    · simp only [switchedTo, hu, if_false, Function.update_of_ne hu, leavingThread_takeReady]
      rw [show s.readyLink u = (leavingThread s u).readyNext by simp [WboxScheduler.readyLink]]
  have hcpu : (switchedTo s n).cpu =
      if (leavingThread (takeReady s n) n).contextValid then
        restoreContext (leavingThread (takeReady s n) n).context
          (leavingThread (takeReady s n) n).tebAddr s.cpu
      else s.cpu := by
    rw [leavingThread_takeReady]
    rfl
  have h : switchTo s n = { switchedTo s n with
      threads := (switchedTo s n).threads, cpu := (switchedTo s n).cpu } := by
    rw [hthreads, hcpu]
    simp only [switchTo, saveRunning_eq, threadRestoreContext_eq, WboxScheduler.setState,
      WboxScheduler.modifyThread, Function.update_self]
    rfl
  exact h

/-- With an empty ready queue, `scheduler_switch` goes idle and saves nothing. -/
theorem schedulerSwitch_none (h : s.readyHead = none) : schedulerSwitch s = switchIdle s := by
  simp only [schedulerSwitch, h]

/-- Otherwise it switches to the head of the queue. -/
theorem schedulerSwitch_some (h : s.readyHead = some n) : schedulerSwitch s = switchedTo s n := by
  simp only [schedulerSwitch, h, switchTo_eq]

/-- A switch takes the head off the ready queue. -/
theorem ReadyQueue.switchedTo {rest : List Ptr} (hq : ReadyQueue s (n :: rest)) :
    ReadyQueue (switchedTo s n) rest := by
  have hc : Chain s.readyLink s.readyHead (n :: rest) := hq.chain
  have hn : n ∉ rest := (List.nodup_cons.mp hc.nodup).1
  refine ⟨?_, ?_⟩
  · refine hc.2.congr ?_
    intro u hu
    have hun : u ≠ n := by
      rintro rfl
      exact hn hu
    simp [WboxScheduler.readyLink, Thread.switchedTo, hun]
  · have ht : s.readyTail = (n :: rest).getLast? := hq.tail
    have hnil : s.readyLink n = none ↔ rest = [] := by
      rw [hc.2.head_eq, List.head?_eq_none_iff]
    simp only [Thread.switchedTo, hnil, ht]
    cases rest <;> simp

end Wbox.Thread
