import Wbox.Thread.Waiting

/-!
# Blocking and virtual time

`scheduler_block_thread` is synchronous: it does not return before its caller is RUNNING and
current again (`src/thread/scheduler.c:471–487`). Whatever thread it has switched to, the
waiting loop moves the clock to the caller's deadline on the caller's behalf.
-/

namespace Wbox.Thread

open Wbox.Cpu Wbox.Nt Wbox.Lib

/-- Only the thread whose blocking call is under way waits. -/
def NobodyElseWaits (c : Config) : Prop :=
  ∀ u, (c.sched.threads u).state = .waiting → c.blocked = some u

theorem nobodyElseWaits_boot (cpu : CpuState) (clock : Nat → UInt64) :
    NobodyElseWaits (boot cpu clock) := by
  intro u hu
  simp only [boot, schedulerInit] at hu
  by_cases h1 : u = 1
  · simp [h1, threadCreateMain] at hu
  · by_cases h0 : u = 0
    · simp [h0, threadCreateIdle] at hu
    · simp [h1, h0, WboxThread.zero] at hu

/-- A step that starts no wait. -/
theorem NobodyElseWaits.of_noNewWaits {c : Config} {s : WboxScheduler} (h : NobodyElseWaits c)
    (hs : NoNewWaits c.sched s) : NobodyElseWaits (c.withSched s) :=
  fun u hu => h u (hs u hu).1

theorem NobodyElseWaits.stepIdle {c c' : Config} {e : Event} (h : NobodyElseWaits c)
    (hb : c.blocked = none) (hs : c.stepIdle e = some c') : NobodyElseWaits c' := by
  cases e with
  | exec cpu =>
    simp only [Config.stepIdle] at hs
    split at hs
    · split at hs
      · cases hs
      · rw [← Option.some.inj hs]
        exact h
    · cases hs
  | tick =>
    rw [← Option.some.inj hs]
    exact h.of_noNewWaits (.tick c.sched)
  | switch =>
    rw [← Option.some.inj hs]
    exact h.of_noNewWaits (.switch c.sched)
  | checkTimeouts =>
    obtain ⟨s, hc, rfl⟩ := Option.map_eq_some_iff.mp hs
    exact h.of_noNewWaits (.checkTimeouts hc)
  | blockEnter objects waitType timeout alertable =>
    simp only [Config.stepIdle] at hs
    split at hs
    · next s status hd =>
      obtain ⟨objs, rfl⟩ := schedulerBlockEntry_done hd
      rw [← Option.some.inj hs]
      exact h
    · rw [← Option.some.inj hs]
      intro u hu
      rcases schedulerBlockEnter_waits hu with rfl | hw
      · rfl
      · have hn := h u hw.1
        simp [hb] at hn
  | blockFinish => cases hs
  | signal object type =>
    obtain ⟨s, hc, rfl⟩ := Option.map_eq_some_iff.mp hs
    exact h.of_noNewWaits (.signal hc)
  | createThread startAddress stackBase tebAddr suspended =>
    rw [← Option.some.inj hs]
    have hadd := (NoNewWaits.threadCreate c.sched startAddress stackBase tebAddr suspended).trans
      (.addThread _ c.sched.heapNext)
    exact fun u hu => h u (hadd u hu).1
  | removeThread arg =>
    simp only [Config.stepIdle] at hs
    split at hs
    · rw [← Option.some.inj hs]
      exact h
    · obtain ⟨s, hc, rfl⟩ := Option.map_eq_some_iff.mp hs
      exact h.of_noNewWaits (.removeThread hc)
  | terminateThread arg exitStatus =>
    simp only [Config.stepIdle] at hs
    split at hs
    · rw [← Option.some.inj hs]
      exact h
    · next t ht =>
      obtain ⟨s, hc, rfl⟩ := Option.map_eq_some_iff.mp hs
      apply h.of_noNewWaits
      obtain ⟨a, ha, rfl⟩ := Option.map_eq_some_iff.mp hc
      have hterm : NoNewWaits c.sched (threadTerminate c.sched t exitStatus) := by
        apply NoNewWaits.modifyThread
        intro th hth
        cases hth
      exact (hterm.trans (.removeThread ha)).trans (.switchIfCurrent a t)
  | suspendThread handle =>
    simp only [Config.stepIdle] at hs
    split at hs
    · rw [← Option.some.inj hs]
      exact h
    · next t ht =>
      obtain ⟨s, hc, rfl⟩ := Option.map_eq_some_iff.mp hs
      apply h.of_noNewWaits
      obtain ⟨a, ha, rfl⟩ := Option.map_eq_some_iff.mp hc
      have hca : NoNewWaits c.sched a := by
        unfold unqueueReady at ha
        split at ha
        · exact .removeReady ha
        · rw [← Option.some.inj ha]
          exact .refl c.sched
      have hpark : NoNewWaits a (parkRunnable a t) := by
        unfold parkRunnable
        split
        · exact .setState a t (by simp)
        · exact .refl a
      exact (hca.trans hpark).trans (.switchIfCurrent _ t)
  | resumeThread handle =>
    simp only [Config.stepIdle] at hs
    split at hs
    · rw [← Option.some.inj hs]
      exact h
    · next t ht =>
      rw [← Option.some.inj hs]
      apply h.of_noNewWaits
      unfold ntResumeThread
      split
      · exact (NoNewWaits.setState c.sched t (by simp)).trans (.addReady _ t)
      · exact .refl c.sched
  | createObject obj =>
    rw [← Option.some.inj hs]
    exact h
  | writeObject object obj =>
    rw [← Option.some.inj hs]
    exact h

/-- No step leaves a thread WAITING behind. -/
theorem NobodyElseWaits.step {c c' : Config} {e : Event} (h : NobodyElseWaits c)
    (hs : c.step e = some c') : NobodyElseWaits c' := by
  unfold Config.step at hs
  split at hs
  · next hb => exact h.stepIdle hb hs
  · next t hb =>
    split at hs
    · obtain ⟨⟨s, status⟩, hf, rfl⟩ := Option.map_eq_some_iff.mp hs
      intro u hu
      obtain ⟨hut, hw, -⟩ := (schedulerBlockFinish_caller hf).2.2 u hu
      have hbu := h u hw
      rw [hb] at hbu
      exact absurd (Option.some.inj hbu).symm hut
    · cases hs

/-- What a blocking call of `t` that goes from `s` to `s'` should respect while another thread
can run: the clock is not moved, the wait does not time out before its deadline, the caller
stays WAITING and another thread runs. -/
structure KeepsVirtualTime (s : WboxScheduler) (t : Ptr) (timeout : UInt64) (status : UInt32)
    (s' : WboxScheduler) : Prop where
  offset : s'.timeOffset = s.timeOffset
  deadline : status = statusTimeout → timeout ≤ (schedulerGetTime100ns s').1
  waiting : (s'.threads t).state = .waiting
  runs : ∃ u, u ≠ t ∧ s'.currentThread = some u ∧ (s'.threads u).state = .running

/-- In no reachable state does a call respect virtual time: it returns, if it returns, with
its caller not WAITING. -/
theorem blockThread_not_keepsVirtualTime (cpu : CpuState) (clock : Nat → UInt64)
    (es : List Event) (tr : List Config) (c : Config) (t : Ptr) (objects : List (Option Ptr))
    (waitType : WaitType) (timeout : UInt64) (alertable : Bool)
    (h : trace Config.step (boot cpu clock) es = some tr) (hc : c ∈ tr)
    (hb : c.blocked = none) (ht : c.sched.currentThread = some t) :
    ¬ ∃ s' status, schedulerBlockThread c.sched objects waitType timeout alertable =
      some (s', status) ∧ KeepsVirtualTime c.sched t timeout status s' := by
  have hwait : NobodyElseWaits c :=
    trace_invariant_of_step (fun a e b ha hs => ha.step hs) (nobodyElseWaits_boot cpu clock) h c hc
  rintro ⟨s', status, hcall, hk⟩
  have hnot : (s'.threads t).state ≠ .waiting := by
    unfold schedulerBlockThread at hcall
    split at hcall
    · next s st hd =>
      obtain ⟨objs, rfl⟩ := schedulerBlockEntry_done hd
      have hs : s' = { c.sched with objects := objs } :=
        (congrArg Prod.fst (Option.some.inj hcall)).symm
      intro hw
      rw [hs] at hw
      have hbt := hwait t hw
      simp [hb] at hbt
    · next u hu =>
      have hut : u = t :=
        Option.some.inj ((schedulerBlockEntry_wait hu).1.symm.trans ht)
      rw [hut] at hcall
      rw [(schedulerBlockFinish_caller hcall).2.1]
      simp
  exact hnot hk.waiting

/-- The state of `waitRun` in which the main thread is about to wait. -/
private theorem waitRun_before : ∃ tr c, trace Config.step (boot default fun _ => 0)
    (waitRun false) = some tr ∧ tr[2]? = some c ∧ c.blocked = none ∧
      c.sched.currentThread = some 1 ∧ (c.sched.threads 2).state = .ready ∧
      (satisfyNow c.sched.objects (c.sched.threads 1).threadId .any [some 3]).isNone ∧
      c.sched.timeOffset = 0 ∧
      (schedulerBlockThread c.sched [some 3] .any 5 false).map (fun r =>
        (r.2, r.1.timeOffset, r.1.currentThread)) = some (statusTimeout, 6, some 1) := by
  have hrun : ((trace Config.step (boot default fun _ => 0) (waitRun false)).bind (·[2]?)).map
      (fun c => (c.blocked, c.sched.currentThread, (c.sched.threads 2).state,
        (satisfyNow c.sched.objects (c.sched.threads 1).threadId .any [some 3]).isNone)) =
      some (none, some 1, .ready, true) := by
    decide +kernel
  have hcall : ((trace Config.step (boot default fun _ => 0) (waitRun false)).bind (·[2]?)).map
      (fun c => (c.sched.timeOffset,
        (schedulerBlockThread c.sched [some 3] .any 5 false).map fun r =>
          (r.2, r.1.timeOffset, r.1.currentThread))) =
      some (0, some (statusTimeout, 6, some 1)) := by
    decide +kernel
  obtain ⟨c, hc, hval⟩ := Option.map_eq_some_iff.mp hrun
  obtain ⟨tr, htr, hat⟩ := Option.bind_eq_some_iff.mp hc
  rw [hc, Option.map_some, Option.some.injEq] at hcall
  simp only [Prod.mk.injEq] at hval hcall
  exact ⟨tr, c, htr, hat, hval.1, hval.2.1, hval.2.2.1, hval.2.2.2, hcall.1, hcall.2⟩

theorem blockThread_not_keepsVirtualTime_waitRun :
    ∃ tr c, trace Config.step (boot default fun _ => 0) (waitRun false) = some tr ∧ c ∈ tr ∧
      (c.sched.threads 2).state = .ready ∧
      ¬ ∃ s' status, schedulerBlockThread c.sched [some 3] .any 5 false = some (s', status) ∧
        KeepsVirtualTime c.sched 1 5 status s' := by
  obtain ⟨tr, c, htr, hat, hb, hcur, hready, -⟩ := waitRun_before
  have hc : c ∈ tr := List.mem_of_getElem? hat
  exact ⟨tr, c, htr, hc, hready, blockThread_not_keepsVirtualTime default (fun _ => 0)
    (waitRun false) tr c 1 [some 3] .any 5 false htr hc hb hcur⟩

/-- With a second thread ready and the clock standing still at 0, a wait of the main thread for
an unsignaled event with the deadline 5 returns `STATUS_TIMEOUT` with the clock moved by 6. -/
theorem waitRun_fastForwards :
    ∃ tr c s', trace Config.step (boot default fun _ => 0) (waitRun false) = some tr ∧ c ∈ tr ∧
      c.blocked = none ∧ c.sched.currentThread = some 1 ∧ (c.sched.threads 2).state = .ready ∧
      satisfyNow c.sched.objects (c.sched.threads 1).threadId .any [some 3] = none ∧
      schedulerBlockThread c.sched [some 3] .any 5 false = some (s', statusTimeout) ∧
      s'.currentThread = some 1 ∧ ¬ KeepsVirtualTime c.sched 1 5 statusTimeout s' := by
  obtain ⟨tr, c, htr, hat, hb, hcur, hready, hnow, hoff, hcall⟩ := waitRun_before
  obtain ⟨⟨s', status⟩, hs', hval⟩ := Option.map_eq_some_iff.mp hcall
  simp only [Prod.mk.injEq] at hval
  obtain ⟨rfl, htime, hcur'⟩ := hval
  refine ⟨tr, c, s', htr, List.mem_of_getElem? hat, hb, hcur, hready,
    Option.isNone_iff_eq_none.mp hnow, hs', hcur', fun hk => ?_⟩
  have hsame := hk.offset
  rw [htime, hoff] at hsame
  exact absurd hsame (by decide)

end Wbox.Thread
