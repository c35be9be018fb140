import Wbox.Thread.Invariant

/-!
# Every thread is where its state says

The placement invariant of the scheduler over whole runs from `scheduler_init`. A blocking
call with another thread ready breaks it: `scheduler_switch` hands the CPU to that thread,
and the end of the call (`src/thread/scheduler.c:475–484`) takes it back without undoing the
switch, so that two threads are RUNNING and one of them is neither current nor queued.
-/

namespace Wbox.Thread

open Wbox.Cpu Wbox.Nt Wbox.Lib

/-- The lists of the scheduler are finite, `ready_tail` is the last node of the ready queue,
and every thread is in the place its state says. -/
def SchedulerInPlace (s : WboxScheduler) : Prop := ∃ d, Represents s d ∧ d.InPlace

/-- A placed and orderly configuration is in place, inside a blocking call as well. -/
theorem Placed.inPlace {c : Config} {d : Dispatcher} (h : Placed c d) (ho : Orderly c d) :
    SchedulerInPlace c.sched := by
  refine ⟨d, h.represents, ?_⟩
  cases hb : c.blocked with
  | none => exact (h.settled ho hb).inPlace
  | some t =>
    obtain ⟨hn, hc⟩ := ho.blocked t hb
    have hset : d.Settled := ⟨h.queue, ho.accounted, fun u hu hs => absurd hs (hn u hu), Or.inl hc⟩
    exact hset.inPlace

/-- A step that leaves no thread behind queues no idle thread. -/
theorem KeepsPlace.not_idleTick {c : Config} {e : Event} (h : KeepsPlace c e) :
    ¬ IdleTick c e := by
  intro hi
  cases e with
  | tick => exact hi.2 (h hi.1)
  | _ => exact hi

/-- In every run from `scheduler_init` whose steps leave no thread behind, every thread is
in its place in every state. -/
theorem scheduler_inPlace (cpu : CpuState) (clock : Nat → UInt64) (es : List Event)
    (tr : List Config) (h : trace Config.step (boot cpu clock) es = some tr)
    (hg : Guarded Config.step KeepsPlace (boot cpu clock) es) :
    ∀ c ∈ tr, SchedulerInPlace c.sched := by
  have hinv : ∀ c ∈ tr, ∃ d, Placed c d ∧ Orderly c d := by
    refine trace_invariant ?_ ⟨_, placed_boot cpu clock, orderly_boot cpu clock⟩ h hg
    rintro c e c' ⟨d, hp, ho⟩ hk hs
    obtain ⟨d', hp', ho'⟩ := hp.config_step hk.not_idleTick hs
    exact ⟨d', hp', ho' ho hk⟩
  intro c hc
  obtain ⟨d, hp, ho⟩ := hinv c hc
  exact hp.inPlace ho

theorem scheduler_inPlace_waitRun :
    ∃ tr, trace Config.step (boot default fun _ => 0) (waitRun true) = some tr ∧
      ∀ c ∈ tr, SchedulerInPlace c.sched := by
  have hsome : (trace Config.step (boot default fun _ => 0) (waitRun true)).isSome = true := by
    decide +kernel
  obtain ⟨tr, htr⟩ := Option.isSome_iff_exists.mp hsome
  refine ⟨tr, htr, scheduler_inPlace default (fun _ => 0) (waitRun true) tr htr ?_⟩
  refine ⟨trivial, fun c₁ h₁ => ⟨trivial, fun c₂ h₂ => ⟨?_, fun c₃ h₃ => ⟨trivial, fun _ _ =>
    trivial⟩⟩⟩⟩
  intro t _
  have hready : ((boot default fun _ => 0).step (waitRun true)[0]).bind (fun c =>
      (c.step (waitRun true)[1]).map fun c => c.sched.readyHead) = some none := by
    decide +kernel
  rw [show (boot default fun _ => 0).step (waitRun true)[0] = some c₁ from h₁, Option.bind_some,
    show c₁.step (waitRun true)[1] = some c₂ from h₂] at hready
  exact Option.some.inj hready

/-- The same run with the second thread ready: in its last state both threads are RUNNING. -/
theorem scheduler_not_inPlace :
    ∃ tr c, trace Config.step (boot default fun _ => 0) (waitRun false) = some tr ∧ c ∈ tr ∧
      c.blocked = none ∧ ¬ SchedulerInPlace c.sched := by
  have hrun : ((trace Config.step (boot default fun _ => 0) (waitRun false)).bind
      (·.getLast?)).map (fun c => (c.blocked, c.sched.currentThread, c.sched.allThreads,
        (c.sched.threads 2).state)) = some (none, some 1, some 2, .running) := by
    decide +kernel
  obtain ⟨c, hc, hval⟩ := Option.map_eq_some_iff.mp hrun
  obtain ⟨tr, htr, hlast⟩ := Option.bind_eq_some_iff.mp hc
  simp only [Prod.mk.injEq] at hval
  obtain ⟨hb, hcur, hall, hst⟩ := hval
  refine ⟨tr, c, htr, List.mem_of_getLast? hlast, hb, ?_⟩
  rintro ⟨d, hr, hd⟩
  have hmem : 2 ∈ d.all := by
    have hh := hr.all.head_eq
    rw [hall] at hh
    exact List.mem_of_mem_head? hh.symm
  have hcur2 : d.current = some 2 := (hd.running 2 hmem).mp ((hr.state 2).symm.trans hst)
  rw [← hr.current, hcur] at hcur2
  exact absurd hcur2 (by decide)

end Wbox.Thread
