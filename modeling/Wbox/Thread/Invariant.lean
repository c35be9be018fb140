import Wbox.Thread.Machine
import Wbox.Thread.Refinement

/-!
# Invariants of the running system

`Placed` holds in every state the host reaches as long as no tick finds the idle thread
current and a thread ready. `Orderly` is the rest of what keeps every thread in its place;
the steps that break it are the subject of `Wbox.Thread.Placement`.
-/

namespace Wbox.Thread

open Wbox.Cpu Wbox.Nt Wbox.Lib

namespace Dispatcher

/-- `d'` is `d` after some waiting threads have been woken. -/
structure Woke (d d' : Dispatcher) : Prop where
  queue : d'.QueueOk
  all : d'.all = d.all
  idle : d'.idle = d.idle
  limit : d'.limit = d.limit
  current : d'.current = d.current
  state : ∀ u, d'.state u = d.state u ∨ (d.state u = .waiting ∧ d'.state u = .ready)
  accounted : d.Accounted → d'.Accounted

variable {d d' : Dispatcher} {t : Ptr}

theorem Woke.refl (h : d.QueueOk) : d.Woke d :=
  ⟨h, rfl, rfl, rfl, rfl, fun _ => Or.inl rfl, id⟩

/-- One more wake-up. -/
theorem Woke.wake (h : d.Woke d') (hs : d'.state t = .waiting) (hi : t ≠ d.idle) :
    t ∉ d'.ready ∧ d.Woke (d'.wake t) := by
  have hq : t ∉ d'.ready := h.queue.not_mem (by simp [hs])
  have hl : t < d'.limit := by
    by_contra hn
    simp [h.queue.fresh t (Nat.not_lt.mp hn)] at hs
  refine ⟨hq, h.queue.wake hq (h.idle ▸ hi) hl, h.all, h.idle, h.limit, h.current, ?_,
    fun ha => (h.accounted ha).wake⟩
  intro u
  by_cases hu : u = t
  · subst hu
    right
    rcases h.state u with hd | hd
    · exact ⟨hd.symm.trans hs, by simp [Dispatcher.wake, Dispatcher.enqueue, setState]⟩
    · simp [hd.2] at hs
  · simpa [Dispatcher.wake, Dispatcher.enqueue, setState, hu] using h.state u

/-- Waking starts no thread. -/
theorem Woke.running (h : d.Woke d') (hs : d'.state t = .running) : d.state t = .running := by
  rcases h.state t with hd | hd
  · exact hd.symm.trans hs
  · simp [hd.2] at hs

/-- Waking leaves threads that are not WAITING alone. -/
theorem Woke.kept (h : d.Woke d') (hs : d.state t ≠ .waiting) : d'.state t = d.state t :=
  (h.state t).resolve_right fun hw => hs hw.1

theorem Woke.hasCurrent (h : d.Woke d') (hc : d.HasCurrent) : d'.HasCurrent := by
  rcases hc with hi | ⟨t, ht, hr⟩
  · exact Or.inl (by rw [h.current, hi, h.idle])
  · exact Or.inr ⟨t, h.current.trans ht, by rw [h.kept (by simp [hr]), hr]⟩

theorem Woke.noneRunning (h : d.Woke d') (hn : d.NoneRunning) : d'.NoneRunning :=
  fun t ht hs => hn t (h.all ▸ ht) (h.running hs)

end Dispatcher

/-- The system invariant: the scheduler represents `d`, its queue and addresses are in
order, and outside a blocking call the current thread runs and the idle thread does not wait. -/
structure Placed (c : Config) (d : Dispatcher) : Prop where
  represents : Represents c.sched d
  queue : d.QueueOk
  handles : ∀ t ∈ c.threadHandles, t < d.limit ∧ t ≠ d.idle
  blocked : ∀ t, c.blocked = some t → t < d.limit
  idle : c.blocked ≠ some d.idle → d.state d.idle ≠ .waiting
  current : c.blocked = none → d.HasCurrent

/-- What holds as well while no step leaves a thread behind. -/
structure Orderly (c : Config) (d : Dispatcher) : Prop where
  accounted : d.Accounted
  running : c.blocked = none → ∀ t ∈ d.all, d.state t = .running → d.current = some t
  blocked : ∀ t, c.blocked = some t → d.NoneRunning ∧ d.current = some d.idle

variable {c c' : Config} {d : Dispatcher} {t : Ptr}

/-- Outside blocking calls the two invariants settle the dispatcher. -/
theorem Placed.settled (h : Placed c d) (ho : Orderly c d) (hb : c.blocked = none) : d.Settled :=
  ⟨h.queue, ho.accounted, ho.running hb, h.current hb⟩

/-- A settled dispatcher is orderly. -/
theorem Dispatcher.Settled.orderly (h : d.Settled) (hb : c.blocked = none) : Orderly c d :=
  ⟨h.accounted, fun _ => h.running, fun t ht => by simp [hb] at ht⟩

/-- A step that changes nothing the dispatcher sees. -/
theorem Placed.of_same {s : WboxScheduler} (h : Placed c d) (hs : SameOutline c.sched s) :
    Placed (c.withSched s) d :=
  ⟨h.represents.of_same hs, h.queue, h.handles, h.blocked, h.idle, h.current⟩

/-- A step outside blocking calls that hands out no address and changes no handle. -/
theorem Placed.step {s : WboxScheduler} {d' : Dispatcher} (h : Placed c d)
    (hr : Represents s d') (hq : d'.QueueOk) (hidle : d'.idle = d.idle)
    (hlimit : d'.limit = d.limit) (hw : d'.state d.idle ≠ .waiting) (hc : d'.HasCurrent)
    (hb : c.blocked = none) : Placed (c.withSched s) d' where
  represents := hr
  queue := hq
  handles := by
    rw [hidle, hlimit]
    exact h.handles
  blocked := fun t ht => by simp [Config.withSched, hb] at ht
  idle := fun _ => hidle ▸ hw
  current := fun _ => hc

/-- The current thread of an idle-free moment is not queued. -/
theorem Placed.current_not_mem (h : Placed c d) (hb : c.blocked = none)
    (ht : d.current = some t) : t ∉ d.ready := by
  rcases h.current hb with hi | ⟨u, hu, hr⟩
  · have htu : t = d.idle := Option.some.inj (ht.symm.trans hi)
    exact htu ▸ h.queue.idle
  · have htu : t = u := Option.some.inj (ht.symm.trans hu)
    exact h.queue.not_mem (by simp [htu, hr])

/-- A wait that is ended by others keeps both invariants. -/
theorem Placed.woke {s : WboxScheduler} {d' : Dispatcher} (h : Placed c d) (hw : d.Woke d')
    (hr : Represents s d') (hb : c.blocked = none) :
    Placed (c.withSched s) d' ∧ (Orderly c d → Orderly (c.withSched s) d') := by
  have hidle : d'.state d.idle ≠ .waiting := by
    rw [hw.kept (h.idle (by simp [hb]))]
    exact h.idle (by simp [hb])
  refine ⟨h.step hr hw.queue hw.idle hw.limit hidle (hw.hasCurrent (h.current hb)) hb, ?_⟩
  intro ho
  refine ⟨hw.accounted ho.accounted, ?_, fun t ht => by simp [Config.withSched, hb] at ht⟩
  intro _ t ht hs
  rw [hw.current]
  exact ho.running hb t (hw.all ▸ ht) (hw.running hs)

/-- Expired waits are woken. -/
theorem Placed.checkTimeouts {s : WboxScheduler} (h : Placed c d) (hb : c.blocked = none)
    (hs : schedulerCheckTimeouts c.sched = some s) :
    ∃ d', Placed (c.withSched s) d' ∧ (Orderly c d → Orderly (c.withSched s) d') := by
  have hwake : ∀ d' t, d.Woke d' → t ∈ d'.all → d'.state t = .waiting →
      t ∉ d'.ready ∧ d.Woke (d'.wake t) := by
    intro d' t hw ht hst
    refine hw.wake hst ?_
    rintro rfl
    exact h.queue.idleAll (hw.all ▸ ht)
  obtain ⟨d', hr, hw⟩ := h.represents.checkTimeouts hwake (.refl h.queue) hs
  exact ⟨d', h.woke hw hr hb⟩

/-- Waiters of a signaled object are woken. -/
theorem Placed.signal {s : WboxScheduler} {object : Ptr} {type : HandleType} (h : Placed c d)
    (hb : c.blocked = none) (hs : schedulerSignalObject c.sched object type = some s) :
    ∃ d', Placed (c.withSched s) d' ∧ (Orderly c d → Orderly (c.withSched s) d') := by
  have hloop : ∃ d', Represents s d' ∧ d.Woke d' := by
    refine schedulerSignalObject_invariant (R := fun s => ∃ d', Represents s d' ∧ d.Woke d')
      ?_ ⟨d, h.represents, .refl h.queue⟩ hs
    rintro s wb t status s' ⟨d', hr, hw⟩ - hst - hwake
    have hst' : d'.state t = .waiting := hr.state t ▸ hst
    have hti : t ≠ d.idle := by
      rintro rfl
      exact h.idle (by simp [hb]) ((hw.kept (h.idle (by simp [hb]))).symm.trans hst')
    obtain ⟨hq, hw'⟩ := hw.wake hst' hti
    have hobj : Represents { s with objects := consumeWait s object t } d' :=
      hr.of_same (SameOutline.objects s _)
    exact ⟨d'.wake t, hobj.wake hq (wakeThread_woken hwake), hw'⟩
  obtain ⟨d', hr, hw⟩ := hloop
  exact ⟨d', h.woke hw hr hb⟩

/-- A context switch from a state in which only the current place is open. -/
theorem Placed.dispatch {s : WboxScheduler} {d' : Dispatcher} (h : Placed c d)
    (hr : Represents s d'.dispatch) (hq : d'.QueueOk) (hidle : d'.idle = d.idle)
    (hlimit : d'.limit = d.limit) (hw : d'.state d.idle ≠ .waiting) (hb : c.blocked = none) :
    Placed (c.withSched s) d'.dispatch ∧
      (d'.Accounted → d'.NoneRunning → Orderly (c.withSched s) d'.dispatch) := by
  constructor
  · refine h.step hr hq.dispatch (by simp [hidle]) (by simp [hlimit]) ?_
      d'.hasCurrent_dispatch hb
    rcases d'.dispatch_state d.idle with he | ⟨-, he⟩
    · rw [he]
      exact hw
    · simp [he]
  · intro ha hn
    exact (Dispatcher.Settled.of_dispatch hq ha hn).orderly hb

/-- A timer tick, unless it finds the idle thread current and a thread ready. -/
theorem Placed.tick (h : Placed c d) (hb : c.blocked = none)
    (hidle : d.current = some d.idle → d.ready = []) :
    ∃ d', Placed (c.withSched (schedulerTick c.sched)) d' ∧
      (Orderly c d → Orderly (c.withSched (schedulerTick c.sched)) d') := by
  have hw : d.state d.idle ≠ .waiting := h.idle (by simp [hb])
  rcases h.represents.tick fun t => h.current_not_mem hb with hr | ⟨t, ht, hne, hr⟩
  · exact ⟨d, h.step hr h.queue rfl rfl hw (h.current hb) hb, fun ho =>
      (h.settled ho hb).orderly hb⟩
  · have hti : t ≠ d.idle := by
      rintro rfl
      exact hne (hidle ht)
    have hq : (d.wake t).QueueOk :=
      h.queue.wake (h.current_not_mem hb ht) hti (h.queue.currentLimit t ht)
    have hwi : (d.wake t).state d.idle ≠ .waiting := by
      simpa [Dispatcher.wake, Dispatcher.enqueue, Dispatcher.setState, Ne.symm hti] using hw
    obtain ⟨hp, ho⟩ := h.dispatch hr hq rfl rfl hwi hb
    refine ⟨_, hp, fun hord => ho hord.accounted.wake ?_⟩
    -- only the preempted thread was RUNNING, and it is READY now
    intro u hu hs
    by_cases hut : u = t
    · simp [Dispatcher.wake, Dispatcher.enqueue, Dispatcher.setState, hut] at hs
    · have hcur := hord.running hb u hu (by
        simpa [Dispatcher.wake, Dispatcher.enqueue, Dispatcher.setState, hut] using hs)
      exact hut (Option.some.inj (hcur.symm.trans ht))

/-- A blocking call up to its waiting loop. It is orderly when no thread is ready. -/
theorem Placed.blockEnter (h : Placed c d) (hb : c.blocked = none) (ht : d.current = some t)
    (objects : List (Option Ptr)) (waitType : WaitType) (timeout : UInt64) (alertable : Bool) :
    ∃ d', Placed { c with
        sched := schedulerBlockEnter c.sched t objects waitType timeout alertable
        blocked := some t } d' ∧
      (Orderly c d → d.ready = [] → Orderly { c with
        sched := schedulerBlockEnter c.sched t objects waitType timeout alertable
        blocked := some t } d') := by
  have hl := h.queue.currentLimit t ht
  have hq : (d.setState t .waiting).QueueOk := h.queue.setState (h.current_not_mem hb ht) hl
  refine ⟨_, ⟨h.represents.blockEnter t objects waitType timeout alertable, hq.dispatch, ?_, ?_,
    ?_, ?_⟩, ?_⟩
  · simpa using h.handles
  · intro u hu
    rw [Dispatcher.dispatch_limit]
    exact (Option.some.inj hu) ▸ hl
  · intro hne
    rw [Dispatcher.dispatch_idle, Dispatcher.setState_idle] at hne ⊢
    have hti : d.idle ≠ t := fun he => hne (congrArg some he.symm)
    rcases (d.setState t .waiting).dispatch_state d.idle with he | ⟨-, he⟩
    · rw [he, d.setState_of_ne .waiting hti]
      exact h.idle (by simp [hb])
    · simp [he]
  · intro hn
    simp at hn
  · intro ho hr
    have hn : (d.setState t .waiting).NoneRunning := by
      intro u hu hs
      by_cases hut : u = t
      · simp [Dispatcher.setState, hut] at hs
      · have hcur := ho.running hb u hu (by simpa [Dispatcher.setState, hut] using hs)
        exact hut (Option.some.inj (hcur.symm.trans ht))
    have ha : (d.setState t .waiting).Accounted := by
      constructor
      · intro u hu
        by_cases hut : u = t
        · simp [Dispatcher.setState, hut]
        · simpa [Dispatcher.setState, hut] using ho.accounted.live u hu
      · intro u hu hs
        by_cases hut : u = t
        · simp [Dispatcher.setState, hut] at hs
        · exact ho.accounted.queued u hu (by simpa [Dispatcher.setState, hut] using hs)
    refine ⟨ha.dispatch, fun hbn => by simp at hbn, ?_⟩
    intro _ _
    rw [Dispatcher.dispatch_nil (show (d.setState t .waiting).ready = [] from hr)]
    exact ⟨hn, rfl⟩

/-- The rest of a blocking call. -/
theorem Placed.blockFinish {s : WboxScheduler} {status : UInt32} (h : Placed c d)
    (hb : c.blocked = some t) (hs : schedulerBlockFinish c.sched t = some (s, status)) :
    ∃ d', Placed { c with sched := s, blocked := none } d' ∧
      (Orderly c d → Orderly { c with sched := s, blocked := none } d') := by
  have hl := h.blocked t hb
  have hwake : ∀ d' u, d.Woke d' → u ∈ d'.all → d'.state u = .waiting →
      u ∉ d'.ready ∧ d.Woke (d'.wake u) := by
    intro d' u hw hu hst
    refine hw.wake hst ?_
    rintro rfl
    exact h.queue.idleAll (hw.all ▸ hu)
  unfold schedulerBlockFinish at hs
  obtain ⟨a, ha, hret⟩ := Option.bind_eq_some_iff.mp hs
  obtain ⟨d', hw, hrep⟩ := h.represents.blockLoop hwake (.refl h.queue) ha
  have hl' : t < d'.limit := hw.limit ▸ hl
  have hr : Represents s (d'.resume t) := by
    rcases hrep with hrep | hrep
    · obtain ⟨s', st, he, hr⟩ := hrep.blockReturn hw.queue.readyLimit t
      have hss : s' = s := congrArg Prod.fst (Option.some.inj (he.symm.trans hret))
      exact hss ▸ hr
    · obtain ⟨s', st, he, hr⟩ := hrep.blockReturn (hw.queue.setReady hl').readyLimit t
      have hss : s' = s := congrArg Prod.fst (Option.some.inj (he.symm.trans hret))
      rw [d'.resume_setState] at hr
      exact hss ▸ hr
  refine ⟨d'.resume t, ⟨hr, hw.queue.resume hl', ?_, ?_, ?_, ?_⟩, ?_⟩
  · show ∀ u ∈ c.threadHandles, u < d'.limit ∧ u ≠ d'.idle
    rw [hw.limit, hw.idle]
    exact h.handles
  · intro u hu
    simp at hu
  · intro _
    by_cases hti : d'.idle = t
    · simp [Dispatcher.resume, Dispatcher.setState, Dispatcher.dequeue, Dispatcher.setCurrent, hti]
    · have hwi : d'.state d.idle ≠ .waiting := by
        have hd : d.state d.idle ≠ .waiting := h.idle (by
          rw [hb, ← hw.idle]
          exact fun he => hti (Option.some.inj he).symm)
        rw [hw.kept hd]
        exact hd
      rw [← hw.idle] at hwi
      simpa [Dispatcher.resume, Dispatcher.setState, Dispatcher.dequeue, Dispatcher.setCurrent,
        hti] using hwi
  · intro _
    exact Or.inr ⟨t, rfl, by simp [Dispatcher.resume, Dispatcher.setState]⟩
  · intro ho
    exact (Dispatcher.Settled.of_resume hw.queue (hw.accounted ho.accounted)
      (hw.noneRunning (ho.blocked t hb).1) hl').orderly rfl

/-- `scheduler_remove_thread` of a thread with the state word `st`, and the second switch of
`NtTerminateThread`. -/
theorem Placed.remove {st : ThreadState} {s₀ s : WboxScheduler} (h : Placed c d)
    (hb : c.blocked = none) (hl : t < d.limit) (hr : Represents s₀ (d.setState t st))
    (hst : t = d.idle → st ≠ .waiting) (hs : schedulerRemoveThread s₀ t = some s) :
    ∃ d', Placed (c.withSched s) d' ∧ (Orderly c d → Orderly (c.withSched s) d') ∧
      (d'.current = some t → d.current = some t ∧ t = d.idle ∧ t ∉ d'.all) := by
  have hq : (d.remove t st).QueueOk := h.queue.remove hl
  have hidle : (d.remove t st).state d.idle ≠ .waiting := by
    by_cases hti : d.idle = t
    · simpa [Dispatcher.remove, Dispatcher.dequeue, Dispatcher.forget, Dispatcher.setState, hti]
        using hst hti.symm
    · simpa [Dispatcher.remove, Dispatcher.dequeue, Dispatcher.forget, Dispatcher.setState, hti]
        using h.idle (by simp [hb])
  have hnot : t ∉ (d.remove t st).all := fun hm => (h.queue.mem_remove hm).1 rfl
  obtain ⟨s', hs', hr'⟩ := hr.removeThread h.queue.allLimit h.queue.readyLimit
  have hss : s' = s := Option.some.inj (hs'.symm.trans hs)
  subst hss
  by_cases hc : d.current = some t
  · rw [if_pos hc] at hr'
    have hq' : ((d.remove t st).setCurrent none).QueueOk := hq.setCurrent (by simp)
    obtain ⟨hp, ho⟩ := h.dispatch hr' hq' rfl rfl hidle hb
    refine ⟨_, hp, fun hord => ho ?_ ?_, ?_⟩
    · have ha : (d.remove t st).Accounted := h.queue.accounted_remove hord.accounted
      exact ⟨ha.live, ha.queued⟩
    · intro u hu hs
      obtain ⟨hut, hm, he⟩ := h.queue.mem_remove hu
      have hrun := hord.running hb u hm (he ▸ hs)
      exact hut (Option.some.inj (hrun.symm.trans hc))
    · intro hcur
      have hmem : t ∉ ((d.remove t st).setCurrent none).ready := by
        show t ∉ d.ready.erase t
        exact fun hm => (h.queue.nodup.mem_erase_iff.mp hm).1 rfl
      refine ⟨hc, ?_, by rwa [Dispatcher.dispatch_all]⟩
      cases hrd : ((d.remove t st).setCurrent none).ready with
      | nil =>
        rw [Dispatcher.dispatch_nil hrd] at hcur
        exact (Option.some.inj hcur).symm
      | cons u rest =>
        rw [Dispatcher.dispatch_cons hrd] at hcur
        have hut : u = t := Option.some.inj hcur
        exact absurd (by simp [hrd, hut]) hmem
  · rw [if_neg hc] at hr'
    refine ⟨_, h.step hr' hq rfl rfl hidle ?_ hb, ?_, fun hcur => absurd hcur hc⟩
    · rcases h.current hb with hi | ⟨u, hu, hrun⟩
      · exact Or.inl hi
      · have hut : u ≠ t := by
          rintro rfl
          exact hc hu
        exact Or.inr ⟨u, hu, by simpa [Dispatcher.remove, Dispatcher.dequeue,
          Dispatcher.forget, Dispatcher.setState, hut] using hrun⟩
    · intro hord
      refine ⟨h.queue.accounted_remove hord.accounted, ?_, fun u hu => by
        simp [Config.withSched, hb] at hu⟩
      intro _ u hu hs
      obtain ⟨-, hm, he⟩ := h.queue.mem_remove hu
      exact hord.running hb u hm (he ▸ hs)

/-- `NtTerminateThread`. -/
theorem Placed.terminate {s : WboxScheduler} {exitStatus : UInt32} (h : Placed c d)
    (hb : c.blocked = none) (hl : t < d.limit)
    (hs : ntTerminateThread c.sched t exitStatus = some s) :
    ∃ d', Placed (c.withSched s) d' ∧ (Orderly c d → Orderly (c.withSched s) d') := by
  have hr := h.represents.threadTerminate t exitStatus
  obtain ⟨a, ha, rfl⟩ := Option.map_eq_some_iff.mp hs
  obtain ⟨d', hp, ho, hcur⟩ := h.remove hb hl hr (by simp) ha
  unfold switchIfCurrent
  split
  · next hc =>
    have hct : d'.current = some t := hp.represents.current ▸ hc
    obtain ⟨-, -, hnot⟩ := hcur hct
    obtain ⟨hp', ho'⟩ := hp.dispatch (s := schedulerSwitch a) hp.represents.switch hp.queue rfl rfl
      (hp.idle (by simp [Config.withSched, hb])) hb
    refine ⟨_, hp', fun hord => ho' (ho hord).accounted ?_⟩
    -- whatever is RUNNING is current, and the current thread has been removed
    intro u hu hsu
    have hcu := (ho hord).running hb u hu hsu
    have hut : u = t := Option.some.inj (hcu.symm.trans hct)
    exact hnot (hut ▸ hu)
  · exact ⟨d', hp, ho⟩

/-- `scheduler_remove_thread` called on its own. -/
theorem Placed.removeThread {s : WboxScheduler} (h : Placed c d) (hb : c.blocked = none)
    (hl : t < d.limit) (hs : schedulerRemoveThread c.sched t = some s) :
    ∃ d', Placed (c.withSched s) d' ∧ (Orderly c d → Orderly (c.withSched s) d') := by
  have he : d.setState t (d.state t) = d := by simp [Dispatcher.setState]
  have hw : t = d.idle → d.state t ≠ .waiting := by
    rintro rfl
    exact h.idle (by simp [hb])
  obtain ⟨d', hp, ho, -⟩ := h.remove hb hl (he.symm ▸ h.represents) hw hs
  exact ⟨d', hp, ho⟩

/-- `NtResumeThread`. -/
theorem Placed.resumeThread (h : Placed c d) (hb : c.blocked = none) (hl : t < d.limit)
    (hi : t ≠ d.idle) : ∃ d', Placed (c.withSched (ntResumeThread c.sched t)) d' ∧
      (Orderly c d → Orderly (c.withSched (ntResumeThread c.sched t)) d') := by
  have hw : d.state d.idle ≠ .waiting := h.idle (by simp [hb])
  unfold ntResumeThread
  split
  · next hst =>
    have hst' : d.state t = .initialized := h.represents.state t ▸ hst
    have hm : t ∉ d.ready := h.queue.not_mem (by simp [hst'])
    have hr : Represents (schedulerAddReady (c.sched.setState t .ready) t) (d.wake t) :=
      (h.represents.setState t .ready).addReady hm
    refine ⟨d.wake t, h.step hr (h.queue.wake hm hi hl) rfl rfl ?_ ?_ hb, ?_⟩
    · simpa [Dispatcher.wake, Dispatcher.enqueue, Dispatcher.setState, Ne.symm hi] using hw
    · rcases h.current hb with hcur | ⟨u, hu, hrun⟩
      · exact Or.inl hcur
      · have hut : u ≠ t := by
          rintro rfl
          simp [hst'] at hrun
        exact Or.inr ⟨u, hu, by simpa [Dispatcher.wake, Dispatcher.enqueue, Dispatcher.setState,
          hut] using hrun⟩
    · intro hord
      refine ⟨hord.accounted.wake, ?_, fun u hu => by simp [Config.withSched, hb] at hu⟩
      intro _ u hu hs
      by_cases hut : u = t
      · simp [Dispatcher.wake, Dispatcher.enqueue, Dispatcher.setState, hut] at hs
      · exact hord.running hb u hu (by
          simpa [Dispatcher.wake, Dispatcher.enqueue, Dispatcher.setState, hut] using hs)
  · exact ⟨d, h.step h.represents h.queue rfl rfl hw (h.current hb) hb, fun hord =>
      (h.settled hord hb).orderly hb⟩

/-- Parking a thread that is not queued. -/
private theorem Accounted.setInitialized {d : Dispatcher} (h : d.Accounted) (t : Ptr) :
    (d.setState t .initialized).Accounted := by
  constructor
  · intro u hu
    by_cases hut : u = t
    · simp [hut]
    · rw [d.setState_of_ne _ hut]
      exact h.live u hu
  · intro u hu hs
    by_cases hut : u = t
    · simp [hut] at hs
    · rw [d.setState_of_ne _ hut] at hs
      exact h.queued u hu hs

/-- `NtSuspendThread`. -/
theorem Placed.suspendThread {s : WboxScheduler} (h : Placed c d) (hb : c.blocked = none)
    (hl : t < d.limit) (hi : t ≠ d.idle) (hs : ntSuspendThread c.sched t = some s) :
    ∃ d', Placed (c.withSched s) d' ∧ (Orderly c d → Orderly (c.withSched s) d') := by
  have hw : d.state d.idle ≠ .waiting := h.idle (by simp [hb])
  have hst : (c.sched.threads t).state = d.state t := h.represents.state t
  have hcurst : d.current = some t → d.state t = .running := by
    intro hc
    rcases h.current hb with hcur | ⟨u, hu, hrun⟩
    · exact absurd (Option.some.inj (hc.symm.trans hcur)) hi
    · exact (Option.some.inj (hc.symm.trans hu)) ▸ hrun
  have hinit : (d.setState t .initialized).state d.idle ≠ .waiting := by
    rw [d.setState_of_ne _ (Ne.symm hi)]
    exact hw
  by_cases hready : d.state t = .ready
  · -- a READY thread leaves the queue; it is not current
    have hc : d.current ≠ some t := fun hc => by simp [hcurst hc] at hready
    obtain ⟨a, ha, hra⟩ := h.represents.removeReady h.queue.readyLimit t
    have hast : (a.threads t).state = .ready := (hra.state t).trans hready
    have hr := hra.setState t .initialized
    have he : s = a.setState t .initialized := by
      have hac : (a.setState t .initialized).currentThread ≠ some t := by
        rw [hr.current]
        exact hc
      simp only [ntSuspendThread, unqueueReady, hst, hready, if_true, ha, Option.map_some,
        parkRunnable, hast, true_or, switchIfCurrent, if_neg hac] at hs
      exact (Option.some.inj hs).symm
    rw [he]
    have hq : ((d.dequeue t).setState t .initialized).QueueOk :=
      (h.queue.dequeue t).setState (fun hm => (h.queue.nodup.mem_erase_iff.mp hm).1 rfl) hl
    refine ⟨_, h.step hr hq rfl rfl hinit ?_ hb, ?_⟩
    · rcases h.current hb with hcur | ⟨u, hu, hrun⟩
      · exact Or.inl hcur
      · have hut : u ≠ t := by
          rintro rfl
          exact hc hu
        exact Or.inr ⟨u, hu, by rw [Dispatcher.setState_of_ne _ _ hut]; exact hrun⟩
    · intro hord
      refine ⟨⟨?_, ?_⟩, ?_, fun u hu => by simp [Config.withSched, hb] at hu⟩
      · exact (Accounted.setInitialized hord.accounted t).live
      · intro u hu hs
        have hut : u ≠ t := by
          rintro rfl
          simp at hs
        have hm := (Accounted.setInitialized hord.accounted t).queued u hu hs
        exact h.queue.nodup.mem_erase_iff.mpr ⟨hut, hm⟩
      · intro _ u hu hs
        have hut : u ≠ t := by
          rintro rfl
          simp at hs
        rw [Dispatcher.setState_of_ne _ _ hut] at hs
        exact hord.running hb u hu hs
  · by_cases hrun : d.state t = .running
    · -- a RUNNING thread is parked, and if it is current another one runs
      have hq : (d.setState t .initialized).QueueOk :=
        h.queue.setState (h.queue.not_mem hready) hl
      have hr := h.represents.setState t .initialized
      have hac : (c.sched.setState t .initialized).currentThread = d.current := hr.current
      have hacc : Orderly c d → (d.setState t .initialized).Accounted := fun hord =>
        Accounted.setInitialized hord.accounted t
      have hrunning : Orderly c d → ∀ u ∈ d.all, (d.setState t .initialized).state u = .running →
          u ≠ t ∧ d.current = some u := by
        intro hord u hu hs
        have hut : u ≠ t := by
          rintro rfl
          simp at hs
        rw [d.setState_of_ne _ hut] at hs
        exact ⟨hut, hord.running hb u hu hs⟩
      by_cases hc : d.current = some t
      · have he : s = schedulerSwitch (c.sched.setState t .initialized) := by
          simp only [ntSuspendThread, unqueueReady, hst, hrun, reduceCtorEq, if_false,
            Option.map_some, parkRunnable, or_true, if_true, switchIfCurrent, hac, hc] at hs
          exact (Option.some.inj hs).symm
        rw [he]
        obtain ⟨hp, ho⟩ := h.dispatch hr.switch hq rfl rfl hinit hb
        refine ⟨_, hp, fun hord => ho (hacc hord) ?_⟩
        intro u hu hs
        obtain ⟨hut, hcu⟩ := hrunning hord u hu hs
        exact hut (Option.some.inj (hcu.symm.trans hc))
      · have he : s = c.sched.setState t .initialized := by
          simp only [ntSuspendThread, unqueueReady, hst, hrun, reduceCtorEq, if_false,
            Option.map_some, parkRunnable, or_true, if_true, switchIfCurrent, hac, hc] at hs
          exact (Option.some.inj hs).symm
        rw [he]
        refine ⟨_, h.step hr hq rfl rfl hinit ?_ hb, ?_⟩
        · rcases h.current hb with hcur | ⟨u, hu, hru⟩
          · exact Or.inl hcur
          · have hut : u ≠ t := by
              rintro rfl
              exact hc hu
            exact Or.inr ⟨u, hu, by rw [d.setState_of_ne _ hut]; exact hru⟩
        · intro hord
          exact ⟨hacc hord, fun _ u hu hs => (hrunning hord u hu hs).2, fun u hu => by
            simp [Config.withSched, hb] at hu⟩
    · -- any other thread is left alone
      have hc : c.sched.currentThread ≠ some t := by
        rw [h.represents.current]
        exact fun hc => hrun (hcurst hc)
      have he : s = c.sched := by
        simp only [ntSuspendThread, unqueueReady, hst, hready, hrun, if_false, Option.map_some,
          parkRunnable, or_self, switchIfCurrent, hc] at hs
        exact (Option.some.inj hs).symm
      rw [he]
      exact ⟨d, h.step h.represents h.queue rfl rfl hw (h.current hb) hb, fun hord =>
        (h.settled hord hb).orderly hb⟩

/-- `thread_create` hands out a fresh address. -/
theorem Represents.create {s : WboxScheduler} (h : Represents s d)
    (hall : ∀ u ∈ d.all, u < d.limit) (hready : ∀ u ∈ d.ready, u < d.limit)
    (startAddress stackBase tebAddr : UInt32) (suspended : Bool) :
    Represents (threadCreate s startAddress stackBase tebAddr suspended).1
      ((d.allocate 1).setState d.limit (if suspended then .initialized else .ready)) := by
  have hne : ∀ u, u < d.limit → u ≠ s.heapNext := by
    intro u hu
    rw [h.limit]
    omega
  refine ⟨h.all.congr ?_, ⟨h.ready.chain.congr ?_, h.ready.tail⟩, h.current, h.idle, ?_, ?_⟩
  · intro u hu
    simp [WboxScheduler.threadLink, threadCreate, hne u (hall u hu)]
  · intro u hu
    simp [WboxScheduler.readyLink, threadCreate, hne u (hready u hu)]
  · intro u
    rw [← h.limit]
    by_cases hu : u = s.heapNext
    · subst hu
      cases suspended <;> simp [threadCreate]
    · rw [Dispatcher.setState_of_ne _ _ hu]
      simpa [threadCreate, hu, Dispatcher.allocate] using h.state u
  · exact congrArg (· + 1) h.limit

/-- A new thread, linked, and queued unless it starts suspended. -/
theorem Placed.createThread (h : Placed c d) (hb : c.blocked = none)
    (startAddress stackBase tebAddr : UInt32) (suspended : Bool) :
    ∃ d', Placed { c with
        sched := schedulerAddThread
          (threadCreate c.sched startAddress stackBase tebAddr suspended).1 c.sched.heapNext
        threadHandles := c.threadHandles ++ [c.sched.heapNext] } d' ∧
      (Orderly c d → Orderly { c with
        sched := schedulerAddThread
          (threadCreate c.sched startAddress stackBase tebAddr suspended).1 c.sched.heapNext
        threadHandles := c.threadHandles ++ [c.sched.heapNext] } d') := by
  have hlim : c.sched.heapNext = d.limit := h.represents.limit
  rw [hlim]
  have hall : d.limit ∉ d.all := fun hm => absurd (h.queue.allLimit _ hm) (Nat.lt_irrefl _)
  have hrd : d.limit ∉ d.ready := fun hm => absurd (h.queue.readyLimit _ hm) (Nat.lt_irrefl _)
  have hid : d.limit ≠ d.idle := Nat.ne_of_gt h.queue.idleLimit
  have hcr : d.current ≠ some d.limit := fun hc =>
    absurd (h.queue.currentLimit _ hc) (Nat.lt_irrefl _)
  have hlt : d.limit < (d.allocate 1).limit := Nat.lt_succ_self _
  have hw : d.state d.idle ≠ .waiting := h.idle (by simp [hb])
  -- whatever state the new thread starts in, the others keep theirs
  have hcur : ∀ st, ((d.allocate 1).setState d.limit st).HasCurrent := by
    intro st
    rcases h.current hb with hi | ⟨u, hu, hrun⟩
    · exact Or.inl hi
    · have hul : u ≠ d.limit := by
        rintro rfl
        exact hcr hu
      exact Or.inr ⟨u, hu, by rw [Dispatcher.setState_of_ne _ _ hul]; exact hrun⟩
  have hold : ∀ st u, u ∈ d.all → ((d.allocate 1).setState d.limit st).state u = d.state u := by
    intro st u hu
    rw [Dispatcher.setState_of_ne _ _ (Nat.ne_of_lt (h.queue.allLimit u hu))]
    rfl
  have hhandles : ∀ u ∈ c.threadHandles ++ [d.limit], u < d.limit + 1 ∧ u ≠ d.idle := by
    intro u hu
    rcases List.mem_append.mp hu with hu | hu
    · exact ⟨Nat.lt_succ_of_lt (h.handles u hu).1, (h.handles u hu).2⟩
    · rw [List.mem_singleton.mp hu]
      exact ⟨Nat.lt_succ_self _, hid⟩
  have hq : ∀ st, ((d.allocate 1).setState d.limit st).QueueOk := fun st =>
    (h.queue.allocate 1).setState hrd hlt
  have hr := h.represents.create h.queue.allLimit h.queue.readyLimit startAddress stackBase
    tebAddr suspended
  have hra := hr.addThread hall hrd
  cases suspended with
  | true =>
    rw [if_neg (by simp)] at hra
    refine ⟨_, ⟨hra, (hq _).add hall hid hlt, hhandles, fun u hu => by simp [hb] at hu, fun _ => ?_,
      fun _ => hcur _⟩, ?_⟩
    · show ((d.allocate 1).setState d.limit _).state d.idle ≠ .waiting
      rw [Dispatcher.setState_of_ne _ _ (Ne.symm hid)]
      exact hw
    · intro hord
      refine ⟨⟨?_, ?_⟩, ?_, fun u hu => by simp [hb] at hu⟩
      · intro u hu
        rcases List.mem_cons.mp hu with rfl | hu
        · simp [Dispatcher.add, Dispatcher.setState]
        · exact (hold _ u hu).symm ▸ hord.accounted.live u hu
      · intro u hu hs
        rcases List.mem_cons.mp hu with rfl | hu
        · simp [Dispatcher.add, Dispatcher.setState] at hs
        · exact hord.accounted.queued u hu ((hold _ u hu) ▸ hs)
      · intro _ u hu hs
        rcases List.mem_cons.mp hu with rfl | hu
        · simp [Dispatcher.add, Dispatcher.setState] at hs
        · exact hord.running hb u hu ((hold _ u hu) ▸ hs)
  | false =>
    rw [if_pos (by simp)] at hra
    have hqa := ((hq .ready).add hall hid hlt).enqueue hrd
      (by simp [Dispatcher.add, Dispatcher.setState]) hid hlt
    refine ⟨_, ⟨hra, hqa, hhandles, fun u hu => by simp [hb] at hu, fun _ => ?_,
      fun _ => hcur _⟩, ?_⟩
    · show ((d.allocate 1).setState d.limit _).state d.idle ≠ .waiting
      rw [Dispatcher.setState_of_ne _ _ (Ne.symm hid)]
      exact hw
    · intro hord
      refine ⟨⟨?_, ?_⟩, ?_, fun u hu => by simp [hb] at hu⟩
      · intro u hu
        rcases List.mem_cons.mp hu with rfl | hu
        · simp [Dispatcher.add, Dispatcher.enqueue, Dispatcher.setState]
        · exact (hold _ u hu).symm ▸ hord.accounted.live u hu
      · intro u hu hs
        rcases List.mem_cons.mp hu with rfl | hu
        · simp [Dispatcher.enqueue]
        · exact List.mem_append_left _ (hord.accounted.queued u hu ((hold _ u hu) ▸ hs))
      · intro _ u hu hs
        rcases List.mem_cons.mp hu with rfl | hu
        · simp [Dispatcher.add, Dispatcher.enqueue, Dispatcher.setState] at hs
        · exact hord.running hb u hu ((hold _ u hu) ▸ hs)

/-- The steps that leave no thread behind: a tick with the idle thread current finds no
ready thread, a bare switch does not abandon a RUNNING thread, and a call that has to wait
finds no ready thread. -/
def KeepsPlace (c : Config) : Event → Prop
  | .tick => c.sched.currentThread = some c.sched.idleThread → c.sched.readyHead = none
  | .switch => ∀ t all, c.sched.currentThread = some t →
      Chain c.sched.threadLink c.sched.allThreads all → t ∈ all →
        (c.sched.threads t).state ≠ .running
  | .blockEnter objects waitType timeout _ => ∀ t,
      schedulerBlockEntry c.sched objects waitType timeout = .wait t → c.sched.readyHead = none
  | _ => True

/-- The tick that would queue the idle thread. -/
def IdleTick (c : Config) (e : Event) : Prop :=
  match e with
  | .tick => c.sched.currentThread = some c.sched.idleThread ∧ c.sched.readyHead ≠ none
  | _ => False

/-- The entry tests of a blocking call change objects only. -/
theorem schedulerBlockEntry_done {s s' : WboxScheduler} {objects : List (Option Ptr)}
    {waitType : WaitType} {timeout : UInt64} {status : UInt32}
    (h : schedulerBlockEntry s objects waitType timeout = .done s' status) :
    ∃ objs, s' = { s with objects := objs } := by
  unfold schedulerBlockEntry at h
  split at h
  · injection h with hs
    exact ⟨s.objects, hs.symm⟩
  · split at h
    · injection h with hs
      exact ⟨s.objects, hs.symm⟩
    · split at h
      · injection h with hs
        exact ⟨_, hs.symm⟩
      · split at h
        · injection h with hs
          exact ⟨s.objects, hs.symm⟩
        · cases h

/-- The entry tests let exactly these calls wait. -/
theorem schedulerBlockEntry_wait_iff {s : WboxScheduler} {os : List (Option Ptr)}
    {waitType : WaitType} {timeout : UInt64} :
    schedulerBlockEntry s os waitType timeout = .wait t ↔
      s.currentThread = some t ∧ os.length ≤ threadWaitObjects ∧
        satisfyNow s.objects (s.threads t).threadId waitType os = none ∧ timeout ≠ 0 := by
  unfold schedulerBlockEntry
  cases hc : s.currentThread with
  | none => simp
  | some u =>
    by_cases hlen : os.length > threadWaitObjects
    · simp [hlen, Nat.not_le.mpr hlen]
    · cases hnow : satisfyNow s.objects (s.threads u).threadId waitType os with
      | some r =>
        simp only [hlen, if_false, hnow, reduceCtorEq, Option.some.injEq, false_iff]
        rintro ⟨rfl, -, hn, -⟩
        rw [hnow] at hn
        cases hn
      | none =>
        by_cases h0 : timeout = 0
        · simp [hlen, hnow, h0]
        · simp only [hlen, if_false, hnow, h0, BlockEntry.wait.injEq, Option.some.injEq]
          constructor
          · rintro rfl
            exact ⟨rfl, Nat.not_lt.mp hlen, hnow, h0⟩
          · exact And.left

/-- Only the current thread waits. -/
theorem schedulerBlockEntry_wait {s : WboxScheduler} {objects : List (Option Ptr)}
    {waitType : WaitType} {timeout : UInt64}
    (h : schedulerBlockEntry s objects waitType timeout = .wait t) :
    s.currentThread = some t ∧ timeout ≠ 0 ∧ objects.length ≤ threadWaitObjects := by
  obtain ⟨ht, hlen, -, h0⟩ := schedulerBlockEntry_wait_iff.mp h
  exact ⟨ht, h0, hlen⟩

/-- A handle names a thread below the limit that is not the idle thread. -/
theorem Placed.handle {i : Nat} (h : Placed c d) (ht : c.thread? (some i) = some t) :
    t < d.limit ∧ t ≠ d.idle :=
  h.handles t (List.mem_of_getElem? ht)

/-- A thread argument names a thread below the limit. -/
theorem Placed.arg {arg : ThreadArg} (h : Placed c d) (ht : c.thread? arg = some t) :
    t < d.limit := by
  cases arg with
  | none => exact h.queue.currentLimit t (h.represents.current ▸ ht)
  | some i => exact (h.handle ht).1

/-- What a step of the host outside blocking calls keeps. -/
theorem Placed.stepIdle {e : Event} (h : Placed c d) (hb : c.blocked = none)
    (hi : ¬ IdleTick c e) (hs : c.stepIdle e = some c') :
    ∃ d', Placed c' d' ∧ (Orderly c d → KeepsPlace c e → Orderly c' d') := by
  have hsame : ∀ s, SameOutline c.sched s →
      ∃ d', Placed (c.withSched s) d' ∧
        (Orderly c d → KeepsPlace c e → Orderly (c.withSched s) d') := fun s hso =>
    ⟨d, h.of_same hso, fun ho _ => (h.settled ho hb).orderly hb⟩
  have hself : ∃ d', Placed c d' ∧ (Orderly c d → KeepsPlace c e → Orderly c d') :=
    ⟨d, h, fun ho _ => ho⟩
  have hforget : ∀ {c' : Config},
      (∃ d', Placed c' d' ∧ (Orderly c d → Orderly c' d')) →
      ∃ d', Placed c' d' ∧ (Orderly c d → KeepsPlace c e → Orderly c' d') :=
    fun ⟨d', hp, ho⟩ => ⟨d', hp, fun hord _ => ho hord⟩
  cases e with
  | exec cpu =>
    simp only [Config.stepIdle] at hs
    split at hs
    · split at hs
      · cases hs
      · rw [← Option.some.inj hs]
        exact hsame _ ⟨fun _ => rfl, fun _ => rfl, fun _ => rfl, rfl, rfl, rfl, rfl, rfl, rfl⟩
    · cases hs
  | tick =>
    rw [← Option.some.inj hs]
    refine hforget (h.tick hb ?_)
    intro hc
    by_contra hne
    refine hi ⟨?_, fun hr => hne (h.represents.ready.head_none.mp hr)⟩
    rw [h.represents.current, h.represents.idle]
    exact hc
  | switch =>
    rw [← Option.some.inj hs]
    obtain ⟨hp, ho⟩ := h.dispatch (s := schedulerSwitch c.sched) h.represents.switch h.queue rfl rfl
      (h.idle (by simp [hb])) hb
    refine ⟨_, hp, fun hord hk => ho hord.accounted ?_⟩
    intro u hu hsu
    have hcu := hord.running hb u hu hsu
    exact hk u d.all (h.represents.current ▸ hcu) h.represents.all hu
      ((h.represents.state u).trans hsu)
  | checkTimeouts =>
    obtain ⟨s, hc, rfl⟩ := Option.map_eq_some_iff.mp hs
    exact hforget (h.checkTimeouts hb hc)
  | blockEnter objects waitType timeout alertable =>
    simp only [Config.stepIdle] at hs
    split at hs
    · next s status hd =>
      obtain ⟨objs, rfl⟩ := schedulerBlockEntry_done hd
      rw [← Option.some.inj hs]
      exact hsame _ (SameOutline.objects _ objs)
    · next t hw =>
      obtain ⟨ht, -, -⟩ := schedulerBlockEntry_wait hw
      rw [h.represents.current] at ht
      obtain ⟨d', hp, ho⟩ := h.blockEnter hb ht objects waitType timeout alertable
      rw [← Option.some.inj hs]
      refine ⟨d', hp, fun hord hk => ho hord ?_⟩
      exact h.represents.ready.head_none.mp (hk t hw)
  | blockFinish => cases hs
  | signal object type =>
    obtain ⟨s, hc, rfl⟩ := Option.map_eq_some_iff.mp hs
    exact hforget (h.signal hb hc)
  | createThread startAddress stackBase tebAddr suspended =>
    rw [← Option.some.inj hs]
    exact hforget (h.createThread hb startAddress stackBase tebAddr suspended)
  | removeThread arg =>
    simp only [Config.stepIdle] at hs
    split at hs
    · rw [← Option.some.inj hs]
      exact hself
    · next t ht =>
      obtain ⟨s, hc, rfl⟩ := Option.map_eq_some_iff.mp hs
      exact hforget (h.removeThread hb (h.arg ht) hc)
  | terminateThread arg exitStatus =>
    simp only [Config.stepIdle] at hs
    split at hs
    · rw [← Option.some.inj hs]
      exact hself
    · next t ht =>
      obtain ⟨s, hc, rfl⟩ := Option.map_eq_some_iff.mp hs
      exact hforget (h.terminate hb (h.arg ht) hc)
  | suspendThread handle =>
    simp only [Config.stepIdle] at hs
    split at hs
    · rw [← Option.some.inj hs]
      exact hself
    · next t ht =>
      obtain ⟨s, hc, rfl⟩ := Option.map_eq_some_iff.mp hs
      exact hforget (h.suspendThread hb (h.handle ht).1 (h.handle ht).2 hc)
  | resumeThread handle =>
    simp only [Config.stepIdle] at hs
    split at hs
    · rw [← Option.some.inj hs]
      exact hself
    · next t ht =>
      rw [← Option.some.inj hs]
      exact hforget (h.resumeThread hb (h.handle ht).1 (h.handle ht).2)
  | createObject obj =>
    rw [← Option.some.inj hs]
    have hr := h.represents
    refine ⟨d.allocate 1, ⟨⟨hr.all, ⟨hr.ready.chain, hr.ready.tail⟩, hr.current, hr.idle, hr.state,
      congrArg (· + 1) hr.limit⟩, h.queue.allocate 1, ?_, fun u hu => ?_, h.idle, h.current⟩, ?_⟩
    · exact fun u hu => ⟨Nat.lt_succ_of_lt (h.handles u hu).1, (h.handles u hu).2⟩
    · exact Nat.lt_succ_of_lt (h.blocked u hu)
    · intro ho _
      exact ⟨⟨ho.accounted.live, ho.accounted.queued⟩, ho.running, ho.blocked⟩
  | writeObject object obj =>
    rw [← Option.some.inj hs]
    exact hsame _ (SameOutline.objects _ _)

/-- What a step of the host keeps. -/
theorem Placed.config_step {e : Event} (h : Placed c d) (hi : ¬ IdleTick c e)
    (hs : c.step e = some c') :
    ∃ d', Placed c' d' ∧ (Orderly c d → KeepsPlace c e → Orderly c' d') := by
  unfold Config.step at hs
  split at hs
  · next hb => exact h.stepIdle hb hi hs
  · next t hb =>
    split at hs
    · obtain ⟨⟨s, status⟩, hf, rfl⟩ := Option.map_eq_some_iff.mp hs
      obtain ⟨d', hp, ho⟩ := h.blockFinish hb hf
      exact ⟨d', hp, fun hord _ => ho hord⟩
    · cases hs

/-- The dispatcher `scheduler_init` sets up: the main thread runs. -/
def bootDispatcher : Dispatcher where
  all := [1]
  ready := []
  current := some 1
  idle := 0
  state := Function.update (Function.update (fun _ => .initialized) 0 .ready) 1 .running
  limit := 2

theorem placed_boot (cpu : CpuState) (clock : Nat → UInt64) :
    Placed (boot cpu clock) bootDispatcher := by
  have hst : ∀ t, ((boot cpu clock).sched.threads t).state = bootDispatcher.state t := by
    intro t
    simp only [boot, schedulerInit, bootDispatcher]
    by_cases h1 : t = 1
    · subst h1
      simp [threadCreateMain]
    · by_cases h0 : t = 0
      · subst h0
        simp [threadCreateIdle]
      · simp [h0, h1, WboxThread.zero]
  refine ⟨⟨⟨rfl, ?_⟩, ⟨rfl, rfl⟩, rfl, rfl, hst, rfl⟩, ?_, ?_, ?_, ?_, ?_⟩
  · simp [WboxScheduler.threadLink, boot, schedulerInit, threadCreateMain, WboxThread.zero]
  · constructor
    · exact List.nodup_nil
    · simp [bootDispatcher]
    · simp [bootDispatcher]
    · simp [bootDispatcher]
    · simp [bootDispatcher]
    · simp [bootDispatcher]
    · simp [bootDispatcher]
    · simp [bootDispatcher]
    · simp [bootDispatcher]
    · intro t ht
      have h1 : t ≠ 1 := by
        rintro rfl
        simp [bootDispatcher] at ht
      have h0 : t ≠ 0 := by
        rintro rfl
        simp [bootDispatcher] at ht
      simp [bootDispatcher, h0, h1]
  · simp [boot]
  · simp [boot]
  · intro _
    simp [bootDispatcher]
  · intro _
    exact Or.inr ⟨1, rfl, by simp [bootDispatcher]⟩

theorem orderly_boot (cpu : CpuState) (clock : Nat → UInt64) :
    Orderly (boot cpu clock) bootDispatcher := by
  refine ⟨⟨?_, ?_⟩, ?_, ?_⟩
  · simp [bootDispatcher]
  · simp [bootDispatcher]
  · simp [bootDispatcher]
  · simp [boot]

end Wbox.Thread
