import Wbox.Thread.StaleBlocks

/-!
# What the scheduler refers to

The threads the scheduler leads to: those of its lists, the current and the idle one. Its
operations lead to no thread they did not lead to before (`Moved`).
-/

namespace Wbox.Thread

open Wbox.Cpu Wbox.Nt Wbox.Lib

namespace Dispatcher

/-- The dispatcher leads to the thread. -/
def Knows (d : Dispatcher) (p : Ptr) : Prop :=
  p ∈ d.all ∨ p ∈ d.ready ∨ d.current = some p ∨ d.idle = p

/-- Between calls neither the current thread nor the idle thread is WAITING, and the current one
is not queued. -/
structure Steady (d : Dispatcher) : Prop where
  listed : d.Listed
  current : ∀ t, d.current = some t → t < d.limit ∧ d.state t ≠ .waiting ∧ t ∉ d.ready
  idleLimit : d.idle < d.limit
  idle : d.state d.idle ≠ .waiting

/-- `d'` comes from `d` by wake-ups and switches: the same threads, and no new one is known. -/
structure Within (d d' : Dispatcher) : Prop where
  listed : d'.Listed
  all : d'.all = d.all
  limit : d'.limit = d.limit
  idle : d'.idle = d.idle
  known : ∀ p, d'.Knows p → d.Knows p

variable {d d' d'' : Dispatcher} {t p : Ptr} {st : ThreadState}

theorem Within.refl (h : d.Listed) : d.Within d := ⟨h, rfl, rfl, rfl, fun _ hp => hp⟩

theorem Within.trans (h : d.Within d') (h' : d'.Within d'') : d.Within d'' where
  listed := h'.listed
  all := h'.all.trans h.all
  limit := h'.limit.trans h.limit
  idle := h'.idle.trans h.idle
  known p hp := h.known p (h'.known p hp)

theorem Within.setState (h : d.Listed) (ht : st ≠ .waiting ∨ t ∉ d.ready) :
    d.Within (d.setState t st) :=
  ⟨h.setState ht, rfl, rfl, rfl, fun _ hp => hp⟩

/-- A wake-up of a known thread. -/
theorem Within.wake (h : d.Listed) (hl : t < d.limit) (ht : d.Knows t) : d.Within (d.wake t) := by
  refine ⟨h.wake hl, rfl, rfl, rfl, ?_⟩
  rintro p (hp | hp | hp)
  · exact Or.inl hp
  · rcases List.mem_append.mp hp with hp | hp
    · exact Or.inr (Or.inl hp)
    · exact List.mem_singleton.mp hp ▸ ht
  · exact Or.inr (Or.inr hp)

theorem Within.dispatch (h : d.Listed) : d.Within d.dispatch := by
  refine ⟨h.dispatch, d.dispatch_all, d.dispatch_limit, d.dispatch_idle, ?_⟩
  intro p hp
  unfold Knows at hp
  rw [d.dispatch_all, d.dispatch_idle] at hp
  cases hr : d.ready with
  | nil =>
    rw [dispatch_nil hr] at hp
    simp only [setCurrent, Option.some.injEq, hr] at hp
    unfold Knows
    rw [hr]
    tauto
  | cons n rest =>
    rw [dispatch_cons hr] at hp
    simp only [Option.some.injEq] at hp
    unfold Knows
    rw [hr, List.mem_cons]
    rcases hp with hp | hp | hp | hp
    · exact Or.inl hp
    · exact Or.inr (Or.inl (Or.inr hp))
    · exact Or.inr (Or.inl (Or.inl hp.symm))
    · exact Or.inr (Or.inr (Or.inr hp))

/-- The thread a dispatcher switches to is neither WAITING nor queued. -/
theorem dispatch_current (h : d.Listed) (hn : d.ready.Nodup) (hl : d.idle < d.limit)
    (hi : d.state d.idle ≠ .waiting) (ht : d.dispatch.current = some t) :
    t < d.dispatch.limit ∧ d.dispatch.state t ≠ .waiting ∧ t ∉ d.dispatch.ready := by
  rw [d.dispatch_limit]
  cases hr : d.ready with
  | nil =>
    rw [dispatch_nil hr] at ht ⊢
    have hti : d.idle = t := Option.some.inj ht
    subst hti
    exact ⟨hl, hi, by simp [setCurrent, hr]⟩
  | cons n rest =>
    rw [dispatch_cons hr] at ht ⊢
    have htn : n = t := Option.some.inj ht
    subst htn
    rw [hr] at hn
    refine ⟨h.readyLimit n (hr ▸ List.mem_cons_self), by simp, ?_⟩
    exact (List.nodup_cons.mp hn).1

end Dispatcher

variable {s s' : WboxScheduler} {d d' : Dispatcher} {t : Ptr} {status : UInt32}

/-- The scheduler has gone on from `s` to `s'`: it leads to no thread it did not lead to, and no
thread has started to wait. -/
structure Moved (s : WboxScheduler) (d : Dispatcher) (s' : WboxScheduler) (d' : Dispatcher) :
    Prop where
  represents : Represents s' d'
  steady : d'.Steady
  limit : d'.limit = d.limit
  known : ∀ p, d'.Knows p → d.Knows p
  waits : NoNewWaits s s'

/-- The idle thread does not start to wait. -/
theorem Moved.of_waits (hr : Represents s d) (hs : d.Steady) (hr' : Represents s' d')
    (hl : d'.Listed) (hlimit : d'.limit = d.limit) (hidle : d'.idle = d.idle)
    (hcur : ∀ t, d'.current = some t → t < d'.limit ∧ d'.state t ≠ .waiting ∧ t ∉ d'.ready)
    (hknown : ∀ p, d'.Knows p → d.Knows p) (hw : NoNewWaits s s') : Moved s d s' d' where
  represents := hr'
  steady := by
    refine ⟨hl, hcur, ?_, ?_⟩
    · rw [hidle, hlimit]
      exact hs.idleLimit
    · rw [hidle, ← hr'.state]
      intro hwait
      exact hs.idle (hr.state d.idle ▸ (hw d.idle hwait).1)
  limit := hlimit
  known := hknown
  waits := hw

theorem Moved.trans {s'' : WboxScheduler} {d'' : Dispatcher} (h : Moved s d s' d')
    (h' : Moved s' d' s'' d'') : Moved s d s'' d'' where
  represents := h'.represents
  steady := h'.steady
  limit := h'.limit.trans h.limit
  known p hp := h.known p (h'.known p hp)
  waits := h.waits.trans h'.waits

/-- A step that changes nothing the dispatcher sees. -/
theorem Moved.of_same (hr : Represents s d) (hs : d.Steady) (ho : SameOutline s s')
    (hw : NoNewWaits s s') : Moved s d s' d :=
  ⟨hr.of_same ho, hs, rfl, fun _ hp => hp, hw⟩

/-- A switch from a state that need not be steady. -/
theorem Moved.dispatch {d₀ : Dispatcher} (hr : Represents s d) (hs : d.Steady)
    (hr' : Represents s' d₀.dispatch) (hl : d₀.Listed) (hn : d₀.ready.Nodup)
    (hlimit : d₀.limit = d.limit) (hidle : d₀.idle = d.idle)
    (hi : d₀.state d.idle ≠ .waiting) (hknown : ∀ p, d₀.Knows p → d.Knows p)
    (hw : NoNewWaits s s') : Moved s d s' d₀.dispatch := by
  have hdis := Dispatcher.Within.dispatch hl
  have hlt : d₀.idle < d₀.limit := by
    rw [hidle, hlimit]
    exact hs.idleLimit
  exact .of_waits hr hs hr' hdis.listed (hdis.limit.trans hlimit) (hdis.idle.trans hidle)
    (fun t ht => Dispatcher.dispatch_current hl hn hlt (hidle ▸ hi) ht)
    (fun p hp => hknown p (hdis.known p hp)) hw

/-- `scheduler_switch`. -/
theorem Moved.switch (hr : Represents s d) (hs : d.Steady) :
    Moved s d (schedulerSwitch s) d.dispatch :=
  .dispatch hr hs hr.switch hs.listed hr.ready.nodup rfl rfl hs.idle (fun _ hp => hp) (.switch s)

/-- `scheduler_tick`. -/
theorem Moved.tick (hr : Represents s d) (hs : d.Steady) :
    ∃ d', Moved s d (schedulerTick s) d' := by
  have hq : ∀ t, d.current = some t → t ∉ d.ready := fun t ht => (hs.current t ht).2.2
  rcases hr.tick hq with hr' | ⟨t, ht, -, hr'⟩
  · exact ⟨d, hr', hs, rfl, fun _ hp => hp, .tick s⟩
  · have hwake := Dispatcher.Within.wake hs.listed (hs.current t ht).1 (Or.inr (Or.inr (Or.inl ht)))
    have hn : (d.wake t).ready.Nodup := by
      have hnot : d.ready.Disjoint [t] := by
        simpa using hq t ht
      exact List.Nodup.append hr.ready.nodup (List.nodup_singleton t) hnot
    have hi : (d.wake t).state d.idle ≠ .waiting := by
      by_cases hti : d.idle = t
      · simp [Dispatcher.wake, Dispatcher.enqueue, Dispatcher.setState, hti]
      · simpa [Dispatcher.wake, Dispatcher.enqueue, Dispatcher.setState, hti] using hs.idle
    exact ⟨_, .dispatch hr hs hr' hwake.listed hn rfl rfl hi hwake.known (.tick s)⟩

/-- `scheduler_check_timeouts`. -/
theorem Moved.checkTimeouts (hr : Represents s d) (hs : d.Steady)
    (h : schedulerCheckTimeouts s = some s') : ∃ d', Moved s d s' d' := by
  -- what wakes a thread that is WAITING keeps the current thread off the queue
  have hwake : ∀ (d' : Dispatcher) t, (d.Within d' ∧ d'.current = d.current ∧
      ∀ c, d.current = some c → d'.state c ≠ .waiting ∧ c ∉ d'.ready) →
      t ∈ d'.all → d'.state t = .waiting → t ∉ d'.ready ∧ d.Within (d'.wake t) ∧
        (d'.wake t).current = d.current ∧
        ∀ c, d.current = some c → (d'.wake t).state c ≠ .waiting ∧ c ∉ (d'.wake t).ready := by
    rintro d' t ⟨hw, hc, hcur⟩ hmem hst
    refine ⟨fun hq => hw.listed.queued t hq hst, hw.trans (.wake hw.listed
      (hw.listed.allLimit t hmem) (Or.inl hmem)), hc, ?_⟩
    intro c hcc
    have hct : c ≠ t := by
      rintro rfl
      exact (hcur c hcc).1 hst
    simpa [Dispatcher.wake, Dispatcher.enqueue, Dispatcher.setState, hct] using hcur c hcc
  obtain ⟨d', hr', hw, hc, hcur⟩ := hr.checkTimeouts hwake
    ⟨.refl hs.listed, rfl, fun c hcc => (hs.current c hcc).2⟩ h
  refine ⟨d', .of_waits hr hs hr' hw.listed hw.limit hw.idle ?_ hw.known (.checkTimeouts h)⟩
  intro t ht
  have htc : d.current = some t := hc.symm.trans ht
  exact ⟨hw.limit ▸ (hs.current t htc).1, hcur t htc⟩

/-- A complete call of `scheduler_block_thread`. -/
theorem Moved.blockThread {os : List (Option Ptr)} {waitType : WaitType} {timeout : UInt64}
    {alertable : Bool} (hr : Represents s d) (hs : d.Steady)
    (h : schedulerBlockThread s os waitType timeout alertable = some (s', status)) :
    ∃ d', Moved s d s' d' := by
  have hwaits : NoNewWaits s s' := (NothingNew.blockThread h).waits
  unfold schedulerBlockThread at h
  split at h
  · next a st hentry =>
    have ha : a = s' := congrArg Prod.fst (Option.some.inj h)
    subst ha
    obtain ⟨objs, rfl⟩ := schedulerBlockEntry_done hentry
    exact ⟨d, .of_same hr hs (.objects s objs) hwaits⟩
  · next t hentry =>
    have ht : d.current = some t := hr.current ▸ (schedulerBlockEntry_wait hentry).1
    obtain ⟨htl, -, htq⟩ := hs.current t ht
    have henter := hr.blockEnter t os waitType timeout alertable
    have hset : d.Within (d.setState t .waiting) := .setState hs.listed (Or.inr htq)
    have hwithin := hset.trans (.dispatch hset.listed)
    have hwake : ∀ (d' : Dispatcher) u, d.Within d' → u ∈ d'.all → d'.state u = .waiting →
        u ∉ d'.ready ∧ d.Within (d'.wake u) := by
      intro d' u hw hmem hst
      exact ⟨fun hq => hw.listed.queued u hq hst,
        hw.trans (.wake hw.listed (hw.listed.allLimit u hmem) (Or.inl hmem))⟩
    unfold schedulerBlockFinish at h
    obtain ⟨b, hb, hret⟩ := Option.bind_eq_some_iff.mp h
    obtain ⟨d', hw, hrep⟩ := henter.blockLoop hwake hwithin hb
    have hnodup : d'.ready.Nodup := by
      rcases hrep with hrep | hrep
      · exact hrep.ready.nodup
      · exact hrep.ready.nodup
    have hr' : Represents s' (d'.resume t) := by
      rcases hrep with hrep | hrep
      · obtain ⟨a, st, ha, hra⟩ := hrep.blockReturn hw.listed.readyLimit t
        have has : a = s' := congrArg Prod.fst (Option.some.inj (ha.symm.trans hret))
        exact has ▸ hra
      · obtain ⟨a, st, ha, hra⟩ := hrep.blockReturn hw.listed.readyLimit t
        have has : a = s' := congrArg Prod.fst (Option.some.inj (ha.symm.trans hret))
        rw [d'.resume_setState] at hra
        exact has ▸ hra
    have hnot : t ∉ (d'.resume t).ready := fun hmem => (hnodup.mem_erase_iff.mp hmem).1 rfl
    have hlisted : (d'.resume t).Listed := by
      refine ⟨hw.listed.allLimit, ?_, ?_⟩
      · exact fun u hu => hw.listed.readyLimit u (List.mem_of_mem_erase hu)
      · intro u hu
        have hut : u ≠ t := by
          rintro rfl
          exact hnot hu
        have hq := hw.listed.queued u (List.mem_of_mem_erase hu)
        simpa [Dispatcher.resume, Dispatcher.setState, Dispatcher.dequeue, Dispatcher.setCurrent,
          hut] using hq
    refine ⟨_, .of_waits hr hs hr' hlisted hw.limit hw.idle ?_ ?_ hwaits⟩
    · intro u hu
      have hut : t = u := Option.some.inj hu
      subst hut
      exact ⟨hw.limit ▸ htl, by simp [Dispatcher.resume, Dispatcher.setState], hnot⟩
    · rintro p (hp | hp | hp | hp)
      · exact hw.known p (Or.inl hp)
      · exact hw.known p (Or.inr (Or.inl (List.mem_of_mem_erase hp)))
      · have htp : t = p := Option.some.inj hp
        exact htp ▸ Or.inr (Or.inr (Or.inl ht))
      · exact hw.known p (Or.inr (Or.inr (Or.inr hp)))

theorem NoNewWaits.threadTerminate (s : WboxScheduler) (t : Ptr) (exitCode : UInt32) :
    NoNewWaits s (threadTerminate s t exitCode) := by
  apply NoNewWaits.modifyThread
  intro th hth
  cases hth

/-- A state word other than WAITING disturbs nothing. -/
theorem Dispatcher.Steady.setState {st : ThreadState} (h : d.Steady) (t : Ptr)
    (hst : st ≠ .waiting) : (d.setState t st).Steady where
  listed := h.listed.setState (Or.inl hst)
  current := by
    intro c hc
    obtain ⟨hl, hs, hq⟩ := h.current c hc
    refine ⟨hl, ?_, hq⟩
    by_cases hct : c = t
    · subst hct
      rwa [d.setState_self]
    · rwa [d.setState_of_ne _ hct]
  idleLimit := h.idleLimit
  idle := by
    rw [d.setState_idle]
    by_cases hti : d.idle = t
    · rw [hti, d.setState_self]
      exact hst
    · rw [d.setState_of_ne _ hti]
      exact h.idle

/-- `thread_terminate` by itself. -/
theorem Moved.threadTerminate (hr : Represents s d) (hs : d.Steady) (t : Ptr) (exitCode : UInt32) :
    Moved s d (threadTerminate s t exitCode) (d.setState t .terminated) :=
  ⟨hr.threadTerminate t exitCode, hs.setState t (by simp), rfl, fun _ hp => hp,
    .threadTerminate s t exitCode⟩

/-- `scheduler_remove_thread` of a terminated thread. -/
theorem Moved.removeThread (hr : Represents s (d.setState t .terminated))
    (hs : (d.setState t .terminated).Steady) (h : schedulerRemoveThread s t = some s') :
    ∃ d', Moved s (d.setState t .terminated) s' d' := by
  obtain ⟨a, ha, hra⟩ := hr.removeThread hs.listed.allLimit hs.listed.readyLimit
  have has : a = s' := Option.some.inj (ha.symm.trans h)
  subst has
  have hlisted : (d.remove t .terminated).Listed := by
    refine ⟨?_, ?_, ?_⟩
    · exact fun u hu => hs.listed.allLimit u (List.mem_of_mem_erase hu)
    · exact fun u hu => hs.listed.readyLimit u (List.mem_of_mem_erase hu)
    · exact fun u hu => hs.listed.queued u (List.mem_of_mem_erase hu)
  have hnodup : (d.remove t .terminated).ready.Nodup := hr.ready.nodup.erase t
  split at hra
  · have hleft : ((d.remove t .terminated).setCurrent none).Listed :=
      ⟨hlisted.allLimit, hlisted.readyLimit, hlisted.queued⟩
    refine ⟨_, .dispatch hr hs hra hleft hnodup rfl rfl hs.idle ?_ (.removeThread h)⟩
    rintro p (hp | hp | hp | hp)
    · exact Or.inl (List.mem_of_mem_erase hp)
    · exact Or.inr (Or.inl (List.mem_of_mem_erase hp))
    · cases hp
    · exact Or.inr (Or.inr (Or.inr hp))
  · refine ⟨_, .of_waits hr hs hra hlisted rfl rfl ?_ ?_ (.removeThread h)⟩
    · intro c hc
      obtain ⟨hl, hst, hq⟩ := hs.current c hc
      exact ⟨hl, hst, fun hmem => hq (List.mem_of_mem_erase hmem)⟩
    · rintro p (hp | hp | hp)
      · exact Or.inl (List.mem_of_mem_erase hp)
      · exact Or.inr (Or.inl (List.mem_of_mem_erase hp))
      · exact Or.inr (Or.inr hp)

/-- `NtTerminateThread`. -/
theorem Moved.terminate {exitStatus : UInt32} (hr : Represents s d) (hs : d.Steady)
    (h : ntTerminateThread s t exitStatus = some s') : ∃ d', Moved s d s' d' := by
  obtain ⟨a, ha, rfl⟩ := Option.map_eq_some_iff.mp h
  have hterm := Moved.threadTerminate hr hs t exitStatus
  obtain ⟨d', hremove⟩ := Moved.removeThread hterm.represents hterm.steady ha
  have hmoved := hterm.trans hremove
  unfold switchIfCurrent
  split
  · exact ⟨_, hmoved.trans (.switch hmoved.represents hmoved.steady)⟩
  · exact ⟨d', hmoved⟩

theorem Dispatcher.Steady.allocate (h : d.Steady) (n : Nat) : (d.allocate n).Steady where
  listed :=
    ⟨fun t ht => Nat.lt_add_right n (h.listed.allLimit t ht),
      fun t ht => Nat.lt_add_right n (h.listed.readyLimit t ht), h.listed.queued⟩
  current t ht := ⟨Nat.lt_add_right n (h.current t ht).1, (h.current t ht).2⟩
  idleLimit := Nat.lt_add_right n h.idleLimit
  idle := h.idle

/-- A known thread has been allocated. -/
theorem Dispatcher.Steady.lt_limit (h : d.Steady) {p : Ptr} (hp : d.Knows p) : p < d.limit := by
  rcases hp with hp | hp | hp | rfl
  · exact h.listed.allLimit p hp
  · exact h.listed.readyLimit p hp
  · exact (h.current p hp).1
  · exact h.idleLimit

/-- A new thread that enters the scheduler is the only one it comes to know. -/
theorem created_addThread (hr : Represents s d) (hs : d.Steady)
    (startAddress stackBase tebAddr : UInt32) (suspended : Bool) :
    ∃ d', Represents (schedulerAddThread
        (threadCreate s startAddress stackBase tebAddr suspended).1 s.heapNext) d' ∧
      d'.Steady ∧ d'.limit = d.limit + 1 ∧ d.limit ∈ d'.all ∧
        ∀ p, d'.Knows p → d.Knows p ∨ p = d.limit := by
  have hfresh : ∀ {p}, d.Knows p → p ≠ d.limit := fun hp => Nat.ne_of_lt (hs.lt_limit hp)
  have hall : d.limit ∉ d.all := fun hm => hfresh (Or.inl hm) rfl
  have hready : d.limit ∉ d.ready := fun hm => hfresh (Or.inr (Or.inl hm)) rfl
  have hst : (if suspended then ThreadState.initialized else .ready) ≠ .waiting := by
    cases suspended <;> simp
  have hcreated := hr.create hs.listed.allLimit hs.listed.readyLimit startAddress stackBase tebAddr
    suspended
  generalize (if suspended then ThreadState.initialized else .ready) = st at hst hcreated
  have hnew := (hs.allocate 1).setState d.limit hst
  have hadd := hcreated.addThread hall hready
  rw [hr.limit]
  have hlinked : (((d.allocate 1).setState d.limit st).add d.limit).Steady := by
    refine ⟨⟨?_, hnew.listed.readyLimit, hnew.listed.queued⟩, hnew.current, hnew.idleLimit,
      hnew.idle⟩
    intro u hu
    rcases List.mem_cons.mp hu with rfl | hu
    · exact Nat.lt_succ_self _
    · exact hnew.listed.allLimit u hu
  split at hadd
  · refine ⟨_, hadd, ?_, rfl, List.mem_cons_self, ?_⟩
    · refine ⟨⟨hlinked.listed.allLimit, ?_, ?_⟩, ?_, hlinked.idleLimit, hlinked.idle⟩
      · intro u hu
        rcases List.mem_append.mp hu with hu | hu
        · exact hlinked.listed.readyLimit u hu
        · rw [List.mem_singleton.mp hu]
          exact Nat.lt_succ_self _
      · intro u hu
        rcases List.mem_append.mp hu with hu | hu
        · exact hlinked.listed.queued u hu
        · rw [List.mem_singleton.mp hu]
          show ((d.allocate 1).setState d.limit st).state d.limit ≠ .waiting
          rwa [Dispatcher.setState_self]
      · intro c hc
        obtain ⟨hl, hcs, hq⟩ := hlinked.current c hc
        refine ⟨hl, hcs, fun hmem => ?_⟩
        rcases List.mem_append.mp hmem with hmem | hmem
        · exact hq hmem
        · exact hfresh (Or.inr (Or.inr (Or.inl hc))) (List.mem_singleton.mp hmem)
    · rintro p (hp | hp | hp)
      · rcases List.mem_cons.mp hp with hp | hp
        · exact Or.inr hp
        · exact Or.inl (Or.inl hp)
      · rcases List.mem_append.mp hp with hp | hp
        · exact Or.inl (Or.inr (Or.inl hp))
        · exact Or.inr (List.mem_singleton.mp hp)
      · exact Or.inl (Or.inr (Or.inr hp))
  · refine ⟨_, hadd, hlinked, rfl, List.mem_cons_self, ?_⟩
    rintro p (hp | hp)
    · rcases List.mem_cons.mp hp with hp | hp
      · exact Or.inr hp
      · exact Or.inl (Or.inl hp)
    · exact Or.inl (Or.inr hp)

end Wbox.Thread
