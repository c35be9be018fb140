import Wbox.Thread.Invariant

/-!
# Register preservation across context switches

A thread that is switched out has its registers in its saved context, and they are restored
when it runs again. This holds along every run whose steps either save the thread they
switch out or do not switch: a preempting `scheduler_tick` and `NtSuspendThread` of the
current thread change its state before `scheduler_switch` looks at it, so that nothing is
saved, and `scheduler_block_thread` takes the CPU back without restoring it. The idle thread
runs no guest code and has no registers of its own.
-/

namespace Wbox.Thread

open Wbox.Cpu Wbox.Nt Wbox.Lib

/-- The saved context holds the registers `r`, except that EAX may be the status of a
completed wait. -/
structure SavedAs (r : Registers) (th : WboxThread) : Prop where
  valid : th.contextValid = true
  context : ∃ eax, (eax = r.eax ∨ eax = th.waitStatus) ∧ th.context = { r with eax := eax }

/-- From `s` to `s'`, `t` keeps a saved context and its TEB, and no address is taken back. -/
structure KeepsSaved (t : Ptr) (s s' : WboxScheduler) : Prop where
  saved : ∀ r, SavedAs r (s.threads t) → SavedAs r (s'.threads t)
  tebAddr : (s'.threads t).tebAddr = (s.threads t).tebAddr
  heap : s.heapNext ≤ s'.heapNext
  idle : s'.idleThread = s.idleThread

variable {s s' s'' : WboxScheduler} {t u n : Ptr} {r : Registers} {status : UInt32}

theorem KeepsSaved.refl (t : Ptr) (s : WboxScheduler) : KeepsSaved t s s :=
  ⟨fun _ h => h, rfl, Nat.le_refl _, rfl⟩

theorem KeepsSaved.trans (h : KeepsSaved t s s') (h' : KeepsSaved t s' s'') :
    KeepsSaved t s s'' where
  saved := fun r hr => h'.saved r (h.saved r hr)
  tebAddr := h'.tebAddr.trans h.tebAddr
  heap := Nat.le_trans h.heap h'.heap
  idle := h'.idle.trans h.idle

/-- An update that leaves the context of `t`, its wait status and its TEB alone. -/
theorem KeepsSaved.of_eq (hc : (s'.threads t).context = (s.threads t).context)
    (hv : (s'.threads t).contextValid = (s.threads t).contextValid)
    (hw : (s'.threads t).waitStatus = (s.threads t).waitStatus)
    (hb : (s'.threads t).tebAddr = (s.threads t).tebAddr) (hh : s.heapNext ≤ s'.heapNext)
    (hi : s'.idleThread = s.idleThread) : KeepsSaved t s s' := by
  refine ⟨?_, hb, hh, hi⟩
  intro r h
  obtain ⟨eax, he, hctx⟩ := h.context
  refine ⟨hv.trans h.valid, eax, ?_, hc.trans hctx⟩
  rw [hw]
  exact he

/-- An update of a thread that leaves its context alone. -/
theorem KeepsSaved.modifyThread (t : Ptr) (s : WboxScheduler) (u : Ptr)
    {f : WboxThread → WboxThread} (hc : ∀ th, (f th).context = th.context)
    (hv : ∀ th, (f th).contextValid = th.contextValid)
    (hw : ∀ th, (f th).waitStatus = th.waitStatus) (hb : ∀ th, (f th).tebAddr = th.tebAddr) :
    KeepsSaved t s (s.modifyThread u f) := by
  by_cases h : t = u
  · subst h
    apply KeepsSaved.of_eq
    · rw [s.modifyThread_self, hc]
    · rw [s.modifyThread_self, hv]
    · rw [s.modifyThread_self, hw]
    · rw [s.modifyThread_self, hb]
    · exact Nat.le_refl _
    · rfl
  · apply KeepsSaved.of_eq
    all_goals first | exact Nat.le_refl _ | rfl | rw [s.modifyThread_of_ne f h]

/-- An update of another thread. -/
theorem KeepsSaved.modifyThread_of_ne (s : WboxScheduler) (f : WboxThread → WboxThread)
    (h : t ≠ u) : KeepsSaved t s (s.modifyThread u f) := by
  apply KeepsSaved.of_eq
  all_goals first | exact Nat.le_refl _ | rfl | rw [s.modifyThread_of_ne f h]

theorem KeepsSaved.setState (t : Ptr) (s : WboxScheduler) (u : Ptr) (st : ThreadState) :
    KeepsSaved t s (s.setState u st) :=
  .modifyThread t s u (fun _ => rfl) (fun _ => rfl) (fun _ => rfl) (fun _ => rfl)

theorem KeepsSaved.addReady (t : Ptr) (s : WboxScheduler) (u : Ptr) :
    KeepsSaved t s (schedulerAddReady s u) := by
  obtain ⟨links, head, tail, h⟩ := schedulerAddReady_eq s u
  rw [h]
  exact .of_eq rfl rfl rfl rfl (Nat.le_refl _) rfl

theorem KeepsSaved.removeReady (t : Ptr) (h : schedulerRemoveReady s u = some s') :
    KeepsSaved t s s' := by
  obtain ⟨links, head, tail, rfl⟩ := schedulerRemoveReady_eq h
  exact .of_eq rfl rfl rfl rfl (Nat.le_refl _) rfl

/-- A switch leaves the contexts of all threads but the one switched out alone. -/
theorem KeepsSaved.switch (h : s.readyHead = none ∨ s.currentThread ≠ some t) :
    KeepsSaved t s (schedulerSwitch s) := by
  cases hr : s.readyHead with
  | none =>
    rw [schedulerSwitch_none hr]
    exact .of_eq rfl rfl rfl rfl (Nat.le_refl _) rfl
  | some n =>
    have hc : s.currentThread ≠ some t := h.resolve_left (by simp [hr])
    rw [schedulerSwitch_some hr]
    by_cases hn : t = n
    · subst hn
      apply KeepsSaved.of_eq
      all_goals first | exact Nat.le_refl _ | rfl | simp [switchedTo, leavingThread_of_ne hc]
    · apply KeepsSaved.of_eq
      all_goals first | exact Nat.le_refl _ | rfl | simp [switchedTo, hn, leavingThread_of_ne hc]

theorem KeepsSaved.unlinkThread (t : Ptr) (h : unlinkThread s u = some s') :
    KeepsSaved t s s' := by
  unfold Wbox.Thread.unlinkThread at h
  obtain ⟨found, -, h⟩ := Option.bind_eq_some_iff.mp h
  split at h
  · rw [← Option.some.inj h]
    exact .refl t s
  · rw [← Option.some.inj h]
    exact .of_eq rfl rfl rfl rfl (Nat.le_refl _) rfl
  · rw [← Option.some.inj h]
    exact .modifyThread t s _ (fun _ => rfl) (fun _ => rfl) (fun _ => rfl) (fun _ => rfl)

/-- A wake-up keeps a saved context saved, with the status in EAX if it is the thread's. -/
theorem KeepsSaved.woken (t : Ptr) (hw : Woken s u status s') : KeepsSaved t s s' := by
  obtain ⟨nexts, lists, links, head, tail, rfl⟩ := hw.eq
  have hth : KeepsSaved t s (Wbox.Thread.woken s u status) := by
    by_cases h : t = u
    · subst h
      refine ⟨?_, by rw [Wbox.Thread.woken, s.modifyThread_self]; rfl, Nat.le_refl _, rfl⟩
      intro r hr
      rw [Wbox.Thread.woken, s.modifyThread_self]
      obtain ⟨eax, -, hc⟩ := hr.context
      exact ⟨hr.valid, status, Or.inr rfl, by simp [wokenThread, hc]⟩
    · exact .modifyThread_of_ne s _ h
  exact hth.trans (.of_eq rfl rfl rfl rfl (Nat.le_refl _) rfl)

theorem KeepsSaved.checkTimeouts (t : Ptr) (h : schedulerCheckTimeouts s = some s') :
    KeepsSaved t s s' ∧ s'.currentThread = s.currentThread ∧ s'.cpu = s.cpu := by
  refine schedulerCheckTimeouts_invariant (R := fun x => KeepsSaved t s x ∧
    x.currentThread = s.currentThread ∧ x.cpu = s.cpu)
    ⟨.of_eq rfl rfl rfl rfl (Nat.le_refl _) rfl, rfl, rfl⟩ ?_ h
  intro a v b ha _ hw
  refine ⟨ha.1.trans (.woken t hw), ?_⟩
  obtain ⟨nexts, lists, links, head, tail, rfl⟩ := hw.eq
  exact ha.2

theorem KeepsSaved.signal (t : Ptr) {object : Ptr} {type : HandleType}
    (h : schedulerSignalObject s object type = some s') :
    KeepsSaved t s s' ∧ s'.currentThread = s.currentThread := by
  refine schedulerSignalObject_invariant (R := fun x => KeepsSaved t s x ∧
    x.currentThread = s.currentThread) ?_ ⟨.refl t s, rfl⟩ h
  intro a wb v st b ha _ _ _ hwake
  have hw := wakeThread_woken hwake
  have hobj : KeepsSaved t a { a with objects := consumeWait a object v } :=
    .of_eq rfl rfl rfl rfl (Nat.le_refl _) rfl
  refine ⟨ha.1.trans (hobj.trans (.woken t hw)), ?_⟩
  obtain ⟨nexts, lists, links, head, tail, rfl⟩ := hw.eq
  exact ha.2

/-- The end of a blocking call changes no CPU register and no context but its caller's. -/
theorem KeepsSaved.blockFinish (h : schedulerBlockFinish s u = some (s', status)) :
    s'.cpu = s.cpu ∧ s'.currentThread = some u ∧
      (s'.threads u).tebAddr = (s.threads u).tebAddr ∧ ∀ t, t ≠ u → KeepsSaved t s s' := by
  unfold schedulerBlockFinish at h
  obtain ⟨a, ha, h⟩ := Option.bind_eq_some_iff.mp h
  have hloop : a.cpu = s.cpu ∧ (a.threads u).tebAddr = (s.threads u).tebAddr ∧
      ∀ t, t ≠ u → KeepsSaved t s a := by
    refine schedulerBlockLoop_invariant
      (R := fun x => x.cpu = s.cpu ∧ (x.threads u).tebAddr = (s.threads u).tebAddr ∧
        ∀ t, t ≠ u → KeepsSaved t s x)
      (T := fun x => x.cpu = s.cpu ∧ (x.threads u).tebAddr = (s.threads u).tebAddr ∧
        ∀ t, t ≠ u → KeepsSaved t s x)
      ?_ ?_ (fun _ hx => hx) ?_ ?_ ⟨rfl, rfl, fun t _ => .refl t s⟩ ha
    · intro x reads offset hx
      exact ⟨hx.1, hx.2.1, fun t ht =>
        (hx.2.2 t ht).trans (.of_eq rfl rfl rfl rfl (Nat.le_refl _) rfl)⟩
    · intro x y hx hy
      refine ⟨(KeepsSaved.checkTimeouts u hy).2.2.trans hx.1, ?_, fun t ht =>
        (hx.2.2 t ht).trans (KeepsSaved.checkTimeouts t hy).1⟩
      exact (KeepsSaved.checkTimeouts u hy).1.tebAddr.trans hx.2.1
    · intro x hx
      refine ⟨hx.1, ?_, fun t ht => (hx.2.2 t ht).trans (.modifyThread_of_ne x _ ht)⟩
      rw [x.modifyThread_self]
      exact hx.2.1
    · intro x hx
      refine ⟨hx.1, ?_, fun t ht => (hx.2.2 t ht).trans (.modifyThread_of_ne x _ ht)⟩
      rw [x.modifyThread_self]
      exact hx.2.1
  unfold schedulerBlockReturn at h
  obtain ⟨b, hb, h⟩ := Option.bind_eq_some_iff.mp h
  have hs' := congrArg Prod.fst (Option.some.inj h)
  dsimp only at hs'
  have hrc : restoreCurrent a u = { a with currentThread := some u } := by
    unfold restoreCurrent
    split
    · rfl
    · next hc => rw [← not_not.mp hc]
  rw [hrc] at hb
  obtain ⟨links, head, tail, rfl⟩ := schedulerRemoveReady_eq hb
  rw [← hs']
  refine ⟨hloop.1, rfl, ?_, ?_⟩
  · simpa [WboxScheduler.setState, WboxScheduler.withReady] using hloop.2.1
  · intro t ht
    apply (hloop.2.2 t ht).trans
    apply KeepsSaved.of_eq
    all_goals first
      | exact Nat.le_refl _
      | rfl
      | simp [WboxScheduler.setState, ht, WboxScheduler.withReady]

/-- The steps that save the registers of the thread they switch out: a tick does not preempt,
a bare switch does not go idle from a guest thread, a call that has to wait finds no thread
ready and the caller's TEB in FS, and no thread suspends, terminates or removes itself. -/
def KeepsRegisters (c : Config) : Event → Prop
  | .tick => ∀ t, c.sched.currentThread = some t → c.sched.readyHead = none ∨
      (t ≠ c.sched.idleThread ∧ 1 < (c.sched.threads t).quantum)
  | .switch => c.sched.readyHead = none → c.sched.currentThread = some c.sched.idleThread
  | .blockEnter objects waitType timeout _ => ∀ t,
      schedulerBlockEntry c.sched objects waitType timeout = .wait t →
        c.sched.readyHead = none ∧ c.sched.cpu.regs.segFs.base = (c.sched.threads t).tebAddr
  | .suspendThread handle => c.thread? (some handle) ≠ c.sched.currentThread
  | .terminateThread arg _ => c.thread? arg ≠ c.sched.currentThread
  | .removeThread arg => c.thread? arg ≠ c.sched.currentThread
  | _ => True

/-- A step that switches nothing. -/
structure Quiet (c c' : Config) : Prop where
  blocked : c'.blocked = none
  current : c'.sched.currentThread = c.sched.currentThread
  keeps : ∀ t, t < c.sched.heapNext → KeepsSaved t c.sched c'.sched

variable {c c' : Config} {d : Dispatcher} {e : Event}

theorem Quiet.of_sched (hb : c.blocked = none) (hc : s.currentThread = c.sched.currentThread)
    (hk : ∀ t, KeepsSaved t c.sched s) : Quiet c (c.withSched s) :=
  ⟨hb, hc, fun t _ => hk t⟩

theorem Quiet.refl (hb : c.blocked = none) : Quiet c c :=
  ⟨hb, rfl, fun t _ => .refl t c.sched⟩

private theorem countTick_quantum (s : WboxScheduler) (t : Ptr)
    (h : ((countTick s t).threads t).quantum = 0) : ¬ 1 < (s.threads t).quantum := by
  have hq : ((countTick s t).threads t).quantum =
      if (s.threads t).quantum > 0 then (s.threads t).quantum - 1 else (s.threads t).quantum := by
    simp [countTick]
  rw [hq] at h
  intro h1
  split at h
  · have hsub : (s.threads t).quantum = 1 := by grind
    rw [hsub] at h1
    exact absurd h1 (by decide)
  · next h0 => exact h0 (by grind)

/-- A tick that does not preempt. -/
theorem quiet_tick (hb : c.blocked = none) (hk : KeepsRegisters c .tick) :
    Quiet c (c.withSched (schedulerTick c.sched)) := by
  cases hc : c.sched.currentThread with
  | none =>
    have he : schedulerTick c.sched = c.sched := by simp [schedulerTick, hc]
    rw [he]
    exact .refl hb
  | some cur =>
    have hcount : ∀ t, KeepsSaved t c.sched (countTick c.sched cur) := fun t =>
      (KeepsSaved.modifyThread t c.sched cur
        (f := fun th => { th with
          quantum := if th.quantum > 0 then th.quantum - 1 else th.quantum })
        (fun _ => rfl) (fun _ => rfl) (fun _ => rfl) (fun _ => rfl)).trans
        (.of_eq rfl rfl rfl rfl (Nat.le_refl _) rfl)
    have hreset : ∀ t, KeepsSaved t c.sched ((countTick c.sched cur).modifyThread cur fun th =>
        { th with quantum := th.quantumReset }) := fun t =>
      (hcount t).trans (.modifyThread t _ cur (fun _ => rfl) (fun _ => rfl) (fun _ => rfl)
        (fun _ => rfl))
    by_cases hq : ((countTick c.sched cur).threads cur).quantum = 0
    · have hr : c.sched.readyHead = none :=
        (hk cur hc).resolve_right fun h => countTick_quantum c.sched cur hq h.2
      have he : schedulerTick c.sched = (countTick c.sched cur).modifyThread cur fun th =>
          { th with quantum := th.quantumReset } := by
        simp only [schedulerTick, hc, hq, if_true]
        exact if_neg (not_not.mpr hr)
      rw [he]
      exact .of_sched hb rfl hreset
    · have he : schedulerTick c.sched = countTick c.sched cur := by simp [schedulerTick, hc, hq]
      rw [he]
      exact .of_sched hb rfl hcount

/-- Removing a thread that is not current. -/
theorem keepsSaved_removeThread (hc : s.currentThread ≠ some u)
    (h : schedulerRemoveThread s u = some s') :
    s'.currentThread = s.currentThread ∧ ∀ t, KeepsSaved t s s' := by
  unfold schedulerRemoveThread at h
  obtain ⟨a, ha, h⟩ := Option.bind_eq_some_iff.mp h
  obtain ⟨b, hb, h⟩ := Option.bind_eq_some_iff.mp h
  have hac : a.currentThread = s.currentThread := by
    unfold unlinkThread at ha
    obtain ⟨found, -, ha⟩ := Option.bind_eq_some_iff.mp ha
    split at ha
    all_goals exact (congrArg WboxScheduler.currentThread (Option.some.inj ha)).symm
  have hbc : b.currentThread = s.currentThread := by
    obtain ⟨links, head, tail, rfl⟩ := schedulerRemoveReady_eq hb
    exact hac
  rw [if_neg (by rw [hbc]; exact hc)] at h
  have hbs : b = s' := Option.some.inj h
  subst hbs
  exact ⟨hbc, fun t => (KeepsSaved.unlinkThread t ha).trans (.removeReady t hb)⟩

/-- What a step outside blocking calls does to saved contexts and to the current thread. -/
theorem stepIdle_cases (hb : c.blocked = none) (hk : KeepsRegisters c e)
    (hs : c.stepIdle e = some c') :
    Quiet c c' ∨ (e = .switch ∧ c' = c.withSched (schedulerSwitch c.sched)) ∨
      ∃ t objects waitType timeout alertable, c.sched.currentThread = some t ∧
        c.sched.readyHead = none ∧ c.sched.cpu.regs.segFs.base = (c.sched.threads t).tebAddr ∧
        c' = { c with
          sched := schedulerBlockEnter c.sched t objects waitType timeout alertable
          blocked := some t } := by
  cases e with
  | exec cpu =>
    simp only [Config.stepIdle] at hs
    split at hs
    · split at hs
      · cases hs
      · rw [← Option.some.inj hs]
        exact Or.inl (.of_sched hb rfl fun t => .of_eq rfl rfl rfl rfl (Nat.le_refl _) rfl)
    · cases hs
  | tick =>
    rw [← Option.some.inj hs]
    exact Or.inl (quiet_tick hb hk)
  | switch => exact Or.inr (Or.inl ⟨rfl, (Option.some.inj hs).symm⟩)
  | checkTimeouts =>
    obtain ⟨s, hc, rfl⟩ := Option.map_eq_some_iff.mp hs
    have hkeep := fun t => KeepsSaved.checkTimeouts t hc
    exact Or.inl (.of_sched hb (hkeep 0).2.1 fun t => (hkeep t).1)
  | blockEnter objects waitType timeout alertable =>
    simp only [Config.stepIdle] at hs
    split at hs
    · next s status hd =>
      obtain ⟨objs, rfl⟩ := schedulerBlockEntry_done hd
      rw [← Option.some.inj hs]
      exact Or.inl (.of_sched hb rfl fun t => .of_eq rfl rfl rfl rfl (Nat.le_refl _) rfl)
    · next t hw =>
      obtain ⟨hr, hteb⟩ := hk t hw
      exact Or.inr (Or.inr ⟨t, objects, waitType, timeout, alertable,
        (schedulerBlockEntry_wait hw).1, hr, hteb, (Option.some.inj hs).symm⟩)
  | blockFinish => cases hs
  | signal object type =>
    obtain ⟨s, hc, rfl⟩ := Option.map_eq_some_iff.mp hs
    have hkeep := fun t => KeepsSaved.signal t hc
    exact Or.inl (.of_sched hb (hkeep 0).2 fun t => (hkeep t).1)
  | createThread startAddress stackBase tebAddr suspended =>
    rw [← Option.some.inj hs]
    left
    have hnew : ∀ t, t < c.sched.heapNext → KeepsSaved t c.sched
        (threadCreate c.sched startAddress stackBase tebAddr suspended).1 := by
      intro t ht
      apply KeepsSaved.of_eq
      all_goals first | exact Nat.le_succ _ | rfl | simp [threadCreate, Nat.ne_of_lt ht]
    have hlink : ∀ t (s : WboxScheduler), KeepsSaved t s
        { s.setNext c.sched.heapNext s.allThreads with allThreads := some c.sched.heapNext } :=
      fun t s => (KeepsSaved.modifyThread t s c.sched.heapNext
        (f := fun th => { th with next := s.allThreads })
        (fun _ => rfl) (fun _ => rfl) (fun _ => rfl) (fun _ => rfl)).trans
        (.of_eq rfl rfl rfl rfl (Nat.le_refl _) rfl)
    have hadd : ∀ (s : WboxScheduler),
        (schedulerAddThread s c.sched.heapNext).currentThread = s.currentThread ∧
          ∀ t, KeepsSaved t s (schedulerAddThread s c.sched.heapNext) := by
      intro s
      unfold schedulerAddThread
      dsimp only
      split
      · refine ⟨?_, fun t => (hlink t s).trans (.addReady t _ _)⟩
        obtain ⟨links, head, tail, he⟩ := schedulerAddReady_eq
          { s.setNext c.sched.heapNext s.allThreads with allThreads := some c.sched.heapNext }
          c.sched.heapNext
        rw [he]
        rfl
      · exact ⟨rfl, fun t => hlink t s⟩
    exact ⟨hb, (hadd _).1, fun t ht => (hnew t ht).trans ((hadd _).2 t)⟩
  | removeThread arg =>
    simp only [Config.stepIdle] at hs
    split at hs
    · rw [← Option.some.inj hs]
      exact Or.inl (.refl hb)
    · next u hu =>
      obtain ⟨s, hc, rfl⟩ := Option.map_eq_some_iff.mp hs
      have hne : c.sched.currentThread ≠ some u := fun he => hk (hu.trans he.symm)
      obtain ⟨hcur, hkeep⟩ := keepsSaved_removeThread hne hc
      exact Or.inl (.of_sched hb hcur hkeep)
  | terminateThread arg exitStatus =>
    simp only [Config.stepIdle] at hs
    split at hs
    · rw [← Option.some.inj hs]
      exact Or.inl (.refl hb)
    · next u hu =>
      obtain ⟨s, hc, rfl⟩ := Option.map_eq_some_iff.mp hs
      obtain ⟨a, ha, rfl⟩ := Option.map_eq_some_iff.mp hc
      have hne : c.sched.currentThread ≠ some u := fun he => hk (hu.trans he.symm)
      obtain ⟨hcur, hkeep⟩ :=
        keepsSaved_removeThread (s := threadTerminate c.sched u exitStatus) hne ha
      have hac : a.currentThread ≠ some u := by
        rw [hcur]
        exact hne
      rw [switchIfCurrent, if_neg hac]
      refine Or.inl (.of_sched hb hcur fun t => KeepsSaved.trans ?_ (hkeep t))
      exact .modifyThread t c.sched u (fun _ => rfl) (fun _ => rfl) (fun _ => rfl) (fun _ => rfl)
  | suspendThread handle =>
    simp only [Config.stepIdle] at hs
    split at hs
    · rw [← Option.some.inj hs]
      exact Or.inl (.refl hb)
    · next u hu =>
      obtain ⟨s, hc, rfl⟩ := Option.map_eq_some_iff.mp hs
      obtain ⟨a, ha, rfl⟩ := Option.map_eq_some_iff.mp hc
      have hne : c.sched.currentThread ≠ some u := fun he => hk (hu.trans he.symm)
      have hca : a.currentThread = c.sched.currentThread ∧ ∀ t, KeepsSaved t c.sched a := by
        unfold unqueueReady at ha
        split at ha
        · refine ⟨?_, fun t => .removeReady t ha⟩
          obtain ⟨links, head, tail, rfl⟩ := schedulerRemoveReady_eq ha
          rfl
        · rw [← Option.some.inj ha]
          exact ⟨rfl, fun t => .refl t c.sched⟩
      have hpark : (parkRunnable a u).currentThread = a.currentThread ∧
          ∀ t, KeepsSaved t a (parkRunnable a u) := by
        unfold parkRunnable
        split
        · exact ⟨rfl, fun t => .setState t a u .initialized⟩
        · exact ⟨rfl, fun t => .refl t a⟩
      have hcur := hpark.1.trans hca.1
      have hac : (parkRunnable a u).currentThread ≠ some u := by
        rw [hcur]
        exact hne
      rw [switchIfCurrent, if_neg hac]
      exact Or.inl (.of_sched hb hcur fun t => (hca.2 t).trans (hpark.2 t))
  | resumeThread handle =>
    simp only [Config.stepIdle] at hs
    split at hs
    · rw [← Option.some.inj hs]
      exact Or.inl (.refl hb)
    · next u hu =>
      rw [← Option.some.inj hs]
      unfold ntResumeThread
      split
      · refine Or.inl (.of_sched hb ?_ fun t =>
          (KeepsSaved.setState t c.sched u .ready).trans (.addReady t _ u))
        obtain ⟨links, head, tail, he⟩ := schedulerAddReady_eq (c.sched.setState u .ready) u
        rw [he]
        rfl
      · exact Or.inl (.refl hb)
  | createObject obj =>
    rw [← Option.some.inj hs]
    exact Or.inl ⟨hb, rfl, fun t _ => .of_eq rfl rfl rfl rfl (Nat.le_succ _) rfl⟩
  | writeObject object obj =>
    rw [← Option.some.inj hs]
    exact Or.inl (.of_sched hb rfl fun t => .of_eq rfl rfl rfl rfl (Nat.le_refl _) rfl)

/-- `t` has been switched out with the registers `r`: they are in its context, or, while its
own blocking call is under way, still in the CPU. -/
structure Away (r : Registers) (t : Ptr) (c : Config) : Prop where
  current : c.sched.currentThread ≠ some t
  idle : t ≠ c.sched.idleThread
  limit : t < c.sched.heapNext
  saved : c.blocked ≠ some t → SavedAs r (c.sched.threads t)
  blocked : c.blocked = some t →
    c.sched.cpu.regs = r ∧ r.segFs.base = (c.sched.threads t).tebAddr

/-- The CPU holds the registers `r` of the thread, with its TEB in FS and possibly the status
of a completed wait in EAX. -/
def Resumed (r : Registers) (th : WboxThread) (now : Registers) : Prop :=
  ∃ eax, (eax = r.eax ∨ eax = th.waitStatus) ∧
    now = { r with eax := eax, segFs := { r.segFs with base := th.tebAddr } }

/-- From `s` to `s'` only the structure of the thread `u`, not its TEB, and objects change. -/
structure OnlyThread (u : Ptr) (s s' : WboxScheduler) : Prop where
  cpu : s'.cpu = s.cpu
  readyHead : s'.readyHead = s.readyHead
  idleThread : s'.idleThread = s.idleThread
  heapNext : s'.heapNext = s.heapNext
  tebAddr : (s'.threads u).tebAddr = (s.threads u).tebAddr
  others : ∀ t, t ≠ u → s'.threads t = s.threads t

theorem OnlyThread.trans (h : OnlyThread u s s') (h' : OnlyThread u s' s'') :
    OnlyThread u s s'' where
  cpu := h'.cpu.trans h.cpu
  readyHead := h'.readyHead.trans h.readyHead
  idleThread := h'.idleThread.trans h.idleThread
  heapNext := h'.heapNext.trans h.heapNext
  tebAddr := h'.tebAddr.trans h.tebAddr
  others := fun t ht => (h'.others t ht).trans (h.others t ht)

theorem OnlyThread.modifyThread (s : WboxScheduler) (u : Ptr) (f : WboxThread → WboxThread)
    (hf : ∀ th, (f th).tebAddr = th.tebAddr) : OnlyThread u s (s.modifyThread u f) where
  cpu := rfl
  readyHead := rfl
  idleThread := rfl
  heapNext := rfl
  tebAddr := by rw [s.modifyThread_self, hf]
  others := fun _ ht => s.modifyThread_of_ne f ht

theorem OnlyThread.objects (s : WboxScheduler) (u : Ptr) (objects : Ptr → SyncObject) :
    OnlyThread u s { s with objects := objects } :=
  ⟨rfl, rfl, rfl, rfl, rfl, fun _ _ => rfl⟩

theorem OnlyThread.registerBlocks (u : Ptr) (i : Nat) (os : List (Option Ptr))
    (s : WboxScheduler) : OnlyThread u s (registerBlocks u i os s) := by
  induction os generalizing i s with
  | nil => exact .objects s u s.objects
  | cons o os ih =>
    refine OnlyThread.trans ?_ (ih (i + 1) (registerBlock s u i o))
    have hth : ∀ b, OnlyThread u s (s.modifyThread u fun th =>
        { th with waitBlocks := Function.update th.waitBlocks i b }) := fun b =>
      .modifyThread s u _ fun _ => rfl
    cases o with
    | none => exact hth _
    | some o => exact (hth _).trans (.objects _ u _)

/-- A blocking call up to its waiting loop when nothing is ready: the idle thread becomes
current, and the CPU still holds the caller's registers. -/
theorem schedulerBlockEnter_idle (hr : s.readyHead = none) (u : Ptr) (os : List (Option Ptr))
    (waitType : WaitType) (timeout : UInt64) (alertable : Bool) :
    OnlyThread u s (schedulerBlockEnter s u os waitType timeout alertable) ∧
      (schedulerBlockEnter s u os waitType timeout alertable).currentThread =
        some s.idleThread := by
  have hprep : OnlyThread u s (prepareWait s u os.length waitType timeout alertable) :=
    .modifyThread s u _ fun _ => rfl
  have hreg := hprep.trans (.registerBlocks u 0 os _)
  have hpark : ∀ x, OnlyThread u x (parkThread x u) := by
    intro x
    rw [parkThread_eq]
    have hst : OnlyThread u x (x.setState u .waiting) := .modifyThread x u _ fun _ => rfl
    exact hst.trans (.modifyThread _ u _ fun _ => rfl)
  have h := hreg.trans (hpark _)
  unfold schedulerBlockEnter
  dsimp only
  rw [schedulerSwitch_none (h.readyHead.trans hr)]
  exact ⟨⟨h.cpu, h.readyHead, h.idleThread, h.heapNext, h.tebAddr, h.others⟩,
    congrArg some h.idleThread⟩

/-- A thread that a step switches out keeps its registers. -/
theorem away_of_leave (hp : Placed c d) (hk : KeepsRegisters c e) (hs : c.step e = some c')
    (ht : c.sched.currentThread = some t) (hi : t ≠ c.sched.idleThread) (hb : c.blocked = none)
    (hc : c'.sched.currentThread ≠ some t) : Away c.sched.cpu.regs t c' := by
  have hl : t < c.sched.heapNext := by
    rw [hp.represents.limit]
    exact hp.queue.currentLimit t (hp.represents.current ▸ ht)
  simp only [Config.step, hb] at hs
  rcases stepIdle_cases hb hk hs with hq | ⟨rfl, rfl⟩ | ⟨u, os, wt, time, al, hu, hr, hteb, rfl⟩
  · exact absurd (hq.current.trans ht) hc
  · cases hr : c.sched.readyHead with
    | none => exact absurd (Option.some.inj (ht.symm.trans (hk hr))) hi
    | some n =>
      have hrun : (c.sched.threads t).state = .running := by
        rcases hp.current hb with hid | ⟨v, hv, hrun⟩
        · have hti := ht.symm.trans (hp.represents.current.trans hid)
          rw [← hp.represents.idle] at hti
          exact absurd (Option.some.inj hti) hi
        · have htv := Option.some.inj (ht.symm.trans (hp.represents.current.trans hv))
          rw [hp.represents.state t, htv]
          exact hrun
      have hsw := schedulerSwitch_some hr
      have hn : t ≠ n := by
        rintro rfl
        exact hc (by simp [Config.withSched, hsw, switchedTo])
      refine ⟨hc, ?_, ?_, fun _ => ?_, fun hbt => by simp [Config.withSched, hb] at hbt⟩
      · simpa [Config.withSched, hsw, switchedTo] using hi
      · simpa [Config.withSched, hsw, switchedTo] using hl
      · have hth : ((schedulerSwitch c.sched).threads t) =
            { c.sched.threads t with context := c.sched.cpu.regs, contextValid := true } := by
          simp [hsw, switchedTo, hn, leavingThread, ht, hrun]
        show SavedAs c.sched.cpu.regs ((schedulerSwitch c.sched).threads t)
        rw [hth]
        exact ⟨rfl, _, Or.inl rfl, rfl⟩
  · have hut : u = t := Option.some.inj (hu.symm.trans ht)
    subst hut
    obtain ⟨hon, -⟩ := schedulerBlockEnter_idle hr u os wt time al
    refine ⟨hc, ?_, hon.heapNext.symm ▸ hl, fun hbt => absurd rfl hbt, fun _ => ⟨?_, ?_⟩⟩
    · exact fun he => hi (he.trans hon.idleThread)
    · exact congrArg CpuState.regs hon.cpu
    · exact hteb.trans hon.tebAddr.symm

/-- A thread that is away stays away with the same registers until it is current again. -/
theorem Away.step (h : Away r t c) (hk : KeepsRegisters c e) (hs : c.step e = some c')
    (hc : c'.sched.currentThread ≠ some t) : Away r t c' := by
  have hkeep : KeepsSaved t c.sched c'.sched → c.blocked ≠ some t → c'.blocked ≠ some t →
      Away r t c' := fun hkp hb hb' =>
    ⟨hc, hkp.idle.symm ▸ h.idle, Nat.lt_of_lt_of_le h.limit hkp.heap, fun _ => hkp.saved r (h.saved hb), fun hbt =>
      absurd hbt hb'⟩
  cases hb : c.blocked with
  | none =>
    simp only [Config.step, hb] at hs
    rcases stepIdle_cases hb hk hs with hq | ⟨rfl, rfl⟩ | ⟨u, os, wt, time, al, hu, hr, -, rfl⟩
    · exact hkeep (hq.keeps t h.limit) (by simp [hb]) (by simp [hq.blocked])
    · exact hkeep (.switch (Or.inr h.current)) (by simp [hb]) (by simp [Config.withSched, hb])
    · have hut : t ≠ u := by
        rintro rfl
        exact h.current hu
      obtain ⟨hon, -⟩ := schedulerBlockEnter_idle hr u os wt time al
      refine hkeep ?_ (by simp [hb]) (by simpa using Ne.symm hut)
      apply KeepsSaved.of_eq
      all_goals first
        | rw [hon.others t hut]
        | exact Nat.le_of_eq hon.heapNext.symm
        | exact hon.idleThread
  | some u =>
    simp only [Config.step, hb] at hs
    split at hs
    · obtain ⟨⟨s, status⟩, hf, rfl⟩ := Option.map_eq_some_iff.mp hs
      obtain ⟨-, hcur, -, hkp⟩ := KeepsSaved.blockFinish hf
      have hut : t ≠ u := by
        rintro rfl
        exact hc hcur
      exact hkeep (hkp t hut) (by simpa [hb] using Ne.symm hut) (by simp)
    · cases hs

/-- A thread that becomes current again has its registers back. -/
theorem Away.return (h : Away r t c) (hk : KeepsRegisters c e) (hs : c.step e = some c') (hc : c'.sched.currentThread = some t) :
    Resumed r (c'.sched.threads t) c'.sched.cpu.regs := by
  cases hb : c.blocked with
  | none =>
    simp only [Config.step, hb] at hs
    rcases stepIdle_cases hb hk hs with hq | ⟨rfl, rfl⟩ | ⟨u, os, wt, time, al, hu, hr, -, rfl⟩
    · exact absurd (hq.current.symm.trans hc) h.current
    · cases hr : c.sched.readyHead with
      | none =>
        rw [Config.withSched, schedulerSwitch_none hr] at hc
        exact absurd (Option.some.inj hc).symm h.idle
      | some n =>
        have hsw := schedulerSwitch_some hr
        have hn : n = t := by
          rw [Config.withSched, hsw] at hc
          exact Option.some.inj hc
        subst hn
        have hsaved := h.saved (by simp [hb])
        obtain ⟨eax, he, hctx⟩ := hsaved.context
        have hcpu : (schedulerSwitch c.sched).cpu =
            restoreContext (c.sched.threads n).context (c.sched.threads n).tebAddr c.sched.cpu := by
          simp [hsw, switchedTo, arrivingCpu, leavingThread_of_ne h.current, hsaved.valid]
        have hth : (schedulerSwitch c.sched).threads n =
            { c.sched.threads n with state := .running, readyNext := none } := by
          simp [hsw, switchedTo, leavingThread_of_ne h.current]
        refine ⟨eax, ?_, ?_⟩
        · show eax = r.eax ∨ eax = ((schedulerSwitch c.sched).threads n).waitStatus
          rw [hth]
          exact he
        · show (schedulerSwitch c.sched).cpu.regs =
            { r with
              eax := eax
              segFs := { r.segFs with base := ((schedulerSwitch c.sched).threads n).tebAddr } }
          rw [hth, hcpu, restoreContext_regs, hctx]
    · rw [(schedulerBlockEnter_idle hr u os wt time al).2] at hc
      exact absurd (Option.some.inj hc).symm h.idle
  | some u =>
    simp only [Config.step, hb] at hs
    split at hs
    · obtain ⟨⟨s, status⟩, hf, rfl⟩ := Option.map_eq_some_iff.mp hs
      obtain ⟨hcpu, hcur, hteb, -⟩ := KeepsSaved.blockFinish hf
      have hut : u = t := Option.some.inj (hcur.symm.trans hc)
      subst hut
      obtain ⟨hregs, hbase⟩ := h.blocked hb
      refine ⟨r.eax, Or.inl rfl, ?_⟩
      -- the call never touched the CPU, and FS held the TEB when it began
      show s.cpu.regs = { r with eax := r.eax, segFs := { r.segFs with
        base := (s.threads u).tebAddr } }
      rw [hcpu, hregs, hteb, ← hbase]
    · cases hs

/-- A run preserves registers: a guest thread that is current, then not, then current again
has its registers back. -/
def PreservesRegisters (tr : List Config) : Prop :=
  ∀ (i j : Nat) (a b : Config) (t : Ptr), tr[i]? = some a → tr[j]? = some b → i + 1 < j →
    a.sched.currentThread = some t → t ≠ a.sched.idleThread →
    b.sched.currentThread = some t →
    (∀ k m, i < k → k < j → tr[k]? = some m → m.sched.currentThread ≠ some t) →
    Resumed a.sched.cpu.regs (b.sched.threads t) b.sched.cpu.regs

/-- The invariant of the runs in question: while a blocking call is under way, the idle thread
is current. -/
def Watched (c : Config) : Prop :=
  (∃ d, Placed c d) ∧ (c.blocked ≠ none → c.sched.currentThread = some c.sched.idleThread)

theorem Watched.step (h : Watched c) (hk : KeepsRegisters c e) (hs : c.step e = some c') :
    Watched c' := by
  obtain ⟨⟨d, hp⟩, -⟩ := h
  have hidle : ¬ IdleTick c e := by
    intro hi
    cases e with
    | tick => exact (hk _ hi.1).elim hi.2 fun h => h.1 rfl
    | _ => exact hi
  obtain ⟨d', hp', -⟩ := hp.config_step hidle hs
  refine ⟨⟨d', hp'⟩, fun hne => ?_⟩
  cases hb : c.blocked with
  | none =>
    simp only [Config.step, hb] at hs
    rcases stepIdle_cases hb hk hs with hq | ⟨rfl, rfl⟩ | ⟨u, os, wt, time, al, hu, hr, -, rfl⟩
    · exact absurd hq.blocked hne
    · exact absurd hb hne
    · obtain ⟨hon, hcur⟩ := schedulerBlockEnter_idle hr u os wt time al
      rw [hcur, hon.idleThread]
  | some u =>
    simp only [Config.step, hb] at hs
    split at hs
    · obtain ⟨_, _, rfl⟩ := Option.map_eq_some_iff.mp hs
      exact absurd rfl hne
    · cases hs

/-- Every run from `scheduler_init` whose steps save what they switch out preserves the
registers of every guest thread. -/
theorem run_preservesRegisters (cpu : CpuState) (clock : Nat → UInt64) (es : List Event)
    (tr : List Config) (h : trace Config.step (boot cpu clock) es = some tr)
    (hg : Guarded Config.step KeepsRegisters (boot cpu clock) es) : PreservesRegisters tr := by
  have hw : ∀ c ∈ tr, Watched c :=
    trace_invariant (fun a e b ha hk hs => ha.step hk hs)
      ⟨⟨_, placed_boot cpu clock⟩, fun hne => absurd rfl hne⟩ h hg
  intro i j a b t ha hb hij hcur hidle hcur' hgap
  have hlen : j < tr.length := (List.getElem?_eq_some_iff.mp hb).1
  have hat : ∀ k, k < j → ∃ m, tr[k]? = some m := fun k hk =>
    ⟨tr[k], List.getElem?_eq_getElem (Nat.lt_trans hk hlen)⟩
  -- the thread is away from the step that switches it out to the one that brings it back
  have haway : ∀ n m, i + 1 + n < j → tr[i + 1 + n]? = some m →
      Away a.sched.cpu.regs t m := by
    intro n
    induction n with
    | zero =>
      intro m hlt hm
      obtain ⟨e, hk, hs⟩ := trace_step h hg ha hm
      obtain ⟨⟨d, hp⟩, hblk⟩ := hw a (List.mem_of_getElem? ha)
      have hnb : a.blocked = none := by
        by_contra hne
        exact hidle (Option.some.inj (hcur.symm.trans (hblk hne)))
      exact away_of_leave hp hk hs hcur hidle hnb (hgap _ m (by omega) hlt hm)
    | succ n ih =>
      intro m hlt hm
      obtain ⟨m₀, hm₀⟩ := hat (i + 1 + n) (by omega)
      obtain ⟨e, hk, hs⟩ := trace_step h hg hm₀ hm
      exact (ih m₀ (by omega) hm₀).step hk hs (hgap _ m (by omega) hlt hm)
  obtain ⟨m, hm⟩ := hat (j - 1) (by omega)
  have hm' : tr[i + 1 + (j - 1 - (i + 1))]? = some m := by
    rw [show i + 1 + (j - 1 - (i + 1)) = j - 1 by omega]
    exact hm
  obtain ⟨e, hk, hs⟩ := trace_step h hg hm (show tr[j - 1 + 1]? = some b by
    rw [show j - 1 + 1 = j by omega]
    exact hb)
  exact (haway _ m (by omega) hm').return hk hs hcur'

/-- A CPU in the main thread, whose TEB is in FS. -/
def mainCpu : CpuState :=
  let regs : Registers :=
    { (default : Registers) with
      eip := 0x400100
      segFs := { (default : X86Seg) with base := 0x7FFDF000 } }
  { (default : CpuState) with regs := regs }

theorem run_preservesRegisters_waitRun :
    ∃ tr, trace Config.step (boot mainCpu fun _ => 0) (waitRun true) = some tr ∧
      PreservesRegisters tr := by
  have hsome : (trace Config.step (boot mainCpu fun _ => 0) (waitRun true)).isSome = true := by
    decide +kernel
  obtain ⟨tr, htr⟩ := Option.isSome_iff_exists.mp hsome
  refine ⟨tr, htr, run_preservesRegisters mainCpu (fun _ => 0) (waitRun true) tr htr ?_⟩
  refine ⟨trivial, fun c₁ h₁ => ⟨trivial, fun c₂ h₂ => ⟨?_, fun _ _ => ⟨trivial, fun _ _ =>
    trivial⟩⟩⟩⟩
  intro t ht
  have hval : ((boot mainCpu fun _ => 0).step (waitRun true)[0]).bind (fun c =>
      (c.step (waitRun true)[1]).map fun c =>
        (c.sched.readyHead, c.sched.currentThread, c.sched.cpu.regs.segFs.base,
          (c.sched.threads 1).tebAddr)) = some (none, some 1, 0x7FFDF000, 0x7FFDF000) := by
    decide +kernel
  rw [show (boot mainCpu fun _ => 0).step (waitRun true)[0] = some c₁ from h₁, Option.bind_some,
    show c₁.step (waitRun true)[1] = some c₂ from h₂] at hval
  simp only [Option.map_some, Option.some.injEq, Prod.mk.injEq] at hval
  obtain ⟨hr, hcur, hfs, hteb⟩ := hval
  have ht1 : t = 1 := Option.some.inj ((schedulerBlockEntry_wait ht).1.symm.trans hcur)
  rw [ht1, hfs, hteb]
  exact ⟨hr, rfl⟩

/-- The same run with the second thread ready: the main thread returns from its wait with the
registers of the second thread in the CPU. -/
theorem waitRun_loses_registers :
    ∃ tr, trace Config.step (boot mainCpu fun _ => 0) (waitRun false) = some tr ∧
      ¬ PreservesRegisters tr := by
  have hrun : (trace Config.step (boot mainCpu fun _ => 0) (waitRun false)).map (fun tr =>
      tr.map fun c => (c.sched.currentThread, c.sched.cpu.regs.eip)) =
        some [(some 1, 0x400100), (some 1, 0x400100), (some 1, 0x400100), (some 2, 0x401000),
          (some 1, 0x401000)] := by
    decide +kernel
  obtain ⟨tr, htr, hval⟩ := Option.map_eq_some_iff.mp hrun
  refine ⟨tr, htr, fun hkeep => ?_⟩
  have hat : ∀ k : Nat, (tr[k]?).map (fun c => (c.sched.currentThread, c.sched.cpu.regs.eip)) =
      [(some 1, 0x400100), (some 1, 0x400100), (some 1, 0x400100), (some 2, 0x401000),
        (some 1, 0x401000)][k]? := by
    intro k
    rw [← List.getElem?_map, hval]
  obtain ⟨a, ha, hav⟩ := Option.map_eq_some_iff.mp (hat 2)
  obtain ⟨b, hb, hbv⟩ := Option.map_eq_some_iff.mp (hat 4)
  simp only [Prod.mk.injEq] at hav hbv
  have hidle : (1 : Ptr) ≠ a.sched.idleThread := by
    have hz : ((trace Config.step (boot mainCpu fun _ => 0) (waitRun false)).bind (·[2]?)).map
        (fun c => c.sched.idleThread) = some 0 := by
      decide +kernel
    rw [htr, Option.bind_some, ha] at hz
    have hza : a.sched.idleThread = 0 := Option.some.inj hz
    rw [hza]
    decide
  obtain ⟨eax, -, hregs⟩ := hkeep 2 4 a b 1 ha hb (by decide) hav.1 hidle hbv.1 (by
    intro k m h1 h2 hm
    have hk : k = 3 := by omega
    subst hk
    obtain ⟨c, hc, hcv⟩ := Option.map_eq_some_iff.mp (hat 3)
    have hcm : c = m := Option.some.inj (hc.symm.trans hm)
    rw [← hcm, (Prod.mk.inj hcv).1]
    decide)
  have heip := congrArg Registers.eip hregs
  simp only [hav.2, hbv.2] at heip
  exact absurd heip (by decide)

end Wbox.Thread
