import Wbox.Thread.Invariant

/-!
# Threads that wait

No operation of the scheduler but the entry of `scheduler_block_thread` makes a thread wait,
and none changes what a waiting thread waits for.
-/

namespace Wbox.Thread

open Wbox.Cpu Wbox.Nt Wbox.Lib

/-- The thread waits for the same objects under the same rule. -/
structure SameWait (th th' : WboxThread) : Prop where
  threadId : th'.threadId = th.threadId
  waitType : th'.waitType = th.waitType
  waitCount : th'.waitCount = th.waitCount
  object : ∀ i, (th'.waitBlocks i).object = (th.waitBlocks i).object

@[simp] theorem SameWait.refl (th : WboxThread) : SameWait th th := ⟨rfl, rfl, rfl, fun _ => rfl⟩

theorem SameWait.trans {a b c : WboxThread} (h : SameWait a b) (h' : SameWait b c) :
    SameWait a c where
  threadId := h'.threadId.trans h.threadId
  waitType := h'.waitType.trans h.waitType
  waitCount := h'.waitCount.trans h.waitCount
  object i := (h'.object i).trans (h.object i)

/-- A thread that is WAITING in `s'` is WAITING in `s`, for the same objects. -/
def NoNewWaits (s s' : WboxScheduler) : Prop :=
  ∀ u, (s'.threads u).state = .waiting →
    (s.threads u).state = .waiting ∧ SameWait (s.threads u) (s'.threads u)

variable {s s' s'' : WboxScheduler} {t : Ptr} {status : UInt32}

theorem NoNewWaits.refl (s : WboxScheduler) : NoNewWaits s s := fun _ h => ⟨h, .refl _⟩

theorem NoNewWaits.trans (h : NoNewWaits s s') (h' : NoNewWaits s' s'') : NoNewWaits s s'' := by
  intro u hu
  obtain ⟨hw', hsame'⟩ := h' u hu
  obtain ⟨hw, hsame⟩ := h u hw'
  exact ⟨hw, hsame.trans hsame'⟩

/-- The thread structures decide. -/
theorem NoNewWaits.of_threads (h : s'.threads = s.threads) : NoNewWaits s s' := by
  intro u hu
  rw [h] at hu ⊢
  exact ⟨hu, .refl _⟩

theorem NoNewWaits.modifyThread (s : WboxScheduler) (t : Ptr) {f : WboxThread → WboxThread}
    (h : ∀ th, (f th).state = .waiting → th.state = .waiting ∧ SameWait th (f th)) :
    NoNewWaits s (s.modifyThread t f) := by
  intro u hu
  rw [WboxScheduler.modifyThread_threads] at hu ⊢
  split at hu
  · next hut =>
    rw [if_pos hut]
    exact h _ hu
  · next hut =>
    rw [if_neg hut]
    exact ⟨hu, .refl _⟩

theorem NoNewWaits.setState (s : WboxScheduler) (t : Ptr) {st : ThreadState} (h : st ≠ .waiting) :
    NoNewWaits s (s.setState t st) := by
  apply NoNewWaits.modifyThread
  intro th hth
  exact absurd hth h

theorem NoNewWaits.withReady (s : WboxScheduler) (links : Ptr → Option Ptr)
    (head tail : Option Ptr) : NoNewWaits s (s.withReady links head tail) :=
  fun _ hu => ⟨hu, ⟨rfl, rfl, rfl, fun _ => rfl⟩⟩

theorem NoNewWaits.withWaitLinks (s : WboxScheduler) (nexts : WbPtr → Option WbPtr)
    (lists : Ptr → Option WbPtr) : NoNewWaits s (s.withWaitLinks nexts lists) :=
  fun _ hu => ⟨hu, ⟨rfl, rfl, rfl, fun _ => rfl⟩⟩

theorem NoNewWaits.addReady (s : WboxScheduler) (t : Ptr) :
    NoNewWaits s (schedulerAddReady s t) := by
  obtain ⟨links, head, tail, h⟩ := schedulerAddReady_eq s t
  rw [h]
  exact (NoNewWaits.withReady s links head tail).trans (.of_threads rfl)

theorem NoNewWaits.removeReady (h : schedulerRemoveReady s t = some s') : NoNewWaits s s' := by
  obtain ⟨links, head, tail, rfl⟩ := schedulerRemoveReady_eq h
  exact .withReady s links head tail

theorem NoNewWaits.switch (s : WboxScheduler) : NoNewWaits s (schedulerSwitch s) := by
  cases h : s.readyHead with
  | none =>
    rw [schedulerSwitch_none h]
    exact .of_threads rfl
  | some n =>
    rw [schedulerSwitch_some h]
    intro u hu
    by_cases hun : u = n
    · simp [switchedTo, hun] at hu
    · obtain ⟨ctx, valid, hl⟩ := leavingThread_eq s u
      simp only [switchedTo, hun, if_false, hl] at hu ⊢
      exact ⟨hu, ⟨rfl, rfl, rfl, fun _ => rfl⟩⟩

theorem NoNewWaits.switchIfCurrent (s : WboxScheduler) (t : Ptr) :
    NoNewWaits s (switchIfCurrent s t) := by
  unfold Wbox.Thread.switchIfCurrent
  split
  · exact .switch s
  · exact .refl s

theorem NoNewWaits.woken (h : Woken s t status s') : NoNewWaits s s' := by
  obtain ⟨nexts, lists, links, head, tail, rfl⟩ := h.eq
  have hwoken : NoNewWaits s (Wbox.Thread.woken s t status) := by
    apply NoNewWaits.modifyThread
    intro th hth
    cases hth
  exact (hwoken.trans (.withWaitLinks _ nexts lists)).trans
    ((NoNewWaits.withReady _ links head tail).trans (.of_threads rfl))

theorem NoNewWaits.checkTimeouts (h : schedulerCheckTimeouts s = some s') : NoNewWaits s s' := by
  refine schedulerCheckTimeouts_invariant (R := fun x => NoNewWaits s x) (.of_threads rfl) ?_ h
  intro a u b ha _ hw
  exact ha.trans (NoNewWaits.woken hw)

theorem NoNewWaits.signal {object : Ptr} {type : HandleType}
    (h : schedulerSignalObject s object type = some s') : NoNewWaits s s' := by
  refine schedulerSignalObject_invariant (R := fun x => NoNewWaits s x) ?_ (.refl s) h
  intro a wb u st b ha _ _ _ hw
  have hobj : NoNewWaits a { a with objects := consumeWait a object u } := .of_threads rfl
  exact ha.trans (hobj.trans (NoNewWaits.woken (wakeThread_woken hw)))

theorem NoNewWaits.tick (s : WboxScheduler) : NoNewWaits s (schedulerTick s) := by
  unfold schedulerTick
  cases hc : s.currentThread with
  | none => exact .refl s
  | some cur =>
    have h1 : NoNewWaits s (countTick s cur) :=
      NoNewWaits.modifyThread s cur (f := fun th =>
        { th with quantum := if th.quantum > 0 then th.quantum - 1 else th.quantum })
        fun _ hth => ⟨hth, ⟨rfl, rfl, rfl, fun _ => rfl⟩⟩
    have h2 : NoNewWaits s ((countTick s cur).modifyThread cur fun th =>
        { th with quantum := th.quantumReset }) :=
      h1.trans (NoNewWaits.modifyThread _ cur fun _ hth => ⟨hth, ⟨rfl, rfl, rfl, fun _ => rfl⟩⟩)
    dsimp only
    split
    · split
      · apply h2.trans
        unfold preempt
        dsimp only
        refine NoNewWaits.trans ?_ (NoNewWaits.switch _)
        refine NoNewWaits.trans ?_ (NoNewWaits.addReady _ cur)
        exact NoNewWaits.setState _ cur (by simp)
      · exact h2
    · exact h1

theorem NoNewWaits.unlinkThread (h : unlinkThread s t = some s') : NoNewWaits s s' := by
  unfold Wbox.Thread.unlinkThread at h
  obtain ⟨found, -, h⟩ := Option.bind_eq_some_iff.mp h
  split at h
  · rw [← Option.some.inj h]
    exact .refl s
  · rw [← Option.some.inj h]
    exact .of_threads rfl
  · rw [← Option.some.inj h]
    exact NoNewWaits.modifyThread s _ fun _ hth => ⟨hth, ⟨rfl, rfl, rfl, fun _ => rfl⟩⟩

theorem NoNewWaits.removeThread (h : schedulerRemoveThread s t = some s') :
    NoNewWaits s s' := by
  unfold schedulerRemoveThread at h
  obtain ⟨a, ha, h⟩ := Option.bind_eq_some_iff.mp h
  obtain ⟨b, hb, h⟩ := Option.bind_eq_some_iff.mp h
  have hab := (NoNewWaits.unlinkThread ha).trans (NoNewWaits.removeReady hb)
  split at h
  · rw [← Option.some.inj h]
    exact hab.trans (NoNewWaits.switch { b with currentThread := none })
  · rw [← Option.some.inj h]
    exact hab

/-- A new thread is INITIALIZED or READY. -/
theorem NoNewWaits.threadCreate (s : WboxScheduler) (startAddress stackBase tebAddr : UInt32)
    (suspended : Bool) :
    NoNewWaits s (threadCreate s startAddress stackBase tebAddr suspended).1 := by
  intro u hu
  by_cases hn : u = s.heapNext
  · cases suspended <;> simp [Wbox.Thread.threadCreate, hn] at hu
  · simp only [Wbox.Thread.threadCreate, Function.update_of_ne hn] at hu ⊢
    exact ⟨hu, .refl _⟩

theorem NoNewWaits.addThread (s : WboxScheduler) (t : Ptr) :
    NoNewWaits s (schedulerAddThread s t) := by
  have hlink : NoNewWaits s (s.setNext t s.allThreads) :=
    NoNewWaits.modifyThread s t fun _ hth => ⟨hth, ⟨rfl, rfl, rfl, fun _ => rfl⟩⟩
  unfold schedulerAddThread
  dsimp only
  split
  · exact hlink.trans ((NoNewWaits.of_threads rfl).trans (.addReady _ t))
  · exact hlink.trans (.of_threads rfl)

/-- At the end of a blocking call the caller is RUNNING and current, and nobody has started
to wait meanwhile. -/
theorem schedulerBlockFinish_caller (h : schedulerBlockFinish s t = some (s', status)) :
    s'.currentThread = some t ∧ (s'.threads t).state = .running ∧
      ∀ u, (s'.threads u).state = .waiting →
        u ≠ t ∧ (s.threads u).state = .waiting ∧ SameWait (s.threads u) (s'.threads u) := by
  unfold schedulerBlockFinish at h
  obtain ⟨a, ha, h⟩ := Option.bind_eq_some_iff.mp h
  have hloop : NoNewWaits s a := by
    refine schedulerBlockLoop_invariant (R := fun x => NoNewWaits s x)
      (T := fun x => NoNewWaits s x) ?_ ?_ (fun _ hx => hx) ?_ ?_ (.refl s) ha
    · intro x reads offset hx
      exact hx.trans (.of_threads rfl)
    · intro x y hx hy
      exact hx.trans (NoNewWaits.checkTimeouts hy)
    · intro x hx
      exact hx.trans (NoNewWaits.modifyThread x t fun _ hth => ⟨hth, ⟨rfl, rfl, rfl, fun _ => rfl⟩⟩)
    · intro x hx
      apply hx.trans
      apply NoNewWaits.modifyThread
      intro th hth
      cases hth
  unfold schedulerBlockReturn at h
  obtain ⟨b, hb, h⟩ := Option.bind_eq_some_iff.mp h
  obtain ⟨links, head, tail, rfl⟩ := schedulerRemoveReady_eq hb
  have hs' := congrArg Prod.fst (Option.some.inj h)
  dsimp only at hs'
  have hcur : (restoreCurrent a t).currentThread = some t := by
    unfold restoreCurrent
    split
    · rfl
    · next hc => exact not_not.mp hc
  have hth : (restoreCurrent a t).threads = a.threads := by
    unfold restoreCurrent
    split
    · rfl
    · rfl
  have hback : NoNewWaits s s' := by
    rw [← hs']
    have hready := NoNewWaits.withReady (restoreCurrent a t) links head tail
    have hset : NoNewWaits s (((restoreCurrent a t).withReady links head tail).setState t
        .running) :=
      ((hloop.trans (.of_threads hth)).trans hready).trans (.setState _ t (by simp))
    exact hset.trans (.of_threads rfl)
  have hrun : (s'.threads t).state = .running := by
    rw [← hs']
    simp [WboxScheduler.setState]
  refine ⟨?_, hrun, ?_⟩
  · rw [← hs']
    exact hcur
  · intro u hu
    refine ⟨?_, hback u hu⟩
    rintro rfl
    rw [hrun] at hu
    cases hu

private theorem registerBlocks_threads_ne {u : Ptr} (hu : u ≠ t) (i : Nat)
    (os : List (Option Ptr)) (s : WboxScheduler) :
    (registerBlocks t i os s).threads u = s.threads u := by
  induction os generalizing i s with
  | nil => rfl
  | cons o os ih =>
    have hone : (registerBlock s t i o).threads u = s.threads u := by
      have hmod : ∀ b, (s.modifyThread t fun th =>
          { th with waitBlocks := Function.update th.waitBlocks i b }).threads u = s.threads u :=
        fun b => s.modifyThread_of_ne _ hu
      cases o with
      | none => exact hmod _
      | some o => exact hmod _
    exact (ih (i + 1) _).trans hone

/-- Up to the waiting loop of a blocking call only its caller starts to wait. -/
theorem schedulerBlockEnter_waits {objects : List (Option Ptr)} {waitType : WaitType}
    {timeout : UInt64} {alertable : Bool} {u : Ptr}
    (h : ((schedulerBlockEnter s t objects waitType timeout alertable).threads u).state =
      .waiting) : u = t ∨ (s.threads u).state = .waiting ∧ SameWait (s.threads u)
        ((schedulerBlockEnter s t objects waitType timeout alertable).threads u) := by
  by_cases hut : u = t
  · exact Or.inl hut
  · right
    have hswitch := NoNewWaits.switch _ u h
    have hpark : ∀ x : WboxScheduler, (parkThread x t).threads u = x.threads u := by
      intro x
      rw [parkThread_eq, WboxScheduler.setState, WboxScheduler.modifyThread_modifyThread,
        WboxScheduler.modifyThread_of_ne _ _ hut]
    rw [hpark, registerBlocks_threads_ne hut, prepareWait,
      WboxScheduler.modifyThread_of_ne _ _ hut] at hswitch
    exact hswitch

end Wbox.Thread
