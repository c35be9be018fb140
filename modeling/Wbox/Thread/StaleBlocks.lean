import Wbox.Thread.Pending

/-!
# Stale wait blocks

Which operations of `src/thread/scheduler.c` leave every wait list with exactly the blocks of
WAITING threads. Two do not always: `thread_terminate` does not unlink the blocks of a WAITING
thread, and the safety break of `scheduler_block_thread` (`scheduler.c:462–468`) makes its caller
READY without unlinking it.
-/

namespace Wbox.Thread

open Wbox.Cpu Wbox.Nt Wbox.Lib

/-- The operations that end waits or start them. -/
inductive WaitOp where
  | signal (object : Ptr) (type : HandleType)
  | checkTimeouts
  | blockThread (objects : List (Option Ptr)) (waitType : WaitType) (timeout : UInt64)
      (alertable : Bool)
  | terminate (thread : Ptr) (exitCode : UInt32)

/-- The state after a complete call. Termination is `thread_terminate` and
`scheduler_remove_thread`. -/
def waitStep (s : WboxScheduler) : WaitOp → Option WboxScheduler
  | .signal object type => schedulerSignalObject s object type
  | .checkTimeouts => schedulerCheckTimeouts s
  | .blockThread objects waitType timeout alertable =>
      (schedulerBlockThread s objects waitType timeout alertable).map Prod.fst
  | .terminate thread exitCode =>
      schedulerRemoveThread (threadTerminate s thread exitCode) thread

/-- The threads of both lists have been allocated, and no queued thread is WAITING. -/
structure Dispatcher.Listed (d : Dispatcher) : Prop where
  allLimit : ∀ t ∈ d.all, t < d.limit
  readyLimit : ∀ t ∈ d.ready, t < d.limit
  queued : ∀ t ∈ d.ready, d.state t ≠ .waiting

/-- The lists of threads are those of `d`, and the current thread is neither WAITING nor
queued. -/
structure Dispatchable (s : WboxScheduler) (d : Dispatcher) : Prop where
  represents : Represents s d
  listed : d.Listed
  current : ∀ t, d.current = some t → t < d.limit ∧ d.state t ≠ .waiting ∧ t ∉ d.ready

/-- The offset of the clock once a round of the waiting loop has moved it past a deadline that
lies ahead of its second reading, `scheduler.c:446–451`. -/
def jumpOffset (clock : Nat → UInt64) (deadline : UInt64) (reads : Nat) (offset : UInt64) :
    UInt64 :=
  let now := clock (reads + 1) + offset
  if deadline > now then offset + (deadline - now + 1) else offset

/-- The deadline has come at one of the two checks of a round. -/
def DueInRound (clock : Nat → UInt64) (deadline : UInt64) (reads : Nat) (offset : UInt64) : Prop :=
  deadline ≤ clock reads + offset ∨
    deadline ≤ clock (reads + 2) + jumpOffset clock deadline reads offset

/-- The deadline comes in this round or in one of the `left` rounds after it. -/
def ComesDue (clock : Nat → UInt64) (deadline : UInt64) : Nat → Nat → UInt64 → Prop
  | 0, reads, offset => DueInRound clock deadline reads offset
  | left + 1, reads, offset =>
      DueInRound clock deadline reads offset ∨
        ComesDue clock deadline left (reads + 3) (jumpOffset clock deadline reads offset)

/-- The condition under which an operation leaves no stale block: a thread that is terminated is
on no wait list, and a wait that has to be entered is for no object or is ended by its deadline. -/
def LeavesNoStaleBlock (s : WboxScheduler) (d : Dispatcher) : WaitOp → Prop
  | .signal _ _ => True
  | .checkTimeouts => True
  | .blockThread objects waitType timeout _ =>
      ∀ t, s.currentThread = some t → objects.length ≤ threadWaitObjects →
        satisfyNow s.objects (s.threads t).threadId waitType objects = none → timeout ≠ 0 →
          (∀ o, some o ∉ objects) ∨
            (t ∈ d.all ∧ ComesDue s.clock timeout 100 s.clockReads s.timeOffset)
  | .terminate thread _ => ∀ o, ¬ s.Waiter thread o

/-- From `s` to `s'` the wait blocks and the lists are the same, and no thread starts to wait. -/
structure SameBlocks (s s' : WboxScheduler) : Prop where
  blocks : ∀ u, (s'.threads u).waitBlocks = (s.threads u).waitBlocks
  count : ∀ u, (s'.threads u).waitCount = (s.threads u).waitCount
  state : ∀ u, (s'.threads u).state = .waiting → (s.threads u).state = .waiting
  head : s'.waitHead = s.waitHead
  heapNext : s'.heapNext = s.heapNext

variable {s s' s'' : WboxScheduler} {d : Dispatcher} {t u o : Ptr}

theorem SameBlocks.refl (s : WboxScheduler) : SameBlocks s s :=
  ⟨fun _ => rfl, fun _ => rfl, fun _ h => h, rfl, rfl⟩

theorem SameBlocks.trans (h : SameBlocks s s') (h' : SameBlocks s' s'') : SameBlocks s s'' where
  blocks u := (h'.blocks u).trans (h.blocks u)
  count u := (h'.count u).trans (h.count u)
  state u hu := h.state u (h'.state u hu)
  head := h'.head.trans h.head
  heapNext := h'.heapNext.trans h.heapNext

theorem SameBlocks.modifyThread (s : WboxScheduler) (t : Ptr) {f : WboxThread → WboxThread}
    (hb : ∀ th, (f th).waitBlocks = th.waitBlocks) (hc : ∀ th, (f th).waitCount = th.waitCount)
    (hs : ∀ th, (f th).state = .waiting → th.state = .waiting) :
    SameBlocks s (s.modifyThread t f) := by
  refine ⟨?_, ?_, ?_, rfl, rfl⟩
  all_goals
    intro u
    rw [WboxScheduler.modifyThread_threads]
    split
  · exact hb _
  · rfl
  · exact hc _
  · rfl
  · exact hs _
  · exact fun h => h

theorem SameBlocks.removeReady (h : schedulerRemoveReady s t = some s') : SameBlocks s s' := by
  obtain ⟨links, head, tail, rfl⟩ := schedulerRemoveReady_eq h
  exact ⟨fun _ => rfl, fun _ => rfl, fun _ h => h, rfl, rfl⟩

theorem SameBlocks.switch (s : WboxScheduler) : SameBlocks s (schedulerSwitch s) := by
  cases hr : s.readyHead with
  | none =>
    rw [schedulerSwitch_none hr]
    exact ⟨fun _ => rfl, fun _ => rfl, fun _ h => h, rfl, rfl⟩
  | some n =>
    rw [schedulerSwitch_some hr]
    refine ⟨?_, ?_, ?_, rfl, rfl⟩
    all_goals
      intro u
      obtain ⟨ctx, valid, hl⟩ := leavingThread_eq s u
      simp only [switchedTo, hl]
      split
    · rfl
    · rfl
    · rfl
    · rfl
    · intro hno
      cases hno
    · exact fun h => h

theorem SameBlocks.unlinkThread (h : unlinkThread s t = some s') : SameBlocks s s' := by
  unfold Wbox.Thread.unlinkThread at h
  obtain ⟨found, -, h⟩ := Option.bind_eq_some_iff.mp h
  split at h
  · rw [← Option.some.inj h]
    exact .refl s
  · rw [← Option.some.inj h]
    exact ⟨fun _ => rfl, fun _ => rfl, fun _ h => h, rfl, rfl⟩
  · rw [← Option.some.inj h]
    exact .modifyThread s _ (fun _ => rfl) (fun _ => rfl) (fun _ h => h)

/-- A wait of the later state is one of the earlier state. -/
theorem SameBlocks.waitsOn_iff (h : SameBlocks s s') {wb : WbPtr} :
    s'.WaitsOn wb o ↔ s.WaitsOn wb o ∧ (s'.threads wb.thread).state = .waiting := by
  simp only [WboxScheduler.WaitsOn, WboxScheduler.block, h.blocks, h.count]
  constructor
  · rintro ⟨hst, hi, ho⟩
    exact ⟨⟨h.state wb.thread hst, hi, ho⟩, hst⟩
  · rintro ⟨⟨-, hi, ho⟩, hst⟩
    exact ⟨hst, hi, ho⟩

/-- If blocks and lists stay the same, the lists stay well formed exactly if every thread on one
of them goes on waiting. -/
theorem SameBlocks.waitLists_iff (hs : SameBlocks s s') (h : WaitLists s) :
    WaitLists s' ↔ ∀ u o, s.Waiter u o → (s'.threads u).state = .waiting := by
  have hlink : s'.blockLink = s.blockLink := by
    ext wb : 1
    simp only [WboxScheduler.blockLink, WboxScheduler.block, hs.blocks]
  constructor
  · rintro h' u o ⟨i, hi⟩
    obtain ⟨xs, hc, hmem⟩ := h.lists o
    obtain ⟨ys, hc', hmem'⟩ := h'.lists o
    rw [hlink, hs.head] at hc'
    have hxy : xs = ys := hc.unique hc'
    have hon : s'.WaitsOn ⟨u, i⟩ o := (hmem' _).mp (hxy ▸ (hmem _).mpr hi)
    exact hon.1
  · intro hw
    have hon : ∀ wb o, s'.WaitsOn wb o ↔ s.WaitsOn wb o := by
      intro wb o
      rw [hs.waitsOn_iff]
      constructor
      · exact And.left
      · intro hwb
        exact ⟨hwb, hw wb.thread o ⟨wb.index, hwb⟩⟩
    refine ⟨?_, ?_, ?_, ?_⟩
    · intro o
      rw [hlink, hs.head]
      simpa only [hon] using h.lists o
    · intro wb o hwb
      rw [WboxScheduler.block, hs.blocks]
      exact h.owner wb o ((hon wb o).mp hwb)
    · intro u hu
      rw [hs.count]
      exact h.count_le u (hs.state u hu)
    · intro u hu
      rw [hs.heapNext]
      exact h.allocated u (hs.state u hu)

theorem Dispatcher.Listed.setState {st : ThreadState} (h : d.Listed)
    (ht : st ≠ .waiting ∨ t ∉ d.ready) : (d.setState t st).Listed where
  allLimit := h.allLimit
  readyLimit := h.readyLimit
  queued := by
    intro u hu
    by_cases hut : u = t
    · subst hut
      rw [d.setState_self]
      exact ht.resolve_right (not_not.mpr hu)
    · rw [d.setState_of_ne _ hut]
      exact h.queued u hu

theorem Dispatcher.Listed.wake (h : d.Listed) (ht : t < d.limit) : (d.wake t).Listed where
  allLimit := h.allLimit
  readyLimit := by
    intro u hu
    rcases List.mem_append.mp hu with hu | hu
    · exact h.readyLimit u hu
    · rw [List.mem_singleton.mp hu]
      exact ht
  queued := by
    intro u hu
    by_cases hut : u = t
    · simp [hut, Dispatcher.wake, Dispatcher.enqueue, Dispatcher.setState]
    · have hmem : u ∈ d.ready := by
        rcases List.mem_append.mp hu with hu | hu
        · exact hu
        · exact absurd (List.mem_singleton.mp hu) hut
      simpa [Dispatcher.wake, Dispatcher.enqueue, Dispatcher.setState, hut] using h.queued u hmem

theorem Dispatcher.Listed.dispatch (h : d.Listed) : d.dispatch.Listed := by
  refine ⟨?_, ?_, ?_⟩
  · rw [d.dispatch_all, d.dispatch_limit]
    exact h.allLimit
  all_goals
    intro u hu
    have hmem : u ∈ d.ready := by
      cases hr : d.ready with
      | nil => simp [Dispatcher.dispatch_nil hr, Dispatcher.setCurrent, hr] at hu
      | cons n rest =>
        rw [Dispatcher.dispatch_cons hr] at hu
        exact List.mem_cons_of_mem n hu
  · rw [d.dispatch_limit]
    exact h.readyLimit u hmem
  · rcases d.dispatch_state u with he | ⟨-, he⟩
    · rw [he]
      exact h.queued u hmem
    · simp [he]

/-- A switch leaves a thread it does not switch to as it is, but for its saved context. -/
theorem schedulerSwitch_of_ne (h : s.readyHead ≠ some u) : ∃ ctx valid,
    (schedulerSwitch s).threads u = { s.threads u with context := ctx, contextValid := valid } := by
  cases hr : s.readyHead with
  | none =>
    rw [schedulerSwitch_none hr]
    exact ⟨(s.threads u).context, (s.threads u).contextValid, rfl⟩
  | some n =>
    have hun : u ≠ n := by
      rintro rfl
      exact h hr
    rw [schedulerSwitch_some hr]
    simp only [switchedTo, hun, if_false]
    exact leavingThread_eq s u

/-- The head of the queue is one of its threads. -/
theorem Represents.mem_ready (h : Represents s d) (hu : s.readyHead = some u) : u ∈ d.ready := by
  rw [h.ready.chain.head_eq] at hu
  exact List.mem_of_mem_head? hu

/-- `scheduler_remove_thread` returns, changes no wait block and lets every other WAITING thread
wait on. -/
theorem schedulerRemoveThread_spec (hr : Represents s d) (hl : d.Listed) (t : Ptr) :
    ∃ s', schedulerRemoveThread s t = some s' ∧ SameBlocks s s' ∧
      ∀ u, (s.threads u).state = .waiting → (s'.threads u).state = .waiting := by
  obtain ⟨a, ha, hra⟩ := hr.unlinkThread hl.allLimit t
  obtain ⟨b, hb, hrb⟩ := hra.removeReady hl.readyLimit t
  have hab : SameBlocks s b := (SameBlocks.unlinkThread ha).trans (.removeReady hb)
  have hstate : ∀ u, (b.threads u).state = (s.threads u).state :=
    fun u => (hrb.state u).trans (hr.state u).symm
  unfold schedulerRemoveThread
  simp only [ha, hb, Option.bind_eq_bind, Option.bind_some]
  split
  · refine ⟨_, rfl, hab.trans (.trans ?_ (.switch _)), ?_⟩
    · exact ⟨fun _ => rfl, fun _ => rfl, fun _ h => h, rfl, rfl⟩
    · intro u hu
      have hne : ({ b with currentThread := none } : WboxScheduler).readyHead ≠ some u := by
        intro hhead
        have hmem : u ∈ d.ready := List.mem_of_mem_erase (hrb.mem_ready hhead)
        exact hl.queued u hmem (hr.state u ▸ hu)
      obtain ⟨_, _, he⟩ := schedulerSwitch_of_ne hne
      rw [he]
      exact (hstate u).trans hu
  · exact ⟨b, rfl, hab, fun u hu => (hstate u).trans hu⟩

/-- Terminating a thread leaves the lists well formed exactly if it is on none of them. -/
theorem terminate_waitLists_iff (h : WaitLists s) (hr : Represents s d) (hl : d.Listed) (t : Ptr)
    (exitCode : UInt32) : ∃ s', schedulerRemoveThread (threadTerminate s t exitCode) t = some s' ∧
      (WaitLists s' ↔ ∀ o, ¬ s.Waiter t o) := by
  have hrt := hr.threadTerminate t exitCode
  have hlt : (d.setState t .terminated).Listed := hl.setState (Or.inl (by simp))
  obtain ⟨s', hs', hsame, hkept⟩ := schedulerRemoveThread_spec hrt hlt t
  have hterm : SameBlocks s (threadTerminate s t exitCode) := by
    unfold threadTerminate
    apply SameBlocks.modifyThread
    · exact fun _ => rfl
    · exact fun _ => rfl
    · intro th hth
      cases hth
  refine ⟨s', hs', ((hterm.trans hsame).waitLists_iff h).trans ?_⟩
  constructor
  · intro hw o ho
    have hst := hsame.state t (hw t o ho)
    simp [threadTerminate] at hst
  · rintro hn u o ⟨i, hi⟩
    have hut : u ≠ t := by
      rintro rfl
      exact hn o ⟨i, hi⟩
    apply hkept
    rw [threadTerminate, s.modifyThread_of_ne _ hut]
    exact hi.1

/-- Setting up a wait block is an update of one block of the thread. -/
theorem registerBlock_threads (s : WboxScheduler) (t : Ptr) (i : Nat) (object : Option Ptr) :
    (registerBlock s t i object).threads = (s.modifyThread t fun th =>
      { th with
        waitBlocks := Function.update th.waitBlocks i
          ⟨some t, object, object.bind s.waitHead, i⟩ }).threads := by
  cases object with
  | none => rfl
  | some o => rfl

private theorem registerBlock_block (s : WboxScheduler) (t : Ptr) (i : Nat) (object : Option Ptr) :
    (registerBlock s t i object).block =
      Function.update s.block ⟨t, i⟩ ⟨some t, object, object.bind s.waitHead, i⟩ := by
  ext ⟨u, j⟩ : 1
  rw [WboxScheduler.block, registerBlock_threads, WboxScheduler.modifyThread_threads]
  by_cases hu : u = t
  · subst hu
    by_cases hj : j = i
    · subst hj
      simp
    · have hne : (⟨u, j⟩ : WbPtr) ≠ ⟨u, i⟩ := by
        intro he
        exact hj (congrArg WbPtr.index he)
      simp [hj, hne, WboxScheduler.block]
  · have hne : (⟨u, j⟩ : WbPtr) ≠ ⟨t, i⟩ := by
      intro he
      exact hu (congrArg WbPtr.thread he)
    simp [hu, hne, WboxScheduler.block]

private theorem registerBlock_blockLink (s : WboxScheduler) (t : Ptr) (i : Nat)
    (object : Option Ptr) : (registerBlock s t i object).blockLink =
      Function.update s.blockLink ⟨t, i⟩ (object.bind s.waitHead) := by
  ext wb : 1
  rw [WboxScheduler.blockLink, registerBlock_block]
  by_cases h : wb = ⟨t, i⟩
  · subst h
    simp
  · simp [h, WboxScheduler.blockLink]

private theorem registerBlock_waitHead (s : WboxScheduler) (t : Ptr) (i : Nat)
    (object : Option Ptr) (o : Ptr) : (registerBlock s t i object).waitHead o =
      if object = some o then some ⟨t, i⟩ else s.waitHead o := by
  cases object with
  | none => simp [registerBlock, WboxScheduler.waitHead, WboxScheduler.modifyThread]
  | some x =>
    by_cases hx : o = x
    · subst hx
      simp [registerBlock, WboxScheduler.waitHead, WboxScheduler.setWaitList,
        WboxScheduler.modifyObject]
    · simp [registerBlock, WboxScheduler.waitHead, WboxScheduler.setWaitList,
        WboxScheduler.modifyObject, WboxScheduler.modifyThread, hx, Ne.symm hx]

/-- `s` is `s₀` after blocks of `t` for the objects `os` have been pushed on their lists. -/
private structure Pushed (s₀ : WboxScheduler) (t : Ptr) (os : List (Option Ptr))
    (s : WboxScheduler) : Prop where
  lists : ∀ o, ∃ xs, Chain s.blockLink (s.waitHead o) xs ∧
    ∀ wb, wb ∈ xs ↔ s₀.WaitsOn wb o ∨ (wb.thread = t ∧ os[wb.index]? = some (some o))
  block : ∀ i object, os[i]? = some object →
    (s.block ⟨t, i⟩).thread = some t ∧ (s.block ⟨t, i⟩).object = object
  others : ∀ u, u ≠ t → s.threads u = s₀.threads u
  heapNext : s.heapNext = s₀.heapNext

private theorem Pushed.push {s₀ : WboxScheduler} {os : List (Option Ptr)} {object : Option Ptr}
    (h : Pushed s₀ t os s) (ht : (s₀.threads t).state ≠ .waiting) :
    Pushed s₀ t (os ++ [object]) (registerBlock s t os.length object) := by
  have hat : ∀ i x, (os ++ [object])[i]? = some x ↔
      os[i]? = some x ∨ (i = os.length ∧ object = x) := by
    intro i x
    rcases Nat.lt_trichotomy i os.length with hi | rfl | hi
    · simp [List.getElem?_append_left hi, Nat.ne_of_lt hi]
    · simp
    · have h1 : os[i]? = none := List.getElem?_eq_none (Nat.le_of_lt hi)
      have h2 : (os ++ [object])[i]? = none := List.getElem?_eq_none (by
        simp only [List.length_append, List.length_singleton]
        omega)
      simp [h1, h2, Nat.ne_of_gt hi]
  have hnew : ∀ o (xs : List WbPtr), (∀ wb, wb ∈ xs ↔ s₀.WaitsOn wb o ∨
      (wb.thread = t ∧ os[wb.index]? = some (some o))) → (⟨t, os.length⟩ : WbPtr) ∉ xs := by
    intro o xs hxs hmem
    rcases (hxs _).mp hmem with hon | ⟨-, hi⟩
    · exact ht hon.1
    · simp at hi
  refine ⟨?_, ?_, ?_, ?_⟩
  · intro o
    obtain ⟨xs, hc, hmem⟩ := h.lists o
    have hnot := hnew o xs hmem
    have hkeep : Chain (registerBlock s t os.length object).blockLink (s.waitHead o) xs := by
      apply hc.congr
      intro wb hwb
      rw [registerBlock_blockLink, Function.update_of_ne]
      rintro rfl
      exact hnot hwb
    by_cases ho : object = some o
    · refine ⟨⟨t, os.length⟩ :: xs, ⟨?_, ?_⟩, ?_⟩
      · rw [registerBlock_waitHead, if_pos ho]
      · have hlink : (registerBlock s t os.length object).blockLink ⟨t, os.length⟩ =
            s.waitHead o := by
          rw [registerBlock_blockLink, Function.update_self, ho]
          rfl
        rwa [hlink]
      · intro wb
        obtain ⟨u, i⟩ := wb
        rw [List.mem_cons, hmem, hat, WbPtr.mk.injEq]
        tauto
    · refine ⟨xs, ?_, ?_⟩
      · rwa [registerBlock_waitHead, if_neg ho]
      · intro wb
        rw [hmem, hat]
        tauto
  · intro i x hx
    rw [registerBlock_block]
    rcases (hat i x).mp hx with hi | ⟨rfl, rfl⟩
    · have hlt : i < os.length := (List.getElem?_eq_some_iff.mp hi).1
      have hne : (⟨t, i⟩ : WbPtr) ≠ ⟨t, os.length⟩ := by
        intro he
        exact Nat.ne_of_lt hlt (congrArg WbPtr.index he)
      rw [Function.update_of_ne hne]
      exact h.block i x hi
    · rw [Function.update_self]
      exact ⟨rfl, rfl⟩
  · intro u hu
    rw [registerBlock_threads, s.modifyThread_of_ne _ hu]
    exact h.others u hu
  · rw [← h.heapNext]
    cases object with
    | none => rfl
    | some x => rfl

private theorem Pushed.pushAll {s₀ : WboxScheduler} {os rest : List (Option Ptr)}
    (h : Pushed s₀ t os s) (ht : (s₀.threads t).state ≠ .waiting) :
    Pushed s₀ t (os ++ rest) (registerBlocks t os.length rest s) := by
  induction rest generalizing os s with
  | nil => simpa [registerBlocks] using h
  | cons object rest ih =>
    have hpush : Pushed s₀ t (os ++ [object]) (registerBlock s t os.length object) := h.push ht
    have hnext := ih hpush
    simpa [registerBlocks] using hnext

/-- Setting up the blocks changes nothing else of the thread. -/
theorem registerBlocks_self (t : Ptr) (i : Nat) (os : List (Option Ptr)) (s : WboxScheduler) :
    ∃ blocks, (registerBlocks t i os s).threads t =
      { s.threads t with waitBlocks := blocks } := by
  induction os generalizing i s with
  | nil => exact ⟨(s.threads t).waitBlocks, rfl⟩
  | cons object rest ih =>
    obtain ⟨blocks, hb⟩ := ih (i + 1) (registerBlock s t i object)
    refine ⟨blocks, ?_⟩
    rw [registerBlocks, hb, registerBlock_threads, s.modifyThread_self]

/-- The clock and its offset are the same, and no reading has been taken. -/
structure SameClock (s s' : WboxScheduler) : Prop where
  clock : s'.clock = s.clock
  reads : s'.clockReads = s.clockReads
  offset : s'.timeOffset = s.timeOffset

theorem SameClock.trans (h : SameClock s s') (h' : SameClock s' s'') : SameClock s s'' where
  clock := h'.clock.trans h.clock
  reads := h'.reads.trans h.reads
  offset := h'.offset.trans h.offset

theorem SameClock.switch (s : WboxScheduler) : SameClock s (schedulerSwitch s) := by
  cases hr : s.readyHead with
  | none =>
    rw [schedulerSwitch_none hr]
    exact ⟨rfl, rfl, rfl⟩
  | some n =>
    rw [schedulerSwitch_some hr]
    exact ⟨rfl, rfl, rfl⟩

theorem SameClock.registerBlocks (t : Ptr) (i : Nat) (os : List (Option Ptr))
    (s : WboxScheduler) : SameClock s (registerBlocks t i os s) := by
  induction os generalizing i s with
  | nil => exact ⟨rfl, rfl, rfl⟩
  | cons object rest ih =>
    refine SameClock.trans ?_ (ih (i + 1) _)
    cases object with
    | none => exact ⟨rfl, rfl, rfl⟩
    | some o => exact ⟨rfl, rfl, rfl⟩

theorem SameClock.blockEnter (s : WboxScheduler) (t : Ptr) (os : List (Option Ptr))
    (waitType : WaitType) (timeout : UInt64) (alertable : Bool) :
    SameClock s (schedulerBlockEnter s t os waitType timeout alertable) := by
  unfold schedulerBlockEnter
  refine SameClock.trans ?_ (.switch _)
  have h := SameClock.registerBlocks t 0 os
    (prepareWait s t os.length waitType timeout alertable)
  exact ⟨h.clock, h.reads, h.offset⟩

/-- The thread waits for its deadline and has not been woken. -/
structure Awaits (th : WboxThread) (deadline : UInt64) : Prop where
  state : th.state = .waiting
  timeout : th.waitTimeout = deadline
  status : th.waitStatus = statusNotSet

theorem parkThread_self (s : WboxScheduler) (t : Ptr) : (parkThread s t).threads t =
    { s.threads t with
      state := .waiting
      context := s.cpu.regs
      contextValid := true
      waitStatus := statusNotSet } := by
  rw [parkThread_eq, WboxScheduler.setState, WboxScheduler.modifyThread_modifyThread,
    WboxScheduler.modifyThread_self]

theorem parkThread_of_ne (s : WboxScheduler) (h : u ≠ t) :
    (parkThread s t).threads u = s.threads u := by
  rw [parkThread_eq, WboxScheduler.setState, WboxScheduler.modifyThread_modifyThread,
    WboxScheduler.modifyThread_of_ne _ _ h]

theorem parkThread_block (s : WboxScheduler) (t : Ptr) : (parkThread s t).block = s.block := by
  ext wb : 1
  by_cases h : wb.thread = t
  · rw [WboxScheduler.block, h, parkThread_self, WboxScheduler.block, h]
  · rw [WboxScheduler.block, parkThread_of_ne s h]
    rfl

/-- The lists are well formed once a thread with a block for each object has been parked. -/
private theorem Pushed.park {s₀ : WboxScheduler} {os : List (Option Ptr)} (hp : Pushed s₀ t os s)
    (h : WaitLists s₀) (hl : t < s₀.heapNext) (ht : (s₀.threads t).state ≠ .waiting)
    (hcount : (s.threads t).waitCount = os.length) (hos : os.length ≤ threadWaitObjects) :
    WaitLists (parkThread s t) ∧ ∀ o, (parkThread s t).Waiter t o ↔ some o ∈ os := by
  have hother : ∀ u, u ≠ t → (parkThread s t).threads u = s₀.threads u := by
    intro u hu
    rw [parkThread_of_ne s hu]
    exact hp.others u hu
  have hcount' : ((parkThread s t).threads t).waitCount = os.length := by
    rw [parkThread_self]
    exact hcount
  have hstate : ((parkThread s t).threads t).state = .waiting := by
    rw [parkThread_self]
  have hon : ∀ wb o, (parkThread s t).WaitsOn wb o ↔
      s₀.WaitsOn wb o ∨ (wb.thread = t ∧ os[wb.index]? = some (some o)) := by
    rintro ⟨u, i⟩ o
    by_cases hu : u = t
    · subst hu
      have hno : ¬ s₀.WaitsOn ⟨u, i⟩ o := fun hwb => ht hwb.1
      simp only [hno, false_or, true_and]
      rw [WboxScheduler.WaitsOn, parkThread_block]
      constructor
      · rintro ⟨-, hi, ho⟩
        have hi' : i < os.length := hcount' ▸ hi
        have hat : os[i]? = some os[i] := List.getElem?_eq_getElem hi'
        rw [(hp.block i _ hat).2] at ho
        rw [hat, ho]
      · intro ho
        have hi : i < os.length := (List.getElem?_eq_some_iff.mp ho).1
        exact ⟨hstate, hcount'.symm ▸ hi, (hp.block i _ ho).2⟩
    · simp only [WboxScheduler.WaitsOn, WboxScheduler.block, hother u hu, hu, false_and, or_false]
  refine ⟨⟨?_, ?_, ?_, ?_⟩, ?_⟩
  · intro o
    obtain ⟨xs, hc, hmem⟩ := hp.lists o
    have hlink : (parkThread s t).blockLink = s.blockLink := by
      ext wb : 1
      rw [WboxScheduler.blockLink, WboxScheduler.blockLink, parkThread_block]
    refine ⟨xs, by rwa [hlink], ?_⟩
    intro wb
    rw [hmem, hon]
  · rintro ⟨u, i⟩ o hwb
    rcases (hon _ o).mp hwb with hs | ⟨rfl, hi⟩
    · have hut : u ≠ t := by
        rintro rfl
        exact ht hs.1
      have howner := h.owner _ o hs
      rw [WboxScheduler.block, hother u hut]
      exact howner
    · rw [parkThread_block]
      exact (hp.block i _ hi).1
  · intro u hu
    by_cases hut : u = t
    · subst hut
      rw [hcount']
      exact hos
    · rw [hother u hut] at hu ⊢
      exact h.count_le u hu
  · intro u hu
    have hnext : (parkThread s t).heapNext = s₀.heapNext := hp.heapNext
    rw [hnext]
    by_cases hut : u = t
    · exact hut ▸ hl
    · rw [hother u hut] at hu
      exact h.allocated u hu
  · intro o
    constructor
    · rintro ⟨i, hi⟩
      rcases (hon _ o).mp hi with hs | ⟨-, hat⟩
      · exact absurd hs.1 ht
      · exact List.mem_of_getElem? hat
    · intro ho
      obtain ⟨i, hi⟩ := List.mem_iff_getElem?.mp ho
      exact ⟨i, (hon _ o).mpr (Or.inr ⟨rfl, hi⟩)⟩

/-- Recording the wait touches no list. -/
private theorem pushed_prepareWait (h : WaitLists s) (t : Ptr) (n : Nat) (waitType : WaitType)
    (timeout : UInt64) (alertable : Bool) :
    Pushed s t [] (prepareWait s t n waitType timeout alertable) := by
  have hlink : (prepareWait s t n waitType timeout alertable).blockLink = s.blockLink := by
    ext wb : 1
    simp only [WboxScheduler.blockLink, WboxScheduler.block, prepareWait,
      WboxScheduler.modifyThread_threads]
    split
    · rfl
    · rfl
  have hhead : (prepareWait s t n waitType timeout alertable).waitHead = s.waitHead := rfl
  refine ⟨?_, by simp, fun u hu => s.modifyThread_of_ne _ hu, rfl⟩
  intro o
  rw [hlink, hhead]
  simpa using h.lists o

/-- A blocking call up to its waiting loop: the lists are well formed, with blocks of the caller
for its objects, and the caller awaits its deadline. -/
theorem schedulerBlockEnter_spec (h : WaitLists s) (hd : Dispatchable s d)
    (ht : s.currentThread = some t) {os : List (Option Ptr)}
    (hos : os.length ≤ threadWaitObjects) (waitType : WaitType) (timeout : UInt64)
    (alertable : Bool) :
    let s' := schedulerBlockEnter s t os waitType timeout alertable
    WaitLists s' ∧ (∀ o, s'.Waiter t o ↔ some o ∈ os) ∧ Awaits (s'.threads t) timeout := by
  intro s'
  have hcur := hd.current t (hd.represents.current ▸ ht)
  have hst : (s.threads t).state ≠ .waiting := by
    rw [hd.represents.state]
    exact hcur.2.1
  have hl : t < s.heapNext := by
    rw [hd.represents.limit]
    exact hcur.1
  obtain ⟨blocks, hself⟩ := registerBlocks_self t 0 os
    (prepareWait s t os.length waitType timeout alertable)
  rw [show (prepareWait s t os.length waitType timeout alertable).threads t = _ from
    s.modifyThread_self t _] at hself
  have hcount : ((registerBlocks t 0 os (prepareWait s t os.length waitType timeout
      alertable)).threads t).waitCount = os.length := congrArg WboxThread.waitCount hself
  have hp : Pushed s t os
      (registerBlocks t 0 os (prepareWait s t os.length waitType timeout alertable)) :=
    (pushed_prepareWait h t os.length waitType timeout alertable).pushAll hst
  obtain ⟨hlists, hwaiter⟩ := hp.park h hl hst hcount hos
  have hrep := hd.represents.parkThread t os waitType timeout alertable
  have hhead : ∀ u, d.state u = .waiting ∨ u = t → (parkThread (registerBlocks t 0 os
      (prepareWait s t os.length waitType timeout alertable)) t).readyHead ≠ some u := by
    intro u hu hhead
    have hmem : u ∈ d.ready := hrep.mem_ready hhead
    rcases hu with hw | rfl
    · exact hd.listed.queued u hmem hw
    · exact hcur.2.2 hmem
  obtain ⟨_, _, hsw⟩ := schedulerSwitch_of_ne (hhead t (Or.inr rfl))
  have haw : Awaits (s'.threads t) timeout := by
    show Awaits ((schedulerSwitch _).threads t) timeout
    rw [hsw, parkThread_self, hself]
    exact ⟨rfl, rfl, rfl⟩
  have hsame := SameBlocks.switch (parkThread (registerBlocks t 0 os
    (prepareWait s t os.length waitType timeout alertable)) t)
  refine ⟨(hsame.waitLists_iff hlists).mpr ?_, ?_, haw⟩
  · rintro u o ⟨i, hi⟩
    have hu : d.state u = .waiting ∨ u = t := by
      by_cases hut : u = t
      · exact Or.inr hut
      · left
        have hw := (hrep.state u).symm.trans hi.1
        rwa [d.setState_of_ne _ hut] at hw
    obtain ⟨_, _, he⟩ := schedulerSwitch_of_ne (hhead u hu)
    rw [he]
    exact hi.1
  · intro o
    rw [← hwaiter]
    exact exists_congr fun i => hsame.waitsOn_iff.trans (and_iff_left haw.state)

/-- `s'` is `s` after the expired waits among those of the threads `ts` have been ended. -/
structure TimedOut (now : UInt64) (ts : List Ptr) (s s' : WboxScheduler) : Prop where
  lists : WaitLists s'
  expired : ∀ u ∈ ts, waitExpired (s.threads u) now = true → (s'.threads u).state = .ready
  kept : ∀ u, (u ∈ ts → waitExpired (s.threads u) now = false) →
    KeepsWait (s.threads u) (s'.threads u)
  clock : SameClock s s'
  allThreads : s'.allThreads = s.allThreads
  link : s'.threadLink = s.threadLink
  heapNext : s'.heapNext = s.heapNext

theorem KeepsWait.waitExpired {th th' : WboxThread} (h : KeepsWait th th') (now : UInt64) :
    waitExpired th' now = waitExpired th now := by
  obtain ⟨nexts, ready, rfl⟩ := h
  rfl

/-- The loop over the list of all threads ends every expired wait and no other. -/
theorem checkTimeoutsFrom_spec {now : UInt64} {n : Nat} {p : Option Ptr} {ts : List Ptr}
    (h : WaitLists s) (hc : Chain s.threadLink p ts) (hn : ts.length ≤ n) :
    ∃ s', checkTimeoutsFrom now n p s = some s' ∧ TimedOut now ts s s' := by
  induction ts generalizing s p n with
  | nil =>
    have hp : p = none := hc
    subst hp
    refine ⟨s, by cases n <;> rfl, h, by simp, fun u _ => .refl _, ⟨rfl, rfl, rfl⟩, rfl, rfl, rfl⟩
  | cons u rest ih =>
    obtain ⟨rfl, hrest⟩ := hc
    have hnot : u ∉ rest := (List.nodup_cons.mp (Chain.nodup (h := some u) ⟨rfl, hrest⟩)).1
    cases n with
    | zero => simp at hn
    | succ n =>
      have hn' : rest.length ≤ n := by simpa using hn
      simp only [checkTimeoutsFrom]
      cases hx : waitExpired (s.threads u) now with
      | false =>
        obtain ⟨s', hs', ht⟩ := ih h hrest hn'
        refine ⟨s', by simpa using hs', ht.lists, ?_, ?_, ht.clock, ht.allThreads, ht.link,
          ht.heapNext⟩
        · intro v hv hxv
          rcases List.mem_cons.mp hv with rfl | hv
          · rw [hx] at hxv
            cases hxv
          · exact ht.expired v hv hxv
        · intro v hv
          exact ht.kept v fun hmem => hv (List.mem_cons_of_mem u hmem)
      | true =>
        obtain ⟨a, ha, he⟩ := expireWait_spec h (of_decide_eq_true hx).1
        have hlink := he.woken.threadLink
        have hrest' : Chain a.threadLink (a.threadLink u) rest := by rwa [hlink]
        obtain ⟨s', hs', ht⟩ := ih he.lists hrest' hn'
        obtain ⟨nexts, lists, links, head, tail, heq⟩ := he.woken.eq
        have hclock : SameClock s a := by
          rw [heq]
          exact ⟨rfl, rfl, rfl⟩
        have hall : a.allThreads = s.allThreads := by rw [heq]; rfl
        have hnext : a.heapNext = s.heapNext := by rw [heq]; rfl
        refine ⟨s', by simpa [ha] using hs', ht.lists, ?_, ?_, hclock.trans ht.clock,
          ht.allThreads.trans hall, ht.link.trans hlink, ht.heapNext.trans hnext⟩
        · intro v hv hxv
          rcases List.mem_cons.mp hv with rfl | hmem
          · obtain ⟨_, _, hk⟩ := ht.kept v fun hmem => absurd hmem hnot
            rw [hk]
            exact he.ready
          · have hvu : v ≠ u := by
              rintro rfl
              exact hnot hmem
            exact ht.expired v hmem (((he.kept v hvu).waitExpired now).trans hxv)
        · intro v hv
          have hvu : v ≠ u := by
            rintro rfl
            rw [hv List.mem_cons_self] at hx
            cases hx
          have hk := he.kept v hvu
          refine hk.trans (ht.kept v fun hmem => ?_)
          rw [hk.waitExpired]
          exact hv (List.mem_cons_of_mem u hmem)

/-- `scheduler_check_timeouts` ends every wait whose deadline has come. -/
theorem schedulerCheckTimeouts_spec {ts : List Ptr} (h : WaitLists s)
    (hc : Chain s.threadLink s.allThreads ts) (hb : ∀ t ∈ ts, t < s.heapNext) :
    ∃ s', schedulerCheckTimeouts s = some s' ∧
      TimedOut (s.clock s.clockReads + s.timeOffset) ts
        { s with clockReads := s.clockReads + 1 } s' := by
  have h1 : WaitLists { s with clockReads := s.clockReads + 1 } :=
    h.of_same rfl rfl (fun _ => ⟨rfl, rfl, rfl⟩) (Nat.le_refl _)
  exact checkTimeoutsFrom_spec h1 hc (hc.length_le hb)

/-- The lists at a check of the timeouts: those of waits, and `ts` that of all threads. -/
structure Polling (s : WboxScheduler) (ts : List Ptr) : Prop where
  lists : WaitLists s
  all : Chain s.threadLink s.allThreads ts
  limit : ∀ u ∈ ts, u < s.heapNext

theorem Polling.check {ts : List Ptr} (h : Polling s ts) :
    ∃ s', schedulerCheckTimeouts s = some s' ∧ Polling s' ts ∧
      TimedOut (s.clock s.clockReads + s.timeOffset) ts
        { s with clockReads := s.clockReads + 1 } s' := by
  obtain ⟨s', hs', ht⟩ := schedulerCheckTimeouts_spec h.lists h.all h.limit
  refine ⟨s', hs', ⟨ht.lists, ?_, ?_⟩, ht⟩
  · rw [ht.link, ht.allThreads]
    exact h.all
  · rw [ht.heapNext]
    exact h.limit

theorem Awaits.of_keepsWait {th th' : WboxThread} {deadline : UInt64} (h : Awaits th deadline)
    (hk : KeepsWait th th') : Awaits th' deadline := by
  obtain ⟨nexts, ready, rfl⟩ := hk
  exact ⟨h.state, h.timeout, h.status⟩

theorem Awaits.waitExpired_iff {th : WboxThread} {deadline now : UInt64} (h : Awaits th deadline)
    (h0 : deadline ≠ 0) : waitExpired th now = true ↔ deadline ≤ now := by
  unfold waitExpired
  rw [decide_eq_true_iff, h.state, h.timeout]
  exact ⟨fun hx => hx.2.2, fun hle => ⟨rfl, h0, hle⟩⟩

/-- One check either finds the deadline come and ends the wait, or lets the thread wait on. -/
private theorem TimedOut.awaits {now deadline : UInt64} {ts : List Ptr}
    (h : TimedOut now ts s s') (ht : Awaits (s.threads t) deadline) (h0 : deadline ≠ 0) :
    (t ∈ ts ∧ deadline ≤ now → (s'.threads t).state = .ready) ∧
      (¬ (t ∈ ts ∧ deadline ≤ now) → KeepsWait (s.threads t) (s'.threads t)) := by
  constructor
  · rintro ⟨hmem, hle⟩
    exact h.expired t hmem ((ht.waitExpired_iff h0).mpr hle)
  · intro hno
    apply h.kept t
    intro hmem
    have hle : ¬ deadline ≤ now := fun hle => hno ⟨hmem, hle⟩
    rw [← ht.waitExpired_iff h0] at hle
    exact Bool.eq_false_iff.mpr hle

/-- A round of the waiting loop ends the wait if the deadline has come at one of its checks. -/
theorem schedulerBlockPoll_spec {deadline : UInt64} {ts : List Ptr} (h : Polling s ts)
    (ht : Awaits (s.threads t) deadline) (h0 : deadline ≠ 0) :
    ∃ s', schedulerBlockPoll s t = some s' ∧ Polling s' ts ∧
      (t ∈ ts ∧ DueInRound s.clock deadline s.clockReads s.timeOffset →
        (s'.threads t).state = .ready) ∧
      (¬ (t ∈ ts ∧ DueInRound s.clock deadline s.clockReads s.timeOffset) →
        KeepsWait (s.threads t) (s'.threads t) ∧ s'.clock = s.clock ∧
          s'.clockReads = s.clockReads + 3 ∧
            s'.timeOffset = jumpOffset s.clock deadline s.clockReads s.timeOffset) := by
  obtain ⟨a, ha, hpa, hta⟩ := h.check
  obtain ⟨hend, hkeep⟩ := hta.awaits ht h0
  unfold schedulerBlockPoll
  simp only [ha, Option.bind_eq_bind, Option.bind_some]
  by_cases hdue : t ∈ ts ∧ deadline ≤ s.clock s.clockReads + s.timeOffset
  · have hready := hend hdue
    rw [if_neg (by simp [hready])]
    exact ⟨a, rfl, hpa, fun _ => hready, fun hno => absurd ⟨hdue.1, Or.inl hdue.2⟩ hno⟩
  · have hka := hkeep hdue
    have haw : Awaits (a.threads t) deadline := ht.of_keepsWait hka
    rw [if_pos ⟨haw.state, haw.timeout.symm ▸ h0⟩]
    have hff : fastForward a t = { a with
        clockReads := a.clockReads + 1
        timeOffset := jumpOffset s.clock deadline s.clockReads s.timeOffset } := by
      obtain ⟨hclock, hreads, hoffset⟩ := hta.clock
      simp only [fastForward, schedulerGetTime100ns, schedulerAdvanceTime, jumpOffset, hclock,
        hreads, hoffset, haw.timeout]
      split
      · rfl
      · rw [← hoffset]
    have hpb : Polling (fastForward a t) ts := by
      rw [hff]
      exact ⟨hpa.lists.of_same rfl rfl (fun _ => ⟨rfl, rfl, rfl⟩) (Nat.le_refl _), hpa.all,
        hpa.limit⟩
    have hthreads : (fastForward a t).threads = a.threads := by rw [hff]
    obtain ⟨b, hb, hpb', htb⟩ := hpb.check
    obtain ⟨hend', hkeep'⟩ := htb.awaits (hthreads ▸ haw) h0
    have hnow : (fastForward a t).clock (fastForward a t).clockReads +
        (fastForward a t).timeOffset = s.clock (s.clockReads + 2) +
          jumpOffset s.clock deadline s.clockReads s.timeOffset := by
      rw [hff]
      simp only [hta.clock.clock, hta.clock.reads]
    rw [hnow] at hend' hkeep'
    refine ⟨b, hb, hpb', ?_, ?_⟩
    · rintro ⟨hmem, hle | hle⟩
      · exact absurd ⟨hmem, hle⟩ hdue
      · exact hend' ⟨hmem, hle⟩
    · intro hno
      have hkb := hkeep' fun hle => hno ⟨hle.1, Or.inr hle.2⟩
      refine ⟨hka.trans (hthreads ▸ hkb), ?_, ?_, ?_⟩
      · rw [htb.clock.clock, hff]
        exact hta.clock.clock
      · rw [htb.clock.reads, hff]
        simp only [hta.clock.reads]
      · rw [htb.clock.offset, hff]

/-- The waiting loop ends with the caller not WAITING, and has unlinked it if the deadline came in
one of its rounds. `a` is the state before the safety break. -/
theorem schedulerBlockLoop_spec {deadline : UInt64} {ts : List Ptr} (left : Nat)
    (h : Polling s ts) (ht : Awaits (s.threads t) deadline) (h0 : deadline ≠ 0) :
    ∃ a s', schedulerBlockLoop t left s = some s' ∧ WaitLists a ∧ SameBlocks a s' ∧
      (s'.threads t).state ≠ .waiting ∧
      (∀ u, u ≠ t → (a.threads u).state = .waiting → (s'.threads u).state = .waiting) ∧
      ∀ o, a.Waiter t o ↔ s.Waiter t o ∧
        ¬ (t ∈ ts ∧ ComesDue s.clock deadline left s.clockReads s.timeOffset) := by
  have hbreak : ∀ b : WboxScheduler, SameBlocks b (b.modifyThread t fun th =>
      { th with waitStatus := statusTimeout, state := .ready }) := by
    intro b
    refine .modifyThread b t (fun _ => rfl) (fun _ => rfl) ?_
    intro th hth
    cases hth
  have hpend : waitPending (s.threads t) = true := decide_eq_true ⟨ht.state, ht.status⟩
  induction left generalizing s with
  | zero =>
    obtain ⟨b, hb, hpb, hend, hkeep⟩ := schedulerBlockPoll_spec h ht h0
    have hno : ¬ ((b.threads t).state = .waiting ∧ (b.threads t).waitTimeout = 0) := by
      rintro ⟨hw, hz⟩
      by_cases hdue : t ∈ ts ∧ DueInRound s.clock deadline s.clockReads s.timeOffset
      · rw [hend hdue] at hw
        cases hw
      · exact h0 ((ht.of_keepsWait (hkeep hdue).1).timeout ▸ hz)
    refine ⟨b, _, ?_, hpb.lists, hbreak b, ?_, ?_, ?_⟩
    · unfold schedulerBlockLoop
      simp only [hpend, if_true, hb, Option.bind_eq_bind, Option.bind_some, if_neg hno]
      rfl
    · rw [b.modifyThread_self]
      simp
    · intro u hu hw
      rwa [b.modifyThread_of_ne _ hu]
    · intro o
      by_cases hdue : t ∈ ts ∧ DueInRound s.clock deadline s.clockReads s.timeOffset
      · have hready := hend hdue
        refine ⟨?_, fun hw => absurd hdue hw.2⟩
        rintro ⟨i, hi, -⟩
        rw [show (⟨t, i⟩ : WbPtr).thread = t from rfl, hready] at hi
        cases hi
      · refine Iff.trans ?_ (and_iff_left hdue).symm
        exact exists_congr fun i => (hkeep hdue).1.waitsOn
  | succ left ih =>
    obtain ⟨b, hb, hpb, hend, hkeep⟩ := schedulerBlockPoll_spec h ht h0
    by_cases hdue : t ∈ ts ∧ DueInRound s.clock deadline s.clockReads s.timeOffset
    · have hready := hend hdue
      have hnot : waitPending (b.threads t) = false := by simp [waitPending, hready]
      have hstop : schedulerBlockLoop t left b = some b := by
        unfold schedulerBlockLoop
        simp [hnot]
      refine ⟨b, b, ?_, hpb.lists, .refl b, by simp [hready], fun _ _ hw => hw, ?_⟩
      · unfold schedulerBlockLoop
        simp only [hpend, if_true, hb, Option.bind_eq_bind, Option.bind_some, hready]
        simpa using hstop
      · intro o
        refine ⟨?_, fun hw => absurd ⟨hdue.1, Or.inl hdue.2⟩ hw.2⟩
        rintro ⟨i, hi, -⟩
        rw [show (⟨t, i⟩ : WbPtr).thread = t from rfl, hready] at hi
        cases hi
    · obtain ⟨hk, hclock, hreads, hoffset⟩ := hkeep hdue
      have haw := ht.of_keepsWait hk
      have hno : ¬ ((b.threads t).state = .waiting ∧ (b.threads t).waitTimeout = 0) :=
        fun hz => h0 (haw.timeout ▸ hz.2)
      obtain ⟨a, s', hs', hlists, hsame, hst, hothers, hwaiter⟩ :=
        ih hpb haw (decide_eq_true ⟨haw.state, haw.status⟩)
      rw [hclock, hreads, hoffset] at hwaiter
      refine ⟨a, s', ?_, hlists, hsame, hst, hothers, ?_⟩
      · unfold schedulerBlockLoop
        simp only [hpend, if_true, hb, Option.bind_eq_bind, Option.bind_some, if_neg hno]
        exact hs'
      · intro o
        have hwb : b.Waiter t o ↔ s.Waiter t o := exists_congr fun i => hk.waitsOn
        rw [hwaiter, hwb]
        simp only [ComesDue]
        tauto

/-- At the end of a blocking call its caller becomes RUNNING; no block or list is touched. -/
theorem schedulerBlockReturn_sameBlocks {status : UInt32}
    (h : schedulerBlockReturn s t = some (s', status)) :
    SameBlocks s s' ∧ ∀ u, u ≠ t → (s'.threads u).state = (s.threads u).state := by
  unfold schedulerBlockReturn at h
  obtain ⟨a, ha, h⟩ := Option.bind_eq_some_iff.mp h
  have hs' := congrArg Prod.fst (Option.some.inj h)
  dsimp only at hs'
  have hthreads : (restoreCurrent s t).threads = s.threads := by
    unfold restoreCurrent
    split
    · rfl
    · rfl
  have hcur : SameBlocks s (restoreCurrent s t) := by
    unfold restoreCurrent
    split
    · exact ⟨fun _ => rfl, fun _ => rfl, fun _ h => h, rfl, rfl⟩
    · exact .refl s
  have hset : SameBlocks a (a.setState t .running) := by
    refine .modifyThread a t (fun _ => rfl) (fun _ => rfl) ?_
    intro th hth
    cases hth
  have hidle : SameBlocks (a.setState t .running) s' := by
    rw [← hs']
    exact ⟨fun _ => rfl, fun _ => rfl, fun _ h => h, rfl, rfl⟩
  refine ⟨((hcur.trans (.removeReady ha)).trans hset).trans hidle, ?_⟩
  intro u hu
  obtain ⟨links, head, tail, rfl⟩ := schedulerRemoveReady_eq ha
  rw [← hs']
  show ((((restoreCurrent s t).withReady links head tail).setState t .running).threads u).state = _
  rw [WboxScheduler.setState, WboxScheduler.modifyThread_of_ne _ _ hu]
  simp only [WboxScheduler.withReady, hthreads]

/-- The waiting loop and the return leave the lists well formed exactly if the wait is for no
object or its deadline comes. -/
private theorem schedulerBlockFinish_waitLists_iff (h : WaitLists s) (hr : Represents s d)
    (hl : d.Listed) {deadline : UInt64} (ht : Awaits (s.threads t) deadline) (h0 : deadline ≠ 0) :
    ∃ s' status, schedulerBlockFinish s t = some (s', status) ∧
      (WaitLists s' ↔ ∀ o, ¬ (s.Waiter t o ∧
        ¬ (t ∈ d.all ∧ ComesDue s.clock deadline 100 s.clockReads s.timeOffset))) := by
  have hpoll : Polling s d.all := ⟨h, hr.all, hr.limit ▸ hl.allLimit⟩
  obtain ⟨a, b, hb, hlists, hsame, hst, hothers, hwaiter⟩ :=
    schedulerBlockLoop_spec 100 hpoll ht h0
  have hwake : ∀ (d' : Dispatcher) u, d'.Listed → u ∈ d'.all → d'.state u = .waiting →
      u ∉ d'.ready ∧ (d'.wake u).Listed := by
    intro d' u hl' hu hw
    exact ⟨fun hmem => hl'.queued u hmem hw, hl'.wake (hl'.allLimit u hu)⟩
  have hqueue : ∃ d', Represents b d' ∧ ∀ u ∈ d'.ready, u < d'.limit := by
    obtain ⟨d', hl', hrep⟩ := hr.blockLoop hwake hl hb
    rcases hrep with hrep | hrep
    · exact ⟨d', hrep, hl'.readyLimit⟩
    · exact ⟨_, hrep, hl'.readyLimit⟩
  obtain ⟨d', hrep, hlimit⟩ := hqueue
  obtain ⟨s', status, hs', -⟩ := hrep.blockReturn hlimit t
  obtain ⟨hback, hstate⟩ := schedulerBlockReturn_sameBlocks hs'
  refine ⟨s', status, by simp [schedulerBlockFinish, hb, hs'], ?_⟩
  rw [(hsame.trans hback).waitLists_iff hlists]
  simp only [← hwaiter]
  constructor
  · intro hw o ho
    exact hst (hback.state t (hw t o ho))
  · rintro hno u o ⟨i, hi⟩
    have hut : u ≠ t := by
      rintro rfl
      exact hno o ⟨i, hi⟩
    rw [hstate u hut]
    exact hothers u hut hi.1

/-- A call that need not wait touches no wait list. -/
private theorem blockEntry_done_waitLists (h : WaitLists s) {os : List (Option Ptr)}
    {waitType : WaitType} {timeout : UInt64} {status : UInt32}
    (hdone : schedulerBlockEntry s os waitType timeout = .done s' status) : WaitLists s' := by
  unfold schedulerBlockEntry at hdone
  split at hdone
  · injection hdone with hs
    exact hs ▸ h
  · split at hdone
    · injection hdone with hs
      exact hs ▸ h
    · split at hdone
      · next objs status hnow =>
        obtain ⟨xs, rfl⟩ := satisfyNow_consumes hnow
        injection hdone with hs
        rw [← hs]
        exact h.withObjects fun x => satisfyAll_waitList
      · split at hdone
        · injection hdone with hs
          exact hs ▸ h
        · cases hdone

/-- A complete call of `scheduler_block_thread`. -/
private theorem blockThread_waitLists_iff (h : WaitLists s) (hd : Dispatchable s d)
    (os : List (Option Ptr)) (waitType : WaitType) (timeout : UInt64) (alertable : Bool) :
    ∃ s' status, schedulerBlockThread s os waitType timeout alertable = some (s', status) ∧
      (WaitLists s' ↔ LeavesNoStaleBlock s d (.blockThread os waitType timeout alertable)) := by
  cases hentry : schedulerBlockEntry s os waitType timeout with
  | done s' status =>
    refine ⟨s', status, by simp [schedulerBlockThread, hentry], ?_⟩
    refine iff_of_true (blockEntry_done_waitLists h hentry) ?_
    intro t ht hlen hnow h0
    have hwait := schedulerBlockEntry_wait_iff.mpr ⟨ht, hlen, hnow, h0⟩
    rw [hentry] at hwait
    cases hwait
  | wait t =>
    obtain ⟨ht, hlen, hnow, h0⟩ := schedulerBlockEntry_wait_iff.mp hentry
    obtain ⟨hlists, hwaiter, haw⟩ := schedulerBlockEnter_spec h hd ht hlen waitType timeout alertable
    have hrep := hd.represents.blockEnter t os waitType timeout alertable
    have hcur := hd.current t (hd.represents.current ▸ ht)
    have hlisted : (d.setState t .waiting).dispatch.Listed :=
      (hd.listed.setState (Or.inr hcur.2.2)).dispatch
    obtain ⟨s', status, hs', hiff⟩ := schedulerBlockFinish_waitLists_iff hlists hrep hlisted haw h0
    obtain ⟨hclock, hreads, hoffset⟩ := SameClock.blockEnter s t os waitType timeout alertable
    rw [hclock, hreads, hoffset, Dispatcher.dispatch_all, Dispatcher.setState_all] at hiff
    refine ⟨s', status, by simp [schedulerBlockThread, hentry, hs'], hiff.trans ?_⟩
    simp only [hwaiter]
    constructor
    · intro hno u hu _ _ _
      have hut : u = t := Option.some.inj (hu.symm.trans ht)
      subst hut
      by_cases hdue : u ∈ d.all ∧ ComesDue s.clock timeout 100 s.clockReads s.timeOffset
      · exact Or.inr hdue
      · exact Or.inl fun o ho => hno o ⟨ho, hdue⟩
    · rintro hleaves o ⟨ho, hnot⟩
      rcases hleaves t ht hlen hnow h0 with hno | hdue
      · exact hno o ho
      · exact hnot hdue

/-- From a state whose wait lists are well formed every operation returns, and leaves them well
formed exactly if it leaves no stale block. -/
theorem waitStep_waitLists_iff (h : WaitLists s) (hd : Dispatchable s d) (op : WaitOp) :
    ∃ s', waitStep s op = some s' ∧ (WaitLists s' ↔ LeavesNoStaleBlock s d op) := by
  cases op with
  | signal object type =>
    cases htag : syncGetHeader type with
    | true =>
      obtain ⟨ts, s', hs', hsig⟩ := schedulerSignalObject_spec (o := object) h htag
      exact ⟨s', hs', iff_of_true hsig.lists trivial⟩
    | false =>
      exact ⟨s, by simp [waitStep, schedulerSignalObject, htag], iff_of_true h trivial⟩
  | checkTimeouts =>
    obtain ⟨s', hs', ht⟩ := schedulerCheckTimeouts_spec h hd.represents.all
      (hd.represents.limit ▸ hd.listed.allLimit)
    exact ⟨s', hs', iff_of_true ht.lists trivial⟩
  | blockThread objects waitType timeout alertable =>
    obtain ⟨s', status, hs', hiff⟩ :=
      blockThread_waitLists_iff h hd objects waitType timeout alertable
    exact ⟨s', by simp [waitStep, hs'], hiff⟩
  | terminate thread exitCode =>
    exact terminate_waitLists_iff h hd.represents hd.listed thread exitCode

/-- Thread 1 waits for the event at address 2; thread 4 is current and nothing is queued. -/
def waiterScheduler : WboxScheduler :=
  { schedulerInit default (fun _ => 0) with
    threads := fun t =>
      if t = 1 then
        { threadCreateMain with
          state := .waiting
          waitCount := 1
          waitType := .any
          waitTimeout := 100
          waitBlocks := fun _ => ⟨some 1, some 2, none, 0⟩ }
      else { WboxThread.zero with state := .running }
    objects := fun o =>
      { type := .eventSynchronization
        signalState := 0
        waitList := if o = 2 then some ⟨1, 0⟩ else none }
    heapNext := 5
    currentThread := some 4 }

private theorem waiterScheduler_waitsOn (wb : WbPtr) (o : Ptr) :
    waiterScheduler.WaitsOn wb o ↔ wb = ⟨1, 0⟩ ∧ o = 2 := by
  obtain ⟨t, i⟩ := wb
  by_cases ht : t = 1
  · subst ht
    simp [WboxScheduler.WaitsOn, WboxScheduler.block, waiterScheduler, eq_comm]
  · simp [WboxScheduler.WaitsOn, waiterScheduler, ht]

theorem waiterScheduler_waitLists : WaitLists waiterScheduler := by
  have hone : ∀ t, (waiterScheduler.threads t).state = .waiting → t = 1 := by
    intro t ht
    by_contra hne
    simp [waiterScheduler, hne] at ht
  refine ⟨?_, ?_, ?_, ?_⟩
  · intro o
    by_cases ho : o = 2
    · subst ho
      exact ⟨[⟨1, 0⟩], ⟨rfl, rfl⟩, by simp [waiterScheduler_waitsOn]⟩
    · exact ⟨[], by simp [waiterScheduler, WboxScheduler.waitHead, ho],
        by simp [waiterScheduler_waitsOn, ho]⟩
  · intro wb o h
    obtain ⟨rfl, -⟩ := (waiterScheduler_waitsOn wb o).mp h
    rfl
  · intro t ht
    rw [hone t ht]
    decide
  · intro t ht
    rw [hone t ht]
    decide

theorem waiterScheduler_dispatchable : ∃ d, Dispatchable waiterScheduler d := by
  refine ⟨⟨[1], [], some 4, 0, fun t => (waiterScheduler.threads t).state, 5⟩, ?_, ?_, ?_⟩
  · exact ⟨⟨rfl, rfl⟩, ⟨rfl, rfl⟩, rfl, rfl, fun _ => rfl, rfl⟩
  · exact ⟨by decide, nofun, nofun⟩
  · rintro t ⟨⟩
    exact ⟨by decide, by simp [waiterScheduler], nofun⟩

/-- Terminating the current thread, which is on no list, keeps the lists well formed. -/
theorem waitStep_waitLists_waiterScheduler :
    ∃ s', waitStep waiterScheduler (.terminate 4 0) = some s' ∧ WaitLists s' := by
  obtain ⟨d, hd⟩ := waiterScheduler_dispatchable
  obtain ⟨s', hs', hiff⟩ := waitStep_waitLists_iff waiterScheduler_waitLists hd (.terminate 4 0)
  refine ⟨s', hs', hiff.mpr ?_⟩
  rintro o ⟨i, hi⟩
  have hwb := ((waiterScheduler_waitsOn _ o).mp hi).1
  cases hwb

/-- Terminating the WAITING thread leaves its block on the list of the event. -/
theorem terminate_leaves_staleBlock : WaitLists waiterScheduler ∧
    (∃ d, Dispatchable waiterScheduler d) ∧
      ∃ s', waitStep waiterScheduler (.terminate 1 0) = some s' ∧ ¬ WaitLists s' := by
  refine ⟨waiterScheduler_waitLists, waiterScheduler_dispatchable, ?_⟩
  obtain ⟨d, hd⟩ := waiterScheduler_dispatchable
  obtain ⟨s', hs', hiff⟩ :=
    terminate_waitLists_iff waiterScheduler_waitLists hd.represents hd.listed 1 0
  refine ⟨s', hs', fun hw => hiff.mp hw 2 ⟨0, ?_⟩⟩
  exact (waiterScheduler_waitsOn _ 2).mpr ⟨rfl, rfl⟩

end Wbox.Thread
