import Wbox.Lib.Trace
import Wbox.Thread.Queue

/-!
# Wait lists

The wait blocks of the waiting threads, linked from the objects they wait for. Unlinking
changes nothing but these links (`withWaitLinks`), and the wake-up operations of
`src/thread/scheduler.c` are an update of the woken thread followed by list operations.
-/

namespace Wbox.Thread

open Wbox.Cpu Wbox.Nt Wbox.Lib

namespace WboxScheduler

variable (s : WboxScheduler)

/-- Replace the links of all wait blocks and the heads of all wait lists. -/
def withWaitLinks (nexts : WbPtr → Option WbPtr) (lists : Ptr → Option WbPtr) : WboxScheduler :=
  { s with
    threads := fun t =>
      { s.threads t with
        waitBlocks := fun i => { (s.threads t).waitBlocks i with next := nexts ⟨t, i⟩ } }
    objects := fun o => { s.objects o with waitList := lists o } }

/-- The heads of the wait lists. -/
def waitHead : Ptr → Option WbPtr := fun o => (s.objects o).waitList

@[simp] theorem withWaitLinks_blockLink (nexts : WbPtr → Option WbPtr)
    (lists : Ptr → Option WbPtr) : (s.withWaitLinks nexts lists).blockLink = nexts := rfl

@[simp] theorem withWaitLinks_waitHead (nexts : WbPtr → Option WbPtr)
    (lists : Ptr → Option WbPtr) : (s.withWaitLinks nexts lists).waitHead = lists := rfl

@[simp] theorem withWaitLinks_self : s.withWaitLinks s.blockLink s.waitHead = s := rfl

/-- Storing the link of a wait block, as an update of the links. -/
theorem setBlockNext_eq (wb : WbPtr) (v : Option WbPtr) :
    s.setBlockNext wb v = s.withWaitLinks (Function.update s.blockLink wb v) s.waitHead := by
  have ht : (s.setBlockNext wb v).threads =
      (s.withWaitLinks (Function.update s.blockLink wb v) s.waitHead).threads := by
    ext u : 1
    by_cases hu : u = wb.thread
    · subst hu
      simp only [setBlockNext, modifyThread_self, withWaitLinks]
      congr 1
      ext i : 1
      by_cases hi : i = wb.index
      · subst hi
        simp
      · have hne : (⟨wb.thread, i⟩ : WbPtr) ≠ wb := by
          intro he
          exact hi (by rw [← he])
        rw [Function.update_of_ne hi, Function.update_of_ne hne]
        rfl
    · have hne : ∀ i, (⟨u, i⟩ : WbPtr) ≠ wb := by
        intro i he
        exact hu (by rw [← he])
      simp only [setBlockNext, modifyThread_of_ne _ _ hu, withWaitLinks, hne,
        Function.update_of_ne, ne_eq, not_false_eq_true]
      rfl
  have h : s.setBlockNext wb v = { s with threads := (s.setBlockNext wb v).threads } := rfl
  rw [h, ht]
  rfl

/-- Storing the head of a wait list, as an update of the heads. -/
theorem setWaitList_eq (o : Ptr) (v : Option WbPtr) :
    s.setWaitList o v = s.withWaitLinks s.blockLink (Function.update s.waitHead o v) := by
  have ho : (s.setWaitList o v).objects =
      (s.withWaitLinks s.blockLink (Function.update s.waitHead o v)).objects := by
    ext u : 1
    by_cases hu : u = o
    · subst hu
      simp [setWaitList, modifyObject, withWaitLinks]
    · simp [setWaitList, modifyObject, withWaitLinks, hu, waitHead]
  have h : s.setWaitList o v = { s with objects := (s.setWaitList o v).objects } := rfl
  rw [h, ho]
  rfl

/-- An update of a thread that leaves its wait blocks alone commutes with relinking. -/
theorem withWaitLinks_modifyThread {g : WboxThread → WboxThread}
    (hg : ∀ th b, g { th with waitBlocks := b } = { g th with waitBlocks := b })
    (t : Ptr) (nexts : WbPtr → Option WbPtr) (lists : Ptr → Option WbPtr) :
    (s.withWaitLinks nexts lists).modifyThread t g =
      (s.modifyThread t g).withWaitLinks nexts lists := by
  have hb : (g (s.threads t)).waitBlocks = (s.threads t).waitBlocks := by
    have hself := hg (s.threads t) (s.threads t).waitBlocks
    exact (congrArg WboxThread.waitBlocks hself :)
  have ht : ((s.withWaitLinks nexts lists).modifyThread t g).threads =
      ((s.modifyThread t g).withWaitLinks nexts lists).threads := by
    ext u : 1
    by_cases hu : u = t
    · subst hu
      rw [modifyThread_self]
      show g { s.threads u with waitBlocks := _ } = _
      rw [hg]
      simp only [withWaitLinks, modifyThread_self, hb]
    · rw [modifyThread_of_ne _ _ hu]
      simp only [withWaitLinks, modifyThread_of_ne _ _ hu]
  have h : (s.withWaitLinks nexts lists).modifyThread t g =
      { (s.modifyThread t g).withWaitLinks nexts lists with
        threads := ((s.withWaitLinks nexts lists).modifyThread t g).threads } := rfl
  rw [h, ht]

end WboxScheduler

variable {s s' : WboxScheduler} {t : Ptr} {object : Ptr} {status : UInt32}

/-- `unlinkWaitBlock` stores the link of the block in the slot that leads to it. -/
theorem unlinkWaitBlock_eq {wb : WbPtr} :
    unlinkWaitBlock s object wb =
      (findSlot s.blockLink wb s.blockSteps .head (s.waitHead object)).map fun found =>
        match found with
        | none => s
        | some slot => s.withWaitLinks (slot.setNext (s.blockLink wb) s.blockLink)
            (Function.update s.waitHead object
              (slot.setHead (s.blockLink wb) (s.waitHead object))) := by
  unfold unlinkWaitBlock
  rw [show (s.objects object).waitList = s.waitHead object from rfl]
  cases findSlot s.blockLink wb s.blockSteps .head (s.waitHead object) with
  | none => rfl
  | some found =>
    cases found with
    | none => rfl
    | some slot =>
      cases slot with
      | head =>
        simp only [Option.bind_eq_bind, Option.bind_some, Option.pure_def, Option.map_some,
          Slot.setHead, Slot.setNext, WboxScheduler.setWaitList_eq]
      | after prev =>
        simp only [Option.bind_eq_bind, Option.bind_some, Option.pure_def, Option.map_some,
          Slot.setHead, Slot.setNext, WboxScheduler.setBlockNext_eq, Function.update_eq_self]

/-- Unlinking one block changes links of wait lists only. -/
theorem unlinkWaitBlock_links {wb : WbPtr} (h : unlinkWaitBlock s object wb = some s') :
    ∃ nexts lists, s' = s.withWaitLinks nexts lists := by
  rw [unlinkWaitBlock_eq, Option.map_eq_some_iff] at h
  obtain ⟨found, -, rfl⟩ := h
  cases found with
  | none => exact ⟨_, _, s.withWaitLinks_self.symm⟩
  | some slot => exact ⟨_, _, rfl⟩

/-- Unlinking all blocks of a thread changes links of wait lists only. -/
theorem unlinkWaitBlocks_links (h : unlinkWaitBlocks s t = some s') :
    ∃ nexts lists, s' = s.withWaitLinks nexts lists := by
  unfold unlinkWaitBlocks at h
  refine foldlM_invariant (I := fun x => ∃ nexts lists, x = s.withWaitLinks nexts lists) ?_
    ⟨_, _, s.withWaitLinks_self.symm⟩ h
  rintro a i b - ⟨nexts, lists, rfl⟩ hab
  split at hab
  · exact ⟨nexts, lists, (Option.some.inj hab).symm⟩
  · obtain ⟨nexts', lists', rfl⟩ := unlinkWaitBlock_links hab
    exact ⟨nexts', lists', rfl⟩

/-- The woken thread: its status in `wait_status` and EAX, no wait left, READY. -/
def wokenThread (th : WboxThread) (status : UInt32) : WboxThread :=
  { th with
    waitStatus := status
    context := { th.context with eax := status }
    waitCount := 0
    waitTimeout := 0
    state := .ready }

/-- The state in which a thread has been woken but is still linked. -/
def woken (s : WboxScheduler) (t : Ptr) (status : UInt32) : WboxScheduler :=
  s.modifyThread t fun th => wokenThread th status

/-- `s'` is `s` with the thread woken, unlinked from its wait lists and queued. -/
def Woken (s : WboxScheduler) (t : Ptr) (status : UInt32) (s' : WboxScheduler) : Prop :=
  ∃ nexts lists, s' = schedulerAddReady ((woken s t status).withWaitLinks nexts lists) t

/-- A wake-up as an update of the woken thread, of wait links and of the queue. -/
theorem Woken.eq (h : Woken s t status s') : ∃ nexts lists links head tail,
    s' = clearIdle (((woken s t status).withWaitLinks nexts lists).withReady links head tail) := by
  obtain ⟨nexts, lists, rfl⟩ := h
  obtain ⟨links, head, tail, h⟩ :=
    schedulerAddReady_eq ((woken s t status).withWaitLinks nexts lists) t
  exact ⟨nexts, lists, links, head, tail, h⟩

/-- A wake-up keeps the list of all threads. -/
theorem Woken.threadLink (h : Woken s t status s') : s'.threadLink = s.threadLink := by
  obtain ⟨nexts, lists, links, head, tail, rfl⟩ := h.eq
  ext u : 1
  show ((woken s t status).threads u).next = _
  simp only [woken, WboxScheduler.modifyThread_threads]
  split
  · rfl
  · rfl

/-- An expired wait wakes its thread with `STATUS_TIMEOUT`. -/
theorem expireWait_woken (h : expireWait s t = some s') : Woken s t statusTimeout s' := by
  unfold expireWait at h
  simp only [Option.bind_eq_bind, Option.bind_eq_some_iff, Option.pure_def,
    Option.some.injEq] at h
  obtain ⟨a, ha, rfl⟩ := h
  obtain ⟨nexts, lists, rfl⟩ := unlinkWaitBlocks_links ha
  refine ⟨nexts, lists, ?_⟩
  rw [WboxScheduler.setState, WboxScheduler.modifyThread_modifyThread,
    WboxScheduler.withWaitLinks_modifyThread _ (fun _ _ => rfl),
    WboxScheduler.modifyThread_modifyThread]
  rfl

/-- A satisfied wait consumes its objects and wakes its thread. -/
theorem wakeThread_woken (h : wakeThread s object t status = some s') :
    Woken { s with objects := consumeWait s object t } t status s' := by
  unfold wakeThread at h
  simp only [Option.bind_eq_bind, Option.bind_eq_some_iff, Option.pure_def,
    Option.some.injEq] at h
  obtain ⟨a, ha, rfl⟩ := h
  obtain ⟨nexts, lists, rfl⟩ := unlinkWaitBlocks_links ha
  refine ⟨nexts, lists, ?_⟩
  rw [WboxScheduler.withWaitLinks_modifyThread _ (fun _ _ => rfl)]
  rfl

/-- Invariant rule of the loop of `scheduler_check_timeouts`: the loop position moves along
the list of all threads, and an expired wait is woken on the way. -/
theorem checkTimeoutsFrom_invariant {now : UInt64} {Q : Option Ptr → WboxScheduler → Prop}
    (hskip : ∀ s t, Q (some t) s → Q (s.threadLink t) s)
    (hwake : ∀ s t s', Q (some t) s → waitExpired (s.threads t) now = true →
      Woken s t statusTimeout s' → Q (s'.threadLink t) s')
    {n : Nat} {p : Option Ptr} (h0 : Q p s) (h : checkTimeoutsFrom now n p s = some s') :
    Q none s' := by
  induction n generalizing p s with
  | zero =>
    cases p with
    | none =>
      have he : s = s' := Option.some.inj h
      exact he ▸ h0
    | some t => simp [checkTimeoutsFrom] at h
  | succ n ih =>
    cases p with
    | none =>
      have he : s = s' := Option.some.inj h
      exact he ▸ h0
    | some t =>
      simp only [checkTimeoutsFrom] at h
      split at h
      · next hx =>
        obtain ⟨a, ha, h⟩ := Option.bind_eq_some_iff.mp h
        exact ih (hwake s t a h0 hx (expireWait_woken ha)) h
      · exact ih (hskip s t h0) h

/-- `scheduler_check_timeouts` keeps what a reading of the clock and each wake-up keep. -/
theorem schedulerCheckTimeouts_invariant {R : WboxScheduler → Prop}
    (hclock : R { s with clockReads := s.clockReads + 1 })
    (hwake : ∀ s t s', R s → (s.threads t).state = .waiting → Woken s t statusTimeout s' → R s')
    (h : schedulerCheckTimeouts s = some s') : R s' := by
  unfold schedulerCheckTimeouts schedulerGetTime100ns at h
  refine checkTimeoutsFrom_invariant (Q := fun _ s => R s) (fun _ _ hs => hs) ?_ hclock h
  intro a t b ha hx hw
  exact hwake a t b ha (of_decide_eq_true hx).1 hw

/-- Invariant rule of the loop of `scheduler_signal_object`: `next` is read before the
waiter is woken. -/
theorem signalFrom_invariant {Q : Option WbPtr → WboxScheduler → Prop}
    (hskip : ∀ s wb, Q (some wb) s → Q (s.blockLink wb) s)
    (hwake : ∀ s wb t status s', Q (some wb) s → (s.block wb).thread = some t →
      (s.threads t).state = .waiting → wakeStatus s object wb t = some status →
      wakeThread s object t status = some s' → Q (s.blockLink wb) s')
    {n : Nat} {p : Option WbPtr} (h0 : Q p s) (h : signalFrom object n p s = some s') :
    ∃ p', Q p' s' := by
  induction n generalizing p s with
  | zero =>
    cases p with
    | none =>
      have he : s = s' := Option.some.inj h
      exact ⟨none, he ▸ h0⟩
    | some wb => simp [signalFrom] at h
  | succ n ih =>
    cases p with
    | none =>
      have he : s = s' := Option.some.inj h
      exact ⟨none, he ▸ h0⟩
    | some wb =>
      simp only [signalFrom] at h
      split at h
      · exact ih (hskip s wb h0) h
      · next t ht =>
        split at h
        · exact ih (hskip s wb h0) h
        · next hw =>
          split at h
          · exact ih (hskip s wb h0) h
          · next st hst =>
            obtain ⟨a, ha, h⟩ := Option.bind_eq_some_iff.mp h
            have hq := hwake s wb t st a h0 ht (not_not.mp hw) hst ha
            split at h
            · have he : a = s' := Option.some.inj h
              exact ⟨_, he ▸ hq⟩
            · exact ih hq h

/-- `scheduler_signal_object` keeps what each of its wake-ups keeps. -/
theorem schedulerSignalObject_invariant {R : WboxScheduler → Prop} {type : HandleType}
    (hwake : ∀ s wb t status s', R s → (s.block wb).thread = some t →
      (s.threads t).state = .waiting → wakeStatus s object wb t = some status →
      wakeThread s object t status = some s' → R s')
    (h0 : R s) (h : schedulerSignalObject s object type = some s') : R s' := by
  unfold schedulerSignalObject at h
  split at h
  · obtain ⟨_, hr⟩ := signalFrom_invariant (Q := fun _ s => R s) (fun _ _ hs => hs) hwake h0 h
    exact hr
  · have he : s = s' := Option.some.inj h
    exact he ▸ h0

/-- Reading the clock and advancing it changes the clock only. -/
theorem fastForward_eq (s : WboxScheduler) (t : Ptr) : ∃ offset,
    fastForward s t = { s with clockReads := s.clockReads + 1, timeOffset := offset } := by
  unfold fastForward
  dsimp only [schedulerGetTime100ns]
  split
  · exact ⟨_, rfl⟩
  · exact ⟨_, rfl⟩

/-- Invariant rule of the waiting loop of `scheduler_block_thread`. `R` is kept by the
checks of each iteration; `hgive` covers the two ways the loop gives the wait up. -/
theorem schedulerBlockLoop_invariant {R T : WboxScheduler → Prop}
    (htime : ∀ s reads offset, R s → R { s with clockReads := reads, timeOffset := offset })
    (hcheck : ∀ s s', R s → schedulerCheckTimeouts s = some s' → R s')
    (hdone : ∀ s, R s → T s)
    (hgive : ∀ s, R s → T (s.modifyThread t fun th => { th with waitStatus := statusTimeout }))
    (hbreak : ∀ s, R s → T (s.modifyThread t fun th =>
      { th with waitStatus := statusTimeout, state := .ready }))
    {left : Nat} (h0 : R s) (h : schedulerBlockLoop t left s = some s') : T s' := by
  have hpoll : ∀ a b, R a → schedulerBlockPoll a t = some b → R b := by
    intro a b ha hab
    unfold schedulerBlockPoll at hab
    obtain ⟨c, hc, hab⟩ := Option.bind_eq_some_iff.mp hab
    have hrc := hcheck a c ha hc
    split at hab
    · obtain ⟨offset, hf⟩ := fastForward_eq c t
      rw [hf] at hab
      exact hcheck _ b (htime c _ offset hrc) hab
    · have he : c = b := Option.some.inj hab
      exact he ▸ hrc
  induction left generalizing s with
  | zero =>
    unfold schedulerBlockLoop at h
    split at h
    · obtain ⟨a, ha, h⟩ := Option.bind_eq_some_iff.mp h
      have hra := hpoll s a h0 ha
      split at h
      · have he := Option.some.inj h
        exact he ▸ hgive a hra
      · have he := Option.some.inj h
        exact he ▸ hbreak a hra
    · have he : s = s' := Option.some.inj h
      exact he ▸ hdone s h0
  | succ left ih =>
    unfold schedulerBlockLoop at h
    split at h
    · obtain ⟨a, ha, h⟩ := Option.bind_eq_some_iff.mp h
      have hra := hpoll s a h0 ha
      split at h
      · have he := Option.some.inj h
        exact he ▸ hgive a hra
      · exact ih hra h
    · have he : s = s' := Option.some.inj h
      exact he ▸ hdone s h0

end Wbox.Thread
