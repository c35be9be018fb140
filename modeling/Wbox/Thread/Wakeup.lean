import Mathlib.Data.List.ProdSigma
import Wbox.Lib.Trace
import Wbox.Thread.Switch
import Wbox.Thread.Waits

/-!
# Waking the waiters of a signaled object

The loop of `scheduler_signal_object` (`src/thread/scheduler.c:489–599`) walks a wait list
while it unlinks the blocks of the threads it wakes, from this list and from others. Its
pointer can come to stand on a block that is no longer linked: the link of that block still
leads to the rest of the list (`wakeThread_spec`).
-/

namespace Wbox.Thread

open Wbox.Cpu Wbox.Nt Wbox.Lib

namespace WboxScheduler

/-- The wait a thread has registered. -/
def waitOf (s : WboxScheduler) (t : Ptr) : Wait :=
  ⟨(s.threads t).threadId, (s.threads t).waitType, s.waitObjects t⟩

/-- The state of all objects, without their wait lists. -/
def signals (s : WboxScheduler) : Objects := fun o => { s.objects o with waitList := none }

/-- The block registers a WAITING thread's wait for the object. -/
def WaitsOn (s : WboxScheduler) (wb : WbPtr) (o : Ptr) : Prop :=
  (s.threads wb.thread).state = .waiting ∧ wb.index < (s.threads wb.thread).waitCount ∧
    (s.block wb).object = some o

/-- Some block of the thread registers its wait for the object. -/
def Waiter (s : WboxScheduler) (t o : Ptr) : Prop := ∃ i, s.WaitsOn ⟨t, i⟩ o

end WboxScheduler

/-- Each wait list is a finite list of exactly the blocks of WAITING threads that wait on the
object. -/
structure WaitLists (s : WboxScheduler) : Prop where
  lists : ∀ o, ∃ xs, Chain s.blockLink (s.waitHead o) xs ∧ ∀ wb, wb ∈ xs ↔ s.WaitsOn wb o
  owner : ∀ wb o, s.WaitsOn wb o → (s.block wb).thread = some wb.thread
  count_le : ∀ t, (s.threads t).state = .waiting → (s.threads t).waitCount ≤ threadWaitObjects
  allocated : ∀ t, (s.threads t).state = .waiting → t < s.heapNext

variable {s s' : WboxScheduler} {t u o : Ptr} {status : UInt32}

/-- A list of registered blocks has at most 64 blocks for each thread structure. -/
theorem WaitLists.length_le (h : WaitLists s) {xs : List WbPtr} {next : WbPtr → Option WbPtr}
    {head : Option WbPtr} (hc : Chain next head xs) (hxs : ∀ wb ∈ xs, s.WaitsOn wb o) :
    xs.length ≤ s.blockSteps := by
  have hinj : Function.Injective fun wb : WbPtr => (wb.thread, wb.index) := by
    intro a b hab
    cases a
    cases b
    simpa using hab
  have hnd : (xs.map fun wb => (wb.thread, wb.index)).Nodup := hc.nodup.map hinj
  have hsub : (xs.map fun wb => (wb.thread, wb.index)) ⊆
      List.range s.heapNext ×ˢ List.range threadWaitObjects := by
    intro p hp
    obtain ⟨wb, hwb, rfl⟩ := List.mem_map.mp hp
    obtain ⟨hst, hi, -⟩ := hxs wb hwb
    have hlt := h.allocated wb.thread hst
    have hle := h.count_le wb.thread hst
    exact List.pair_mem_product.mpr
      ⟨List.mem_range.mpr hlt, List.mem_range.mpr (Nat.lt_of_lt_of_le hi hle)⟩
  have hlen := (List.subperm_of_subset hnd hsub).length_le
  simpa [WboxScheduler.blockSteps, List.length_product] using hlen

/-- Wait lists depend on the waits, their blocks and the links only. -/
theorem WaitLists.of_same (h : WaitLists s) (hlink : s'.blockLink = s.blockLink)
    (hhead : s'.waitHead = s.waitHead) (hthreads : ∀ t, (s'.threads t).state =
      (s.threads t).state ∧ (s'.threads t).waitCount = (s.threads t).waitCount ∧
        (s'.threads t).waitBlocks = (s.threads t).waitBlocks)
    (hlimit : s.heapNext ≤ s'.heapNext) : WaitLists s' := by
  have hon : ∀ wb o, s'.WaitsOn wb o ↔ s.WaitsOn wb o := by
    intro wb o
    obtain ⟨h1, h2, h3⟩ := hthreads wb.thread
    simp only [WboxScheduler.WaitsOn, WboxScheduler.block, h1, h2, h3]
  refine ⟨?_, ?_, ?_, ?_⟩
  · intro o
    rw [hlink, hhead]
    simpa only [hon] using h.lists o
  · intro wb o hwb
    rw [WboxScheduler.block, (hthreads wb.thread).2.2]
    exact h.owner wb o ((hon wb o).mp hwb)
  · intro t ht
    rw [(hthreads t).2.1]
    exact h.count_le t ((hthreads t).1 ▸ ht)
  · intro t ht
    exact Nat.lt_of_lt_of_le (h.allocated t ((hthreads t).1 ▸ ht)) hlimit

/-- A change of object states leaves the wait lists as they are. -/
theorem WaitLists.withObjects (h : WaitLists s) {objs : Objects}
    (hw : ∀ x, (objs x).waitList = (s.objects x).waitList) :
    WaitLists { s with objects := objs } := by
  have hlink : WboxScheduler.blockLink { s with objects := objs } = s.blockLink := rfl
  exact h.of_same hlink (funext hw) (fun _ => ⟨rfl, rfl, rfl⟩) (Nat.le_refl _)

/-- Unlinking the first `n` blocks of a thread: the other blocks stay on the lists, and every
chain of blocks is kept but for blocks of the thread. -/
private structure Unlinked (s : WboxScheduler) (t : Ptr) (n : Nat)
    (nexts : WbPtr → Option WbPtr) (lists : Ptr → Option WbPtr) : Prop where
  lists : ∀ o, ∃ xs, Chain nexts (lists o) xs ∧
    ∀ wb, wb ∈ xs ↔ s.WaitsOn wb o ∧ ¬ (wb.thread = t ∧ wb.index < n)
  others : ∀ p zs, Chain s.blockLink p zs → ∃ ys, Chain nexts p ys ∧ ys.Sublist zs ∧
    ∀ y ∈ zs, y.thread ≠ t → y ∈ ys

private theorem Unlinked.succ (h : WaitLists s) (ht : (s.threads t).state = .waiting) {n : Nat}
    (hn : n < (s.threads t).waitCount) {nexts : WbPtr → Option WbPtr}
    {lists : Ptr → Option WbPtr} (hu : Unlinked s t n nexts lists) {o : Ptr}
    (ho : (s.block ⟨t, n⟩).object = some o) : ∃ nexts' lists',
      unlinkWaitBlock (s.withWaitLinks nexts lists) o ⟨t, n⟩ =
        some (s.withWaitLinks nexts' lists') ∧ Unlinked s t (n + 1) nexts' lists' := by
  obtain ⟨xs, hc, hmem⟩ := hu.lists o
  have hlen : xs.length ≤ (s.withWaitLinks nexts lists).blockSteps :=
    h.length_le hc fun wb hwb => ((hmem wb).mp hwb).1
  have hx : (⟨t, n⟩ : WbPtr) ∈ xs := (hmem _).mpr ⟨⟨ht, hn, ho⟩, by simp⟩
  obtain ⟨slot, hfind, hc', -⟩ := hc.findSlot_of_mem hx hlen
  have hslot : ∀ p, slot = .after p → nexts p = some ⟨t, n⟩ := by
    rintro p rfl
    exact Chain.findSlot_link hfind
  have hsplit : ∀ wb : WbPtr, (wb.thread = t ∧ wb.index < n + 1) ↔
      (wb.thread = t ∧ wb.index < n) ∨ wb = ⟨t, n⟩ := by
    intro wb
    obtain ⟨v, i⟩ := wb
    simp only [WbPtr.mk.injEq, Nat.lt_succ_iff_lt_or_eq]
    tauto
  refine ⟨slot.setNext (nexts ⟨t, n⟩) nexts,
    Function.update lists o (slot.setHead (nexts ⟨t, n⟩) (lists o)), ?_, ?_, ?_⟩
  · rw [unlinkWaitBlock_eq]
    simp only [WboxScheduler.withWaitLinks_blockLink, WboxScheduler.withWaitLinks_waitHead, hfind,
      Option.map_some]
    rfl
  · intro o'
    by_cases hoo : o' = o
    · subst hoo
      refine ⟨xs.erase ⟨t, n⟩, by rwa [Function.update_self], ?_⟩
      intro wb
      rw [hc.nodup.mem_erase_iff, hmem, hsplit]
      tauto
    · obtain ⟨zs, hz, hzmem⟩ := hu.lists o'
      obtain ⟨ys, hy, hsub, hkeep⟩ := hz.setNext hslot
      refine ⟨ys, by rwa [Function.update_of_ne hoo], ?_⟩
      intro wb
      have hne : s.WaitsOn wb o' → wb ≠ ⟨t, n⟩ := by
        rintro ⟨-, -, hob⟩ rfl
        rw [ho] at hob
        exact hoo (Option.some.inj hob).symm
      rw [hsplit]
      constructor
      · intro hwb
        have hz := (hzmem wb).mp (hsub.subset hwb)
        exact ⟨hz.1, by simp only [not_or]; exact ⟨hz.2, hne hz.1⟩⟩
      · rintro ⟨hon, hnot⟩
        exact hkeep wb ((hzmem wb).mpr ⟨hon, by tauto⟩) (hne hon)
  · intro p zs hz
    obtain ⟨ys, hy, hsub, hkeep⟩ := hu.others p zs hz
    obtain ⟨ws, hw, hsub', hkeep'⟩ := hy.setNext hslot
    refine ⟨ws, hw, hsub'.trans hsub, ?_⟩
    intro y hyz hyt
    apply hkeep' y (hkeep y hyz hyt)
    rintro rfl
    exact hyt rfl

private theorem unlinkWaitBlocks_unlinked (h : WaitLists s)
    (ht : (s.threads t).state = .waiting) {n : Nat} (hn : n ≤ (s.threads t).waitCount) :
    ∃ nexts lists, (List.range n).foldlM (fun s i =>
        match (s.block ⟨t, i⟩).object with
        | none => some s
        | some object => unlinkWaitBlock s object ⟨t, i⟩) s =
      some (s.withWaitLinks nexts lists) ∧ Unlinked s t n nexts lists := by
  induction n with
  | zero =>
    refine ⟨s.blockLink, s.waitHead, rfl, ?_, ?_⟩
    · intro o
      simpa using h.lists o
    · intro p zs hz
      exact ⟨zs, hz, List.Sublist.refl zs, fun y hy _ => hy⟩
  | succ n ih =>
    obtain ⟨nexts, lists, hfold, hu⟩ := ih (by omega)
    rw [List.range_succ, List.foldlM_append, hfold]
    have hblock : ((s.withWaitLinks nexts lists).block ⟨t, n⟩).object =
        (s.block ⟨t, n⟩).object := rfl
    simp only [Option.bind_eq_bind, Option.bind_some, List.foldlM_cons, List.foldlM_nil, hblock]
    cases ho : (s.block ⟨t, n⟩).object with
    | none =>
      refine ⟨nexts, lists, rfl, ?_, hu.others⟩
      intro o
      obtain ⟨xs, hc, hmem⟩ := hu.lists o
      refine ⟨xs, hc, ?_⟩
      intro wb
      rw [hmem]
      have hne : s.WaitsOn wb o → ¬ (wb.thread = t ∧ wb.index = n) := by
        rintro ⟨-, -, hob⟩ ⟨rfl, rfl⟩
        exact absurd (ho.symm.trans hob) (by simp)
      simp only [Nat.lt_succ_iff_lt_or_eq]
      tauto
    | some o =>
      obtain ⟨nexts', lists', hun, hu'⟩ := hu.succ h ht (by omega) ho
      exact ⟨nexts', lists', by simp only [hun, Option.bind_some, Option.pure_def], hu'⟩

private theorem unlinkWaitBlocks_spec (h : WaitLists s) (ht : (s.threads t).state = .waiting) :
    ∃ nexts lists, unlinkWaitBlocks s t = some (s.withWaitLinks nexts lists) ∧
      Unlinked s t (s.threads t).waitCount nexts lists :=
  unlinkWaitBlocks_unlinked h ht (Nat.le_refl _)

/-- The thread is as before, but for links of lists it is on. -/
def KeepsWait (th th' : WboxThread) : Prop :=
  ∃ (nexts : Nat → Option WbPtr) (ready : Option Ptr), th' =
    { th with
      waitBlocks := fun i => { th.waitBlocks i with next := nexts i }
      readyNext := ready }

theorem KeepsWait.refl (th : WboxThread) : KeepsWait th th :=
  ⟨fun i => (th.waitBlocks i).next, th.readyNext, rfl⟩

theorem KeepsWait.trans {a b c : WboxThread} (h : KeepsWait a b) (h' : KeepsWait b c) :
    KeepsWait a c := by
  obtain ⟨nexts, ready, rfl⟩ := h
  obtain ⟨nexts', ready', rfl⟩ := h'
  exact ⟨nexts', ready', rfl⟩

theorem KeepsWait.waitOf (h : KeepsWait (s.threads u) (s'.threads u)) :
    s'.waitOf u = s.waitOf u := by
  obtain ⟨nexts, ready, he⟩ := h
  simp only [WboxScheduler.waitOf, WboxScheduler.waitObjects, he]

theorem KeepsWait.waitsOn {wb : WbPtr}
    (h : KeepsWait (s.threads wb.thread) (s'.threads wb.thread)) :
    s'.WaitsOn wb o ↔ s.WaitsOn wb o := by
  obtain ⟨nexts, ready, he⟩ := h
  simp only [WboxScheduler.WaitsOn, WboxScheduler.block, he]

/-- `s'` is `s` after the wait of `t` has ended with `status`: `t` is READY and on no wait list,
and the other waits are as before. -/
structure WaitEnded (s : WboxScheduler) (t : Ptr) (status : UInt32) (s' : WboxScheduler) :
    Prop where
  woken : Woken s t status s'
  ready : (s'.threads t).state = .ready
  waitStatus : (s'.threads t).waitStatus = status
  kept : ∀ u, u ≠ t → KeepsWait (s.threads u) (s'.threads u)
  blockThread : ∀ wb, (s'.block wb).thread = (s.block wb).thread
  lists : WaitLists s'
  others : ∀ p zs, Chain s.blockLink p zs → ∃ ys, Chain s'.blockLink p ys ∧ ys.Sublist zs ∧
    ∀ y ∈ zs, y.thread ≠ t → y ∈ ys

/-- A WAITING thread can be unlinked, and its wait ends by waking and queueing it. -/
private theorem unlinkWaitBlocks_ends (h : WaitLists s) (ht : (s.threads t).state = .waiting)
    (status : UInt32) : ∃ nexts lists, unlinkWaitBlocks s t = some (s.withWaitLinks nexts lists) ∧
      WaitEnded s t status (schedulerAddReady ((woken s t status).withWaitLinks nexts lists) t) := by
  obtain ⟨nexts, lists, hun, hlists, hothers⟩ := unlinkWaitBlocks_spec h ht
  refine ⟨nexts, lists, hun, ?_⟩
  have hwoken : Woken s t status
      (schedulerAddReady ((woken s t status).withWaitLinks nexts lists) t) := ⟨nexts, lists, rfl⟩
  obtain ⟨links, head, tail, hadd⟩ := schedulerAddReady_eq
    ((woken s t status).withWaitLinks nexts lists) t
  rw [hadd] at hwoken ⊢
  have hself : ∀ f, (s.modifyThread t f).threads t = f (s.threads t) :=
    fun f => s.modifyThread_self t f
  have hkept : ∀ u, u ≠ t → KeepsWait (s.threads u) ((clearIdle (((woken s t
      status).withWaitLinks nexts lists).withReady links head tail)).threads u) := by
    intro u hu
    refine ⟨fun i => nexts ⟨u, i⟩, links u, ?_⟩
    simp only [clearIdle, WboxScheduler.withReady, WboxScheduler.withWaitLinks, woken,
      s.modifyThread_of_ne _ hu]
  have hready : ((clearIdle (((woken s t status).withWaitLinks nexts lists).withReady links head
      tail)).threads t).state = .ready := by
    simp only [clearIdle, WboxScheduler.withReady, WboxScheduler.withWaitLinks, woken, hself,
      wokenThread]
  have hwaiting : ∀ u, ((clearIdle (((woken s t status).withWaitLinks nexts lists).withReady
      links head tail)).threads u).state = .waiting → u ≠ t := by
    rintro u hu rfl
    rw [hready] at hu
    cases hu
  refine ⟨hwoken, hready, ?_, hkept, ?_, ⟨?_, ?_, ?_, ?_⟩, hothers⟩
  · simp only [clearIdle, WboxScheduler.withReady, WboxScheduler.withWaitLinks, woken, hself,
      wokenThread]
  · rintro ⟨u, i⟩
    by_cases hu : u = t
    · subst hu
      simp only [WboxScheduler.block, clearIdle, WboxScheduler.withReady,
        WboxScheduler.withWaitLinks, woken, hself, wokenThread]
    · obtain ⟨_, _, he⟩ := hkept u hu
      simp only [WboxScheduler.block, he]
  · intro x
    obtain ⟨xs, hc, hmem⟩ := hlists x
    refine ⟨xs, hc, ?_⟩
    intro wb
    rw [hmem]
    by_cases hwb : wb.thread = t
    · constructor
      · rintro ⟨⟨-, hi, -⟩, hnot⟩
        exact absurd ⟨hwb, by rw [hwb] at hi; exact hi⟩ hnot
      · rintro ⟨hst, -⟩
        exact absurd hwb (hwaiting wb.thread hst)
    · rw [(hkept wb.thread hwb).waitsOn]
      tauto
  · intro wb x hwb
    have hne := hwaiting wb.thread hwb.1
    obtain ⟨_, _, he⟩ := hkept wb.thread hne
    rw [(hkept wb.thread hne).waitsOn] at hwb
    have howner := h.owner wb x hwb
    simpa only [WboxScheduler.block, he] using howner
  · intro u hu
    have hne := hwaiting u hu
    obtain ⟨_, _, he⟩ := hkept u hne
    rw [he] at hu ⊢
    exact h.count_le u hu
  · intro u hu
    have hne := hwaiting u hu
    obtain ⟨_, _, he⟩ := hkept u hne
    rw [he] at hu
    exact h.allocated u hu

/-- An expired wait can be ended, and leaves the lists well formed. -/
theorem expireWait_spec (h : WaitLists s) (ht : (s.threads t).state = .waiting) :
    ∃ s', expireWait s t = some s' ∧ WaitEnded s t statusTimeout s' := by
  let f := fun th : WboxThread =>
    { th with
      waitStatus := statusTimeout
      context := { th.context with eax := statusTimeout } }
  have hsame : ∀ u, ((s.modifyThread t f).threads u).state = (s.threads u).state ∧
      ((s.modifyThread t f).threads u).waitCount = (s.threads u).waitCount ∧
        ((s.modifyThread t f).threads u).waitBlocks = (s.threads u).waitBlocks := by
    intro u
    rw [WboxScheduler.modifyThread_threads]
    split
    · exact ⟨rfl, rfl, rfl⟩
    · exact ⟨rfl, rfl, rfl⟩
  have hblock : (s.modifyThread t f).block = s.block := by
    ext wb : 1
    rw [WboxScheduler.block, (hsame wb.thread).2.2]
    rfl
  have hlink : (s.modifyThread t f).blockLink = s.blockLink := by
    ext wb : 1
    rw [WboxScheduler.blockLink, hblock]
    rfl
  have h1 : WaitLists (s.modifyThread t f) := h.of_same hlink rfl hsame (Nat.le_refl _)
  have hw : woken (s.modifyThread t f) t statusTimeout = woken s t statusTimeout :=
    s.modifyThread_modifyThread t f _
  obtain ⟨nexts, lists, hun, he⟩ := unlinkWaitBlocks_ends h1 ((hsame t).1.trans ht) statusTimeout
  rw [hw] at he
  refine ⟨schedulerAddReady ((woken s t statusTimeout).withWaitLinks nexts lists) t, ?_, ?_⟩
  · have hun' : unlinkWaitBlocks (s.modifyThread t f) t =
        some ((s.modifyThread t f).withWaitLinks nexts lists) := hun
    unfold expireWait
    simp only [Option.bind_eq_bind]
    rw [hun', Option.bind_some, WboxScheduler.setState, WboxScheduler.modifyThread_modifyThread,
      WboxScheduler.withWaitLinks_modifyThread _ (fun _ _ => rfl),
      WboxScheduler.modifyThread_modifyThread]
    rfl
  · refine ⟨⟨nexts, lists, rfl⟩, he.ready, he.waitStatus, ?_, ?_, he.lists, ?_⟩
    · intro u hu
      have hk := he.kept u hu
      rwa [s.modifyThread_of_ne f hu] at hk
    · intro wb
      rw [he.blockThread wb, hblock]
    · intro p zs hz
      exact he.others p zs (hlink ▸ hz)

/-- `s'` is `s` after `t` has been woken by a signal of `o`. -/
structure WakeStep (s : WboxScheduler) (o t : Ptr) (status : UInt32) (s' : WboxScheduler) :
    Prop where
  ready : (s'.threads t).state = .ready
  waitStatus : (s'.threads t).waitStatus = status
  signals : s'.signals = Wait.consume o s.signals (s.waitOf t)
  kept : ∀ u, u ≠ t → KeepsWait (s.threads u) (s'.threads u)
  blockThread : ∀ wb, (s'.block wb).thread = (s.block wb).thread
  lists : WaitLists s'
  others : ∀ p zs, Chain s.blockLink p zs → ∃ ys, Chain s'.blockLink p ys ∧ ys.Sublist zs ∧
    ∀ y ∈ zs, y.thread ≠ t → y ∈ ys

/-- What a signal consumes, in terms of the wait. -/
theorem consumeWait_eq (s : WboxScheduler) (o t : Ptr) :
    consumeWait s o t = Wait.consume o s.objects (s.waitOf t) := by
  unfold consumeWait Wait.consume Wait.consumed WboxScheduler.waitOf
  cases (s.threads t).waitType with
  | all => rfl
  | any => rfl

/-- Satisfied waits leave the wait lists alone. -/
theorem satisfyAll_signals (objs : Objects) (id : UInt32) (os : List (Option Ptr)) :
    satisfyAll (fun x => { objs x with waitList := none }) id os =
      fun x => { satisfyAll objs id os x with waitList := none } := by
  induction os generalizing objs with
  | nil => rfl
  | cons y ys ih =>
    cases y with
    | none => exact ih objs
    | some y =>
      have hupd : Function.update (fun x => { objs x with waitList := none }) y
          (syncSatisfyWait { objs y with waitList := none } id) = fun x =>
            { Function.update objs y (syncSatisfyWait (objs y) id) x with waitList := none } := by
        ext x : 1
        by_cases hx : x = y
        · subst hx
          rw [Function.update_self, Function.update_self, syncSatisfyWait_with_waitList]
        · rw [Function.update_of_ne hx, Function.update_of_ne hx]
      rw [satisfyAll_some, satisfyAll_some, hupd]
      exact ih _

/-- Waking a waiter ends, and does what it is meant to do. -/
theorem wakeThread_spec (h : WaitLists s) (ht : (s.threads t).state = .waiting) :
    ∃ s', wakeThread s o t status = some s' ∧ WakeStep s o t status s' := by
  have h1 : WaitLists { s with objects := consumeWait s o t } := by
    apply h.withObjects
    intro x
    rw [consumeWait_eq, Wait.consume, satisfyAll_waitList]
  obtain ⟨nexts, lists, hun, he⟩ := unlinkWaitBlocks_ends h1 ht status
  refine ⟨_, ?_, he.ready, he.waitStatus, ?_, he.kept, he.blockThread, he.lists, he.others⟩
  · unfold wakeThread
    simp only [Option.bind_eq_bind]
    rw [hun, Option.bind_some, WboxScheduler.withWaitLinks_modifyThread _ (fun _ _ => rfl)]
    rfl
  · obtain ⟨links, head, tail, hadd⟩ := schedulerAddReady_eq
      ((woken { s with objects := consumeWait s o t } t status).withWaitLinks nexts lists) t
    rw [hadd]
    have hs : (fun x => { consumeWait s o t x with waitList := none }) =
        Wait.consume o s.signals (s.waitOf t) := by
      rw [consumeWait_eq]
      exact (satisfyAll_signals s.objects _ _).symm
    exact hs

/-- `s'` is `s` after a signal of `o` has woken the threads `ts` in this order: each of them
could be satisfied when its turn came, what they waited for was consumed, nobody else was
touched, and nobody that `o` could satisfy is left. -/
structure Signaled (s : WboxScheduler) (o : Ptr) (ts : List Ptr) (s' : WboxScheduler) : Prop where
  waiters : ∀ t ∈ ts, s.Waiter t o ∧ (s'.threads t).state = .ready
  nodup : ts.Nodup
  inTurn : Wait.InTurn o s.signals (ts.map s.waitOf)
  signals : s'.signals = Wait.consumeAll o s.signals (ts.map s.waitOf)
  kept : ∀ t, t ∉ ts → KeepsWait (s.threads t) (s'.threads t)
  lists : WaitLists s'
  autoReset : (s.objects o).type = .eventSynchronization → ts.length ≤ 1
  noneLeft : ∀ t, s'.Waiter t o → ¬ (s'.waitOf t).SatisfiableBy s'.signals o

/-- The objects of a wait are those its blocks name. -/
theorem WboxScheduler.WaitsOn.mem {wb : WbPtr} (h : s.WaitsOn wb o) :
    some o ∈ (s.waitOf wb.thread).objects := by
  obtain ⟨-, hi, ho⟩ := h
  exact List.mem_map.mpr ⟨wb.index, List.mem_range.mpr hi, ho⟩

/-- The test of the loop is whether the signal can satisfy the wait. -/
theorem wakeStatus_isSome_iff (s : WboxScheduler) (o : Ptr) (wb : WbPtr) (t : Ptr) :
    (wakeStatus s o wb t).isSome = true ↔ (s.waitOf t).SatisfiableBy s.signals o := by
  have hall : allSignaled s.signals (s.threads t).threadId (s.waitObjects t) =
      allSignaled s.objects (s.threads t).threadId (s.waitObjects t) := rfl
  have hone : syncIsSignaled (s.signals o) (s.threads t).threadId =
      syncIsSignaled (s.objects o) (s.threads t).threadId := rfl
  unfold wakeStatus Wait.SatisfiableBy WboxScheduler.waitOf
  cases (s.threads t).waitType with
  | any =>
    simp only [hone]
    split
    · next h => simp [h]
    · next h => simp [h]
  | all =>
    simp only [hall]
    split
    · next h => simp [h]
    · next h => simp [h]

/-- A signal that wakes nobody. -/
theorem Signaled.nil (h : WaitLists s)
    (hall : ∀ wb, s.WaitsOn wb o → ¬ (s.waitOf wb.thread).SatisfiableBy s.signals o) :
    Signaled s o [] s where
  waiters := by simp
  nodup := List.nodup_nil
  inTurn := by
    intro k hk
    cases hk
  signals := rfl
  kept := fun t _ => .refl _
  lists := h
  autoReset := by simp
  noneLeft := by
    rintro t ⟨i, hi⟩
    exact hall ⟨t, i⟩ hi

/-- One wake-up and then a signal of the rest. -/
theorem Signaled.cons {a : WboxScheduler} {ts : List Ptr} (ht : s.Waiter t o)
    (hw : (s.waitOf t).SatisfiableBy s.signals o) (ha : WakeStep s o t status a)
    (h : Signaled a o ts s') (hauto : (s.objects o).type = .eventSynchronization → ts = []) :
    Signaled s o (t :: ts) s' := by
  have hne : ∀ u ∈ ts, u ≠ t := by
    rintro u hu rfl
    obtain ⟨i, hst, -⟩ := (h.waiters u hu).1
    rw [show (⟨u, i⟩ : WbPtr).thread = u from rfl, ha.ready] at hst
    cases hst
  have hnot : t ∉ ts := fun hmem => hne t hmem rfl
  have hmap : ts.map a.waitOf = ts.map s.waitOf :=
    List.map_congr_left fun u hu => (ha.kept u (hne u hu)).waitOf
  refine ⟨?_, List.nodup_cons.mpr ⟨hnot, h.nodup⟩, ?_, ?_, ?_, h.lists, ?_, h.noneLeft⟩
  · intro u hu
    rcases List.mem_cons.mp hu with rfl | hu
    · obtain ⟨_, _, he⟩ := h.kept u hnot
      exact ⟨ht, by rw [he]; exact ha.ready⟩
    · obtain ⟨⟨i, hi⟩, hr⟩ := h.waiters u hu
      exact ⟨⟨i, (ha.kept u (hne u hu)).waitsOn.mp hi⟩, hr⟩
  · apply Wait.InTurn.cons hw
    rw [← ha.signals, ← hmap]
    exact h.inTurn
  · rw [h.signals, hmap, ha.signals]
    rfl
  · intro u hu
    rw [List.mem_cons, not_or] at hu
    exact (ha.kept u hu.1).trans (h.kept u hu.2)
  · intro hty
    simp [hauto hty]

/-- An event or a semaphore is signaled for everybody or for nobody. -/
private theorem signalExhausted_false {obj : SyncObject} (h : signalExhausted obj = true)
    (id : UInt32) : syncIsSignaled obj id = false := by
  simp only [signalExhausted, Bool.and_eq_true, decide_eq_true_eq, Bool.not_eq_true'] at h
  obtain ⟨hty | hty, hs⟩ := h
  · simpa [syncIsSignaled, hty] using hs
  · simpa [syncIsSignaled, hty] using hs

/-- Wake the thread of a block with a status. -/
def wakeStep (o : Ptr) (s : WboxScheduler) (w : WbPtr × UInt32) : Option WboxScheduler :=
  wakeThread s o w.1.thread w.2

/-- The block waits for the object, and the loop wakes its thread with the status. -/
def Waking (o : Ptr) (s : WboxScheduler) (w : WbPtr × UInt32) : Prop :=
  WaitLists s ∧ s.WaitsOn w.1 o ∧ wakeStatus s o w.1 w.1.thread = some w.2

/-- `s'` is `s` after these wake-ups, one after the other. -/
structure WokenBy (s : WboxScheduler) (o : Ptr) (ws : List (WbPtr × UInt32))
    (s' : WboxScheduler) : Prop where
  run : ws.foldlM (wakeStep o) s = some s'
  waking : Guarded (wakeStep o) (Waking o) s ws

theorem WokenBy.nil (s : WboxScheduler) (o : Ptr) : WokenBy s o [] s := ⟨rfl, trivial⟩

theorem WokenBy.cons {a : WboxScheduler} {w : WbPtr × UInt32} {ws : List (WbPtr × UInt32)}
    (hw : Waking o s w) (ha : wakeStep o s w = some a) (h : WokenBy a o ws s') :
    WokenBy s o (w :: ws) s' := by
  refine ⟨?_, hw, ?_⟩
  · simp only [List.foldlM_cons, ha, Option.bind_eq_bind, Option.bind_some]
    exact h.run
  · intro b hb
    obtain rfl : a = b := Option.some.inj (ha.symm.trans hb)
    exact h.waking

/-- The loop from a block of the list on: the blocks ahead are those of the list or of woken
threads, and every waiter the signal can satisfy is ahead. -/
theorem signalFrom_spec {n : Nat} {p : Option WbPtr} {zs : List WbPtr} (h : WaitLists s)
    (hc : Chain s.blockLink p zs) (hn : zs.length ≤ n)
    (hz : ∀ wb ∈ zs, (s.block wb).thread = some wb.thread ∧
      ((s.threads wb.thread).state = .waiting → s.WaitsOn wb o))
    (hall : ∀ wb, s.WaitsOn wb o → (s.waitOf wb.thread).SatisfiableBy s.signals o → wb ∈ zs) :
    ∃ ws s', signalFrom o n p s = some s' ∧
      Signaled s o (ws.map fun w => w.1.thread) s' ∧ WokenBy s o ws s' := by
  induction n generalizing s p zs with
  | zero =>
    have hzs : zs = [] := List.length_eq_zero_iff.mp (Nat.le_zero.mp hn)
    subst hzs
    have hp : p = none := hc
    subst hp
    exact ⟨[], s, rfl, .nil h fun wb hwb hsat => by simpa using hall wb hwb hsat, .nil s o⟩
  | succ n ih =>
    cases zs with
    | nil =>
      have hp : p = none := hc
      subst hp
      exact ⟨[], s, rfl, .nil h fun wb hwb hsat => by simpa using hall wb hwb hsat, .nil s o⟩
    | cons wb rest =>
      obtain ⟨rfl, hrest⟩ := hc
      obtain ⟨hth, hact⟩ := hz wb List.mem_cons_self
      have hn' : rest.length ≤ n := by simpa using hn
      have hz' : ∀ x ∈ rest, _ := fun x hx => hz x (List.mem_cons_of_mem wb hx)
      -- A block that is passed over is not that of a waiter the signal can satisfy.
      have hskip : ¬ (s.WaitsOn wb o ∧ (s.waitOf wb.thread).SatisfiableBy s.signals o) →
          ∃ ws s', signalFrom o n (s.blockLink wb) s = some s' ∧
            Signaled s o (ws.map fun w => w.1.thread) s' ∧ WokenBy s o ws s' := by
        intro hno
        apply ih h hrest hn' hz'
        intro x hx hsat
        rcases List.mem_cons.mp (hall x hx hsat) with rfl | hmem
        · exact absurd ⟨hx, hsat⟩ hno
        · exact hmem
      simp only [signalFrom, hth]
      by_cases hst : (s.threads wb.thread).state = .waiting
      · rw [if_neg (not_not.mpr hst)]
        cases hws : wakeStatus s o wb wb.thread with
        | none =>
          apply hskip
          rintro ⟨-, hsat⟩
          simpa [hws] using (wakeStatus_isSome_iff s o wb wb.thread).mpr hsat
        | some status =>
          have hsat : (s.waitOf wb.thread).SatisfiableBy s.signals o :=
            (wakeStatus_isSome_iff s o wb wb.thread).mp (by simp [hws])
          have hon := hact hst
          have hwaiter : s.Waiter wb.thread o := ⟨wb.index, hon⟩
          obtain ⟨a, ha, hstep⟩ : ∃ a, wakeThread s o wb.thread status = some a ∧
              WakeStep s o wb.thread status a := wakeThread_spec h hst
          obtain ⟨ys, hys, hsub, hkeep⟩ := hstep.others _ _ hrest
          simp only [Option.bind_eq_bind, ha, Option.bind_some]
          have hne : ∀ x : WbPtr, (a.threads x.thread).state = .waiting → x.thread ≠ wb.thread := by
            intro x hx he
            rw [he, hstep.ready] at hx
            cases hx
          split
          · next hex =>
            refine ⟨[(wb, status)], a, rfl,
              .cons hwaiter hsat hstep (.nil hstep.lists ?_) (by simp),
              .cons ⟨h, hon, hws⟩ ha (.nil a o)⟩
            intro x hx
            exact Wait.not_satisfiableBy (signalExhausted_false hex _) hx.mem
          · next hex =>
            obtain ⟨ws, s', hs', hsig, hrun⟩ := ih hstep.lists hys (Nat.le_trans hsub.length_le hn') (by
                intro x hx
                obtain ⟨hb, hactx⟩ := hz' x (hsub.subset hx)
                refine ⟨(hstep.blockThread x).trans hb, ?_⟩
                intro hxst
                have hk := hstep.kept x.thread (hne x hxst)
                apply hk.waitsOn.mpr
                obtain ⟨_, _, he⟩ := hk
                exact hactx (by rw [he] at hxst; exact hxst)) (by
                intro x hx hsatx
                have hxne := hne x hx.1
                have hk := hstep.kept x.thread hxne
                rw [hk.waitOf, hstep.signals] at hsatx
                have hsat0 := hsatx.mono fun _ _ => signaled_of_satisfyAll
                rcases List.mem_cons.mp (hall x (hk.waitsOn.mp hx) hsat0) with rfl | hmem
                · exact absurd rfl hxne
                · exact hkeep x hmem hxne)
            refine ⟨(wb, status) :: ws, s', hs', .cons hwaiter hsat hstep hsig ?_,
              .cons ⟨h, hon, hws⟩ ha hrun⟩
            intro hty
            exfalso
            apply hex
            have hz0 : (a.signals o).signalState = 0 := by
              rw [hstep.signals]
              exact Wait.consume_autoReset hty hon.mem
            have hty' : (a.signals o).type = .eventSynchronization := by
              rw [hstep.signals, Wait.consume, satisfyAll_type]
              exact hty
            have hz1 : (a.objects o).signalState = 0 := hz0
            have hty1 : (a.objects o).type = .eventSynchronization := hty'
            simp [signalExhausted, syncIsSignaled, hty1, hz1]
      · rw [if_pos hst]
        apply hskip
        rintro ⟨hon, -⟩
        exact hst hon.1

/-- A signal of an object with a known tag ends, wakes the right threads and does nothing else. -/
theorem schedulerSignalObject_wakes {type : HandleType} (h : WaitLists s)
    (htag : syncGetHeader type = true) :
    ∃ ws s', schedulerSignalObject s o type = some s' ∧
      Signaled s o (ws.map fun w => w.1.thread) s' ∧ WokenBy s o ws s' := by
  obtain ⟨xs, hc, hmem⟩ := h.lists o
  unfold schedulerSignalObject
  rw [if_pos htag]
  apply signalFrom_spec h hc (h.length_le hc fun wb hwb => (hmem wb).mp hwb)
  · intro wb hwb
    have hon := (hmem wb).mp hwb
    exact ⟨h.owner wb o hon, fun _ => hon⟩
  · intro wb hwb _
    exact (hmem wb).mpr hwb

/-- The threads a signal wakes. -/
theorem schedulerSignalObject_spec {type : HandleType} (h : WaitLists s)
    (htag : syncGetHeader type = true) :
    ∃ ts s', schedulerSignalObject s o type = some s' ∧ Signaled s o ts s' := by
  obtain ⟨ws, s', hs, hsig, -⟩ := schedulerSignalObject_wakes (o := o) h htag
  exact ⟨_, s', hs, hsig⟩

end Wbox.Thread
