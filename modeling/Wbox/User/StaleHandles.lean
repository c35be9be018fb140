import Wbox.Lib.Trace
import Wbox.User.HandleTable

/-!
# Stale USER handles

Runs of `user_handle_alloc` and `user_handle_free`, with every handle that has been freed. The
generation of an entry has 16 bits: a handle stays dead until its entry has been freed 65536 times.
-/

namespace Wbox.User

open Wbox.Lib

/-- The calls on the table; the arguments are arbitrary. -/
inductive UserHandleOp where
  | alloc (ptr : Int) (type : UserHandleType) (owner : Int)
  | free (handle : UInt32)

/-- The table, the handles that have been freed, and those that have been returned again. -/
structure UserHandleRun where
  table : UserHandleTable
  freed : List UInt32
  reissued : List UInt32

/-- One call. -/
def userHandleStep (r : UserHandleRun) : UserHandleOp → Option UserHandleRun
  | .alloc ptr type owner =>
      let made := userHandleAlloc r.table ptr type owner
      some
        { r with
          table := made.1
          reissued := if made.2 ∈ r.freed then made.2 :: r.reissued else r.reissued }
  | .free handle =>
      let done := userHandleFree r.table handle
      some { r with table := done.1, freed := if done.2 then handle :: r.freed else r.freed }

/-- The table after `user_handle_table_init`. -/
def userHandleStart : UserHandleRun :=
  { table := userHandleTableInit, freed := [], reissued := [] }

/-- Every entry point rejects the handle. -/
structure Rejects (t : UserHandleTable) (handle : UInt32) : Prop where
  get : userHandleGet t handle = 0
  typed : ∀ type, userHandleGetTyped t handle type = 0
  valid : userHandleIsValid t handle = false
  free : userHandleFree t handle = (t, false)

/-- No freed handle has been returned again, and every one of them is dead. -/
structure StaleDead (r : UserHandleRun) : Prop where
  never : r.reissued = []
  dead : ∀ handle ∈ r.freed, Rejects r.table handle

/-- How often an entry has been freed. -/
def UserHandleRun.timesFreed (r : UserHandleRun) (i : Nat) : Nat :=
  r.freed.countP fun handle => userHandleIndex handle = i

/-- No entry is used again after it has been freed 65536 times; nor is it freed for the 65536th
time, unless the entry 0 is the next free one (whose index, read as a pointer, is `NULL`). -/
def GenerationLeft (r : UserHandleRun) : UserHandleOp → Prop
  | .alloc _ type _ => type ≠ .free → ∀ i, r.table.nextEntry = some i → r.timesFreed i < 2 ^ 16
  | .free handle => Live r.table handle →
      r.timesFreed (userHandleIndex handle) + 1 < 2 ^ 16 ∨ r.table.firstFree = 0

variable {t : UserHandleTable} {handle : UInt32} {r r' : UserHandleRun} {op : UserHandleOp}
variable {i : Nat}

section Rejection

/-- A handle of another generation is rejected. -/
theorem rejects_of_generation (hzero : handle ≠ 0)
    (hgen : (t.entries (userHandleIndex handle)).generation ≠ userHandleGen handle) :
    Rejects t handle := by
  have hlive : ¬ Live t handle := fun h => hgen h.generation
  constructor
  · unfold userHandleGet
    simp [hzero, hgen]
  · intro type
    unfold userHandleGetTyped
    simp [hzero, hgen]
  · unfold userHandleIsValid
    simp [hzero, hgen]
  · exact ((userHandleFree_cases t handle).resolve_right fun h => hlive h.1).2

/-- So is one of a free entry that is the last of the list. -/
theorem rejects_of_free (hzero : handle ≠ 0)
    (htype : (t.entries (userHandleIndex handle)).type = .free)
    (hptr : (t.entries (userHandleIndex handle)).ptr = 0) : Rejects t handle := by
  have hlive : ¬ Live t handle := fun h => h.used htype
  constructor
  · unfold userHandleGet
    simp [hzero, htype]
  · intro type
    unfold userHandleGetTyped
    simp [hzero, hptr]
  · unfold userHandleIsValid
    simp [hzero, htype]
  · exact ((userHandleFree_cases t handle).resolve_right fun h => hlive h.1).2

end Rejection

section Invariant

theorem timesFreed_free (hdone : (userHandleFree r.table handle).2 = true)
    (hstep : userHandleStep r (.free handle) = some r') (i : Nat) :
    r'.timesFreed i = r.timesFreed i + if userHandleIndex handle = i then 1 else 0 := by
  cases hstep
  unfold UserHandleRun.timesFreed
  simp only [hdone, if_true, List.countP_cons, decide_eq_true_eq]

/-- The generations of an entry so far were used one after the other. -/
structure StaleInv (r : UserHandleRun) : Prop where
  never : r.reissued = []
  ne_zero : ∀ handle ∈ r.freed, handle ≠ 0
  mem_iff : ∀ handle, handle ∈ r.freed ↔ userHandleIndex handle < userMaxHandles ∧
    ∃ k < r.timesFreed (userHandleIndex handle), (userHandleGen handle).toNat = (1 + k) % 2 ^ 16
  generation : ∀ i < userMaxHandles,
    (r.table.entries i).generation.toNat = (1 + r.timesFreed i) % 2 ^ 16
  left : ∀ i < userMaxHandles, r.timesFreed i < 2 ^ 16 ∨
    r.timesFreed i = 2 ^ 16 ∧ (r.table.entries i).type = .free ∧ (r.table.entries i).ptr = 0

theorem StaleInv.dead (h : StaleInv r) : StaleDead r := by
  refine ⟨h.never, ?_⟩
  intro handle hmem
  obtain ⟨hindex, k, hk, hgen⟩ := (h.mem_iff handle).mp hmem
  have hzero := h.ne_zero handle hmem
  rcases h.left _ hindex with hleft | ⟨-, htype, hptr⟩
  · apply rejects_of_generation hzero
    intro heq
    have hentry := h.generation _ hindex
    rw [heq, hgen] at hentry
    omega
  · exact rejects_of_free hzero htype hptr

theorem staleInv_start : StaleInv userHandleStart where
  never := rfl
  ne_zero := fun _ hmem => absurd hmem List.not_mem_nil
  mem_iff := by
    intro handle
    constructor
    · exact fun hmem => absurd hmem List.not_mem_nil
    · intro ⟨_, k, hk, _⟩
      exact absurd hk (Nat.not_lt_zero k)
  generation := by
    intro i _
    have hone : (userHandleTableInit.entries i).generation = 1 := by
      unfold userHandleTableInit
      dsimp only
      split
      · rfl
      · split <;> rfl
    show (userHandleTableInit.entries i).generation.toNat = 1
    rw [hone]
    rfl
  left := fun _ _ => .inl (Nat.two_pow_pos 16)

/-- A handle that has not been freed 65536 times before is a new one. -/
theorem StaleInv.fresh (h : StaleInv r) (hi : i < userMaxHandles)
    (hleft : r.timesFreed i < 2 ^ 16) :
    userMakeHandle i (r.table.entries i).generation ∉ r.freed := by
  intro hmem
  obtain ⟨-, k, hk, hgen⟩ := (h.mem_iff _).mp hmem
  rw [userHandleIndex_make hi] at hk
  rw [userHandleGen_make hi, h.generation i hi] at hgen
  omega

theorem StaleInv.alloc (h : StaleInv r) {ptr owner : Int} {type : UserHandleType}
    (hok : GenerationLeft r (.alloc ptr type owner))
    (hstep : userHandleStep r (.alloc ptr type owner) = some r') : StaleInv r' := by
  cases hstep
  rcases userHandleAlloc_cases r.table ptr type owner with
    ⟨-, heq⟩ | ⟨i, htype, hnext, hentries, hmade⟩
  · have hnot : (0 : UInt32) ∉ r.freed := fun hmem => h.ne_zero 0 hmem rfl
    simp only [heq, if_neg hnot]
    exact ⟨h.never, h.ne_zero, h.mem_iff, h.generation, h.left⟩
  · have hi := nextEntry_lt hnext
    have hleft := hok htype i hnext
    have hfresh := h.fresh hi hleft
    rw [← hmade] at hfresh
    simp only [if_neg hfresh]
    refine ⟨h.never, h.ne_zero, h.mem_iff, ?_, ?_⟩
    · intro j hj
      show ((userHandleAlloc r.table ptr type owner).1.entries j).generation.toNat = _
      rw [hentries]
      by_cases heq : j = i
      · rw [heq, Function.update_self]
        exact h.generation i hi
      · rw [Function.update_of_ne heq]
        exact h.generation j hj
    · intro j hj
      show r.timesFreed j < 2 ^ 16 ∨ r.timesFreed j = 2 ^ 16 ∧
        ((userHandleAlloc r.table ptr type owner).1.entries j).type = .free ∧
        ((userHandleAlloc r.table ptr type owner).1.entries j).ptr = 0
      rw [hentries]
      by_cases heq : j = i
      · rw [heq]
        exact .inl hleft
      · rw [Function.update_of_ne heq]
        exact h.left j hj

/-- The handle that is freed is of the generation that its entry leaves. -/
theorem StaleInv.mem_free (h : StaleInv r) (hlive : Live r.table handle)
    (hdone : (userHandleFree r.table handle).2 = true)
    (hstep : userHandleStep r (.free handle) = some r') (handle' : UInt32) :
    handle' ∈ r'.freed ↔ userHandleIndex handle' < userMaxHandles ∧
      ∃ k < r'.timesFreed (userHandleIndex handle'),
        (userHandleGen handle').toNat = (1 + k) % 2 ^ 16 := by
  have hcount := timesFreed_free hdone hstep (userHandleIndex handle')
  have hfreed : r'.freed = handle :: r.freed := by
    cases hstep
    simp only [hdone, if_true]
  have hgen : (userHandleGen handle).toNat =
      (1 + r.timesFreed (userHandleIndex handle)) % 2 ^ 16 := by
    rw [← hlive.generation]
    exact h.generation _ hlive.index
  rw [hcount, hfreed, List.mem_cons, h.mem_iff handle']
  constructor
  · rintro (rfl | ⟨hindex, k, hk, hgen'⟩)
    · rw [if_pos rfl]
      exact ⟨hlive.index, _, Nat.lt_succ_self _, hgen⟩
    · exact ⟨hindex, k, Nat.lt_of_lt_of_le hk (Nat.le_add_right _ _), hgen'⟩
  · intro ⟨hindex, k, hk, hgen'⟩
    by_cases hsame : userHandleIndex handle = userHandleIndex handle'
    · rw [if_pos hsame] at hk
      by_cases hlast : k = r.timesFreed (userHandleIndex handle')
      · left
        apply handle_ext hsame.symm
        apply UInt16.toNat_inj.mp
        rw [hgen', hgen, hlast, hsame]
      · exact .inr ⟨hindex, k, by omega, hgen'⟩
    · rw [if_neg hsame] at hk
      exact .inr ⟨hindex, k, hk, hgen'⟩

theorem StaleInv.free (h : StaleInv r) (hok : GenerationLeft r (.free handle))
    (hstep : userHandleStep r (.free handle) = some r') : StaleInv r' := by
  rcases userHandleFree_cases r.table handle with ⟨-, heq⟩ | ⟨hlive, hentries, hdone⟩
  · cases hstep
    simp only [heq, Bool.false_eq_true, if_false]
    exact h
  · have hmem := h.mem_free hlive hdone hstep
    have hcount := timesFreed_free hdone hstep
    have htable : r'.table.entries = (userHandleFree r.table handle).1.entries := by
      cases hstep
      rfl
    rw [hentries] at htable
    have hbefore : r.timesFreed (userHandleIndex handle) < 2 ^ 16 :=
      (h.left _ hlive.index).resolve_right fun hused => hlive.used hused.2.1
    refine ⟨?_, ?_, hmem, ?_, ?_⟩
    · cases hstep
      exact h.never
    · cases hstep
      simp only [hdone, if_true]
      intro handle' hin
      rcases List.mem_cons.mp hin with rfl | hin
      · exact hlive.ne_zero
      · exact h.ne_zero handle' hin
    · intro j hj
      rw [hcount, htable]
      by_cases heq : j = userHandleIndex handle
      · subst heq
        have hgen := h.generation _ hj
        rw [Function.update_self, if_pos rfl]
        show ((r.table.entries (userHandleIndex handle)).generation + 1).toNat = _
        rw [UInt16.toNat_add, hgen]
        show (_ + 1) % 2 ^ 16 = _
        omega
      · rw [Function.update_of_ne heq, if_neg (Ne.symm heq)]
        exact h.generation j hj
    · intro j hj
      rw [hcount, htable]
      by_cases heq : j = userHandleIndex handle
      · subst heq
        rw [Function.update_self, if_pos rfl]
        rcases hok hlive with hless | hnull
        · exact .inl hless
        · by_cases hless : r.timesFreed (userHandleIndex handle) + 1 < 2 ^ 16
          · exact .inl hless
          · exact .inr ⟨by omega, rfl, hnull⟩
      · rw [Function.update_of_ne heq, if_neg (Ne.symm heq)]
        exact h.left j hj

end Invariant

section Results

/-- An entry that is used again after it has been freed 65536 times gets a freed handle. -/
theorem staleDead_alloc_not (h : StaleInv r) {ptr owner : Int} {type : UserHandleType}
    (hbad : ¬ GenerationLeft r (.alloc ptr type owner))
    (hstep : userHandleStep r (.alloc ptr type owner) = some r') : ¬ StaleDead r' := by
  cases hstep
  simp only [GenerationLeft, not_forall] at hbad
  obtain ⟨htype, i, hnext, hover⟩ := hbad
  have hi := nextEntry_lt hnext
  rcases userHandleAlloc_cases r.table ptr type owner with
    ⟨hnone, -⟩ | ⟨j, -, hnext', -, hmade⟩
  · rcases hnone with hfree | hnone
    · exact absurd hfree htype
    · rw [hnext] at hnone
      cases hnone
  · obtain rfl : i = j := Option.some.inj (hnext.symm.trans hnext')
    have hmem : (userHandleAlloc r.table ptr type owner).2 ∈ r.freed := by
      rw [hmade, h.mem_iff, userHandleIndex_make hi, userHandleGen_make hi, h.generation i hi]
      refine ⟨hi, 0, by omega, ?_⟩
      rcases h.left i hi with hless | ⟨heq, -⟩
      · exact absurd hless hover
      · rw [heq]
        decide
    intro hdead
    have hnever := hdead.never
    simp only [if_pos hmem] at hnever
    cases hnever

/-- An entry that has been freed 65536 times has the generation it started with; its pointer is
the index of the next free entry. -/
theorem staleDead_free_not (h : StaleInv r) (hbad : ¬ GenerationLeft r (.free handle))
    (hstep : userHandleStep r (.free handle) = some r') : ¬ StaleDead r' := by
  simp only [GenerationLeft, not_forall, not_or] at hbad
  obtain ⟨hlive, hover, hnext⟩ := hbad
  rcases userHandleFree_cases r.table handle with ⟨hnot, -⟩ | ⟨-, hentries, hdone⟩
  · exact absurd hlive hnot
  · have hmem := h.mem_free hlive hdone hstep (userMakeHandle (userHandleIndex handle) 1)
    have hcount := timesFreed_free hdone hstep (userHandleIndex handle)
    have hgen := h.generation _ hlive.index
    have hbefore := h.left _ hlive.index
    have hindex := userHandleIndex_make (g := 1) hlive.index
    rw [if_pos rfl] at hcount
    intro hdead
    have hstale : userMakeHandle (userHandleIndex handle) 1 ∈ r'.freed := by
      rw [hmem, hindex, userHandleGen_make hlive.index]
      exact ⟨hlive.index, 0, by omega, rfl⟩
    have htyped := (hdead.dead _ hstale).typed .free
    have htable : r'.table.entries = (userHandleFree r.table handle).1.entries := by
      cases hstep
      rfl
    have hfull : r.timesFreed (userHandleIndex handle) + 1 = 2 ^ 16 := by
      have hless := hbefore.resolve_right fun hused => hlive.used hused.2.1
      omega
    have hone : (r.table.entries (userHandleIndex handle)).generation + 1 = 1 := by
      apply UInt16.toNat_inj.mp
      rw [UInt16.toNat_add, hgen]
      show ((1 + r.timesFreed (userHandleIndex handle)) % 2 ^ 16 + 1) % 2 ^ 16 = 1
      omega
    unfold userHandleGetTyped at htyped
    simp only [reduceCtorEq, and_false, if_false, hindex, htable, hentries, Function.update_self,
      userHandleGen_make hlive.index, hone, ne_eq, not_true_eq_false,
      Nat.not_le.mpr hlive.index] at htyped
    exact hnext htyped

/-- The freed handles are dead all along a run exactly if no entry has been freed 65536 times when
it is used again. -/
theorem userHandleRun_stale_iff {ops : List UserHandleOp} {tr : List UserHandleRun}
    (h : trace userHandleStep userHandleStart ops = some tr) :
    (∀ r ∈ tr, StaleDead r) ↔ Guarded userHandleStep GenerationLeft userHandleStart ops := by
  apply trace_forall_iff_guarded (fun r (hinv : StaleInv r) => hinv.dead) ?_ ?_ staleInv_start h
  · intro r op r' hinv hok hstep
    cases op with
    | alloc ptr type owner => exact hinv.alloc hok hstep
    | free handle => exact hinv.free hok hstep
  · intro r op r' hinv hbad hstep
    cases op with
    | alloc ptr type owner => exact staleDead_alloc_not hinv hbad hstep
    | free handle => exact staleDead_free_not hinv hbad hstep

/-- A window is created and destroyed, and another one is created. -/
theorem userHandleRun_stale_window : ∃ tr,
    trace userHandleStep userHandleStart [.alloc 1 .window 0, .free (userMakeHandle 1 1),
      .alloc 2 .window 0] = some tr ∧ ∀ r ∈ tr, StaleDead r := by
  have hrun : (trace userHandleStep userHandleStart [.alloc 1 .window 0,
      .free (userMakeHandle 1 1), .alloc 2 .window 0]).isSome = true := rfl
  obtain ⟨tr, htr⟩ := Option.isSome_iff_exists.mp hrun
  refine ⟨tr, htr, (userHandleRun_stale_iff htr).mpr ?_⟩
  have hfew : ∀ (r : UserHandleRun) i, r.freed.length < 2 ^ 16 → r.timesFreed i < 2 ^ 16 :=
    fun r i hlen => Nat.lt_of_le_of_lt List.countP_le_length hlen
  refine ⟨fun _ i _ => hfew _ i (by decide), ?_⟩
  intro first hfirst
  cases hfirst
  refine ⟨fun _ => .inl (by decide +kernel), ?_⟩
  intro second hsecond
  cases hsecond
  exact ⟨fun _ i _ => hfew _ i (by decide +kernel), fun _ _ => trivial⟩

/-- The table after so many windows have been created and destroyed, all with the entry 1. -/
def tableAfter (n : Nat) : UserHandleTable :=
  { entries := Function.update userHandleTableInit.entries 1 ⟨2, 0, .free, UInt16.ofNat (1 + n)⟩
    firstFree := 1
    handleCount := 1 }

/-- The handles of these windows, the last one first. -/
def handlesAfter : Nat → List UInt32
  | 0 => []
  | n + 1 => userMakeHandle 1 (UInt16.ofNat (1 + n)) :: handlesAfter n

/-- A window is created and destroyed. -/
def cycle (n : Nat) : List UserHandleOp :=
  [.alloc 7 .window 0, .free (userMakeHandle 1 (UInt16.ofNat (1 + n)))]

theorem tableAfter_zero : tableAfter 0 = userHandleTableInit := by
  have hentry : userHandleTableInit.entries 1 = ⟨2, 0, .free, UInt16.ofNat (1 + 0)⟩ := rfl
  unfold tableAfter
  rw [← hentry, Function.update_eq_self]
  rfl

theorem userHandleAlloc_after (n : Nat) :
    userHandleAlloc (tableAfter n) 7 .window 0 =
      ({ entries := Function.update userHandleTableInit.entries 1
          ⟨7, 0, .window, UInt16.ofNat (1 + n)⟩, firstFree := 2, handleCount := 2 },
        userMakeHandle 1 (UInt16.ofNat (1 + n))) := by
  unfold tableAfter
  have hnext : ¬ ((1 : Int) < 0 ∨ (1 : Int) ≥ userMaxHandles) := by decide
  have htwo : intOfPtr 2 = 2 := by decide
  simp only [userHandleAlloc, reduceCtorEq, if_false, hnext, UserHandleTable.set, Int.toNat_one,
    Function.update_self, Function.update_idem, htwo]
  rfl

theorem userHandleFree_after (n : Nat)
    (hzero : userMakeHandle 1 (UInt16.ofNat (1 + n)) ≠ 0) :
    userHandleFree
      { entries := Function.update userHandleTableInit.entries 1
          ⟨7, 0, .window, UInt16.ofNat (1 + n)⟩, firstFree := 2, handleCount := 2 }
      (userMakeHandle 1 (UInt16.ofNat (1 + n))) = (tableAfter (n + 1), true) := by
  have hindex : userHandleIndex (userMakeHandle 1 (UInt16.ofNat (1 + n))) = 1 :=
    userHandleIndex_make (by decide)
  have hgen : userHandleGen (userMakeHandle 1 (UInt16.ofNat (1 + n))) = UInt16.ofNat (1 + n) :=
    userHandleGen_make (by decide)
  have hmax : ¬ 1 ≥ userMaxHandles := by decide
  have hsucc : UInt16.ofNat (1 + n) + 1 = UInt16.ofNat (1 + (n + 1)) := by
    rw [← Nat.add_assoc, UInt16.ofNat_add (1 + n) 1]
    rfl
  simp only [userHandleFree, hindex, hzero, if_false, hmax, Function.update_self, hgen, ne_eq,
    not_true_eq_false, reduceCtorEq, UserHandleTable.set, Function.update_idem, hsucc]
  rfl

theorem userMakeHandle_one_ne_zero (g : UInt16) : userMakeHandle 1 g ≠ 0 := by
  intro heq
  have hnat := congrArg UInt32.toNat heq
  rw [userMakeHandle_toNat (by decide), UInt32.toNat_zero] at hnat
  omega

theorem mem_handlesAfter {n : Nat} :
    handle ∈ handlesAfter n ↔ ∃ k < n, handle = userMakeHandle 1 (UInt16.ofNat (1 + k)) := by
  induction n with
  | zero =>
    constructor
    · exact fun hmem => absurd hmem List.not_mem_nil
    · intro ⟨k, hk, _⟩
      exact absurd hk (Nat.not_lt_zero k)
  | succ n ih =>
    rw [handlesAfter, List.mem_cons, ih]
    constructor
    · rintro (heq | ⟨k, hk, heq⟩)
      · exact ⟨n, Nat.lt_succ_self n, heq⟩
      · exact ⟨k, Nat.lt_succ_of_lt hk, heq⟩
    · intro ⟨k, hk, heq⟩
      by_cases hlast : k = n
      · exact .inl (hlast ▸ heq)
      · exact .inr ⟨k, by omega, heq⟩

/-- The windows that are created and destroyed one after the other. -/
theorem run_cycles (n : Nat) (hn : n ≤ 2 ^ 16) :
    ((List.range n).flatMap cycle).foldlM userHandleStep userHandleStart =
      some { table := tableAfter n, freed := handlesAfter n, reissued := [] } := by
  induction n with
  | zero =>
    rw [tableAfter_zero]
    rfl
  | succ n ih =>
    have hnew : userMakeHandle 1 (UInt16.ofNat (1 + n)) ∉ handlesAfter n := by
      intro hmem
      obtain ⟨k, hk, heq⟩ := mem_handlesAfter.mp hmem
      have hnat := congrArg UInt32.toNat heq
      rw [userMakeHandle_toNat (by decide), userMakeHandle_toNat (by decide),
        UInt16.toNat_ofNat', UInt16.toNat_ofNat'] at hnat
      omega
    have hfree := userHandleFree_after n (userMakeHandle_one_ne_zero _)
    rw [List.range_succ, List.flatMap_append, List.foldlM_append, ih (by omega)]
    simp only [List.flatMap_singleton, cycle, Option.bind_eq_bind, Option.bind_some,
      List.foldlM_cons, List.foldlM_nil, userHandleStep, userHandleAlloc_after, if_neg hnew, hfree,
      if_true, handlesAfter]
    rfl

/-- The handle of the first window is returned again when the entry has been freed 65536 times. -/
theorem userHandleRun_stale_not : ∃ (ops : List UserHandleOp) (r : UserHandleRun),
    ops.foldlM userHandleStep userHandleStart = some r ∧
    userMakeHandle 1 1 ∈ r.freed ∧ r.reissued = [userMakeHandle 1 1] ∧
      userHandleIsValid r.table (userMakeHandle 1 1) = true ∧
      userHandleGet r.table (userMakeHandle 1 1) = 7 := by
  have hwrap : UInt16.ofNat (1 + 2 ^ 16) = 1 := by decide
  have hmem : userMakeHandle 1 1 ∈ handlesAfter (2 ^ 16) :=
    mem_handlesAfter.mpr ⟨0, by decide, rfl⟩
  have halloc := userHandleAlloc_after (2 ^ 16)
  rw [hwrap] at halloc
  refine ⟨(List.range (2 ^ 16)).flatMap cycle ++ [.alloc 7 .window 0],
    { table := { entries := Function.update userHandleTableInit.entries 1 ⟨7, 0, .window, 1⟩
                 firstFree := 2
                 handleCount := 2 }
      freed := handlesAfter (2 ^ 16)
      reissued := [userMakeHandle 1 1] }, ?_, hmem, rfl, ?_, ?_⟩
  · rw [List.foldlM_append, run_cycles _ (Nat.le_refl _)]
    simp only [Option.bind_eq_bind, Option.bind_some, List.foldlM_cons, List.foldlM_nil,
      userHandleStep, halloc, if_pos hmem]
    rfl
  · decide
  · decide

end Results

end Wbox.User
