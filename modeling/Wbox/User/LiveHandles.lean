import Mathlib.Data.Finset.Card
import Wbox.Lib.Chain
import Wbox.Lib.SignedWord
import Wbox.User.StaleHandles

/-!
# Live USER handles

Runs of `user_handle_alloc` and `user_handle_free`, with the handles that have been returned and not
been freed (`src/user/user_handle_table.c`). The free list goes through the pointers of the free
entries. Entry 0 is reserved for the desktop, but its handle `0x00010000` can be freed; entry 0 is
then allocated like any other.
-/

namespace Wbox.User

open Wbox.Lib

/-- The entry that a link of the free list leads to. -/
def entryAt (v : Int) : Option Nat := if v < 0 ∨ v ≥ userMaxHandles then none else some v.toNat

/-- The link of a free entry. -/
def UserHandleTable.link (t : UserHandleTable) (i : Nat) : Option Nat :=
  entryAt (intOfPtr (t.entries i).ptr)

/-- The table with another entry, and another free list and count. -/
def UserHandleTable.put (t : UserHandleTable) (i : Nat) (entry : UserHandleEntry) (first : Int)
    (count : Int32) : UserHandleTable where
  entries := Function.update t.entries i entry
  firstFree := first
  handleCount := count

/-- The free list from `first_free` has exactly the free entries, and each of them once. -/
structure FreeList (t : UserHandleTable) (l : List Nat) : Prop where
  chain : Chain t.link t.nextEntry l
  nodup : l.Nodup
  mem_iff : ∀ i, i ∈ l ↔ i < userMaxHandles ∧ (t.entries i).type = .free

/-- The entries that are not free. -/
def UserHandleTable.used (t : UserHandleTable) : Finset Nat :=
  (Finset.range userMaxHandles).filter fun i => (t.entries i).type ≠ .free

/-- A handle that has been returned, and what it was allocated with. -/
structure LiveHandle where
  handle : UInt32
  ptr : Int
  type : UserHandleType

/-- The table, and the handles that have been returned and not been freed since. -/
structure UserLiveRun where
  table : UserHandleTable
  live : List LiveHandle

/-- One call. -/
def userLiveStep (r : UserLiveRun) : UserHandleOp → UserLiveRun
  | .alloc ptr type owner =>
      let made := userHandleAlloc r.table ptr type owner
      { table := made.1, live := if made.2 = 0 then r.live else ⟨made.2, ptr, type⟩ :: r.live }
  | .free handle =>
      let done := userHandleFree r.table handle
      { table := done.1
        live := if done.2 then r.live.filter fun x => x.handle ≠ handle else r.live }

/-- The table after `user_handle_table_init`. -/
def userLiveStart : UserLiveRun := { table := userHandleTableInit, live := [] }

/-- A handle resolves to the pointer and the type it was allocated with. -/
structure Resolves (t : UserHandleTable) (x : LiveHandle) : Prop where
  get : userHandleGet t x.handle = x.ptr
  typed : userHandleGetTyped t x.handle x.type = x.ptr
  type : userHandleGetType t x.handle = x.type

/-- The table is sound. An allocation of a type fails only if no entry is free, or if the next one
is entry 0 with generation 0. -/
structure TableSound (r : UserLiveRun) : Prop where
  freeList : ∃ l, FreeList r.table l
  count : r.table.handleCount.toInt = r.table.used.card
  distinct : (r.live.map LiveHandle.handle).Nodup
  resolves : ∀ x ∈ r.live, Resolves r.table x
  fails : ∀ ptr type owner, type ≠ .free → (userHandleAlloc r.table ptr type owner).2 = 0 →
    FreeList r.table [] ∨
      ∃ l, FreeList r.table (0 :: l) ∧ (r.table.entries 0).generation = 0

variable {t : UserHandleTable} {r : UserLiveRun} {handle : UInt32} {ptr owner : Int}
  {type : UserHandleType} {x : LiveHandle} {l : List Nat} {i j : Nat} {entry : UserHandleEntry}
  {first : Int} {count : Int32}

section Calls

@[simp] theorem put_entries_self : (t.put i entry first count).entries i = entry :=
  Function.update_self ..

theorem put_entries_of_ne (hne : j ≠ i) :
    (t.put i entry first count).entries j = t.entries j :=
  Function.update_of_ne hne ..

theorem put_link_of_ne (hne : j ≠ i) : (t.put i entry first count).link j = t.link j := by
  unfold UserHandleTable.link
  rw [put_entries_of_ne hne]

theorem nextEntry_eq (t : UserHandleTable) : t.nextEntry = entryAt t.firstFree := rfl

theorem entryAt_natCast (hi : i < userMaxHandles) : entryAt i = some i := by
  unfold entryAt
  rw [if_neg (by omega), Int.toNat_natCast]

/-- The first free entry is taken from the list. -/
theorem userHandleAlloc_eq (htype : type ≠ .free) (hnext : t.nextEntry = some i) :
    userHandleAlloc t ptr type owner =
      (t.put i { t.entries i with ptr, owner, type } (intOfPtr (t.entries i).ptr)
          (t.handleCount + 1),
        userMakeHandle i (t.entries i).generation) := by
  unfold UserHandleTable.nextEntry at hnext
  unfold userHandleAlloc
  rw [if_neg htype]
  split at hnext
  · cases hnext
  · next hvalid =>
    rw [if_neg hvalid, Option.some.inj hnext]
    rfl

/-- The entry of a handle in use is put in front of the list. -/
theorem userHandleFree_eq (h : Live t handle) :
    userHandleFree t handle =
      (t.put (userHandleIndex handle)
          ⟨t.firstFree, 0, .free, (t.entries (userHandleIndex handle)).generation + 1⟩
          (userHandleIndex handle) (t.handleCount - 1), true) := by
  have hindex := Nat.not_le.mpr h.index
  unfold userHandleFree
  dsimp only
  rw [if_neg h.ne_zero, if_neg hindex, if_neg (not_not.mpr h.generation), if_neg h.used]
  rfl

theorem userHandleFree_reject (h : ¬ Live t handle) : userHandleFree t handle = (t, false) :=
  ((userHandleFree_cases t handle).resolve_right fun hlive => h hlive.1).2

theorem userHandleAlloc_reject (h : type = .free ∨ t.nextEntry = none) :
    userHandleAlloc t ptr type owner = (t, 0) := by
  rcases userHandleAlloc_cases t ptr type owner with ⟨-, heq⟩ | ⟨i, htype, hnext, -⟩
  · exact heq
  · rcases h with rfl | hnone
    · exact absurd rfl htype
    · rw [hnone] at hnext
      cases hnext

end Calls

section FreeList

theorem intOfPtr_intOfPtr (v : Int) : intOfPtr (intOfPtr v) = intOfPtr v := Int.bmod_bmod

theorem intOfPtr_natCast (hi : i < userMaxHandles) : intOfPtr i = i := by
  unfold userMaxHandles at hi
  exact bmod_of_fits (by omega) (by omega)

/-- The list without its first entry, which has been given away. -/
theorem FreeList.alloc (h : FreeList t l) (hnext : t.nextEntry = some i)
    (hused : entry.type ≠ .free) :
    ∃ rest, l = i :: rest ∧
      FreeList (t.put i entry (intOfPtr (t.entries i).ptr) count) rest := by
  have hchain := h.chain
  cases l with
  | nil =>
    rw [Chain.nil_iff, hnext] at hchain
    cases hchain
  | cons j rest =>
    obtain ⟨hhead, hrest⟩ := hchain
    obtain rfl : i = j := Option.some.inj (hnext.symm.trans hhead)
    obtain ⟨hnot, hnodup⟩ := List.nodup_cons.mp h.nodup
    refine ⟨rest, rfl, ⟨?_, hnodup, ?_⟩⟩
    · apply hrest.congr
      intro k hk
      exact put_link_of_ne fun heq => hnot (heq ▸ hk)
    · intro k
      by_cases hki : k = i
      · subst hki
        simp only [hnot, put_entries_self, hused, and_false]
      · rw [put_entries_of_ne hki, ← h.mem_iff k, List.mem_cons, or_iff_right hki]

/-- The list with an entry in front that was in use. -/
theorem FreeList.free (h : FreeList t l) (hi : i < userMaxHandles)
    (hused : (t.entries i).type ≠ .free) (hfirst : intOfPtr t.firstFree = t.firstFree)
    {gen : UInt16} : FreeList (t.put i ⟨t.firstFree, 0, .free, gen⟩ i count) (i :: l) := by
  have hnot : i ∉ l := fun hmem => hused ((h.mem_iff i).mp hmem).2
  refine ⟨⟨entryAt_natCast hi, ?_⟩, List.nodup_cons.mpr ⟨hnot, h.nodup⟩, ?_⟩
  · have hlink : (t.put i ⟨t.firstFree, 0, .free, gen⟩ i count).link i = t.nextEntry := by
      unfold UserHandleTable.link
      rw [put_entries_self, hfirst, nextEntry_eq]
    rw [hlink]
    apply h.chain.congr
    intro k hk
    exact put_link_of_ne fun heq => hnot (heq ▸ hk)
  · intro k
    by_cases hki : k = i
    · subst hki
      simp only [List.mem_cons, true_or, put_entries_self, hi, and_self]
    · rw [put_entries_of_ne hki, ← h.mem_iff k, List.mem_cons, or_iff_right hki]

/-- At first every entry but the reserved one is free. -/
theorem freeList_init : FreeList userHandleTableInit (List.range' 1 (userMaxHandles - 1)) := by
  have hentry : ∀ i, 1 ≤ i → i < userMaxHandles →
      userHandleTableInit.link i = entryAt ((i : Int) + 1) ∧
        (userHandleTableInit.entries i).type = .free := by
    intro i hpos hi
    unfold UserHandleTable.link userHandleTableInit
    dsimp only
    rw [if_neg (by omega)]
    split
    · next hlast =>
      subst hlast
      exact ⟨by decide, rfl⟩
    · have hsucc : intOfPtr ((i : Int) + 1) = (i : Int) + 1 := by
        rw [← Int.natCast_succ]
        exact intOfPtr_natCast (by omega)
      exact ⟨by rw [hsucc], rfl⟩
  have hchain : ∀ n i, 1 ≤ i → i + n = userMaxHandles →
      Chain userHandleTableInit.link (entryAt i) (List.range' i n) := by
    intro n
    induction n with
    | zero =>
      intro i _ hi
      obtain rfl : i = userMaxHandles := hi
      rfl
    | succ n ih =>
      intro i hpos hi
      rw [List.range'_succ, Chain.cons_iff, (hentry i hpos (by omega)).1, ← Int.natCast_succ]
      exact ⟨entryAt_natCast (by omega), ih (i + 1) (by omega) (by omega)⟩
  refine ⟨hchain _ 1 (Nat.le_refl 1) rfl, List.nodup_range', ?_⟩
  intro i
  rw [List.mem_range'_1]
  constructor
  · intro ⟨hpos, hi⟩
    have hlt : i < userMaxHandles := by
      unfold userMaxHandles at *
      omega
    exact ⟨hlt, (hentry i hpos hlt).2⟩
  · intro ⟨hi, htype⟩
    by_cases hzero : i = 0
    · subst hzero
      cases htype
    · unfold userMaxHandles at *
      omega

end FreeList

section Count

theorem mem_used : i ∈ t.used ↔ i < userMaxHandles ∧ (t.entries i).type ≠ .free := by
  unfold UserHandleTable.used
  rw [Finset.mem_filter, Finset.mem_range]

theorem card_used_le (t : UserHandleTable) : t.used.card ≤ userMaxHandles := by
  calc t.used.card ≤ (Finset.range userMaxHandles).card := Finset.card_filter_le _ _
    _ = userMaxHandles := Finset.card_range _

theorem mem_used_put (hne : j ≠ i) : j ∈ (t.put i entry first count).used ↔ j ∈ t.used := by
  rw [mem_used, mem_used, put_entries_of_ne hne]

theorem card_used_alloc (hi : i < userMaxHandles) (hfree : (t.entries i).type = .free)
    (hused : entry.type ≠ .free) :
    (t.put i entry first count).used.card = t.used.card + 1 := by
  have hnot : i ∉ t.used := fun hmem => (mem_used.mp hmem).2 hfree
  have hinsert : (t.put i entry first count).used = insert i t.used := by
    apply Finset.ext
    intro j
    by_cases hji : j = i
    · subst hji
      rw [mem_used, put_entries_self]
      exact iff_of_true ⟨hi, hused⟩ (Finset.mem_insert_self j _)
    · rw [mem_used_put hji, Finset.mem_insert, or_iff_right hji]
  rw [hinsert, Finset.card_insert_of_notMem hnot]

theorem card_used_free (hi : i < userMaxHandles) (hused : (t.entries i).type ≠ .free)
    (hfree : entry.type = .free) :
    (t.put i entry first count).used.card + 1 = t.used.card := by
  have herase : (t.put i entry first count).used = t.used.erase i := by
    apply Finset.ext
    intro j
    by_cases hji : j = i
    · subst hji
      rw [mem_used, put_entries_self]
      exact iff_of_false (fun h => h.2 hfree) (Finset.notMem_erase j _)
    · rw [mem_used_put hji, Finset.mem_erase, and_iff_right hji]
  rw [herase]
  exact Finset.card_erase_add_one (mem_used.mpr ⟨hi, hused⟩)

theorem card_used_init : userHandleTableInit.used.card = 1 := by
  have hsingle : userHandleTableInit.used = {0} := by
    ext i
    rw [mem_used, Finset.mem_singleton]
    constructor
    · intro ⟨hi, hused⟩
      by_contra hzero
      have hmem : i ∈ List.range' 1 (userMaxHandles - 1) := by
        rw [List.mem_range'_1]
        omega
      exact hused ((freeList_init.mem_iff i).mp hmem).2
    · rintro rfl
      exact ⟨by decide, by decide⟩
  rw [hsingle, Finset.card_singleton]

end Count

section Invariant

/-- The handle is in use, with what it was allocated with. -/
structure Holds (t : UserHandleTable) (x : LiveHandle) : Prop where
  live : Live t x.handle
  ptr : (t.entries (userHandleIndex x.handle)).ptr = x.ptr
  type : (t.entries (userHandleIndex x.handle)).type = x.type

theorem Holds.resolves (h : Holds t x) : Resolves t x := by
  have hzero := h.live.ne_zero
  have hindex := Nat.not_le.mpr h.live.index
  have hgen := not_not.mpr h.live.generation
  constructor
  · unfold userHandleGet
    dsimp only
    rw [if_neg hzero, if_neg hindex, if_neg hgen, if_neg h.live.used, h.ptr]
  · unfold userHandleGetTyped
    dsimp only
    rw [if_neg (fun hdesktop => hzero hdesktop.1), if_neg hindex, if_neg hgen,
      if_neg (not_not.mpr h.type), h.ptr]
  · unfold userHandleGetType
    dsimp only
    rw [if_neg hzero, if_neg hindex, if_neg hgen, h.type]

/-- A handle whose entry does not change keeps what it holds. -/
theorem Holds.put (h : Holds t x) (hne : userHandleIndex x.handle ≠ i) :
    Holds (t.put i entry first count) x := by
  have hentry : (t.put i entry first count).entries (userHandleIndex x.handle) =
      t.entries (userHandleIndex x.handle) := put_entries_of_ne hne
  constructor
  · exact ⟨h.live.ne_zero, h.live.index, hentry ▸ h.live.generation, hentry ▸ h.live.used⟩
  · rw [hentry, h.ptr]
  · rw [hentry, h.type]

/-- The links are a list of the free entries; the others are counted, and hold what the handles of
the run were allocated with. -/
structure LiveInv (r : UserLiveRun) : Prop where
  freeList : ∃ l, FreeList r.table l
  first : intOfPtr r.table.firstFree = r.table.firstFree
  count : r.table.handleCount.toInt = r.table.used.card
  distinct : (r.live.map LiveHandle.handle).Nodup
  holds : ∀ x ∈ r.live, Holds r.table x

theorem liveInv_start : LiveInv userLiveStart where
  freeList := ⟨_, freeList_init⟩
  first := by decide
  count := by
    show userHandleTableInit.handleCount.toInt = userHandleTableInit.used.card
    rw [card_used_init]
    rfl
  distinct := List.nodup_nil
  holds := fun _ hmem => absurd hmem List.not_mem_nil

theorem LiveInv.alloc (h : LiveInv r) : LiveInv (userLiveStep r (.alloc ptr type owner)) := by
  by_cases hreject : type = .free ∨ r.table.nextEntry = none
  · have hsame : userLiveStep r (.alloc ptr type owner) = r := by
      simp only [userLiveStep, userHandleAlloc_reject hreject, if_true]
    rwa [hsame]
  · obtain ⟨htype, hnext⟩ := not_or.mp hreject
    obtain ⟨i, hnext⟩ := Option.ne_none_iff_exists'.mp hnext
    have hi := nextEntry_lt hnext
    obtain ⟨l, hl⟩ := h.freeList
    have hused : ({ r.table.entries i with ptr, owner, type } : UserHandleEntry).type ≠ .free :=
      htype
    obtain ⟨rest, rfl, hrest⟩ := hl.alloc hnext hused
    have hfree := ((hl.mem_iff i).mp List.mem_cons_self).2
    have hother : ∀ x ∈ r.live, userHandleIndex x.handle ≠ i := by
      intro x hx heq
      exact (h.holds x hx).live.used (heq ▸ hfree)
    have hindex := userHandleIndex_make (g := (r.table.entries i).generation) hi
    simp only [userLiveStep, userHandleAlloc_eq htype hnext]
    refine ⟨⟨rest, hrest⟩, intOfPtr_intOfPtr _, ?_, ?_, ?_⟩
    · have hle := card_used_le (r.table.put i { r.table.entries i with ptr, owner, type }
        (intOfPtr (r.table.entries i).ptr) (r.table.handleCount + 1))
      rw [card_used_alloc hi hfree hused] at hle ⊢
      unfold userMaxHandles at hle
      have hone : (1 : Int32).toInt = 1 := rfl
      show (r.table.handleCount + 1).toInt = _
      rw [Int32.toInt_add, h.count, hone]
      exact bmod_of_fits (by omega) (by omega)
    · split
      · exact h.distinct
      · refine List.nodup_cons.mpr ⟨?_, h.distinct⟩
        intro hmem
        obtain ⟨x, hx, heq⟩ := List.mem_map.mp hmem
        exact hother x hx (heq ▸ hindex)
    · intro x hx
      by_cases hold : x ∈ r.live
      · exact (h.holds x hold).put (hother x hold)
      · -- the handle that has just been made
        obtain ⟨hzero, rfl⟩ : userMakeHandle i (r.table.entries i).generation ≠ 0 ∧
            x = ⟨userMakeHandle i (r.table.entries i).generation, ptr, type⟩ := by
          split at hx
          · exact absurd hx hold
          · next hzero => exact ⟨hzero, (List.mem_cons.mp hx).resolve_right hold⟩
        constructor
        · refine ⟨hzero, hindex.symm ▸ hi, ?_, ?_⟩
          · rw [hindex, put_entries_self]
            exact (userHandleGen_make hi).symm
          · rw [hindex, put_entries_self]
            exact htype
        · rw [hindex, put_entries_self]
        · rw [hindex, put_entries_self]

theorem LiveInv.free (h : LiveInv r) : LiveInv (userLiveStep r (.free handle)) := by
  by_cases hlive : Live r.table handle
  · obtain ⟨l, hl⟩ := h.freeList
    have hother : ∀ x ∈ r.live, x.handle ≠ handle →
        userHandleIndex x.handle ≠ userHandleIndex handle := by
      intro x hx hne heq
      apply hne
      apply handle_ext heq
      rw [← (h.holds x hx).live.generation, ← hlive.generation, heq]
    simp only [userLiveStep, userHandleFree_eq hlive, if_true]
    refine ⟨⟨_, hl.free hlive.index hlive.used h.first⟩, intOfPtr_natCast hlive.index, ?_, ?_, ?_⟩
    · have hcard : (r.table.put (userHandleIndex handle) ⟨r.table.firstFree, 0, .free,
          (r.table.entries (userHandleIndex handle)).generation + 1⟩ (userHandleIndex handle)
          (r.table.handleCount - 1)).used.card + 1 = r.table.used.card :=
        card_used_free hlive.index hlive.used rfl
      have hle := card_used_le r.table
      unfold userMaxHandles at hle
      have hone : (1 : Int32).toInt = 1 := rfl
      dsimp only
      show (r.table.handleCount - 1).toInt = _
      rw [Int32.toInt_sub, h.count, hone]
      rw [bmod_of_fits (by omega) (by omega)]
      omega
    · exact h.distinct.sublist (List.filter_sublist.map _)
    · intro x hx
      obtain ⟨hx, hne⟩ := List.mem_filter.mp hx
      exact (h.holds x hx).put (hother x hx (of_decide_eq_true hne))
  · have hsame : userLiveStep r (.free handle) = r := by
      simp only [userLiveStep, userHandleFree_reject hlive, Bool.false_eq_true, if_false]
    rwa [hsame]

theorem LiveInv.sound (h : LiveInv r) : TableSound r := by
  refine ⟨h.freeList, h.count, h.distinct, fun x hx => (h.holds x hx).resolves, ?_⟩
  intro ptr type owner htype hfail
  obtain ⟨l, hl⟩ := h.freeList
  cases hnext : r.table.nextEntry with
  | none =>
    have hempty : l = [] := hl.chain.unique hnext
    exact .inl (hempty ▸ hl)
  | some i =>
    have hi := nextEntry_lt hnext
    rw [userHandleAlloc_eq htype hnext] at hfail
    have hnat := userMakeHandle_toNat (g := (r.table.entries i).generation) hi
    rw [show userMakeHandle i (r.table.entries i).generation = 0 from hfail, UInt32.toNat_zero]
      at hnat
    obtain rfl : i = 0 := by omega
    obtain ⟨rest, rfl⟩ := List.head?_eq_some_iff.mp (hl.chain.head_eq.symm.trans hnext)
    exact .inr ⟨rest, hl, UInt16.toNat_inj.mp (by rw [UInt16.toNat_zero]; omega)⟩

end Invariant

section Results

theorem liveInv_run (ops : List UserHandleOp) :
    LiveInv (ops.foldl userLiveStep userLiveStart) := by
  apply List.foldlRecOn ops userLiveStep liveInv_start
  intro r h op _
  cases op with
  | alloc ptr type owner => exact h.alloc
  | free handle => exact h.free

/-- The table is sound after all calls. -/
theorem userHandleTable_sound (ops : List UserHandleOp) :
    TableSound (ops.foldl userLiveStep userLiveStart) := (liveInv_run ops).sound

/-- Entry 0 is the next one, and its generation. -/
structure NextIsZero (t : UserHandleTable) (g : UInt16) : Prop where
  next : t.nextEntry = some 0
  free : (t.entries 0).type = .free
  generation : (t.entries 0).generation = g

/-- The calls that free the handle of entry 0, and make and free its next ones. -/
def zeroOps (n : Nat) : List UserHandleOp :=
  .free (userMakeHandle 0 1) :: (List.range n).flatMap fun k =>
    [.alloc 7 .window 0, .free (userMakeHandle 0 (UInt16.ofNat (2 + k)))]

theorem userHandleFree_zero {g : UInt16} (hgen : (t.entries 0).generation = g)
    (hused : (t.entries 0).type ≠ .free) (hg : g ≠ 0) :
    NextIsZero (userHandleFree t (userMakeHandle 0 g)).1 (g + 1) := by
  have hindex : userHandleIndex (userMakeHandle 0 g) = 0 := userHandleIndex_make (by decide)
  have hlive : Live t (userMakeHandle 0 g) := by
    constructor
    · intro hzero
      have hnat := userMakeHandle_toNat (i := 0) (g := g) (by decide)
      rw [hzero, UInt32.toNat_zero] at hnat
      exact hg (UInt16.toNat_inj.mp (by rw [UInt16.toNat_zero]; omega))
    · rw [hindex]
      decide
    · rw [hindex, hgen, userHandleGen_make (by decide)]
    · rwa [hindex]
  rw [userHandleFree_eq hlive, hindex, hgen]
  refine ⟨rfl, ?_, ?_⟩
  · rw [put_entries_self]
  · rw [put_entries_self]

theorem nextIsZero_zeroOps (n : Nat) (hn : n ≤ 65534) :
    NextIsZero ((zeroOps n).foldl userLiveStep userLiveStart).table (UInt16.ofNat (2 + n)) := by
  induction n with
  | zero => exact userHandleFree_zero (t := userHandleTableInit) rfl (by decide) (by decide)
  | succ n ih =>
    obtain ⟨hnext, -, hgen⟩ := ih (by omega)
    have hops : zeroOps (n + 1) = zeroOps n ++
        [.alloc 7 .window 0, .free (userMakeHandle 0 (UInt16.ofNat (2 + n)))] := by
      unfold zeroOps
      rw [List.range_succ, List.flatMap_append, List.flatMap_singleton, List.cons_append]
    have hne : UInt16.ofNat (2 + n) ≠ 0 := by
      intro hzero
      have hnat := congrArg UInt16.toNat hzero
      rw [UInt16.toNat_ofNat', UInt16.toNat_zero] at hnat
      omega
    have hsucc : UInt16.ofNat (2 + (n + 1)) = UInt16.ofNat (2 + n) + 1 := by
      rw [← Nat.add_assoc, UInt16.ofNat_add (2 + n) 1]
      rfl
    rw [hops, List.foldl_append, hsucc]
    apply userHandleFree_zero
    · simp only [userLiveStep, userHandleAlloc_eq (show UserHandleType.window ≠ .free by decide)
        hnext, put_entries_self, hgen]
    · simp only [userLiveStep, userHandleAlloc_eq (show UserHandleType.window ≠ .free by decide)
        hnext, put_entries_self]
      decide
    · exact hne

/-- An allocation of the type of free entries fails in every table; so does one for entry 0 when its
generation has wrapped. -/
theorem userHandleAlloc_fails :
    (∃ l, FreeList userLiveStart.table l ∧ l ≠ [] ∧
      (userHandleAlloc userLiveStart.table 7 .free 0).2 = 0) ∧
    ∃ l, FreeList ((zeroOps 65534).foldl userLiveStep userLiveStart).table l ∧ l ≠ [] ∧
      (userHandleAlloc ((zeroOps 65534).foldl userLiveStep userLiveStart).table 7 .window 0).2 =
        0 := by
  constructor
  · exact ⟨_, freeList_init, by decide, rfl⟩
  · obtain ⟨hnext, hfree, hgen⟩ := nextIsZero_zeroOps 65534 (Nat.le_refl _)
    obtain ⟨l, hl⟩ := (liveInv_run (zeroOps 65534)).freeList
    refine ⟨l, hl, ?_, ?_⟩
    · intro hempty
      have hmem := (hl.mem_iff 0).mpr ⟨by decide, hfree⟩
      rw [hempty] at hmem
      exact List.not_mem_nil hmem
    · rw [userHandleAlloc_eq (by decide) hnext, hgen]
      decide

end Results

end Wbox.User
