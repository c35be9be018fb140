import Wbox.Lib.Trace
import Wbox.Nt.Files

/-!
# Handle numbers

Runs of `handles_add`, `handles_add_object` and `NtClose` (`src/nt/sys_file.c:122–146`) from
`handles_init`, with the entries every handle was issued for. `handles_resolve` reads 1 and 2
as the standard output and error whatever the table holds there.
-/

namespace Wbox.Nt

open Wbox.Lib

/-- What `NtClose` leaves: the table, the status, the descriptor it closes on the host and the
object it frees. -/
structure CloseResult where
  table : HandleTable
  status : UInt32
  closedFd : Option Int
  freed : Option Ptr

/-- `sys_NtClose`, `src/nt/sys_file.c:122–146`. -/
def sysNtClose (ht : HandleTable) (handle : UInt32) : CloseResult :=
  match handlesGet ht handle with
  | none => ⟨ht, statusInvalidHandle, none, none⟩
  | some he =>
      let removed := handlesRemove ht handle
      ⟨removed.1, statusSuccess,
        if he.type = .file ∧ he.hostFd ≥ 0 then some he.hostFd else none, removed.2⟩

/-- The calls on the table; the arguments are arbitrary. -/
inductive HandleOp where
  | add (type : HandleType) (hostFd : Int)
  | addObject (type : HandleType) (objectData : Option Ptr)
  | close (handle : UInt32)

/-- The table and the handles issued and not yet closed, with the entries they were issued for. -/
structure HandleRun where
  table : HandleTable
  live : List (UInt32 × HandleEntry)

/-- Record a handle that was returned for an entry, unless it is 0. -/
def HandleRun.issue (r : HandleRun) (added : HandleTable × UInt32) (entry : HandleEntry) :
    HandleRun :=
  { table := added.1, live := if added.2 = 0 then r.live else (added.2, entry) :: r.live }

/-- One call. -/
def handleStep (r : HandleRun) : HandleOp → Option HandleRun
  | .add type hostFd =>
      some (r.issue (handlesAdd r.table type hostFd) ⟨type, hostFd, 0, 0, none⟩)
  | .addObject type objectData =>
      some (r.issue (handlesAddObject r.table type objectData) ⟨type, -1, 0, 0, objectData⟩)
  | .close handle =>
      some
        { table := (sysNtClose r.table handle).table
          live := r.live.filter fun issued => issued.1 ≠ handle }

/-- The table after `handles_init`; no handle has been issued. -/
def handleStart : HandleRun := { table := handlesInit, live := [] }

/-- The handle resolves to the entry of the table with its number, which holds what the handle
was issued for. -/
structure Resolves (ht : HandleTable) (handle : UInt32) (entry : HandleEntry) : Prop where
  get : handlesGet ht handle = some entry
  same : handlesResolve ht handle = handlesGetRef ht handle

/-- Every live handle resolves to its entry. -/
def HandlesResolve (r : HandleRun) : Prop := ∀ issued ∈ r.live, Resolves r.table issued.1 issued.2

/-- The entry a call puts in the table. -/
def HandleOp.adds : HandleOp → Option HandleEntry
  | .add type hostFd => some ⟨type, hostFd, 0, 0, none⟩
  | .addObject type objectData => some ⟨type, -1, 0, 0, objectData⟩
  | .close _ => none

/-- The entry is in use. -/
def HandleTable.InUse (ht : HandleTable) (i : Nat) : Prop := (ht.entries i).type ≠ .none

/-- The first search of `handles_add` finds a free entry. -/
def HandleTable.FreeAhead (ht : HandleTable) : Prop :=
  ∃ i, ht.nextHandle ≤ i ∧ i < maxHandles ∧ ¬ ht.InUse i

/-- Every entry but the reserved one is in use. -/
def HandleTable.Full (ht : HandleTable) : Prop := ∀ i, 0 < i → i < maxHandles → ht.InUse i

/-- A call that adds an entry finds the table full; or it has a type for the entry, and the
entries 1 and 2 are in use whenever no entry is free from `next_handle` on. -/
def FreshNumber (r : HandleRun) (op : HandleOp) : Prop :=
  ∀ entry, op.adds = some entry → r.table.Full ∨
    entry.type ≠ .none ∧ (r.table.FreeAhead ∨ r.table.InUse 1 ∧ r.table.InUse 2)

variable {ht : HandleTable}

/-- No entry is found exactly if the table is full. -/
theorem HandleTable.freeSlot_none_iff : ht.freeSlot = none ↔ ht.Full := by
  have hle := ht.next_le
  have hpos := ht.next_pos
  have hnone : ht.freeSlot = none ↔
      ht.freeIn ht.nextHandle maxHandles = none ∧ ht.freeIn 1 ht.nextHandle = none := by
    unfold HandleTable.freeSlot
    cases ht.freeIn ht.nextHandle maxHandles <;> simp
  rw [hnone, HandleTable.freeIn_none, HandleTable.freeIn_none]
  constructor
  · rintro ⟨hahead, hwrap⟩ i hi hlt
    by_cases hnext : i < ht.nextHandle
    · exact hwrap i hi hnext
    · exact hahead i (Nat.not_lt.mp hnext) hlt
  · intro hfull
    constructor
    · intro i hi hlt
      exact hfull i (by omega) hlt
    · intro i hi hlt
      exact hfull i hi (by omega)

/-- The second search starts at the entry 1. -/
theorem HandleTable.freeIn_one (hnext : 2 < ht.nextHandle) (h : ¬ ht.InUse 1 ∨ ¬ ht.InUse 2) :
    ht.freeIn 1 ht.nextHandle = some 1 ∨ ht.freeIn 1 ht.nextHandle = some 2 := by
  obtain ⟨n, hn⟩ := Nat.exists_eq_add_of_le hnext
  have hlen : ht.nextHandle - 1 = n + 1 + 1 := by omega
  unfold HandleTable.freeIn
  rw [hlen, List.range'_succ, List.range'_succ]
  by_cases hone : ht.InUse 1
  · right
    have htwo : (ht.entries 2).type = .none := not_not.mp (h.resolve_left (not_not.mpr hone))
    have hone' : (ht.entries 1).type ≠ .none := hone
    simp [htwo, hone']
  · left
    have hone' : (ht.entries 1).type = .none := not_not.mp hone
    simp [hone']

/-- Above the console entries, 1 or 2 is found exactly if it is free and nothing ahead is. -/
theorem HandleTable.freeSlot_reserved_iff (hnext : 2 < ht.nextHandle) :
    (ht.freeSlot = some 1 ∨ ht.freeSlot = some 2) ↔
      ¬ (ht.FreeAhead ∨ ht.InUse 1 ∧ ht.InUse 2) := by
  cases hahead : ht.freeIn ht.nextHandle maxHandles with
  | some j =>
    obtain ⟨hle, hlt, hfree⟩ := HandleTable.freeIn_some hahead
    have hslot : ht.freeSlot = some j := by simp only [HandleTable.freeSlot, hahead]
    have hex : ht.FreeAhead := ⟨j, hle, hlt, not_not.mpr hfree⟩
    simp only [hslot, hex, Option.some.injEq, true_or, not_true_eq_false, iff_false]
    omega
  | none =>
    have hslot : ht.freeSlot = ht.freeIn 1 ht.nextHandle := by
      simp only [HandleTable.freeSlot, hahead]
    have hno : ¬ ht.FreeAhead := by
      rintro ⟨j, hle, hlt, hfree⟩
      exact hfree (HandleTable.freeIn_none.mp hahead j hle hlt)
    rw [hslot, not_or, not_and_or]
    constructor
    · rintro (h | h)
      · exact ⟨hno, Or.inl (not_not.mpr (HandleTable.freeIn_some h).2.2)⟩
      · exact ⟨hno, Or.inr (not_not.mpr (HandleTable.freeIn_some h).2.2)⟩
    · rintro ⟨-, hfree⟩
      exact HandleTable.freeIn_one hnext hfree

/-- The live handles are the numbers of entries above 2 that hold what they were issued for; the
next search starts above 2. -/
structure HandleInv (r : HandleRun) : Prop where
  next : 2 < r.table.nextHandle
  live : ∀ issued ∈ r.live, 2 < issued.1.toNat ∧ issued.1.toNat < maxHandles ∧
    r.table.entries issued.1.toNat = issued.2 ∧ issued.2.type ≠ .none

variable {r r' : HandleRun} {op : HandleOp}

/-- The condition in terms of the entry the call finds. -/
theorem freshNumber_iff (hnext : 2 < r.table.nextHandle) :
    FreshNumber r op ↔ ∀ entry i, op.adds = some entry → r.table.freeSlot = some i →
      entry.type ≠ .none ∧ i ≠ 1 ∧ i ≠ 2 := by
  have hreserved := HandleTable.freeSlot_reserved_iff hnext
  constructor
  · intro hf entry i hadds hslot
    rcases hf entry hadds with hfull | ⟨htype, hfresh⟩
    · rw [HandleTable.freeSlot_none_iff.mpr hfull] at hslot
      cases hslot
    have hnot := mt hreserved.mp (not_not.mpr hfresh)
    rw [hslot, Option.some.injEq, Option.some.injEq, not_or] at hnot
    exact ⟨htype, hnot⟩
  · intro hf entry hadds
    cases hslot : r.table.freeSlot with
    | none => exact Or.inl (HandleTable.freeSlot_none_iff.mp hslot)
    | some i =>
      obtain ⟨htype, hne1, hne2⟩ := hf entry i hadds hslot
      refine Or.inr ⟨htype, ?_⟩
      by_contra hnot
      rcases hreserved.mpr hnot with h | h
      · exact hne1 (Option.some.inj (hslot.symm.trans h))
      · exact hne2 (Option.some.inj (hslot.symm.trans h))

/-- A call adds an entry, or closes a handle. -/
theorem handleStep_cases (h : handleStep r op = some r') :
    (∃ entry, op.adds = some entry ∧ r' = r.issue (r.table.insert entry) entry) ∨
      ∃ handle, op.adds = none ∧ r'.table = (sysNtClose r.table handle).table ∧
        r'.live = r.live.filter fun issued => issued.1 ≠ handle := by
  cases op with
  | add type hostFd => exact Or.inl ⟨_, rfl, (Option.some.inj h).symm⟩
  | addObject type objectData => exact Or.inl ⟨_, rfl, (Option.some.inj h).symm⟩
  | close handle =>
    rw [← Option.some.inj h]
    exact Or.inr ⟨handle, rfl, rfl, rfl⟩

/-- `NtClose` leaves the table as it is, or clears the entry of its handle and frees the object. -/
theorem sysNtClose_cases (ht : HandleTable) (handle : UInt32) :
    (handlesGet ht handle = none ∧ (sysNtClose ht handle).table = ht ∧
        (sysNtClose ht handle).freed = none) ∨
      handlesGet ht handle = some (ht.entries handle.toNat) ∧
        (sysNtClose ht handle).table =
          { ht with entries := Function.update ht.entries handle.toNat .free } ∧
        (sysNtClose ht handle).freed = (ht.entries handle.toNat).objectData := by
  cases hget : handlesGet ht handle with
  | none => exact Or.inl ⟨rfl, by simp only [sysNtClose, hget], by simp only [sysNtClose, hget]⟩
  | some entry =>
    obtain ⟨hpos, hlt, rfl⟩ := handlesGet_some hget
    right
    simp only [sysNtClose, hget, handlesRemove, hpos, hlt, and_self, if_true]

/-- It touches no other entry. -/
theorem sysNtClose_entries (ht : HandleTable) (handle : UInt32) {i : Nat}
    (hi : i ≠ handle.toNat) : (sysNtClose ht handle).table.entries i = ht.entries i := by
  rcases sysNtClose_cases ht handle with ⟨-, htable, -⟩ | ⟨-, htable, -⟩
  · rw [htable]
  · rw [htable]
    exact Function.update_of_ne hi _ _

/-- It does not move the next search. -/
theorem sysNtClose_next (ht : HandleTable) (handle : UInt32) :
    (sysNtClose ht handle).table.nextHandle = ht.nextHandle := by
  rcases sysNtClose_cases ht handle with ⟨-, htable, -⟩ | ⟨-, htable, -⟩
  · rw [htable]
  · rw [htable]

/-- A number above 2 and below 256 has no meaning of its own. -/
theorem handlesResolve_eq_get (ht : HandleTable) {handle : UInt32} (hlow : 2 < handle.toNat)
    (hhigh : handle.toNat < maxHandles) : handlesResolve ht handle = handlesGetRef ht handle := by
  have hne : ∀ value : UInt32, value.toNat ≤ 2 ∨ maxHandles ≤ value.toNat → handle ≠ value := by
    rintro value hvalue rfl
    omega
  unfold handlesResolve
  rw [if_neg (hne stdInputHandle (by decide)), if_neg (hne stdOutputHandle (by decide)),
    if_neg (hne stdErrorHandle (by decide)), if_neg (hne 0 (by decide)),
    if_neg (hne 1 (by decide)), if_neg (hne 2 (by decide))]

/-- The numbers 1 and 2 do. -/
theorem handlesResolve_ne_get (ht : HandleTable) {handle : UInt32}
    (h : handle = 1 ∨ handle = 2) : handlesResolve ht handle ≠ handlesGetRef ht handle := by
  intro hsame
  unfold handlesGetRef at hsame
  rcases h with rfl | rfl
  · have hout : handlesResolve ht 1 = some .stdOut := rfl
    cases hget : handlesGet ht 1 <;> simp [hout, hget] at hsame
  · have herr : handlesResolve ht 2 = some .stdErr := rfl
    cases hget : handlesGet ht 2 <;> simp [herr, hget] at hsame

/-- The invariant contains that live handles resolve. -/
theorem HandleInv.resolve (hi : HandleInv r) : HandlesResolve r := by
  intro issued hmem
  obtain ⟨hlow, hhigh, hentry, htype⟩ := hi.live issued hmem
  exact ⟨handlesGet_of_entry (by omega) hhigh hentry htype, handlesResolve_eq_get _ hlow hhigh⟩

/-- Inserting above 2 keeps the invariant. -/
theorem HandleInv.insert (hi : HandleInv r) {entry : HandleEntry} (htype : entry.type ≠ .none)
    {i : Nat} (hslot : r.table.freeSlot = some i) (hlow : 2 < i) :
    HandleInv (r.issue (r.table.use i (r.table.freeSlot_some hslot).1 entry, UInt32.ofNat i)
      entry) := by
  obtain ⟨hlt, hfree⟩ := r.table.freeSlot_some hslot
  have hnat := r.table.slot_toNat hslot
  refine ⟨Nat.lt_succ_of_lt hlow, ?_⟩
  intro issued hmem
  simp only [HandleRun.issue, r.table.slot_ne_zero hslot, if_false, List.mem_cons] at hmem
  simp only [HandleRun.issue, HandleTable.use]
  rcases hmem with rfl | hmem
  · rw [hnat, Function.update_self]
    exact ⟨hlow, hlt, rfl, htype⟩
  · obtain ⟨hlow', hhigh, hentry, htype'⟩ := hi.live issued hmem
    -- the entry of a live handle is in use, so it is not the one the search found
    have hne : issued.1.toNat ≠ i := by
      intro heq
      rw [heq] at hentry
      exact htype' (hentry ▸ hfree)
    rw [Function.update_of_ne hne]
    exact ⟨hlow', hhigh, hentry, htype'⟩

/-- So does closing any handle. -/
theorem HandleInv.close (hi : HandleInv r) {handle : UInt32}
    (htable : r'.table = (sysNtClose r.table handle).table)
    (hlive : r'.live = r.live.filter fun issued => issued.1 ≠ handle) : HandleInv r' := by
  refine ⟨?_, ?_⟩
  · rw [htable, sysNtClose_next]
    exact hi.next
  · intro issued hmem
    rw [hlive, List.mem_filter] at hmem
    obtain ⟨hlow, hhigh, hentry, htype⟩ := hi.live issued hmem.1
    have hne : issued.1.toNat ≠ handle.toNat := by
      intro heq
      exact of_decide_eq_true hmem.2 (UInt32.toNat_inj.mp heq)
    rw [htable, sysNtClose_entries _ _ hne]
    exact ⟨hlow, hhigh, hentry, htype⟩

/-- A call that issues neither 1 nor 2 keeps the invariant. -/
theorem HandleInv.step (hi : HandleInv r) (hf : FreshNumber r op) (h : handleStep r op = some r') :
    HandleInv r' := by
  rcases handleStep_cases h with ⟨entry, hadds, rfl⟩ | ⟨handle, -, htable, hlive⟩
  · rcases r.table.insert_cases entry with ⟨-, hfull⟩ | ⟨i, hslot, hins⟩
    · rw [hfull]
      exact ⟨hi.next, hi.live⟩
    · obtain ⟨htype, hne1, hne2⟩ := (freshNumber_iff hi.next).mp hf entry i hadds hslot
      have hpos := r.table.freeSlot_pos hslot
      rw [hins]
      exact hi.insert htype hslot (by omega)
  · exact hi.close htable hlive

/-- A call that issues 1 or 2, or an entry of no type, leaves a handle that does not resolve. -/
theorem HandleInv.spoils (hi : HandleInv r) (hf : ¬ FreshNumber r op)
    (h : handleStep r op = some r') : ¬ HandlesResolve r' := by
  intro hall
  apply hf
  rw [freshNumber_iff hi.next]
  intro entry i hadds hslot
  rcases handleStep_cases h with ⟨entry', hadds', rfl⟩ | ⟨_, hnone, -⟩
  · have heq : entry' = entry := Option.some.inj (hadds'.symm.trans hadds)
    subst heq
    rcases r.table.insert_cases entry' with ⟨hnone, -⟩ | ⟨j, hslot', hins⟩
    · exact absurd (hnone.symm.trans hslot) (by simp)
    have hji : j = i := Option.some.inj (hslot'.symm.trans hslot)
    subst hji
    have hres := hall (UInt32.ofNat j, entry') (by
      simp only [HandleRun.issue, hins, r.table.slot_ne_zero hslot, if_false, List.mem_cons,
        true_or])
    refine ⟨?_, ?_, ?_⟩
    · intro htype
      have hget := hres.get
      simp only [HandleRun.issue, hins, HandleTable.use, handlesGet, r.table.slot_toNat hslot,
        Function.update_self, htype, if_true, ite_self] at hget
      cases hget
    · rintro rfl
      exact handlesResolve_ne_get _ (Or.inl rfl) hres.same
    · rintro rfl
      exact handlesResolve_ne_get _ (Or.inr rfl) hres.same
  · exact absurd (hnone.symm.trans hadds) (by simp)

/-- `handles_init` has issued nothing. -/
theorem handleStart_inv : HandleInv handleStart where
  next := by decide
  live := by simp [handleStart]

/-- In a run from `handles_init` every live handle resolves to the entry it was issued for,
exactly if every call that adds an entry, and has room, gives it a type and finds a free entry
from `next_handle` on or the entries 1 and 2 in use. -/
theorem handleRun_resolves_iff {ops : List HandleOp} {tr : List HandleRun}
    (h : trace handleStep handleStart ops = some tr) :
    (∀ a ∈ tr, HandlesResolve a) ↔ Guarded handleStep FreshNumber handleStart ops :=
  trace_forall_iff_guarded (fun _ ha => ha.resolve) (fun _ _ _ ha hok hab => ha.step hok hab)
    (fun _ _ _ ha hok hab => ha.spoils hok hab) handleStart_inv h

/-- Closing the standard output and opening a file, while there are free entries ahead. -/
theorem handleRun_resolves_file : ∃ tr,
    trace handleStep handleStart [.close 2, .add .file 5] = some tr ∧
      ∀ a ∈ tr, HandlesResolve a := by
  have hrun : (trace handleStep handleStart [.close 2, .add .file 5]).isSome = true := by
    decide +kernel
  obtain ⟨tr, htr⟩ := Option.isSome_iff_exists.mp hrun
  refine ⟨tr, htr, (handleRun_resolves_iff htr).mpr ⟨?_, ?_⟩⟩
  · intro entry hadds
    cases hadds
  intro r' hr'
  have hr : r' = (handleStep handleStart (.close 2)).get rfl := (Option.get_of_mem _ hr').symm
  subst hr
  refine ⟨?_, fun _ _ => trivial⟩
  intro entry hadds
  have hentry : entry = ⟨.file, 5, 0, 0, none⟩ := (Option.some.inj hadds).symm
  subst hentry
  exact Or.inr ⟨by decide, Or.inl ⟨4, by decide, by decide, not_not.mpr (by decide)⟩⟩

/-- A guest that closes the handle 1 and then opens files until the numbers wrap around. -/
def reissueRun : List HandleOp := .close 1 :: List.replicate 253 (.add .file 5)

/-- Its last file gets the handle 1, which resolves to the standard output. -/
theorem handlesResolve_reissued : ∃ tr, trace handleStep handleStart reissueRun = some tr ∧
    ¬ ∀ a ∈ tr, HandlesResolve a := by
  have hrun : ((trace handleStep handleStart reissueRun).bind (·.getLast?)).map (fun a =>
      (a.live.head?.map (·.1), decide (handlesResolve a.table 1 = handlesGetRef a.table 1))) =
        some (some 1, false) := by decide +kernel
  rw [Option.map_eq_some_iff] at hrun
  obtain ⟨a, ha, hlast⟩ := hrun
  obtain ⟨tr, htr, hmem⟩ := Option.bind_eq_some_iff.mp ha
  refine ⟨tr, htr, ?_⟩
  intro hall
  have hpair := Prod.ext_iff.mp hlast
  obtain ⟨issued, hhead, hone⟩ := Option.map_eq_some_iff.mp hpair.1
  have hsame := (hall a (List.mem_of_getLast? hmem) issued (List.mem_of_head? hhead)).same
  rw [hone] at hsame
  exact of_decide_eq_false hpair.2 hsame

end Wbox.Nt
