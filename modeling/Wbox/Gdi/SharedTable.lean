import Wbox.Gdi.HandleTable
import Wbox.Lib.Trace

/-!
# The shared GDI handle table

The guest validates its handles against a copy of the handle table
(`src/gdi/gdi_handle_table.c:10–32`, `gdi_handle_table.c:664–675`). `gdi_alloc_handle` writes the
reuse count to `wUpper`, which `gdi_handle_table.h` declares as the upper 16 bits of the handle; and
a table that is attached is cleared, whatever is in use. The copy is a mirror exactly in the runs
that do neither.
-/

namespace Wbox.Gdi

open Wbox.Lib

/-- `GDI_MAX_SHARED_HANDLES`. -/
def gdiMaxSharedHandles : Nat := 65536

/-- `WBOX_PROCESS_ID`. -/
def wboxProcessId : UInt16 := 0x1000

/-- `gdi_shared_handle_entry_t`. -/
structure GdiSharedHandleEntry where
  pKernelAddress : UInt32 := 0
  wProcessId : UInt16 := 0
  wCount : UInt16 := 0
  wUpper : UInt16 := 0
  wType : UInt16 := 0
  pUserAddress : UInt32 := 0
  deriving DecidableEq, Repr

/-- The entries of a shared table. -/
abbrev SharedEntries := Nat → GdiSharedHandleEntry

/-- `gdi_handle_table_t` with its `shared_table`. -/
structure GdiTables where
  table : GdiHandleTable
  sharedTable : Option SharedEntries

/-- `update_shared_entry`, `gdi_handle_table.c:11–23`. -/
def updateSharedEntry (entries : SharedEntries) (index : Nat) (type : UInt8) (reuse : UInt16) :
    SharedEntries :=
  if index ≥ gdiMaxSharedHandles then entries
  else Function.update entries index
    { pKernelAddress := 0
      wProcessId := wboxProcessId
      wCount := 1
      wUpper := reuse &&& 0x7F
      wType := type.toUInt16
      pUserAddress := 0 }

/-- `clear_shared_entry`, `gdi_handle_table.c:26–32`. -/
def clearSharedEntry (entries : SharedEntries) (index : Nat) : SharedEntries :=
  if index ≥ gdiMaxSharedHandles then entries else Function.update entries index {}

/-- The calls on the tables; `setShared` attaches memory with some content, or none. -/
inductive GdiSharedOp where
  | alloc (object : Option GdiPtr) (type : UInt8)
  | free (handle : UInt32)
  | setShared (memory : Option SharedEntries)

/-- `gdi_alloc_handle` with the entry it shares, `gdi_handle_table.c:306–351`. -/
def gdiAllocShared (s : GdiTables) (object : Option GdiPtr) (type : UInt8) : GdiTables where
  table := (gdiAllocHandle s.table object type).1
  sharedTable := match s.table.freeSlot with
    | none => s.sharedTable
    | some i => s.sharedTable.map fun entries =>
        updateSharedEntry entries i type ((s.table.entries i).reuseCount + 1)

/-- `gdi_free_handle` with the entry it clears, `gdi_handle_table.c:437–470`. -/
def gdiFreeShared (s : GdiTables) (handle : UInt32) : GdiTables where
  table := (gdiFreeHandle s.table handle).1
  sharedTable :=
    if (gdiFreeHandle s.table handle).2 then
      s.sharedTable.map fun entries => clearSharedEntry entries (gdiHandleIndex handle)
    else s.sharedTable

/-- `gdi_set_shared_table`, `gdi_handle_table.c:665–675`: what the memory held is cleared. -/
def gdiSetSharedTable (s : GdiTables) (memory : Option SharedEntries) : GdiTables :=
  { s with sharedTable := memory.map fun _ _ => {} }

/-- One call. -/
def gdiSharedStep (s : GdiTables) : GdiSharedOp → Option GdiTables
  | .alloc object type => some (gdiAllocShared s object type)
  | .free handle => some (gdiFreeShared s handle)
  | .setShared memory => some (gdiSetSharedTable s memory)

/-- After `gdi_handle_table_init` no table is shared. -/
def gdiSharedStart : GdiTables := { table := gdiHandleTableInit, sharedTable := none }

/-- The handle that an entry has been issued for. -/
def GdiHandleTable.handleAt (t : GdiHandleTable) (i : Nat) : UInt32 :=
  gdiMakeHandle i (t.entries i).type (t.entries i).reuseCount

/-- An entry of the copy is what its entry of the table requires. -/
structure MirrorsEntry (t : GdiHandleTable) (i : Nat) (entry : GdiSharedHandleEntry) : Prop where
  used : (t.entries i).inUse = true →
    entry.wType = (t.entries i).type.toUInt16 ∧ entry.wProcessId = wboxProcessId ∧
      entry.wUpper = (t.handleAt i >>> 16).toUInt16
  unused : (t.entries i).inUse = false → entry = {}

/-- A copy that is attached mirrors the table, but for the reserved entry. -/
def Mirrored (s : GdiTables) : Prop :=
  ∀ entries, s.sharedTable = some entries → ∀ i, 1 ≤ i → MirrorsEntry s.table i (entries i)

/-- Neither the type nor the use of a new handle has bits to be seen in its upper half. -/
def UpperClear (type : UInt8) (reuse : UInt16) : Prop :=
  type.toNat % 2 ^ 7 = 0 ∧ reuse.toNat % 2 ^ 7 = 0

/-- A handle that is shared has an upper half of zero, and a table is attached before anything is
in use. -/
def ShareOk (s : GdiTables) : GdiSharedOp → Prop
  | .alloc _ type => s.sharedTable.isSome → ∀ i, s.table.freeSlot = some i → 1 ≤ i →
      UpperClear type ((s.table.entries i).reuseCount + 1)
  | .free _ => True
  | .setShared memory => memory.isSome → ∀ i, 1 ≤ i → (s.table.entries i).inUse = false

section Upper

variable {i : Nat} {type : UInt8} {reuse : UInt16}

/-- The upper half of a handle has the use above the type. -/
theorem gdiMakeHandle_upper (hi : i < gdiMaxHandles) :
    (gdiMakeHandle i type reuse >>> 16).toUInt16.toNat =
      2 ^ 8 * (reuse.toNat % 2 ^ 7) + type.toNat % 2 ^ 7 := by
  have hi' : i < 2 ^ 12 := hi
  rw [UInt32.toNat_toUInt16, UInt32.toNat_shiftRight]
  show (gdiMakeHandle i type reuse).toNat >>> 16 % 2 ^ 16 = _
  rw [gdiMakeHandle_toNat hi, Nat.shiftRight_eq_div_pow]
  omega

/-- What is written to `wUpper` is the upper half only where that is zero. -/
theorem reuse_and_eq_upper_iff (hi : i < gdiMaxHandles) :
    (reuse &&& 0x7F : UInt16) = (gdiMakeHandle i type reuse >>> 16).toUInt16 ↔
      UpperClear type reuse := by
  have hlow : (reuse &&& 0x7F : UInt16).toNat = reuse.toNat % 2 ^ 7 := by
    rw [UInt16.toNat_and]
    exact Nat.and_two_pow_sub_one_eq_mod _ 7
  rw [← UInt16.toNat_inj, hlow, gdiMakeHandle_upper hi]
  unfold UpperClear
  omega

end Upper

/-- The entries beyond the table are never used. -/
structure GdiTables.InRange (s : GdiTables) : Prop where
  nextFree : s.table.nextFree ≤ gdiMaxHandles
  beyond : ∀ i, gdiMaxHandles ≤ i → (s.table.entries i).inUse = false

variable {s s' : GdiTables} {op : GdiSharedOp} {i : Nat}

theorem inRange_start : gdiSharedStart.InRange := by
  constructor
  · show 1 ≤ 4096
    decide
  · intro i hi
    have hne : i ≠ 0 := by
      have hi' : 4096 ≤ i := hi
      omega
    show (Function.update (fun _ => ({} : GdiHandleEntry)) 0 { inUse := true } i).inUse = false
    rw [Function.update_of_ne hne]

theorem GdiTables.InRange.alloc (h : s.InRange) (object : Option GdiPtr) (type : UInt8) :
    (gdiAllocShared s object type).InRange :=
  ⟨gdiAllocHandle_nextFree h.nextFree object type,
    fun _ hj => gdiAllocHandle_beyond h.nextFree h.beyond object type hj⟩

theorem GdiTables.InRange.free (h : s.InRange) (handle : UInt32) :
    (gdiFreeShared s handle).InRange :=
  ⟨(gdiFreeHandle_nextFree s.table handle).trans h.nextFree,
    fun j hj => gdiFreeHandle_inUse s.table handle (h.beyond j hj)⟩

theorem GdiTables.InRange.step (h : s.InRange) (hstep : gdiSharedStep s op = some s') :
    s'.InRange := by
  cases op with
  | alloc object type =>
    cases hstep
    exact h.alloc object type
  | free handle =>
    cases hstep
    exact h.free handle
  | setShared memory =>
    cases hstep
    exact ⟨h.nextFree, h.beyond⟩

/-- The entry of a new handle, and the one that is shared for it. -/
theorem gdiAllocShared_cases (h : s.InRange) (object : Option GdiPtr) (type : UInt8) :
    gdiAllocShared s object type = s ∧ s.table.freeSlot = none ∨
      ∃ i, s.table.freeSlot = some i ∧ i < gdiMaxHandles ∧
        (gdiAllocShared s object type).table.entries = Function.update s.table.entries i
          { object, type, reuseCount := (s.table.entries i).reuseCount + 1, inUse := true } ∧
        (gdiAllocShared s object type).sharedTable = s.sharedTable.map fun entries =>
          Function.update entries i
            { wProcessId := wboxProcessId, wCount := 1,
              wUpper := ((s.table.entries i).reuseCount + 1) &&& 0x7F,
              wType := type.toUInt16 } := by
  rcases gdiAllocHandle_cases s.table object type with ⟨hslot, heq⟩ | ⟨i, hslot, hentries, -⟩
  · left
    unfold gdiAllocShared
    rw [heq, hslot]
    exact ⟨rfl, rfl⟩
  · right
    have hi := freeSlot_lt h.nextFree hslot
    have hshared : ¬ i ≥ gdiMaxSharedHandles := by
      have hi' : i < 4096 := hi
      show ¬ i ≥ 65536
      omega
    refine ⟨i, hslot, hi, hentries, ?_⟩
    show (match s.table.freeSlot with
      | none => s.sharedTable
      | some i => _) = _
    rw [hslot]
    simp only [updateSharedEntry, if_neg hshared]

/-- A new handle is shared as it is required, exactly if its upper half is zero. -/
theorem mirrored_alloc_iff (h : s.InRange) (hm : Mirrored s) (object : Option GdiPtr)
    (type : UInt8) :
    Mirrored (gdiAllocShared s object type) ↔ ShareOk s (.alloc object type) := by
  rcases gdiAllocShared_cases h object type with ⟨heq, hslot⟩ | ⟨i, hslot, hi, hentries, hshared⟩
  · rw [heq]
    constructor
    · intro _ _ i hi
      rw [hslot] at hi
      cases hi
    · exact fun _ => hm
  · have hhandle : (gdiAllocShared s object type).table.handleAt i =
        gdiMakeHandle i type ((s.table.entries i).reuseCount + 1) := by
      unfold GdiHandleTable.handleAt
      rw [hentries, Function.update_self]
    constructor
    · intro hmirrored hsome j hj hpos
      obtain rfl : i = j := Option.some.inj (hslot.symm.trans hj)
      obtain ⟨entries, hattached⟩ := Option.isSome_iff_exists.mp hsome
      rw [hattached] at hshared
      have hentry := (hmirrored _ hshared i hpos).used (by rw [hentries, Function.update_self])
      simp only [hhandle, Function.update_self] at hentry
      exact (reuse_and_eq_upper_iff hi).mp hentry.2.2
    · intro hok entries' hattached' j hpos
      rw [hshared] at hattached'
      obtain ⟨entries, hattached, rfl⟩ := Option.map_eq_some_iff.mp hattached'
      by_cases hsame : j = i
      · subst hsame
        have hclear := hok (by rw [hattached]; rfl) j hslot hpos
        simp only [Function.update_self]
        constructor
        · intro _
          rw [hhandle, hentries, Function.update_self]
          exact ⟨rfl, rfl, (reuse_and_eq_upper_iff hi).mpr hclear⟩
        · intro hunused
          rw [hentries, Function.update_self] at hunused
          cases hunused
      · have hold := hm entries hattached j hpos
        simp only [Function.update_of_ne hsame]
        constructor
        · unfold GdiHandleTable.handleAt
          rw [hentries, Function.update_of_ne hsame]
          exact hold.used
        · rw [hentries, Function.update_of_ne hsame]
          exact hold.unused

/-- The entry of a freed handle is cleared on both sides. -/
theorem Mirrored.free (hm : Mirrored s) (handle : UInt32) : Mirrored (gdiFreeShared s handle) := by
  rcases gdiFreeHandle_cases s.table handle with heq | ⟨hregular, -, -, hentries, hdone⟩
  · unfold gdiFreeShared
    rw [heq]
    exact hm
  · have hindex : ¬ gdiHandleIndex handle ≥ gdiMaxSharedHandles := by
      have hlt : gdiHandleIndex handle < 4096 := hregular.index
      show ¬ gdiHandleIndex handle ≥ 65536
      omega
    intro entries' hattached' j hpos
    unfold gdiFreeShared at hattached'
    rw [hdone, if_pos rfl] at hattached'
    obtain ⟨entries, hattached, rfl⟩ := Option.map_eq_some_iff.mp hattached'
    have htable : (gdiFreeShared s handle).table.entries = _ := hentries
    unfold clearSharedEntry
    rw [if_neg hindex]
    by_cases hsame : j = gdiHandleIndex handle
    · subst hsame
      rw [Function.update_self]
      constructor
      · intro hused
        rw [htable, Function.update_self] at hused
        cases hused
      · exact fun _ => rfl
    · have hold := hm entries hattached j hpos
      rw [Function.update_of_ne hsame]
      constructor
      · unfold GdiHandleTable.handleAt
        rw [htable, Function.update_of_ne hsame]
        exact hold.used
      · rw [htable, Function.update_of_ne hsame]
        exact hold.unused

/-- A table that is attached is a mirror exactly if nothing is in use. -/
theorem mirrored_setShared_iff (memory : Option SharedEntries) :
    Mirrored (gdiSetSharedTable s memory) ↔ ShareOk s (.setShared memory) := by
  constructor
  · intro hm hsome i hpos
    obtain ⟨content, rfl⟩ := Option.isSome_iff_exists.mp hsome
    have hentry := hm _ rfl i hpos
    by_contra hused
    rw [Bool.not_eq_false] at hused
    have hpid : (0 : UInt16) = wboxProcessId := (hentry.used hused).2.1
    cases hpid
  · intro hok entries hattached i hpos
    obtain ⟨content, rfl, rfl⟩ := Option.map_eq_some_iff.mp hattached
    have hunused := hok rfl i hpos
    constructor
    · intro hused
      exact absurd (hunused.symm.trans hused) Bool.false_ne_true
    · exact fun _ => rfl

/-- One call keeps the mirror exactly if it shares what it should. -/
theorem mirrored_step_iff (h : s.InRange) (hm : Mirrored s)
    (hstep : gdiSharedStep s op = some s') : Mirrored s' ↔ ShareOk s op := by
  cases op with
  | alloc object type =>
    cases hstep
    exact mirrored_alloc_iff h hm object type
  | free handle =>
    cases hstep
    exact iff_of_true (hm.free handle) trivial
  | setShared memory =>
    cases hstep
    exact mirrored_setShared_iff memory

theorem mirrored_start : Mirrored gdiSharedStart := by
  intro entries hattached
  cases hattached

/-- The copy mirrors the table all along a run exactly if no handle with bits in its upper half is
made while it is attached, and it is attached while no handle is in use. -/
theorem gdiShared_mirrored_iff {ops : List GdiSharedOp} {tr : List GdiTables}
    (h : trace gdiSharedStep gdiSharedStart ops = some tr) :
    (∀ a ∈ tr, Mirrored a) ↔ Guarded gdiSharedStep ShareOk gdiSharedStart ops := by
  apply trace_forall_iff_guarded (I := fun a => a.InRange ∧ Mirrored a)
  · exact fun a ha => ha.2
  · intro a e b ha hok hstep
    exact ⟨ha.1.step hstep, (mirrored_step_iff ha.1 ha.2 hstep).mpr hok⟩
  · intro a e b ha hbad hstep hmirrored
    exact hbad ((mirrored_step_iff ha.1 ha.2 hstep).mp hmirrored)
  · exact ⟨inRange_start, mirrored_start⟩
  · exact h

/-- The first brush is shared with `wUpper` 1, while the upper half of its handle is 0x110. -/
theorem gdiShared_brush_unmirrored : ∃ tr,
    trace gdiSharedStep gdiSharedStart [.setShared (some fun _ => {}),
      .alloc (some (.object 1)) gdiObjBrush] = some tr ∧
    ∃ s ∈ tr, ¬ Mirrored s ∧ (s.table.entries 1).inUse = true ∧
      s.table.handleAt 1 = 0x01100001 ∧
      s.sharedTable.map (fun entries => (entries 1).wUpper) = some 1 := by
  refine ⟨_, rfl, _, List.mem_cons_of_mem _ (List.mem_cons_of_mem _ List.mem_cons_self), ?_, ?_⟩
  · intro hmirrored
    have hupper := ((hmirrored _ rfl 1 (by decide)).used (by decide +kernel)).2.2
    revert hupper
    decide +kernel
  · decide +kernel

/-- A brush that is deleted before the table is attached. -/
theorem gdiShared_mirrored_free : ∃ tr,
    trace gdiSharedStep gdiSharedStart [.alloc (some (.object 1)) gdiObjBrush,
      .free (gdiMakeHandle 1 gdiObjBrush 1), .setShared (some fun _ => {})] = some tr ∧
    ∀ s ∈ tr, Mirrored s := by
  have hrun : (trace gdiSharedStep gdiSharedStart [.alloc (some (.object 1)) gdiObjBrush,
      .free (gdiMakeHandle 1 gdiObjBrush 1), .setShared (some fun _ => {})]).isSome = true := rfl
  obtain ⟨tr, htr⟩ := Option.isSome_iff_exists.mp hrun
  refine ⟨tr, htr, (gdiShared_mirrored_iff htr).mpr ?_⟩
  refine ⟨fun hsome => absurd hsome (by decide), ?_⟩
  intro made hmade
  cases hmade
  refine ⟨trivial, ?_⟩
  intro freed hfreed
  cases hfreed
  refine ⟨?_, fun _ _ => trivial⟩
  intro _ i hpos
  show (Function.update (Function.update gdiHandleTableInit.entries 1 _) 1 _ i).inUse = false
  by_cases hone : i = 1
  · rw [hone, Function.update_self]
  · rw [Function.update_of_ne hone, Function.update_of_ne hone]
    show (Function.update (fun _ => ({} : GdiHandleEntry)) 0 { inUse := true } i).inUse = false
    rw [Function.update_of_ne (by omega)]

end Wbox.Gdi
