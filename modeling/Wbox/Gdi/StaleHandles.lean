import Wbox.Gdi.HandleTable
import Wbox.Lib.Trace

/-!
# Stale GDI handles

Runs of `gdi_alloc_handle` and `gdi_free_handle`, with the handles that have been freed and not
been issued again. Only `gdi_get_object` compares the use a handle was issued for with its entry
(`src/gdi/gdi_handle_table.c:407–409`); the other lookups, and `gdi_free_handle`, take a stale handle
for the object that has its entry now.
-/

namespace Wbox.Gdi

open Wbox.Lib

/-- The calls on the table; the arguments are arbitrary. -/
inductive GdiHandleOp where
  | alloc (object : Option GdiPtr) (type : UInt8)
  | free (handle : UInt32)

/-- The table, and the handles that have been freed since they were last issued. -/
structure GdiHandleRun where
  table : GdiHandleTable
  freed : List UInt32

/-- One call. -/
def gdiHandleStep (r : GdiHandleRun) : GdiHandleOp → Option GdiHandleRun
  | .alloc object type =>
      let made := gdiAllocHandle r.table object type
      some { table := made.1, freed := r.freed.filter fun handle => handle ≠ made.2 }
  | .free handle =>
      let done := gdiFreeHandle r.table handle
      some { table := done.1, freed := if done.2 then handle :: r.freed else r.freed }

/-- The table after `gdi_handle_table_init`; no handle has been freed. -/
def gdiHandleStart : GdiHandleRun := { table := gdiHandleTableInit, freed := [] }

/-- Every entry point rejects the handle. -/
structure Rejects (t : GdiHandleTable) (handle : UInt32) : Prop where
  object : ∀ type, gdiGetObject t handle type = none
  any : (gdiGetObjectAny t handle).1 = none
  valid : gdiHandleIsValid t handle = false
  free : gdiFreeHandle t handle = (t, false)

/-- The freed handles are dead. -/
def StaleDead (r : GdiHandleRun) : Prop := ∀ handle ∈ r.freed, Rejects r.table handle

/-- No handle is made for the entry of a freed handle, unless it is this very handle. -/
def EntryNotStale (r : GdiHandleRun) : GdiHandleOp → Prop
  | .alloc _ type => ∀ i, r.table.freeSlot = some i → ∀ handle ∈ r.freed,
      gdiHandleIndex handle = i → handle = gdiMakeHandle i type ((r.table.entries i).reuseCount + 1)
  | .free _ => True

variable {t : GdiHandleTable} {handle : UInt32} {r r' : GdiHandleRun} {op : GdiHandleOp}

/-- A handle is rejected exactly if its entry is free. -/
theorem rejects_iff (h : Regular handle) :
    Rejects t handle ↔ (t.entries (gdiHandleIndex handle)).inUse = false := by
  constructor
  · intro hrejects
    rw [← gdiHandleIsValid_eq h]
    exact hrejects.valid
  · intro hfree
    have hstock := Bool.eq_false_iff.mp h.notStock
    have hindex := Nat.not_le.mpr h.index
    constructor
    · intro type
      unfold gdiGetObject
      simp [h.ne_zero, hstock, hindex, hfree]
    · unfold gdiGetObjectAny
      simp [h.ne_zero, hstock, hindex, hfree]
    · rw [gdiHandleIsValid_eq h, hfree]
    · unfold gdiFreeHandle
      simp [h.ne_zero, hstock, hindex, hfree]

/-- The freed handles name entries, all of them free. -/
structure StaleInv (r : GdiHandleRun) : Prop where
  regular : ∀ handle ∈ r.freed, Regular handle
  unused : ∀ handle ∈ r.freed, (r.table.entries (gdiHandleIndex handle)).inUse = false

theorem StaleInv.dead (h : StaleInv r) : StaleDead r := fun handle hmem =>
  (rejects_iff (h.regular handle hmem)).mpr (h.unused handle hmem)

/-- The handles freed before stay dead when another one is freed. -/
theorem StaleInv.free (h : StaleInv r) (hstep : gdiHandleStep r (.free handle) = some r') :
    StaleInv r' := by
  cases hstep
  rcases gdiFreeHandle_cases r.table handle with heq | ⟨hregular, -, -, hentries, hdone⟩
  · rw [heq]
    exact h
  · simp only [hdone, if_true]
    constructor
    · intro stale hmem
      rcases List.mem_cons.mp hmem with rfl | hmem
      · exact hregular
      · exact h.regular stale hmem
    · intro stale hmem
      show ((gdiFreeHandle r.table handle).1.entries (gdiHandleIndex stale)).inUse = false
      rw [hentries]
      by_cases hsame : gdiHandleIndex stale = gdiHandleIndex handle
      · rw [hsame, Function.update_self]
      · rw [Function.update_of_ne hsame]
        rcases List.mem_cons.mp hmem with rfl | hmem
        · exact absurd rfl hsame
        · exact h.unused stale hmem

/-- They stay dead when a handle is made for another entry. -/
theorem StaleInv.alloc (h : StaleInv r) {object : Option GdiPtr} {type : UInt8}
    (hok : EntryNotStale r (.alloc object type))
    (hstep : gdiHandleStep r (.alloc object type) = some r') : StaleInv r' := by
  cases hstep
  constructor
  · intro stale hmem
    exact h.regular stale (List.mem_filter.mp hmem).1
  · intro stale hmem
    obtain ⟨hmem, hne⟩ := List.mem_filter.mp hmem
    have hold := h.unused stale hmem
    rcases gdiAllocHandle_cases r.table object type with ⟨-, heq⟩ | ⟨i, hslot, hentries, hmade⟩
    · rw [heq]
      exact hold
    · show ((gdiAllocHandle r.table object type).1.entries (gdiHandleIndex stale)).inUse = false
      rw [hentries]
      have hother : gdiHandleIndex stale ≠ i := by
        intro heq
        rw [hmade, decide_eq_true_iff] at hne
        exact hne (hok i hslot stale hmem heq)
      rw [Function.update_of_ne hother]
      exact hold

/-- A handle that is made for the entry of another one brings it back to life. -/
theorem staleDead_alloc_not (h : StaleInv r) {object : Option GdiPtr} {type : UInt8}
    (hbad : ¬ EntryNotStale r (.alloc object type))
    (hstep : gdiHandleStep r (.alloc object type) = some r') : ¬ StaleDead r' := by
  cases hstep
  simp only [EntryNotStale, not_forall] at hbad
  obtain ⟨i, hslot, stale, hmem, hindex, hne⟩ := hbad
  rcases gdiAllocHandle_cases r.table object type with ⟨hnone, -⟩ | ⟨j, hslot', hentries, hmade⟩
  · rw [hnone] at hslot
    cases hslot
  · have hij : i = j := Option.some.inj (hslot.symm.trans hslot')
    subst hij
    intro hdead
    have hstale : stale ∈ r.freed.filter fun handle => handle ≠ (gdiAllocHandle r.table object type).2 := by
      apply List.mem_filter.mpr
      rw [hmade]
      exact ⟨hmem, decide_eq_true hne⟩
    have hunused := (rejects_iff (h.regular stale hmem)).mp (hdead stale hstale)
    simp only [hentries, hindex, Function.update_self] at hunused
    cases hunused

/-- The freed handles are dead all along a run exactly if none of them shares its entry with a
handle that is made later. -/
theorem gdiHandleRun_stale_iff {ops : List GdiHandleOp} {tr : List GdiHandleRun}
    (h : trace gdiHandleStep gdiHandleStart ops = some tr) :
    (∀ r ∈ tr, StaleDead r) ↔ Guarded gdiHandleStep EntryNotStale gdiHandleStart ops := by
  apply trace_forall_iff_guarded (fun r (hinv : StaleInv r) => hinv.dead) ?_ ?_ ?_ h
  · intro r op r' hinv hok hstep
    cases op with
    | alloc object type => exact hinv.alloc hok hstep
    | free handle => exact hinv.free hstep
  · intro r op r' hinv hbad hstep
    cases op with
    | alloc object type => exact staleDead_alloc_not hinv hbad hstep
    | free handle => exact absurd trivial hbad
  · exact ⟨fun _ hmem => absurd hmem List.not_mem_nil, fun _ hmem => absurd hmem List.not_mem_nil⟩

/-- Two brushes, the first of which is deleted. -/
theorem gdiHandleRun_stale_free : ∃ tr,
    trace gdiHandleStep gdiHandleStart [.alloc (some (.object 1)) gdiObjBrush,
      .alloc (some (.object 2)) gdiObjBrush, .free (gdiMakeHandle 1 gdiObjBrush 1)] = some tr ∧
    ∀ r ∈ tr, StaleDead r := by
  have hrun : (trace gdiHandleStep gdiHandleStart [.alloc (some (.object 1)) gdiObjBrush,
      .alloc (some (.object 2)) gdiObjBrush,
      .free (gdiMakeHandle 1 gdiObjBrush 1)]).isSome = true := rfl
  obtain ⟨tr, htr⟩ := Option.isSome_iff_exists.mp hrun
  refine ⟨tr, htr, (gdiHandleRun_stale_iff htr).mpr ?_⟩
  have hnone : ∀ (r : GdiHandleRun) object type, r.freed = [] →
      EntryNotStale r (.alloc object type) := by
    intro r object type hfreed i _ handle hmem
    rw [hfreed] at hmem
    cases hmem
  refine ⟨hnone _ _ _ rfl, ?_⟩
  intro first hfirst
  cases hfirst
  refine ⟨hnone _ _ _ rfl, ?_⟩
  intro second hsecond
  cases hsecond
  exact ⟨trivial, fun _ _ => trivial⟩

/-- A handle that has been freed frees the object that has its entry now. -/
theorem gdiHandleRun_stale_not : ∃ tr,
    trace gdiHandleStep gdiHandleStart [.alloc (some (.object 1)) gdiObjBrush,
      .free (gdiMakeHandle 1 gdiObjBrush 1), .alloc (some (.object 2)) gdiObjBrush] = some tr ∧
    ∃ r ∈ tr, gdiMakeHandle 1 gdiObjBrush 1 ∈ r.freed ∧
      gdiHandleIsValid r.table (gdiMakeHandle 1 gdiObjBrush 1) = true ∧
      gdiGetObjectAny r.table (gdiMakeHandle 1 gdiObjBrush 1) =
        (some (.object 2), some gdiObjBrush) ∧
      (gdiFreeHandle r.table (gdiMakeHandle 1 gdiObjBrush 1)).2 = true := by
  refine ⟨_, rfl, _, List.mem_cons_of_mem _ (List.mem_cons_of_mem _ (List.mem_cons_of_mem _
    List.mem_cons_self)), ?_⟩
  decide +kernel

end Wbox.Gdi
