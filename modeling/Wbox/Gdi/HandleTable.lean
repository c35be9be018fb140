import Mathlib.Logic.Function.Basic
import Mathlib.Data.Nat.Bitwise

/-!
# The GDI handle table

Handles of GDI objects (`src/gdi/gdi_handle_table.c`). A handle is the index of an entry, the type
of the object and the lower bits of the number of times the entry has been used. The table that is
shared with the guest is written but not read here.
-/

namespace Wbox.Gdi

/-- `GDI_MAX_HANDLES`. -/
def gdiMaxHandles : Nat := 4096

/-- `GDI_OBJ_DC`. -/
def gdiObjDc : UInt8 := 0x01
/-- `GDI_OBJ_REGION`. -/
def gdiObjRegion : UInt8 := 0x04
/-- `GDI_OBJ_BITMAP`. -/
def gdiObjBitmap : UInt8 := 0x05
/-- `GDI_OBJ_PALETTE`. -/
def gdiObjPalette : UInt8 := 0x08
/-- `GDI_OBJ_FONT`. -/
def gdiObjFont : UInt8 := 0x0A
/-- `GDI_OBJ_BRUSH`. -/
def gdiObjBrush : UInt8 := 0x10
/-- `GDI_OBJ_PEN`. -/
def gdiObjPen : UInt8 := 0x30

/-- A pointer to an object: a stock object of its type, or one that has been allocated. -/
inductive GdiPtr where
  | stock (index : Nat)
  | object (addr : Nat)
  deriving DecidableEq, Repr

/-- `gdi_handle_entry_t`. -/
structure GdiHandleEntry where
  object : Option GdiPtr := none
  type : UInt8 := 0
  reuseCount : UInt16 := 0
  inUse : Bool := false
  deriving DecidableEq, Repr

/-- `gdi_handle_table_t`: the entries, the hint for the next one and the number of those in use. -/
structure GdiHandleTable where
  entries : Nat → GdiHandleEntry
  nextFree : Nat
  handleCount : Int32

/-- `GDI_MAKE_HANDLE`. -/
def gdiMakeHandle (index : Nat) (type : UInt8) (reuse : UInt16) : UInt32 :=
  let index : UInt32 := UInt32.ofNat index &&& 0x0000FFFF
  let type : UInt32 := type.toUInt32 <<< 16 &&& 0x007F0000
  let reuse : UInt32 := reuse.toUInt32 <<< 24 &&& 0x7F000000
  index ||| type ||| reuse

/-- `GDI_HANDLE_INDEX`. -/
def gdiHandleIndex (h : UInt32) : Nat := (h &&& 0x0000FFFF).toNat

/-- `GDI_HANDLE_TYPE`. -/
def gdiHandleType (h : UInt32) : UInt8 := ((h &&& 0x007F0000) >>> 16).toUInt8

/-- The use that a handle was issued for, `gdi_handle_table.c:408`. -/
def gdiHandleReuse (h : UInt32) : UInt16 := (h >>> 24 &&& 0x7F).toUInt16

/-- `GDI_HANDLE_IS_STOCK`. -/
def gdiHandleIsStock (h : UInt32) : Bool := h &&& 0x80000000 ≠ 0

namespace GdiHandleTable

/-- The first free entry of an interval. -/
def freeIn (t : GdiHandleTable) (lo hi : Nat) : Option Nat :=
  (List.range' lo (hi - lo)).find? fun i => !(t.entries i).inUse

/-- The entry that the next handle is made for, `gdi_handle_table.c:309–324`. -/
def freeSlot (t : GdiHandleTable) : Option Nat :=
  (t.freeIn t.nextFree gdiMaxHandles).or (t.freeIn 1 t.nextFree)

/-- Change an entry. -/
def set (t : GdiHandleTable) (i : Nat) (entry : GdiHandleEntry) : GdiHandleTable :=
  { t with entries := Function.update t.entries i entry }

end GdiHandleTable

/-- `gdi_handle_table_init`, `gdi_handle_table.c:239–258`. -/
def gdiHandleTableInit : GdiHandleTable where
  entries := Function.update (fun _ => {}) 0 { inUse := true }
  nextFree := 1
  handleCount := 1

/-- `gdi_alloc_handle`, `gdi_handle_table.c:306–351`. -/
def gdiAllocHandle (t : GdiHandleTable) (object : Option GdiPtr) (type : UInt8) :
    GdiHandleTable × UInt32 :=
  match t.freeSlot with
  | none => (t, 0)
  | some i =>
      let reuse := (t.entries i).reuseCount + 1
      let t' := t.set i { object, type, reuseCount := reuse, inUse := true }
      ({ t' with
          nextFree := if i + 1 ≥ gdiMaxHandles then 1 else i + 1
          handleCount := t.handleCount + 1 },
        gdiMakeHandle i type reuse)

/-- The stock objects, `gdi_handle_table.c:359–396`. -/
def stockObject (handle : UInt32) (expectedType : UInt8) : Option GdiPtr :=
  let type := gdiHandleType handle
  let index := (handle &&& 0xFF).toNat
  if type ≠ expectedType then none
  else if type = gdiObjBrush then if index < 6 ∨ index = 18 then some (.stock index) else none
  else if type = gdiObjPen then if index < 3 ∨ index = 19 then some (.stock index) else none
  else if type = gdiObjFont then if index < 8 then some (.stock index) else none
  else if type = gdiObjPalette then if index = 0 then some (.stock index) else none
  else none

/-- `gdi_get_object`, `gdi_handle_table.c:354–412`. -/
def gdiGetObject (t : GdiHandleTable) (handle : UInt32) (expectedType : UInt8) : Option GdiPtr :=
  if handle = 0 then none
  else if gdiHandleIsStock handle then stockObject handle expectedType
  else
    let entry := t.entries (gdiHandleIndex handle)
    if gdiHandleIndex handle ≥ gdiMaxHandles then none
    else if !entry.inUse then none
    else if entry.type ≠ expectedType then none
    else if entry.reuseCount &&& 0x7F ≠ gdiHandleReuse handle then none
    else entry.object

/-- `gdi_get_object_any`, `gdi_handle_table.c:415–434`: the object, and the type it reports. -/
def gdiGetObjectAny (t : GdiHandleTable) (handle : UInt32) : Option GdiPtr × Option UInt8 :=
  if handle = 0 then (none, none)
  else if gdiHandleIsStock handle then
    (stockObject handle (gdiHandleType handle), some (gdiHandleType handle))
  else
    let entry := t.entries (gdiHandleIndex handle)
    if gdiHandleIndex handle ≥ gdiMaxHandles then (none, none)
    else if !entry.inUse then (none, none)
    else (entry.object, some entry.type)

/-- `gdi_free_handle`, `gdi_handle_table.c:437–470`. -/
def gdiFreeHandle (t : GdiHandleTable) (handle : UInt32) : GdiHandleTable × Bool :=
  let i := gdiHandleIndex handle
  let entry := t.entries i
  if handle = 0 then (t, false)
  else if gdiHandleIsStock handle then (t, false)
  else if i ≥ gdiMaxHandles then (t, false)
  else if !entry.inUse then (t, false)
  else if entry.type ≠ gdiHandleType handle then (t, false)
  else
    let t' := t.set i { entry with inUse := false, object := none }
    ({ t' with
        nextFree := if i < t.nextFree then i else t.nextFree
        handleCount := t.handleCount - 1 }, true)

/-- `gdi_handle_is_valid`, `gdi_handle_table.c:482–495`. -/
def gdiHandleIsValid (t : GdiHandleTable) (handle : UInt32) : Bool :=
  if handle = 0 then false
  else if gdiHandleIsStock handle then true
  else if gdiHandleIndex handle ≥ gdiMaxHandles then false
  else (t.entries (gdiHandleIndex handle)).inUse

section Handles

variable {i : Nat} {type : UInt8} {reuse : UInt16}

/-- A field of seven bits, moved to its place and masked. -/
theorem toNat_shiftLeft_and {w m : UInt32} {k : Nat} (hk : k < 32)
    (hm : m.toNat = (2 ^ 7 - 1) <<< k) :
    (w <<< UInt32.ofNat k &&& m).toNat = 2 ^ k * (w.toNat % 2 ^ 7) := by
  have hmod : (UInt32.ofNat k).toNat % 32 = k := by
    rw [UInt32.toNat_ofNat']
    omega
  have hmlt : m.toNat % 2 ^ 32 = m.toNat := Nat.mod_eq_of_lt m.toNat_lt
  rw [UInt32.toNat_and, UInt32.toNat_shiftLeft, hmod, ← hmlt, ← Nat.and_mod_two_pow, hm,
    ← Nat.shiftLeft_and_distrib, Nat.and_two_pow_sub_one_eq_mod, Nat.shiftLeft_eq, Nat.mul_comm]
  apply Nat.mod_eq_of_lt
  have hlt := m.toNat_lt
  rw [hm, Nat.shiftLeft_eq] at hlt
  have hle : 2 ^ k * (w.toNat % 2 ^ 7) ≤ 2 ^ k * (2 ^ 7 - 1) := Nat.mul_le_mul_left _ (by omega)
  omega

/-- The three fields of a handle. -/
theorem gdiMakeHandle_toNat (hi : i < gdiMaxHandles) :
    (gdiMakeHandle i type reuse).toNat =
      2 ^ 24 * (reuse.toNat % 2 ^ 7) + (2 ^ 16 * (type.toNat % 2 ^ 7) + i) := by
  have hi' : i < 2 ^ 12 := hi
  have hindex : (UInt32.ofNat i &&& 0x0000FFFF).toNat = i := by
    rw [UInt32.toNat_and]
    show (UInt32.ofNat i).toNat &&& 2 ^ 16 - 1 = i
    rw [Nat.and_two_pow_sub_one_eq_mod, UInt32.toNat_ofNat']
    omega
  have htype : (type.toUInt32 <<< 16 &&& 0x007F0000).toNat = 2 ^ 16 * (type.toNat % 2 ^ 7) :=
    toNat_shiftLeft_and (k := 16) (by decide) (by decide)
  have hreuse : (reuse.toUInt32 <<< 24 &&& 0x7F000000).toNat = 2 ^ 24 * (reuse.toNat % 2 ^ 7) :=
    toNat_shiftLeft_and (k := 24) (by decide) (by decide)
  unfold gdiMakeHandle
  dsimp only
  rw [UInt32.toNat_or, UInt32.toNat_or, hindex, htype, hreuse, Nat.or_comm i,
    ← Nat.two_pow_add_eq_or_of_lt (by omega : i < 2 ^ 16), Nat.or_comm,
    ← Nat.two_pow_add_eq_or_of_lt (by omega)]

/-- The index of a handle that was made. -/
theorem gdiHandleIndex_make (hi : i < gdiMaxHandles) :
    gdiHandleIndex (gdiMakeHandle i type reuse) = i := by
  have hi' : i < 2 ^ 12 := hi
  show (gdiMakeHandle i type reuse).toNat &&& 2 ^ 16 - 1 = i
  rw [Nat.and_two_pow_sub_one_eq_mod, gdiMakeHandle_toNat hi]
  omega

/-- The lower bits of its use. -/
theorem gdiHandleReuse_make (hi : i < gdiMaxHandles) :
    gdiHandleReuse (gdiMakeHandle i type reuse) = reuse &&& 0x7F := by
  have hi' : i < 2 ^ 12 := hi
  apply UInt16.toNat_inj.mp
  unfold gdiHandleReuse
  rw [UInt32.toNat_toUInt16, UInt32.toNat_and, UInt32.toNat_shiftRight, UInt16.toNat_and]
  show ((gdiMakeHandle i type reuse).toNat >>> 24 &&& 2 ^ 7 - 1) % 2 ^ 16 =
    reuse.toNat &&& 2 ^ 7 - 1
  rw [Nat.and_two_pow_sub_one_eq_mod, Nat.and_two_pow_sub_one_eq_mod, gdiMakeHandle_toNat hi,
    Nat.shiftRight_eq_div_pow]
  omega

/-- It is no handle of a stock object. -/
theorem gdiHandleIsStock_make (hi : i < gdiMaxHandles) :
    gdiHandleIsStock (gdiMakeHandle i type reuse) = false := by
  have hi' : i < 2 ^ 12 := hi
  unfold gdiHandleIsStock
  rw [decide_eq_false_iff_not, not_not]
  apply UInt32.toNat_inj.mp
  rw [UInt32.toNat_and]
  show (gdiMakeHandle i type reuse).toNat &&& 2 ^ 31 = 0
  rw [Nat.and_two_pow, gdiMakeHandle_toNat hi, Nat.testBit_lt_two_pow (by omega)]
  simp

theorem gdiMakeHandle_ne_zero (hi : i < gdiMaxHandles) (ht : type.toNat % 2 ^ 7 ≠ 0) :
    gdiMakeHandle i type reuse ≠ 0 := by
  intro hzero
  have htoNat : (gdiMakeHandle i type reuse).toNat = _ := gdiMakeHandle_toNat hi
  rw [hzero, UInt32.toNat_zero] at htoNat
  omega

end Handles

section Lookup

variable {t : GdiHandleTable} {handle : UInt32} {i j : Nat}

/-- A handle of an entry of the table. -/
structure Regular (handle : UInt32) : Prop where
  ne_zero : handle ≠ 0
  notStock : gdiHandleIsStock handle = false
  index : gdiHandleIndex handle < gdiMaxHandles

theorem freeIn_some {lo hi : Nat} (h : t.freeIn lo hi = some i) :
    lo ≤ i ∧ i < hi ∧ (t.entries i).inUse = false := by
  have hmem := List.mem_of_find?_eq_some h
  have hfree := List.find?_some h
  rw [List.mem_range'_1] at hmem
  rw [Bool.not_eq_true'] at hfree
  exact ⟨hmem.1, by omega, hfree⟩

/-- The entry of a new handle was free. -/
theorem freeSlot_free (h : t.freeSlot = some i) : (t.entries i).inUse = false := by
  rcases Option.or_eq_some_iff.mp h with hahead | ⟨-, hwrap⟩
  · exact (freeIn_some hahead).2.2
  · exact (freeIn_some hwrap).2.2

/-- It lies in the table. -/
theorem freeSlot_lt (ht : t.nextFree ≤ gdiMaxHandles) (h : t.freeSlot = some i) :
    i < gdiMaxHandles := by
  rcases Option.or_eq_some_iff.mp h with hahead | ⟨-, hwrap⟩
  · exact (freeIn_some hahead).2.1
  · exact Nat.lt_of_lt_of_le (freeIn_some hwrap).2.1 ht

@[simp] theorem set_entries (t : GdiHandleTable) (i : Nat) (entry : GdiHandleEntry) :
    (t.set i entry).entries = Function.update t.entries i entry := rfl

/-- A new handle is made for a free entry, if there is one. -/
theorem gdiAllocHandle_cases (t : GdiHandleTable) (object : Option GdiPtr) (type : UInt8) :
    (t.freeSlot = none ∧ gdiAllocHandle t object type = (t, 0)) ∨
      ∃ i, t.freeSlot = some i ∧
        (gdiAllocHandle t object type).1.entries = Function.update t.entries i
          { object, type, reuseCount := (t.entries i).reuseCount + 1, inUse := true } ∧
        (gdiAllocHandle t object type).2 =
          gdiMakeHandle i type ((t.entries i).reuseCount + 1) := by
  unfold gdiAllocHandle
  cases hslot : t.freeSlot with
  | none => exact .inl ⟨rfl, rfl⟩
  | some i => exact .inr ⟨i, rfl, rfl, rfl⟩

/-- The search for a free entry starts in the table. -/
theorem gdiAllocHandle_nextFree (ht : t.nextFree ≤ gdiMaxHandles) (object : Option GdiPtr)
    (type : UInt8) : (gdiAllocHandle t object type).1.nextFree ≤ gdiMaxHandles := by
  unfold gdiAllocHandle
  cases t.freeSlot with
  | none => exact ht
  | some i =>
    show (if i + 1 ≥ gdiMaxHandles then 1 else i + 1) ≤ gdiMaxHandles
    split
    · decide
    · omega

theorem gdiFreeHandle_nextFree (t : GdiHandleTable) (handle : UInt32) :
    (gdiFreeHandle t handle).1.nextFree ≤ t.nextFree := by
  unfold gdiFreeHandle
  dsimp only
  split_ifs
  all_goals first | exact Nat.le_refl _ | exact Nat.le_of_lt ‹_›

/-- Entries beyond the table are not used by a new handle. -/
theorem gdiAllocHandle_beyond (ht : t.nextFree ≤ gdiMaxHandles)
    (hbeyond : ∀ j, gdiMaxHandles ≤ j → (t.entries j).inUse = false) (object : Option GdiPtr)
    (type : UInt8) {j : Nat} (hj : gdiMaxHandles ≤ j) :
    ((gdiAllocHandle t object type).1.entries j).inUse = false := by
  rcases gdiAllocHandle_cases t object type with ⟨-, heq⟩ | ⟨i, hslot, hentries, -⟩
  · rw [heq]
    exact hbeyond j hj
  · have hne : j ≠ i := by
      have hi := freeSlot_lt ht hslot
      omega
    rw [hentries, Function.update_of_ne hne]
    exact hbeyond j hj

/-- A new handle is 0 exactly if there is no free entry; the table is left then. -/
theorem gdiAllocHandle_eq_zero_iff (ht : t.nextFree ≤ gdiMaxHandles) (object : Option GdiPtr)
    (type : UInt8) (htype : type.toNat % 2 ^ 7 ≠ 0) :
    (gdiAllocHandle t object type).2 = 0 ↔ t.freeSlot = none := by
  rcases gdiAllocHandle_cases t object type with ⟨hslot, heq⟩ | ⟨i, hslot, -, hmade⟩
  · rw [heq]
    exact iff_of_true rfl hslot
  · rw [hmade, hslot]
    exact iff_of_false (gdiMakeHandle_ne_zero (freeSlot_lt ht hslot) htype) nofun

/-- A stock object has not been allocated. -/
theorem stockObject_ne_object (handle : UInt32) (type : UInt8) (a : Nat) :
    stockObject handle type ≠ some (.object a) := by
  unfold stockObject
  dsimp only
  split_ifs
  all_goals simp

/-- The object of a handle is the one of its entry, for the use that it was issued for. -/
theorem gdiGetObject_object {type : UInt8} {a : Nat}
    (h : gdiGetObject t handle type = some (.object a)) :
    Regular handle ∧ (t.entries (gdiHandleIndex handle)).inUse = true ∧
      (t.entries (gdiHandleIndex handle)).type = type ∧
      (t.entries (gdiHandleIndex handle)).object = some (.object a) := by
  unfold gdiGetObject at h
  dsimp only at h
  split_ifs at h with hzero hstock hindex huse htype hreuse
  · exact absurd h (stockObject_ne_object handle type a)
  · refine ⟨⟨hzero, Bool.eq_false_iff.mpr hstock, Nat.not_le.mp hindex⟩, ?_, ?_, h⟩
    · simpa using huse
    · exact not_not.mp htype

/-- The handle that was made for an entry denotes its object. -/
theorem gdiGetObject_make {type : UInt8} (hi : i < gdiMaxHandles) (ht : type.toNat % 2 ^ 7 ≠ 0)
    (huse : (t.entries i).inUse = true) (htype : (t.entries i).type = type) :
    gdiGetObject t (gdiMakeHandle i type (t.entries i).reuseCount) type =
      (t.entries i).object := by
  unfold gdiGetObject
  dsimp only
  rw [if_neg (gdiMakeHandle_ne_zero hi ht), gdiHandleIsStock_make hi, gdiHandleIndex_make hi,
    gdiHandleReuse_make hi]
  simp [huse, htype, Nat.not_le.mpr hi]

/-- A handle is freed if its entry is in use with its type; the entry is free then. -/
theorem gdiFreeHandle_cases (t : GdiHandleTable) (handle : UInt32) :
    gdiFreeHandle t handle = (t, false) ∨
      Regular handle ∧ (t.entries (gdiHandleIndex handle)).inUse = true ∧
        (t.entries (gdiHandleIndex handle)).type = gdiHandleType handle ∧
        (gdiFreeHandle t handle).1.entries = Function.update t.entries (gdiHandleIndex handle)
          { t.entries (gdiHandleIndex handle) with inUse := false, object := none } ∧
        (gdiFreeHandle t handle).2 = true := by
  unfold gdiFreeHandle
  dsimp only
  split
  · exact .inl rfl
  · next hzero =>
    split
    · exact .inl rfl
    · next hstock =>
      split
      · exact .inl rfl
      · next hindex =>
        split
        · exact .inl rfl
        · next huse =>
          split
          · exact .inl rfl
          · next htype =>
            refine .inr ⟨⟨hzero, Bool.eq_false_iff.mpr hstock, Nat.not_le.mp hindex⟩, ?_, ?_, ?_⟩
            · simpa using huse
            · exact not_not.mp htype
            · exact ⟨rfl, rfl⟩

/-- Freeing a handle uses no entry. -/
theorem gdiFreeHandle_inUse (t : GdiHandleTable) (handle : UInt32) {j : Nat}
    (hj : (t.entries j).inUse = false) : ((gdiFreeHandle t handle).1.entries j).inUse = false := by
  rcases gdiFreeHandle_cases t handle with heq | ⟨-, -, -, hentries, -⟩
  · rw [heq]
    exact hj
  · rw [hentries]
    by_cases hsame : j = gdiHandleIndex handle
    · rw [hsame, Function.update_self]
    · rw [Function.update_of_ne hsame]
      exact hj

/-- It leaves the entries of other handles. -/
theorem gdiFreeHandle_of_ne (t : GdiHandleTable) (handle : UInt32) {j : Nat}
    (hj : j ≠ gdiHandleIndex handle) : (gdiFreeHandle t handle).1.entries j = t.entries j := by
  rcases gdiFreeHandle_cases t handle with heq | ⟨-, -, -, hentries, -⟩
  · rw [heq]
  · rw [hentries, Function.update_of_ne hj]

/-- Validity of a handle is whether its entry is in use. -/
theorem gdiHandleIsValid_eq (h : Regular handle) :
    gdiHandleIsValid t handle = (t.entries (gdiHandleIndex handle)).inUse := by
  unfold gdiHandleIsValid
  rw [if_neg h.ne_zero, if_neg (Bool.eq_false_iff.mp h.notStock), if_neg (Nat.not_le.mpr h.index)]

end Lookup

end Wbox.Gdi
