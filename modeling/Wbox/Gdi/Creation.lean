import Wbox.Gdi.LiveObjects

/-!
# Creating and deleting GDI objects

Runs of the functions that create objects (`src/gdi/gdi_drawing.c:629–755`,
`src/gdi/gdi_dc.c:61–164`) and of those that delete them (`src/nt/win32k_dispatcher.c:174–226`,
`gdi_dc.c:167–185`). A creation that fails gives back what it has taken, but for `gdi_create_bitmap`,
which frees the pixels and then the bitmap with its pixels.
-/

namespace Wbox.Gdi

open Wbox.Lib

/-- The calls; `answer` is what `calloc` has to offer when a pool is full. -/
inductive CreationOp where
  | createDc (answer : Option Nat) (hdcRef : UInt32)
  | createDisplayDc (answer : Option Nat) (display : Option Display)
  | createObject (kind : GdiKind) (answer : Option Nat)
  | createBitmap (heap : Heap) (answer : Option Nat) (width height : Int32) (planes bpp : UInt32)
  | deleteObject (handle : UInt32)
  | deleteDc (hdc : UInt32)

/-- The call makes an object. -/
def CreationOp.Creates : CreationOp → Prop
  | .deleteObject _ => False
  | .deleteDc _ => False
  | _ => True

/-- One call, with what it returns; `fuel` bounds the loop over saved states. -/
def creationCall (fuel : Nat) (s : GdiState) : CreationOp → Option (GdiState × UInt32)
  | .createDc answer hdcRef => gdiCreateCompatibleDc s answer hdcRef
  | .createDisplayDc answer display => gdiCreateDisplayDc s answer display
  | .createObject kind answer => createObject kind s answer
  | .createBitmap heap answer width height planes bpp =>
      gdiCreateBitmap heap s answer width height planes bpp
  | .deleteObject handle => ntGdiDeleteObjectApp fuel s handle
  | .deleteDc hdc => (gdiDeleteDc fuel s hdc).map fun r => (r.1, if r.2 then 1 else 0)

/-- One step of a run. -/
def creationStep (fuel : Nat) (s : GdiState) (op : CreationOp) : Option GdiState :=
  (creationCall fuel s op).map Prod.fst

/-- The handle table is the same, and the same objects are in use. -/
structure SameMarks (s s' : GdiState) : Prop where
  table : s'.table = s.table
  dcs : ∀ p, s'.dcs.inUse p = s.dcs.inUse p
  objects : ∀ kind a, (s'.objects kind).inUse a = (s.objects kind).inUse a
  bitmaps : ∀ b, s'.bitmaps.inUse b = s.bitmaps.inUse b

/-- The context that a handle denotes has not been freed. -/
def DcReadable (s : GdiState) (hdc : UInt32) : Prop :=
  ∀ p, s.getDc hdc = some p → (s.dcs.read p).isSome = true

/-- No bitmap is made with its pixels while every handle is in use, and no context is used that has
been freed. -/
def CreationOk (s : GdiState) : CreationOp → Prop
  | .createDc answer hdcRef => ∀ s' p, gdiAllocDc s answer = some (s', p) → DcReadable s' hdcRef
  | .createBitmap heap answer width height planes bpp =>
      s.table.freeSlot = none → gdiAllocBitmap s answer = none ∨
        newBitmap heap s.buffers width height planes bpp = none
  | .deleteObject handle =>
      (s.table.entries (gdiHandleIndex handle)).type = gdiObjDc → DcReadable s handle
  | .deleteDc hdc => DcReadable s hdc
  | _ => True

/-- A context without a saved state, and with no object selected that could be deleted. -/
structure PlainDc (dc : DcSelection) : Prop where
  selected : ∀ kind a, ¬ dc.PointsTo kind a
  bitmap : dc.bitmap = none
  savedDc : dc.savedDc = none

/-- The buffer belongs to a bitmap that a handle denotes. -/
def OwnedBuffer (s : GdiState) (id : Nat) : Prop :=
  ∃ i b, (s.table.entries i).inUse = true ∧ (s.table.entries i).type = gdiObjBitmap ∧
    (s.table.entries i).object = some (.object b) ∧ (s.bitmaps.object b).pixels = some id

/-- The invariant of a run. -/
structure CreationInv (s : GdiState) : Prop where
  alive : AliveInv s
  plain : ∀ p, PlainDc (s.dcs.object p)
  beyond : ∀ j, gdiMaxHandles ≤ j → (s.table.entries j).inUse = false
  owned : ∀ id, id < s.buffers → s.freed id = false → OwnedBuffer s id

variable {s s' s₁ : GdiState} {dc : DcSelection} {p a b i id fuel : Nat} {answer : Option Nat}
  {kind : GdiKind} {op : CreationOp} {handle hdc hdcRef made : UInt32}

section Contexts

theorem PlainDc.unused (h : PlainDc dc) : PlainDc dc.unused := by
  refine ⟨?_, h.bitmap, h.savedDc⟩
  rintro kind a ⟨r, hr, htarget⟩
  exact h.selected kind a ⟨r, by cases kind <;> exact hr, htarget⟩

theorem PlainDc.withHandle (h : PlainDc dc) (handle : UInt32) : PlainDc { dc with handle } := by
  refine ⟨?_, h.bitmap, h.savedDc⟩
  rintro kind a ⟨r, hr, htarget⟩
  exact h.selected kind a ⟨r, by cases kind <;> exact hr, htarget⟩

theorem PlainDc.contents {dc' : DcSelection} (h : PlainDc dc) (hdc : dc'.SameContents dc) :
    PlainDc dc' := by
  rcases hdc with rfl | rfl
  · exact h
  · exact h.unused

/-- A new context has stock objects selected. -/
theorem NewDc.plain (h : NewDc dc) : PlainDc dc := by
  refine ⟨?_, h.bitmap, h.savedDc⟩
  rintro kind a ⟨r, hr, htarget⟩
  cases kind with
  | brush =>
    obtain rfl := Option.some.inj (h.brush.symm.trans hr)
    cases htarget
  | pen =>
    obtain rfl := Option.some.inj (h.pen.symm.trans hr)
    cases htarget
  | font =>
    obtain rfl := Option.some.inj (h.font.symm.trans hr)
    cases htarget
  | region => cases hr

/-- What is deleted is not selected: nothing is. -/
theorem deletesUnselected (hplain : ∀ p, PlainDc (s.dcs.object p)) (handle : UInt32) :
    DeletesUnselected s (.deleteObject handle) := by
  constructor
  · rintro kind a - ⟨i, p, q, -, -, hpoints⟩
    exact (hplain q).selected kind a hpoints
  · rintro b - ⟨i, p, q, -, -, hpoints⟩
    unfold DcSelection.bitmapAddr at hpoints
    rw [(hplain q).bitmap] at hpoints
    cases hpoints

end Contexts

section Failure

/-- A context that gets no handle is free again. -/
theorem newDc_zero (ht : s.table.nextFree ≤ gdiMaxHandles) (halloc : gdiAllocDc s answer = some (s₁, p))
    (hmade : newDc s₁ p dc = some (s', 0)) : SameMarks s s' := by
  obtain ⟨hfree, rfl⟩ := gdiAllocDc_spec halloc
  rcases newDc_cases (s := s.setDc p { inUse := true }) ht hmade with
    ⟨dcs, rfl, hdcs⟩ | ⟨i, hi, -, -, hzero, -⟩
  · refine ⟨rfl, ?_, fun _ _ => rfl, fun _ => rfl⟩
    intro q
    unfold Pool.inUse
    dsimp only
    rw [hdcs]
    by_cases hq : q = p
    · rw [hq, Function.update_self]
      exact hfree.symm
    · rw [Function.update_of_ne hq]
      exact congrArg DcSelection.inUse (Function.update_of_ne hq _ _)
  · exact absurd hzero.symm (gdiMakeHandle_ne_zero hi (by decide))

theorem SameMarks.refl (s : GdiState) : SameMarks s s :=
  ⟨rfl, fun _ => rfl, fun _ _ => rfl, fun _ => rfl⟩

/-- A creation that returns no handle leaves the table and the marks as they were. -/
theorem creationCall_zero (ht : s.table.nextFree ≤ gdiMaxHandles) (hop : op.Creates)
    (h : creationCall fuel s op = some (s', 0)) : SameMarks s s' := by
  cases op with
  | createDc answer hdcRef =>
    rcases gdiCreateCompatibleDc_cases h with rfl | ⟨s₁, p, dc, halloc, -, -, hmade⟩
    · exact .refl _
    · exact newDc_zero ht halloc hmade
  | createDisplayDc answer display =>
    rcases gdiCreateDisplayDc_cases h with rfl | ⟨s₁, p, dc, halloc, -, hmade⟩
    · exact .refl _
    · exact newDc_zero ht halloc hmade
  | createObject kind answer =>
    rcases createObject_cases ht h with rfl | ⟨a, pool, hfree, hagree, hcases⟩
    · exact .refl _
    · rcases hcases with ⟨hmark, rfl⟩ | ⟨i, -, -, hne, -⟩
      · refine ⟨rfl, fun _ => rfl, ?_, fun _ => rfl⟩
        intro kind' a'
        show (Function.update s.objects kind pool kind').inUse a' = _
        by_cases hkind : kind' = kind
        · rw [hkind, Function.update_self]
          exact hagree.marks (hmark.trans hfree.symm) a'
        · rw [Function.update_of_ne hkind]
      · exact absurd rfl hne
  | createBitmap heap answer width height planes bpp =>
    rcases gdiCreateBitmap_cases ht h with rfl | ⟨b, bitmaps, hfree, hagree, -, hcases⟩
    · exact .refl _
    · rcases hcases with ⟨hmark, rfl⟩ | ⟨i, -, -, hne, -⟩
      · exact ⟨rfl, fun _ => rfl, fun _ _ => rfl, hagree.marks (hmark.trans hfree.symm)⟩
      · exact absurd rfl hne
  | deleteObject handle => exact hop.elim
  | deleteDc hdc => exact hop.elim

end Failure

section Returns

/-- A context that gets no handle can be freed. -/
theorem newDc_isSome (s : GdiState) (p : Nat) (hdc : dc.inUse = true) :
    (newDc s p dc).isSome = true := by
  unfold newDc
  dsimp only
  split
  · rw [Option.isSome_map]
    unfold gdiFreeDc
    rw [Option.isSome_map]
    apply Option.isSome_iff_exists.mpr
    apply Pool.free_isSome
    show (Function.update s.dcs.object p dc p).inUse = true
    rw [Function.update_self]
    exact hdc
  · rfl

theorem gdiCreateDisplayDc_isSome (s : GdiState) (answer : Option Nat) (display : Option Display) :
    (gdiCreateDisplayDc s answer display).isSome = true := by
  unfold gdiCreateDisplayDc
  split
  · rfl
  · apply newDc_isSome
    cases display <;> rfl

/-- `gdi_create_compatible_dc` reads the context it is given for reference. -/
theorem gdiCreateCompatibleDc_isSome_iff :
    (gdiCreateCompatibleDc s answer hdcRef).isSome = true ↔
      CreationOk s (.createDc answer hdcRef) := by
  unfold gdiCreateCompatibleDc
  split
  · next hnone =>
    refine iff_of_true rfl ?_
    intro s' p hsome
    rw [hnone] at hsome
    cases hsome
  · next s₁ p halloc =>
    have hok : CreationOk s (.createDc answer hdcRef) ↔ (referenceDepth s₁ hdcRef).isSome = true := by
      unfold referenceDepth
      constructor
      · intro hok
        split
        · next r hr =>
          rw [Option.isSome_map]
          exact hok s₁ p halloc r hr
        · rfl
      · intro hsome s' p' halloc' r hr
        obtain ⟨rfl, rfl⟩ := Prod.mk.inj (Option.some.inj (halloc.symm.trans halloc'))
        simp only [hr, Option.isSome_map] at hsome
        exact hsome
    rw [hok]
    cases referenceDepth s₁ hdcRef with
    | none => exact iff_of_false Bool.false_ne_true Bool.false_ne_true
    | some bpp => exact iff_of_true (newDc_isSome _ _ rfl) rfl

theorem createObject_isSome (kind : GdiKind) (s : GdiState) (answer : Option Nat) :
    (createObject kind s answer).isSome = true := by
  unfold createObject
  split
  · rfl
  · next s₁ a halloc =>
    dsimp only
    split
    · obtain ⟨⟨pool, a'⟩, hpool, heq⟩ := Option.map_eq_some_iff.mp halloc
      obtain ⟨rfl, rfl⟩ := Prod.mk.inj heq
      rw [Option.isSome_map]
      unfold freeObject
      rw [Option.isSome_map]
      apply Option.isSome_iff_exists.mpr
      apply Pool.free_isSome
      show (Function.update s.objects kind pool kind).inUse a' = true
      rw [Function.update_self]
      exact Pool.alloc_inUse hpool (.inr rfl)
    · rfl

/-- A bitmap can be freed if its pixels have not been. -/
theorem gdiFreeBitmap_isSome (huse : s.bitmaps.inUse b = true)
    (hpixels : ∀ id, (s.bitmaps.object b).pixels = some id → s.freed id = false) :
    (gdiFreeBitmap s b).isSome = true := by
  have hpix : ∃ freed, freePixels s (s.bitmaps.object b).pixels = some { s with freed } := by
    unfold freePixels
    split
    · exact ⟨s.freed, rfl⟩
    · next id hid =>
      rw [hpixels id hid]
      exact ⟨_, rfl⟩
  obtain ⟨freed, hfreed⟩ := hpix
  have hfree : ∃ bitmaps, (s.bitmaps.set b { s.bitmaps.object b with pixels := none }).free b =
      some bitmaps := by
    apply Pool.free_isSome
    show (Function.update s.bitmaps.object b _ b).inUse = true
    rw [Function.update_self]
    exact huse
  obtain ⟨bitmaps, hbitmaps⟩ := hfree
  unfold gdiFreeBitmap
  simp [Pool.read_inUse huse, hfreed, hbitmaps]

/-- Without a handle for it, a bitmap with pixels is freed after its pixels. -/
theorem gdiCreateBitmap_isSome_iff {heap : Heap} {width height : Int32} {planes bpp : UInt32}
    (ht : s.table.nextFree ≤ gdiMaxHandles) :
    (gdiCreateBitmap heap s answer width height planes bpp).isSome = true ↔
      CreationOk s (.createBitmap heap answer width height planes bpp) := by
  show _ ↔ (s.table.freeSlot = none → _)
  unfold gdiCreateBitmap
  cases halloc : gdiAllocBitmap s answer with
  | none => exact iff_of_true rfl fun _ => .inl rfl
  | some r =>
    obtain ⟨s₁, b⟩ := r
    obtain ⟨-, rfl⟩ := gdiAllocBitmap_spec halloc
    dsimp only [GdiState.setBitmap]
    cases hbmp : newBitmap heap s.buffers width height planes bpp with
    | none =>
      refine iff_of_true ?_ fun _ => .inr rfl
      rw [Option.isSome_map]
      apply gdiFreeBitmap_isSome
      · unfold Pool.inUse
        rw [Pool.set_object, Function.update_self]
        rfl
      · intro id hid
        rw [Pool.set_object, Function.update_self] at hid
        cases hid
    | some bmp =>
      obtain ⟨hpixels, -⟩ := newBitmap_spec hbmp
      have hzero := gdiAllocHandle_eq_zero_iff ht (some (.object b)) gdiObjBitmap (by decide)
      dsimp only
      by_cases hslot : s.table.freeSlot = none
      · refine iff_of_false ?_ fun hok => by simpa using hok hslot
        rw [if_pos (hzero.mpr hslot), Bool.not_eq_true,
          Option.isSome_eq_false_iff, Option.isNone_iff_eq_none, Option.bind_eq_bind,
          Option.bind_eq_none_iff]
        intro s₂ hfreed
        rw [hpixels] at hfreed
        obtain rfl := freePixels_some hfreed
        rw [gdiFreeBitmap_freed (?_ : _ = some s.buffers) (Function.update_self _ _ _)]
        · rfl
        · simp
      · rw [if_neg fun heq => hslot (hzero.mp heq)]
        exact iff_of_true rfl fun h => absurd h hslot

/-- `gdi_delete_dc` reads the context. -/
theorem gdiDeleteDc_isSome_iff (hplain : ∀ p, PlainDc (s.dcs.object p)) :
    (gdiDeleteDc fuel s hdc).isSome = true ↔ DcReadable s hdc := by
  unfold gdiDeleteDc DcReadable
  split
  · next hnone =>
    refine iff_of_true rfl ?_
    intro p hp
    rw [hnone] at hp
    cases hp
  · next p hp =>
    have hread : DcReadable s hdc ↔ (s.dcs.read p).isSome = true := by
      constructor
      · exact fun h => h p hp
      · intro h q hq
        obtain rfl := Option.some.inj (hp.symm.trans hq)
        exact h
    rw [show (∀ q, s.getDc hdc = some q → (s.dcs.read q).isSome = true) ↔
      (s.dcs.read p).isSome = true from hread]
    cases hdc : s.dcs.read p with
    | none => exact iff_of_false Bool.false_ne_true Bool.false_ne_true
    | some dc =>
      refine iff_of_true ?_ rfl
      obtain rfl := Pool.read_eq hdc
      have hsaved : freeSaved fuel s (s.dcs.object p).savedDc = some s := by
        rw [(hplain p).savedDc]
        unfold freeSaved
        rfl
      have hfree : ∃ dcs, s.dcs.free p = some dcs := by
        unfold Pool.free
        rw [hdc]
        exact ⟨_, rfl⟩
      obtain ⟨dcs, hdcs⟩ := hfree
      simp [hsaved, gdiFreeDc, hdcs]

/-- An object that can be freed is deleted, or its handle is not freed. -/
theorem deleteObject_isSome {free : GdiState → Nat → Option GdiState}
    (hfree : (free { s with table := (gdiFreeHandle s.table handle).1 } a).isSome = true) :
    (deleteObject free s handle (.object a)).isSome = true := by
  unfold deleteObject
  dsimp only
  split
  · rw [Option.isSome_map]
    exact hfree
  · rfl

/-- `sys_NtGdiDeleteObjectApp` returns, unless it is to delete a context that has been freed. -/
theorem ntGdiDeleteObjectApp_isSome_iff (hbacked : Backed s)
    (hplain : ∀ p, PlainDc (s.dcs.object p)) :
    (ntGdiDeleteObjectApp fuel s handle).isSome = true ↔ CreationOk s (.deleteObject handle) := by
  show _ ↔ ((s.table.entries (gdiHandleIndex handle)).type = gdiObjDc → DcReadable s handle)
  unfold ntGdiDeleteObjectApp
  split
  · next ptr type hany =>
    split
    · next hstock =>
      refine iff_of_true rfl fun _ p hp => ?_
      rw [(gdiGetObjectAny_dc hp).1] at hstock
      cases hstock
    · next hstock =>
      obtain ⟨huse, htype, hobject⟩ :=
        gdiGetObjectAny_some hany (Bool.eq_false_iff.mpr hstock)
      have hguard : type ≠ gdiObjDc →
          (s.table.entries (gdiHandleIndex handle)).type = gdiObjDc → DcReadable s handle :=
        fun hne hdc => absurd (htype.symm.trans hdc) hne
      have hkind : ∀ kind : GdiKind, type = kind.type →
          (deleteObject (freeObject kind) s handle ptr).isSome = true := by
        intro kind hsame
        obtain ⟨a, ha, hused⟩ := hbacked.object kind _ huse (htype.trans hsame)
        obtain rfl := Option.some.inj (hobject.symm.trans ha)
        apply deleteObject_isSome
        unfold freeObject
        rw [Option.isSome_map]
        exact Option.isSome_iff_exists.mpr (Pool.free_isSome hused)
      split_ifs with hdc hbrush hpen hfont hbitmap hregion
      · rw [Option.isSome_map, gdiDeleteDc_isSome_iff hplain, htype]
        exact ⟨fun h _ => h, fun h => h hdc⟩
      · exact iff_of_true (hkind .brush hbrush) (hguard hdc)
      · exact iff_of_true (hkind .pen hpen) (hguard hdc)
      · exact iff_of_true (hkind .font hfont) (hguard hdc)
      · refine iff_of_true ?_ (hguard hdc)
        obtain ⟨b, hb, hused⟩ := hbacked.bitmap _ huse (htype.trans hbitmap)
        obtain rfl := Option.some.inj (hobject.symm.trans hb)
        apply deleteObject_isSome
        exact gdiFreeBitmap_isSome (s := { s with table := _ }) hused
          fun id hid => (hbacked.pixels b id hused hid).2
      · exact iff_of_true (hkind .region hregion) (hguard hdc)
      all_goals exact iff_of_true rfl (hguard hdc)
  · next hnone =>
    refine iff_of_true rfl fun _ p hp => ?_
    exact absurd (gdiGetObjectAny_dc hp).2 (hnone _ _)

/-- Exactly the guarded calls return. -/
theorem creationStep_isSome_iff (h : CreationInv s) (op : CreationOp) :
    (creationStep fuel s op).isSome = true ↔ CreationOk s op := by
  unfold creationStep
  rw [Option.isSome_map]
  cases op with
  | createDc answer hdcRef => exact gdiCreateCompatibleDc_isSome_iff
  | createDisplayDc answer display =>
    exact iff_of_true (gdiCreateDisplayDc_isSome s answer display) trivial
  | createObject kind answer => exact iff_of_true (createObject_isSome kind s answer) trivial
  | createBitmap heap answer width height planes bpp =>
    exact gdiCreateBitmap_isSome_iff h.alive.backed.nextFree
  | deleteObject handle => exact ntGdiDeleteObjectApp_isSome_iff h.alive.backed h.plain
  | deleteDc hdc =>
    show ((gdiDeleteDc fuel s hdc).map _).isSome = true ↔ _
    rw [Option.isSome_map]
    exact gdiDeleteDc_isSome_iff h.plain

end Returns

section Invariant

/-- The same call, among those that also select. -/
def CreationOp.toSelection : CreationOp → SelectionOp
  | .createDc answer hdcRef => .createDc answer hdcRef
  | .createDisplayDc answer display => .createDisplayDc answer display
  | .createObject kind answer => .createObject kind answer
  | .createBitmap heap answer width height planes bpp =>
      .createBitmap heap answer width height planes bpp
  | .deleteObject handle => .deleteObject handle
  | .deleteDc hdc => .deleteDc hdc

theorem selectionStep_toSelection (op : CreationOp) :
    selectionStep fuel s op.toSelection = creationStep fuel s op := by
  cases op with
  | deleteDc hdc =>
    show (gdiDeleteDc fuel s hdc).map Prod.fst = ((gdiDeleteDc fuel s hdc).map _).map Prod.fst
    rw [Option.map_map]
    rfl
  | _ => rfl

/-- A new context is plain, with its handle or given back. -/
theorem plain_newDc (h : CreationInv s) (halloc : gdiAllocDc s answer = some (s₁, p))
    (hnew : NewDc dc) (hmade : newDc s₁ p dc = some (s', made)) (q : Nat) :
    PlainDc (s'.dcs.object q) := by
  obtain ⟨-, rfl⟩ := gdiAllocDc_spec halloc
  have hold : ∀ q ≠ p, PlainDc ((s.setDc p { inUse := true }).dcs.object q) := by
    intro q hq
    show PlainDc (Function.update s.dcs.object p _ q)
    rw [Function.update_of_ne hq]
    exact h.plain q
  rcases newDc_cases (s := s.setDc p { inUse := true }) h.alive.backed.nextFree hmade with
    ⟨dcs, rfl, hdcs⟩ | ⟨i, -, -, -, -, rfl⟩
  · dsimp only
    rw [hdcs]
    by_cases hq : q = p
    · rw [hq, Function.update_self]
      exact hnew.plain.unused
    · rw [Function.update_of_ne hq]
      exact hold q hq
  · show PlainDc (Function.update (s.setDc p { inUse := true }).dcs.object p _ q)
    by_cases hq : q = p
    · rw [hq, Function.update_self]
      exact hnew.plain.withHandle made
    · rw [Function.update_of_ne hq]
      exact hold q hq

theorem plain_deleteDc {ok : Bool} (h : CreationInv s)
    (hdelete : gdiDeleteDc fuel s hdc = some (s', ok)) (q : Nat) :
    PlainDc (s'.dcs.object q) := by
  rcases gdiDeleteDc_cases hdelete with ⟨-, rfl⟩ | ⟨p, dcs, -, rfl, hdcs⟩
  · exact h.plain q
  · exact (h.plain q).contents (hdcs q)

/-- No context is selected into. -/
theorem creationStep_plain (h : CreationInv s) (hstep : creationStep fuel s op = some s')
    (q : Nat) : PlainDc (s'.dcs.object q) := by
  obtain ⟨⟨s₂, made⟩, hcall, rfl⟩ := Option.map_eq_some_iff.mp hstep
  cases op with
  | createDc answer hdcRef =>
    rcases gdiCreateCompatibleDc_cases hcall with rfl | ⟨s₁, p, dc, halloc, hnew, -, hmade⟩
    · exact h.plain q
    · exact plain_newDc h halloc hnew hmade q
  | createDisplayDc answer display =>
    rcases gdiCreateDisplayDc_cases hcall with rfl | ⟨s₁, p, dc, halloc, hnew, hmade⟩
    · exact h.plain q
    · exact plain_newDc h halloc hnew hmade q
  | createObject kind answer =>
    rcases createObject_cases h.alive.backed.nextFree hcall with
      rfl | ⟨a, pool, -, -, ⟨-, rfl⟩ | ⟨i, -, -, -, -, -, rfl⟩⟩
    all_goals exact h.plain q
  | createBitmap heap answer width height planes bpp =>
    rcases gdiCreateBitmap_cases h.alive.backed.nextFree hcall with
      rfl | ⟨b, bitmaps, -, -, -, ⟨-, rfl⟩ | ⟨i, -, -, -, -, -, -, rfl⟩⟩
    all_goals exact h.plain q
  | deleteObject handle =>
    rcases ntGdiDeleteObjectApp_cases hcall with
      rfl | ⟨ok, hdelete⟩ | ⟨kind, a, -, hfree⟩ | ⟨b, -, hfree⟩ | ⟨-, rfl⟩
    · exact h.plain q
    · exact plain_deleteDc h hdelete q
    · obtain ⟨pool, -, rfl⟩ := Option.map_eq_some_iff.mp hfree
      exact h.plain q
    · obtain ⟨bitmaps, freed, rfl, -⟩ := gdiFreeBitmap_spec hfree
      exact h.plain q
    · exact h.plain q
  | deleteDc hdc =>
    obtain ⟨⟨s₃, ok⟩, hdelete, heq⟩ := Option.map_eq_some_iff.mp hcall
    obtain ⟨rfl, -⟩ := Prod.mk.inj heq
    exact plain_deleteDc h hdelete q

/-- A buffer keeps its bitmap where the entries and the pixels of the bitmaps in use are kept. -/
theorem OwnedBuffer.mono (h : OwnedBuffer s id) (hbacked : Backed s)
    (hentry : ∀ i, (s.table.entries i).inUse = true → (s.table.entries i).type = gdiObjBitmap →
      s'.table.entries i = s.table.entries i)
    (hpixels : ∀ b, s.bitmaps.inUse b = true →
      (s'.bitmaps.object b).pixels = (s.bitmaps.object b).pixels) : OwnedBuffer s' id := by
  obtain ⟨i, b, huse, htype, hobject, hid⟩ := h
  have hused : s.bitmaps.inUse b = true := by
    obtain ⟨b', hobject', hused⟩ := hbacked.bitmap i huse htype
    cases hobject.symm.trans hobject'
    exact hused
  have heq := hentry i huse htype
  exact ⟨i, b, heq ▸ huse, heq ▸ htype, heq ▸ hobject, (hpixels b hused).trans hid⟩

/-- A new handle leaves the entries in use. -/
theorem entries_newHandle {t : GdiHandleTable} {entry : GdiHandleEntry}
    (hentries : t.entries = Function.update s.table.entries a entry)
    (hfree : (s.table.entries a).inUse = false) (huse : (s.table.entries i).inUse = true) :
    t.entries i = s.table.entries i := by
  have hne : i ≠ a := by
    rintro rfl
    rw [hfree] at huse
    cases huse
  rw [hentries, Function.update_of_ne hne]

theorem owned_newDc (h : CreationInv s) (halloc : gdiAllocDc s answer = some (s₁, p))
    (hmade : newDc s₁ p dc = some (s', made)) (hid : id < s'.buffers)
    (hlive : s'.freed id = false) : OwnedBuffer s' id := by
  obtain ⟨-, rfl⟩ := gdiAllocDc_spec halloc
  rcases newDc_cases (s := s.setDc p { inUse := true }) h.alive.backed.nextFree hmade with
    ⟨dcs, rfl, -⟩ | ⟨i, -, hfree, hentries, -, rfl⟩
  · exact (h.owned id hid hlive).mono h.alive.backed (fun _ _ _ => rfl) fun _ _ => rfl
  · exact (h.owned id hid hlive).mono h.alive.backed
      (fun j huse _ => entries_newHandle hentries hfree huse) fun _ _ => rfl

/-- Bitmaps keep their entries when the handle of something else is freed. -/
theorem owned_freeHandle (h : CreationInv s) (dcs : Pool DcSelection)
    (objects : GdiKind → Pool GdiObject)
    (htype : (s.table.entries (gdiHandleIndex handle)).type ≠ gdiObjBitmap) (hid : id < s.buffers)
    (hlive : s.freed id = false) :
    OwnedBuffer { s with table := (gdiFreeHandle s.table handle).1, dcs, objects } id := by
  refine (h.owned id hid hlive).mono h.alive.backed ?_ fun _ _ => rfl
  intro i _ hbitmap
  apply gdiFreeHandle_of_ne
  rintro rfl
  exact htype hbitmap

theorem owned_deleteDc {ok : Bool} (h : CreationInv s)
    (hdelete : gdiDeleteDc fuel s hdc = some (s', ok)) (hid : id < s'.buffers)
    (hlive : s'.freed id = false) : OwnedBuffer s' id := by
  rcases gdiDeleteDc_cases hdelete with ⟨-, rfl⟩ | ⟨p, dcs, hp, rfl, -⟩
  · exact h.owned id hid hlive
  · apply owned_freeHandle h dcs s.objects _ hid hlive
    rw [(getDc_live hp).type]
    decide

/-- A bitmap that is freed takes its own buffer with it, and no other one. -/
theorem owned_freeBitmap (h : CreationInv s) (hdel : Deletes s handle gdiObjBitmap b)
    (hfree : gdiFreeBitmap { s with table := (gdiFreeHandle s.table handle).1 } b = some s')
    (hid : id < s'.buffers) (hlive : s'.freed id = false) : OwnedBuffer s' id := by
  obtain ⟨bitmaps, freed, rfl, hagree, -, -, hpixels⟩ := gdiFreeBitmap_spec hfree
  have hown : s.freed id = false ∧ (s.bitmaps.object b).pixels ≠ some id := by
    cases hpix : (s.bitmaps.object b).pixels with
    | none =>
      have hsame : freePixels { s with table := (gdiFreeHandle s.table handle).1 } none = _ :=
        hpix ▸ hpixels
      have heq : freed = s.freed := congrArg GdiState.freed (Option.some.inj hsame).symm
      exact ⟨heq ▸ hlive, nofun⟩
    | some own =>
      have hsome : freePixels { s with table := (gdiFreeHandle s.table handle).1 }
        (some own) = _ := hpix ▸ hpixels
      have heq : freed = Function.update s.freed own true :=
        congrArg GdiState.freed (freePixels_some hsome)
      dsimp only at hlive
      rw [heq] at hlive
      have hne : id ≠ own := by
        rintro rfl
        rw [Function.update_self] at hlive
        cases hlive
      rw [Function.update_of_ne hne] at hlive
      exact ⟨hlive, fun hsame => hne (Option.some.inj hsame).symm⟩
  obtain ⟨i, b', huse, htype, hobject, hpix⟩ := h.owned id hid hown.1
  have hb : b' ≠ b := by
    rintro rfl
    exact hown.2 hpix
  have hne : i ≠ gdiHandleIndex handle := by
    rintro rfl
    cases hobject.symm.trans hdel.object
    exact hb rfl
  have heq := gdiFreeHandle_of_ne s.table handle hne
  exact ⟨i, b', heq ▸ huse, heq ▸ htype, heq ▸ hobject,
    (congrArg GdiBitmap.pixels (hagree b' hb).1).trans hpix⟩

/-- Every buffer that has not been freed belongs to a bitmap with a handle. -/
theorem creationStep_owned (h : CreationInv s) (hstep : creationStep fuel s op = some s')
    (hid : id < s'.buffers) (hlive : s'.freed id = false) : OwnedBuffer s' id := by
  obtain ⟨⟨s₂, made⟩, hcall, rfl⟩ := Option.map_eq_some_iff.mp hstep
  have hbacked := h.alive.backed
  cases op with
  | createDc answer hdcRef =>
    rcases gdiCreateCompatibleDc_cases hcall with rfl | ⟨s₁, p, dc, halloc, -, -, hmade⟩
    · exact h.owned id hid hlive
    · exact owned_newDc h halloc hmade hid hlive
  | createDisplayDc answer display =>
    rcases gdiCreateDisplayDc_cases hcall with rfl | ⟨s₁, p, dc, halloc, -, hmade⟩
    · exact h.owned id hid hlive
    · exact owned_newDc h halloc hmade hid hlive
  | createObject kind answer =>
    rcases createObject_cases hbacked.nextFree hcall with
      rfl | ⟨a, pool, -, -, ⟨-, rfl⟩ | ⟨i, -, hfree, -, -, hentries, rfl⟩⟩
    · exact h.owned id hid hlive
    · exact (h.owned id hid hlive).mono hbacked (fun _ _ _ => rfl) fun _ _ => rfl
    · exact (h.owned id hid hlive).mono hbacked
        (fun j huse _ => entries_newHandle hentries hfree huse) fun _ _ => rfl
  | createBitmap heap answer width height planes bpp =>
    rcases gdiCreateBitmap_cases hbacked.nextFree hcall with
      rfl | ⟨b, bitmaps, hunused, hagree, -, hcases⟩
    · exact h.owned id hid hlive
    · have hold : ∀ b', s.bitmaps.inUse b' = true →
          (bitmaps.object b').pixels = (s.bitmaps.object b').pixels := by
        intro b' hused
        have hne : b' ≠ b := by
          rintro rfl
          rw [hunused] at hused
          cases hused
        exact congrArg GdiBitmap.pixels (hagree b' hne).1
      rcases hcases with ⟨-, rfl⟩ | ⟨i, -, hfree, -, -, hpixels, hentries, rfl⟩
      · exact (h.owned id hid hlive).mono hbacked (fun _ _ _ => rfl) hold
      · by_cases hlast : id = s.buffers
        · have hentry := congrFun hentries i
          rw [Function.update_self] at hentry
          refine ⟨i, b, ?_, ?_, ?_, hlast ▸ hpixels⟩
          all_goals
            dsimp only
            rw [hentry]
        · have hlt : id < s.buffers + 1 := hid
          exact (h.owned id (by omega) hlive).mono hbacked
            (fun j huse _ => entries_newHandle hentries hfree huse) hold
  | deleteObject handle =>
    rcases ntGdiDeleteObjectApp_cases hcall with
      rfl | ⟨ok, hdelete⟩ | ⟨kind, a, hdel, hfree⟩ | ⟨b, hdel, hfree⟩ | ⟨htype, rfl⟩
    · exact h.owned id hid hlive
    · exact owned_deleteDc h hdelete hid hlive
    · obtain ⟨pool, -, rfl⟩ := Option.map_eq_some_iff.mp hfree
      exact owned_freeHandle h s.dcs _ (hdel.entryType ▸ kind.type_ne_bitmap) hid hlive
    · exact owned_freeBitmap h hdel hfree hid hlive
    · exact owned_freeHandle h s.dcs s.objects htype hid hlive
  | deleteDc hdc =>
    obtain ⟨⟨s₃, ok⟩, hdelete, heq⟩ := Option.map_eq_some_iff.mp hcall
    obtain ⟨rfl, -⟩ := Prod.mk.inj heq
    exact owned_deleteDc h hdelete hid hlive

/-- The table after a call: the same, with a new handle, or without one. -/
theorem creationStep_table (hbacked : Backed s) (hstep : creationStep fuel s op = some s') :
    s'.table = s.table ∨
      (∃ ptr type, s'.table = (gdiAllocHandle s.table (some ptr) type).1) ∨
      ∃ handle, s'.table = (gdiFreeHandle s.table handle).1 := by
  obtain ⟨⟨s₂, made⟩, hcall, rfl⟩ := Option.map_eq_some_iff.mp hstep
  have hnew : ∀ {s₁ : GdiState} {answer p dc}, gdiAllocDc s answer = some (s₁, p) →
      newDc s₁ p dc = some (s₂, made) → s₂.table = s.table ∨
        ∃ ptr type, s₂.table = (gdiAllocHandle s.table (some ptr) type).1 := by
    intro s₁ answer p dc halloc hmade
    obtain ⟨-, rfl⟩ := gdiAllocDc_spec halloc
    rcases newDc_cases (s := s.setDc p { inUse := true }) hbacked.nextFree hmade with
      ⟨dcs, rfl, -⟩ | ⟨i, -, -, -, -, rfl⟩
    · exact .inl rfl
    · exact .inr ⟨_, _, rfl⟩
  have hdeleted : ∀ {hdc ok}, gdiDeleteDc fuel s hdc = some (s₂, ok) → s₂.table = s.table ∨
      ∃ handle, s₂.table = (gdiFreeHandle s.table handle).1 := by
    intro hdc ok hdelete
    rcases gdiDeleteDc_cases hdelete with ⟨-, rfl⟩ | ⟨p, dcs, -, rfl, -⟩
    · exact .inl rfl
    · exact .inr ⟨_, rfl⟩
  cases op with
  | createDc answer hdcRef =>
    rcases gdiCreateCompatibleDc_cases hcall with rfl | ⟨s₁, p, dc, halloc, -, -, hmade⟩
    · exact .inl rfl
    · exact (hnew halloc hmade).imp_right .inl
  | createDisplayDc answer display =>
    rcases gdiCreateDisplayDc_cases hcall with rfl | ⟨s₁, p, dc, halloc, -, hmade⟩
    · exact .inl rfl
    · exact (hnew halloc hmade).imp_right .inl
  | createObject kind answer =>
    rcases createObject_cases hbacked.nextFree hcall with
      rfl | ⟨a, pool, -, -, ⟨-, rfl⟩ | ⟨i, -, -, -, -, -, rfl⟩⟩
    · exact .inl rfl
    · exact .inl rfl
    · exact .inr (.inl ⟨_, _, rfl⟩)
  | createBitmap heap answer width height planes bpp =>
    rcases gdiCreateBitmap_cases hbacked.nextFree hcall with
      rfl | ⟨b, bitmaps, -, -, -, ⟨-, rfl⟩ | ⟨i, -, -, -, -, -, -, rfl⟩⟩
    · exact .inl rfl
    · exact .inl rfl
    · exact .inr (.inl ⟨_, _, rfl⟩)
  | deleteObject handle =>
    rcases ntGdiDeleteObjectApp_cases hcall with
      rfl | ⟨ok, hdelete⟩ | ⟨kind, a, -, hfree⟩ | ⟨b, -, hfree⟩ | ⟨-, rfl⟩
    · exact .inl rfl
    · exact (hdeleted hdelete).imp_right .inr
    · obtain ⟨pool, -, rfl⟩ := Option.map_eq_some_iff.mp hfree
      exact .inr (.inr ⟨_, rfl⟩)
    · obtain ⟨bitmaps, freed, rfl, -⟩ := gdiFreeBitmap_spec hfree
      exact .inr (.inr ⟨_, rfl⟩)
    · exact .inr (.inr ⟨_, rfl⟩)
  | deleteDc hdc =>
    obtain ⟨⟨s₃, ok⟩, hdelete, heq⟩ := Option.map_eq_some_iff.mp hcall
    obtain ⟨rfl, -⟩ := Prod.mk.inj heq
    exact (hdeleted hdelete).imp_right .inr

/-- A call keeps the invariant. -/
theorem CreationInv.step (h : CreationInv s) (hstep : creationStep fuel s op = some s') :
    CreationInv s' := by
  have hok : DeletesUnselected s op.toSelection := by
    cases op with
    | deleteObject handle => exact deletesUnselected h.plain handle
    | _ => exact trivial
  refine ⟨h.alive.step hok ((selectionStep_toSelection op).trans hstep), creationStep_plain h hstep,
    ?_, fun id => creationStep_owned h hstep⟩
  intro j hj
  rcases creationStep_table h.alive.backed hstep with heq | ⟨ptr, type, heq⟩ | ⟨handle, heq⟩
  · rw [heq]
    exact h.beyond j hj
  · rw [heq]
    exact gdiAllocHandle_beyond h.alive.backed.nextFree h.beyond _ _ hj
  · rw [heq]
    exact gdiFreeHandle_inUse _ _ (h.beyond j hj)

theorem creationInv_init : CreationInv gdiInit := by
  refine ⟨aliveInv_init, fun p => ?_, ?_, fun id hid => absurd hid (Nat.not_lt_zero id)⟩
  · refine ⟨?_, rfl, rfl⟩
    rintro kind a ⟨r, hr, -⟩
    cases kind <;> cases hr
  · intro j hj
    by_contra huse
    have hzero := gdiInit_entries j (Bool.not_eq_false _ |>.mp huse)
    unfold gdiMaxHandles at hj
    omega

end Invariant

end Wbox.Gdi
