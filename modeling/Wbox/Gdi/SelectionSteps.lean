import Wbox.Gdi.Selection

/-!
# What selecting, saving and deleting change

One lemma for each operation on contexts and objects: which fields of the state it replaces, and by
what.
-/

namespace Wbox.Gdi

open Wbox.Lib

variable {s s' : GdiState} {p q a b i fuel : Nat} {answer : Option Nat} {kind : GdiKind}
  {hdc hobject hbitmap made : UInt32} {dc : DcSelection}

theorem GdiKind.type_ne_dc (kind : GdiKind) : kind.type ≠ gdiObjDc := by
  cases kind <;> decide

theorem GdiKind.type_ne_bitmap (kind : GdiKind) : kind.type ≠ gdiObjBitmap := by
  cases kind <;> decide

theorem GdiKind.type_inj {kind kind' : GdiKind} (h : kind.type = kind'.type) : kind = kind' := by
  revert h
  cases kind <;> cases kind' <;> decide

/-- The context at an address was marked as free; the rest of it is as it was. -/
def DcSelection.unused (dc : DcSelection) : DcSelection := { dc with inUse := false }

/-- A context that has at most been marked as free. -/
def DcSelection.SameContents (dc' dc : DcSelection) : Prop := dc' = dc ∨ dc' = dc.unused

theorem DcSelection.SameContents.trans {dc dc' dc'' : DcSelection} (h : dc''.SameContents dc')
    (h' : dc'.SameContents dc) : dc''.SameContents dc := by
  rcases h with rfl | rfl
  · exact h'
  · rcases h' with rfl | rfl
    · exact .inr rfl
    · exact .inr rfl

/-- A context that a handle denotes has an entry of the table. -/
structure LiveDc (t : GdiHandleTable) (i p : Nat) : Prop where
  inUse : (t.entries i).inUse = true
  type : (t.entries i).type = gdiObjDc
  object : (t.entries i).object = some (.object p)

theorem getDc_live (h : s.getDc hdc = some p) : LiveDc s.table (gdiHandleIndex hdc) p := by
  unfold GdiState.getDc at h
  split at h
  · next heq =>
    obtain rfl := Option.some.inj h
    obtain ⟨-, huse, htype, hobject⟩ := gdiGetObject_object heq
    exact ⟨huse, htype, hobject⟩
  · cases h

/-- Only the first entry is in use at the start. -/
theorem gdiInit_entries (i : Nat) (huse : (gdiInit.table.entries i).inUse = true) : i = 0 := by
  by_contra hi
  have hfree : (gdiInit.table.entries i).inUse = false := by
    show (Function.update (fun _ => ({} : GdiHandleEntry)) 0 _ i).inUse = false
    rw [Function.update_of_ne hi]
  rw [hfree] at huse
  cases huse

/-- A new handle makes only a new context live. -/
theorem LiveDc.of_newHandle {ptr : GdiPtr} {type : UInt8} {reuse : UInt16}
    (hentries : (gdiAllocHandle s.table (some ptr) type).1.entries =
      Function.update s.table.entries a
        { object := some ptr, type, reuseCount := reuse, inUse := true })
    (h : LiveDc (gdiAllocHandle s.table (some ptr) type).1 i p) :
    i = a ∧ type = gdiObjDc ∧ ptr = .object p ∨ LiveDc s.table i p := by
  obtain ⟨huse, htype, hobject⟩ := h
  rw [hentries] at huse htype hobject
  by_cases hi : i = a
  · rw [hi, Function.update_self] at htype hobject
    exact .inl ⟨hi, htype, Option.some.inj hobject⟩
  · rw [Function.update_of_ne hi] at huse htype hobject
    exact .inr ⟨huse, htype, hobject⟩

/-- A context whose handle is freed was live. -/
theorem LiveDc.of_freeHandle
    (h : LiveDc (gdiFreeHandle s.table hdc).1 i p) : LiveDc s.table i p := by
  obtain ⟨huse, htype, hobject⟩ := h
  rcases gdiFreeHandle_cases s.table hdc with heq | ⟨-, -, -, hentries, -⟩
  · rw [heq] at huse htype hobject
    exact ⟨huse, htype, hobject⟩
  · rw [hentries] at huse htype hobject
    by_cases hsame : i = gdiHandleIndex hdc
    · rw [hsame, Function.update_self] at huse
      cases huse
    · rw [Function.update_of_ne hsame] at huse htype hobject
      exact ⟨huse, htype, hobject⟩

theorem gdiAllocDc_spec (h : gdiAllocDc s answer = some (s', p)) :
    s.dcs.inUse p = false ∧ s' = s.setDc p { inUse := true } := by
  obtain ⟨⟨dcs, p'⟩, halloc, heq⟩ := Option.map_eq_some_iff.mp h
  obtain ⟨rfl, rfl⟩ := Prod.mk.inj heq
  obtain ⟨hfree, rfl⟩ := Pool.alloc_spec halloc
  exact ⟨hfree, rfl⟩

theorem gdiFreeDc_spec (h : gdiFreeDc s p = some s') :
    ∃ dcs, s' = { s with dcs } ∧
      dcs.object = Function.update s.dcs.object p (s.dcs.object p).unused := by
  obtain ⟨dcs, hfree, rfl⟩ := Option.map_eq_some_iff.mp h
  exact ⟨dcs, rfl, (Pool.free_spec hfree).1⟩

/-- Freeing a context leaves the contents of all of them. -/
theorem gdiFreeDc_contents (h : gdiFreeDc s p = some s') :
    ∃ dcs, s' = { s with dcs } ∧ ∀ q, (dcs.object q).SameContents (s.dcs.object q) := by
  obtain ⟨dcs, rfl, hdcs⟩ := gdiFreeDc_spec h
  refine ⟨dcs, rfl, ?_⟩
  intro q
  rw [hdcs]
  by_cases hq : q = p
  · rw [hq, Function.update_self]
    exact .inr rfl
  · rw [Function.update_of_ne hq]
    exact .inl rfl

/-- A new context has a new handle, or there is none and it is free again. -/
theorem newDc_cases (ht : s.table.nextFree ≤ gdiMaxHandles)
    (h : newDc s p dc = some (s', made)) :
    (∃ dcs, s' = { s with dcs } ∧ dcs.object = Function.update s.dcs.object p dc.unused) ∨
      ∃ i, i < gdiMaxHandles ∧ (s.table.entries i).inUse = false ∧
        (gdiAllocHandle s.table (some (.object p)) gdiObjDc).1.entries =
          Function.update s.table.entries i
            { object := some (.object p), type := gdiObjDc
              reuseCount := (s.table.entries i).reuseCount + 1, inUse := true } ∧
        made = gdiMakeHandle i gdiObjDc ((s.table.entries i).reuseCount + 1) ∧
        s' = { s with table := (gdiAllocHandle s.table (some (.object p)) gdiObjDc).1 }.setDc p
          { dc with handle := made } := by
  unfold newDc at h
  dsimp only at h
  rcases gdiAllocHandle_cases s.table (some (.object p)) gdiObjDc with
    ⟨-, heq⟩ | ⟨i, hslot, hentries, hmade⟩
  · rw [heq, if_pos rfl] at h
    obtain ⟨s₁, hfree, heq⟩ := Option.map_eq_some_iff.mp h
    obtain ⟨rfl, -⟩ := Prod.mk.inj heq
    obtain ⟨dcs, rfl, hdcs⟩ := gdiFreeDc_spec hfree
    refine .inl ⟨dcs, rfl, ?_⟩
    rw [hdcs]
    simp [GdiState.setDc]
  · have hi := freeSlot_lt ht hslot
    rw [hmade, if_neg (gdiMakeHandle_ne_zero hi (by decide))] at h
    obtain ⟨rfl, rfl⟩ := Prod.mk.inj (Option.some.inj h)
    exact .inr ⟨i, hi, freeSlot_free hslot, hentries, rfl, rfl⟩

/-- Selecting a brush, a pen or a font stores a pointer to it in the context. -/
theorem selectObject_cases {prev : DcSelection → UInt32}
    {put : Ref GdiPtr → UInt32 → DcSelection → DcSelection} {hobject : UInt32}
    (h : selectObject kind prev put s hdc hobject = some (s', made)) :
    s' = s ∨ ∃ p ptr, s.getDc hdc = some p ∧ gdiGetObject s.table hobject kind.type = some ptr ∧
      s' = s.setDc p (put (s.refTo kind ptr) hobject (s.dcs.object p)) := by
  unfold selectObject at h
  split at h
  · exact .inl (Prod.mk.inj (Option.some.inj h)).1.symm
  · next p hp =>
    split at h
    · exact .inl (Prod.mk.inj (Option.some.inj h)).1.symm
    · next ptr hptr =>
      obtain ⟨dc, hread, heq⟩ := Option.bind_eq_some_iff.mp h
      obtain rfl := Pool.read_eq hread
      exact .inr ⟨p, ptr, hp, hptr, (Prod.mk.inj (Option.some.inj heq)).1.symm⟩

/-- The bitmap that a context has selected. -/
def DcSelection.bitmapAddr (dc : DcSelection) : Option Nat := dc.bitmap.map Ref.target

/-- The bitmap that a context had is not selected any more; no other one changes. -/
theorem deselectBitmap_spec (h : deselectBitmap s dc.bitmap = some s') :
    ∃ bitmaps, s' = { s with bitmaps } ∧ bitmaps.frees = s.bitmaps.frees ∧
      ∀ b, bitmaps.object b = { s.bitmaps.object b with
        hdc := if dc.bitmapAddr = some b then 0 else (s.bitmaps.object b).hdc } := by
  unfold DcSelection.bitmapAddr
  cases hbitmap : dc.bitmap with
  | none =>
    rw [hbitmap] at h
    obtain rfl := Option.some.inj h
    exact ⟨s.bitmaps, rfl, rfl, fun b => rfl⟩
  | some r =>
    rw [hbitmap] at h
    obtain ⟨bmp, hread, rfl⟩ := Option.map_eq_some_iff.mp h
    obtain rfl := Pool.read_eq hread
    refine ⟨_, rfl, rfl, ?_⟩
    intro b
    by_cases hb : r.target = b
    · subst hb
      simp
    · simp [hb, Function.update_of_ne (Ne.symm hb)]

/-- Selecting a bitmap stores a pointer to it in the context, and the handle of the context in the
bitmap, which must not be selected under another handle. The bitmap that the context had is not
selected any more. -/
theorem gdiSelectBitmap_cases (h : gdiSelectBitmap s hdc hbitmap = some (s', made)) :
    s' = s ∨ ∃ p b bitmaps, s.getDc hdc = some p ∧ s.getBitmap hbitmap = some b ∧
      (s.dcs.object p).dcType = dctypeMemory ∧
      ((s.bitmaps.object b).hdc = 0 ∨ (s.bitmaps.object b).hdc = hdc) ∧
      bitmaps.frees = s.bitmaps.frees ∧
      (∀ b', bitmaps.object b' = { s.bitmaps.object b' with
        hdc := if b' = b then hdc
          else if (s.dcs.object p).bitmapAddr = some b' then 0
          else (s.bitmaps.object b').hdc }) ∧
      s' = { s.setDc p ((s.dcs.object p).withBitmap (s.refToBitmap b) hbitmap
        (s.bitmaps.object b)) with bitmaps } := by
  unfold gdiSelectBitmap at h
  split at h
  · exact .inl (Prod.mk.inj (Option.some.inj h)).1.symm
  · next p hp =>
    obtain ⟨dc, hread, h⟩ := Option.bind_eq_some_iff.mp h
    obtain rfl := Pool.read_eq hread
    split at h
    · exact .inl (Prod.mk.inj (Option.some.inj h)).1.symm
    · next htype =>
      split at h
      · exact .inl (Prod.mk.inj (Option.some.inj h)).1.symm
      · next b hb =>
        obtain ⟨bmp, hread, h⟩ := Option.bind_eq_some_iff.mp h
        obtain rfl := Pool.read_eq hread
        split at h
        · exact .inl (Prod.mk.inj (Option.some.inj h)).1.symm
        · next hhdc =>
          obtain ⟨s₁, hdeselect, h⟩ := Option.bind_eq_some_iff.mp h
          obtain ⟨bitmaps, rfl, hfrees, hbitmaps⟩ := deselectBitmap_spec hdeselect
          have hrefs : GdiState.refToBitmap { s with bitmaps } b = s.refToBitmap b :=
            congrArg (Ref.mk b) (congrFun hfrees b)
          rw [hrefs] at h
          refine .inr ⟨p, b, bitmaps.set b { bitmaps.object b with hdc }, hp, hb,
            not_not.mp htype, ?_, hfrees, ?_, (Prod.mk.inj (Option.some.inj h)).1.symm⟩
          · by_cases hzero : (s.bitmaps.object b).hdc = 0
            · exact .inl hzero
            · exact .inr (not_not.mp fun hne => hhdc ⟨hzero, hne⟩)
          · intro b'
            by_cases hsame : b' = b
            · rw [hsame, Pool.set_object, Function.update_self, hbitmaps, if_pos rfl]
            · rw [Pool.set_object, Function.update_of_ne hsame, hbitmaps, if_neg hsame]

/-- Saving a context puts a copy of it at the head of its chain. -/
theorem gdiSaveDc_cases {level : Int} (h : gdiSaveDc s answer hdc = some (s', level)) :
    s' = s ∧ level = 0 ∨
      ∃ p q s₁, s.getDc hdc = some p ∧ gdiAllocDc s answer = some (s₁, q) ∧
        s' = (s₁.setDc q (s₁.dcs.object p)).setDc p
          { (s₁.setDc q (s₁.dcs.object p)).dcs.object p with
            savedDc := some q
            saveLevel := ((s₁.setDc q (s₁.dcs.object p)).dcs.object p).saveLevel + 1 } ∧
        level = ((s₁.setDc q (s₁.dcs.object p)).dcs.object p).saveLevel + 1 := by
  unfold gdiSaveDc at h
  split at h
  · obtain ⟨hs, hlevel⟩ := Prod.mk.inj (Option.some.inj h)
    exact .inl ⟨hs.symm, hlevel.symm⟩
  · next p hp =>
    split at h
    · obtain ⟨hs, hlevel⟩ := Prod.mk.inj (Option.some.inj h)
      exact .inl ⟨hs.symm, hlevel.symm⟩
    · next s₁ q halloc =>
      obtain ⟨dc, hread, h⟩ := Option.bind_eq_some_iff.mp h
      obtain rfl := Pool.read_eq hread
      dsimp only at h
      split at h
      · cases h
      · obtain ⟨hs, hlevel⟩ := Prod.mk.inj (Option.some.inj h)
        exact .inr ⟨p, q, s₁, hp, halloc, hs.symm, hlevel.symm⟩

/-- Freeing saved states leaves the contents of all contexts. -/
theorem freeSaved_spec {head : Option Nat} (h : freeSaved fuel s head = some s') :
    ∃ dcs, s' = { s with dcs } ∧ ∀ q, (dcs.object q).SameContents (s.dcs.object q) := by
  induction fuel, s, head using freeSaved.induct with
  | case1 fuel s =>
    unfold freeSaved at h
    obtain rfl := Option.some.inj h
    exact ⟨s.dcs, rfl, fun q => .inl rfl⟩
  | case2 s q => cases h
  | case3 fuel s saved ih =>
    obtain ⟨dc, -, h⟩ := Option.bind_eq_some_iff.mp h
    obtain ⟨s₁, hfree, h⟩ := Option.bind_eq_some_iff.mp h
    obtain ⟨dcs, rfl, hdcs⟩ := gdiFreeDc_contents hfree
    obtain ⟨dcs', rfl, hdcs'⟩ := ih dc _ h
    exact ⟨dcs', rfl, fun q => (hdcs' q).trans (hdcs q)⟩

/-- Deleting a context frees its handle; the contents of all contexts are left. -/
theorem gdiDeleteDc_cases {ok : Bool} (h : gdiDeleteDc fuel s hdc = some (s', ok)) :
    s.getDc hdc = none ∧ s' = s ∨ ∃ p dcs, s.getDc hdc = some p ∧
      s' = { s with table := (gdiFreeHandle s.table hdc).1, dcs } ∧
      ∀ q, (dcs.object q).SameContents (s.dcs.object q) := by
  unfold gdiDeleteDc at h
  split at h
  · next hp => exact .inl ⟨hp, (Prod.mk.inj (Option.some.inj h)).1.symm⟩
  · next p hp =>
    obtain ⟨dc, -, h⟩ := Option.bind_eq_some_iff.mp h
    obtain ⟨s₁, hsaved, h⟩ := Option.bind_eq_some_iff.mp h
    obtain ⟨s₂, hfree, h⟩ := Option.bind_eq_some_iff.mp h
    obtain ⟨rfl, -⟩ := Prod.mk.inj (Option.some.inj h)
    obtain ⟨dcs, rfl, hdcs⟩ := freeSaved_spec hsaved
    obtain ⟨dcs', rfl, hdcs'⟩ := gdiFreeDc_contents hfree
    exact .inr ⟨p, dcs', hp, rfl, fun q => (hdcs' q).trans (hdcs q)⟩

/-- What every new context has: stock objects, no bitmap and no saved states. -/
structure NewDc (dc : DcSelection) : Prop where
  brush : dc.brush = some { target := .stock 0, frees := 0 }
  pen : dc.pen = some { target := .stock 1, frees := 0 }
  font : dc.font = some { target := .stock 3, frees := 0 }
  bitmap : dc.bitmap = none
  pixels : ∀ id, dc.pixels ≠ some (.buffer id)
  saveLevel : dc.saveLevel = 0
  savedDc : dc.savedDc = none
  inUse : dc.inUse = true

theorem gdiCreateDisplayDc_cases {display : Option Display}
    (h : gdiCreateDisplayDc s answer display = some (s', made)) :
    s' = s ∨ ∃ s₁ p dc, gdiAllocDc s answer = some (s₁, p) ∧ NewDc dc ∧
      newDc s₁ p dc = some (s', made) := by
  unfold gdiCreateDisplayDc at h
  split at h
  · exact .inl (Prod.mk.inj (Option.some.inj h)).1.symm
  · next s₁ p halloc =>
    refine .inr ⟨s₁, p, _, halloc, ?_, h⟩
    cases display with
    | none => exact ⟨rfl, rfl, rfl, rfl, fun _ => nofun, rfl, rfl, rfl⟩
    | some d => exact ⟨rfl, rfl, rfl, rfl, fun _ => nofun, rfl, rfl, rfl⟩

theorem gdiCreateCompatibleDc_cases {hdcRef : UInt32}
    (h : gdiCreateCompatibleDc s answer hdcRef = some (s', made)) :
    s' = s ∨ ∃ s₁ p dc, gdiAllocDc s answer = some (s₁, p) ∧ NewDc dc ∧
      dc.dcType = dctypeMemory ∧ newDc s₁ p dc = some (s', made) := by
  unfold gdiCreateCompatibleDc at h
  split at h
  · exact .inl (Prod.mk.inj (Option.some.inj h)).1.symm
  · next s₁ p halloc =>
    obtain ⟨bpp, -, h⟩ := Option.bind_eq_some_iff.mp h
    refine .inr ⟨s₁, p, _, halloc, ?_, ?_, h⟩
    · exact ⟨rfl, rfl, rfl, rfl, fun _ => nofun, rfl, rfl, rfl⟩
    · rfl

/-- A new object has a new handle, or there is none and it is free again. -/
theorem createObject_cases (ht : s.table.nextFree ≤ gdiMaxHandles)
    (h : createObject kind s answer = some (s', made)) :
    s' = s ∨ ∃ a pool, (s.objects kind).inUse a = false ∧ (s.objects kind).AgreeOff pool a ∧
      (pool.inUse a = false ∧ s' = s.setObjects kind pool ∨
        ∃ i, i < gdiMaxHandles ∧ (s.table.entries i).inUse = false ∧ made ≠ 0 ∧
          pool.inUse a = true ∧
          (gdiAllocHandle s.table (some (.object a)) kind.type).1.entries =
            Function.update s.table.entries i
              { object := some (.object a), type := kind.type
                reuseCount := (s.table.entries i).reuseCount + 1, inUse := true } ∧
          s' = { s with table :=
            (gdiAllocHandle s.table (some (.object a)) kind.type).1 }.setObjects kind pool) := by
  unfold createObject at h
  split at h
  · exact .inl (Prod.mk.inj (Option.some.inj h)).1.symm
  · next s₁ a halloc =>
    obtain ⟨⟨pool, a'⟩, hpool, heq⟩ := Option.map_eq_some_iff.mp halloc
    obtain ⟨rfl, rfl⟩ := Prod.mk.inj heq
    have hagree := Pool.alloc_agreeOff hpool
    have hself : ∀ t, GdiState.objects { s.setObjects kind pool with table := t } kind = pool :=
      fun t => Function.update_self _ _ _
    have htwice : ∀ t (pool' : Pool GdiObject),
        { s.setObjects kind pool with table := t }.setObjects kind pool' =
          { s with table := t }.setObjects kind pool' :=
      fun t pool' => congrArg (fun o => { s with table := t, objects := o })
        (Function.update_idem _ _ _)
    dsimp only at h
    rcases gdiAllocHandle_cases s.table (some (.object a')) kind.type with
      ⟨-, hfull⟩ | ⟨i, hslot, hentries, hmade⟩
    · have hfail : gdiAllocHandle (s.setObjects kind pool).table (some (.object a')) kind.type =
        (s.table, 0) := hfull
      rw [hfail, if_pos rfl] at h
      obtain ⟨s₂, hfree, heq⟩ := Option.map_eq_some_iff.mp h
      obtain ⟨rfl, -⟩ := Prod.mk.inj heq
      obtain ⟨pool', hpool', rfl⟩ := Option.map_eq_some_iff.mp hfree
      rw [hself] at hpool'
      refine .inr ⟨a', pool', (Pool.alloc_spec hpool).1, ?_,
        .inl ⟨Pool.free_inUse hpool', htwice s.table pool'⟩⟩
      intro b hb
      obtain ⟨hobject, hfrees⟩ := hagree b hb
      obtain ⟨hobject', hfrees'⟩ := Pool.free_agreeOff hpool' b hb
      exact ⟨hobject'.trans hobject, hfrees'.trans hfrees⟩
    · have hi := freeSlot_lt ht hslot
      have hne : (gdiAllocHandle (s.setObjects kind pool).table (some (.object a')) kind.type).2
          ≠ 0 := by
        show (gdiAllocHandle s.table (some (.object a')) kind.type).2 ≠ 0
        rw [hmade]
        apply gdiMakeHandle_ne_zero hi
        cases kind <;> decide
      rw [if_neg hne, hself] at h
      obtain ⟨rfl, rfl⟩ := Prod.mk.inj (Option.some.inj h)
      refine .inr ⟨a', _, (Pool.alloc_spec hpool).1, hagree.set _,
        .inr ⟨i, hi, freeSlot_free hslot, hne, ?_, hentries, htwice _ _⟩⟩
      unfold Pool.inUse
      rw [Pool.set_object, Function.update_self]
      rfl

theorem newBitmap_spec {heap : Heap} {buf : Nat} {width height : Int32} {planes bpp : UInt32}
    {bmp : GdiBitmap} (h : newBitmap heap buf width height planes bpp = some bmp) :
    bmp.pixels = some buf ∧ bmp.hdc = 0 := by
  unfold newBitmap at h
  dsimp only at h
  split at h
  · obtain rfl := Option.some.inj h
    exact ⟨rfl, rfl⟩
  · cases h

theorem gdiAllocBitmap_spec (h : gdiAllocBitmap s answer = some (s', b)) :
    s.bitmaps.inUse b = false ∧ s' = s.setBitmap b { inUse := true } := by
  obtain ⟨⟨bitmaps, b'⟩, halloc, heq⟩ := Option.map_eq_some_iff.mp h
  obtain ⟨rfl, rfl⟩ := Prod.mk.inj heq
  obtain ⟨hfree, rfl⟩ := Pool.alloc_spec halloc
  exact ⟨hfree, rfl⟩

/-- A bitmap that is freed takes its pixels with it. -/
theorem gdiFreeBitmap_spec (h : gdiFreeBitmap s b = some s') :
    ∃ bitmaps freed, s' = { s with bitmaps, freed } ∧ s.bitmaps.AgreeOff bitmaps b ∧
      bitmaps.object b = { s.bitmaps.object b with pixels := none, inUse := false } ∧
      bitmaps.frees b = s.bitmaps.frees b + 1 ∧
      freePixels s (s.bitmaps.object b).pixels = some { s with freed } := by
  obtain ⟨bmp, hread, h⟩ := Option.bind_eq_some_iff.mp h
  obtain rfl := Pool.read_eq hread
  obtain ⟨s₁, hpixels, h⟩ := Option.bind_eq_some_iff.mp h
  obtain ⟨bitmaps, hfree, heq⟩ := Option.bind_eq_some_iff.mp h
  obtain rfl := Option.some.inj heq
  have hs₁ : ∃ freed, s₁ = { s with freed } := by
    unfold freePixels at hpixels
    split at hpixels
    · exact ⟨s.freed, (Option.some.inj hpixels).symm⟩
    · split at hpixels
      · cases hpixels
      · exact ⟨_, (Option.some.inj hpixels).symm⟩
  obtain ⟨freed, rfl⟩ := hs₁
  have hagree : s.bitmaps.AgreeOff (s.bitmaps.set b _) b :=
    Pool.AgreeOff.set (fun _ _ => ⟨rfl, rfl⟩) { s.bitmaps.object b with pixels := none }
  obtain ⟨hobject, hfrees⟩ := Pool.free_spec hfree
  refine ⟨bitmaps, freed, rfl, ?_, ?_, ?_, hpixels⟩
  · intro b' hb
    obtain ⟨hobject', hfrees'⟩ := Pool.free_agreeOff hfree b' hb
    exact ⟨hobject'.trans (hagree b' hb).1, hfrees'.trans (hagree b' hb).2⟩
  · rw [hobject, Function.update_self, Pool.set_object, Function.update_self]
    rfl
  · rw [hfrees, Function.update_self]
    rfl

theorem freePixels_some {id : Nat} (h : freePixels s (some id) = some s') :
    s' = { s with freed := Function.update s.freed id true } := by
  simp only [freePixels] at h
  split at h
  · cases h
  · exact (Option.some.inj h).symm

/-- The pixels of a bitmap cannot be freed before it. -/
theorem gdiFreeBitmap_freed {id : Nat} (hpixels : (s.bitmaps.object b).pixels = some id)
    (hfreed : s.freed id = true) : gdiFreeBitmap s b = none := by
  unfold gdiFreeBitmap
  cases hread : s.bitmaps.read b with
  | none => rfl
  | some bmp =>
    obtain rfl := Pool.read_eq hread
    simp [hpixels, freePixels, hfreed]

/-- A new bitmap has pixels of its own and a new handle; without pixels it is free again. Without a
handle its pixels would be freed twice. -/
theorem gdiCreateBitmap_cases {heap : Heap} {width height : Int32} {planes bpp : UInt32}
    (ht : s.table.nextFree ≤ gdiMaxHandles)
    (h : gdiCreateBitmap heap s answer width height planes bpp = some (s', made)) :
    s' = s ∨ ∃ b bitmaps, s.bitmaps.inUse b = false ∧ s.bitmaps.AgreeOff bitmaps b ∧
      (bitmaps.object b).hdc = 0 ∧
      (bitmaps.inUse b = false ∧ s' = { s with bitmaps } ∨
        ∃ i, i < gdiMaxHandles ∧ (s.table.entries i).inUse = false ∧ made ≠ 0 ∧
          bitmaps.inUse b = true ∧ (bitmaps.object b).pixels = some s.buffers ∧
          (gdiAllocHandle s.table (some (.object b)) gdiObjBitmap).1.entries =
            Function.update s.table.entries i
              { object := some (.object b), type := gdiObjBitmap
                reuseCount := (s.table.entries i).reuseCount + 1, inUse := true } ∧
          s' = { s with
            table := (gdiAllocHandle s.table (some (.object b)) gdiObjBitmap).1
            bitmaps
            buffers := s.buffers + 1 }) := by
  unfold gdiCreateBitmap at h
  split at h
  · exact .inl (Prod.mk.inj (Option.some.inj h)).1.symm
  · next s₁ b halloc =>
    obtain ⟨hfree, rfl⟩ := gdiAllocBitmap_spec halloc
    have hagree : ∀ x y, s.bitmaps.AgreeOff ((s.bitmaps.set b x).set b y) b := fun x y =>
      (Pool.AgreeOff.set (fun _ _ => ⟨rfl, rfl⟩) x).set y
    refine .inr ⟨b, ?_⟩
    split at h
    · obtain ⟨s₂, hfreed, heq⟩ := Option.map_eq_some_iff.mp h
      obtain ⟨rfl, -⟩ := Prod.mk.inj heq
      obtain ⟨bitmaps, freed, rfl, hoff, hobject, -, hpixels⟩ := gdiFreeBitmap_spec hfreed
      have hself : ((s.setBitmap b { inUse := true }).setBitmap b
          { bitmapFields width height planes bpp with inUse := true }).bitmaps.object b =
            { bitmapFields width height planes bpp with inUse := true } :=
        Function.update_self _ _ _
      rw [hself] at hobject hpixels
      have hfreed' : freed = s.freed := congrArg GdiState.freed (Option.some.inj hpixels).symm
      subst hfreed'
      refine ⟨bitmaps, hfree, ?_, ?_, .inl ⟨?_, rfl⟩⟩
      · intro b' hb
        obtain ⟨hobject', hfrees'⟩ := hoff b' hb
        exact ⟨hobject'.trans (hagree _ _ b' hb).1, hfrees'.trans (hagree _ _ b' hb).2⟩
      · rw [hobject]
        rfl
      · exact congrArg GdiBitmap.inUse hobject
    · next bmp hbmp =>
      obtain ⟨hpixels, hhdc⟩ := newBitmap_spec hbmp
      rcases gdiAllocHandle_cases s.table (some (.object b)) gdiObjBitmap with
        ⟨-, hfull⟩ | ⟨i, hslot, hentries, hmade⟩
      · have hfail : gdiAllocHandle (s.setBitmap b { inUse := true }).table (some (.object b))
            gdiObjBitmap = (s.table, 0) := hfull
        dsimp only [GdiState.setBitmap] at h hfail
        rw [hfail, if_pos rfl] at h
        obtain ⟨s₂, hfreed, h⟩ := Option.bind_eq_some_iff.mp h
        obtain ⟨s₃, htwice, -⟩ := Option.bind_eq_some_iff.mp h
        rw [hpixels] at hfreed
        obtain rfl := freePixels_some hfreed
        refine absurd (htwice.symm.trans (gdiFreeBitmap_freed (?_ : _ = some s.buffers) ?_)) nofun
        · simp [GdiState.setBitmap]
        · exact Function.update_self _ _ _
      · have hne : (gdiAllocHandle (s.setBitmap b { inUse := true }).table (some (.object b))
            gdiObjBitmap).2 ≠ 0 := by
          show (gdiAllocHandle s.table (some (.object b)) gdiObjBitmap).2 ≠ 0
          rw [hmade]
          exact gdiMakeHandle_ne_zero (freeSlot_lt ht hslot) (by decide)
        dsimp only [GdiState.setBitmap] at h hne
        rw [if_neg hne] at h
        obtain ⟨rfl, rfl⟩ := Prod.mk.inj (Option.some.inj h)
        refine ⟨_, hfree, (hagree _ _).set _, ?_, .inr ⟨i, freeSlot_lt ht hslot,
          freeSlot_free hslot, hne, ?_, ?_, hentries, rfl⟩⟩
        · rw [Pool.set_object, Function.update_self]
          exact hhdc
        · unfold Pool.inUse
          rw [Pool.set_object, Function.update_self]
          rfl
        · rw [Pool.set_object, Function.update_self]
          exact hpixels

/-- Deleting by a handle frees the object of its entry: the handle has the type of the entry. -/
structure Deletes (s : GdiState) (handle : UInt32) (type : UInt8) (a : Nat) : Prop where
  regular : Regular handle
  inUse : (s.table.entries (gdiHandleIndex handle)).inUse = true
  entryType : (s.table.entries (gdiHandleIndex handle)).type = type
  handleType : gdiHandleType handle = type
  object : (s.table.entries (gdiHandleIndex handle)).object = some (.object a)

/-- A context is deleted by a handle of its type. -/
theorem Deletes.of_getDc (h : s.getDc hdc = some p) (htype : gdiHandleType hdc = gdiObjDc) :
    Deletes s hdc gdiObjDc p := by
  have hlive := getDc_live h
  unfold GdiState.getDc at h
  split at h
  · next heq =>
    obtain ⟨hregular, -⟩ := gdiGetObject_object heq
    exact ⟨hregular, hlive.inUse, hlive.type, htype, hlive.object⟩
  · cases h

/-- The handle is freed. -/
theorem Deletes.freeHandle {handle : UInt32} {type : UInt8} (h : Deletes s handle type a) :
    (gdiFreeHandle s.table handle).1.entries = Function.update s.table.entries
        (gdiHandleIndex handle)
        { s.table.entries (gdiHandleIndex handle) with inUse := false, object := none } ∧
      (gdiFreeHandle s.table handle).2 = true := by
  have hstock := Bool.eq_false_iff.mp h.regular.notStock
  have hindex := Nat.not_le.mpr h.regular.index
  have htype := h.entryType.trans h.handleType.symm
  unfold gdiFreeHandle
  simp [h.regular.ne_zero, hstock, hindex, h.inUse, htype]

/-- The entries in use afterwards are the others. -/
theorem Deletes.entries {handle : UInt32} {type : UInt8} (h : Deletes s handle type a)
    (huse : ((gdiFreeHandle s.table handle).1.entries i).inUse = true) :
    i ≠ gdiHandleIndex handle ∧
      (gdiFreeHandle s.table handle).1.entries i = s.table.entries i := by
  rw [h.freeHandle.1] at huse ⊢
  have hne : i ≠ gdiHandleIndex handle := by
    rintro rfl
    rw [Function.update_self] at huse
    cases huse
  exact ⟨hne, Function.update_of_ne hne _ _⟩

/-- Contexts stay live when something else is deleted. -/
theorem Deletes.liveDc {handle : UInt32} {type : UInt8} (h : Deletes s handle type a)
    (htype : type ≠ gdiObjDc) (hlive : LiveDc s.table i p) :
    LiveDc (gdiFreeHandle s.table handle).1 i p := by
  have hne : i ≠ gdiHandleIndex handle := by
    rintro rfl
    exact htype (h.entryType.symm.trans hlive.type)
  have heq : (gdiFreeHandle s.table handle).1.entries i = s.table.entries i := by
    rw [h.freeHandle.1, Function.update_of_ne hne]
  obtain ⟨huse, hdc, hobject⟩ := hlive
  rw [← heq] at huse hdc hobject
  exact ⟨huse, hdc, hobject⟩

theorem gdiGetObjectAny_some {handle : UInt32} {ptr : GdiPtr} {type : UInt8}
    (h : gdiGetObjectAny s.table handle = (some ptr, some type))
    (hstock : gdiHandleIsStock handle = false) :
    (s.table.entries (gdiHandleIndex handle)).inUse = true ∧
      (s.table.entries (gdiHandleIndex handle)).type = type ∧
      (s.table.entries (gdiHandleIndex handle)).object = some ptr := by
  unfold gdiGetObjectAny at h
  dsimp only at h
  split_ifs at h with hzero hstock' hindex huse
  · cases h
  · exact absurd hstock' (Bool.eq_false_iff.mp hstock)
  · cases h
  · cases h
  · obtain ⟨hobject, htype⟩ := Prod.mk.inj h
    exact ⟨by simpa using huse, Option.some.inj htype, hobject⟩

/-- A context is found under its handle. -/
theorem gdiGetObjectAny_dc {handle : UInt32} (h : s.getDc handle = some p) :
    gdiHandleIsStock handle = false ∧
      gdiGetObjectAny s.table handle = (some (.object p), some gdiObjDc) := by
  have hlive := getDc_live h
  unfold GdiState.getDc at h
  split at h
  · next heq =>
    obtain ⟨hregular, -⟩ := gdiGetObject_object heq
    have hstock := Bool.eq_false_iff.mp hregular.notStock
    have hindex := Nat.not_le.mpr hregular.index
    refine ⟨hregular.notStock, ?_⟩
    unfold gdiGetObjectAny
    simp [hregular.ne_zero, hstock, hindex, hlive.inUse, hlive.type, hlive.object]
  · cases h

/-- An object is deleted if its handle is freed; otherwise nothing changes. -/
theorem deleteObject_cases {free : GdiState → Nat → Option GdiState} {handle : UInt32}
    {ptr : GdiPtr} {type : UInt8}
    (htype : (s.table.entries (gdiHandleIndex handle)).type = type)
    (hobject : (s.table.entries (gdiHandleIndex handle)).object = some ptr)
    (h : deleteObject free s handle ptr = some (s', made)) :
    s' = s ∨ ∃ a, Deletes s handle type a ∧
      free { s with table := (gdiFreeHandle s.table handle).1 } a = some s' := by
  unfold deleteObject at h
  dsimp only at h
  rcases gdiFreeHandle_cases s.table handle with heq | ⟨hregular, huse, hsame, -, hdone⟩
  · rw [heq] at h
    exact .inl (Prod.mk.inj (Option.some.inj h)).1.symm
  · rw [hdone, if_pos rfl] at h
    obtain ⟨s₁, hfree, heq⟩ := Option.map_eq_some_iff.mp h
    obtain ⟨rfl, -⟩ := Prod.mk.inj heq
    cases ptr with
    | stock index => cases hfree
    | object a => exact .inr ⟨a, ⟨hregular, huse, htype, hsame.symm.trans htype, hobject⟩, hfree⟩

theorem Deletes.getObjectAny {handle : UInt32} {type : UInt8} (h : Deletes s handle type a) :
    gdiGetObjectAny s.table handle = (some (.object a), some type) := by
  have hstock := Bool.eq_false_iff.mp h.regular.notStock
  have hindex := Nat.not_le.mpr h.regular.index
  unfold gdiGetObjectAny
  simp [h.regular.ne_zero, hstock, hindex, h.inUse, h.entryType, h.object]

/-- `sys_NtGdiDeleteObjectApp` frees an object by a handle of its type. -/
theorem Deletes.object_eq {handle : UInt32} (h : Deletes s handle kind.type a) :
    ntGdiDeleteObjectApp fuel s handle =
      (freeObject kind { s with table := (gdiFreeHandle s.table handle).1 } a).map (·, 1) := by
  have hstock := Bool.eq_false_iff.mp h.regular.notStock
  unfold ntGdiDeleteObjectApp
  simp only [h.getObjectAny, hstock, if_false]
  have hdelete : ∀ free, deleteObject free s handle (.object a) =
      (free { s with table := (gdiFreeHandle s.table handle).1 } a).map (·, 1) := by
    intro free
    unfold deleteObject
    simp only [h.freeHandle.2, if_true]
    rfl
  cases kind <;> exact hdelete _

/-- The same for a bitmap. -/
theorem Deletes.bitmap_eq {handle : UInt32} (h : Deletes s handle gdiObjBitmap a) :
    ntGdiDeleteObjectApp fuel s handle =
      (gdiFreeBitmap { s with table := (gdiFreeHandle s.table handle).1 } a).map (·, 1) := by
  have hstock := Bool.eq_false_iff.mp h.regular.notStock
  unfold ntGdiDeleteObjectApp deleteObject
  simp only [h.getObjectAny, hstock, if_false, h.freeHandle.2, if_true]
  rfl

/-- `sys_NtGdiDeleteObjectApp` deletes a context, an object or a bitmap, frees the handle of
anything else, or does nothing. -/
theorem ntGdiDeleteObjectApp_cases {handle : UInt32}
    (h : ntGdiDeleteObjectApp fuel s handle = some (s', made)) :
    s' = s ∨ (∃ ok, gdiDeleteDc fuel s handle = some (s', ok)) ∨
      (∃ kind a, Deletes s handle (GdiKind.type kind) a ∧
        freeObject kind { s with table := (gdiFreeHandle s.table handle).1 } a = some s') ∨
      (∃ b, Deletes s handle gdiObjBitmap b ∧
        gdiFreeBitmap { s with table := (gdiFreeHandle s.table handle).1 } b = some s') ∨
      (s.table.entries (gdiHandleIndex handle)).type ≠ gdiObjBitmap ∧
        s' = { s with table := (gdiFreeHandle s.table handle).1 } := by
  unfold ntGdiDeleteObjectApp at h
  split at h
  · next ptr type hany =>
    split at h
    · exact .inl (Prod.mk.inj (Option.some.inj h)).1.symm
    · next hstock =>
      obtain ⟨-, htype, hobject⟩ := gdiGetObjectAny_some hany (Bool.eq_false_iff.mpr hstock)
      have hkind : ∀ kind : GdiKind, type = kind.type →
          deleteObject (freeObject kind) s handle ptr = some (s', made) →
          s' = s ∨ ∃ a, Deletes s handle kind.type a ∧
            freeObject kind { s with table := (gdiFreeHandle s.table handle).1 } a = some s' :=
        fun kind hsame h => deleteObject_cases (htype.trans hsame) hobject h
      split_ifs at h with hdc hbrush hpen hfont hbitmap hregion
      · obtain ⟨⟨s₁, ok⟩, hdelete, heq⟩ := Option.map_eq_some_iff.mp h
        obtain ⟨rfl, -⟩ := Prod.mk.inj heq
        exact .inr (.inl ⟨ok, hdelete⟩)
      · exact (hkind .brush hbrush h).imp_right fun hdone => .inr (.inl ⟨.brush, hdone⟩)
      · exact (hkind .pen hpen h).imp_right fun hdone => .inr (.inl ⟨.pen, hdone⟩)
      · exact (hkind .font hfont h).imp_right fun hdone => .inr (.inl ⟨.font, hdone⟩)
      · exact (deleteObject_cases (htype.trans hbitmap) hobject h).imp_right
          fun hdone => .inr (.inr (.inl hdone))
      · exact (hkind .region hregion h).imp_right fun hdone => .inr (.inl ⟨.region, hdone⟩)
      all_goals
        exact .inr (.inr (.inr (.inr ⟨fun hsame => hbitmap (htype.symm.trans hsame),
          (Prod.mk.inj (Option.some.inj h)).1.symm⟩)))
  · exact .inl (Prod.mk.inj (Option.some.inj h)).1.symm

end Wbox.Gdi
