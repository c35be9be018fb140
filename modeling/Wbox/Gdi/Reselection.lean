import Wbox.Gdi.SavedStates

/-!
# Selecting the previous object back

`gdi_select_object` returns the handle that the context remembers for the kind of the object
(`src/gdi/gdi_dc.c:213–332`). What a selection changes is described on views of the state; selecting
the remembered handle brings the view back if it denotes what the context has.
-/

namespace Wbox.Gdi

open Wbox.Lib

/-- The objects that a context points to besides its bitmap. -/
inductive Tool where
  | brush
  | pen
  | font
  deriving DecidableEq

namespace Tool

def kind : Tool → GdiKind
  | brush => .brush
  | pen => .pen
  | font => .font

/-- The handle that is remembered. -/
def prev : Tool → DcSelection → UInt32
  | brush => DcSelection.prevBrushHandle
  | pen => DcSelection.prevPenHandle
  | font => DcSelection.prevFontHandle

/-- The pointer to the object. -/
def pointer : Tool → DcSelection → Option GdiPtr
  | brush, dc => dc.brush.map Ref.target
  | pen, dc => dc.pen.map Ref.target
  | font, dc => dc.font.map Ref.target

/-- What `gdi_select_brush`, `gdi_select_pen` and `gdi_select_font` set. -/
def put : Tool → Ref GdiPtr → UInt32 → DcSelection → DcSelection
  | brush, r, h, dc => { dc with brush := some r, prevBrushHandle := h }
  | pen, r, h, dc => { dc with pen := some r, prevPenHandle := h }
  | font, r, h, dc => { dc with font := some r, prevFontHandle := h }

/-- `gdi_select_brush`, `gdi_select_pen` and `gdi_select_font`. -/
def select (t : Tool) : GdiState → UInt32 → UInt32 → Option (GdiState × UInt32) :=
  selectObject t.kind t.prev t.put

end Tool

/-- What can be selected. -/
inductive Selectable where
  | tool (t : Tool) (ptr : GdiPtr)
  | bitmap (b : Nat)
  deriving DecidableEq

/-- The same field of the context. -/
def Selectable.SameKind : Selectable → Selectable → Prop
  | tool t _, tool t' _ => t = t'
  | bitmap _, bitmap _ => True
  | _, _ => False

/-- The pixels with their size and pitch. -/
structure SurfaceView where
  pixels : Option Surface
  width : Int32
  height : Int32
  pitch : Int32
  deriving DecidableEq

/-- What a context points to, its surface, and the `hdc` of every bitmap. -/
@[ext] structure DcView where
  pointer : Tool → Option GdiPtr
  bitmap : Option Nat
  surface : SurfaceView
  hdcs : Nat → UInt32

namespace DcView

/-- An object is selected into the context of a handle; bitmaps have these surfaces. -/
def select (surfaces : Nat → SurfaceView) (hdc : UInt32) (v : DcView) : Selectable → DcView
  | .tool t ptr => { v with pointer := Function.update v.pointer t (some ptr) }
  | .bitmap b =>
    { v with
      bitmap := some b
      surface := surfaces b
      hdcs := fun c => if c = b then hdc else if v.bitmap = some c then 0 else v.hdcs c }

/-- The context has an object. -/
def Has (surfaces : Nat → SurfaceView) (hdc : UInt32) (v : DcView) : Selectable → Prop
  | .tool t ptr => v.pointer t = some ptr
  | .bitmap b => v.bitmap = some b ∧ v.surface = surfaces b ∧ v.hdcs b = hdc

/-- A bitmap that is selected and not the one that the context has is selected nowhere. -/
def Fresh (v : DcView) : Selectable → Prop
  | .tool _ _ => True
  | .bitmap b => v.bitmap ≠ some b → v.hdcs b = 0

variable {surfaces : Nat → SurfaceView} {hdc : UInt32} {v : DcView} {x y : Selectable}

/-- An object that the context has can be selected without a change. -/
theorem select_of_has (h : v.Has surfaces hdc x) : v.select surfaces hdc x = v := by
  cases x with
  | tool t ptr =>
    have hpointer : Function.update v.pointer t (some ptr) = v.pointer := by
      rw [← (show v.pointer t = some ptr from h)]
      exact Function.update_eq_self t v.pointer
    exact DcView.ext hpointer rfl rfl rfl
  | bitmap b =>
    obtain ⟨hbitmap, hsurface, hhdc⟩ := h
    refine DcView.ext rfl hbitmap.symm hsurface.symm ?_
    funext c
    show (if c = b then hdc else if v.bitmap = some c then 0 else v.hdcs c) = v.hdcs c
    by_cases hc : c = b
    · rw [if_pos hc, hc, hhdc]
    · have hother : ¬ v.bitmap = some c := by
        rw [hbitmap]
        exact fun heq => hc (Option.some.inj heq).symm
      rw [if_neg hc, if_neg hother]

/-- After a selection the context has the object. -/
theorem select_has : (v.select surfaces hdc x).Has surfaces hdc x := by
  cases x with
  | tool t ptr => exact Function.update_self t (some ptr) v.pointer
  | bitmap b => exact ⟨rfl, rfl, if_pos rfl⟩

/-- The bitmap that the context has can be selected again after another object. -/
theorem select_hdcs_of_has {b : Nat} (h : v.Has surfaces hdc (.bitmap b)) :
    (v.select surfaces hdc x).hdcs b = 0 ∨ (v.select surfaces hdc x).hdcs b = hdc := by
  cases x with
  | tool t ptr => exact .inr h.2.2
  | bitmap c =>
    by_cases hc : b = c
    · exact .inr (if_pos hc)
    · exact .inl ((if_neg hc).trans (if_pos h.1))

/-- Selecting another object brings the context back exactly if the context had it, and the first
object too where that one is of another kind. -/
theorem select_select_iff : (v.select surfaces hdc x).select surfaces hdc y = v ↔
    v.Has surfaces hdc y ∧ (x.SameKind y ∨ v.Has surfaces hdc x) ∧ v.Fresh x := by
  constructor
  · intro heq
    have hy : v.Has surfaces hdc y := heq ▸ select_has
    cases x with
    | tool t ptr =>
      cases y with
      | tool t' ptr' =>
        refine ⟨hy, ?_, trivial⟩
        by_cases ht : t = t'
        · exact .inl ht
        · have hpointer := congrFun (congrArg DcView.pointer heq) t
          rw [show ((v.select surfaces hdc (.tool t ptr)).select surfaces hdc
            (.tool t' ptr')).pointer t = some ptr by
              simp only [select, Function.update_of_ne ht, Function.update_self]] at hpointer
          exact .inr hpointer.symm
      | bitmap b =>
        have hpointer := congrFun (congrArg DcView.pointer heq) t
        rw [show ((v.select surfaces hdc (.tool t ptr)).select surfaces hdc
          (.bitmap b)).pointer t = some ptr from Function.update_self _ _ _] at hpointer
        exact ⟨hy, .inr hpointer.symm, trivial⟩
    | bitmap b =>
      cases y with
      | tool t ptr =>
        have hbitmap : some b = v.bitmap := congrArg DcView.bitmap heq
        have hsurface : surfaces b = v.surface := congrArg DcView.surface heq
        have hhdcs := congrFun (congrArg DcView.hdcs heq) b
        have hhdc : hdc = v.hdcs b := (if_pos rfl).symm.trans hhdcs
        exact ⟨hy, .inr ⟨hbitmap.symm, hsurface.symm, hhdc.symm⟩,
          fun hne => absurd hbitmap.symm hne⟩
      | bitmap b' =>
        refine ⟨hy, .inl trivial, fun hne => ?_⟩
        have hbb : b ≠ b' := by
          rintro rfl
          exact hne hy.1
        have hhdcs := congrFun (congrArg DcView.hdcs heq) b
        have hzero : ((v.select surfaces hdc (.bitmap b)).select surfaces hdc
            (.bitmap b')).hdcs b = 0 := (if_neg hbb).trans (if_pos rfl)
        exact hhdcs.symm.trans hzero
  · rintro ⟨hy, hkind | hx, hfresh⟩
    · cases x with
      | tool t ptr =>
        cases y with
        | tool t' ptr' =>
          obtain rfl : t = t' := hkind
          have hpointer : Function.update (Function.update v.pointer t (some ptr)) t (some ptr') =
              v.pointer := by
            rw [Function.update_idem, ← (show v.pointer t = some ptr' from hy)]
            exact Function.update_eq_self t v.pointer
          exact DcView.ext hpointer rfl rfl rfl
        | bitmap b => exact hkind.elim
      | bitmap b =>
        cases y with
        | tool t ptr => exact hkind.elim
        | bitmap b' =>
          obtain ⟨hbitmap, hsurface, hhdc⟩ := hy
          refine DcView.ext rfl hbitmap.symm hsurface.symm ?_
          funext c
          show (if c = b' then hdc else if some b = some c then 0 else
            if c = b then hdc else if v.bitmap = some c then 0 else v.hdcs c) = v.hdcs c
          by_cases hc' : c = b'
          · rw [if_pos hc', hc', hhdc]
          · have hother : ¬ v.bitmap = some c := by
              rw [hbitmap]
              exact fun heq => hc' (Option.some.inj heq).symm
            rw [if_neg hc', if_neg hother]
            by_cases hc : c = b
            · subst hc
              rw [if_pos rfl]
              exact (hfresh hother).symm
            · rw [if_neg fun heq => hc (Option.some.inj heq).symm, if_neg hc]
    · rw [select_of_has hx, select_of_has hy]

end DcView

/-- The handle that a context remembers for the kind of an object. -/
def DcSelection.remembered (dc : DcSelection) : Selectable → UInt32
  | .tool t _ => t.prev dc
  | .bitmap _ => dc.prevBitmapHandle

namespace GdiState

/-- What `gdi_select_object` finds under a handle, if it can be selected. -/
def denotes (s : GdiState) (hobject : UInt32) : Option Selectable :=
  match gdiGetObjectAny s.table hobject with
  | (some _, some type) =>
      if type = gdiObjBrush then (gdiGetObject s.table hobject gdiObjBrush).map (.tool .brush)
      else if type = gdiObjPen then (gdiGetObject s.table hobject gdiObjPen).map (.tool .pen)
      else if type = gdiObjFont then (gdiGetObject s.table hobject gdiObjFont).map (.tool .font)
      else if type = gdiObjBitmap then (s.getBitmap hobject).map .bitmap
      else none
  | _ => none

/-- The view of a context. -/
def view (s : GdiState) (p : Nat) : DcView where
  pointer t := t.pointer (s.dcs.object p)
  bitmap := (s.dcs.object p).bitmapAddr
  surface :=
    { pixels := (s.dcs.object p).pixels
      width := (s.dcs.object p).width
      height := (s.dcs.object p).height
      pitch := (s.dcs.object p).pitch }
  hdcs b := (s.bitmaps.object b).hdc

/-- The surface that a context gets from a bitmap. -/
def surfaces (s : GdiState) (b : Nat) : SurfaceView where
  pixels := (s.bitmaps.object b).pixels.map .buffer
  width := (s.bitmaps.object b).width
  height := (s.bitmaps.object b).height
  pitch := (s.bitmaps.object b).pitch

/-- A context takes an object: bitmaps go into memory contexts, and into one at a time. -/
def Takes (s : GdiState) (hdc : UInt32) (p : Nat) : Selectable → Prop
  | .tool _ _ => True
  | .bitmap b => (s.dcs.object p).dcType = dctypeMemory ∧
      ((s.bitmaps.object b).hdc = 0 ∨ (s.bitmaps.object b).hdc = hdc)

/-- `gdi_select_object` accepts a handle. -/
def Accepts (s : GdiState) (hdc hobject : UInt32) : Prop :=
  ∃ p x, s.getDc hdc = some p ∧ s.denotes hobject = some x ∧ s.Takes hdc p x

/-- Selecting what was returned is accepted and brings back the context and the `hdc` of every
bitmap. -/
def Reversed (s s₁ : GdiState) (hdc prev : UInt32) : Prop :=
  prev ≠ 0 ∧ s₁.Accepts hdc prev ∧ ∃ s₂ last, gdiSelectObject s₁ hdc prev = some (s₂, last) ∧
    ∀ p, s.getDc hdc = some p → s₂.view p = s.view p

/-- The remembered handle denotes what the context has: it is of the kind of the object that is
selected, or the context has that object, too. -/
def Remembers (s : GdiState) (hdc hobject : UInt32) : Prop :=
  ∃ p x y, s.getDc hdc = some p ∧ s.denotes hobject = some x ∧
    s.denotes ((s.dcs.object p).remembered x) = some y ∧
    (s.view p).Has s.surfaces hdc y ∧
    (x.SameKind y ∨ (s.view p).Has s.surfaces hdc x) ∧ (s.view p).Fresh x ∧
    ∀ b, y = .bitmap b → (s.dcs.object p).dcType = dctypeMemory ∧ (s.bitmaps.read b).isSome

end GdiState

section Selecting

variable {s s₁ : GdiState} {hdc hobject prev : UInt32} {p b : Nat} {t : Tool} {ptr : GdiPtr}
  {x : Selectable} {dc : DcSelection} {bmp : GdiBitmap}

theorem denotes_zero (s : GdiState) : s.denotes 0 = none := rfl

/-- What a handle denotes, and the function that selects it. -/
theorem select_of_denotes (hdc : UInt32) (h : s.denotes hobject = some x) :
    (∃ t ptr, x = .tool t ptr ∧ gdiGetObject s.table hobject t.kind.type = some ptr ∧
      gdiSelectObject s hdc hobject = t.select s hdc hobject) ∨
    ∃ b, x = .bitmap b ∧ s.getBitmap hobject = some b ∧
      gdiSelectObject s hdc hobject = gdiSelectBitmap s hdc hobject := by
  unfold GdiState.denotes at h
  unfold gdiSelectObject
  cases hany : gdiGetObjectAny s.table hobject with
  | mk found type =>
    rw [hany] at h
    cases found with
    | none => cases h
    | some found =>
      cases type with
      | none => cases h
      | some type =>
        dsimp only at h ⊢
        split_ifs at h ⊢
        · obtain ⟨ptr, hptr, rfl⟩ := Option.map_eq_some_iff.mp h
          exact .inl ⟨.brush, ptr, rfl, hptr, rfl⟩
        · obtain ⟨ptr, hptr, rfl⟩ := Option.map_eq_some_iff.mp h
          exact .inl ⟨.pen, ptr, rfl, hptr, rfl⟩
        · obtain ⟨ptr, hptr, rfl⟩ := Option.map_eq_some_iff.mp h
          exact .inl ⟨.font, ptr, rfl, hptr, rfl⟩
        · obtain ⟨b, hb, rfl⟩ := Option.map_eq_some_iff.mp h
          exact .inr ⟨b, rfl, hb, rfl⟩

theorem select_tool_eq (hp : s.getDc hdc = some p)
    (hptr : gdiGetObject s.table hobject t.kind.type = some ptr) :
    t.select s hdc hobject = (s.dcs.read p).map fun dc =>
      (s.setDc p (t.put (s.refTo t.kind ptr) hobject dc), t.prev dc) := by
  unfold Tool.select selectObject
  rw [hp]
  dsimp only
  rw [hptr]
  exact (Option.map_eq_bind).symm

theorem gdiSelectBitmap_eq (hp : s.getDc hdc = some p) (hb : s.getBitmap hobject = some b)
    (hread : s.dcs.read p = some dc) (hbmp : s.bitmaps.read b = some bmp)
    (hmemory : dc.dcType = dctypeMemory) (hhdc : bmp.hdc = 0 ∨ bmp.hdc = hdc) :
    gdiSelectBitmap s hdc hobject = (deselectBitmap s dc.bitmap).map fun s' =>
      ((s'.setDc p (dc.withBitmap (s'.refToBitmap b) hobject bmp)).setBitmap b
        { s'.bitmaps.object b with hdc }, dc.prevBitmapHandle) := by
  have hother : ¬ (bmp.hdc ≠ 0 ∧ bmp.hdc ≠ hdc) := fun hne => hhdc.elim hne.1 hne.2
  unfold gdiSelectBitmap
  rw [hp]
  dsimp only
  rw [hread, Option.bind_eq_bind, Option.bind_some, if_neg (not_not.mpr hmemory), hb]
  dsimp only
  rw [hbmp, Option.bind_eq_bind, Option.bind_some, if_neg hother]
  exact (Option.map_eq_bind).symm

/-- What selecting an object does. -/
structure Selects (s s₁ : GdiState) (hdc prev : UInt32) (p : Nat) (x : Selectable) : Prop where
  returned : prev = (s.dcs.object p).remembered x
  table : s₁.table = s.table
  view : s₁.view p = (s.view p).select s.surfaces hdc x
  surfaces : s₁.surfaces = s.surfaces
  dcType : (s₁.dcs.object p).dcType = (s.dcs.object p).dcType
  readDc : (s₁.dcs.read p).isSome
  readBitmap : ∀ b, (s₁.bitmaps.read b).isSome = (s.bitmaps.read b).isSome
  readsBitmap : ∀ b, x = .bitmap b → (s.bitmaps.read b).isSome ∧
    ∀ o, (s.dcs.object p).bitmapAddr = some o → (s.bitmaps.read o).isSome

theorem put_fields (t : Tool) (r : Ref GdiPtr) (h : UInt32) (dc : DcSelection) :
    (∀ t', t'.pointer (t.put r h dc) =
      Function.update (fun t' => t'.pointer dc) t (some r.target) t') ∧
    (t.put r h dc).bitmap = dc.bitmap ∧ (t.put r h dc).pixels = dc.pixels ∧
      (t.put r h dc).width = dc.width ∧ (t.put r h dc).height = dc.height ∧
      (t.put r h dc).pitch = dc.pitch ∧ (t.put r h dc).dcType = dc.dcType ∧
      (t.put r h dc).inUse = dc.inUse := by
  refine ⟨fun t' => ?_, ?_⟩
  · cases t <;> cases t' <;> rfl
  · cases t <;> exact ⟨rfl, rfl, rfl, rfl, rfl, rfl, rfl⟩

theorem refTo_target (kind : GdiKind) (ptr : GdiPtr) : (s.refTo kind ptr).target = ptr := by
  cases ptr <;> rfl

theorem read_isSome_set {α : Type} [PoolObject α] {pool : Pool α} {a c : Nat} {y : α}
    (hsame : PoolObject.inUse y = PoolObject.inUse (pool.object a)) :
    ((pool.set a y).read c).isSome = (pool.read c).isSome := by
  have huse : (pool.set a y).inUse c = pool.inUse c := by
    unfold Pool.inUse
    rw [Pool.set_object]
    by_cases hc : c = a
    · rw [hc, Function.update_self, hsame]
    · rw [Function.update_of_ne hc]
  unfold Pool.read
  rw [huse, Pool.set_size]
  split <;> rfl

theorem deselectBitmap_read (h : deselectBitmap s dc.bitmap = some s₁) :
    (∀ c, (s₁.bitmaps.read c).isSome = (s.bitmaps.read c).isSome) ∧
      ∀ o, dc.bitmapAddr = some o → (s.bitmaps.read o).isSome := by
  unfold DcSelection.bitmapAddr
  cases hbitmap : dc.bitmap with
  | none =>
    rw [hbitmap] at h
    obtain rfl := Option.some.inj h
    exact ⟨fun _ => rfl, fun o ho => absurd ho (Option.some_ne_none o).symm⟩
  | some r =>
    rw [hbitmap] at h
    obtain ⟨bmp, hread, rfl⟩ := Option.map_eq_some_iff.mp h
    refine ⟨fun c => read_isSome_set ?_, ?_⟩
    · rw [Pool.read_eq hread]
      rfl
    · intro o ho
      obtain rfl := Option.some.inj ho
      rw [hread]
      rfl

theorem deselectBitmap_isSome (h : ∀ o, dc.bitmapAddr = some o → (s.bitmaps.read o).isSome) :
    ∃ s', deselectBitmap s dc.bitmap = some s' := by
  unfold DcSelection.bitmapAddr at h
  cases hbitmap : dc.bitmap with
  | none => exact ⟨s, rfl⟩
  | some r =>
    rw [hbitmap] at h
    obtain ⟨bmp, hread⟩ := Option.isSome_iff_exists.mp (h r.target rfl)
    exact ⟨s.setBitmap r.target { bmp with hdc := 0 }, congrArg (Option.map _) hread⟩

theorem view_eq (h : s₁.dcs.object p = dc) : s₁.view p =
    { pointer := fun t => t.pointer dc
      bitmap := dc.bitmapAddr
      surface := { pixels := dc.pixels, width := dc.width, height := dc.height, pitch := dc.pitch }
      hdcs := fun b => (s₁.bitmaps.object b).hdc } := by
  unfold GdiState.view
  rw [h]

theorem surfaces_eq {hdcs : Nat → UInt32}
    (h : ∀ c, s₁.bitmaps.object c = { s.bitmaps.object c with hdc := hdcs c }) :
    s₁.surfaces = s.surfaces := by
  funext c
  unfold GdiState.surfaces
  rw [h]

/-- A brush, a pen or a font is selected. -/
theorem selects_tool (hp : s.getDc hdc = some p)
    (hptr : gdiGetObject s.table hobject t.kind.type = some ptr)
    (h : t.select s hdc hobject = some (s₁, prev)) :
    Selects s s₁ hdc prev p (.tool t ptr) := by
  rw [select_tool_eq hp hptr] at h
  obtain ⟨dc, hread, hdone⟩ := Option.map_eq_some_iff.mp h
  obtain ⟨rfl, rfl⟩ := Prod.mk.inj hdone
  obtain rfl := Pool.read_eq hread
  obtain ⟨hpointer, hbitmap, hpixels, hwidth, hheight, hpitch, htype, huse⟩ :=
    put_fields t (s.refTo t.kind ptr) hobject (s.dcs.object p)
  have hdc' : (s.setDc p (t.put (s.refTo t.kind ptr) hobject (s.dcs.object p))).dcs.object p =
      t.put (s.refTo t.kind ptr) hobject (s.dcs.object p) := Function.update_self p _ _
  refine ⟨rfl, rfl, ?view, rfl, ?dcType, ?readDc, fun _ => rfl, fun b hb => by cases hb⟩
  case view =>
    rw [view_eq hdc']
    refine DcView.ext ?_ (congrArg (Option.map Ref.target) hbitmap) ?_ rfl
    · funext t'
      dsimp only
      rw [hpointer, refTo_target]
      rfl
    · dsimp only
      rw [hpixels, hwidth, hheight, hpitch]
      rfl
  case dcType => rw [hdc', htype]
  case readDc =>
    have hsome : (s.dcs.read p).isSome := by
      rw [hread]
      rfl
    exact (read_isSome_set (by exact huse)).trans hsome

/-- A bitmap is selected. -/
theorem selects_bitmap (hp : s.getDc hdc = some p) (hb : s.getBitmap hobject = some b)
    (htakes : s.Takes hdc p (.bitmap b))
    (h : gdiSelectBitmap s hdc hobject = some (s₁, prev)) :
    Selects s s₁ hdc prev p (.bitmap b) := by
  have hreads : ∃ dc bmp, s.dcs.read p = some dc ∧ s.bitmaps.read b = some bmp := by
    unfold gdiSelectBitmap at h
    rw [hp] at h
    obtain ⟨dc, hread, h⟩ := Option.bind_eq_some_iff.mp h
    have hmemory : ¬ dc.dcType ≠ dctypeMemory := by
      rw [Pool.read_eq hread]
      exact not_not.mpr htakes.1
    rw [if_neg hmemory, hb] at h
    obtain ⟨bmp, hbmp, -⟩ := Option.bind_eq_some_iff.mp h
    exact ⟨dc, bmp, hread, hbmp⟩
  obtain ⟨dc, bmp, hread, hbmp⟩ := hreads
  obtain rfl := Pool.read_eq hread
  obtain rfl := Pool.read_eq hbmp
  rw [gdiSelectBitmap_eq hp hb hread hbmp htakes.1 htakes.2] at h
  obtain ⟨s', hdeselect, hdone⟩ := Option.map_eq_some_iff.mp h
  obtain ⟨rfl, rfl⟩ := Prod.mk.inj hdone
  obtain ⟨hsome, hold⟩ := deselectBitmap_read hdeselect
  obtain ⟨bitmaps, rfl, -, hbitmaps⟩ := deselectBitmap_spec hdeselect
  have hfields : ∀ c, ((bitmaps.set b { bitmaps.object b with hdc := hdc }).object c) =
      { s.bitmaps.object c with
        hdc := if c = b then hdc else if (s.dcs.object p).bitmapAddr = some c then 0
          else (s.bitmaps.object c).hdc } := by
    intro c
    rw [Pool.set_object]
    by_cases hc : c = b
    · rw [hc, Function.update_self, if_pos rfl, hbitmaps]
    · rw [Function.update_of_ne hc, if_neg hc, hbitmaps]
  have hdc' : ∀ dc', (s.dcs.set p dc').object p = dc' := fun dc' => by
    rw [Pool.set_object, Function.update_self]
  refine ⟨rfl, rfl, ?view, ?surfaces, ?dcType, ?readDc, ?readBitmap, ?readsBitmap⟩
  case view =>
    rw [view_eq (hdc' _)]
    refine DcView.ext ?_ rfl rfl ?_
    · funext t'
      cases t' <;> rfl
    · funext c
      exact congrArg GdiBitmap.hdc (hfields c)
  case surfaces => exact surfaces_eq hfields
  case dcType =>
    show (Function.update s.dcs.object p _ p).dcType = _
    rw [Function.update_self]
    rfl
  case readDc =>
    have hsome' : (s.dcs.read p).isSome = true := by
      rw [hread]
      rfl
    exact (read_isSome_set (by rfl)).trans hsome'
  case readBitmap =>
    intro c
    have hmark : PoolObject.inUse { bitmaps.object b with hdc := hdc } =
        PoolObject.inUse (bitmaps.object b) := rfl
    exact (read_isSome_set hmark).trans (hsome c)
  case readsBitmap =>
    rintro c hc
    obtain rfl := Selectable.bitmap.inj hc
    refine ⟨?_, hold⟩
    rw [hbmp]
    rfl

/-- An accepted object is selected. -/
theorem selects (hp : s.getDc hdc = some p) (hx : s.denotes hobject = some x)
    (htakes : s.Takes hdc p x) (h : gdiSelectObject s hdc hobject = some (s₁, prev)) :
    Selects s s₁ hdc prev p x := by
  obtain ⟨t, ptr, rfl, hptr, hselect⟩ | ⟨b, rfl, hb, hselect⟩ := select_of_denotes hdc hx
  · exact selects_tool hp hptr (hselect.symm.trans h)
  · exact selects_bitmap hp hb htakes (hselect.symm.trans h)

/-- It is, where nothing that has been freed is touched. -/
theorem select_returns (hp : s.getDc hdc = some p) (hx : s.denotes hobject = some x)
    (htakes : s.Takes hdc p x) (hread : (s.dcs.read p).isSome)
    (hreads : ∀ b, x = .bitmap b → (s.bitmaps.read b).isSome ∧
      ∀ o, (s.dcs.object p).bitmapAddr = some o → (s.bitmaps.read o).isSome) :
    ∃ s₁ prev, gdiSelectObject s hdc hobject = some (s₁, prev) := by
  obtain ⟨dc, hdc'⟩ := Option.isSome_iff_exists.mp hread
  obtain rfl := Pool.read_eq hdc'
  obtain ⟨t, ptr, rfl, hptr, hselect⟩ | ⟨b, rfl, hb, hselect⟩ := select_of_denotes hdc hx
  · rw [hselect, select_tool_eq hp hptr, hdc']
    exact ⟨_, _, rfl⟩
  · obtain ⟨hbsome, hold⟩ := hreads b rfl
    obtain ⟨bmp, hbmp⟩ := Option.isSome_iff_exists.mp hbsome
    obtain rfl := Pool.read_eq hbmp
    obtain ⟨s', hdeselect⟩ := deselectBitmap_isSome hold
    rw [hselect, gdiSelectBitmap_eq hp hb hdc' hbmp htakes.1 htakes.2, hdeselect]
    exact ⟨_, _, rfl⟩

theorem getDc_congr (h : s₁.table = s.table) : s₁.getDc hdc = s.getDc hdc := by
  unfold GdiState.getDc
  rw [h]

theorem denotes_congr (h : s₁.table = s.table) (hobject : UInt32) :
    s₁.denotes hobject = s.denotes hobject := by
  unfold GdiState.denotes GdiState.getBitmap
  rw [h]

/-- Selecting the returned handle brings everything back exactly if it denotes what the context
has. -/
theorem gdiSelectObject_reversed_iff (haccepts : s.Accepts hdc hobject)
    (hcall : gdiSelectObject s hdc hobject = some (s₁, prev)) :
    s.Reversed s₁ hdc prev ↔ s.Remembers hdc hobject := by
  obtain ⟨p, x, hp, hx, htakes⟩ := haccepts
  have hfirst := selects hp hx htakes hcall
  have hp₁ : s₁.getDc hdc = some p := (getDc_congr hfirst.table).trans hp
  constructor
  · rintro ⟨-, ⟨p', y, hp', hy, htakes'⟩, s₂, last, hcall', hview⟩
    obtain rfl := Option.some.inj (hp'.symm.trans hp₁)
    have hsecond := selects hp' hy htakes' hcall'
    have hback := hview p' hp
    rw [hsecond.view, hfirst.view, hfirst.surfaces] at hback
    obtain ⟨hhas, hkind, hfresh⟩ := DcView.select_select_iff.mp hback
    rw [denotes_congr hfirst.table, hfirst.returned] at hy
    refine ⟨p', x, y, hp, hx, hy, hhas, hkind, hfresh, ?_⟩
    rintro b rfl
    refine ⟨hfirst.dcType.symm.trans htakes'.1, ?_⟩
    rw [← hfirst.readBitmap]
    exact (hsecond.readsBitmap b rfl).1
  · rintro ⟨p', x', y, hp', hx', hy, hhas, hkind, hfresh, hbitmap⟩
    obtain rfl := Option.some.inj (hp'.symm.trans hp)
    obtain rfl := Option.some.inj (hx'.symm.trans hx)
    have hback := DcView.select_select_iff.mpr ⟨hhas, hkind, hfresh⟩
    have hdenotes : s₁.denotes prev = some y := by
      rw [denotes_congr hfirst.table, hfirst.returned]
      exact hy
    have hne : prev ≠ 0 := by
      rintro rfl
      rw [denotes_zero] at hdenotes
      cases hdenotes
    have htakes' : s₁.Takes hdc p' y := by
      cases y with
      | tool t ptr => trivial
      | bitmap b =>
        refine ⟨hfirst.dcType.trans (hbitmap b rfl).1, ?_⟩
        have hhdc : (s₁.bitmaps.object b).hdc =
            ((s.view p').select s.surfaces hdc x').hdcs b :=
          congrFun (congrArg DcView.hdcs hfirst.view) b
        rw [hhdc]
        exact DcView.select_hdcs_of_has hhas
    have hreads : ∀ b, y = .bitmap b → (s₁.bitmaps.read b).isSome ∧
        ∀ o, (s₁.dcs.object p').bitmapAddr = some o → (s₁.bitmaps.read o).isSome := by
      rintro b rfl
      simp only [hfirst.readBitmap]
      refine ⟨(hbitmap b rfl).2, fun o ho => ?_⟩
      have hview : ((s.view p').select s.surfaces hdc x').bitmap = some o :=
        (congrArg DcView.bitmap hfirst.view).symm.trans ho
      cases x' with
      | tool t ptr =>
        have hold : (s.dcs.object p').bitmapAddr = some b := hhas.1
        have hsame : (s.dcs.object p').bitmapAddr = some o := hview
        obtain rfl := Option.some.inj (hsame.symm.trans hold)
        exact (hbitmap o rfl).2
      | bitmap c =>
        obtain rfl := Option.some.inj hview
        exact (hfirst.readsBitmap c rfl).1
    obtain ⟨s₂, last, hcall'⟩ := select_returns hp₁ hdenotes htakes' hfirst.readDc hreads
    refine ⟨hne, ⟨p', y, hp₁, hdenotes, htakes'⟩, s₂, last, hcall', ?_⟩
    intro q hq
    obtain rfl := Option.some.inj (hq.symm.trans hp)
    have hsecond := selects hp₁ hdenotes htakes' hcall'
    rw [hsecond.view, hfirst.view, hfirst.surfaces]
    exact hback

end Selecting

section Example

/-- A memory context, and a bitmap of four by four pixels. -/
def bitmapAside : List DcOp :=
  [.createCompatibleDc none 0, .createBitmap roomyHeap none 4 4 1 32]

/-- A new memory context remembers no bitmap: what there was before the first bitmap cannot be
selected back. -/
theorem firstBitmap_not_reversed :
    ¬ ∀ (ops : List DcOp) (tr : List GdiState), trace (dcStep 0) gdiInit ops = some tr →
      ∀ s ∈ tr, ∀ hdc hobject s₁ prev, s.Accepts hdc hobject →
        gdiSelectObject s hdc hobject = some (s₁, prev) → s.Reversed s₁ hdc prev := by
  intro hall
  have hrun : (trace (dcStep 0) gdiInit bitmapAside).map (fun tr =>
      tr[2]?.map fun s => decide (s.getDc 0x01010001 = some 0 ∧
        s.denotes 0x01050002 = some (.bitmap 0) ∧
        ((s.dcs.object 0).dcType = dctypeMemory ∧ (s.bitmaps.object 0).hdc = 0) ∧
        (gdiSelectObject s 0x01010001 0x01050002).map Prod.snd = some 0)) =
      some (some true) := by decide +kernel
  obtain ⟨tr, htr, hlast⟩ := Option.map_eq_some_iff.mp hrun
  obtain ⟨s, hs, hfields⟩ := Option.map_eq_some_iff.mp hlast
  obtain ⟨hp, hx, ⟨hmemory, hzero⟩, hcall⟩ := of_decide_eq_true hfields
  obtain ⟨⟨s₁, prev⟩, hcall, rfl⟩ := Option.map_eq_some_iff.mp hcall
  exact (hall bitmapAside tr htr s (List.mem_of_getElem? hs) _ _ s₁ 0
    ⟨0, .bitmap 0, hp, hx, hmemory, .inl hzero⟩ hcall).1 rfl

/-- The white brush is selected back after another stock brush. -/
theorem gdiSelectObject_reversed_brush : ∃ tr, trace (dcStep 0) gdiInit bitmapAside = some tr ∧
    ∃ s ∈ tr, ∃ s₁, gdiSelectObject s 0x01010001 (stockHandle gdiObjBrush 1) =
        some (s₁, stockWhiteBrush) ∧
      s.Reversed s₁ 0x01010001 stockWhiteBrush := by
  have hrun : (trace (dcStep 0) gdiInit bitmapAside).map (fun tr =>
      tr[2]?.map fun s => decide (s.getDc 0x01010001 = some 0 ∧
        s.denotes (stockHandle gdiObjBrush 1) = some (.tool .brush (.stock 1)) ∧
        s.denotes ((s.dcs.object 0).remembered (.tool .brush (.stock 1))) =
          some (.tool .brush (.stock 0)) ∧
        (s.view 0).pointer .brush = some (.stock 0) ∧
        (gdiSelectObject s 0x01010001 (stockHandle gdiObjBrush 1)).map Prod.snd =
          some stockWhiteBrush)) =
      some (some true) := by decide +kernel
  obtain ⟨tr, htr, hlast⟩ := Option.map_eq_some_iff.mp hrun
  obtain ⟨s, hs, hfields⟩ := Option.map_eq_some_iff.mp hlast
  obtain ⟨hp, hx, hy, hhas, hcall⟩ := of_decide_eq_true hfields
  obtain ⟨⟨s₁, prev⟩, hcall, rfl⟩ := Option.map_eq_some_iff.mp hcall
  refine ⟨tr, htr, s, List.mem_of_getElem? hs, s₁, hcall, ?_⟩
  exact (gdiSelectObject_reversed_iff ⟨0, _, hp, hx, trivial⟩ hcall).mpr
    ⟨0, _, _, hp, hx, hy, hhas, .inl rfl, trivial, fun b hb => by cases hb⟩

end Example

end Wbox.Gdi
