import Mathlib.Logic.Relation
import Wbox.Gdi.SelectionSteps
import Wbox.Lib.Trace

/-!
# Selected objects that are still alive

Contexts and their saved states hold pointers to brushes, pens, fonts and bitmaps, and share the
pixels of a bitmap (`src/gdi/gdi_dc.c:213–295,520–574`). `NtGdiDeleteObjectApp`
(`src/nt/win32k_dispatcher.c:174–226`) frees an object without looking whether it is selected.
-/

namespace Wbox.Gdi

open Wbox.Lib

/-- The calls; handles are arbitrary, `answer` is what `calloc` has to offer when a pool is full. -/
inductive SelectionOp where
  | createDc (answer : Option Nat) (hdcRef : UInt32)
  | createDisplayDc (answer : Option Nat) (display : Option Display)
  | createObject (kind : GdiKind) (answer : Option Nat)
  | createBitmap (heap : Heap) (answer : Option Nat) (width height : Int32) (planes bpp : UInt32)
  | selectBrush (hdc hbrush : UInt32)
  | selectPen (hdc hpen : UInt32)
  | selectFont (hdc hfont : UInt32)
  | selectBitmap (hdc hbitmap : UInt32)
  | deleteObject (handle : UInt32)
  | saveDc (answer : Option Nat) (hdc : UInt32)
  | restoreDc (hdc : UInt32) (level : Int32)
  | deleteDc (hdc : UInt32)

/-- One call; `fuel` bounds the loops over saved states. -/
def selectionStep (fuel : Nat) (s : GdiState) : SelectionOp → Option GdiState
  | .createDc answer hdcRef => (gdiCreateCompatibleDc s answer hdcRef).map Prod.fst
  | .createDisplayDc answer display => (gdiCreateDisplayDc s answer display).map Prod.fst
  | .createObject kind answer => (createObject kind s answer).map Prod.fst
  | .createBitmap heap answer width height planes bpp =>
      (gdiCreateBitmap heap s answer width height planes bpp).map Prod.fst
  | .selectBrush hdc hbrush => (gdiSelectBrush s hdc hbrush).map Prod.fst
  | .selectPen hdc hpen => (gdiSelectPen s hdc hpen).map Prod.fst
  | .selectFont hdc hfont => (gdiSelectFont s hdc hfont).map Prod.fst
  | .selectBitmap hdc hbitmap => (gdiSelectBitmap s hdc hbitmap).map Prod.fst
  | .deleteObject handle => (ntGdiDeleteObjectApp fuel s handle).map Prod.fst
  | .saveDc answer hdc => (gdiSaveDc s answer hdc).map Prod.fst
  | .restoreDc hdc level => (gdiRestoreDc fuel s hdc level).map Prod.fst
  | .deleteDc hdc => (gdiDeleteDc fuel s hdc).map Prod.fst

/-- What a context has selected of a kind. -/
def DcSelection.selected (dc : DcSelection) : GdiKind → Option (Ref GdiPtr)
  | .brush => dc.brush
  | .pen => dc.pen
  | .font => dc.font
  | .region => none

/-- The object has not been freed since the pointer was taken. Stock objects are never freed. -/
def AliveRef (s : GdiState) (kind : GdiKind) (r : Ref GdiPtr) : Prop :=
  match r.target with
  | .stock _ => True
  | .object a => (s.objects kind).inUse a = true ∧ (s.objects kind).frees a = r.frees

/-- The same for a bitmap. -/
def AliveBitmap (s : GdiState) (r : Ref Nat) : Prop :=
  s.bitmaps.inUse r.target = true ∧ s.bitmaps.frees r.target = r.frees

/-- What a context points to is alive. -/
structure DcAlive (s : GdiState) (dc : DcSelection) : Prop where
  objects : ∀ kind r, dc.selected kind = some r → AliveRef s kind r
  bitmap : ∀ r, dc.bitmap = some r → AliveBitmap s r
  pixels : ∀ id, dc.pixels = some (.buffer id) → id < s.buffers ∧ s.freed id = false

/-- A saved state of a context, or a saved state of one. -/
def Reaches (s : GdiState) : Nat → Nat → Prop :=
  Relation.ReflTransGen fun p q => (s.dcs.object p).savedDc = some q

/-- In every live context and every saved state everything selected is alive. -/
def SelectedAlive (s : GdiState) : Prop :=
  ∀ i p q, LiveDc s.table i p → Reaches s p q → DcAlive s (s.dcs.object q)

/-- A live context or a saved state has what satisfies `points` selected. -/
def SelectedWhere (s : GdiState) (points : DcSelection → Prop) : Prop :=
  ∃ i p q, LiveDc s.table i p ∧ Reaches s p q ∧ points (s.dcs.object q)

/-- The context has an object selected. -/
def DcSelection.PointsTo (dc : DcSelection) (kind : GdiKind) (a : Nat) : Prop :=
  ∃ r, dc.selected kind = some r ∧ r.target = .object a

/-- No object is deleted that a live context or a saved state has selected. -/
def DeletesUnselected (s : GdiState) : SelectionOp → Prop
  | .deleteObject handle =>
      (∀ kind a, Deletes s handle (GdiKind.type kind) a →
        ¬ SelectedWhere s fun dc => dc.PointsTo kind a) ∧
      ∀ b, Deletes s handle gdiObjBitmap b → ¬ SelectedWhere s fun dc => dc.bitmapAddr = some b
  | _ => True

/-- What the handles denote has been allocated, each object for one handle and the pixels for one
bitmap. -/
structure Backed (s : GdiState) : Prop where
  nextFree : s.table.nextFree ≤ gdiMaxHandles
  object : ∀ kind i, (s.table.entries i).inUse = true →
    (s.table.entries i).type = GdiKind.type kind →
    ∃ a, (s.table.entries i).object = some (.object a) ∧ (s.objects kind).inUse a = true
  bitmap : ∀ i, (s.table.entries i).inUse = true → (s.table.entries i).type = gdiObjBitmap →
    ∃ b, (s.table.entries i).object = some (.object b) ∧ s.bitmaps.inUse b = true
  distinct : ∀ i j, (s.table.entries i).inUse = true → (s.table.entries j).inUse = true →
    (s.table.entries i).type = (s.table.entries j).type →
    (s.table.entries i).type ≠ gdiObjDc →
    (s.table.entries i).object = (s.table.entries j).object → i = j
  fresh : ∀ id, s.buffers ≤ id → s.freed id = false
  pixels : ∀ b id, s.bitmaps.inUse b = true → (s.bitmaps.object b).pixels = some id →
    id < s.buffers ∧ s.freed id = false
  owner : ∀ b b' id, s.bitmaps.inUse b = true → s.bitmaps.inUse b' = true →
    (s.bitmaps.object b).pixels = some id → (s.bitmaps.object b').pixels = some id → b = b'

/-- What a context points to is alive, and its pixels are those of its bitmap. -/
structure DcKept (s : GdiState) (dc : DcSelection) : Prop where
  objects : ∀ kind r, dc.selected kind = some r → AliveRef s kind r
  bitmap : ∀ r, dc.bitmap = some r → AliveBitmap s r
  surface : ∀ id, dc.pixels = some (.buffer id) →
    ∃ r, dc.bitmap = some r ∧ (s.bitmaps.object r.target).pixels = some id

/-- A set of contexts that has the live ones, and the saved states of its members. -/
structure Kept (s : GdiState) (G : Nat → Prop) : Prop where
  roots : ∀ i p, LiveDc s.table i p → G p
  closed : ∀ p q, G p → (s.dcs.object p).savedDc = some q → G q
  kept : ∀ q, G q → DcKept s (s.dcs.object q)

/-- The invariant of a run. -/
structure AliveInv (s : GdiState) : Prop where
  backed : Backed s
  kept : ∃ G, Kept s G

variable {s s' : GdiState} {dc dc' : DcSelection} {G : Nat → Prop} {p q a b i fuel : Nat}
  {kind : GdiKind} {op : SelectionOp} {handle made : UInt32}

theorem DcKept.alive (h : DcKept s dc) (hbacked : Backed s) : DcAlive s dc := by
  refine ⟨h.objects, h.bitmap, ?_⟩
  intro id hid
  obtain ⟨r, hr, hpixels⟩ := h.surface id hid
  exact hbacked.pixels r.target id (h.bitmap r hr).1 hpixels

theorem Kept.reaches (h : Kept s G) (hp : G p) (hreach : Reaches s p q) : G q := by
  induction hreach with
  | refl => exact hp
  | tail _ hlink ih => exact h.closed _ _ ih hlink

/-- The invariant says that everything selected is alive. -/
theorem AliveInv.selectedAlive (h : AliveInv s) : SelectedAlive s := by
  obtain ⟨G, hkept⟩ := h.kept
  intro i p q hlive hreach
  exact (hkept.kept q (hkept.reaches (hkept.roots i p hlive) hreach)).alive h.backed

/-- A context keeps pointing to what is alive while that stays as it is. -/
theorem DcKept.mono (h : DcKept s dc)
    (hobjects : ∀ kind a, dc.PointsTo kind a → (s.objects kind).inUse a = true →
      (s'.objects kind).inUse a = true ∧ (s'.objects kind).frees a = (s.objects kind).frees a)
    (hbitmaps : ∀ b, dc.bitmapAddr = some b → s.bitmaps.inUse b = true → s'.bitmaps.inUse b = true ∧
      s'.bitmaps.frees b = s.bitmaps.frees b ∧
      (s'.bitmaps.object b).pixels = (s.bitmaps.object b).pixels) : DcKept s' dc := by
  constructor
  · intro kind r hr
    have halive := h.objects kind r hr
    unfold AliveRef at *
    cases htarget : r.target with
    | stock index => trivial
    | object a =>
      rw [htarget] at halive
      obtain ⟨huse, hfrees⟩ := hobjects kind a ⟨r, hr, htarget⟩ halive.1
      exact ⟨huse, hfrees.trans halive.2⟩
  · intro r hr
    obtain ⟨halive, hold⟩ := h.bitmap r hr
    obtain ⟨huse, hfrees, -⟩ := hbitmaps r.target (congrArg (Option.map Ref.target) hr) halive
    exact ⟨huse, hfrees.trans hold⟩
  · intro id hid
    obtain ⟨r, hr, hpixels⟩ := h.surface id hid
    obtain ⟨-, -, hsame⟩ :=
      hbitmaps r.target (congrArg (Option.map Ref.target) hr) (h.bitmap r hr).1
    exact ⟨r, hr, hsame.trans hpixels⟩

/-- Only the objects and the bitmaps of the state matter. -/
theorem DcKept.of_eq (h : DcKept s dc) (hobjects : s'.objects = s.objects)
    (hbitmaps : s'.bitmaps = s.bitmaps) : DcKept s' dc := by
  apply h.mono
  · intro kind a _ huse
    rw [hobjects]
    exact ⟨huse, rfl⟩
  · intro b _ huse
    rw [hbitmaps]
    exact ⟨huse, rfl, rfl⟩

/-- Only the selection of a context matters. -/
theorem DcKept.congr (h : DcKept s dc) (hselected : dc'.selected = dc.selected)
    (hbitmap : dc'.bitmap = dc.bitmap) (hpixels : dc'.pixels = dc.pixels) : DcKept s dc' := by
  constructor
  · rw [hselected]
    exact h.objects
  · rw [hbitmap]
    exact h.bitmap
  · rw [hbitmap, hpixels]
    exact h.surface

theorem DcKept.unused (h : DcKept s dc) : DcKept s dc.unused :=
  h.congr (funext fun kind => by cases kind <;> rfl) rfl rfl

theorem DcKept.withHandle (h : DcKept s dc) (handle : UInt32) : DcKept s { dc with handle } :=
  h.congr (funext fun kind => by cases kind <;> rfl) rfl rfl

theorem DcKept.withSaved (h : DcKept s dc) (savedDc : Option Nat) (saveLevel : Int) :
    DcKept s { dc with savedDc, saveLevel } :=
  h.congr (funext fun kind => by cases kind <;> rfl) rfl rfl

theorem DcKept.contents (h : DcKept s dc) (hdc : dc'.SameContents dc) : DcKept s dc' := by
  rcases hdc with rfl | rfl
  · exact h
  · exact h.unused

/-- A context without a selection points to nothing. -/
theorem dcKept_empty (s : GdiState) : DcKept s { inUse := true } := by
  constructor
  · intro kind r hr
    cases kind <;> cases hr
  · exact fun r hr => nomatch hr
  · exact fun id hid => nomatch hid

theorem NewDc.kept (h : NewDc dc) (s : GdiState) : DcKept s dc := by
  constructor
  · intro kind r hr
    cases kind with
    | brush =>
      obtain rfl := Option.some.inj (h.brush.symm.trans hr)
      trivial
    | pen =>
      obtain rfl := Option.some.inj (h.pen.symm.trans hr)
      trivial
    | font =>
      obtain rfl := Option.some.inj (h.font.symm.trans hr)
      trivial
    | region => cases hr
  · intro r hr
    rw [h.bitmap] at hr
    cases hr
  · exact fun id hid => absurd hid (h.pixels id)

/-- A context may be replaced by another one that points to what is alive. -/
theorem Kept.setDc (h : Kept s G) (hdc : DcKept s dc)
    (hsaved : ∀ q, dc.savedDc = some q → G q ∨ q = p) :
    Kept (s.setDc p dc) fun q => G q ∨ q = p := by
  constructor
  · exact fun i q hlive => .inl (h.roots i q hlive)
  · intro q r hq hr
    by_cases hqp : q = p
    · rw [hqp, GdiState.setDc, Pool.set_object, Function.update_self] at hr
      exact hsaved r hr
    · rw [GdiState.setDc, Pool.set_object, Function.update_of_ne hqp] at hr
      exact .inl (h.closed q r (hq.resolve_right hqp) hr)
  · intro q hq
    by_cases hqp : q = p
    · rw [hqp, GdiState.setDc, Pool.set_object, Function.update_self]
      exact hdc.of_eq rfl rfl
    · rw [GdiState.setDc, Pool.set_object, Function.update_of_ne hqp]
      exact (h.kept q (hq.resolve_right hqp)).of_eq rfl rfl

/-- Contexts may be marked as free. -/
theorem Kept.contents (h : Kept s G) {dcs : Pool DcSelection}
    (hdcs : ∀ q, (dcs.object q).SameContents (s.dcs.object q)) : Kept { s with dcs } G := by
  constructor
  · exact h.roots
  · intro p q hp hq
    have hsaved : (dcs.object p).savedDc = (s.dcs.object p).savedDc := by
      rcases hdcs p with heq | heq <;> rw [heq]
      rfl
    exact h.closed p q hp (hsaved.symm.trans hq)
  · exact fun q hq => ((h.kept q hq).contents (hdcs q)).of_eq rfl rfl

/-- The set may be replaced by a smaller one that still has the live contexts. -/
theorem Kept.table (h : Kept s G) {table : GdiHandleTable}
    (hroots : ∀ i p, LiveDc table i p → G p) : Kept { s with table } G :=
  ⟨hroots, h.closed, fun q hq => (h.kept q hq).of_eq rfl rfl⟩

/-- The live contexts and their saved states are such a set. -/
theorem Kept.restrict (h : Kept s G) :
    Kept s fun q => ∃ i p, LiveDc s.table i p ∧ Reaches s p q := by
  constructor
  · exact fun i p hlive => ⟨i, p, hlive, Relation.ReflTransGen.refl⟩
  · intro q r ⟨i, p, hlive, hreach⟩ hlink
    exact ⟨i, p, hlive, hreach.tail hlink⟩
  · intro q ⟨i, p, hlive, hreach⟩
    exact h.kept q (h.reaches (h.roots i p hlive) hreach)

/-- Contexts do not matter to what handles denote. -/
theorem Backed.withDcs (h : Backed s) (dcs : Pool DcSelection) : Backed { s with dcs } :=
  ⟨h.nextFree, h.object, h.bitmap, h.distinct, h.fresh, h.pixels, h.owner⟩

/-- A handle may be freed. -/
theorem Backed.freeHandle (h : Backed s) (handle : UInt32) :
    Backed { s with table := (gdiFreeHandle s.table handle).1 } := by
  have hnext := Nat.le_trans (gdiFreeHandle_nextFree s.table handle) h.nextFree
  have hold : ∀ j, ((gdiFreeHandle s.table handle).1.entries j).inUse = true →
      (gdiFreeHandle s.table handle).1.entries j = s.table.entries j := by
    intro j hj
    rcases gdiFreeHandle_cases s.table handle with heq | ⟨-, -, -, hentries, -⟩
    · rw [heq]
    · rw [hentries] at hj ⊢
      by_cases hsame : j = gdiHandleIndex handle
      · rw [hsame, Function.update_self] at hj
        cases hj
      · rw [Function.update_of_ne hsame]
  refine ⟨hnext, ?_, ?_, ?_, h.fresh, h.pixels, h.owner⟩
  · intro kind i huse
    have heq := hold i huse
    dsimp only at huse ⊢
    rw [heq] at huse ⊢
    exact h.object kind i huse
  · intro i huse
    have heq := hold i huse
    dsimp only at huse ⊢
    rw [heq] at huse ⊢
    exact h.bitmap i huse
  · intro i j hi hj
    have hi' := hold i hi
    have hj' := hold j hj
    dsimp only at hi hj ⊢
    rw [hi'] at hi ⊢
    rw [hj'] at hj ⊢
    exact h.distinct i j hi hj

/-- A handle may be made for a context, or for an object that has no other one. -/
theorem Backed.newHandle (h : Backed s) {ptr : GdiPtr} {type : UInt8} {reuse : UInt16}
    (hentries : (gdiAllocHandle s.table (some ptr) type).1.entries =
      Function.update s.table.entries i
        { object := some ptr, type, reuseCount := reuse, inUse := true })
    (hobject : ∀ kind, type = GdiKind.type kind →
      ∃ a, ptr = .object a ∧ (s.objects kind).inUse a = true)
    (hbitmap : type = gdiObjBitmap → ∃ b, ptr = .object b ∧ s.bitmaps.inUse b = true)
    (hnew : type ≠ gdiObjDc → ∀ j, (s.table.entries j).inUse = true →
      (s.table.entries j).type = type → (s.table.entries j).object ≠ some ptr) :
    Backed { s with table := (gdiAllocHandle s.table (some ptr) type).1 } := by
  refine ⟨gdiAllocHandle_nextFree h.nextFree _ _, ?_, ?_, ?_, h.fresh, h.pixels, h.owner⟩
  · intro kind j
    show ((gdiAllocHandle s.table (some ptr) type).1.entries j).inUse = true → _
    dsimp only
    rw [hentries]
    by_cases hj : j = i
    · rw [hj, Function.update_self]
      intro _ htype
      obtain ⟨a, rfl, huse⟩ := hobject kind htype
      exact ⟨a, rfl, huse⟩
    · rw [Function.update_of_ne hj]
      exact h.object kind j
  · intro j
    dsimp only
    rw [hentries]
    by_cases hj : j = i
    · rw [hj, Function.update_self]
      intro _ htype
      obtain ⟨b, rfl, huse⟩ := hbitmap htype
      exact ⟨b, rfl, huse⟩
    · rw [Function.update_of_ne hj]
      exact h.bitmap j
  · intro j k
    dsimp only
    rw [hentries]
    by_cases hj : j = i
    · by_cases hk : k = i
      · exact fun _ _ _ _ _ => hj.trans hk.symm
      · rw [hj, Function.update_self, Function.update_of_ne hk]
        intro _ huse htype hdc hsame
        exact absurd hsame.symm (hnew hdc k huse htype.symm)
    · by_cases hk : k = i
      · rw [hk, Function.update_self, Function.update_of_ne hj]
        intro huse _ htype hdc hsame
        exact absurd hsame (hnew (fun heq => hdc (htype.trans heq)) j huse htype)
      · rw [Function.update_of_ne hj, Function.update_of_ne hk]
        exact h.distinct j k

/-- A new context. -/
theorem AliveInv.newDc {s₁ : GdiState} {answer : Option Nat} (h : AliveInv s) (hnew : NewDc dc)
    (halloc : gdiAllocDc s answer = some (s₁, p)) (hmade : newDc s₁ p dc = some (s', made)) :
    AliveInv s' := by
  obtain ⟨-, rfl⟩ := gdiAllocDc_spec halloc
  obtain ⟨G, hkept⟩ := h.kept
  have hkept₁ := hkept.setDc (p := p) (dcKept_empty s) (fun q hq => nomatch hq)
  have hbacked₁ : Backed (s.setDc p { inUse := true }) := h.backed.withDcs _
  have hsaved : ∀ q, dc.savedDc = some q → (G q ∨ q = p) ∨ q = p := by
    intro q hq
    rw [hnew.savedDc] at hq
    cases hq
  rcases newDc_cases hbacked₁.nextFree hmade with
    ⟨dcs, rfl, hdcs⟩ | ⟨i, -, -, hentries, -, rfl⟩
  · have hkept₂ := hkept₁.setDc (p := p) (hnew.kept _).unused hsaved
    exact ⟨h.backed.withDcs _, _, hkept₂.contents fun q => .inl (congrFun hdcs q)⟩
  · have hbacked₂ := hbacked₁.newHandle hentries
      (fun kind htype => absurd htype.symm kind.type_ne_dc)
      (fun htype => absurd htype (by decide)) (fun hne => absurd rfl hne)
    have hkept₂ : Kept { s.setDc p { inUse := true } with
        table := (gdiAllocHandle s.table (some (.object p)) gdiObjDc).1 } fun q => G q ∨ q = p := by
      apply hkept₁.table
      intro j q hlive
      rcases LiveDc.of_newHandle hentries hlive with ⟨-, -, hsame⟩ | hlive
      · exact .inr (GdiPtr.object.inj hsame).symm
      · exact hkept₁.roots j q hlive
    exact ⟨hbacked₂.withDcs _, _, hkept₂.setDc ((hnew.kept _).withHandle made) hsaved⟩

/-- The objects of a kind may change apart from those that handles denote. -/
theorem Backed.setObjects (h : Backed s) {pool : Pool GdiObject}
    (hagree : (s.objects kind).AgreeOff pool a)
    (hunused : ∀ i, (s.table.entries i).inUse = true →
      (s.table.entries i).type = GdiKind.type kind →
      (s.table.entries i).object ≠ some (.object a)) : Backed (s.setObjects kind pool) := by
  refine ⟨h.nextFree, ?_, h.bitmap, h.distinct, h.fresh, h.pixels, h.owner⟩
  intro kind' i huse htype
  obtain ⟨a', hobject, hused⟩ := h.object kind' i huse htype
  refine ⟨a', hobject, ?_⟩
  show (Function.update s.objects kind pool kind').inUse a' = true
  by_cases hkind : kind' = kind
  · subst hkind
    rw [Function.update_self, hagree.inUse fun heq => hunused i huse htype (heq ▸ hobject)]
    exact hused
  · rw [Function.update_of_ne hkind]
    exact hused

/-- What contexts point to may not change. -/
theorem Kept.setObjects (h : Kept s G) {pool : Pool GdiObject}
    (hagree : (s.objects kind).AgreeOff pool a)
    (hunused : ∀ q, G q → (s.dcs.object q).PointsTo kind a →
      (s.objects kind).inUse a = false) : Kept (s.setObjects kind pool) G := by
  refine ⟨h.roots, h.closed, ?_⟩
  intro q hq
  refine (h.kept q hq).mono ?_ fun b _ huse => ⟨huse, rfl, rfl⟩
  intro kind' a' hpoints huse
  show (Function.update s.objects kind pool kind').inUse a' = true ∧
    (Function.update s.objects kind pool kind').frees a' = _
  by_cases hkind : kind' = kind
  · subst hkind
    rw [Function.update_self]
    have hne : a' ≠ a := by
      rintro rfl
      rw [hunused q hq hpoints] at huse
      cases huse
    rw [hagree.inUse hne]
    exact ⟨huse, (hagree a' hne).2⟩
  · rw [Function.update_of_ne hkind]
    exact ⟨huse, rfl⟩

theorem AliveInv.createObject {answer : Option Nat} (h : AliveInv s)
    (hmade : createObject kind s answer = some (s', made)) : AliveInv s' := by
  obtain ⟨G, hkept⟩ := h.kept
  rcases createObject_cases h.backed.nextFree hmade with rfl | ⟨a, pool, hfree, hagree, hcases⟩
  · exact h
  · have hnot : ∀ i, (s.table.entries i).inUse = true →
        (s.table.entries i).type = kind.type →
        (s.table.entries i).object ≠ some (.object a) := by
      intro i huse htype hsame
      obtain ⟨a', hobject, hused⟩ := h.backed.object kind i huse htype
      obtain rfl : a = a' := GdiPtr.object.inj (Option.some.inj (hsame.symm.trans hobject))
      rw [hfree] at hused
      cases hused
    have hbacked₁ := h.backed.setObjects hagree hnot
    have hkept₁ := hkept.setObjects hagree fun _ _ _ => hfree
    rcases hcases with ⟨-, rfl⟩ | ⟨i, -, -, -, hused, hentries, rfl⟩
    · exact ⟨hbacked₁, G, hkept₁⟩
    · have hself : (s.setObjects kind pool).objects kind = pool := Function.update_self _ _ _
      refine ⟨hbacked₁.newHandle hentries ?_ ?_ ?_, G, hkept₁.table ?_⟩
      · intro kind' htype
        obtain rfl := GdiKind.type_inj htype
        exact ⟨a, rfl, hself.symm ▸ hused⟩
      · exact fun htype => absurd htype kind.type_ne_bitmap
      · exact fun _ j huse htype => hnot j huse htype
      · intro j p hlive
        rcases LiveDc.of_newHandle hentries hlive with ⟨-, htype, -⟩ | hlive
        · exact absurd htype kind.type_ne_dc
        · exact hkept₁.roots j p hlive

/-- Bitmaps may be linked to other contexts. -/
theorem Backed.withBitmaps (h : Backed s) {bitmaps : Pool GdiBitmap}
    (hused : ∀ b, bitmaps.inUse b = s.bitmaps.inUse b)
    (hpixels : ∀ b, (bitmaps.object b).pixels = (s.bitmaps.object b).pixels) :
    Backed { s with bitmaps } := by
  refine ⟨h.nextFree, h.object, ?_, h.distinct, h.fresh, ?_, ?_⟩
  · intro i hi htype
    obtain ⟨b, hobject, huse⟩ := h.bitmap i hi htype
    exact ⟨b, hobject, (hused b).trans huse⟩
  · intro b id
    show bitmaps.inUse b = true → (bitmaps.object b).pixels = some id → _
    rw [hused, hpixels]
    exact h.pixels b id
  · intro b b' id
    show bitmaps.inUse b = true → bitmaps.inUse b' = true → (bitmaps.object b).pixels = some id →
      (bitmaps.object b').pixels = some id → _
    rw [hused, hused, hpixels, hpixels]
    exact h.owner b b' id

theorem Kept.withBitmaps (h : Kept s G) {bitmaps : Pool GdiBitmap}
    (hfrees : bitmaps.frees = s.bitmaps.frees)
    (hused : ∀ b, bitmaps.inUse b = s.bitmaps.inUse b)
    (hpixels : ∀ b, (bitmaps.object b).pixels = (s.bitmaps.object b).pixels) :
    Kept { s with bitmaps } G := by
  refine ⟨h.roots, h.closed, ?_⟩
  intro q hq
  refine (h.kept q hq).mono (fun _ _ _ huse => ⟨huse, rfl⟩) ?_
  exact fun b _ huse => ⟨(hused b).trans huse, congrFun hfrees b, hpixels b⟩

/-- A member of the set may be replaced within the set. -/
theorem Kept.setMember (h : Kept s G) (hp : G p) (hdc : DcKept s dc)
    (hsaved : ∀ q, dc.savedDc = some q → G q) : Kept (s.setDc p dc) G := by
  have hset := h.setDc (p := p) hdc fun q hq => .inl (hsaved q hq)
  have hG : (fun q => G q ∨ q = p) = G := by
    funext q
    refine propext ⟨?_, .inl⟩
    rintro (hq | rfl)
    · exact hq
    · exact hp
  exact hG ▸ hset

/-- A handle denotes an object that is alive. -/
theorem Backed.refTo_alive (h : Backed s) {ptr : GdiPtr}
    (hget : gdiGetObject s.table handle kind.type = some ptr) :
    AliveRef s kind (s.refTo kind ptr) := by
  cases ptr with
  | stock index => trivial
  | object a =>
    obtain ⟨-, huse, htype, hobject⟩ := gdiGetObject_object hget
    obtain ⟨a', hobject', hused⟩ := h.object kind _ huse htype
    obtain rfl : a = a' := GdiPtr.object.inj (Option.some.inj (hobject.symm.trans hobject'))
    exact ⟨hused, rfl⟩

theorem AliveInv.selectObject {prev : DcSelection → UInt32}
    {put : Ref GdiPtr → UInt32 → DcSelection → DcSelection} {hdc hobject : UInt32}
    (hselected : ∀ r hobject dc,
      (put r hobject dc).selected = Function.update dc.selected kind (some r))
    (hbitmap : ∀ r hobject dc, (put r hobject dc).bitmap = dc.bitmap)
    (hpixels : ∀ r hobject dc, (put r hobject dc).pixels = dc.pixels)
    (hsaved : ∀ r hobject dc, (put r hobject dc).savedDc = dc.savedDc)
    (h : AliveInv s) (hstep : selectObject kind prev put s hdc hobject = some (s', made)) :
    AliveInv s' := by
  obtain ⟨G, hkept⟩ := h.kept
  rcases selectObject_cases hstep with rfl | ⟨p, ptr, hp, hptr, rfl⟩
  · exact h
  · have hmem := hkept.roots _ p (getDc_live hp)
    have hold := hkept.kept p hmem
    refine ⟨h.backed.withDcs _, G, hkept.setMember hmem ⟨?_, ?_, ?_⟩ ?_⟩
    · intro kind' r
      rw [hselected]
      by_cases hkind : kind' = kind
      · rw [hkind, Function.update_self]
        intro hr
        obtain rfl := Option.some.inj hr
        exact h.backed.refTo_alive hptr
      · rw [Function.update_of_ne hkind]
        exact hold.objects kind' r
    · rw [hbitmap]
      exact hold.bitmap
    · rw [hbitmap, hpixels]
      exact hold.surface
    · rw [hsaved]
      exact fun q hq => hkept.closed p q hmem hq

theorem AliveInv.selectBitmap {hdc hbitmap : UInt32} (h : AliveInv s)
    (hstep : gdiSelectBitmap s hdc hbitmap = some (s', made)) : AliveInv s' := by
  obtain ⟨G, hkept⟩ := h.kept
  rcases gdiSelectBitmap_cases hstep with
    rfl | ⟨p, b, bitmaps, hp, hb, -, -, hfrees, hbitmaps, rfl⟩
  · exact h
  · have hsame : ∀ b', bitmaps.inUse b' = s.bitmaps.inUse b' := fun b' =>
      (congrArg GdiBitmap.inUse (hbitmaps b')).trans rfl
    have hpixels : ∀ b', (bitmaps.object b').pixels = (s.bitmaps.object b').pixels := fun b' =>
      (congrArg GdiBitmap.pixels (hbitmaps b')).trans rfl
    have hmem := hkept.roots _ p (getDc_live hp)
    have hold := hkept.kept p hmem
    have hused : s.bitmaps.inUse b = true := by
      unfold GdiState.getBitmap at hb
      split at hb
      · next heq =>
        obtain rfl := Option.some.inj hb
        obtain ⟨-, huse, htype, hobject⟩ := gdiGetObject_object heq
        obtain ⟨b', hobject', hused⟩ := h.backed.bitmap _ huse htype
        cases hobject.symm.trans hobject'
        exact hused
      · cases hb
    have hnew : DcKept s ((s.dcs.object p).withBitmap (s.refToBitmap b) hbitmap
        (s.bitmaps.object b)) := by
      constructor
      · intro kind r hr
        apply hold.objects kind r
        cases kind <;> exact hr
      · intro r hr
        obtain rfl := Option.some.inj hr
        exact ⟨hused, rfl⟩
      · intro id hid
        obtain ⟨id', hid', heq⟩ := Option.map_eq_some_iff.mp hid
        cases heq
        exact ⟨_, rfl, hid'⟩
    have hset := hkept.setMember hmem hnew fun q hq => hkept.closed p q hmem hq
    exact ⟨(h.backed.withDcs _).withBitmaps hsame hpixels, G,
      hset.withBitmaps hfrees hsame hpixels⟩

theorem AliveInv.saveDc {answer : Option Nat} {hdc : UInt32} {level : Int} (h : AliveInv s)
    (hstep : gdiSaveDc s answer hdc = some (s', level)) : AliveInv s' := by
  obtain ⟨G, hkept⟩ := h.kept
  rcases gdiSaveDc_cases hstep with ⟨rfl, -⟩ | ⟨p, q, s₁, hp, halloc, rfl, -⟩
  · exact h
  · obtain ⟨-, rfl⟩ := gdiAllocDc_spec halloc
    have hmem := hkept.roots _ p (getDc_live hp)
    have h₁ := hkept.setDc (p := q) (dcKept_empty s) (fun r hr => nomatch hr)
    have h₂ := h₁.setMember (.inr rfl) (h₁.kept p (.inl hmem)) fun r hr =>
      h₁.closed p r (.inl hmem) hr
    have hsaved := (h₂.kept p (.inl hmem)).withSaved (some q)
      ((((s.setDc q { inUse := true }).setDc q
        ((s.setDc q { inUse := true }).dcs.object p)).dcs.object p).saveLevel + 1)
    refine ⟨((h.backed.withDcs _).withDcs _).withDcs _, _, h₂.setMember (.inl hmem) hsaved ?_⟩
    intro r hr
    cases hr
    exact .inr rfl

/-- A saved state of a member of the set is copied back to it. -/
theorem Kept.restoreStates {level : Int} (h : Kept s G) (hp : G p)
    (hloop : restoreStates fuel s p level = some s') :
    ∃ dcs, s' = { s with dcs } ∧ Kept s' G := by
  induction fuel generalizing s with
  | zero =>
    unfold Wbox.Gdi.restoreStates at hloop
    obtain ⟨dc, hread, hloop⟩ := Option.bind_eq_some_iff.mp hloop
    split at hloop
    · obtain rfl := Option.some.inj hloop
      exact ⟨s.dcs, rfl, h⟩
    · split at hloop
      · obtain rfl := Option.some.inj hloop
        exact ⟨s.dcs, rfl, h⟩
      · cases hloop
  | succ fuel ih =>
    unfold Wbox.Gdi.restoreStates at hloop
    obtain ⟨dc, hread, hloop⟩ := Option.bind_eq_some_iff.mp hloop
    obtain rfl := Pool.read_eq hread
    split at hloop
    · obtain rfl := Option.some.inj hloop
      exact ⟨s.dcs, rfl, h⟩
    · next q hq =>
      split at hloop
      · obtain rfl := Option.some.inj hloop
        exact ⟨s.dcs, rfl, h⟩
      · obtain ⟨saved, hread, hloop⟩ := Option.bind_eq_some_iff.mp hloop
        obtain rfl := Pool.read_eq hread
        obtain ⟨s₁, hfree, hloop⟩ := Option.bind_eq_some_iff.mp hloop
        obtain ⟨dcs, rfl, hdcs⟩ := gdiFreeDc_contents hfree
        have hmem := h.closed p q hp hq
        have hcopy := h.setMember hp ((h.kept q hmem).withHandle (s.dcs.object p).handle)
          fun r hr => h.closed q r hmem hr
        obtain ⟨dcs', rfl, hkept⟩ := ih (hcopy.contents hdcs) hloop
        exact ⟨dcs', rfl, hkept⟩

theorem AliveInv.restoreDc {hdc : UInt32} {level : Int32} {ok : Bool} (h : AliveInv s)
    (hstep : gdiRestoreDc fuel s hdc level = some (s', ok)) : AliveInv s' := by
  obtain ⟨G, hkept⟩ := h.kept
  unfold gdiRestoreDc at hstep
  split at hstep
  · obtain ⟨rfl, -⟩ := Prod.mk.inj (Option.some.inj hstep)
    exact h
  · next p hp =>
    obtain ⟨dc, -, hstep⟩ := Option.bind_eq_some_iff.mp hstep
    dsimp only at hstep
    split at hstep
    · obtain ⟨rfl, -⟩ := Prod.mk.inj (Option.some.inj hstep)
      exact h
    · obtain ⟨s₁, hloop, hstep⟩ := Option.bind_eq_some_iff.mp hstep
      obtain ⟨rfl, -⟩ := Prod.mk.inj (Option.some.inj hstep)
      obtain ⟨dcs, rfl, hkept'⟩ := hkept.restoreStates (hkept.roots _ p (getDc_live hp)) hloop
      exact ⟨h.backed.withDcs dcs, G, hkept'⟩

/-- Freeing a handle keeps the set. -/
theorem Kept.freeHandle (h : Kept s G) (handle : UInt32) :
    Kept { s with table := (gdiFreeHandle s.table handle).1 } G :=
  h.table fun i p hlive => h.roots i p hlive.of_freeHandle

theorem AliveInv.deleteDc {hdc : UInt32} {ok : Bool} (h : AliveInv s)
    (hstep : gdiDeleteDc fuel s hdc = some (s', ok)) : AliveInv s' := by
  obtain ⟨G, hkept⟩ := h.kept
  rcases gdiDeleteDc_cases hstep with ⟨-, rfl⟩ | ⟨p, dcs, -, rfl, hdcs⟩
  · exact h
  · exact ⟨(h.backed.freeHandle hdc).withDcs dcs, G, (hkept.freeHandle hdc).contents hdcs⟩

/-- The bitmaps may change apart from those that handles denote, and a bitmap may get new pixels. -/
theorem Backed.setBitmaps (h : Backed s) {bitmaps : Pool GdiBitmap} {buffers : Nat}
    {freed : Nat → Bool} (hagree : s.bitmaps.AgreeOff bitmaps b)
    (hunused : ∀ i, (s.table.entries i).inUse = true →
      (s.table.entries i).type = gdiObjBitmap → (s.table.entries i).object ≠ some (.object b))
    (hbuffers : s.buffers ≤ buffers) (hfresh : ∀ id, buffers ≤ id → freed id = false)
    (hfreed : ∀ b' id, b' ≠ b → s.bitmaps.inUse b' = true →
      (s.bitmaps.object b').pixels = some id → freed id = s.freed id)
    (hpixels : bitmaps.inUse b = true → ∀ id, (bitmaps.object b).pixels = some id →
      s.buffers ≤ id ∧ id < buffers ∧ freed id = false) :
    Backed { s with bitmaps, buffers, freed } := by
  have hold : ∀ b' ≠ b, bitmaps.inUse b' = s.bitmaps.inUse b' ∧
      (bitmaps.object b').pixels = (s.bitmaps.object b').pixels := fun b' hne =>
    ⟨hagree.inUse hne, congrArg GdiBitmap.pixels (hagree b' hne).1⟩
  refine ⟨h.nextFree, h.object, ?_, h.distinct, hfresh, ?_, ?_⟩
  · intro i huse htype
    obtain ⟨b', hobject, hused⟩ := h.bitmap i huse htype
    have hne : b' ≠ b := fun heq => hunused i huse htype (heq ▸ hobject)
    exact ⟨b', hobject, (hold b' hne).1.trans hused⟩
  · intro b' id huse hid
    dsimp only at huse hid ⊢
    by_cases hb : b' = b
    · subst hb
      exact (hpixels huse id hid).2
    · rw [(hold b' hb).1] at huse
      rw [(hold b' hb).2] at hid
      obtain ⟨hlt, hlive⟩ := h.pixels b' id huse hid
      exact ⟨Nat.lt_of_lt_of_le hlt hbuffers, (hfreed b' id hb huse hid).trans hlive⟩
  · intro b₁ b₂ id huse₁ huse₂ hid₁ hid₂
    dsimp only at huse₁ huse₂ hid₁ hid₂
    by_cases hb₁ : b₁ = b
    · by_cases hb₂ : b₂ = b
      · exact hb₁.trans hb₂.symm
      · rw [(hold b₂ hb₂).1] at huse₂
        rw [(hold b₂ hb₂).2] at hid₂
        subst hb₁
        have hlt := (h.pixels b₂ id huse₂ hid₂).1
        have hge := (hpixels huse₁ id hid₁).1
        omega
    · rw [(hold b₁ hb₁).1] at huse₁
      rw [(hold b₁ hb₁).2] at hid₁
      by_cases hb₂ : b₂ = b
      · subst hb₂
        have hlt := (h.pixels b₁ id huse₁ hid₁).1
        have hge := (hpixels huse₂ id hid₂).1
        omega
      · rw [(hold b₂ hb₂).1] at huse₂
        rw [(hold b₂ hb₂).2] at hid₂
        exact h.owner b₁ b₂ id huse₁ huse₂ hid₁ hid₂

theorem Kept.setBitmaps (h : Kept s G) {bitmaps : Pool GdiBitmap} {buffers : Nat}
    {freed : Nat → Bool} (hagree : s.bitmaps.AgreeOff bitmaps b)
    (hunused : ∀ q, G q → (s.dcs.object q).bitmapAddr = some b → s.bitmaps.inUse b = false) :
    Kept { s with bitmaps, buffers, freed } G := by
  refine ⟨h.roots, h.closed, ?_⟩
  intro q hq
  refine (h.kept q hq).mono (fun _ _ _ huse => ⟨huse, rfl⟩) ?_
  intro b' hpoints huse
  have hne : b' ≠ b := by
    rintro rfl
    rw [hunused q hq hpoints] at huse
    cases huse
  exact ⟨(hagree.inUse hne).trans huse, (hagree b' hne).2,
    congrArg GdiBitmap.pixels (hagree b' hne).1⟩

theorem AliveInv.createBitmap {heap : Heap} {answer : Option Nat} {width height : Int32}
    {planes bpp : UInt32} (h : AliveInv s)
    (hstep : gdiCreateBitmap heap s answer width height planes bpp = some (s', made)) :
    AliveInv s' := by
  obtain ⟨G, hkept⟩ := h.kept
  rcases gdiCreateBitmap_cases h.backed.nextFree hstep with
    rfl | ⟨b, bitmaps, hfree, hagree, -, hcases⟩
  · exact h
  · have hnot : ∀ i, (s.table.entries i).inUse = true →
        (s.table.entries i).type = gdiObjBitmap →
        (s.table.entries i).object ≠ some (.object b) := by
      intro i huse htype hsame
      obtain ⟨b', hobject, hused⟩ := h.backed.bitmap i huse htype
      cases hsame.symm.trans hobject
      rw [hfree] at hused
      cases hused
    rcases hcases with ⟨hdead, rfl⟩ | ⟨i, -, -, -, hused, hpixels, hentries, rfl⟩
    · refine ⟨h.backed.setBitmaps hagree hnot (Nat.le_refl _) h.backed.fresh
        (fun _ _ _ _ _ => rfl) ?_, G, hkept.setBitmaps hagree fun _ _ _ => hfree⟩
      intro huse
      rw [hdead] at huse
      cases huse
    · have hbacked : Backed { s with bitmaps, buffers := s.buffers + 1 } := by
        apply h.backed.setBitmaps hagree hnot (Nat.le_succ _)
        · exact fun id hid => h.backed.fresh id (by omega)
        · exact fun _ _ _ _ _ => rfl
        · intro _ id hid
          obtain rfl := Option.some.inj (hpixels.symm.trans hid)
          exact ⟨Nat.le_refl _, Nat.lt_succ_self _, h.backed.fresh _ (Nat.le_refl _)⟩
      have hkept₁ : Kept { s with bitmaps, buffers := s.buffers + 1 } G :=
        hkept.setBitmaps hagree fun _ _ _ => hfree
      refine ⟨hbacked.newHandle hentries ?_ ?_ ?_, G, hkept₁.table ?_⟩
      · exact fun kind htype => absurd htype.symm kind.type_ne_bitmap
      · exact fun _ => ⟨b, rfl, hused⟩
      · exact fun _ j huse htype => hnot j huse htype
      · intro j p hlive
        rcases LiveDc.of_newHandle hentries hlive with ⟨-, htype, -⟩ | hlive
        · cases htype
        · exact hkept₁.roots j p hlive

/-- The handle of a deleted object was the only one. -/
theorem Backed.deleted (h : Backed s) {type : UInt8} (hdel : Deletes s handle type a)
    (hdc : type ≠ gdiObjDc) (i : Nat)
    (huse : ((gdiFreeHandle s.table handle).1.entries i).inUse = true)
    (htype : ((gdiFreeHandle s.table handle).1.entries i).type = type) :
    ((gdiFreeHandle s.table handle).1.entries i).object ≠ some (.object a) := by
  obtain ⟨hne, heq⟩ := hdel.entries huse
  rw [heq] at huse htype ⊢
  intro hobject
  have hsame : i = gdiHandleIndex handle :=
    h.distinct i _ huse hdel.inUse (htype.trans hdel.entryType.symm)
      (fun h => hdc (htype.symm.trans h)) (hobject.trans hdel.object.symm)
  exact hne hsame

theorem AliveInv.deleteObject (h : AliveInv s)
    (hok : DeletesUnselected s (.deleteObject handle))
    (hstep : ntGdiDeleteObjectApp fuel s handle = some (s', made)) : AliveInv s' := by
  obtain ⟨G, hkept⟩ := h.kept
  have hreach := hkept.restrict.freeHandle handle
  have hbacked := h.backed.freeHandle handle
  rcases ntGdiDeleteObjectApp_cases hstep with
    rfl | ⟨ok, hdelete⟩ | ⟨kind, a, hdel, hfree⟩ | ⟨b, hdel, hfree⟩ | ⟨-, rfl⟩
  · exact h
  · exact h.deleteDc hdelete
  · obtain ⟨pool, hpool, rfl⟩ := Option.map_eq_some_iff.mp hfree
    have hagree := Pool.free_agreeOff hpool
    refine ⟨hbacked.setObjects hagree (h.backed.deleted hdel kind.type_ne_dc), _,
      hreach.setObjects hagree ?_⟩
    intro q ⟨i, p, hlive, hq⟩ hpoints
    exact absurd ⟨i, p, q, hlive, hq, hpoints⟩ (hok.1 kind a hdel)
  · obtain ⟨bitmaps, freed, rfl, hagree, hobject, -, hpixels⟩ := gdiFreeBitmap_spec hfree
    have hdead : bitmaps.inUse b = false := congrArg GdiBitmap.inUse hobject
    have hused : s.bitmaps.inUse b = true := by
      obtain ⟨b', hobject', hused⟩ := h.backed.bitmap _ hdel.inUse hdel.entryType
      cases hdel.object.symm.trans hobject'
      exact hused
    have hfreed : ∀ id, freed id = s.freed id ∨ (s.bitmaps.object b).pixels = some id := by
      intro id
      cases hown : (s.bitmaps.object b).pixels with
      | none =>
        have hsame : freePixels { s with table := (gdiFreeHandle s.table handle).1 } none = _ :=
          hown ▸ hpixels
        exact .inl (congrFun (congrArg GdiState.freed (Option.some.inj hsame)) id).symm
      | some own =>
        have hsome : freePixels { s with table := (gdiFreeHandle s.table handle).1 }
          (some own) = _ := hown ▸ hpixels
        have heq : freed = Function.update s.freed own true :=
          congrArg GdiState.freed (freePixels_some hsome)
        by_cases hid : id = own
        · exact .inr (congrArg some hid.symm)
        · exact .inl (heq ▸ Function.update_of_ne hid _ _)
    refine ⟨hbacked.setBitmaps hagree (h.backed.deleted hdel (by decide)) (Nat.le_refl _) ?_ ?_ ?_,
      _, hreach.setBitmaps hagree ?_⟩
    · intro id hid
      rcases hfreed id with heq | hown
      · exact heq.trans (h.backed.fresh id hid)
      · have hlt := (h.backed.pixels b id hused hown).1
        have hge : s.buffers ≤ id := hid
        omega
    · intro b' id hne huse hid
      rcases hfreed id with heq | hown
      · exact heq
      · exact absurd (h.backed.owner b' b id huse hused hid hown) hne
    · intro huse
      rw [hdead] at huse
      cases huse
    · intro q ⟨i, p, hlive, hq⟩ hpoints
      exact absurd ⟨i, p, q, hlive, hq, hpoints⟩ (hok.2 b hdel)
  · exact ⟨hbacked, _, hkept.freeHandle handle⟩

/-- A guarded call keeps the invariant. -/
theorem AliveInv.step (h : AliveInv s) (hok : DeletesUnselected s op)
    (hstep : selectionStep fuel s op = some s') : AliveInv s' := by
  cases op with
  | createDc answer hdcRef =>
    obtain ⟨⟨s₁, made⟩, hcall, rfl⟩ := Option.map_eq_some_iff.mp hstep
    rcases gdiCreateCompatibleDc_cases hcall with rfl | ⟨s₂, p, dc, halloc, hnew, -, hmade⟩
    · exact h
    · exact h.newDc hnew halloc hmade
  | createDisplayDc answer display =>
    obtain ⟨⟨s₁, made⟩, hcall, rfl⟩ := Option.map_eq_some_iff.mp hstep
    rcases gdiCreateDisplayDc_cases hcall with rfl | ⟨s₂, p, dc, halloc, hnew, hmade⟩
    · exact h
    · exact h.newDc hnew halloc hmade
  | createObject kind answer =>
    obtain ⟨⟨s₁, made⟩, hcall, rfl⟩ := Option.map_eq_some_iff.mp hstep
    exact h.createObject hcall
  | createBitmap heap answer width height planes bpp =>
    obtain ⟨⟨s₁, made⟩, hcall, rfl⟩ := Option.map_eq_some_iff.mp hstep
    exact h.createBitmap hcall
  | selectBrush hdc hbrush =>
    obtain ⟨⟨s₁, made⟩, hcall, rfl⟩ := Option.map_eq_some_iff.mp hstep
    unfold gdiSelectBrush at hcall
    refine AliveInv.selectObject ?_ ?_ ?_ ?_ h hcall
    · exact fun _ _ _ => funext fun kind => by cases kind <;> rfl
    all_goals exact fun _ _ _ => rfl
  | selectPen hdc hpen =>
    obtain ⟨⟨s₁, made⟩, hcall, rfl⟩ := Option.map_eq_some_iff.mp hstep
    unfold gdiSelectPen at hcall
    refine AliveInv.selectObject ?_ ?_ ?_ ?_ h hcall
    · exact fun _ _ _ => funext fun kind => by cases kind <;> rfl
    all_goals exact fun _ _ _ => rfl
  | selectFont hdc hfont =>
    obtain ⟨⟨s₁, made⟩, hcall, rfl⟩ := Option.map_eq_some_iff.mp hstep
    unfold gdiSelectFont at hcall
    refine AliveInv.selectObject ?_ ?_ ?_ ?_ h hcall
    · exact fun _ _ _ => funext fun kind => by cases kind <;> rfl
    all_goals exact fun _ _ _ => rfl
  | selectBitmap hdc hbitmap =>
    obtain ⟨⟨s₁, made⟩, hcall, rfl⟩ := Option.map_eq_some_iff.mp hstep
    exact h.selectBitmap hcall
  | deleteObject handle =>
    obtain ⟨⟨s₁, made⟩, hcall, rfl⟩ := Option.map_eq_some_iff.mp hstep
    exact h.deleteObject hok hcall
  | saveDc answer hdc =>
    obtain ⟨⟨s₁, level⟩, hcall, rfl⟩ := Option.map_eq_some_iff.mp hstep
    exact h.saveDc hcall
  | restoreDc hdc level =>
    obtain ⟨⟨s₁, ok⟩, hcall, rfl⟩ := Option.map_eq_some_iff.mp hstep
    exact h.restoreDc hcall
  | deleteDc hdc =>
    obtain ⟨⟨s₁, ok⟩, hcall, rfl⟩ := Option.map_eq_some_iff.mp hstep
    exact h.deleteDc hcall

/-- Deleting what is selected leaves a pointer to it behind. -/
theorem selectedAlive_delete_not (h : AliveInv s) (hbad : ¬ DeletesUnselected s op)
    (hstep : selectionStep fuel s op = some s') : ¬ SelectedAlive s' := by
  cases op with
  | deleteObject handle =>
    obtain ⟨⟨s₁, made⟩, hcall, rfl⟩ := Option.map_eq_some_iff.mp hstep
    have halive := h.selectedAlive
    intro hall
    simp only [DeletesUnselected, not_and_or, not_forall, not_not] at hbad
    rcases hbad with ⟨kind, a, hdel, i, p, q, hlive, hreach, r, hr, htarget⟩ |
      ⟨b, hdel, i, p, q, hlive, hreach, hpoints⟩
    · rw [hdel.object_eq] at hcall
      obtain ⟨s₂, hfree, heq⟩ := Option.map_eq_some_iff.mp hcall
      obtain ⟨rfl, -⟩ := Prod.mk.inj heq
      obtain ⟨pool, hpool, rfl⟩ := Option.map_eq_some_iff.mp hfree
      have hold := (halive i p q hlive hreach).objects kind r hr
      have hnew := (hall i p q (hdel.liveDc kind.type_ne_dc hlive) hreach).objects kind r hr
      unfold AliveRef at hold hnew
      rw [htarget] at hold hnew
      have hfrees : (Function.update s.objects kind pool kind).frees a =
          (s.objects kind).frees a + 1 := by
        rw [Function.update_self, (Pool.free_spec hpool).2, Function.update_self]
      have hgone := hnew.2
      have hthen := hold.2
      have hgone' : (Function.update s.objects kind pool kind).frees a = r.frees := hgone
      omega
    · rw [hdel.bitmap_eq] at hcall
      obtain ⟨s₂, hfree, heq⟩ := Option.map_eq_some_iff.mp hcall
      obtain ⟨rfl, -⟩ := Prod.mk.inj heq
      obtain ⟨bitmaps, freed, rfl, -, -, hfrees, -⟩ := gdiFreeBitmap_spec hfree
      obtain ⟨r, hr, rfl⟩ := Option.map_eq_some_iff.mp hpoints
      have hold := (halive i p q hlive hreach).bitmap r hr
      have hnew := (hall i p q (hdel.liveDc (by decide) hlive) hreach).bitmap r hr
      have hthen := hold.2
      have hgone : bitmaps.frees r.target = r.frees := hnew.2
      have hfrees' : bitmaps.frees r.target = s.bitmaps.frees r.target + 1 := hfrees
      omega
  | _ => exact absurd trivial hbad

/-- Nothing is live at the start. -/
theorem aliveInv_init : AliveInv gdiInit := by
  have htype : (gdiInit.table.entries 0).type = 0 := rfl
  have hunused : ∀ b, gdiInit.bitmaps.inUse b ≠ true := fun b => nofun
  refine ⟨⟨by decide, ?_, ?_, ?_, fun _ _ => rfl, fun b _ huse => absurd huse (hunused b),
    fun b _ _ huse => absurd huse (hunused b)⟩, fun _ => False, ?_, fun _ _ hp => hp.elim,
    fun _ hq => hq.elim⟩
  · intro kind i huse hkind
    rw [gdiInit_entries i huse, htype] at hkind
    revert hkind
    cases kind <;> exact nofun
  · intro i huse hbitmap
    rw [gdiInit_entries i huse, htype] at hbitmap
    cases hbitmap
  · intro i j hi hj _ _ _
    exact (gdiInit_entries i hi).trans (gdiInit_entries j hj).symm
  · intro i p hlive
    have hdc := hlive.type
    rw [gdiInit_entries i hlive.inUse, htype] at hdc
    cases hdc

/-- In every run everything selected stays alive exactly if nothing is deleted while a live context
or a saved state has it selected. -/
theorem selectionRun_alive_iff {ops : List SelectionOp} {tr : List GdiState}
    (h : trace (selectionStep fuel) gdiInit ops = some tr) :
    (∀ s ∈ tr, SelectedAlive s) ↔
      Guarded (selectionStep fuel) DeletesUnselected gdiInit ops :=
  trace_forall_iff_guarded (I := AliveInv) (fun _ h => h.selectedAlive)
    (fun _ _ _ h hok hstep => h.step hok hstep)
    (fun _ _ _ h hbad hstep => selectedAlive_delete_not h hbad hstep) aliveInv_init h

/-- A brush that is deleted before there are contexts. -/
theorem selectionRun_alive_brush : ∃ tr,
    trace (selectionStep 0) gdiInit [.createObject .brush none, .deleteObject 0x01100001] =
      some tr ∧
    ((∀ s ∈ tr, SelectedAlive s) ↔ Guarded (selectionStep 0) DeletesUnselected gdiInit
      [.createObject .brush none, .deleteObject 0x01100001]) ∧ ∀ s ∈ tr, SelectedAlive s := by
  have hrun : (trace (selectionStep 0) gdiInit
      [.createObject .brush none, .deleteObject 0x01100001]).isSome = true := by decide +kernel
  obtain ⟨tr, htr⟩ := Option.isSome_iff_exists.mp hrun
  refine ⟨tr, htr, selectionRun_alive_iff htr, (selectionRun_alive_iff htr).mpr ⟨trivial, ?_⟩⟩
  intro s hs
  have hentries : (selectionStep 0 gdiInit (.createObject .brush none)).map
      (fun s => s.table.entries) = some (Function.update gdiInit.table.entries 1
        { object := some (.object 0), type := gdiObjBrush, reuseCount := 1, inUse := true }) := rfl
  rw [hs] at hentries
  have htable := Option.some.inj hentries
  dsimp only at htable
  have hnone : ∀ i p, ¬ LiveDc s.table i p := by
    intro i p hlive
    obtain ⟨huse, htype, -⟩ := hlive
    rw [htable] at huse htype
    by_cases hi : i = 1
    · rw [hi, Function.update_self] at htype
      cases htype
    · rw [Function.update_of_ne hi] at huse htype
      obtain rfl := gdiInit_entries i huse
      cases htype
  refine ⟨⟨?_, ?_⟩, fun _ _ => trivial⟩
  · exact fun _ _ _ ⟨i, p, _, hlive, _⟩ => hnone i p hlive
  · exact fun _ _ ⟨i, p, _, hlive, _⟩ => hnone i p hlive

/-- A brush that is deleted while a context has it selected. -/
theorem selectedBrush_deleted : ∃ tr,
    trace (selectionStep 0) gdiInit [.createDc none 0, .createObject .brush none,
      .selectBrush 0x01010001 0x01100002, .deleteObject 0x01100002] = some tr ∧
    ∃ s ∈ tr, LiveDc s.table 1 0 ∧
      (s.dcs.object 0).brush = some { target := .object 0, frees := 0 } ∧
      (s.objects .brush).inUse 0 = false ∧ ¬ SelectedAlive s := by
  have hrun : (trace (selectionStep 0) gdiInit [.createDc none 0, .createObject .brush none,
      .selectBrush 0x01010001 0x01100002, .deleteObject 0x01100002]).map (fun tr =>
        tr[4]?.map fun s => (s.table.entries 1, (s.dcs.object 0).brush,
          (s.objects .brush).inUse 0)) =
      some (some ({ object := some (.object 0), type := gdiObjDc, reuseCount := 1, inUse := true },
        some { target := .object 0, frees := 0 }, false)) := by decide +kernel
  obtain ⟨tr, htr, hlast⟩ := Option.map_eq_some_iff.mp hrun
  obtain ⟨s, hs, hfields⟩ := Option.map_eq_some_iff.mp hlast
  simp only [Prod.mk.injEq] at hfields
  obtain ⟨hentry, hbrush, hused⟩ := hfields
  have hlive : LiveDc s.table 1 0 := by
    constructor <;> rw [hentry]
  refine ⟨tr, htr, s, List.mem_of_getElem? hs, hlive, hbrush, hused, ?_⟩
  intro hall
  have halive := (hall 1 0 0 hlive Relation.ReflTransGen.refl).objects .brush _ hbrush
  have halive' : (s.objects .brush).inUse 0 = true := halive.1
  rw [hused] at halive'
  cases halive'

end Wbox.Gdi
