import Wbox.Gdi.BitmapLinks

/-!
# What `gdi_restore_dc` goes back to

Runs of creating, changing, saving, restoring and deleting device contexts, with every successful
`gdi_save_dc` of the run on record (`src/gdi/gdi_dc.c:520–574`). The saved states are whole contexts
that share their links, levels and marks with the live ones; the record tells them apart.
-/

namespace Wbox.Gdi

open Wbox.Lib

/-- `gdi_select_palette`, `gdi_dc.c:297–309`. -/
def gdiSelectPalette (s : GdiState) (hdc hpalette : UInt32) : UInt32 :=
  match s.getDc hdc with
  | none => 0
  | some _ =>
      match gdiGetObject s.table hpalette gdiObjPalette with
      | none => 0
      | some _ => stockHandle gdiObjPalette 0

/-- `gdi_select_object`, `gdi_dc.c:312–332`. -/
def gdiSelectObject (s : GdiState) (hdc hobject : UInt32) : Option (GdiState × UInt32) :=
  match gdiGetObjectAny s.table hobject with
  | (some _, some type) =>
      if type = gdiObjBrush then gdiSelectBrush s hdc hobject
      else if type = gdiObjPen then gdiSelectPen s hdc hobject
      else if type = gdiObjFont then gdiSelectFont s hdc hobject
      else if type = gdiObjBitmap then gdiSelectBitmap s hdc hobject
      else if type = gdiObjPalette then some (s, gdiSelectPalette s hdc hobject)
      else some (s, 0)
  | _ => some (s, 0)

/-- A change of a context that is neither selecting nor saving: an attribute that is set, a drawing
function, another surface. -/
def DcSelection.changed (f : DcSelection → DcSelection) (dc : DcSelection) : DcSelection :=
  { f dc with
    handle := dc.handle
    saveLevel := dc.saveLevel
    savedDc := dc.savedDc
    inUse := dc.inUse }

/-- Change the context that a handle denotes, `gdi_dc.c:337–515`. -/
def changeDc (s : GdiState) (hdc : UInt32) (f : DcSelection → DcSelection) : Option GdiState :=
  match s.getDc hdc with
  | none => some s
  | some p => (s.dcs.read p).map fun dc => s.setDc p (dc.changed f)

/-- The calls; contexts are deleted by handles of their type, all other handles are arbitrary. -/
inductive DcOp where
  | createDisplayDc (answer : Option Nat) (display : Option Display)
  | createCompatibleDc (answer : Option Nat) (hdcRef : UInt32)
  | createObject (kind : GdiKind) (answer : Option Nat)
  | createBitmap (heap : Heap) (answer : Option Nat) (width height : Int32) (planes bpp : UInt32)
  | change (hdc : UInt32) (f : DcSelection → DcSelection)
  | selectBrush (hdc hbrush : UInt32)
  | selectPen (hdc hpen : UInt32)
  | selectFont (hdc hfont : UInt32)
  | selectBitmap (hdc hbitmap : UInt32)
  | selectObject (hdc hobject : UInt32)
  | save (answer : Option Nat) (hdc : UInt32)
  | restore (hdc : UInt32) (level : Int32)
  | delete (hdc : UInt32) (htype : gdiHandleType hdc = gdiObjDc)

/-- One call; `fuel` bounds the loops over saved states. -/
def dcStep (fuel : Nat) (s : GdiState) : DcOp → Option GdiState
  | .createDisplayDc answer display => (gdiCreateDisplayDc s answer display).map Prod.fst
  | .createCompatibleDc answer hdcRef => (gdiCreateCompatibleDc s answer hdcRef).map Prod.fst
  | .createObject kind answer => (createObject kind s answer).map Prod.fst
  | .createBitmap heap answer width height planes bpp =>
      (gdiCreateBitmap heap s answer width height planes bpp).map Prod.fst
  | .change hdc f => changeDc s hdc f
  | .selectBrush hdc hbrush => (gdiSelectBrush s hdc hbrush).map Prod.fst
  | .selectPen hdc hpen => (gdiSelectPen s hdc hpen).map Prod.fst
  | .selectFont hdc hfont => (gdiSelectFont s hdc hfont).map Prod.fst
  | .selectBitmap hdc hbitmap => (gdiSelectBitmap s hdc hbitmap).map Prod.fst
  | .selectObject hdc hobject => (gdiSelectObject s hdc hobject).map Prod.fst
  | .save answer hdc => (gdiSaveDc s answer hdc).map Prod.fst
  | .restore hdc level => (gdiRestoreDc fuel s hdc level).map Prod.fst
  | .delete hdc _ => (gdiDeleteDc fuel s hdc).map Prod.fst

/-- A successful `gdi_save_dc`: the context, the level that was returned, and the context as it was
just before. -/
structure SaveRecord where
  dc : Nat
  level : Int
  before : DcSelection

/-- A context just before the last call that saved it and returned a level. -/
def lastSave (saves : List SaveRecord) (p : Nat) (level : Int) : Option DcSelection :=
  (saves.find? fun r => decide (r.dc = p ∧ r.level = level)).map SaveRecord.before

/-- What a call that saved a context, or failed to, adds to the record. -/
def recordSave (s : GdiState) (hdc : UInt32) (level : Int) (saves : List SaveRecord) :
    List SaveRecord :=
  match s.getDc hdc with
  | some p => if level = 0 then saves else { dc := p, level, before := s.dcs.object p } :: saves
  | none => saves

/-- The state, and the calls that saved contexts, the last one first. -/
structure DcRun where
  state : GdiState
  saves : List SaveRecord

/-- One call of a run. -/
def dcRunStep (fuel : Nat) (r : DcRun) : DcOp → Option DcRun
  | .save answer hdc => (gdiSaveDc r.state answer hdc).map fun done =>
      { state := done.1, saves := recordSave r.state hdc done.2 r.saves }
  | op => (dcStep fuel r.state op).map fun state => { r with state }

/-- No context has been made. -/
def dcRunStart : DcRun := { state := gdiInit, saves := [] }

/-- Only the contexts changed, and only the saved states of one of them and that one itself. -/
structure OnlyDc (s s' : GdiState) (p : Nat) : Prop where
  rest : s' = { s with dcs := s'.dcs }
  others : ∀ hdc p', s.getDc hdc = some p' → p' ≠ p → ∀ n q, savedState s.dcs n p' = some q →
    s'.dcs.object q = s.dcs.object q

/-- The saved states of all contexts, and what saving and restoring do. -/
structure NestedSaves (s : GdiState) (saves : List SaveRecord) : Prop where
  chain : ∀ hdc p, s.getDc hdc = some p → ∃ qs : List Nat,
    (s.dcs.object p).saveLevel = qs.length ∧ (∀ n, savedState s.dcs (n + 1) p = qs[n]?) ∧
    (p :: qs).Nodup ∧ ∀ q ∈ p :: qs, s.dcs.inUse q = true
  apart : ∀ hdc hdc' p p' m n q, s.getDc hdc = some p → s.getDc hdc' = some p' →
    savedState s.dcs m p = some q → savedState s.dcs n p' = some q → p = p'
  save : ∀ answer hdc p s' level, s.getDc hdc = some p →
    gdiSaveDc s answer hdc = some (s', level) →
    level = 0 ∧ s' = s ∨ level = (s.dcs.object p).saveLevel + 1 ∧ OnlyDc s s' p ∧
      ∃ q, s'.dcs.object p = { s.dcs.object p with savedDc := some q, saveLevel := level }
  restore : ∀ hdc p level, s.getDc hdc = some p → 1 ≤ (s.dcs.object p).restoreLevel level →
    (s.dcs.object p).restoreLevel level ≤ (s.dcs.object p).saveLevel → ∃ before,
    lastSave saves p ((s.dcs.object p).restoreLevel level) = some before ∧
    before.saveLevel = (s.dcs.object p).restoreLevel level - 1 ∧
    ∀ fuel : Nat, (s.dcs.object p).saveLevel ≤ fuel → ∃ s',
      gdiRestoreDc fuel s hdc level = some (s', true) ∧ s'.dcs.object p = before ∧ OnlyDc s s' p
  outOfRange : ∀ fuel hdc p level, s.getDc hdc = some p →
    (s.dcs.object p).restoreLevel level < 1 ∨
      (s.dcs.object p).saveLevel < (s.dcs.object p).restoreLevel level →
    gdiRestoreDc fuel s hdc level = some (s, false)

/-- Each saved state is the context as it was before the call that returned the level above it, and
has the handle of the context. -/
def Remembered (dcs : Pool DcSelection) (saves : List SaveRecord) (p : Nat) (qs : List Nat) :
    Prop :=
  ∀ q ∈ qs, (dcs.object q).handle = (dcs.object p).handle ∧
    lastSave saves p ((dcs.object q).saveLevel + 1) = some (dcs.object q)

/-- The invariant of a run. -/
structure SaveInv (r : DcRun) (nodes : Nat → List Nat) : Prop where
  chains : Chains r.state nodes
  nextFree : r.state.table.nextFree ≤ gdiMaxHandles
  remembered : ∀ i p qs, nodes i = p :: qs → Remembered r.state.dcs r.saves p qs

variable {s s' : GdiState} {r r' : DcRun} {dcs : Pool DcSelection} {nodes : Nat → List Nat}
  {saves : List SaveRecord} {p q i fuel : Nat} {qs : List Nat} {hdc hobject made : UInt32}
  {dc : DcSelection} {answer : Option Nat} {level : Int}

theorem lastSave_cons_self (saves : List SaveRecord) (p : Nat) (level : Int)
    (before : DcSelection) :
    lastSave ({ dc := p, level, before } :: saves) p level = some before := by
  simp [lastSave]

theorem lastSave_cons_of_ne {record : SaveRecord} (hne : record.dc ≠ p ∨ record.level ≠ level) :
    lastSave (record :: saves) p level = lastSave saves p level := by
  have hfalse : ¬ (record.dc = p ∧ record.level = level) := by
    rintro ⟨hdc, hlevel⟩
    rcases hne with hne | hne
    · exact hne hdc
    · exact hne hlevel
  unfold lastSave
  rw [List.find?_cons_of_neg]
  simpa using hfalse

/-- A context with another selection or other attributes: its place in the chain is the same. -/
structure DcSelection.SameLinks (dc' dc : DcSelection) : Prop where
  handle : dc'.handle = dc.handle
  saveLevel : dc'.saveLevel = dc.saveLevel
  savedDc : dc'.savedDc = dc.savedDc
  inUse : dc'.inUse = dc.inUse

/-- A call changes nothing about contexts, or one of them without its links. -/
def ChangesOne (s s' : GdiState) : Prop :=
  s' = s ∨ ∃ hdc p dc, s.getDc hdc = some p ∧ dc.SameLinks (s.dcs.object p) ∧
    s'.table = s.table ∧ s'.dcs.object = Function.update s.dcs.object p dc

theorem changeDc_changesOne {f : DcSelection → DcSelection} (h : changeDc s hdc f = some s') :
    ChangesOne s s' := by
  unfold changeDc at h
  split at h
  · exact .inl (Option.some.inj h).symm
  · next p hp =>
    obtain ⟨dc, hread, rfl⟩ := Option.map_eq_some_iff.mp h
    obtain rfl := Pool.read_eq hread
    exact .inr ⟨hdc, p, (s.dcs.object p).changed f, hp, ⟨rfl, rfl, rfl, rfl⟩, rfl, rfl⟩

theorem selectObject_changesOne {kind : GdiKind} {prev : DcSelection → UInt32}
    {put : Ref GdiPtr → UInt32 → DcSelection → DcSelection}
    (hput : ∀ ref handle dc, (put ref handle dc).SameLinks dc)
    (h : selectObject kind prev put s hdc hobject = some (s', made)) : ChangesOne s s' := by
  rcases selectObject_cases h with rfl | ⟨p, ptr, hp, -, rfl⟩
  · exact .inl rfl
  · exact .inr ⟨hdc, p, _, hp, hput _ _ _, rfl, rfl⟩

theorem gdiSelectBitmap_changesOne (h : gdiSelectBitmap s hdc hobject = some (s', made)) :
    ChangesOne s s' := by
  rcases gdiSelectBitmap_cases h with rfl | ⟨p, b, bitmaps, hp, -, -, -, -, -, rfl⟩
  · exact .inl rfl
  · exact .inr ⟨hdc, p, (s.dcs.object p).withBitmap (s.refToBitmap b) hobject (s.bitmaps.object b),
      hp, ⟨rfl, rfl, rfl, rfl⟩, rfl, rfl⟩

theorem gdiSelectBrush_changesOne (h : gdiSelectBrush s hdc hobject = some (s', made)) :
    ChangesOne s s' := by
  apply selectObject_changesOne ?_ h
  exact fun _ _ _ => ⟨rfl, rfl, rfl, rfl⟩

theorem gdiSelectPen_changesOne (h : gdiSelectPen s hdc hobject = some (s', made)) :
    ChangesOne s s' := by
  apply selectObject_changesOne ?_ h
  exact fun _ _ _ => ⟨rfl, rfl, rfl, rfl⟩

theorem gdiSelectFont_changesOne (h : gdiSelectFont s hdc hobject = some (s', made)) :
    ChangesOne s s' := by
  apply selectObject_changesOne ?_ h
  exact fun _ _ _ => ⟨rfl, rfl, rfl, rfl⟩

theorem gdiSelectObject_changesOne (h : gdiSelectObject s hdc hobject = some (s', made)) :
    ChangesOne s s' := by
  unfold gdiSelectObject at h
  split at h
  · split_ifs at h
    · exact gdiSelectBrush_changesOne h
    · exact gdiSelectPen_changesOne h
    · exact gdiSelectFont_changesOne h
    · exact gdiSelectBitmap_changesOne h
    · exact .inl (Prod.mk.inj (Option.some.inj h)).1.symm
    · exact .inl (Prod.mk.inj (Option.some.inj h)).1.symm
  · exact .inl (Prod.mk.inj (Option.some.inj h)).1.symm

/-- What is remembered depends on the saved states and the handle of the context. -/
theorem Remembered.congr (h : Remembered s.dcs saves p qs)
    (hhandle : (dcs.object p).handle = (s.dcs.object p).handle)
    (hqs : ∀ q ∈ qs, dcs.object q = s.dcs.object q) : Remembered dcs saves p qs := by
  intro q hq
  rw [hqs q hq, hhandle]
  exact h q hq

/-- Contexts that are in no chain do not matter. -/
theorem SaveInv.withDcs (h : SaveInv r nodes)
    (hsame : ∀ j q, q ∈ nodes j → dcs.object q = r.state.dcs.object q) :
    SaveInv { r with state := { r.state with dcs } } nodes := by
  refine ⟨h.chains.withDcs hsame, h.nextFree, ?_⟩
  intro i p qs hnodes
  have hmem : ∀ q ∈ p :: qs, dcs.object q = r.state.dcs.object q := fun q hq =>
    hsame i q (hnodes ▸ hq)
  refine (h.remembered i p qs hnodes).congr ?_ fun q hq => hmem q (List.mem_cons_of_mem p hq)
  rw [hmem p List.mem_cons_self]

/-- The chain of one entry is replaced; the others and what is remembered of them stay. -/
theorem SaveInv.update (h : SaveInv r nodes) (i : Nat) (ns : List Nat)
    (hchains : Chains s' (Function.update nodes i ns))
    (hnext : s'.table.nextFree ≤ gdiMaxHandles)
    (hsame : ∀ j q, j ≠ i → q ∈ nodes j → s'.dcs.object q = r.state.dcs.object q)
    (hsaves : ∀ j p, j ≠ i → p ∈ nodes j → ∀ level,
      lastSave saves p level = lastSave r.saves p level)
    (hns : ∀ p qs, ns = p :: qs → Remembered s'.dcs saves p qs) :
    SaveInv { state := s', saves } (Function.update nodes i ns) := by
  refine ⟨hchains, hnext, ?_⟩
  intro j p qs hnodes
  by_cases hj : j = i
  · subst hj
    rw [Function.update_self] at hnodes
    exact hns p qs hnodes
  · rw [Function.update_of_ne hj] at hnodes
    have hmem : ∀ q ∈ p :: qs, s'.dcs.object q = r.state.dcs.object q := fun q hq =>
      hsame j q hj (hnodes ▸ hq)
    intro q hq
    dsimp only
    rw [hmem q (List.mem_cons_of_mem p hq), hmem p List.mem_cons_self,
      hsaves j p hj (hnodes ▸ List.mem_cons_self)]
    exact h.remembered j p qs hnodes q hq

theorem SaveInv.of_changesOne (h : SaveInv r nodes) (hchange : ChangesOne r.state s') :
    ∃ nodes', SaveInv { r with state := s' } nodes' := by
  rcases hchange with rfl | ⟨hdc, p, dc, hp, hlinks, htable, hobject⟩
  · exact ⟨nodes, h⟩
  · have hlive := getDc_live hp
    obtain ⟨qs, hnodes, hsaved⟩ := h.chains.head _ p hlive
    have hself : s'.dcs.object p = dc := (congrFun hobject p).trans (Function.update_self _ _ _)
    have hother : ∀ q, q ≠ p → s'.dcs.object q = r.state.dcs.object q := fun q hq =>
      (congrFun hobject q).trans (Function.update_of_ne hq _ _)
    have hqs : ∀ q ∈ qs, s'.dcs.object q = r.state.dcs.object q := by
      intro q hq
      apply hother q
      rintro rfl
      exact hsaved.not_mem hq
    have hsame : ∀ j q, j ≠ gdiHandleIndex hdc → q ∈ nodes j →
        s'.dcs.object q = r.state.dcs.object q := by
      intro j q hj hq
      apply hother q
      rintro rfl
      exact hj (h.chains.apart _ _ q hq (h.chains.mem hlive))
    have hmem : ∀ q ∈ p :: qs, q ∈ nodes (gdiHandleIndex hdc) := fun q hq => hnodes ▸ hq
    refine ⟨_, h.update (gdiHandleIndex hdc) (p :: qs) (h.chains.replaceNodes hlive htable ?_ hsame ?_ ?_) ?_
      hsame (fun _ _ _ _ _ => rfl) ?_⟩
    · apply hsaved.congr
      intro q hq
      rcases List.mem_cons.mp hq with rfl | hq
      · rw [hself]
        exact ⟨hlinks.savedDc, hlinks.saveLevel⟩
      · rw [hqs q hq]
        exact ⟨rfl, rfl⟩
    · intro q hq
      unfold Pool.inUse
      rcases List.mem_cons.mp hq with rfl | hq'
      · rw [hself]
        exact hlinks.inUse.trans (h.chains.used _ q (hmem q hq))
      · rw [hqs q hq']
        exact h.chains.used _ q (hmem q hq)
    · exact fun q hq => .inl (hmem q hq)
    · rw [htable]
      exact h.nextFree
    · intro p' qs' heq
      obtain ⟨rfl, rfl⟩ := List.cons.inj heq
      refine (h.remembered _ p qs hnodes).congr ?_ hqs
      rw [hself]
      exact hlinks.handle

/-- What is no context changes. -/
theorem SaveInv.sameDcs (h : SaveInv r nodes)
    (hlive : ∀ j p, LiveDc s'.table j p ↔ LiveDc r.state.table j p)
    (hdcs : s'.dcs = r.state.dcs) (hnext : s'.table.nextFree ≤ gdiMaxHandles) :
    SaveInv { r with state := s' } nodes := by
  refine ⟨⟨?_, ?_, ?_, h.chains.apart⟩, hnext, ?_⟩
  · intro i p hp
    dsimp only
    rw [hdcs]
    exact h.chains.head i p ((hlive i p).mp hp)
  · exact fun i hnone => h.chains.dead i fun p hp => hnone p ((hlive i p).mpr hp)
  · dsimp only
    rw [hdcs]
    exact h.chains.used
  · dsimp only
    rw [hdcs]
    exact h.remembered

theorem SaveInv.createObject {kind : GdiKind} (h : SaveInv r nodes)
    (hstep : createObject kind r.state answer = some (s', made)) :
    SaveInv { r with state := s' } nodes := by
  rcases createObject_cases h.nextFree hstep with
    rfl | ⟨a, pool, -, -, ⟨-, rfl⟩ | ⟨i, -, hfree, -, -, hentries, rfl⟩⟩
  · exact h
  · exact h.sameDcs (fun _ _ => Iff.rfl) rfl h.nextFree
  · have hnext := gdiAllocHandle_nextFree h.nextFree (some (.object a)) kind.type
    exact h.sameDcs (fun j p => liveDc_newHandle_iff kind.type_ne_dc hfree hentries) rfl hnext

theorem SaveInv.createBitmap {heap : Heap} {width height : Int32} {planes bpp : UInt32}
    (h : SaveInv r nodes)
    (hstep : gdiCreateBitmap heap r.state answer width height planes bpp = some (s', made)) :
    SaveInv { r with state := s' } nodes := by
  rcases gdiCreateBitmap_cases h.nextFree hstep with
    rfl | ⟨b, bitmaps, -, -, -, ⟨-, rfl⟩ | ⟨i, -, hfree, -, -, -, hentries, rfl⟩⟩
  · exact h
  · exact h.sameDcs (fun _ _ => Iff.rfl) rfl h.nextFree
  · have hnext := gdiAllocHandle_nextFree h.nextFree (some (.object b)) gdiObjBitmap
    exact h.sameDcs (fun j p => liveDc_newHandle_iff (by decide) hfree hentries) rfl hnext

theorem SaveInv.newDc {s₁ : GdiState} (h : SaveInv r nodes) (hnew : NewDc dc)
    (halloc : gdiAllocDc r.state answer = some (s₁, p))
    (hmade : newDc s₁ p dc = some (s', made)) :
    ∃ nodes', SaveInv { r with state := s' } nodes' := by
  obtain ⟨hunused, rfl⟩ := gdiAllocDc_spec halloc
  have hother : ∀ x y j q, q ∈ nodes j →
      Function.update (Function.update r.state.dcs.object p x) p y q = r.state.dcs.object q := by
    intro x y j q hq
    have hne : q ≠ p := by
      rintro rfl
      exact h.chains.not_mem hunused j hq
    rw [Function.update_of_ne hne, Function.update_of_ne hne]
  rcases newDc_cases (s := r.state.setDc p { inUse := true }) h.nextFree hmade with
    ⟨dcs, rfl, hdcs⟩ | ⟨i, hi, hfree, hentries, rfl, rfl⟩
  · have hsame : ∀ j q, q ∈ nodes j → dcs.object q = r.state.dcs.object q := by
      intro j q hq
      rw [hdcs]
      exact hother _ _ j q hq
    exact ⟨nodes, h.withDcs hsame⟩
  · refine ⟨_, h.update i [p] (h.chains.replace ?_ ?_ ?_ ?_ ?_ ?_)
      (gdiAllocHandle_nextFree h.nextFree _ _) ?_ (fun _ _ _ _ _ => rfl) ?_⟩
    · intro j q hj
      apply LiveDc.congr
      exact (congrFun hentries j).trans (Function.update_of_ne hj _ _)
    · intro q hq
      obtain rfl := (liveDc_newDc_iff hentries).mp hq
      refine ⟨[], rfl, ?_⟩
      unfold Saved
      simp only [GdiState.setDc, Pool.set_object, Function.update_self]
      exact ⟨hnew.savedDc, hnew.saveLevel⟩
    · exact fun hnone => absurd ((liveDc_newDc_iff hentries).mpr rfl) (hnone p)
    · exact fun j q _ hq => hother _ _ j q hq
    · intro q hq
      obtain rfl := List.mem_singleton.mp hq
      unfold Pool.inUse
      simp only [GdiState.setDc, Pool.set_object, Function.update_self]
      exact hnew.inUse
    · intro q hq
      obtain rfl := List.mem_singleton.mp hq
      exact .inr hunused
    · exact fun j q _ hq => hother _ _ j q hq
    · intro p' qs' heq
      obtain ⟨rfl, rfl⟩ := List.cons.inj heq
      exact fun q hq => absurd hq List.not_mem_nil

/-- A copy of a context becomes its first saved state, and goes on record. -/
theorem SaveInv.addSaved (h : SaveInv r nodes) (hp : LiveDc r.state.table i p)
    (hunused : r.state.dcs.inUse q = false)
    (hself : dcs.object p = { r.state.dcs.object p with
      savedDc := some q, saveLevel := (r.state.dcs.object p).saveLevel + 1 })
    (hcopy : dcs.object q = r.state.dcs.object p)
    (hother : ∀ r', r' ≠ p → r' ≠ q → dcs.object r' = r.state.dcs.object r') :
    ∃ nodes', SaveInv { state := { r.state with dcs }, saves :=
      { dc := p, level := (r.state.dcs.object p).saveLevel + 1, before := r.state.dcs.object p } ::
        r.saves } nodes' := by
  obtain ⟨qs, hnodes, hold, hsaved, hqs, hchains⟩ := h.chains.pushed hp hunused hself hcopy hother
  have hmem : ∀ q ∈ p :: qs, q ∈ nodes i := fun q hq => hnodes ▸ hq
  have hkept : Chains { r.state with dcs } (Function.update nodes i (p :: q :: qs)) := by
    refine h.chains.replaceNodes hp rfl hsaved hchains ?_ ?_
    · intro q' hq'
      unfold Pool.inUse
      rcases List.mem_cons.mp hq' with rfl | hq'
      · dsimp only
        rw [hself]
        exact h.chains.used i q' (hmem q' List.mem_cons_self)
      · rcases List.mem_cons.mp hq' with rfl | hq'
        · dsimp only
          rw [hcopy]
          exact h.chains.used i p (hmem p List.mem_cons_self)
        · dsimp only
          rw [hqs q' hq']
          exact h.chains.used i q' (hmem q' (List.mem_cons_of_mem p hq'))
    · intro q' hq'
      rcases List.mem_cons.mp hq' with rfl | hq'
      · exact .inl (hmem q' List.mem_cons_self)
      · rcases List.mem_cons.mp hq' with rfl | hq'
        · exact .inr hunused
        · exact .inl (hmem q' (List.mem_cons_of_mem p hq'))
  refine ⟨_, h.update i (p :: q :: qs) hkept h.nextFree hchains ?_ ?_⟩
  · intro j p' hj hp' level
    apply lastSave_cons_of_ne
    refine .inl ?_
    rintro rfl
    exact hj (h.chains.apart j i _ hp' (h.chains.mem hp))
  · intro p' qs' heq
    obtain ⟨rfl, rfl⟩ := List.cons.inj heq
    intro q' hq'
    dsimp only
    rcases List.mem_cons.mp hq' with rfl | hq'
    · rw [hcopy, hself]
      exact ⟨rfl, lastSave_cons_self _ _ _ _⟩
    · have hlt := hold.level_lt q' hq'
      have hne : (r.state.dcs.object p).saveLevel + 1 ≠
          (r.state.dcs.object q').saveLevel + 1 := by omega
      rw [hqs q' hq', hself, lastSave_cons_of_ne (.inr hne)]
      exact h.remembered i p qs hnodes q' hq'

/-- Saving succeeds with a copy of the context at the head of its chain, or changes nothing. -/
theorem SaveInv.save_cases (h : SaveInv r nodes)
    (hstep : gdiSaveDc r.state answer hdc = some (s', level)) :
    s' = r.state ∧ level = 0 ∨ ∃ p q dcs, r.state.getDc hdc = some p ∧
      r.state.dcs.inUse q = false ∧ s' = { r.state with dcs } ∧
      level = (r.state.dcs.object p).saveLevel + 1 ∧
      dcs.object p = { r.state.dcs.object p with
        savedDc := some q, saveLevel := (r.state.dcs.object p).saveLevel + 1 } ∧
      dcs.object q = r.state.dcs.object p ∧
      ∀ r', r' ≠ p → r' ≠ q → dcs.object r' = r.state.dcs.object r' := by
  rcases gdiSaveDc_cases hstep with heq | ⟨p, q, s₁, hp, halloc, rfl, rfl⟩
  · exact .inl heq
  · obtain ⟨hunused, rfl⟩ := gdiAllocDc_spec halloc
    have hpq : p ≠ q := by
      rintro rfl
      exact h.chains.not_mem hunused _ (h.chains.mem (getDc_live hp))
    have hcopy : ((r.state.setDc q { inUse := true }).setDc q
        ((r.state.setDc q { inUse := true }).dcs.object p)).dcs.object p =
          r.state.dcs.object p := by
      simp [GdiState.setDc, Function.update_of_ne hpq]
    rw [hcopy]
    refine .inr ⟨p, q, _, hp, hunused, rfl, rfl, ?_, ?_, ?_⟩
    · simp [GdiState.setDc]
    · simp [GdiState.setDc, Function.update_of_ne hpq, Function.update_of_ne (Ne.symm hpq)]
    · intro r' hrp hrq
      simp [GdiState.setDc, Function.update_of_ne hrp, Function.update_of_ne hrq]

theorem SaveInv.level_nonneg (h : SaveInv r nodes) (hp : LiveDc r.state.table i p) :
    0 ≤ (r.state.dcs.object p).saveLevel := by
  obtain ⟨qs, -, hsaved⟩ := h.chains.head i p hp
  rw [hsaved.level]
  exact Int.natCast_nonneg _

theorem SaveInv.save (h : SaveInv r nodes)
    (hstep : gdiSaveDc r.state answer hdc = some (s', level)) :
    ∃ nodes', SaveInv { state := s', saves := recordSave r.state hdc level r.saves } nodes' := by
  rcases h.save_cases hstep with
    ⟨rfl, rfl⟩ | ⟨p, q, dcs, hp, hunused, rfl, rfl, hself, hcopy, hother⟩
  · refine ⟨nodes, ?_⟩
    unfold recordSave
    cases r.state.getDc hdc with
    | none => exact h
    | some p => exact h
  · have hlive := getDc_live hp
    have hne : (r.state.dcs.object p).saveLevel + 1 ≠ 0 := by
      have hnonneg := h.level_nonneg hlive
      omega
    unfold recordSave
    rw [hp]
    dsimp only
    rw [if_neg hne]
    exact h.addSaved hlive hunused hself hcopy hother

/-- The context becomes what is remembered of the level, and the states above it are freed. -/
theorem SaveInv.restored (h : SaveInv r nodes) (hp : r.state.getDc hdc = some p)
    (hpos : 0 < level) (hle : level ≤ (r.state.dcs.object p).saveLevel)
    (hloop : restoreStates fuel r.state p level = some s') :
    ∃ dcs rest t, s' = { r.state with dcs } ∧ Saved dcs p rest ∧
      (∀ q ∈ rest, q ∈ nodes (gdiHandleIndex hdc)) ∧ t ∈ nodes (gdiHandleIndex hdc) ∧
      dcs.object p = r.state.dcs.object t ∧
      (r.state.dcs.object t).handle = (r.state.dcs.object p).handle ∧
      (r.state.dcs.object t).saveLevel = level - 1 ∧
      lastSave r.saves p level = some (r.state.dcs.object t) ∧
      (∀ q ∈ rest, dcs.object q = r.state.dcs.object q) ∧
      ∀ j q, j ≠ gdiHandleIndex hdc → q ∈ nodes j → dcs.object q = r.state.dcs.object q := by
  obtain ⟨qs, hnodes, hsaved⟩ := h.chains.head _ p (getDc_live hp)
  obtain ⟨dcs, taken, rest, t, rfl, rfl, hrest, hlength, ht, -, hother, hself⟩ :=
    restoreStates_target hsaved hpos hle hloop
  obtain ⟨hkept, hchains⟩ := h.chains.popped hnodes hsaved.nodup hother
  obtain ⟨hhandle, hlast⟩ :=
    h.remembered _ p _ hnodes t (List.mem_append_left rest ht)
  have hlevel : (r.state.dcs.object t).saveLevel = level - 1 := by
    have hsaved := hrest.level
    rw [hself] at hsaved
    exact hsaved.trans hlength
  have hsame : dcs.object p = r.state.dcs.object t := by
    rw [hself, ← hhandle]
  rw [hlevel, Int.sub_add_cancel] at hlast
  refine ⟨dcs, rest, t, rfl, hrest, ?_, ?_, hsame, hhandle, hlevel, hlast, hkept, hchains⟩
  · exact fun q hq => hnodes ▸ List.mem_cons_of_mem p (List.mem_append_right taken hq)
  · exact hnodes ▸ List.mem_cons_of_mem p (List.mem_append_left rest ht)

theorem SaveInv.restore {level : Int32} {ok : Bool} (h : SaveInv r nodes)
    (hstep : gdiRestoreDc fuel r.state hdc level = some (s', ok)) :
    ∃ nodes', SaveInv { r with state := s' } nodes' := by
  rcases gdiRestoreDc_cases hstep with ⟨rfl, -⟩ | ⟨p, hp, hpos, hle, hloop⟩
  · exact ⟨nodes, h⟩
  · have hlive := getDc_live hp
    obtain ⟨dcs, rest, t, rfl, hrest, hmem, ht, hself, hhandle, -, -, hkept, hchains⟩ :=
      h.restored hp hpos hle hloop
    have hnodes : Chains { r.state with dcs }
        (Function.update nodes (gdiHandleIndex hdc) (p :: rest)) := by
      refine h.chains.replaceNodes hlive rfl hrest hchains ?_ ?_
      · intro q hq
        unfold Pool.inUse
        dsimp only
        rcases List.mem_cons.mp hq with rfl | hq
        · rw [hself]
          exact h.chains.used _ t ht
        · rw [hkept q hq]
          exact h.chains.used _ q (hmem q hq)
      · intro q hq
        rcases List.mem_cons.mp hq with rfl | hq
        · exact .inl (h.chains.mem hlive)
        · exact .inl (hmem q hq)
    refine ⟨_, h.update (gdiHandleIndex hdc) (p :: rest) hnodes h.nextFree hchains
      (fun _ _ _ _ _ => rfl) ?_⟩
    · intro p' qs' heq
      obtain ⟨rfl, rfl⟩ := List.cons.inj heq
      obtain ⟨qs, hnodes, -⟩ := h.chains.head _ p hlive
      intro q hq
      dsimp only
      rw [hkept q hq, hself, hhandle]
      apply h.remembered _ p qs hnodes q
      have hq' := hmem q hq
      rw [hnodes] at hq'
      rcases List.mem_cons.mp hq' with rfl | hq'
      · exact absurd hq hrest.not_mem
      · exact hq'

theorem SaveInv.delete {ok : Bool} (h : SaveInv r nodes) (htype : gdiHandleType hdc = gdiObjDc)
    (hstep : gdiDeleteDc fuel r.state hdc = some (s', ok)) :
    ∃ nodes', SaveInv { r with state := s' } nodes' := by
  unfold gdiDeleteDc at hstep
  split at hstep
  · obtain ⟨rfl, -⟩ := Prod.mk.inj (Option.some.inj hstep)
    exact ⟨nodes, h⟩
  · next p hp =>
    obtain ⟨dc, hread, hstep⟩ := Option.bind_eq_some_iff.mp hstep
    obtain rfl := Pool.read_eq hread
    obtain ⟨s₁, hsaved, hstep⟩ := Option.bind_eq_some_iff.mp hstep
    obtain ⟨s₂, hfree, hstep⟩ := Option.bind_eq_some_iff.mp hstep
    obtain ⟨rfl, -⟩ := Prod.mk.inj (Option.some.inj hstep)
    obtain ⟨qs, hnodes, hchain⟩ := h.chains.head _ p (getDc_live hp)
    obtain ⟨dcs, rfl, hdcs⟩ := freeSaved_chain hchain hsaved
    obtain ⟨dcs', rfl, hdcs'⟩ := gdiFreeDc_spec hfree
    have hdel := Deletes.of_getDc hp htype
    have hdead : ∀ q, ¬ LiveDc (gdiFreeHandle r.state.table hdc).1 (gdiHandleIndex hdc) q := by
      intro q hq
      have huse := hq.inUse
      rw [hdel.freeHandle.1, Function.update_self] at huse
      cases huse
    have hsame : ∀ j q, j ≠ gdiHandleIndex hdc → q ∈ nodes j →
        dcs'.object q = r.state.dcs.object q := by
      intro j q hj hq
      have hnot : q ∉ p :: qs := fun hq' => hj (h.chains.apart _ _ q hq (hnodes ▸ hq'))
      rw [List.mem_cons, not_or] at hnot
      rw [hdcs']
      exact (Function.update_of_ne hnot.1 _ _).trans (hdcs q hnot.2)
    refine ⟨_, h.update (gdiHandleIndex hdc) [] (h.chains.replace ?_
      (fun q hq => absurd hq (hdead q)) (fun _ => rfl) hsame (fun _ hq => absurd hq List.not_mem_nil)
      (fun _ hq => absurd hq List.not_mem_nil)) ?_ hsame (fun _ _ _ _ _ => rfl)
      (fun _ _ heq => absurd heq (List.cons_ne_nil _ _).symm)⟩
    · intro j q hj
      apply LiveDc.congr
      dsimp only
      rw [hdel.freeHandle.1, Function.update_of_ne hj]
    · exact Nat.le_trans (gdiFreeHandle_nextFree r.state.table hdc) h.nextFree

/-- A call keeps the invariant. -/
theorem SaveInv.step {op : DcOp} (h : SaveInv r nodes) (hstep : dcRunStep fuel r op = some r') :
    ∃ nodes', SaveInv r' nodes' := by
  cases op with
  | save answer hdc =>
    obtain ⟨⟨s₁, level⟩, hcall, rfl⟩ := Option.map_eq_some_iff.mp hstep
    exact h.save hcall
  | createDisplayDc answer display =>
    obtain ⟨s₁, hstate, rfl⟩ := Option.map_eq_some_iff.mp hstep
    obtain ⟨⟨s₂, made⟩, hcall, rfl⟩ := Option.map_eq_some_iff.mp hstate
    rcases gdiCreateDisplayDc_cases hcall with rfl | ⟨s₃, p, dc, halloc, hnew, hmade⟩
    · exact ⟨nodes, h⟩
    · exact h.newDc hnew halloc hmade
  | createCompatibleDc answer hdcRef =>
    obtain ⟨s₁, hstate, rfl⟩ := Option.map_eq_some_iff.mp hstep
    obtain ⟨⟨s₂, made⟩, hcall, rfl⟩ := Option.map_eq_some_iff.mp hstate
    rcases gdiCreateCompatibleDc_cases hcall with rfl | ⟨s₃, p, dc, halloc, hnew, -, hmade⟩
    · exact ⟨nodes, h⟩
    · exact h.newDc hnew halloc hmade
  | createObject kind answer =>
    obtain ⟨s₁, hstate, rfl⟩ := Option.map_eq_some_iff.mp hstep
    obtain ⟨⟨s₂, made⟩, hcall, rfl⟩ := Option.map_eq_some_iff.mp hstate
    exact ⟨nodes, h.createObject hcall⟩
  | createBitmap heap answer width height planes bpp =>
    obtain ⟨s₁, hstate, rfl⟩ := Option.map_eq_some_iff.mp hstep
    obtain ⟨⟨s₂, made⟩, hcall, rfl⟩ := Option.map_eq_some_iff.mp hstate
    exact ⟨nodes, h.createBitmap hcall⟩
  | change hdc f =>
    obtain ⟨s₁, hcall, rfl⟩ := Option.map_eq_some_iff.mp hstep
    exact h.of_changesOne (changeDc_changesOne hcall)
  | selectBrush hdc hbrush =>
    obtain ⟨s₁, hstate, rfl⟩ := Option.map_eq_some_iff.mp hstep
    obtain ⟨⟨s₂, made⟩, hcall, rfl⟩ := Option.map_eq_some_iff.mp hstate
    exact h.of_changesOne (gdiSelectBrush_changesOne hcall)
  | selectPen hdc hpen =>
    obtain ⟨s₁, hstate, rfl⟩ := Option.map_eq_some_iff.mp hstep
    obtain ⟨⟨s₂, made⟩, hcall, rfl⟩ := Option.map_eq_some_iff.mp hstate
    exact h.of_changesOne (gdiSelectPen_changesOne hcall)
  | selectFont hdc hfont =>
    obtain ⟨s₁, hstate, rfl⟩ := Option.map_eq_some_iff.mp hstep
    obtain ⟨⟨s₂, made⟩, hcall, rfl⟩ := Option.map_eq_some_iff.mp hstate
    exact h.of_changesOne (gdiSelectFont_changesOne hcall)
  | selectBitmap hdc hbitmap =>
    obtain ⟨s₁, hstate, rfl⟩ := Option.map_eq_some_iff.mp hstep
    obtain ⟨⟨s₂, made⟩, hcall, rfl⟩ := Option.map_eq_some_iff.mp hstate
    exact h.of_changesOne (gdiSelectBitmap_changesOne hcall)
  | selectObject hdc hobject =>
    obtain ⟨s₁, hstate, rfl⟩ := Option.map_eq_some_iff.mp hstep
    obtain ⟨⟨s₂, made⟩, hcall, rfl⟩ := Option.map_eq_some_iff.mp hstate
    exact h.of_changesOne (gdiSelectObject_changesOne hcall)
  | restore hdc level =>
    obtain ⟨s₁, hstate, rfl⟩ := Option.map_eq_some_iff.mp hstep
    obtain ⟨⟨s₂, ok⟩, hcall, rfl⟩ := Option.map_eq_some_iff.mp hstate
    exact h.restore hcall
  | delete hdc htype =>
    obtain ⟨s₁, hstate, rfl⟩ := Option.map_eq_some_iff.mp hstep
    obtain ⟨⟨s₂, ok⟩, hcall, rfl⟩ := Option.map_eq_some_iff.mp hstate
    exact h.delete htype hcall

theorem saveInv_start : SaveInv dcRunStart fun _ => [] :=
  ⟨linkInv_init.chains, linkInv_init.nextFree,
    fun _ _ _ heq => absurd heq (List.cons_ne_nil _ _).symm⟩

/-- The states of a chain are those that going back comes to. -/
theorem savedState_mem (h : Saved s.dcs p qs) {n : Nat}
    (hq : savedState s.dcs n p = some q) : q ∈ p :: qs := by
  cases n with
  | zero =>
    obtain rfl : p = q := Option.some.inj hq
    exact List.mem_cons_self
  | succ n =>
    rw [h.savedState] at hq
    exact List.mem_cons_of_mem p (List.mem_of_getElem? hq)

/-- A call that keeps the other chains changes only the one context. -/
theorem SaveInv.onlyDc (h : SaveInv r nodes) (hp : LiveDc r.state.table i p)
    (hchains : ∀ j q, j ≠ i → q ∈ nodes j → dcs.object q = r.state.dcs.object q) :
    OnlyDc r.state { r.state with dcs } p := by
  refine ⟨rfl, ?_⟩
  intro hdc p' hp' hne n q hq
  have hlive := getDc_live hp'
  obtain ⟨qs, hnodes, hsaved⟩ := h.chains.head _ p' hlive
  apply hchains (gdiHandleIndex hdc) q ?_ (hnodes ▸ savedState_mem hsaved hq)
  rintro rfl
  exact hne (GdiPtr.object.inj (Option.some.inj (hlive.object.symm.trans hp.object)))

/-- With the invariant the saved states nest. -/
theorem SaveInv.nested (h : SaveInv r nodes) : NestedSaves r.state r.saves := by
  constructor
  · intro hdc p hp
    obtain ⟨qs, hnodes, hsaved⟩ := h.chains.head _ p (getDc_live hp)
    exact ⟨qs, hsaved.level, hsaved.savedState, hsaved.nodup,
      fun q hq => h.chains.used _ q (hnodes ▸ hq)⟩
  · intro hdc hdc' p p' m n q hp hp' hq hq'
    have hlive := getDc_live hp
    have hlive' := getDc_live hp'
    obtain ⟨qs, hnodes, hsaved⟩ := h.chains.head _ p hlive
    obtain ⟨qs', hnodes', hsaved'⟩ := h.chains.head _ p' hlive'
    have hindex := h.chains.apart _ _ q (hnodes ▸ savedState_mem hsaved hq)
      (hnodes' ▸ savedState_mem hsaved' hq')
    rw [hindex] at hlive
    exact GdiPtr.object.inj (Option.some.inj (hlive.object.symm.trans hlive'.object))
  · intro answer hdc p s' level hp hcall
    rcases h.save_cases hcall with ⟨rfl, rfl⟩ |
      ⟨p', q, dcs, hp', hunused, rfl, rfl, hself, hcopy, hother⟩
    · exact .inl ⟨rfl, rfl⟩
    · obtain rfl := Option.some.inj (hp.symm.trans hp')
      have hlive := getDc_live hp
      obtain ⟨-, -, -, -, -, hchains⟩ := h.chains.pushed hlive hunused hself hcopy hother
      exact .inr ⟨rfl, h.onlyDc hlive hchains, q, hself⟩
  · intro hdc p level hp hpos hle
    have hlive := getDc_live hp
    obtain ⟨qs, hnodes, hsaved⟩ := h.chains.head _ p hlive
    have hused : ∀ q ∈ p :: qs, r.state.dcs.inUse q = true := fun q hq =>
      h.chains.used _ q (hnodes ▸ hq)
    have hruns : ∀ fuel : Nat, (r.state.dcs.object p).saveLevel ≤ fuel → ∃ s',
        restoreStates fuel r.state p ((r.state.dcs.object p).restoreLevel level) = some s' ∧
        gdiRestoreDc fuel r.state hdc level = some (s', true) := by
      intro fuel hfuel
      rw [hsaved.level] at hfuel
      obtain ⟨s', hloop⟩ := restoreStates_returns ((r.state.dcs.object p).restoreLevel level) hsaved
        hused (Int.ofNat_le.mp hfuel)
      refine ⟨s', hloop, ?_⟩
      unfold gdiRestoreDc
      have hrange : ¬ ((r.state.dcs.object p).restoreLevel level ≤ 0 ∨
          (r.state.dcs.object p).restoreLevel level > (r.state.dcs.object p).saveLevel) := by omega
      simp only [hp, Pool.read_inUse (hused p List.mem_cons_self), Option.bind_eq_bind,
        Option.bind_some, if_neg hrange, hloop]
      rfl
    have hdone : ∀ fuel : Nat, (r.state.dcs.object p).saveLevel ≤ fuel → ∃ s' t,
        gdiRestoreDc fuel r.state hdc level = some (s', true) ∧
        s'.dcs.object p = r.state.dcs.object t ∧
        (r.state.dcs.object t).saveLevel = (r.state.dcs.object p).restoreLevel level - 1 ∧
        lastSave r.saves p ((r.state.dcs.object p).restoreLevel level) =
          some (r.state.dcs.object t) ∧ OnlyDc r.state s' p := by
      intro fuel hfuel
      obtain ⟨s', hloop, hcall⟩ := hruns fuel hfuel
      obtain ⟨dcs, rest, t, rfl, -, -, -, hself, -, hlevel, hlast, -, hchains⟩ :=
        h.restored hp (by omega) hle hloop
      exact ⟨_, t, hcall, hself, hlevel, hlast, h.onlyDc hlive hchains⟩
    obtain ⟨s', t, -, -, hlevel, hlast, -⟩ := hdone qs.length (Int.le_of_eq hsaved.level)
    refine ⟨_, hlast, hlevel, ?_⟩
    intro fuel hfuel
    obtain ⟨s', t', hcall, hself, -, hlast', honly⟩ := hdone fuel hfuel
    refine ⟨s', hcall, ?_, honly⟩
    rw [hself]
    exact Option.some.inj (hlast'.symm.trans hlast)
  · intro fuel hdc p level hp hout
    obtain ⟨qs, hnodes, -⟩ := h.chains.head _ p (getDc_live hp)
    have hused := h.chains.used _ p (hnodes ▸ List.mem_cons_self)
    unfold gdiRestoreDc
    have hrange : (r.state.dcs.object p).restoreLevel level ≤ 0 ∨
        (r.state.dcs.object p).restoreLevel level > (r.state.dcs.object p).saveLevel := by omega
    simp only [hp, Pool.read_inUse hused, Option.bind_eq_bind, Option.bind_some, if_pos hrange]
    rfl

/-- In every state of every run the saved states nest. -/
theorem dcRun_nestedSaves {ops : List DcOp} {tr : List DcRun}
    (h : trace (dcRunStep fuel) dcRunStart ops = some tr) :
    ∀ r ∈ tr, NestedSaves r.state r.saves := by
  have hinv : ∀ r ∈ tr, ∃ nodes, SaveInv r nodes :=
    trace_invariant_of_step (fun _ _ _ ⟨_, hr⟩ hstep => hr.step hstep) ⟨_, saveInv_start⟩ h
  intro r hr
  obtain ⟨nodes, hr⟩ := hinv r hr
  exact hr.nested

/-- A colour is changed twice, and saved before each time. -/
def colourOps : List DcOp :=
  [.createCompatibleDc none 0, .save none 0x01010001,
    .change 0x01010001 fun dc => { dc with attributes.textColor := 1 }, .save none 0x01010001,
    .change 0x01010001 fun dc => { dc with attributes.textColor := 2 }]

theorem dcRun_nestedSaves_colour : ∃ tr, trace (dcRunStep 4) dcRunStart colourOps = some tr ∧
    (tr[5]?.map fun r => (r.state.getDc 0x01010001, (r.state.dcs.object 0).saveLevel,
      (lastSave r.saves 0 2).map fun dc => dc.attributes.textColor)) =
        some (some 0, 2, some 1) ∧
    ∀ r ∈ tr, NestedSaves r.state r.saves := by
  have hrun : (trace (dcRunStep 4) dcRunStart colourOps).map (fun tr =>
      tr[5]?.map fun r => (r.state.getDc 0x01010001, (r.state.dcs.object 0).saveLevel,
        (lastSave r.saves 0 2).map fun dc => dc.attributes.textColor)) =
      some (some (some 0, 2, some 1)) := by decide +kernel
  obtain ⟨tr, htr, hlast⟩ := Option.map_eq_some_iff.mp hrun
  exact ⟨tr, htr, hlast, dcRun_nestedSaves htr⟩

end Wbox.Gdi
