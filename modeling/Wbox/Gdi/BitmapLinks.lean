import Wbox.Gdi.SelectionSteps
import Wbox.Lib.Trace

/-!
# Bitmaps and the contexts they are selected into

A bitmap knows the context it is selected into (`src/gdi/gdi_objects.h`: "DC this bitmap is selected
into (0 if none)"), and the context its bitmap. `gdi_select_bitmap` keeps both
(`src/gdi/gdi_dc.c:258–295`); `gdi_restore_dc` and `gdi_delete_dc` change the contexts only.
-/

namespace Wbox.Gdi

open Wbox.Lib

/-- The calls; handles are arbitrary, `answer` is what `calloc` has to offer when a pool is full. -/
inductive BitmapOp where
  | createBitmap (heap : Heap) (answer : Option Nat) (width height : Int32) (planes bpp : UInt32)
  | createDc (answer : Option Nat) (hdcRef : UInt32)
  | select (hdc hbitmap : UInt32)
  | save (answer : Option Nat) (hdc : UInt32)
  | restore (hdc : UInt32) (level : Int32)
  | delete (hdc : UInt32)

/-- One call; `fuel` bounds the loops over saved states. -/
def bitmapStep (fuel : Nat) (s : GdiState) : BitmapOp → Option GdiState
  | .createBitmap heap answer width height planes bpp =>
      (gdiCreateBitmap heap s answer width height planes bpp).map Prod.fst
  | .createDc answer hdcRef => (gdiCreateCompatibleDc s answer hdcRef).map Prod.fst
  | .select hdc hbitmap => (gdiSelectBitmap s hdc hbitmap).map Prod.fst
  | .save answer hdc => (gdiSaveDc s answer hdc).map Prod.fst
  | .restore hdc level => (gdiRestoreDc fuel s hdc level).map Prod.fst
  | .delete hdc => (gdiDeleteDc fuel s hdc).map Prod.fst

/-- A live memory context with its handle. -/
structure MemoryDc (s : GdiState) (hdc : UInt32) (p : Nat) : Prop where
  get : s.getDc hdc = some p
  handle : (s.dcs.object p).handle = hdc
  memory : (s.dcs.object p).dcType = dctypeMemory

/-- Bitmaps and contexts agree on what is selected where. -/
structure Linked (s : GdiState) : Prop where
  link : ∀ b h, h ≠ 0 → ((s.bitmaps.object b).hdc = h ↔
    ∃ p, MemoryDc s h p ∧ (s.dcs.object p).bitmapAddr = some b)
  unique : ∀ b h h' p p', MemoryDc s h p → MemoryDc s h' p' →
    (s.dcs.object p).bitmapAddr = some b → (s.dcs.object p').bitmapAddr = some b →
    h = h' ∧ p = p'
  selectable : ∀ hbitmap b hdc p, s.getBitmap hbitmap = some b →
    (∀ h q, MemoryDc s h q → (s.dcs.object q).bitmapAddr ≠ some b) → MemoryDc s hdc p →
    ∃ s' prev, gdiSelectBitmap s hdc hbitmap = some (s', prev) ∧
      (s'.dcs.object p).bitmapAddr = some b

/-- The state of a context some saves back. -/
def savedState (dcs : Pool DcSelection) : Nat → Nat → Option Nat
  | 0, p => some p
  | n + 1, p => (dcs.object p).savedDc.bind (savedState dcs n)

/-- The state that `gdi_restore_dc` goes back to has the bitmap that is selected now. -/
def RestoresBitmap (s : GdiState) (p : Nat) (level : Int32) : Prop :=
  let dc := s.dcs.object p
  let level := dc.restoreLevel level
  0 < level → level ≤ dc.saveLevel → ∀ q,
    savedState s.dcs (dc.saveLevel - level + 1).toNat p = some q →
    (s.dcs.object q).bitmapAddr = dc.bitmapAddr

/-- Bitmaps are selected by the context's own handle, contexts are restored to states with the same
bitmap, and deleted by handles of contexts before a bitmap is selected into them. -/
def KeepsLinks (s : GdiState) : BitmapOp → Prop
  | .select hdc hbitmap => ∀ p b, s.getDc hdc = some p → s.getBitmap hbitmap = some b →
      (s.bitmaps.object b).hdc = 0 → hdc = (s.dcs.object p).handle
  | .restore hdc level => ∀ p, s.getDc hdc = some p → RestoresBitmap s p level
  | .delete hdc => ∀ p, s.getDc hdc = some p →
      gdiHandleType hdc = gdiObjDc ∧ (s.dcs.object p).bitmapAddr = none
  | _ => True

/-- The saved states of a context; the level counts them. -/
def Saved (dcs : Pool DcSelection) : Nat → List Nat → Prop
  | p, [] => (dcs.object p).savedDc = none ∧ (dcs.object p).saveLevel = 0
  | p, q :: qs => (dcs.object p).savedDc = some q ∧
      (dcs.object p).saveLevel = qs.length + 1 ∧ Saved dcs q qs

/-- Each live context has its own saved states, and all of them are in use. -/
structure Chains (s : GdiState) (nodes : Nat → List Nat) : Prop where
  head : ∀ i p, LiveDc s.table i p → ∃ qs, nodes i = p :: qs ∧ Saved s.dcs p qs
  dead : ∀ i, (∀ p, ¬ LiveDc s.table i p) → nodes i = []
  used : ∀ i q, q ∈ nodes i → s.dcs.inUse q = true
  apart : ∀ i j q, q ∈ nodes i → q ∈ nodes j → i = j

/-- The invariant of a run. -/
structure LinkInv (s : GdiState) (nodes : Nat → List Nat) : Prop where
  chains : Chains s nodes
  nextFree : s.table.nextFree ≤ gdiMaxHandles
  own : ∀ i p, LiveDc s.table i p → i < gdiMaxHandles ∧
    (s.dcs.object p).handle = gdiMakeHandle i gdiObjDc (s.table.entries i).reuseCount
  memory : ∀ i q, q ∈ nodes i → (s.dcs.object q).dcType = dctypeMemory
  selected : ∀ i q b, q ∈ nodes i → (s.dcs.object q).bitmapAddr = some b →
    s.bitmaps.inUse b = true
  bitmap : ∀ i, (s.table.entries i).inUse = true → (s.table.entries i).type = gdiObjBitmap →
    ∃ b, (s.table.entries i).object = some (.object b) ∧ s.bitmaps.inUse b = true
  link : ∀ b h, h ≠ 0 → ((s.bitmaps.object b).hdc = h ↔
    ∃ i p, LiveDc s.table i p ∧ (s.dcs.object p).handle = h ∧
      (s.dcs.object p).bitmapAddr = some b)

variable {s s' : GdiState} {dcs dcs' : Pool DcSelection} {nodes : Nat → List Nat}
  {p q a b i fuel : Nat} {qs ns : List Nat} {hdc hbitmap made : UInt32} {op : BitmapOp}

theorem Saved.level (h : Saved dcs p qs) : (dcs.object p).saveLevel = qs.length := by
  cases qs with
  | nil => exact h.2
  | cons q qs => exact h.2.1.trans (by simp)

/-- Only links and levels matter. -/
theorem Saved.congr (h : Saved dcs p qs)
    (hdcs : ∀ q ∈ p :: qs, (dcs'.object q).savedDc = (dcs.object q).savedDc ∧
      (dcs'.object q).saveLevel = (dcs.object q).saveLevel) : Saved dcs' p qs := by
  induction qs generalizing p with
  | nil =>
    obtain ⟨hsaved, hlevel⟩ := hdcs p (by simp)
    exact ⟨hsaved.trans h.1, hlevel.trans h.2⟩
  | cons q qs ih =>
    obtain ⟨hsaved, hlevel⟩ := hdcs p (by simp)
    refine ⟨hsaved.trans h.1, hlevel.trans h.2.1, ih h.2.2 ?_⟩
    exact fun r hr => hdcs r (List.mem_cons_of_mem p hr)

/-- Levels fall along the chain. -/
theorem Saved.level_lt (h : Saved dcs p qs) :
    ∀ q ∈ qs, (dcs.object q).saveLevel < (dcs.object p).saveLevel := by
  induction qs generalizing p with
  | nil => exact fun _ hq => absurd hq List.not_mem_nil
  | cons r rs ih =>
    have hr : (dcs.object r).saveLevel < (dcs.object p).saveLevel := by
      rw [h.level, h.2.2.level]
      push_cast [List.length_cons]
      omega
    intro q hq
    rcases List.mem_cons.mp hq with rfl | hq
    · exact hr
    · exact Int.lt_trans (ih h.2.2 q hq) hr

/-- A context is none of its saved states. -/
theorem Saved.not_mem (h : Saved dcs p qs) : p ∉ qs := fun hp => by
  have hlt := h.level_lt p hp
  omega

theorem Saved.nodup (h : Saved dcs p qs) : (p :: qs).Nodup := by
  induction qs generalizing p with
  | nil => exact List.nodup_cons.mpr ⟨List.not_mem_nil, List.nodup_nil⟩
  | cons q qs ih => exact List.nodup_cons.mpr ⟨h.not_mem, ih h.2.2⟩

/-- Going back goes along the chain. -/
theorem Saved.savedState (h : Saved dcs p qs) (n : Nat) : savedState dcs (n + 1) p = qs[n]? := by
  induction n generalizing p qs with
  | zero =>
    cases qs with
    | nil => exact congrArg (Option.bind · _) h.1
    | cons q qs => exact congrArg (Option.bind · _) h.1
  | succ n ih =>
    cases qs with
    | nil => exact congrArg (Option.bind · _) h.1
    | cons q qs =>
      show (dcs.object p).savedDc.bind (Wbox.Gdi.savedState dcs (n + 1)) = _
      rw [h.1]
      exact ih h.2.2

/-- The list of one entry may be replaced, if what is new in it was not in use. -/
theorem Chains.replace (h : Chains s nodes)
    (hlive : ∀ j p, j ≠ i → (LiveDc s'.table j p ↔ LiveDc s.table j p))
    (hhead : ∀ p, LiveDc s'.table i p → ∃ qs, ns = p :: qs ∧ Saved s'.dcs p qs)
    (hdead : (∀ p, ¬ LiveDc s'.table i p) → ns = [])
    (hsame : ∀ j q, j ≠ i → q ∈ nodes j → s'.dcs.object q = s.dcs.object q)
    (hused : ∀ q ∈ ns, s'.dcs.inUse q = true)
    (hnew : ∀ q ∈ ns, q ∈ nodes i ∨ s.dcs.inUse q = false) :
    Chains s' (Function.update nodes i ns) := by
  constructor
  · intro j p hj
    by_cases hi : j = i
    · subst hi
      rw [Function.update_self]
      exact hhead p hj
    · rw [Function.update_of_ne hi]
      obtain ⟨qs, hnodes, hsaved⟩ := h.head j p ((hlive j p hi).mp hj)
      refine ⟨qs, hnodes, hsaved.congr ?_⟩
      intro q hq
      rw [hsame j q hi (hnodes ▸ hq)]
      exact ⟨rfl, rfl⟩
  · intro j hj
    by_cases hi : j = i
    · subst hi
      rw [Function.update_self]
      exact hdead hj
    · rw [Function.update_of_ne hi]
      exact h.dead j fun p hp => hj p ((hlive j p hi).mpr hp)
  · intro j q
    by_cases hi : j = i
    · subst hi
      rw [Function.update_self]
      exact hused q
    · rw [Function.update_of_ne hi]
      intro hq
      unfold Pool.inUse
      rw [hsame j q hi hq]
      exact h.used j q hq
  · intro j k q
    have hother : ∀ j, j ≠ i → q ∈ ns → q ∈ nodes j → False := by
      intro j hj hq hqj
      rcases hnew q hq with hqi | hfree
      · exact hj (h.apart j i q hqj hqi)
      · rw [h.used j q hqj] at hfree
        cases hfree
    by_cases hj : j = i
    · by_cases hk : k = i
      · exact fun _ _ => hj.trans hk.symm
      · rw [hj, Function.update_self, Function.update_of_ne hk]
        exact fun hq hqk => (hother k hk hq hqk).elim
    · by_cases hk : k = i
      · rw [hk, Function.update_self, Function.update_of_ne hj]
        exact fun hqj hq => (hother j hj hq hqj).elim
      · rw [Function.update_of_ne hj, Function.update_of_ne hk]
        exact h.apart j k q

theorem Chains.mem (h : Chains s nodes) (hp : LiveDc s.table i p) : p ∈ nodes i := by
  obtain ⟨qs, hnodes, -⟩ := h.head i p hp
  rw [hnodes]
  exact List.mem_cons_self

/-- An object that was not in use is no context of a chain. -/
theorem Chains.not_mem (h : Chains s nodes) (hfree : s.dcs.inUse p = false) (j : Nat) :
    p ∉ nodes j := by
  intro hp
  rw [h.used j p hp] at hfree
  cases hfree

/-- Contexts that are in no chain do not matter. -/
theorem Chains.withDcs (h : Chains s nodes)
    (hsame : ∀ j q, q ∈ nodes j → dcs.object q = s.dcs.object q) :
    Chains { s with dcs } nodes := by
  refine ⟨?_, h.dead, ?_, h.apart⟩
  · intro j p hp
    obtain ⟨qs, hnodes, hsaved⟩ := h.head j p hp
    refine ⟨qs, hnodes, hsaved.congr ?_⟩
    intro q hq
    rw [hsame j q (hnodes ▸ hq)]
    exact ⟨rfl, rfl⟩
  · intro j q hq
    exact (congrArg DcSelection.inUse (hsame j q hq)).trans (h.used j q hq)

/-- The chain of a context may be replaced while its entry stays. -/
theorem Chains.replaceNodes (h : Chains s nodes) (hp : LiveDc s.table i p)
    (htable : s'.table = s.table) (hsaved : Saved s'.dcs p qs)
    (hsame : ∀ j q, j ≠ i → q ∈ nodes j → s'.dcs.object q = s.dcs.object q)
    (hused : ∀ q ∈ p :: qs, s'.dcs.inUse q = true)
    (hnew : ∀ q ∈ p :: qs, q ∈ nodes i ∨ s.dcs.inUse q = false) :
    Chains s' (Function.update nodes i (p :: qs)) := by
  apply h.replace ?_ ?_ ?_ hsame hused hnew
  · intro j q _
    rw [htable]
  · intro q hq
    rw [htable] at hq
    rw [GdiPtr.object.inj (Option.some.inj (hq.object.symm.trans hp.object))]
    exact ⟨qs, rfl, hsaved⟩
  · rw [htable]
    exact fun hnone => absurd hp (hnone p)

/-- A copy of a context is put before its saved states; nothing else changes in the chains. -/
theorem Chains.pushed (h : Chains s nodes) (hp : LiveDc s.table i p)
    (hunused : s.dcs.inUse q = false)
    (hself : dcs.object p = { s.dcs.object p with
      savedDc := some q, saveLevel := (s.dcs.object p).saveLevel + 1 })
    (hcopy : dcs.object q = s.dcs.object p)
    (hother : ∀ r, r ≠ p → r ≠ q → dcs.object r = s.dcs.object r) :
    ∃ qs, nodes i = p :: qs ∧ Saved s.dcs p qs ∧ Saved dcs p (q :: qs) ∧
      (∀ r ∈ qs, dcs.object r = s.dcs.object r) ∧
      ∀ j r, j ≠ i → r ∈ nodes j → dcs.object r = s.dcs.object r := by
  obtain ⟨qs, hnodes, hsaved⟩ := h.head i p hp
  have hne : ∀ j r, r ∈ nodes j → r ≠ q := by
    rintro j r hr rfl
    exact h.not_mem hunused j hr
  have hkept : ∀ r ∈ qs, dcs.object r = s.dcs.object r := by
    intro r hr
    apply hother r ?_ (hne i r (hnodes ▸ List.mem_cons_of_mem p hr))
    rintro rfl
    exact hsaved.not_mem hr
  refine ⟨qs, hnodes, hsaved, ⟨?_, ?_, ?_⟩, hkept, ?_⟩
  · rw [hself]
  · rw [hself, hsaved.level]
  · cases qs with
    | nil =>
      refine ⟨?_, ?_⟩
      · rw [hcopy]
        exact hsaved.1
      · rw [hcopy]
        exact hsaved.2
    | cons r rs =>
      refine ⟨?_, ?_, hsaved.2.2.congr ?_⟩
      · rw [hcopy]
        exact hsaved.1
      · rw [hcopy]
        exact hsaved.2.1
      · intro r' hr'
        rw [hkept r' hr']
        exact ⟨rfl, rfl⟩
  · intro j r hj hr
    apply hother r ?_ (hne j r hr)
    rintro rfl
    exact hj (h.apart j i r hr (h.mem hp))

/-- The states of a context that are not popped stay, and so do the other chains. -/
theorem Chains.popped {taken rest : List Nat} (h : Chains s nodes)
    (hnodes : nodes i = p :: (taken ++ rest)) (hnodup : (p :: (taken ++ rest)).Nodup)
    (hother : ∀ r, r ≠ p → r ∉ taken → dcs.object r = s.dcs.object r) :
    (∀ r ∈ rest, dcs.object r = s.dcs.object r) ∧
      ∀ j r, j ≠ i → r ∈ nodes j → dcs.object r = s.dcs.object r := by
  have hnodup := List.nodup_cons.mp hnodup
  constructor
  · intro r hr
    apply hother r
    · rintro rfl
      exact hnodup.1 (List.mem_append_right taken hr)
    · exact fun hr' => (List.nodup_append.mp hnodup.2).2.2 r hr' r hr rfl
  · intro j r hj hr
    have hnot : r ∉ p :: (taken ++ rest) := fun hr' => hj (h.apart j i r hr (hnodes ▸ hr'))
    rw [List.mem_cons, List.mem_append, not_or, not_or] at hnot
    exact hother r hnot.1 hnot.2.1

/-- Live contexts are told apart by their handles. -/
theorem LinkInv.handle_inj (h : LinkInv s nodes) {j p' : Nat} (hp : LiveDc s.table i p)
    (hp' : LiveDc s.table j p') (hsame : (s.dcs.object p).handle = (s.dcs.object p').handle) :
    i = j ∧ p = p' := by
  obtain ⟨hi, hown⟩ := h.own i p hp
  obtain ⟨hj, hown'⟩ := h.own j p' hp'
  have hindex : i = j := by
    have heq := congrArg gdiHandleIndex (hown.symm.trans (hsame.trans hown'))
    rwa [gdiHandleIndex_make hi, gdiHandleIndex_make hj] at heq
  subst hindex
  exact ⟨rfl, GdiPtr.object.inj (Option.some.inj (hp.object.symm.trans hp'.object))⟩

theorem LinkInv.mem (h : LinkInv s nodes) (hp : LiveDc s.table i p) : p ∈ nodes i :=
  h.chains.mem hp

/-- The handle of a live context denotes it. -/
theorem LinkInv.memoryDc (h : LinkInv s nodes) (hp : LiveDc s.table i p) :
    MemoryDc s (s.dcs.object p).handle p := by
  obtain ⟨hi, hown⟩ := h.own i p hp
  refine ⟨?_, rfl, h.memory i p (h.mem hp)⟩
  unfold GdiState.getDc
  rw [hown, gdiGetObject_make hi (by decide) hp.inUse hp.type, hp.object]

theorem LinkInv.handle_ne_zero (h : LinkInv s nodes) (hp : LiveDc s.table i p) :
    (s.dcs.object p).handle ≠ 0 := by
  obtain ⟨hi, hown⟩ := h.own i p hp
  rw [hown]
  exact gdiMakeHandle_ne_zero hi (by decide)

theorem LinkInv.getBitmap_used (h : LinkInv s nodes) (hb : s.getBitmap hbitmap = some b) :
    s.bitmaps.inUse b = true := by
  unfold GdiState.getBitmap at hb
  split at hb
  · next heq =>
    obtain rfl := Option.some.inj hb
    obtain ⟨-, huse, htype, hobject⟩ := gdiGetObject_object heq
    obtain ⟨b', hobject', hused⟩ := h.bitmap _ huse htype
    cases hobject.symm.trans hobject'
    exact hused
  · cases hb

/-- A bitmap that is selected nowhere can be selected. -/
theorem LinkInv.selectable (h : LinkInv s nodes) (hb : s.getBitmap hbitmap = some b)
    (hzero : (s.bitmaps.object b).hdc = 0) (hp : s.getDc hdc = some p) :
    ∃ s' prev, gdiSelectBitmap s hdc hbitmap = some (s', prev) ∧
      (s'.dcs.object p).bitmapAddr = some b := by
  have hlive := getDc_live hp
  have hmem := h.mem hlive
  have hread := Pool.read_inUse (h.chains.used _ p hmem)
  have hreadb := Pool.read_inUse (h.getBitmap_used hb)
  have hdeselect : ∃ s₁, deselectBitmap s (s.dcs.object p).bitmap = some s₁ := by
    cases hbitmap : (s.dcs.object p).bitmap with
    | none => exact ⟨s, rfl⟩
    | some r =>
      have hused := h.selected _ p r.target hmem (congrArg (Option.map Ref.target) hbitmap)
      simp only [deselectBitmap, Pool.read_inUse hused, Option.map_some]
      exact ⟨_, rfl⟩
  obtain ⟨s₁, hs₁⟩ := hdeselect
  unfold gdiSelectBitmap
  simp only [hp, hb, hread, hreadb, Option.bind_eq_bind, Option.bind_some, h.memory _ p hmem,
    ne_eq, not_true_eq_false, if_false, hzero, false_and, hs₁]
  refine ⟨_, _, rfl, ?_⟩
  show (Function.update s₁.dcs.object p _ p).bitmapAddr = some b
  rw [Function.update_self]
  rfl

/-- The invariant says that bitmaps and contexts agree. -/
theorem LinkInv.linked (h : LinkInv s nodes) : Linked s := by
  have hlive : ∀ hdc p, MemoryDc s hdc p →
      LiveDc s.table (gdiHandleIndex hdc) p ∧ (s.dcs.object p).handle = hdc :=
    fun hdc p hp => ⟨getDc_live hp.get, hp.handle⟩
  have hlink : ∀ b h, h ≠ 0 → ((s.bitmaps.object b).hdc = h ↔
      ∃ p, MemoryDc s h p ∧ (s.dcs.object p).bitmapAddr = some b) := by
    intro b hdc hne
    rw [h.link b hdc hne]
    constructor
    · intro ⟨i, p, hp, hhandle, hbitmap⟩
      exact ⟨p, hhandle ▸ h.memoryDc hp, hbitmap⟩
    · intro ⟨p, hp, hbitmap⟩
      exact ⟨_, p, (hlive hdc p hp).1, hp.handle, hbitmap⟩
  refine ⟨hlink, ?_, ?_⟩
  · intro b hdc hdc' p p' hp hp' hb hb'
    have hne := hp.handle ▸ h.handle_ne_zero (hlive hdc p hp).1
    have hne' := hp'.handle ▸ h.handle_ne_zero (hlive hdc' p' hp').1
    have hsame := ((hlink b hdc hne).mpr ⟨p, hp, hb⟩).symm.trans
      ((hlink b hdc' hne').mpr ⟨p', hp', hb'⟩)
    subst hsame
    exact ⟨rfl, Option.some.inj (hp.get.symm.trans hp'.get)⟩
  · intro hbitmap b hdc p hb hnone hp
    refine h.selectable hb ?_ hp.get
    by_contra hne
    obtain ⟨q, hq, hsel⟩ := (hlink b _ hne).mp rfl
    exact hnone _ q hq hsel

/-- A live context keeps its place when a handle is made. -/
theorem liveDc_newHandle {ptr : GdiPtr} {type : UInt8} {reuse : UInt16}
    (hfree : (s.table.entries a).inUse = false)
    (hentries : (gdiAllocHandle s.table (some ptr) type).1.entries =
      Function.update s.table.entries a
        { object := some ptr, type, reuseCount := reuse, inUse := true })
    (hlive : LiveDc s.table i p) :
    i ≠ a ∧ (gdiAllocHandle s.table (some ptr) type).1.entries i = s.table.entries i ∧
      LiveDc (gdiAllocHandle s.table (some ptr) type).1 i p := by
  have hne : i ≠ a := by
    rintro rfl
    rw [hlive.inUse] at hfree
    cases hfree
  have heq : (gdiAllocHandle s.table (some ptr) type).1.entries i = s.table.entries i := by
    rw [hentries, Function.update_of_ne hne]
  obtain ⟨huse, htype, hobject⟩ := hlive
  refine ⟨hne, heq, ?_⟩
  rw [← heq] at huse htype hobject
  exact ⟨huse, htype, hobject⟩

/-- A handle of something else makes no context live. -/
theorem liveDc_newHandle_iff {ptr : GdiPtr} {type : UInt8} {reuse : UInt16}
    (htype : type ≠ gdiObjDc) (hfree : (s.table.entries a).inUse = false)
    (hentries : (gdiAllocHandle s.table (some ptr) type).1.entries =
      Function.update s.table.entries a
        { object := some ptr, type, reuseCount := reuse, inUse := true }) :
    LiveDc (gdiAllocHandle s.table (some ptr) type).1 i p ↔ LiveDc s.table i p := by
  constructor
  · intro hp
    rcases LiveDc.of_newHandle hentries hp with ⟨-, hdc, -⟩ | hp
    · exact absurd hdc htype
    · exact hp
  · exact fun hp => (liveDc_newHandle hfree hentries hp).2.2

/-- The handle of a context makes that one live. -/
theorem liveDc_newDc_iff {reuse : UInt16}
    (hentries : (gdiAllocHandle s.table (some (.object p)) gdiObjDc).1.entries =
      Function.update s.table.entries i
        { object := some (.object p), type := gdiObjDc, reuseCount := reuse, inUse := true }) :
    LiveDc (gdiAllocHandle s.table (some (.object p)) gdiObjDc).1 i q ↔ q = p := by
  constructor
  · intro hq
    have hobject := hq.object
    rw [hentries, Function.update_self] at hobject
    exact (GdiPtr.object.inj (Option.some.inj hobject)).symm
  · rintro rfl
    constructor <;> rw [hentries, Function.update_self]

/-- Contexts that are in no chain do not matter. -/
theorem LinkInv.withDcs (h : LinkInv s nodes)
    (hsame : ∀ j q, q ∈ nodes j → dcs.object q = s.dcs.object q) :
    LinkInv { s with dcs } nodes := by
  have hlive : ∀ j p, LiveDc s.table j p → dcs.object p = s.dcs.object p := fun j p hp =>
    hsame j p (h.mem hp)
  refine ⟨h.chains.withDcs hsame, h.nextFree, ?_, ?_, ?_, h.bitmap, ?_⟩
  · intro j p hp
    dsimp only
    rw [hlive j p hp]
    exact h.own j p hp
  · intro j q hq
    dsimp only
    rw [hsame j q hq]
    exact h.memory j q hq
  · intro j q b hq
    dsimp only
    rw [hsame j q hq]
    exact h.selected j q b hq
  · intro b hdc hne
    dsimp only
    rw [h.link b hdc hne]
    constructor
    · intro ⟨j, p, hp, hdone⟩
      exact ⟨j, p, hp, hlive j p hp ▸ hdone⟩
    · intro ⟨j, p, hp, hdone⟩
      exact ⟨j, p, hp, (hlive j p hp).symm ▸ hdone⟩

/-- Live contexts only depend on their entry. -/
theorem LiveDc.congr {t t' : GdiHandleTable} (heq : t'.entries i = t.entries i) :
    LiveDc t' i p ↔ LiveDc t i p := by
  constructor
  · intro ⟨huse, htype, hobject⟩
    rw [heq] at huse htype hobject
    exact ⟨huse, htype, hobject⟩
  · intro ⟨huse, htype, hobject⟩
    rw [← heq] at huse htype hobject
    exact ⟨huse, htype, hobject⟩

/-- The context of one entry may be replaced by one with the same bitmap. -/
theorem LinkInv.replace (h : LinkInv s nodes) {table : GdiHandleTable}
    (hnext : table.nextFree ≤ gdiMaxHandles)
    (hentries : ∀ j, j ≠ i → table.entries j = s.table.entries j)
    (hentry : (table.entries i).inUse = true → (table.entries i).type = gdiObjDc)
    (hhead : ∀ p, LiveDc table i p → ∃ qs, ns = p :: qs ∧ Saved dcs p qs)
    (hdead : (∀ p, ¬ LiveDc table i p) → ns = [])
    (hsame : ∀ j q, j ≠ i → q ∈ nodes j → dcs.object q = s.dcs.object q)
    (hnew : ∀ q ∈ ns, q ∈ nodes i ∨ s.dcs.inUse q = false)
    (hnodes : ∀ q ∈ ns, dcs.inUse q = true ∧ (dcs.object q).dcType = dctypeMemory ∧
      ∀ b, (dcs.object q).bitmapAddr = some b → s.bitmaps.inUse b = true)
    (hown : ∀ p, LiveDc table i p → i < gdiMaxHandles ∧
      (dcs.object p).handle = gdiMakeHandle i gdiObjDc (table.entries i).reuseCount)
    (hlink : ∀ b h, (∃ p, LiveDc table i p ∧ (dcs.object p).handle = h ∧
        (dcs.object p).bitmapAddr = some b) ↔
      ∃ p, LiveDc s.table i p ∧ (s.dcs.object p).handle = h ∧
        (s.dcs.object p).bitmapAddr = some b) :
    LinkInv { s with table, dcs } (Function.update nodes i ns) := by
  have hlive : ∀ j p, j ≠ i → (LiveDc table j p ↔ LiveDc s.table j p) := fun j p hj =>
    LiveDc.congr (hentries j hj)
  have hobject : ∀ j p, j ≠ i → LiveDc s.table j p → dcs.object p = s.dcs.object p :=
    fun j p hj hp => hsame j p hj (h.mem hp)
  refine ⟨h.chains.replace hlive hhead hdead hsame (fun q hq => (hnodes q hq).1) hnew, hnext,
    ?_, ?_, ?_, ?_, ?_⟩
  · intro j p hp
    by_cases hj : j = i
    · subst hj
      exact hown p hp
    · have hp' := (hlive j p hj).mp hp
      dsimp only
      rw [hobject j p hj hp', hentries j hj]
      exact h.own j p hp'
  · intro j q
    by_cases hj : j = i
    · rw [hj, Function.update_self]
      exact fun hq => (hnodes q hq).2.1
    · rw [Function.update_of_ne hj]
      intro hq
      dsimp only
      rw [hsame j q hj hq]
      exact h.memory j q hq
  · intro j q b
    by_cases hj : j = i
    · rw [hj, Function.update_self]
      exact fun hq => (hnodes q hq).2.2 b
    · rw [Function.update_of_ne hj]
      intro hq
      dsimp only
      rw [hsame j q hj hq]
      exact h.selected j q b hq
  · intro j huse htype
    dsimp only at huse htype ⊢
    by_cases hj : j = i
    · subst hj
      cases (hentry huse).symm.trans htype
    · rw [hentries j hj] at huse htype ⊢
      exact h.bitmap j huse htype
  · intro b hdc hne
    rw [h.link b hdc hne]
    constructor
    · intro ⟨j, p, hp, hdone⟩
      by_cases hj : j = i
      · subst hj
        obtain ⟨p', hp', hdone'⟩ := (hlink b hdc).mpr ⟨p, hp, hdone⟩
        exact ⟨j, p', hp', hdone'⟩
      · exact ⟨j, p, (hlive j p hj).mpr hp, (hobject j p hj hp).symm ▸ hdone⟩
    · intro ⟨j, p, hp, hdone⟩
      by_cases hj : j = i
      · subst hj
        obtain ⟨p', hp', hdone'⟩ := (hlink b hdc).mp ⟨p, hp, hdone⟩
        exact ⟨j, p', hp', hdone'⟩
      · have hp' := (hlive j p hj).mp hp
        exact ⟨j, p, hp', hobject j p hj hp' ▸ hdone⟩

/-- A new context has a new entry. -/
theorem LinkInv.addDc {dc : DcSelection} (h : LinkInv s nodes) (hnew : NewDc dc)
    (hmemory : dc.dcType = dctypeMemory) (hunused : s.dcs.inUse p = false)
    (hi : i < gdiMaxHandles) (hfree : (s.table.entries i).inUse = false)
    (hentries : (gdiAllocHandle s.table (some (.object p)) gdiObjDc).1.entries =
      Function.update s.table.entries i
        { object := some (.object p), type := gdiObjDc
          reuseCount := (s.table.entries i).reuseCount + 1, inUse := true })
    (hdc : dcs.object p =
      { dc with handle := gdiMakeHandle i gdiObjDc ((s.table.entries i).reuseCount + 1) })
    (hother : ∀ j q, q ∈ nodes j → dcs.object q = s.dcs.object q) :
    LinkInv { s with table := (gdiAllocHandle s.table (some (.object p)) gdiObjDc).1, dcs }
      (Function.update nodes i [p]) := by
  have hself : ∀ q, LiveDc (gdiAllocHandle s.table (some (.object p)) gdiObjDc).1 i q ↔
      q = p := fun q => liveDc_newDc_iff hentries
  have hnone : (dcs.object p).bitmapAddr = none := by
    unfold DcSelection.bitmapAddr
    rw [hdc]
    exact congrArg (Option.map Ref.target) hnew.bitmap
  apply h.replace (gdiAllocHandle_nextFree h.nextFree _ _)
  · intro j hj
    rw [hentries, Function.update_of_ne hj]
  · intro _
    rw [hentries, Function.update_self]
  · intro q hq
    obtain rfl := (hself q).mp hq
    refine ⟨[], rfl, ?_, ?_⟩
    · rw [hdc]
      exact hnew.savedDc
    · rw [hdc]
      exact hnew.saveLevel
  · exact fun hnone => absurd ((hself p).mpr rfl) (hnone p)
  · exact fun j q _ hq => hother j q hq
  · intro q hq
    rw [List.mem_singleton.mp hq]
    exact .inr hunused
  · intro q hq
    obtain rfl := List.mem_singleton.mp hq
    refine ⟨?_, ?_, ?_⟩
    · unfold Pool.inUse
      rw [hdc]
      exact hnew.inUse
    · rw [hdc]
      exact hmemory
    · intro b hb
      rw [hnone] at hb
      cases hb
  · intro q hq
    obtain rfl := (hself q).mp hq
    refine ⟨hi, ?_⟩
    rw [hdc, hentries, Function.update_self]
  · intro b hdc'
    constructor
    · rintro ⟨q, hq, -, hb⟩
      obtain rfl := (hself q).mp hq
      rw [hnone] at hb
      cases hb
    · rintro ⟨q, hq, -⟩
      rw [hq.inUse] at hfree
      cases hfree

theorem LinkInv.newDc {s₁ : GdiState} {answer : Option Nat} {dc : DcSelection}
    (h : LinkInv s nodes) (hnew : NewDc dc) (hmemory : dc.dcType = dctypeMemory)
    (halloc : gdiAllocDc s answer = some (s₁, p)) (hmade : newDc s₁ p dc = some (s', made)) :
    ∃ nodes', LinkInv s' nodes' := by
  obtain ⟨hunused, rfl⟩ := gdiAllocDc_spec halloc
  have hother : ∀ x y j q, q ∈ nodes j →
      Function.update (Function.update s.dcs.object p x) p y q = s.dcs.object q := by
    intro x y j q hq
    have hne : q ≠ p := by
      rintro rfl
      exact h.chains.not_mem hunused j hq
    rw [Function.update_of_ne hne, Function.update_of_ne hne]
  rcases newDc_cases (s := s.setDc p { inUse := true }) h.nextFree hmade with
    ⟨dcs, rfl, hdcs⟩ | ⟨i, hi, hfree, hentries, rfl, rfl⟩
  · have hsame : ∀ j q, q ∈ nodes j → dcs.object q = s.dcs.object q := by
      intro j q hq
      rw [hdcs]
      exact hother _ _ j q hq
    exact ⟨nodes, h.withDcs hsame⟩
  · exact ⟨_, h.addDc hnew hmemory hunused hi hfree hentries (Function.update_self _ _ _)
      (hother _ _)⟩

/-- A new bitmap is selected nowhere. -/
theorem LinkInv.createBitmap {heap : Heap} {answer : Option Nat} {width height : Int32}
    {planes bpp : UInt32} (h : LinkInv s nodes)
    (hstep : gdiCreateBitmap heap s answer width height planes bpp = some (s', made)) :
    LinkInv s' nodes := by
  rcases gdiCreateBitmap_cases h.nextFree hstep with
    rfl | ⟨b, bitmaps, hfree, hagree, hzero, hcases⟩
  · exact h
  · have hold : ∀ b', s.bitmaps.inUse b' = true → bitmaps.inUse b' = true := by
      intro b' huse
      have hne : b' ≠ b := by
        rintro rfl
        rw [hfree] at huse
        cases huse
      exact (hagree.inUse hne).trans huse
    have hlink : ∀ b' hdc, hdc ≠ 0 → ((bitmaps.object b').hdc = hdc ↔
        ∃ i p, LiveDc s.table i p ∧ (s.dcs.object p).handle = hdc ∧
          (s.dcs.object p).bitmapAddr = some b') := by
      intro b' hdc hne
      by_cases hb : b' = b
      · subst hb
        rw [hzero]
        refine ⟨fun heq => absurd heq.symm hne, ?_⟩
        rintro ⟨i, p, hp, -, hsel⟩
        rw [h.selected i p b' (h.mem hp) hsel] at hfree
        cases hfree
      · rw [(hagree b' hb).1]
        exact h.link b' hdc hne
    rcases hcases with ⟨-, rfl⟩ | ⟨i, -, hunused, -, hused, -, hentries, rfl⟩
    · refine ⟨⟨h.chains.head, h.chains.dead, h.chains.used, h.chains.apart⟩, h.nextFree, h.own,
        h.memory, fun i q b' hq hb => hold b' (h.selected i q b' hq hb), ?_, hlink⟩
      intro j huse htype
      obtain ⟨b', hobject, hused⟩ := h.bitmap j huse htype
      exact ⟨b', hobject, hold b' hused⟩
    · have hiff : ∀ j p, LiveDc (gdiAllocHandle s.table (some (.object b)) gdiObjBitmap).1 j p ↔
          LiveDc s.table j p := fun j p =>
        liveDc_newHandle_iff (by decide) hunused hentries
      refine ⟨⟨?_, ?_, h.chains.used, h.chains.apart⟩, gdiAllocHandle_nextFree h.nextFree _ _, ?_,
        h.memory, fun i q b' hq hb => hold b' (h.selected i q b' hq hb), ?_, ?_⟩
      · exact fun j p hp => h.chains.head j p ((hiff j p).mp hp)
      · exact fun j hnone => h.chains.dead j fun p hp => hnone p ((hiff j p).mpr hp)
      · intro j p hp
        have hp' := (hiff j p).mp hp
        dsimp only
        rw [(liveDc_newHandle hunused hentries hp').2.1]
        exact h.own j p hp'
      · intro j
        dsimp only
        rw [hentries]
        by_cases hj : j = i
        · rw [hj, Function.update_self]
          exact fun _ _ => ⟨b, rfl, hused⟩
        · rw [Function.update_of_ne hj]
          intro huse htype
          obtain ⟨b', hobject, hused'⟩ := h.bitmap j huse htype
          exact ⟨b', hobject, hold b' hused'⟩
      · intro b' hdc hne
        rw [hlink b' hdc hne]
        exact exists_congr fun j => exists_congr fun p => and_congr_left' (hiff j p).symm

/-- Selecting a bitmap keeps everything about contexts but their selection. -/
theorem setDc_withBitmap_fields (s : GdiState) (p : Nat) (r : Ref Nat) (hbitmap : UInt32)
    (bmp : GdiBitmap) (q : Nat) :
    let dc := (s.dcs.set p ((s.dcs.object p).withBitmap r hbitmap bmp)).object q
    (dc.savedDc = (s.dcs.object q).savedDc ∧ dc.saveLevel = (s.dcs.object q).saveLevel) ∧
      dc.handle = (s.dcs.object q).handle ∧ dc.dcType = (s.dcs.object q).dcType ∧
      dc.inUse = (s.dcs.object q).inUse ∧
      dc.bitmapAddr = if q = p then some r.target else (s.dcs.object q).bitmapAddr := by
  by_cases hq : q = p
  · subst hq
    rw [Pool.set_object, Function.update_self, if_pos rfl]
    exact ⟨⟨rfl, rfl⟩, rfl, rfl, rfl, rfl⟩
  · rw [Pool.set_object, Function.update_of_ne hq, if_neg hq]
    exact ⟨⟨rfl, rfl⟩, rfl, rfl, rfl, rfl⟩

/-- A bitmap is selected by the handle of its context, if it is selected anywhere. -/
theorem LinkInv.own_handle (h : LinkInv s nodes)
    (hok : KeepsLinks s (.select hdc hbitmap)) (hp : s.getDc hdc = some p)
    (hb : s.getBitmap hbitmap = some b)
    (hsel : (s.bitmaps.object b).hdc = 0 ∨ (s.bitmaps.object b).hdc = hdc) :
    hdc = (s.dcs.object p).handle := by
  by_cases hzero : (s.bitmaps.object b).hdc = 0
  · exact hok p b hp hb hzero
  · have heq := hsel.resolve_left hzero
    obtain ⟨i, q, hq, hhandle, -⟩ := (h.link b _ hzero).mp rfl
    have hdcs := (h.memoryDc hq).get
    rw [hhandle, heq, hp] at hdcs
    obtain rfl := Option.some.inj hdcs
    exact heq.symm.trans hhandle.symm

theorem LinkInv.select (h : LinkInv s nodes) (hok : KeepsLinks s (.select hdc hbitmap))
    (hstep : gdiSelectBitmap s hdc hbitmap = some (s', made)) : LinkInv s' nodes := by
  rcases gdiSelectBitmap_cases hstep with
    rfl | ⟨p, b, bitmaps, hp, hb, -, hsel, -, hbitmaps, rfl⟩
  · exact h
  · have hlive := getDc_live hp
    have howner := h.own_handle hok hp hb hsel
    have hfields := setDc_withBitmap_fields s p (s.refToBitmap b) hbitmap (s.bitmaps.object b)
    dsimp only [GdiState.refToBitmap] at hfields
    have hused : ∀ b', bitmaps.inUse b' = s.bitmaps.inUse b' := fun b' =>
      (congrArg GdiBitmap.inUse (hbitmaps b')).trans rfl
    refine ⟨⟨?_, h.chains.dead, ?_, h.chains.apart⟩, h.nextFree, ?_, ?_, ?_, ?_, ?_⟩
    · intro i q hq
      obtain ⟨qs, hnodes, hsaved⟩ := h.chains.head i q hq
      exact ⟨qs, hnodes, hsaved.congr fun r _ => (hfields r).1⟩
    · exact fun i q hq => (hfields q).2.2.2.1.trans (h.chains.used i q hq)
    · intro i q hq
      obtain ⟨hi, hown⟩ := h.own i q hq
      exact ⟨hi, (hfields q).2.1.trans hown⟩
    · exact fun i q hq => (hfields q).2.2.1.trans (h.memory i q hq)
    · intro i q b' hq hb'
      have haddr := (hfields q).2.2.2.2.symm.trans hb'
      show bitmaps.inUse b' = true
      rw [hused]
      by_cases hqp : q = p
      · rw [if_pos hqp] at haddr
        obtain rfl := Option.some.inj haddr
        exact h.getBitmap_used hb
      · rw [if_neg hqp] at haddr
        exact h.selected i q b' hq haddr
    · intro i huse htype
      obtain ⟨b', hobject, hused'⟩ := h.bitmap i huse htype
      exact ⟨b', hobject, (hused b').trans hused'⟩
    · intro b' hdc' hne
      have hhdc : (bitmaps.object b').hdc = if b' = b then hdc
          else if (s.dcs.object p).bitmapAddr = some b' then 0
          else (s.bitmaps.object b').hdc := (congrArg GdiBitmap.hdc (hbitmaps b')).trans rfl
      have hiff : (∃ i q, LiveDc s.table i q ∧
          ((s.dcs.set p ((s.dcs.object p).withBitmap (s.refToBitmap b) hbitmap
            (s.bitmaps.object b))).object q).handle = hdc' ∧
          ((s.dcs.set p ((s.dcs.object p).withBitmap (s.refToBitmap b) hbitmap
            (s.bitmaps.object b))).object q).bitmapAddr = some b') ↔
          (b' = b ∧ hdc' = hdc) ∨ ∃ i q, LiveDc s.table i q ∧ q ≠ p ∧
            (s.dcs.object q).handle = hdc' ∧ (s.dcs.object q).bitmapAddr = some b' := by
        constructor
        · rintro ⟨i, q, hq, hhandle, haddr⟩
          have haddr' := (hfields q).2.2.2.2.symm.trans haddr
          have hhandle' := (hfields q).2.1.symm.trans hhandle
          by_cases hqp : q = p
          · rw [if_pos hqp] at haddr'
            rw [hqp, ← howner] at hhandle'
            exact .inl ⟨(Option.some.inj haddr').symm, hhandle'.symm⟩
          · rw [if_neg hqp] at haddr'
            exact .inr ⟨i, q, hq, hqp, hhandle', haddr'⟩
        · rintro (⟨rfl, rfl⟩ | ⟨i, q, hq, hqp, hhandle, haddr⟩)
          · exact ⟨_, p, hlive, (hfields p).2.1.trans howner.symm,
              (hfields p).2.2.2.2.trans (if_pos rfl)⟩
          · exact ⟨i, q, hq, (hfields q).2.1.trans hhandle,
              (hfields q).2.2.2.2.trans ((if_neg hqp).trans haddr)⟩
      show (bitmaps.object b').hdc = hdc' ↔ _
      rw [hhdc]
      refine Iff.trans ?_ hiff.symm
      by_cases hsame : b' = b
      · subst hsame
        rw [if_pos rfl]
        constructor
        · exact fun heq => .inl ⟨rfl, heq.symm⟩
        · rintro (⟨-, heq⟩ | ⟨i, q, hq, -, hdone⟩)
          · exact heq.symm
          · have hold := (h.link b' hdc' hne).mpr ⟨i, q, hq, hdone⟩
            rcases hsel with hzero | heq
            · exact absurd (hold.symm.trans hzero) hne
            · exact heq.symm.trans hold
      · rw [if_neg hsame]
        by_cases hprev : (s.dcs.object p).bitmapAddr = some b'
        · rw [if_pos hprev]
          refine ⟨fun heq => absurd heq.symm hne, ?_⟩
          rintro (⟨heq, -⟩ | ⟨i, q, hq, hqp, hhandle, haddr⟩)
          · exact absurd heq hsame
          · have hq' := (h.link b' hdc' hne).mpr ⟨i, q, hq, hhandle, haddr⟩
            have hp' := (h.link b' _ (h.handle_ne_zero hlive)).mpr ⟨_, p, hlive, rfl, hprev⟩
            have hdone := h.handle_inj hq hlive (hhandle.trans (hq'.symm.trans hp'))
            exact absurd hdone.2 hqp
        · rw [if_neg hprev, h.link b' hdc' hne]
          constructor
          · rintro ⟨i, q, hq, hhandle, haddr⟩
            refine .inr ⟨i, q, hq, ?_, hhandle, haddr⟩
            rintro rfl
            exact hprev haddr
          · rintro (⟨heq, -⟩ | ⟨i, q, hq, -, hdone⟩)
            · exact absurd heq hsame
            · exact ⟨i, q, hq, hdone⟩

/-- The context of one entry may be replaced while the entry stays. -/
theorem LinkInv.replaceNodes (h : LinkInv s nodes) (hp : LiveDc s.table i p)
    (hsaved : Saved dcs p qs)
    (hsame : ∀ j q, j ≠ i → q ∈ nodes j → dcs.object q = s.dcs.object q)
    (hnew : ∀ q ∈ p :: qs, q ∈ nodes i ∨ s.dcs.inUse q = false)
    (hnodes : ∀ q ∈ p :: qs, dcs.inUse q = true ∧ (dcs.object q).dcType = dctypeMemory ∧
      ∀ b, (dcs.object q).bitmapAddr = some b → s.bitmaps.inUse b = true)
    (hhandle : (dcs.object p).handle = (s.dcs.object p).handle)
    (hbitmap : (dcs.object p).bitmapAddr = (s.dcs.object p).bitmapAddr) :
    LinkInv { s with dcs } (Function.update nodes i (p :: qs)) := by
  have honly : ∀ q, LiveDc s.table i q → q = p := fun q hq =>
    GdiPtr.object.inj (Option.some.inj (hq.object.symm.trans hp.object))
  apply h.replace h.nextFree (fun _ _ => rfl) (fun _ => hp.type) ?_ ?_ hsame hnew hnodes ?_ ?_
  · intro q hq
    rw [honly q hq]
    exact ⟨qs, rfl, hsaved⟩
  · exact fun hnone => absurd hp (hnone p)
  · intro q hq
    obtain rfl := honly q hq
    rw [hhandle]
    exact h.own i q hq
  · intro b hdc
    refine exists_congr fun q => and_congr_right fun hq => ?_
    obtain rfl := honly q hq
    rw [hhandle, hbitmap]

/-- A copy of a context becomes its first saved state. -/
theorem LinkInv.addSaved (h : LinkInv s nodes) (hp : LiveDc s.table i p)
    (hunused : s.dcs.inUse q = false)
    (hself : dcs.object p = { s.dcs.object p with
      savedDc := some q, saveLevel := (s.dcs.object p).saveLevel + 1 })
    (hcopy : dcs.object q = s.dcs.object p)
    (hother : ∀ r, r ≠ p → r ≠ q → dcs.object r = s.dcs.object r) :
    ∃ nodes', LinkInv { s with dcs } nodes' := by
  obtain ⟨qs, hnodes, -, hsaved, hqs, hchains⟩ := h.chains.pushed hp hunused hself hcopy hother
  have hmem : p ∈ nodes i := h.mem hp
  have hmems : ∀ r ∈ qs, r ∈ nodes i := fun r hr => hnodes ▸ List.mem_cons_of_mem p hr
  have hkept : ∀ r, r ∈ nodes i → s.dcs.inUse r = true ∧ (s.dcs.object r).dcType = dctypeMemory ∧
      ∀ b, (s.dcs.object r).bitmapAddr = some b → s.bitmaps.inUse b = true := fun r hr =>
    ⟨h.chains.used i r hr, h.memory i r hr, fun b hb => h.selected i r b hr hb⟩
  refine ⟨Function.update nodes i (p :: q :: qs),
    h.replaceNodes hp hsaved hchains ?_ ?_ ?_ ?_⟩
  · intro r hr
    rcases List.mem_cons.mp hr with rfl | hr
    · exact .inl hmem
    · rcases List.mem_cons.mp hr with rfl | hr
      · exact .inr hunused
      · exact .inl (hmems r hr)
  · intro r hr
    rcases List.mem_cons.mp hr with rfl | hr
    · unfold Pool.inUse
      rw [hself]
      exact hkept r hmem
    · rcases List.mem_cons.mp hr with rfl | hr
      · unfold Pool.inUse
        rw [hcopy]
        exact hkept p hmem
      · unfold Pool.inUse
        rw [hqs r hr]
        exact hkept r (hmems r hr)
  · rw [hself]
  · rw [hself]
    rfl

theorem LinkInv.save {answer : Option Nat} {level : Int} (h : LinkInv s nodes)
    (hstep : gdiSaveDc s answer hdc = some (s', level)) : ∃ nodes', LinkInv s' nodes' := by
  rcases gdiSaveDc_cases hstep with ⟨rfl, -⟩ | ⟨p, q, s₁, hp, halloc, rfl, -⟩
  · exact ⟨nodes, h⟩
  · obtain ⟨hunused, rfl⟩ := gdiAllocDc_spec halloc
    have hlive := getDc_live hp
    have hpq : p ≠ q := by
      rintro rfl
      exact h.chains.not_mem hunused _ (h.mem hlive)
    have hcopy : ((s.setDc q { inUse := true }).setDc q
        ((s.setDc q { inUse := true }).dcs.object p)).dcs.object p = s.dcs.object p := by
      simp [GdiState.setDc, Function.update_of_ne hpq]
    rw [hcopy]
    apply h.addSaved hlive hunused
    · simp [GdiState.setDc]
    · simp [GdiState.setDc, Function.update_of_ne hpq, Function.update_of_ne (Ne.symm hpq)]
    · intro r hrp hrq
      simp [GdiState.setDc, Function.update_of_ne hrp, Function.update_of_ne hrq]

/-- One state is popped: the context gets its fields, and it is freed. -/
theorem popState_spec (hpq : p ≠ q)
    (h : gdiFreeDc (s.setDc p { s.dcs.object q with handle := (s.dcs.object p).handle }) q =
      some s') :
    ∃ dcs, s' = { s with dcs } ∧
      dcs.object p = { s.dcs.object q with handle := (s.dcs.object p).handle } ∧
      ∀ r, r ≠ p → r ≠ q → dcs.object r = s.dcs.object r := by
  obtain ⟨dcs, rfl, hdcs⟩ := gdiFreeDc_spec h
  refine ⟨dcs, rfl, ?_, ?_⟩
  · rw [hdcs, Function.update_of_ne hpq]
    exact Function.update_self _ _ _
  · intro r hrp hrq
    rw [hdcs, Function.update_of_ne hrq]
    exact Function.update_of_ne hrp _ _

/-- Popping a state leaves the chain behind it. -/
theorem Saved.pop (h : Saved dcs p (q :: qs))
    (hself : dcs'.object p = { dcs.object q with handle := (dcs.object p).handle })
    (hother : ∀ r, r ≠ p → r ≠ q → dcs'.object r = dcs.object r) : Saved dcs' p qs := by
  have hnodup := h.nodup
  have hq := h.2.2
  cases qs with
  | nil =>
    unfold Saved
    rw [hself]
    exact ⟨hq.1, hq.2⟩
  | cons r rs =>
    unfold Saved
    rw [hself]
    refine ⟨hq.1, hq.2.1, hq.2.2.congr ?_⟩
    intro r' hr'
    have hne : r' ≠ p ∧ r' ≠ q := by
      constructor
      · rintro rfl
        exact (List.nodup_cons.mp hnodup).1 (List.mem_cons_of_mem q hr')
      · rintro rfl
        exact hq.not_mem hr'
    rw [hother r' hne.1 hne.2]
    exact ⟨rfl, rfl⟩

/-- The loop pops states until fewer are left than the level it is asked for. -/
theorem restoreStates_spec {level : Int} (hsaved : Saved s.dcs p qs) (hlevel : 1 ≤ level)
    (h : restoreStates fuel s p level = some s') :
    ∃ dcs taken rest, s' = { s with dcs } ∧ qs = taken ++ rest ∧ Saved dcs p rest ∧
      (rest.length : Int) = min (qs.length : Int) (level - 1) ∧
      (∀ r, r ≠ p → r ∉ taken → dcs.object r = s.dcs.object r) ∧
      (taken = [] → dcs.object p = s.dcs.object p) ∧
      ∀ t, taken.getLast? = some t →
        dcs.object p = { s.dcs.object t with handle := (s.dcs.object p).handle } := by
  induction qs generalizing s fuel with
  | nil =>
    unfold restoreStates at h
    obtain ⟨dc, hread, h⟩ := Option.bind_eq_some_iff.mp h
    obtain rfl := Pool.read_eq hread
    rw [hsaved.1] at h
    obtain rfl := Option.some.inj h
    refine ⟨s.dcs, [], [], rfl, rfl, hsaved, ?_, fun _ _ _ => rfl, fun _ => rfl, nofun⟩
    simp only [List.length_nil]
    omega
  | cons q qs ih =>
    unfold restoreStates at h
    obtain ⟨dc, hread, h⟩ := Option.bind_eq_some_iff.mp h
    obtain rfl := Pool.read_eq hread
    rw [hsaved.1] at h
    dsimp only at h
    split at h
    · next hstop =>
      obtain rfl := Option.some.inj h
      refine ⟨s.dcs, [], q :: qs, rfl, rfl, hsaved, ?_, fun _ _ _ => rfl, fun _ => rfl, nofun⟩
      rw [hsaved.2.1] at hstop
      push_cast [List.length_cons]
      omega
    · next hgo =>
      cases fuel with
      | zero => cases h
      | succ fuel =>
        obtain ⟨saved, hread, h⟩ := Option.bind_eq_some_iff.mp h
        obtain rfl := Pool.read_eq hread
        obtain ⟨s₁, hfree, h⟩ := Option.bind_eq_some_iff.mp h
        have hnodup := hsaved.nodup
        have hpq : p ≠ q := by
          rintro rfl
          exact (List.nodup_cons.mp hnodup).1 List.mem_cons_self
        obtain ⟨dcs, rfl, hself, hother⟩ := popState_spec hpq hfree
        obtain ⟨dcs', taken, rest, rfl, rfl, hrest, hlength, hkept, hnone, hlast⟩ :=
          ih (hsaved.pop hself hother) h
        refine ⟨dcs', q :: taken, rest, rfl, rfl, hrest, ?_, ?_, nofun, ?_⟩
        · rw [hsaved.2.1] at hgo
          push_cast [List.length_cons] at hlength hgo ⊢
          omega
        · intro r hrp hr
          rw [List.mem_cons, not_or] at hr
          exact (hkept r hrp hr.2).trans (hother r hrp hr.1)
        · intro t ht
          cases taken with
          | nil =>
            obtain rfl : q = t := by simpa using ht
            exact (hnone rfl).trans hself
          | cons r rs =>
            have ht' : (r :: rs).getLast? = some t := by simpa using ht
            have hmem : t ∈ r :: rs ++ rest :=
              List.mem_append_left rest (List.mem_of_getLast? ht')
            have htp : t ≠ p := by
              rintro rfl
              exact (List.nodup_cons.mp hnodup).1 (List.mem_cons_of_mem q hmem)
            have htq : t ≠ q := by
              rintro rfl
              exact hsaved.2.2.not_mem hmem
            have hdone := hlast t ht'
            dsimp only at hdone
            rw [hother t htp htq, hself] at hdone
            exact hdone

/-- With all states in use the loop returns. -/
theorem restoreStates_returns (level : Int) (hsaved : Saved s.dcs p qs)
    (hused : ∀ q ∈ p :: qs, s.dcs.inUse q = true) (hfuel : qs.length ≤ fuel) :
    ∃ s', restoreStates fuel s p level = some s' := by
  induction qs generalizing s fuel with
  | nil =>
    unfold restoreStates
    simp only [Pool.read_inUse (hused p List.mem_cons_self), Option.bind_eq_bind,
      Option.bind_some, hsaved.1]
    exact ⟨s, rfl⟩
  | cons q qs ih =>
    unfold restoreStates
    simp only [Pool.read_inUse (hused p List.mem_cons_self), Option.bind_eq_bind,
      Option.bind_some, hsaved.1]
    split
    · exact ⟨s, rfl⟩
    · cases fuel with
      | zero => simp at hfuel
      | succ fuel =>
        have hq : s.dcs.inUse q = true := hused q (by simp)
        have hpq : p ≠ q := by
          rintro rfl
          exact hsaved.not_mem List.mem_cons_self
        have hset : (s.setDc p { s.dcs.object q with
            handle := (s.dcs.object p).handle }).dcs.inUse q = true := by
          unfold Pool.inUse GdiState.setDc
          rw [Pool.set_object, Function.update_of_ne (Ne.symm hpq)]
          exact hq
        obtain ⟨s₁, hfree⟩ : ∃ s₁, gdiFreeDc (s.setDc p { s.dcs.object q with
            handle := (s.dcs.object p).handle }) q = some s₁ := by
          obtain ⟨dcs, hdcs⟩ := Pool.free_isSome hset
          unfold gdiFreeDc
          rw [hdcs]
          exact ⟨_, rfl⟩
        obtain ⟨dcs, rfl, hself, hother⟩ := popState_spec hpq hfree
        simp only [Pool.read_inUse hq, Option.bind_some, hfree]
        apply ih (hsaved.pop hself hother)
        · intro r hmem
          unfold Pool.inUse
          dsimp only
          rcases List.mem_cons.mp hmem with rfl | hr
          · rw [hself]
            exact hq
          · have hrp : r ≠ p := by
              rintro rfl
              exact hsaved.not_mem (List.mem_cons_of_mem q hr)
            have hrq : r ≠ q := by
              rintro rfl
              exact hsaved.2.2.not_mem hr
            rw [hother r hrp hrq]
            exact hused r (by simp [hr])
        · rw [List.length_cons] at hfuel
          omega

/-- The context becomes the state that the level asks for. -/
theorem restoreStates_target {level : Int} (hsaved : Saved s.dcs p qs) (hpos : 0 < level)
    (hle : level ≤ (s.dcs.object p).saveLevel) (h : restoreStates fuel s p level = some s') :
    ∃ dcs taken rest t, s' = { s with dcs } ∧ qs = taken ++ rest ∧ Saved dcs p rest ∧
      (rest.length : Int) = level - 1 ∧ t ∈ taken ∧
      savedState s.dcs ((s.dcs.object p).saveLevel - level + 1).toNat p = some t ∧
      (∀ r, r ≠ p → r ∉ taken → dcs.object r = s.dcs.object r) ∧
      dcs.object p = { s.dcs.object t with handle := (s.dcs.object p).handle } := by
  obtain ⟨dcs, taken, rest, rfl, rfl, hrest, hlength, hother, -, hlast⟩ :=
    restoreStates_spec hsaved hpos h
  rw [hsaved.level, List.length_append] at hle
  rw [List.length_append] at hlength
  have htaken : taken ≠ [] := by
    rintro rfl
    simp only [List.length_nil, Nat.zero_add] at hle hlength
    omega
  obtain ⟨t, ht⟩ : ∃ t, taken.getLast? = some t :=
    ⟨_, List.getLast?_eq_some_getLast htaken⟩
  have hrestlen : (rest.length : Int) = level - 1 := by
    push_cast at hle hlength
    omega
  refine ⟨dcs, taken, rest, t, rfl, rfl, hrest, hrestlen, List.mem_of_getLast? ht, ?_, hother,
    hlast t ht⟩
  have hlt := List.length_pos_iff.mpr htaken
  have hcount : ((s.dcs.object p).saveLevel - level + 1).toNat = taken.length - 1 + 1 := by
    rw [hsaved.level, List.length_append]
    push_cast at hle hlength ⊢
    omega
  rw [hcount, hsaved.savedState, List.getElem?_append_left (by omega),
    ← List.getLast?_eq_getElem?]
  exact ht

theorem gdiRestoreDc_cases {level : Int32} {ok : Bool}
    (h : gdiRestoreDc fuel s hdc level = some (s', ok)) :
    (s' = s ∧ ∀ p, s.getDc hdc = some p → 0 < (s.dcs.object p).restoreLevel level →
        (s.dcs.object p).saveLevel < (s.dcs.object p).restoreLevel level) ∨
      ∃ p, s.getDc hdc = some p ∧ 0 < (s.dcs.object p).restoreLevel level ∧
        (s.dcs.object p).restoreLevel level ≤ (s.dcs.object p).saveLevel ∧
        restoreStates fuel s p ((s.dcs.object p).restoreLevel level) = some s' := by
  unfold gdiRestoreDc at h
  split at h
  · next hp =>
    refine .inl ⟨(Prod.mk.inj (Option.some.inj h)).1.symm, ?_⟩
    intro p hp'
    rw [hp] at hp'
    cases hp'
  · next p hp =>
    obtain ⟨dc, hread, h⟩ := Option.bind_eq_some_iff.mp h
    obtain rfl := Pool.read_eq hread
    dsimp only at h
    split at h
    · next hlevel =>
      refine .inl ⟨(Prod.mk.inj (Option.some.inj h)).1.symm, ?_⟩
      intro p' hp' hpos
      obtain rfl := Option.some.inj (hp.symm.trans hp')
      omega
    · next hlevel =>
      obtain ⟨s₁, hloop, h⟩ := Option.bind_eq_some_iff.mp h
      obtain ⟨rfl, -⟩ := Prod.mk.inj (Option.some.inj h)
      rw [not_or] at hlevel
      exact .inr ⟨p, hp, by omega, by omega, hloop⟩

theorem LinkInv.restore {level : Int32} {ok : Bool} (h : LinkInv s nodes)
    (hok : KeepsLinks s (.restore hdc level))
    (hstep : gdiRestoreDc fuel s hdc level = some (s', ok)) : ∃ nodes', LinkInv s' nodes' := by
  rcases gdiRestoreDc_cases hstep with ⟨rfl, -⟩ | ⟨p, hp, hpos, hle, hloop⟩
  · exact ⟨nodes, h⟩
  · have hlive := getDc_live hp
    obtain ⟨qs, hnodes, hsaved⟩ := h.chains.head _ p hlive
    obtain ⟨dcs, taken, rest, t, rfl, rfl, hrest, -, ht, htarget, hother, hself⟩ :=
      restoreStates_target hsaved hpos hle hloop
    have hbitmap : (s.dcs.object t).bitmapAddr = (s.dcs.object p).bitmapAddr :=
      hok p hp hpos hle t htarget
    have hmem : ∀ r, r ∈ p :: (taken ++ rest) → r ∈ nodes (gdiHandleIndex hdc) :=
      fun r hr => hnodes ▸ hr
    obtain ⟨hrests, hchains⟩ := h.chains.popped hnodes hsaved.nodup hother
    have htmem : t ∈ nodes (gdiHandleIndex hdc) :=
      hmem t (List.mem_cons_of_mem p (List.mem_append_left rest ht))
    have hkept : ∀ r, r ∈ nodes (gdiHandleIndex hdc) → s.dcs.inUse r = true ∧
        (s.dcs.object r).dcType = dctypeMemory ∧
        ∀ b, (s.dcs.object r).bitmapAddr = some b → s.bitmaps.inUse b = true := fun r hr =>
      ⟨h.chains.used _ r hr, h.memory _ r hr, fun b hb => h.selected _ r b hr hb⟩
    refine ⟨_, h.replaceNodes hlive hrest hchains ?_ ?_ ?_ ?_⟩
    · intro r hr
      rcases List.mem_cons.mp hr with rfl | hr
      · exact .inl (h.mem hlive)
      · exact .inl (hmem r (List.mem_cons_of_mem p (List.mem_append_right taken hr)))
    · intro r hr
      unfold Pool.inUse
      rcases List.mem_cons.mp hr with rfl | hr
      · rw [hself]
        exact hkept t htmem
      · rw [hrests r hr]
        exact hkept r (hmem r (List.mem_cons_of_mem p (List.mem_append_right taken hr)))
    · rw [hself]
    · rw [hself]
      exact hbitmap

/-- Freeing the saved states of a context leaves all other contexts. -/
theorem freeSaved_chain (hsaved : Saved s.dcs p qs)
    (h : freeSaved fuel s (s.dcs.object p).savedDc = some s') :
    ∃ dcs, s' = { s with dcs } ∧ ∀ r ∉ qs, dcs.object r = s.dcs.object r := by
  induction qs generalizing s p fuel with
  | nil =>
    rw [hsaved.1] at h
    unfold freeSaved at h
    obtain rfl := Option.some.inj h
    exact ⟨s.dcs, rfl, fun _ _ => rfl⟩
  | cons q qs ih =>
    rw [hsaved.1] at h
    cases fuel with
    | zero => cases h
    | succ fuel =>
      obtain ⟨dc, hread, h⟩ := Option.bind_eq_some_iff.mp h
      obtain rfl := Pool.read_eq hread
      obtain ⟨s₁, hfree, h⟩ := Option.bind_eq_some_iff.mp h
      obtain ⟨dcs, rfl, hdcs⟩ := gdiFreeDc_spec hfree
      have hq : dcs.object q = (s.dcs.object q).unused :=
        (congrFun hdcs q).trans (Function.update_self _ _ _)
      have hother : ∀ r, r ≠ q → dcs.object r = s.dcs.object r := fun r hr =>
        (congrFun hdcs r).trans (Function.update_of_ne hr _ _)
      have hsaved' : Saved dcs q qs := by
        apply hsaved.2.2.congr
        intro r hr
        by_cases hrq : r = q
        · rw [hrq, hq]
          exact ⟨rfl, rfl⟩
        · rw [hother r hrq]
          exact ⟨rfl, rfl⟩
      have hhead : (s.dcs.object q).savedDc = (dcs.object q).savedDc := by
        rw [hq]
        rfl
      rw [hhead] at h
      obtain ⟨dcs', rfl, hdcs'⟩ := ih (s := { s with dcs }) hsaved' h
      refine ⟨dcs', rfl, ?_⟩
      intro r hr
      rw [List.mem_cons, not_or] at hr
      exact (hdcs' r hr.2).trans (hother r hr.1)

/-- With all states in use they can be freed. -/
theorem freeSaved_returns (hsaved : Saved s.dcs p qs)
    (hused : ∀ q ∈ qs, s.dcs.inUse q = true) (hfuel : qs.length ≤ fuel) :
    ∃ s', freeSaved fuel s (s.dcs.object p).savedDc = some s' := by
  induction qs generalizing s p fuel with
  | nil =>
    rw [hsaved.1]
    exact ⟨s, by unfold freeSaved; rfl⟩
  | cons q qs ih =>
    cases fuel with
    | zero => simp at hfuel
    | succ fuel =>
      have hq := hused q List.mem_cons_self
      obtain ⟨dcs, hdcs⟩ := Pool.free_isSome hq
      have hfree : gdiFreeDc s q = some { s with dcs } := by
        unfold gdiFreeDc
        rw [hdcs]
        rfl
      have hobject := (Pool.free_spec hdcs).1
      have hother : ∀ r ∈ qs, dcs.object r = s.dcs.object r := by
        intro r hr
        rw [hobject, Function.update_of_ne]
        rintro rfl
        exact hsaved.2.2.not_mem hr
      have hself : dcs.object q = (s.dcs.object q).unused := by
        rw [hobject, Function.update_self]
        rfl
      have hsaved' : Saved dcs q qs := by
        apply hsaved.2.2.congr
        intro r hr
        rcases List.mem_cons.mp hr with rfl | hr
        · rw [hself]
          exact ⟨rfl, rfl⟩
        · rw [hother r hr]
          exact ⟨rfl, rfl⟩
      rw [hsaved.1]
      unfold freeSaved
      simp only [Pool.read_inUse hq, Option.bind_eq_bind, Option.bind_some, hfree]
      have hhead : (s.dcs.object q).savedDc = (dcs.object q).savedDc := by
        rw [hself]
        rfl
      rw [hhead]
      apply ih (s := { s with dcs }) hsaved'
      · intro r hr
        unfold Pool.inUse
        dsimp only
        rw [hother r hr]
        exact hused r (List.mem_cons_of_mem q hr)
      · rw [List.length_cons] at hfuel
        omega

/-- A context without a bitmap is deleted with its handle. -/
theorem LinkInv.delete {ok : Bool} (h : LinkInv s nodes) (hok : KeepsLinks s (.delete hdc))
    (hstep : gdiDeleteDc fuel s hdc = some (s', ok)) : ∃ nodes', LinkInv s' nodes' := by
  unfold gdiDeleteDc at hstep
  split at hstep
  · obtain ⟨rfl, -⟩ := Prod.mk.inj (Option.some.inj hstep)
    exact ⟨nodes, h⟩
  · next p hp =>
    obtain ⟨dc, hread, hstep⟩ := Option.bind_eq_some_iff.mp hstep
    obtain rfl := Pool.read_eq hread
    obtain ⟨s₁, hsaved, hstep⟩ := Option.bind_eq_some_iff.mp hstep
    obtain ⟨s₂, hfree, hstep⟩ := Option.bind_eq_some_iff.mp hstep
    obtain ⟨rfl, -⟩ := Prod.mk.inj (Option.some.inj hstep)
    have hlive := getDc_live hp
    obtain ⟨qs, hnodes, hchain⟩ := h.chains.head _ p hlive
    obtain ⟨dcs, rfl, hdcs⟩ := freeSaved_chain hchain hsaved
    obtain ⟨dcs', rfl, hdcs'⟩ := gdiFreeDc_spec hfree
    obtain ⟨htype, hbitmap⟩ := hok p hp
    have hdel := Deletes.of_getDc hp htype
    have hentry : ((gdiFreeHandle s.table hdc).1.entries (gdiHandleIndex hdc)).inUse = false := by
      rw [hdel.freeHandle.1, Function.update_self]
    have hdead : ∀ q, ¬ LiveDc (gdiFreeHandle s.table hdc).1 (gdiHandleIndex hdc) q := by
      intro q hq
      rw [hq.inUse] at hentry
      cases hentry
    refine ⟨_, h.replace (Nat.le_trans (gdiFreeHandle_nextFree s.table hdc) h.nextFree)
      ?_ ?_ (fun q hq => absurd hq (hdead q)) (fun _ => rfl) ?_ (fun _ hq => absurd hq List.not_mem_nil)
      (fun _ hq => absurd hq List.not_mem_nil) (fun q hq => absurd hq (hdead q)) ?_⟩
    · intro j hj
      rw [hdel.freeHandle.1, Function.update_of_ne hj]
    · intro huse
      rw [hentry] at huse
      cases huse
    · intro j q hj hq
      have hnot : q ∉ p :: qs := fun hq' => hj (h.chains.apart _ _ q hq (hnodes ▸ hq'))
      rw [List.mem_cons, not_or] at hnot
      rw [hdcs']
      exact (Function.update_of_ne hnot.1 _ _).trans (hdcs q hnot.2)
    · intro b hdc'
      constructor
      · rintro ⟨q, hq, -⟩
        exact absurd hq (hdead q)
      · rintro ⟨q, hq, -, hb⟩
        have hqp : q = p := GdiPtr.object.inj (Option.some.inj (hq.object.symm.trans hlive.object))
        rw [hqp, hbitmap] at hb
        cases hb

/-- A guarded call keeps the invariant. -/
theorem LinkInv.step (h : LinkInv s nodes) (hok : KeepsLinks s op)
    (hstep : bitmapStep fuel s op = some s') : ∃ nodes', LinkInv s' nodes' := by
  cases op with
  | createBitmap heap answer width height planes bpp =>
    obtain ⟨⟨s₁, made⟩, hcall, rfl⟩ := Option.map_eq_some_iff.mp hstep
    exact ⟨nodes, h.createBitmap hcall⟩
  | createDc answer hdcRef =>
    obtain ⟨⟨s₁, made⟩, hcall, rfl⟩ := Option.map_eq_some_iff.mp hstep
    rcases gdiCreateCompatibleDc_cases hcall with rfl | ⟨s₂, p, dc, halloc, hnew, hmemory, hmade⟩
    · exact ⟨nodes, h⟩
    · exact h.newDc hnew hmemory halloc hmade
  | select hdc hbitmap =>
    obtain ⟨⟨s₁, made⟩, hcall, rfl⟩ := Option.map_eq_some_iff.mp hstep
    exact ⟨nodes, h.select hok hcall⟩
  | save answer hdc =>
    obtain ⟨⟨s₁, level⟩, hcall, rfl⟩ := Option.map_eq_some_iff.mp hstep
    exact h.save hcall
  | restore hdc level =>
    obtain ⟨⟨s₁, ok⟩, hcall, rfl⟩ := Option.map_eq_some_iff.mp hstep
    exact h.restore hok hcall
  | delete hdc =>
    obtain ⟨⟨s₁, ok⟩, hcall, rfl⟩ := Option.map_eq_some_iff.mp hstep
    exact h.delete hok hcall

/-- Deletion and going back end from every state with the invariant. -/
theorem LinkInv.returns (h : LinkInv s nodes) (hdc : UInt32) : ∃ n, ∀ fuel, n ≤ fuel →
    (∃ r, gdiDeleteDc fuel s hdc = some r) ∧ ∀ level, ∃ r, gdiRestoreDc fuel s hdc level = some r := by
  unfold gdiDeleteDc gdiRestoreDc
  cases hp : s.getDc hdc with
  | none => exact ⟨0, fun fuel _ => ⟨⟨_, rfl⟩, fun level => ⟨_, rfl⟩⟩⟩
  | some p =>
    have hlive := getDc_live hp
    obtain ⟨qs, hnodes, hsaved⟩ := h.chains.head _ p hlive
    have hused : ∀ q ∈ p :: qs, s.dcs.inUse q = true := fun q hq =>
      h.chains.used _ q (hnodes ▸ hq)
    have hread := Pool.read_inUse (hused p List.mem_cons_self)
    refine ⟨qs.length, fun fuel hfuel => ⟨?_, ?_⟩⟩
    · obtain ⟨s₁, hs₁⟩ := freeSaved_returns hsaved
        (fun q hq => hused q (List.mem_cons_of_mem p hq)) hfuel
      obtain ⟨dcs, rfl, hdcs⟩ := freeSaved_chain hsaved hs₁
      have hpused : dcs.inUse p = true :=
        (congrArg DcSelection.inUse (hdcs p hsaved.not_mem)).trans (hused p List.mem_cons_self)
      obtain ⟨dcs', hdcs'⟩ := Pool.free_isSome hpused
      simp only [hread, Option.bind_eq_bind, Option.bind_some, hs₁, gdiFreeDc, hdcs',
        Option.map_some]
      exact ⟨_, rfl⟩
    · intro level
      simp only [hread, Option.bind_eq_bind, Option.bind_some]
      split
      · exact ⟨_, rfl⟩
      · obtain ⟨s₁, hs₁⟩ := restoreStates_returns ((s.dcs.object p).restoreLevel level) hsaved
          hused hfuel
        rw [hs₁]
        exact ⟨_, rfl⟩

/-- Nothing is live at the start. -/
theorem linkInv_init : LinkInv gdiInit fun _ => [] := by
  have htype : (gdiInit.table.entries 0).type = 0 := rfl
  have hnone : ∀ i p, ¬ LiveDc gdiInit.table i p := by
    intro i p hlive
    have hdc := hlive.type
    rw [gdiInit_entries i hlive.inUse, htype] at hdc
    cases hdc
  have hempty : ∀ q, q ∉ ([] : List Nat) := fun q => List.not_mem_nil
  refine ⟨⟨fun i p hp => absurd hp (hnone i p), fun _ _ => rfl, fun _ q hq => absurd hq (hempty q),
    fun _ _ q hq => absurd hq (hempty q)⟩, by decide, fun i p hp => absurd hp (hnone i p),
    fun _ q hq => absurd hq (hempty q), fun _ q _ hq => absurd hq (hempty q), ?_, ?_⟩
  · intro i huse hbitmap
    rw [gdiInit_entries i huse, htype] at hbitmap
    cases hbitmap
  · intro b hdc hne
    constructor
    · exact fun heq => absurd heq.symm hne
    · rintro ⟨i, p, hp, -⟩
      exact absurd hp (hnone i p)

/-- Contexts are deleted by handles that have the type of a context. -/
def DeletesByType (s : GdiState) : BitmapOp → Prop
  | .delete hdc => ∀ p, s.getDc hdc = some p → gdiHandleType hdc = gdiObjDc
  | _ => True

theorem getDc_ne_zero (h : s.getDc hdc = some p) : hdc ≠ 0 := by
  rintro rfl
  cases h

/-- A bitmap that is selected under another handle than its context's. -/
theorem LinkInv.select_not (h : LinkInv s nodes) (hbad : ¬ KeepsLinks s (.select hdc hbitmap))
    (hstep : gdiSelectBitmap s hdc hbitmap = some (s', made)) : ¬ Linked s' := by
  simp only [KeepsLinks, not_forall] at hbad
  obtain ⟨p, b, hp, hb, hzero, hne⟩ := hbad
  intro hlinked
  rcases gdiSelectBitmap_cases hstep with
    rfl | ⟨p', b', bitmaps, hp', hb', -, -, -, hbitmaps, rfl⟩
  · obtain ⟨s₁, prev, hcall, haddr⟩ := h.selectable hb hzero hp
    cases hstep.symm.trans hcall
    have hlive := getDc_live hp
    have hhdc := (h.link b _ (h.handle_ne_zero hlive)).mpr ⟨_, p, hlive, rfl, haddr⟩
    exact h.handle_ne_zero hlive (hhdc.symm.trans hzero)
  · obtain rfl := Option.some.inj (hp.symm.trans hp')
    obtain rfl := Option.some.inj (hb.symm.trans hb')
    have hfields := setDc_withBitmap_fields s p (s.refToBitmap b) hbitmap (s.bitmaps.object b) p
    have hhdc : (bitmaps.object b).hdc = hdc :=
      (congrArg GdiBitmap.hdc (hbitmaps b)).trans (if_pos rfl)
    obtain ⟨q, hq, -⟩ := (hlinked.link b hdc (getDc_ne_zero hp)).mp hhdc
    obtain rfl : p = q := Option.some.inj (hp.symm.trans hq.get)
    exact hne (hq.handle.symm.trans hfields.2.1)

/-- A context that is restored to a state with another bitmap. -/
theorem LinkInv.restore_not {level : Int32} {ok : Bool} (h : LinkInv s nodes)
    (hbad : ¬ KeepsLinks s (.restore hdc level))
    (hstep : gdiRestoreDc fuel s hdc level = some (s', ok)) : ¬ Linked s' := by
  simp only [KeepsLinks, RestoresBitmap, not_forall] at hbad
  obtain ⟨p, hp, hpos, hle, q, hq, hne⟩ := hbad
  intro hlinked
  rcases gdiRestoreDc_cases hstep with ⟨rfl, hnone⟩ | ⟨p', hp', -, -, hloop⟩
  · have hlt := hnone p hp hpos
    omega
  · obtain rfl := Option.some.inj (hp.symm.trans hp')
    have hlive := getDc_live hp
    obtain ⟨qs, hnodes, hsaved⟩ := h.chains.head _ p hlive
    obtain ⟨dcs, taken, rest, t, rfl, rfl, -, -, ht, htarget, -, hself⟩ :=
      restoreStates_target hsaved hpos hle hloop
    obtain rfl := Option.some.inj (hq.symm.trans htarget)
    have hown := h.memoryDc hlive
    have hzero := h.handle_ne_zero hlive
    have haddr : (dcs.object p).bitmapAddr = (s.dcs.object q).bitmapAddr := by
      rw [hself]
      rfl
    have hmem : q ∈ nodes (gdiHandleIndex hdc) :=
      hnodes ▸ List.mem_cons_of_mem p (List.mem_append_left rest ht)
    have hnew : MemoryDc { s with dcs } (s.dcs.object p).handle p := by
      refine ⟨hown.get, ?_, ?_⟩
      · dsimp only
        rw [hself]
      · dsimp only
        rw [hself]
        exact h.memory _ q hmem
    cases hold : (s.dcs.object p).bitmapAddr with
    | some b =>
      have hhdc := (h.link b _ hzero).mpr ⟨_, p, hlive, rfl, hold⟩
      obtain ⟨r, hr, hb⟩ := (hlinked.link b _ hzero).mp hhdc
      obtain rfl : p = r := Option.some.inj (hnew.get.symm.trans hr.get)
      exact hne (haddr.symm.trans (hb.trans hold.symm))
    | none =>
      cases hnow : (s.dcs.object q).bitmapAddr with
      | none => exact hne (hnow.trans hold.symm)
      | some b =>
        have hhdc := (hlinked.link b _ hzero).mpr ⟨p, hnew, haddr.trans hnow⟩
        obtain ⟨j, r, hr, hhandle, hb⟩ := (h.link b _ hzero).mp hhdc
        obtain ⟨-, rfl⟩ := h.handle_inj hr hlive hhandle
        cases hb.symm.trans hold

/-- A context that is deleted with a bitmap. -/
theorem LinkInv.delete_not {ok : Bool} (h : LinkInv s nodes)
    (htype : DeletesByType s (.delete hdc)) (hbad : ¬ KeepsLinks s (.delete hdc))
    (hstep : gdiDeleteDc fuel s hdc = some (s', ok)) : ¬ Linked s' := by
  simp only [KeepsLinks, not_forall] at hbad
  obtain ⟨p, hp, hbad⟩ := hbad
  intro hlinked
  rcases gdiDeleteDc_cases hstep with ⟨hnone, -⟩ | ⟨p', dcs, hp', rfl, -⟩
  · cases hp.symm.trans hnone
  · obtain rfl := Option.some.inj (hp.symm.trans hp')
    have hlive := getDc_live hp
    have hzero := h.handle_ne_zero hlive
    obtain ⟨hi, hown⟩ := h.own _ p hlive
    have hdel := Deletes.of_getDc hp (htype p hp)
    have hselected : (s.dcs.object p).bitmapAddr ≠ none := fun hnone => hbad ⟨htype p hp, hnone⟩
    obtain ⟨b, hb⟩ := Option.ne_none_iff_exists'.mp hselected
    have hhdc := (h.link b _ hzero).mpr ⟨_, p, hlive, rfl, hb⟩
    obtain ⟨q, hq, -⟩ := (hlinked.link b _ hzero).mp hhdc
    have hdead := (getDc_live hq.get).inUse
    dsimp only at hdead
    rw [hown, gdiHandleIndex_make hi, hdel.freeHandle.1, Function.update_self] at hdead
    cases hdead

/-- A call that is not guarded, other than a deletion by a handle of another type, spoils the
links. -/
theorem LinkInv.step_not (h : LinkInv s nodes) (htype : DeletesByType s op)
    (hbad : ¬ KeepsLinks s op) (hstep : bitmapStep fuel s op = some s') : ¬ Linked s' := by
  cases op with
  | select hdc hbitmap =>
    obtain ⟨⟨s₁, made⟩, hcall, rfl⟩ := Option.map_eq_some_iff.mp hstep
    exact h.select_not hbad hcall
  | restore hdc level =>
    obtain ⟨⟨s₁, ok⟩, hcall, rfl⟩ := Option.map_eq_some_iff.mp hstep
    exact h.restore_not hbad hcall
  | delete hdc =>
    obtain ⟨⟨s₁, ok⟩, hcall, rfl⟩ := Option.map_eq_some_iff.mp hstep
    exact h.delete_not htype hbad hcall
  | _ => exact absurd trivial hbad

/-- In a guarded run bitmaps and contexts agree in every state, and the loops over saved states end.
With contexts deleted by handles of their type, they agree in no other run. -/
theorem bitmapRun_linked {ops : List BitmapOp} {tr : List GdiState}
    (h : trace (bitmapStep fuel) gdiInit ops = some tr) :
    (Guarded (bitmapStep fuel) KeepsLinks gdiInit ops → ∀ s ∈ tr, Linked s ∧
      ∀ hdc, ∃ n, ∀ fuel, n ≤ fuel → (∃ r, gdiDeleteDc fuel s hdc = some r) ∧
        ∀ level, ∃ r, gdiRestoreDc fuel s hdc level = some r) ∧
    (Guarded (bitmapStep fuel) DeletesByType gdiInit ops → (∀ s ∈ tr, Linked s) →
      Guarded (bitmapStep fuel) KeepsLinks gdiInit ops) := by
  have hstep : ∀ a op b, (∃ nodes, LinkInv a nodes) → KeepsLinks a op →
      bitmapStep fuel a op = some b → ∃ nodes, LinkInv b nodes :=
    fun a op b ⟨_, hinv⟩ hok hstep => hinv.step hok hstep
  constructor
  · intro hg s hs
    obtain ⟨nodes, hinv⟩ := trace_invariant hstep ⟨_, linkInv_init⟩ h hg s hs
    exact ⟨hinv.linked, hinv.returns⟩
  · exact guarded_of_forall hstep (fun a op b ⟨_, hinv⟩ => hinv.step_not) ⟨_, linkInv_init⟩ h

/-- A context and a bitmap of four by four pixels that is selected into it. -/
def selectedOps : List BitmapOp :=
  [.createDc none 0, .createBitmap roomyHeap none 4 4 1 32, .select 0x01010001 0x01050002]

/-- The context is saved and restored. -/
theorem bitmapRun_linked_restore : ∃ tr,
    trace (bitmapStep 4) gdiInit (selectedOps ++ [.save none 0x01010001, .restore 0x01010001 1]) =
      some tr ∧ ∀ s ∈ tr, Linked s := by
  have hrun : (trace (bitmapStep 4) gdiInit
      (selectedOps ++ [.save none 0x01010001, .restore 0x01010001 1])).map (fun tr =>
        (tr[2]?.map fun s => decide (s.getDc 0x01010001 = some 0 ∧
            (s.dcs.object 0).handle = 0x01010001),
          tr[4]?.map fun s => decide (s.getDc 0x01010001 = some 0 ∧
            (s.dcs.object 0).restoreLevel 1 = 1 ∧ (s.dcs.object 0).saveLevel = 1 ∧
            savedState s.dcs 1 0 = some 1 ∧
            (s.dcs.object 1).bitmapAddr = (s.dcs.object 0).bitmapAddr))) =
      some (some true, some true) := by decide +kernel
  obtain ⟨tr, htr, hstates⟩ := Option.map_eq_some_iff.mp hrun
  refine ⟨tr, htr, ?_⟩
  obtain ⟨hsel, hres⟩ := Prod.mk.inj hstates
  have hguard : Guarded (bitmapStep 4) KeepsLinks gdiInit
      (selectedOps ++ [.save none 0x01010001, .restore 0x01010001 1]) := by
    apply (guarded_iff_at htr).mpr
    intro k a op ha hop
    match k with
    | 0 | 1 | 3 =>
      cases hop
      trivial
    | 2 =>
      cases hop
      rw [ha] at hsel
      obtain ⟨hget, hhandle⟩ := of_decide_eq_true (Option.some.inj hsel)
      intro p b hp _ _
      obtain rfl := Option.some.inj (hget.symm.trans hp)
      exact hhandle.symm
    | 4 =>
      cases hop
      rw [ha] at hres
      obtain ⟨hget, hlevel, hsave, hstate, hsame⟩ := of_decide_eq_true (Option.some.inj hres)
      intro p hp
      obtain rfl := Option.some.inj (hget.symm.trans hp)
      intro _ _ q hq
      rw [hlevel, hsave] at hq
      obtain rfl := Option.some.inj (hstate.symm.trans hq)
      exact hsame
    | k + 5 => cases hop
  exact fun s hs => ((bitmapRun_linked htr).1 hguard s hs).1

/-- The context is deleted: the bitmap still has its handle, and no other context gets it. -/
theorem deletedDc_keeps_bitmap : ∃ tr,
    trace (bitmapStep 4) gdiInit
      (selectedOps ++ [.delete 0x01010001, .createDc none 0]) = some tr ∧
    ∃ s ∈ tr, ¬ Linked s ∧ (s.bitmaps.object 0).hdc = 0x01010001 ∧
      s.getDc 0x01010001 = none ∧ (s.dcs.object 0).handle = 0x02010001 ∧
      s.getDc 0x02010001 = some 0 ∧ s.getBitmap 0x01050002 = some 0 ∧
      (gdiSelectBitmap s 0x02010001 0x01050002).map
        (fun r => ((r.1.dcs.object 0).bitmapAddr, r.2)) = some (none, 0) := by
  have hrun : (trace (bitmapStep 4) gdiInit
      (selectedOps ++ [.delete 0x01010001, .createDc none 0])).map (fun tr =>
        tr[5]?.map fun s => decide ((s.bitmaps.object 0).hdc = 0x01010001 ∧
          s.getDc 0x01010001 = none ∧ (s.dcs.object 0).handle = 0x02010001 ∧
          s.getDc 0x02010001 = some 0 ∧ s.getBitmap 0x01050002 = some 0 ∧
          (gdiSelectBitmap s 0x02010001 0x01050002).map
            (fun r => ((r.1.dcs.object 0).bitmapAddr, r.2)) = some (none, 0))) =
      some (some true) := by decide +kernel
  obtain ⟨tr, htr, hlast⟩ := Option.map_eq_some_iff.mp hrun
  obtain ⟨s, hs, hfields⟩ := Option.map_eq_some_iff.mp hlast
  obtain ⟨hhdc, hold, hhandle, hnew, hbitmap, hselect⟩ := of_decide_eq_true hfields
  refine ⟨tr, htr, s, List.mem_of_getElem? hs, ?_, hhdc, hold, hhandle, hnew, hbitmap, hselect⟩
  intro hlinked
  obtain ⟨p, hp, -⟩ := (hlinked.link 0 0x01010001 (by decide)).mp hhdc
  cases hold.symm.trans hp.get

end Wbox.Gdi
