import Mathlib.Data.List.TakeWhile
import Wbox.Loader.Forwarders
import Wbox.Loader.Placement

/-!
# Which module a name finds

`module_find_by_name` and `module_load_by_name` over runs of import resolutions. A module bears
the base name of the file it was loaded from, which need not be the base name it was asked for by.
-/

namespace Wbox.Loader

open Wbox.Host Wbox.Lib Wbox.Nt Wbox.Pe Wbox.Vm

/-- The list from the module found on. The list grows at its head only, so that this stands for
the pointer `module_find_by_name` returns; the empty list is NULL. -/
def moduleNode (modules : List LoadedModule) (name : List UInt8) : List LoadedModule :=
  modules.dropWhile fun mod => !sameIcase (baseName name) (baseName mod.name)

/-- What `module_load_by_name` returns, between the machine before and the machine after. -/
def loadAnswer (r r' : ImageVm) (name : List UInt8) : List LoadedModule :=
  if moduleNode r.modules name ≠ [] then moduleNode r.modules name
  else if r.modules.length < r'.modules.length then r'.modules
  else []

/-- What follows the last separator, of either kind. -/
def lastComponent (name : List UInt8) : List UInt8 :=
  (name.reverse.takeWhile fun b => decide (b ≠ slash ∧ b ≠ backslash)).reverse

/-- The names have the same base name, whatever the path and the case. -/
def SameBase (n n' : List UInt8) : Prop := sameIcase (baseName n') (baseName n) = true

/-- The names name the same DLL: up to path and case, or with the suffix added or dropped. -/
def SameDll (n n' : List UInt8) : Prop :=
  sameIcase (lastComponent n') (lastComponent n) = true ∨
    sameIcase (lastComponent n') (lastComponent (n ++ ascii ".dll")) = true ∨
    sameIcase (lastComponent (n' ++ ascii ".dll")) (lastComponent n) = true

/-- After a call that gives a module, every name the relation allows finds this module, and a call
with it loads nothing. -/
def LoadedOnce (host : LoaderHost) (SameModule : List UInt8 → List UInt8 → Prop)
    (ops : List LoaderOp) (tr : List ImageVm) : Prop :=
  ∀ i heap n a b, ops[i]? = some (.loadByName heap n) → tr[i]? = some a → tr[i + 1]? = some b →
    loadAnswer a b n ≠ [] → ∀ n', SameModule n n' → ∀ k s, i < k → tr[k]? = some s →
      moduleNode s.modules n' = loadAnswer a b n ∧
        ∀ heap', loaderStep host s (.loadByName heap' n') = some s

/-- No call of `module_load_by_name` gives a module. -/
def LoadsNothing (ops : List LoaderOp) (tr : List ImageVm) : Prop :=
  ∀ i heap n a b, ops[i]? = some (.loadByName heap n) → tr[i]? = some a → tr[i + 1]? = some b →
    loadAnswer a b n = []

/-- A step of import resolution: everything but the load of the executable. -/
def LoaderOp.IsImport : LoaderOp → Prop
  | .loadExecutable _ _ => False
  | _ => True

/-- A module that is going to be loaded has the base name it is asked for by. -/
def NamedAsAsked (host : LoaderHost) (r : ImageVm) : LoaderOp → Prop
  | .loadByName heap n => ∀ path preferredBase,
      host.target r (.loadByName heap n) = some (heap, path, preferredBase) →
        (host.imageOf r heap path).isSome →
          SameBase n ((baseName path).take (maxDllName - 1))
  | _ => True

variable {host : LoaderHost} {r r' : ImageVm} {op : LoaderOp} {ops : List LoaderOp}
  {tr : List ImageVm} {modules : List LoadedModule} {mod : LoadedModule} {heap : HostHeap}
  {n n' suffix : List UInt8}

section Nodes

/-- The comparison of `module_find_by_name`, read the other way round. -/
theorem sameBase_iff : SameBase n n' ↔ sameIcase (baseName n) (baseName n') = true := by
  unfold SameBase sameIcase
  rw [beq_iff_eq, beq_iff_eq]
  exact eq_comm

theorem SameBase.refl (n : List UInt8) : SameBase n n := by
  unfold SameBase sameIcase
  exact beq_iff_eq.mpr rfl

theorem SameBase.symm (h : SameBase n n') : SameBase n' n := sameBase_iff.mp h

theorem SameBase.trans {n'' : List UInt8} (h : SameBase n n') (h' : SameBase n' n'') :
    SameBase n n'' := by
  unfold SameBase sameIcase at *
  exact beq_iff_eq.mpr ((beq_iff_eq.mp h').trans (beq_iff_eq.mp h))

/-- `module_find_by_name` returns the head of the node. -/
theorem moduleNode_head? (modules : List LoadedModule) (n : List UInt8) :
    (moduleNode modules n).head? = moduleFindByName modules n := by
  unfold moduleNode moduleFindByName
  rw [List.find?_eq_head?_dropWhile_not]

/-- There is no node exactly if nothing is found. -/
theorem moduleNode_eq_nil_iff : moduleNode modules n = [] ↔ moduleFindByName modules n = none := by
  rw [← moduleNode_head?, List.head?_eq_none_iff]

/-- Names with the same base name find the same. -/
theorem moduleNode_congr (h : SameBase n n') (modules : List LoadedModule) :
    moduleNode modules n' = moduleNode modules n := by
  have hfold : (baseName n').map foldCase = (baseName n).map foldCase := eq_of_beq h
  unfold moduleNode sameIcase
  rw [hfold]

/-- A new module is found if it has the base name. -/
theorem moduleNode_cons_of_same (h : SameBase n mod.name) :
    moduleNode (mod :: modules) n = mod :: modules := by
  unfold moduleNode
  rw [List.dropWhile_cons_of_neg (by rw [sameBase_iff.mp h]; decide)]

/-- A new module with another base name is passed over. -/
theorem moduleNode_cons_of_not_same (h : ¬ SameBase n mod.name) :
    moduleNode (mod :: modules) n = moduleNode modules n := by
  have hother : sameIcase (baseName n) (baseName mod.name) = false :=
    Bool.eq_false_iff.mpr fun hsame => h (sameBase_iff.mpr hsame)
  unfold moduleNode
  rw [List.dropWhile_cons_of_pos (by rw [hother]; decide)]

/-- What is found has the base name. -/
theorem moduleNode_head_same {rest : List LoadedModule}
    (h : moduleNode modules n = mod :: rest) : SameBase n mod.name := by
  have hfind : moduleFindByName modules n = some mod := by
    rw [← moduleNode_head?, h]
    rfl
  unfold moduleFindByName at hfind
  have hsame := List.find?_some hfind
  exact sameBase_iff.mpr hsame

end Nodes

section Steps

/-- The new module of a step of import resolution. -/
def NewModule (host : LoaderHost) (r : ImageVm) (op : LoaderOp) (mod : LoadedModule) : Prop :=
  ∃ heap n path preferredBase, op = .loadByName heap n ∧ moduleNode r.modules n = [] ∧
    host.target r op = some (heap, path, preferredBase) ∧ (host.imageOf r heap path).isSome ∧
      mod.name = (baseName path).take (maxDllName - 1)

/-- A step of import resolution leaves the modules, or adds one that was asked for. -/
theorem loaderStep_modules (himport : op.IsImport) (h : loaderStep host r op = some r') :
    r'.modules = r.modules ∨ ∃ mod, NewModule host r op mod ∧ r'.modules = mod :: r.modules := by
  rcases loaderStep_cases h with
    ⟨-, hmodules, -⟩ | ⟨heap, path, preferredBase, isMainExe, buf, pe, htarget, himage, -, hplaced⟩
  · exact Or.inl hmodules
  · right
    refine ⟨_, ?_, placeImage_modules hplaced⟩
    cases op with
    | region va size flags => cases htarget
    | writeRegion addr val => cases htarget
    | writeVirt va val => cases htarget
    | loadExecutable heap path => exact himport.elim
    | loadByName heap' n =>
      have hfind : moduleFindByName r.modules n = none := by
        cases hfind : moduleFindByName r.modules n with
        | none => rfl
        | some mod =>
          unfold LoaderHost.target at htarget
          simp only [hfind, Option.isSome_some, if_true, reduceCtorEq] at htarget
      obtain rfl : heap' = heap := by
        unfold LoaderHost.target at htarget
        simp only [hfind, Option.isSome_none, Bool.false_eq_true, if_false,
          Option.map_eq_some_iff, Prod.mk.injEq] at htarget
        obtain ⟨found, -, hheap, -⟩ := htarget
        exact hheap
      refine ⟨heap', n, path, preferredBase, rfl, moduleNode_eq_nil_iff.mpr hfind, htarget, ?_, rfl⟩
      rw [himage]
      rfl

/-- A call with a name that is found loads nothing. -/
theorem loaderStep_of_found (h : moduleNode r.modules n ≠ []) (heap : HostHeap) :
    loaderStep host r (.loadByName heap n) = some r := by
  show moduleLoadByName host r heap n = some r
  unfold moduleLoadByName
  cases hfind : moduleFindByName r.modules n with
  | none => exact absurd (moduleNode_eq_nil_iff.mpr hfind) h
  | some mod => rfl

/-- A call that loads a module gives the new one. -/
theorem loadAnswer_new (hnone : moduleNode r.modules n = [])
    (hmodules : r'.modules = mod :: r.modules) : loadAnswer r r' n = r'.modules := by
  have hlonger : r.modules.length < r'.modules.length := by
    rw [hmodules]
    exact Nat.lt_succ_self _
  unfold loadAnswer
  rw [if_neg (not_not.mpr hnone), if_pos hlonger]

/-- If the modules bear the names they are asked for by, no new module hides another one. -/
theorem loaderStep_keeps_node (himport : op.IsImport) (hnamed : NamedAsAsked host r op)
    (h : loaderStep host r op = some r') (hfound : moduleNode r.modules n ≠ []) :
    moduleNode r'.modules n = moduleNode r.modules n := by
  rcases loaderStep_modules himport h with hmodules | ⟨mod, hnew, hmodules⟩
  · rw [hmodules]
  · obtain ⟨heap, n', path, preferredBase, rfl, hnone, htarget, himage, hname⟩ := hnew
    rw [hmodules]
    apply moduleNode_cons_of_not_same
    intro hsame
    -- the new module would have been found, and not loaded
    have hasked : SameBase n' mod.name := hname ▸ hnamed path preferredBase htarget himage
    apply hfound
    rw [moduleNode_congr (hasked.trans hsame.symm) r.modules]
    exact hnone

/-- A call that gives a module leaves it found by the name, if it bears this name. -/
theorem loadAnswer_found (hnamed : NamedAsAsked host r (.loadByName heap n))
    (h : loaderStep host r (.loadByName heap n) = some r') (hanswer : loadAnswer r r' n ≠ []) :
    moduleNode r'.modules n = loadAnswer r r' n := by
  by_cases hfound : moduleNode r.modules n = []
  · rcases loaderStep_modules (show (LoaderOp.loadByName heap n).IsImport from trivial) h with
      hmodules | ⟨mod, hnew, hmodules⟩
    · -- without a new module there is no answer
      exfalso
      apply hanswer
      unfold loadAnswer
      rw [if_neg (not_not.mpr hfound), if_neg (by rw [hmodules]; exact Nat.lt_irrefl _)]
    · obtain ⟨heap', n', path, preferredBase, heq, -, htarget, himage, hname⟩ := hnew
      cases heq
      rw [loadAnswer_new hfound hmodules, hmodules]
      exact moduleNode_cons_of_same (hname ▸ hnamed path preferredBase htarget himage)
  · have hsame : r = r' := Option.some.inj ((loaderStep_of_found hfound heap).symm.trans h)
    unfold loadAnswer
    rw [if_pos hfound, ← hsame]

/-- A call whose module does not bear the name gives a module the name does not find. -/
theorem namedAsAsked_of_found (h : loaderStep host r (.loadByName heap n) = some r')
    (hfound : loadAnswer r r' n ≠ [] → moduleNode r'.modules n = loadAnswer r r' n) :
    NamedAsAsked host r (.loadByName heap n) := by
  intro path preferredBase htarget himage
  rcases loaderStep_cases h with
    ⟨hnone, -⟩ | ⟨heap', path', base', isMainExe, buf, pe, htarget', -, -, hplaced⟩
  · rw [hnone _ _ _ htarget] at himage
    cases himage
  · cases htarget.symm.trans htarget'
    have hmodules := placeImage_modules hplaced
    have hnil : moduleNode r.modules n = [] := by
      by_contra hfound'
      have hsame : r = r' := Option.some.inj ((loaderStep_of_found hfound' heap).symm.trans h)
      rw [← hsame] at hmodules
      exact absurd (congrArg List.length hmodules) (Nat.ne_of_lt (Nat.lt_succ_self _))
    rw [loadAnswer_new hnil hmodules, hmodules] at hfound
    exact moduleNode_head_same (hfound (List.cons_ne_nil _ _))

end Steps

section Runs

/-- A step of import resolution whose module bears its name. -/
def ImportAsAsked (host : LoaderHost) (r : ImageVm) (op : LoaderOp) : Prop :=
  op.IsImport ∧ NamedAsAsked host r op

/-- Along a run whose modules bear their names, what is found stays found. -/
theorem loaderRun_keeps_node (hrun : trace (loaderStep host) r ops = some tr)
    (hg : Guarded (loaderStep host) (ImportAsAsked host) r ops) {j k : Nat} {b s : ImageVm}
    (hle : j ≤ k) (hb : tr[j]? = some b) (hs : tr[k]? = some s)
    (hfound : moduleNode b.modules n ≠ []) : moduleNode s.modules n = moduleNode b.modules n := by
  have hpairs : tr.Pairwise fun a b =>
      moduleNode a.modules n ≠ [] → moduleNode b.modules n = moduleNode a.modules n := by
    apply trace_pairwise (I := fun _ => True) _ _ trivial hrun hg
    · intro a e b _ ⟨himport, hnamed⟩ hstep
      exact ⟨trivial, loaderStep_keeps_node himport hnamed hstep⟩
    · intro a b c hab hbc ha
      have hb : moduleNode b.modules n = moduleNode a.modules n := hab ha
      exact (hbc (hb.symm ▸ ha)).trans hb
  rcases Nat.lt_or_eq_of_le hle with hlt | heq
  · obtain ⟨hj, hbj⟩ := List.getElem?_eq_some_iff.mp hb
    obtain ⟨hk, hsk⟩ := List.getElem?_eq_some_iff.mp hs
    have hrel := List.pairwise_iff_getElem.mp hpairs j k hj hk hlt
    rw [hbj, hsk] at hrel
    exact hrel hfound
  · rw [heq, hs] at hb
    rw [Option.some.inj hb]

/-- The call at an index of a run leads to the next state. -/
theorem loaderRun_step_at (hrun : trace (loaderStep host) r ops = some tr) {i : Nat}
    {a b : ImageVm} (hop : ops[i]? = some op) (ha : tr[i]? = some a) (hb : tr[i + 1]? = some b) :
    loaderStep host a op = some b := by
  have hg : Guarded (loaderStep host) (fun _ _ => True) r ops :=
    (guarded_iff_at hrun).mpr fun _ _ _ _ _ => trivial
  obtain ⟨e, he, -, hstep⟩ := trace_step_at hrun hg ha hb
  obtain rfl : op = e := Option.some.inj (hop.symm.trans he)
  exact hstep

/-- Every input of a run has a state after it. -/
theorem loaderRun_next (hrun : trace (loaderStep host) r ops = some tr) {i : Nat} {a : ImageVm}
    (hop : ops[i]? = some op) (ha : tr[i]? = some a) : ∃ b, tr[i + 1]? = some b := by
  induction ops generalizing r tr i with
  | nil => cases hop
  | cons e es ih =>
    obtain ⟨s', rest, -, hrest, rfl⟩ := trace_cons hrun
    cases i with
    | zero => exact ⟨s', trace_head hrest⟩
    | succ i => exact ih hrest hop ha

/-- The same base name finds the same module all along exactly if every module that is loaded
bears the base name it is asked for by. -/
theorem loadedOnce_sameBase_iff (hrun : trace (loaderStep host) r ops = some tr)
    (himport : ∀ op ∈ ops, op.IsImport) :
    LoadedOnce host SameBase ops tr ↔ Guarded (loaderStep host) (NamedAsAsked host) r ops := by
  constructor
  · intro h
    apply (guarded_iff_at hrun).mpr
    intro i a op ha hop
    cases op with
    | region va size flags => trivial
    | writeRegion addr val => trivial
    | writeVirt va val => trivial
    | loadExecutable heap path => trivial
    | loadByName heap n =>
      obtain ⟨b, hb⟩ := loaderRun_next hrun hop ha
      apply namedAsAsked_of_found (loaderRun_step_at hrun hop ha hb)
      intro hanswer
      exact (h i heap n a b hop ha hb hanswer n (.refl n) (i + 1) b (Nat.lt_succ_self i) hb).1
  · intro hnamed i heap n a b hop ha hb hanswer n' hsame k s hlt hs
    have hg : Guarded (loaderStep host) (ImportAsAsked host) r ops := by
      apply (guarded_iff_at hrun).mpr
      intro k a e ha he
      exact ⟨himport e (List.mem_of_getElem? he), (guarded_iff_at hrun).mp hnamed k a e ha he⟩
    have hfirst : moduleNode b.modules n = loadAnswer a b n :=
      loadAnswer_found ((guarded_iff_at hrun).mp hnamed i a _ ha hop)
        (loaderRun_step_at hrun hop ha hb) hanswer
    have hlater : moduleNode s.modules n' = loadAnswer a b n := by
      rw [moduleNode_congr hsame, ← hfirst]
      exact loaderRun_keeps_node hrun hg hlt hb hs (hfirst.symm ▸ hanswer)
    exact ⟨hlater, loaderStep_of_found (hlater.symm ▸ hanswer)⟩

/-- A suffix without the separator follows the last one. -/
theorem afterLast_append {sep : UInt8} (hsep : sep ∉ suffix) (path : List UInt8) :
    afterLast sep (path ++ suffix) = (afterLast sep path).map fun rest => rest ++ suffix := by
  unfold afterLast
  by_cases hmem : sep ∈ path
  · have hsuffix : ∀ b ∈ suffix.reverse, decide (b ≠ sep) = true := by
      intro b hb
      apply decide_eq_true
      rintro rfl
      exact hsep (List.mem_reverse.mp hb)
    rw [if_pos (List.mem_append_left suffix hmem), if_pos hmem, List.reverse_append,
      List.takeWhile_append_of_pos hsuffix, List.reverse_append, List.reverse_reverse,
      Option.map_some]
  · rw [if_neg (by simp [hmem, hsep]), if_neg hmem, Option.map_none]

/-- A suffix without separators belongs to the base name. -/
theorem baseName_append (hslash : slash ∉ suffix) (hback : backslash ∉ suffix)
    (path : List UInt8) : baseName (path ++ suffix) = baseName path ++ suffix := by
  unfold baseName
  rw [afterLast_append hslash, afterLast_append hback]
  cases afterLast slash path with
  | some rest => rfl
  | none =>
    cases afterLast backslash path with
    | some rest => rfl
    | none => rfl

/-- No module is found both by a name and by the name with the suffix. -/
theorem moduleNode_suffix (h : moduleNode modules n ≠ []) :
    moduleNode modules (n ++ ascii ".dll") ≠ moduleNode modules n := by
  intro heq
  obtain ⟨mod, rest, hnode⟩ := List.exists_cons_of_ne_nil h
  have hsame : SameBase n (n ++ ascii ".dll") :=
    (moduleNode_head_same hnode).trans (moduleNode_head_same (heq.trans hnode)).symm
  have hlength := congrArg List.length (beq_iff_eq.mp hsame)
  rw [baseName_append (by decide) (by decide)] at hlength
  simp only [List.length_map, List.length_append] at hlength
  have hfour : (ascii ".dll").length = 4 := by decide
  omega

/-- A module stays loaded once for every spelling of its name exactly if there is no module; it
does for every path and case exactly if every module bears the base name it is asked for by. -/
theorem loadedOnce_iff (hrun : trace (loaderStep host) r ops = some tr)
    (himport : ∀ op ∈ ops, op.IsImport) :
    (LoadedOnce host SameDll ops tr ↔ LoadsNothing ops tr) ∧
      (LoadedOnce host SameBase ops tr ↔
        Guarded (loaderStep host) (NamedAsAsked host) r ops) := by
  refine ⟨?_, loadedOnce_sameBase_iff hrun himport⟩
  constructor
  · intro h i heap n a b hop ha hb
    by_contra hanswer
    have hspelled : ∀ n', SameDll n n' → moduleNode b.modules n' = loadAnswer a b n := by
      intro n' hsame
      exact (h i heap n a b hop ha hb hanswer n' hsame (i + 1) b (Nat.lt_succ_self i) hb).1
    have hn : moduleNode b.modules n = loadAnswer a b n :=
      hspelled n (Or.inl (beq_iff_eq.mpr rfl))
    apply moduleNode_suffix (hn.symm ▸ hanswer)
    exact (hspelled _ (Or.inr (Or.inl (beq_iff_eq.mpr rfl)))).trans hn.symm
  · intro h i heap n a b hop ha hb hanswer
    exact absurd (h i heap n a b hop ha hb) hanswer

end Runs

section Resolution

variable {link : LinkHost} {s s' : LinkVm} {call : ResolveCall} {dll : List UInt8}

/-- The machine a step of the resolver leaves. -/
def ResolveStep.vm : ResolveStep → LinkVm
  | .done vm _ _ => vm
  | .forward next => next.vm

end Resolution

section Example

/-- A host whose only file is /ntdll.dll. -/
def ntdllFile (content : List UInt8) : HostTree where
  node path := if path = [ascii "ntdll.dll"] then some (.file content) else none
  cwd := []
  openFds := []
  refuses := fun _ _ => none
  entries dir := dotName :: dotdotName :: if dir = [] then [ascii "ntdll.dll"] else []
  entries_iff := by
    intro dir n
    have hname : IsComponent isSlash (ascii "ntdll.dll") ∧ ascii "ntdll.dll" ≠ dotName ∧
        ascii "ntdll.dll" ≠ dotdotName := by
      decide
    cases dir with
    | nil => grind
    | cons d dir => grind

/-- The loader on it, configured with this file. -/
def ntdllHost : LoaderHost where
  tree := ntdllFile (smallPe 0x400000)
  vfsJail := vfsInit
  ntdllPath := some (ascii "/ntdll.dll")

/-- The file is the small image. -/
theorem ntdllHost_imageOf :
    ntdllHost.imageOf zeroStart roomyHeap (ascii "/ntdll.dll") =
      some (fileBuffer (smallPe 0x400000) fun _ => 0, smallImage 0x400000) := by
  have hstat : (ntdllFile (smallPe 0x400000)).stat (ascii "/ntdll.dll") =
      some (.file (smallPe 0x400000)) := by
    have hlookup : (ntdllFile (smallPe 0x400000)).lookup true (ascii "/ntdll.dll") =
        .found [ascii "ntdll.dll"] := rfl
    rw [HostFs.stat, hlookup]
    rfl
  have hpe : (peLoad roomyHeap.pe (smallPe 0x400000)
      (fileBuffer (smallPe 0x400000) roomyHeap.behind)).2 = .ok (smallImage 0x400000) := by
    apply ok_of_toOption
    decide +kernel
  have halloc : (pagingAllocPhys zeroStart.vm 0x1000).2 ≠ 0 := by decide +kernel
  unfold LoaderHost.imageOf LoaderHost.parse
  rw [show ntdllHost.tree = ntdllFile (smallPe 0x400000) from rfl, hstat]
  simp only [hpe]
  exact if_neg (not_or.mpr ⟨by decide, halloc⟩)

/-- Either name of ntdll loads it. -/
theorem ntdllHost_step (name : List UInt8)
    (hname : sameIcase name (ascii "ntdll.dll") = true ∨ sameIcase name (ascii "ntdll") = true) :
    ∃ r mod, loaderStep ntdllHost zeroStart (.loadByName roomyHeap name) = some r ∧
      r.modules = [mod] ∧ mod.name = ascii "ntdll.dll" := by
  have hrequest : ntdllHost.request name = some (ascii "/ntdll.dll", ntdllDefaultBase) := by
    unfold LoaderHost.request
    rw [if_pos hname]
    rfl
  have hreturns : loadPeInternal ntdllHost zeroStart roomyHeap (ascii "/ntdll.dll")
      ntdllDefaultBase false ≠ none := by
    intro hnone
    obtain ⟨buf, pe, himage, hrelocates, -⟩ := loadPeInternal_eq_none_iff.mp hnone
    obtain ⟨-, rfl⟩ := Prod.mk.inj (Option.some.inj (ntdllHost_imageOf.symm.trans himage))
    exact absurd hrelocates (by decide)
  obtain ⟨r, hr⟩ := Option.ne_none_iff_exists'.mp hreturns
  have hstep : loaderStep ntdllHost zeroStart (.loadByName roomyHeap name) = some r := by
    show moduleLoadByName ntdllHost zeroStart roomyHeap name = some r
    unfold moduleLoadByName
    rw [show moduleFindByName zeroStart.modules name = none from rfl, hrequest]
    exact hr
  rcases loadPeInternal_cases hr with ⟨himage, -⟩ | ⟨buf, pe, himage, -, hplaced⟩
  · exact nomatch ntdllHost_imageOf.symm.trans himage
  · exact ⟨r, _, hstep, placeImage_modules hplaced, (by decide : (baseName (ascii "/ntdll.dll")).take
      (maxDllName - 1) = ascii "ntdll.dll")⟩

/-- The name ntdll does not find the module it loads. -/
theorem ntdll_loaded_again :
    ¬ ∀ host r ops tr, trace (loaderStep host) r ops = some tr → (∀ op ∈ ops, op.IsImport) →
      LoadedOnce host SameDll ops tr := by
  intro h
  obtain ⟨r, mod, hstep, hmodules, hname⟩ := ntdllHost_step (ascii "ntdll")
    (Or.inr (by decide))
  have hrun : trace (loaderStep ntdllHost) zeroStart [.loadByName roomyHeap (ascii "ntdll")] =
      some [zeroStart, r] := by
    simp [trace, hstep]
  have hanswer : loadAnswer zeroStart r (ascii "ntdll") ≠ [] := by
    rw [loadAnswer_new rfl hmodules, hmodules]
    exact List.cons_ne_nil _ _
  have hfound : moduleNode r.modules (ascii "ntdll") = loadAnswer zeroStart r (ascii "ntdll") := by
    apply (h _ _ _ _ hrun _ 0 roomyHeap _ zeroStart r rfl rfl rfl hanswer _ (Or.inl rfl) 1 r
      Nat.zero_lt_one rfl).1
    intro op hop
    rw [List.mem_singleton.mp hop]
    trivial
  have hother : ¬ SameBase (ascii "ntdll") mod.name := by
    rw [hname]
    unfold SameBase
    decide
  rw [← hfound, hmodules, moduleNode_cons_of_not_same hother] at hanswer
  exact hanswer rfl

/-- Loaded as ntdll.dll it is found by every path and case. -/
theorem ntdll_loaded_once :
    ∃ tr, trace (loaderStep ntdllHost) zeroStart [.loadByName roomyHeap (ascii "ntdll.dll")] =
        some tr ∧
      LoadedOnce ntdllHost SameBase [.loadByName roomyHeap (ascii "ntdll.dll")] tr := by
  obtain ⟨r, -, hstep, -, -⟩ := ntdllHost_step (ascii "ntdll.dll") (Or.inl (by decide))
  have hrun : trace (loaderStep ntdllHost) zeroStart
      [.loadByName roomyHeap (ascii "ntdll.dll")] = some [zeroStart, r] := by
    simp [trace, hstep]
  have himport : ∀ op ∈ [LoaderOp.loadByName roomyHeap (ascii "ntdll.dll")], op.IsImport := by
    intro op hop
    rw [List.mem_singleton.mp hop]
    trivial
  refine ⟨_, hrun, (loadedOnce_iff hrun himport).2.mpr ⟨?_, fun _ _ => trivial⟩⟩
  intro path preferredBase htarget _
  have htarget' : ntdllHost.target zeroStart (.loadByName roomyHeap (ascii "ntdll.dll")) =
      some (roomyHeap, ascii "/ntdll.dll", ntdllDefaultBase) := rfl
  cases htarget'.symm.trans htarget
  unfold SameBase
  decide

end Example

end Wbox.Loader
