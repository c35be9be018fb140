import Wbox.Lib.Visits
import Wbox.Loader.ImportSteps

/-!
# The order of DLL initialisation

`vm_init_dlls` (`src/vm/vm.c:755–854`) calls the entry points of five DLLs first and then those of
the others as they were loaded. The imports of a module are loaded after the module, so that this
is no order of dependencies.
-/

namespace Wbox.Loader

open Wbox.Host Wbox.Lib Wbox.Nt Wbox.Pe Wbox.Vm

/-- `priority_dlls`, `vm.c:826–829`. -/
def priorityDlls : List (List UInt8) :=
  [ascii "kernel32.dll", ascii "msvcrt.dll", ascii "advapi32.dll", ascii "gdi32.dll",
    ascii "user32.dll"]

/-- The entry point of a module is to be called, `vm.c:808–809`. -/
def LoadedModule.callsEntry (m : LoadedModule) : Bool :=
  !m.isMainExe && decide (m.entryPoint ≠ 0) && decide (m.entryPoint ≠ m.baseVa)

/-- The module at an index of the list has an entry point that is to be called. -/
def HasEntry (modules : List LoadedModule) (idx : Nat) : Bool :=
  (modules[idx]?).any LoadedModule.callsEntry

/-- The machine while the DLLs are initialised, with the flags and the count of `vm_init_dlls` and
the indices of the modules whose entry points have been called. -/
structure InitState (σ : Type) where
  vm : σ
  inited : Nat → Bool
  initialized : Nat
  calls : List Nat

section Model

variable {σ : Type} (vmCallDllEntry : σ → UInt32 → UInt32 → σ × Bool)

/-- `INIT_DLL`, `vm.c:807–818`; the guest's code is a parameter. -/
def initDll (modules : List LoadedModule) (s : InitState σ) (idx : Nat) : InitState σ :=
  match modules[idx]? with
  | none => s
  | some m =>
      if m.callsEntry = true ∧ s.inited idx = false then
        let answer := vmCallDllEntry s.vm m.entryPoint m.baseVa
        { vm := answer.1
          inited := Function.update s.inited idx true
          initialized := if answer.2 then s.initialized + 1 else s.initialized
          calls := s.calls ++ [idx] }
      else s

/-- The first module with a name, `vm.c:832–837`. -/
def moduleNamed (modules : List LoadedModule) (name : List UInt8) : Option Nat :=
  modules.findIdx? fun m => sameIcase m.name name

/-- The modules that are initialised first, in this order. -/
def priorityIdxs (modules : List LoadedModule) : List Nat :=
  priorityDlls.filterMap (moduleNamed modules)

/-- `vm_init_dlls`; there is memory for its two arrays. -/
def vmInitDlls (modules : List LoadedModule) (vm : σ) : InitState σ :=
  let s := (priorityIdxs modules).foldl (initDll vmCallDllEntry modules)
    ⟨vm, fun _ => false, 0, []⟩
  (List.range modules.length).reverse.foldl (initDll vmCallDllEntry modules) s

end Model

/-- A module of the list imports another one: the name of one of its descriptors finds it. -/
def ImportsDll (s : LinkVm) (i j : Nat) : Prop :=
  ∃ mod dir fuel descs desc dllName, s.modules[i]? = some mod ∧
    importsGetDirectory mod = some dir ∧ importDescriptors fuel mod dir = some descs ∧
    desc ∈ descs ∧ stringAt mod.fileData mod.pe mod.fileSize desc.name = some dllName ∧
    s.modules.findIdx? (fun m => sameIcase (baseName dllName) (baseName m.name)) = some j

/-- Every DLL with an entry point is called once and nothing else is; no call is made before those
of all DLLs the module imports. -/
structure InitsInOrder (modules : List LoadedModule) (imports : Nat → Nat → Prop)
    (calls : List Nat) : Prop where
  once : ∀ idx, calls.count idx = if HasEntry modules idx then 1 else 0
  dependencies : ∀ i j, HasEntry modules i = true → HasEntry modules j = true → imports i j →
    Precedes calls j i

/-- What `vm_init_dlls` goes by: the five DLLs come first, in their order, and of the other modules
the one that was loaded first. -/
def InitsBefore (modules : List LoadedModule) (j i : Nat) : Prop :=
  let first := priorityIdxs modules
  j ∈ first ∧ i ∉ first ∨ j ∈ first ∧ i ∈ first ∧ first.idxOf j < first.idxOf i ∨
    j ∉ first ∧ i ∉ first ∧ i < j

variable {modules : List LoadedModule} {i j idx : Nat}

section Calls

variable {σ : Type} (vmCallDllEntry : σ → UInt32 → UInt32 → σ × Bool) {s : InitState σ}

/-- The flags say which modules have been called. -/
structure FlagsTrue (s : InitState σ) : Prop where
  inited : ∀ idx, s.inited idx = true ↔ idx ∈ s.calls

/-- A call of the macro visits the module. -/
theorem initDll_calls (modules : List LoadedModule) (idx : Nat) (h : FlagsTrue s) :
    FlagsTrue (initDll vmCallDllEntry modules s idx) ∧
      (initDll vmCallDllEntry modules s idx).calls = visit (HasEntry modules) s.calls idx := by
  unfold initDll visit HasEntry
  cases hm : modules[idx]? with
  | none =>
    simp only [Option.any_none, Bool.false_eq_true, false_and, if_false]
    exact ⟨h, trivial⟩
  | some m =>
    have hflag : s.inited idx = false ↔ idx ∉ s.calls := by
      rw [← h.inited idx, Bool.not_eq_true]
    simp only [Option.any_some, hflag]
    split
    · refine ⟨⟨?_⟩, rfl⟩
      intro k
      rw [List.mem_append, List.mem_singleton, ← h.inited k]
      by_cases hk : k = idx
      · simp only [hk, Function.update_self, or_true]
      · simp only [Function.update_of_ne hk, hk, or_false]
    · exact ⟨h, rfl⟩

/-- A loop over indices visits them. -/
theorem initDlls_calls (modules : List LoadedModule) (idxs : List Nat) (h : FlagsTrue s) :
    FlagsTrue (idxs.foldl (initDll vmCallDllEntry modules) s) ∧
      (idxs.foldl (initDll vmCallDllEntry modules) s).calls =
        idxs.foldl (visit (HasEntry modules)) s.calls := by
  induction idxs generalizing s with
  | nil => exact ⟨h, rfl⟩
  | cons idx idxs ih =>
    obtain ⟨hflags, hcalls⟩ := initDll_calls vmCallDllEntry modules idx h
    rw [List.foldl_cons, List.foldl_cons, ← hcalls]
    exact ih hflags

/-- The order in which the modules are looked at. -/
def initOrder (modules : List LoadedModule) : List Nat :=
  priorityIdxs modules ++ (List.range modules.length).reverse

/-- The calls are the visits of this order. -/
theorem vmInitDlls_calls (vm : σ) :
    (vmInitDlls vmCallDllEntry modules vm).calls =
      visits (HasEntry modules) (initOrder modules) := by
  have hstart : FlagsTrue (⟨vm, fun _ => false, 0, []⟩ : InitState σ) := by
    constructor
    intro idx
    simp
  obtain ⟨hflags, hfirst⟩ := initDlls_calls vmCallDllEntry modules (priorityIdxs modules) hstart
  unfold vmInitDlls visits initOrder
  rw [(initDlls_calls vmCallDllEntry modules _ hflags).2, hfirst, List.foldl_append]

end Calls

section Order

/-- Only modules have entry points. -/
theorem hasEntry_lt (h : HasEntry modules idx = true) : idx < modules.length := by
  by_contra hge
  unfold HasEntry at h
  rw [List.getElem?_eq_none (Nat.le_of_not_lt hge)] at h
  cases h

/-- Every module is looked at. -/
theorem mem_initOrder (h : idx < modules.length) : idx ∈ initOrder modules := by
  unfold initOrder
  apply List.mem_append_right
  exact List.mem_reverse.mpr (List.mem_range.mpr h)

/-- A list that goes down to 0. -/
theorem idxOf_reverse_range {n k : Nat} (hk : k < n) :
    (List.range n).reverse.idxOf k = n - 1 - k := by
  have hlen : n - 1 - k < (List.range n).reverse.length := by
    rw [List.length_reverse, List.length_range]
    omega
  have hget : (List.range n).reverse[n - 1 - k] = k := by
    rw [List.getElem_reverse, List.getElem_range, List.length_range]
    omega
  have hnodup : (List.range n).reverse.Nodup := List.nodup_reverse.mpr List.nodup_range
  calc (List.range n).reverse.idxOf k
      = (List.range n).reverse.idxOf (List.range n).reverse[n - 1 - k] := by rw [hget]
    _ = n - 1 - k := hnodup.idxOf_getElem _ hlen

/-- The first look at a module comes in the order the modules go by. -/
theorem initOrder_idxOf_lt_iff (hi : i < modules.length) (hj : j < modules.length) :
    (initOrder modules).idxOf j < (initOrder modules).idxOf i ↔ InitsBefore modules j i := by
  have hlater : ∀ k < modules.length, k ∉ priorityIdxs modules → (initOrder modules).idxOf k =
      (priorityIdxs modules).length + (modules.length - 1 - k) := by
    intro k hk hfirst
    unfold initOrder
    rw [List.idxOf_append_of_notMem hfirst, idxOf_reverse_range hk]
  have hfirst : ∀ k, k ∈ priorityIdxs modules → (initOrder modules).idxOf k =
      (priorityIdxs modules).idxOf k := fun k hk => List.idxOf_append_of_mem hk
  unfold InitsBefore
  by_cases hjf : j ∈ priorityIdxs modules
  · have hlt := List.idxOf_lt_length_of_mem hjf
    by_cases hif : i ∈ priorityIdxs modules
    · simp [hfirst j hjf, hfirst i hif, hjf, hif]
    · simp only [hfirst j hjf, hlater i hi hif, hjf, hif, not_true, not_false_iff, true_and,
        false_and, or_false, iff_true]
      omega
  · by_cases hif : i ∈ priorityIdxs modules
    · have hlt := List.idxOf_lt_length_of_mem hif
      simp only [hlater j hj hjf, hfirst i hif, hjf, hif, not_true, false_and, and_false, or_false,
        iff_false]
      omega
    · simp only [hlater j hj hjf, hlater i hi hif, hjf, hif, not_false_iff, true_and, false_and,
        false_or]
      omega

/-- For any relation of imports the calls come in an order of dependencies exactly if every DLL
comes before those that import it in the order `vm_init_dlls` goes by. -/
theorem initsInOrder_iff {σ : Type} (vmCallDllEntry : σ → UInt32 → UInt32 → σ × Bool)
    (vm : σ) (modules : List LoadedModule) (imports : Nat → Nat → Prop) :
    InitsInOrder modules imports (vmInitDlls vmCallDllEntry modules vm).calls ↔
      ∀ i j, HasEntry modules i = true → HasEntry modules j = true → imports i j →
        InitsBefore modules j i := by
  rw [vmInitDlls_calls]
  have hbefore : ∀ i j, HasEntry modules i = true → HasEntry modules j = true →
      (Precedes (visits (HasEntry modules) (initOrder modules)) j i ↔ InitsBefore modules j i) := by
    intro i j hi hj
    rw [precedes_visits_iff ⟨mem_initOrder (hasEntry_lt hj), hj⟩
        ⟨mem_initOrder (hasEntry_lt hi), hi⟩,
      initOrder_idxOf_lt_iff (hasEntry_lt hi) (hasEntry_lt hj)]
  constructor
  · intro h i j hi hj himports
    exact (hbefore i j hi hj).mp (h.dependencies i j hi hj himports)
  · intro h
    constructor
    · intro idx
      rw [count_visits]
      by_cases hidx : HasEntry modules idx = true
      · simp only [hidx, mem_initOrder (hasEntry_lt hidx), and_self, if_true]
      · simp only [hidx, and_false, if_false, Bool.false_eq_true]
    · intro i j hi hj himports
      exact (hbefore i j hi hj).mpr (h i j hi hj himports)

/-- Whatever modules are loaded: the calls are one for every DLL with an entry point and come in an
order of dependencies exactly if every DLL that another one imports is before it, where the five
come first, in their order, and the others follow as they were loaded. -/
theorem vmInitDlls_inOrder_iff {σ : Type} (vmCallDllEntry : σ → UInt32 → UInt32 → σ × Bool)
    (vm : σ) (s : LinkVm) :
    InitsInOrder s.image.modules (ImportsDll s)
        (vmInitDlls vmCallDllEntry s.image.modules vm).calls ↔
      ∀ i j, HasEntry s.image.modules i = true → HasEntry s.image.modules j = true →
        ImportsDll s i j → InitsBefore s.image.modules j i :=
  initsInOrder_iff vmCallDllEntry vm s.image.modules (ImportsDll s)

end Order

section Example

/-- The entries of a table do not depend on the fuel. -/
theorem entriesUntil_unique {α : Type} {last : α → Bool} {entry : Nat → α} {n m i : Nat}
    {l l' : List α} (h : entriesUntil last entry n i = some l)
    (h' : entriesUntil last entry m i = some l') : l = l' := by
  induction n generalizing m i l l' with
  | zero => cases h
  | succ n ih =>
    cases m with
    | zero => cases h'
    | succ m =>
      unfold entriesUntil at h h'
      split at h
      · next hlast =>
        rw [if_pos hlast] at h'
        exact Option.some.inj (h.symm.trans h')
      · next hlast =>
        rw [if_neg hlast] at h'
        obtain ⟨rest, hrest, rfl⟩ := Option.map_eq_some_iff.mp h
        obtain ⟨rest', hrest', rfl⟩ := Option.map_eq_some_iff.mp h'
        rw [ih hrest hrest']

/-- The three modules after the executable has been loaded. -/
theorem chainHost_run : ∃ r x a b,
    loaderLoadExecutable (chainHost 40) 2 emptyLink (ascii "/x") = some (some r) ∧
      r.link.modules = [b, a, x] ∧ Importer x (ascii "x") 0x400000 40 (ascii "a.dll") true ∧
      Importer a (ascii "a.dll") 0x500000 40 (ascii "b.dll") false ∧
      Importer b (ascii "b.dll") 0x600000 0 [] false := by
  have hpeA : (peLoad ⟨true, true⟩ (importerPe 0x500000 40 (ascii "b.dll"))
      (fileBuffer (importerPe 0x500000 40 (ascii "b.dll")) fun _ => 0)).2.toOption =
        some (importerImage 0x500000 40) := by decide +kernel
  have hpeB : (peLoad ⟨true, true⟩ (importerPe 0x600000 0 [])
      (fileBuffer (importerPe 0x600000 0 []) fun _ => 0)).2.toOption =
        some (importerImage 0x600000 0) := by decide +kernel
  have hfileA : OneImportFile 0x500000 40 (ascii "b.dll") := by
    constructor <;> decide +kernel
  obtain ⟨r, x, a, hr, hrun⟩ := chainHost_start 40 hpeA
  have hrequest : (chainHost 40).request (ascii "b.dll") = some (ascii "/c/windows/b.dll", 0) :=
    driveHost_request_b _ _ _
  obtain ⟨s, b, hload, hmodules, hloaded, hb⟩ := hr.loaded.load (by decide) (by decide)
    (driveTree_stat_b (importerPe 0x400000 40 (ascii "a.dll"))
      (importerPe 0x500000 40 (ascii "b.dll")) (importerPe 0x600000 0 [])) hpeB false
  have hnameB : (baseName (ascii "/c/windows/b.dll")).take 259 = ascii "b.dll" := by decide
  rw [hnameB] at hb
  rw [hr.modules] at hmodules
  have hfind : r.link.find (ascii "b.dll") = none := by
    have hotherA : ¬ sameIcase (baseName (ascii "b.dll")) (baseName (ascii "a.dll")) = true := by
      decide
    have hotherX : ¬ sameIcase (baseName (ascii "b.dll")) (baseName (ascii "x")) = true := by decide
    unfold LinkVm.find
    rw [hr.modules, List.find?_cons_of_neg (by rw [hr.dll.name]; exact hotherA),
      List.find?_cons_of_neg (by rw [hr.exe.name]; exact hotherX)]
    rfl
  -- the first pass loads b.dll for a.dll, which lies behind it
  have hresolve : importsResolve (chainHost 40) 2 r.link a =
      some ⟨s, .zero, [⟨importerDescriptor, some b, []⟩]⟩ :=
    (hr.dll.oneImport hfileA).resolve (importDll_of_load hfind hrequest hload) 0
  have hnodeA : r.link.node 1 = some a := by
    unfold LinkVm.node
    rw [hr.modules]
    rfl
  have hneedA : r.needsImports 1 = true := by
    unfold LoaderRun.needsImports
    rw [hnodeA, hr.flags]
    dsimp only
    rw [hr.dll.isMainExe, hr.dll.pe]
    rfl
  obtain ⟨r', hr'⟩ : ∃ r', r' = { r.table 1 a ⟨s, .zero, [⟨importerDescriptor, some b, []⟩]⟩ with
      importsResolved := Function.update r.importsResolved 1 true } := ⟨_, rfl⟩
  have hlink : r'.link = s := by rw [hr']; rfl
  have hstep : r.resolve (chainHost 40) 2 1 = some r' := by
    unfold LoaderRun.resolve
    rw [hnodeA]
    dsimp only
    rw [hresolve, hr']
    rfl
  -- the executable is never looked at again, and b.dll has no imports
  have hskipX : r'.needsImports 0 = false := by
    have hnode : r'.link.node 0 = some x := by
      unfold LinkVm.node
      rw [hlink, hmodules]
      rfl
    unfold LoaderRun.needsImports
    rw [hnode]
    dsimp only
    rw [hr.exe.isMainExe]
    rfl
  have hskipA : r'.needsImports 1 = false := by
    have hnode : r'.link.node 1 = some a := by
      unfold LinkVm.node
      rw [hlink, hmodules]
      rfl
    have hflag : r'.importsResolved 1 = true := by
      rw [hr']
      exact Function.update_self 1 true r.importsResolved
    unfold LoaderRun.needsImports
    rw [hnode]
    dsimp only
    rw [hflag, hr.dll.isMainExe]
    rfl
  have hskipB : r'.needsImports 2 = false := by
    have hnode : r'.link.node 2 = some b := by
      unfold LinkVm.node
      rw [hlink, hmodules]
      rfl
    unfold LoaderRun.needsImports
    rw [hnode]
    dsimp only
    rw [hb.pe, Bool.and_eq_false_iff]
    exact Or.inr rfl
  have hlength : r.link.modules.length = 2 := by rw [hr.modules]; rfl
  have hlength' : r'.link.modules.length = 3 := by rw [hlink, hmodules]; rfl
  have hfirst : importWalk (chainHost 40) 2 2 r 0 = some (r', 1) := by
    simp only [importWalk, hneedA, hstep, hskipX, if_true, Bool.false_eq_true, if_false]
  have hsecond : importWalk (chainHost 40) 2 3 r' 0 = some (r', 0) := by
    simp only [importWalk, hskipB, hskipA, hskipX, Bool.false_eq_true, if_false]
  refine ⟨r', x, a, b, ?_, by rw [hlink, hmodules], hr.exe, hr.dll, hb⟩
  rw [hrun 0]
  simp only [importPasses, hlength, hfirst, hlength', hsecond, Option.map_some]

/-- What an importer imports. -/
theorem importsDll_cases {s : LinkVm} {i j : Nat} (h : ImportsDll s i j) :
    ∃ mod dllName, s.modules[i]? = some mod ∧
      (∀ dir fuel, importsGetDirectory mod = some dir → importDescriptors fuel mod dir ≠ some []) ∧
      (∀ dll, OneImport mod dll → dllName = dll) ∧
      s.modules.findIdx? (fun m => sameIcase (baseName dllName) (baseName m.name)) = some j := by
  obtain ⟨mod, dir, fuel, descs, desc, dllName, hmod, hdir, hdescs, hdesc, hname, hfind⟩ := h
  refine ⟨mod, dllName, hmod, ?_, ?_, hfind⟩
  · intro dir' fuel' hdir' hnil
    obtain rfl : dir = dir' := Option.some.inj (hdir.symm.trans hdir')
    have hempty : descs = [] := entriesUntil_unique hdescs hnil
    rw [hempty] at hdesc
    cases hdesc
  · intro dll hone
    obtain rfl : dir = 240 := Option.some.inj (hdir.symm.trans hone.directory)
    have hsingle : descs = [importerDescriptor] :=
      entriesUntil_unique hdescs (hone.descriptors 0)
    rw [hsingle, List.mem_singleton] at hdesc
    rw [hdesc] at hname
    exact Option.some.inj (hname.symm.trans hone.dllName)

/-- On the chain every module is imported by the one before it. -/
theorem chain_imports {s : LinkVm} {x a b : LinkModule} (hmodules : s.modules = [b, a, x])
    (hx : Importer x (ascii "x") 0x400000 40 (ascii "a.dll") true)
    (ha : Importer a (ascii "a.dll") 0x500000 40 (ascii "b.dll") false)
    (hb : Importer b (ascii "b.dll") 0x600000 0 [] false) :
    ImportsDll s 1 0 ∧ ∀ i j, ImportsDll s i j → j < i := by
  have hfileX : OneImportFile 0x400000 40 (ascii "a.dll") := by
    constructor <;> decide +kernel
  have hfileA : OneImportFile 0x500000 40 (ascii "b.dll") := by
    constructor <;> decide +kernel
  have honeA := ha.oneImport hfileA
  have hfindA : s.modules.findIdx?
      (fun m => sameIcase (baseName (ascii "a.dll")) (baseName m.name)) = some 1 := by
    simp only [hmodules, List.findIdx?_cons, List.findIdx?_nil, hb.name, ha.name, hx.name]
    decide
  have hfindB : s.modules.findIdx?
      (fun m => sameIcase (baseName (ascii "b.dll")) (baseName m.name)) = some 0 := by
    simp only [hmodules, List.findIdx?_cons, List.findIdx?_nil, hb.name, ha.name, hx.name]
    decide
  constructor
  · refine ⟨a, 240, 2, [importerDescriptor], importerDescriptor, ascii "b.dll", ?_,
      honeA.directory, honeA.descriptors 0, List.mem_singleton_self _, honeA.dllName, hfindB⟩
    rw [hmodules]
    rfl
  · intro i j h
    obtain ⟨mod, dllName, hmod, hsome, hone, hfind⟩ := importsDll_cases h
    rw [hmodules] at hmod
    match i, hmod with
    | 0, hmod =>
      obtain rfl : b = mod := Option.some.inj hmod
      exfalso
      apply hsome 240 1 (hb.directory (by decide +kernel))
      have hlast : (descriptorAt b.fileData ((240 : UInt32).toNat + 20 * 0)).name = 0 := by
        rw [hb.fileData]
        decide +kernel
      simp only [importDescriptors, entriesUntil, hlast, decide_true, if_true]
    | 1, hmod =>
      obtain rfl : a = mod := Option.some.inj hmod
      rw [hone _ honeA, hfindB] at hfind
      have hj : 0 = j := Option.some.inj hfind
      omega
    | 2, hmod =>
      obtain rfl : x = mod := Option.some.inj hmod
      rw [hone _ (hx.oneImport hfileX), hfindA] at hfind
      have hj : 1 = j := Option.some.inj hfind
      omega
    | i + 3, hmod => cases hmod

/-- An executable that imports a.dll, which imports b.dll: a.dll is initialised first. -/
theorem vmInitDlls_chain : ¬ ∀ (host : LinkHost) fuel s exePath r,
    loaderLoadExecutable host fuel s exePath = some (some r) →
      (∀ i, ¬ Relation.TransGen (ImportsDll r.link) i i) →
        InitsInOrder r.link.image.modules (ImportsDll r.link)
          (vmInitDlls (fun (_ : Unit) _ _ => ((), true)) r.link.image.modules ()).calls := by
  intro h
  obtain ⟨r, x, a, b, hrun, hmodules, hx, ha, hb⟩ := chainHost_run
  obtain ⟨himports, hdown⟩ := chain_imports hmodules hx ha hb
  have hacyclic : ∀ i, ¬ Relation.TransGen (ImportsDll r.link) i i := by
    intro i hcycle
    have hlt : ∀ j, Relation.TransGen (ImportsDll r.link) i j → j < i := by
      intro j hpath
      induction hpath with
      | single hij => exact hdown i _ hij
      | tail _ hjk ih => exact Nat.lt_trans (hdown _ _ hjk) ih
    exact Nat.lt_irrefl i (hlt i hcycle)
  have horder := (initsInOrder_iff _ () r.link.image.modules (ImportsDll r.link)).mp
    (h _ _ _ _ _ hrun hacyclic)
  have himage : r.link.image.modules = [b.toLoadedModule, a.toLoadedModule, x.toLoadedModule] := by
    unfold LinkVm.image
    rw [hmodules]
    rfl
  have hcalls : ∀ (m : LinkModule) (base : UInt32), m.isMainExe = false → m.baseVa = base →
      m.entryPoint = base + 16 → base = 0x500000 ∨ base = 0x600000 →
        m.toLoadedModule.callsEntry = true := by
    intro m base hmain hbase hentry hcase
    unfold LoadedModule.callsEntry
    rw [hmain, hentry, hbase]
    rcases hcase with rfl | rfl <;> decide
  have hfirst : priorityIdxs r.link.image.modules = [] := by
    rw [himage]
    simp only [priorityIdxs, priorityDlls, moduleNamed, List.filterMap_cons, List.filterMap_nil,
      List.findIdx?_cons, List.findIdx?_nil, hb.name, ha.name, hx.name]
    decide
  have hentry : ∀ i m, r.link.image.modules[i]? = some m → m.callsEntry = true →
      HasEntry r.link.image.modules i = true := by
    intro i m hm hcall
    unfold HasEntry
    rw [hm]
    exact hcall
  have hbefore := horder 1 0
    (hentry 1 a.toLoadedModule (by rw [himage]; rfl)
      (hcalls a _ ha.isMainExe ha.baseVa ha.entryPoint (Or.inl rfl)))
    (hentry 0 b.toLoadedModule (by rw [himage]; rfl)
      (hcalls b _ hb.isMainExe hb.baseVa hb.entryPoint (Or.inr rfl))) himports
  unfold InitsBefore at hbefore
  rw [hfirst] at hbefore
  simp at hbefore

end Example

end Wbox.Loader
