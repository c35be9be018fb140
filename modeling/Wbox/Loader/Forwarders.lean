import Mathlib.Data.Set.Finite.Lemmas
import Mathlib.Data.Set.Finite.List
import Wbox.Loader.Exports
import Wbox.Loader.Placement

/-!
# Chains of forwarders

`imports_resolve_function` keeps no record of the forwarders it has followed. It returns exactly
if it comes to no function of a module twice without a load in between, and every load on the way
returns.
-/

namespace Wbox.Loader

open Wbox.Lib Wbox.Nt Wbox.Pe Wbox.Vm

/-- The recursive call a call makes. -/
def nextCall (host : LinkHost) (call : ResolveCall) : Option ResolveCall :=
  match call.step host with
  | some (.forward next) => some next
  | _ => none

/-- The calls made for a call, one inside the other. -/
def callChain (host : LinkHost) (call : ResolveCall) (n : Nat) : Option ResolveCall :=
  orbit (nextCall host) n call

/-- The address a call ends in: its stub, what it exports, or 0. -/
def FinalAddress (host : LinkHost) (call : ResolveCall) (va : UInt32) : Prop :=
  va = 0 ∨ (∃ vm, call.stub host = some (vm, va)) ∨
    call.stub host = none ∧ ∃ entry, call.mod.exports.lookup call.func = some entry ∧
      entry.forwarder = none ∧ va = call.mod.baseVa + entry.rva

/-- The call returns the address of the last function of its chain, or 0. -/
def Resolves (host : LinkHost) (call : ResolveCall) : Prop :=
  ∃ fuel vm va isStub, importsResolveFunction host fuel call = some (vm, va, isStub) ∧
    ∃ n last, callChain host call n = some last ∧ FinalAddress host last va

/-- The DLL a call has to load. -/
def ResolveCall.missing (host : LinkHost) (call : ResolveCall) : Option (List UInt8) :=
  match call.stub host, call.mod.exports.lookup call.func with
  | none, some entry =>
      match entry.forwarder.bind parseForwarder with
      | some (dll, _) => if (call.vm.find dll).isSome then none else some dll
      | none => none
  | _, _ => none

/-- The chain comes to no function of a module twice without a load in between. -/
def NoCallTwice (host : LinkHost) (call : ResolveCall) : Prop :=
  ∀ i j c c', i < j → callChain host call i = some c → callChain host call j = some c' →
    c'.vm.loads = c.vm.loads → c'.mod = c.mod → c'.func ≠ c.func

/-- The relocation blocks of an image the chain loads make no full turn. -/
def LoadsEnd (host : LinkHost) (call : ResolveCall) : Prop :=
  ∀ n c dll path preferredBase buf pe, callChain host call n = some c →
    c.missing host = some dll → host.request dll = some (path, preferredBase) →
      host.imageOf c.vm.image (host.heaps c.vm.loads).1 path = some (buf, pe) →
        Relocates pe (loadBase preferredBase pe) → NoFullTurn buf pe

/-- The memory of the host is finite: there comes a load for which it has none. -/
def HostHeapEnds (host : LinkHost) : Prop := ∃ bound, ∀ n ≥ bound, (host.heaps n).1.module = false

variable {host : LinkHost} {call next last : ResolveCall} {s s' : LinkVm} {dll : List UInt8}

section Loads

/-- A load does not return exactly if it places an image whose relocation blocks make a full
turn. -/
theorem loadPeInternal_eq_none_iff {host : LoaderHost} {r : ImageVm} {heap : HostHeap}
    {path : List UInt8} {preferredBase : UInt32} {isMainExe : Bool} :
    loadPeInternal host r heap path preferredBase isMainExe = none ↔
      ∃ buf pe, host.imageOf r heap path = some (buf, pe) ∧
        Relocates pe (loadBase preferredBase pe) ∧ ¬ NoFullTurn buf pe := by
  unfold loadPeInternal LoaderHost.imageOf
  cases hparse : host.parse heap path with
  | none => simp only [reduceCtorEq, false_and, exists_false]
  | some found =>
    obtain ⟨buf, pe⟩ := found
    dsimp only
    by_cases hmodule : heap.module = false
    · simp only [hmodule, if_true, true_or, reduceCtorEq, false_and, exists_false]
    · by_cases hfull : (pagingAllocPhys r.vm pe.sizeOfImage).2 = 0
      · simp only [hmodule, hfull, if_false, if_true, or_true, reduceCtorEq, false_and,
          exists_false]
      · have hrelocs : ∀ mem, applyRelocations buf pe (pagingAllocPhys r.vm pe.sizeOfImage).2
            (loadBase preferredBase pe) mem = none ↔
              Relocates pe (loadBase preferredBase pe) ∧ ¬ NoFullTurn buf pe := by
          intro mem
          rw [applyRelocations_eq_none_iff, noFullTurn_iff_ends, not_exists]
        rw [if_neg hmodule, if_neg hfull, if_neg (not_or.mpr ⟨hmodule, hfull⟩), placeImage,
          Option.map_eq_none_iff]
        refine (hrelocs _).trans ?_
        constructor
        · exact fun h => ⟨buf, pe, rfl, h⟩
        · rintro ⟨buf', pe', heq, h⟩
          obtain ⟨rfl, rfl⟩ := Prod.mk.inj (Option.some.inj heq)
          exact h

/-- `module_load_by_name` does not return exactly if its image does not. -/
theorem LinkVm.load_eq_none_iff :
    s.load host dll = none ↔
      ∃ path preferredBase buf pe, host.request dll = some (path, preferredBase) ∧
        host.imageOf s.image (host.heaps s.loads).1 path = some (buf, pe) ∧
        Relocates pe (loadBase preferredBase pe) ∧ ¬ NoFullTurn buf pe := by
  unfold LinkVm.load
  cases hrequest : host.request dll with
  | none => simp only [reduceCtorEq, false_and, exists_false]
  | some found =>
    obtain ⟨path, preferredBase⟩ := found
    dsimp only
    rw [Option.map_eq_none_iff, loadPeInternal_eq_none_iff]
    constructor
    · rintro ⟨buf, pe, h⟩
      exact ⟨path, preferredBase, buf, pe, rfl, h⟩
    · rintro ⟨path', base', buf, pe, heq, h⟩
      obtain ⟨rfl, rfl⟩ := Prod.mk.inj (Option.some.inj heq)
      exact ⟨buf, pe, h⟩

/-- A load of a module puts it before the others, and has got memory for it. -/
theorem LinkVm.load_module {mod : LinkModule} (h : s.load host dll = some (s', some mod)) :
    s'.modules = mod :: s.modules ∧ s'.loads = s.loads + 1 ∧
      (host.heaps s.loads).1.module = true := by
  unfold LinkVm.load at h
  cases hrequest : host.request dll with
  | none =>
    rw [hrequest] at h
    cases h
  | some found =>
    obtain ⟨path, preferredBase⟩ := found
    rw [hrequest] at h
    obtain ⟨r, hr, hnew⟩ := Option.map_eq_some_iff.mp h
    split at hnew
    · next mod' hhead hlonger =>
      obtain ⟨hs', hmod⟩ := Prod.mk.inj hnew
      refine ⟨?_, ?_, ?_⟩
      · rw [← hs', ← Option.some.inj hmod]
      · rw [← hs']
      · -- without memory for the module the list of modules does not get longer
        by_contra hfull
        have hmodules : r.modules = s.image.modules := by
          have hnone : host.imageOf s.image (host.heaps s.loads).1 path = none := by
            unfold LoaderHost.imageOf
            cases host.parse (host.heaps s.loads).1 path with
            | none => rfl
            | some found => exact if_pos (Or.inl (Bool.eq_false_iff.mpr hfull))
          rcases loadPeInternal_cases hr with ⟨-, hmodules, -⟩ | ⟨buf, pe, himage, -⟩
          · exact hmodules
          · exact nomatch hnone.symm.trans himage
        rw [hmodules] at hlonger
        have hlength : s.image.modules.length = s.modules.length := List.length_map _
        rw [hlength] at hlonger
        exact absurd (of_decide_eq_true hlonger) (Nat.lt_irrefl _)
    · cases hnew

end Loads

section Steps

/-- What a forwarder leads to. -/
structure Forwards (host : LinkHost) (call next : ResolveCall) : Prop where
  mod : next.mod ∈ next.vm.modules
  vm : next.vm = call.vm ∨ next.vm.loads = call.vm.loads + 1 ∧
    (host.heaps call.vm.loads).1.module = true ∧ ∃ new, next.vm.modules = new :: call.vm.modules
  func : ∃ entry forwarder dll, entry ∈ call.mod.exports.entries ∧
    entry.forwarder = some forwarder ∧ parseForwarder forwarder = some (dll, next.func)

/-- What is found is an entry of the table. -/
theorem ExportTable.lookup_mem {table : ExportTable} {func : FuncRef} {entry : ExportEntry}
    (h : table.lookup func = some entry) : entry ∈ table.entries := by
  cases func with
  | name name => exact List.mem_of_find?_eq_some h
  | ordinal ordinal =>
    have hord : exportsLookupByOrdinal table ordinal = some entry := h
    unfold exportsLookupByOrdinal at hord
    split at hord
    · cases hord
    · split at hord
      · cases hord
      · next found hfound =>
        split at hord
        · cases hord
        · rw [← Option.some.inj hord]
          exact List.mem_of_getElem? hfound

/-- A call that goes on with another one. -/
theorem step_forward (h : call.step host = some (.forward next)) : Forwards host call next := by
  unfold ResolveCall.step at h
  split at h
  · cases h
  · split at h
    · cases h
    · next entry hentry =>
      split at h
      · cases h
      · next forwarder hforwarder =>
        split at h
        · cases h
        · next dll func hparse =>
          have hfunc : ∀ n : ResolveCall, n.func = func → ∃ entry forwarder dll,
              entry ∈ call.mod.exports.entries ∧ entry.forwarder = some forwarder ∧
                parseForwarder forwarder = some (dll, n.func) := by
            intro n hn
            exact ⟨entry, forwarder, dll, ExportTable.lookup_mem hentry, hforwarder,
              hn.symm ▸ hparse⟩
          split at h
          · next mod hfind =>
            cases h
            exact ⟨List.mem_of_find?_eq_some hfind, Or.inl rfl, hfunc _ rfl⟩
          · obtain ⟨loaded, hload, hnext⟩ := Option.map_eq_some_iff.mp h
            obtain ⟨vm, found⟩ := loaded
            cases found with
            | none => cases hnext
            | some mod =>
              cases hnext
              obtain ⟨hmodules, hloads, hheap⟩ := LinkVm.load_module hload
              refine ⟨?_, Or.inr ⟨hloads, hheap, mod, hmodules⟩, hfunc _ rfl⟩
              show mod ∈ vm.modules
              rw [hmodules]
              exact List.mem_cons_self

/-- A call that ends. -/
theorem step_done {vm : LinkVm} {va : UInt32} {isStub : Bool}
    (h : call.step host = some (.done vm va isStub)) : FinalAddress host call va := by
  unfold ResolveCall.step at h
  split at h
  · next hstub =>
    cases h
    exact Or.inr (Or.inl ⟨_, hstub⟩)
  · next hstub =>
    split at h
    · cases h
      exact Or.inl rfl
    · next entry hentry =>
      split at h
      · next hforwarder =>
        cases h
        exact Or.inr (Or.inr ⟨hstub, entry, hentry, hforwarder, rfl⟩)
      · split at h
        · cases h
          exact Or.inl rfl
        · split at h
          · cases h
          · obtain ⟨loaded, -, hnext⟩ := Option.map_eq_some_iff.mp h
            split at hnext
            · cases hnext
            · cases hnext
              exact Or.inl rfl

/-- A call that does not return: the DLL it loads does not. -/
theorem step_eq_none_iff :
    call.step host = none ↔ ∃ dll, call.missing host = some dll ∧ call.vm.load host dll = none := by
  unfold ResolveCall.step ResolveCall.missing
  cases hstub : call.stub host with
  | some made => simp only [reduceCtorEq, false_and, exists_false]
  | none =>
    cases hentry : call.mod.exports.lookup call.func with
    | none => simp only [reduceCtorEq, false_and, exists_false]
    | some entry =>
      dsimp only
      cases hforwarder : entry.forwarder with
      | none => simp only [Option.bind_none, reduceCtorEq, false_and, exists_false]
      | some forwarder =>
        simp only [Option.bind_some]
        cases hparse : parseForwarder forwarder with
        | none => simp only [reduceCtorEq, false_and, exists_false]
        | some parsed =>
          obtain ⟨dll, func⟩ := parsed
          dsimp only
          cases hfind : call.vm.find dll with
          | some mod => simp only [Option.isSome_some, if_true, reduceCtorEq, false_and, exists_false]
          | none =>
            simp only [Option.isSome_none, Bool.false_eq_true, if_false, Option.map_eq_none_iff,
              Option.some_inj, exists_eq_left']

end Steps

section Chains

/-- The next call is what the step says. -/
theorem nextCall_eq_some_iff :
    nextCall host call = some next ↔ call.step host = some (.forward next) := by
  unfold nextCall
  split
  · next found hstep => simp only [hstep, Option.some_inj, ResolveStep.forward.injEq]
  · next hother =>
    constructor
    · exact fun h => nomatch h
    · exact fun h => absurd h (hother next)

/-- A chain ends with a call that is done or does not return. -/
theorem nextCall_eq_none_iff :
    nextCall host call = none ↔
      call.step host = none ∨ ∃ vm va isStub, call.step host = some (.done vm va isStub) := by
  unfold nextCall
  cases hstep : call.step host with
  | none => simp only [true_or]
  | some step =>
    cases step with
    | done vm va isStub => simp
    | forward next => simp

/-- The function returns what the last call of the chain is done with. -/
theorem importsResolveFunction_iff {fuel : Nat} {vm : LinkVm} {va : UInt32} {isStub : Bool} :
    importsResolveFunction host fuel call = some (vm, va, isStub) ↔
      ∃ n < fuel, ∃ last, callChain host call n = some last ∧
        last.step host = some (.done vm va isStub) := by
  induction fuel generalizing call with
  | zero =>
    constructor
    · exact fun h => nomatch h
    · exact fun ⟨n, hn, _⟩ => absurd hn (Nat.not_lt_zero n)
  | succ fuel ih =>
    unfold importsResolveFunction
    constructor
    · intro h
      split at h
      · cases h
      · next hstep =>
        cases h
        exact ⟨0, fuel.succ_pos, call, rfl, hstep⟩
      · next next hstep =>
        obtain ⟨n, hn, last, hlast, hdone⟩ := ih.mp h
        have hchain : callChain host call (n + 1) = callChain host next n := by
          unfold callChain
          rw [orbit_succ, nextCall_eq_some_iff.mpr hstep, Option.bind_some]
        exact ⟨n + 1, Nat.succ_lt_succ hn, last, hchain.trans hlast, hdone⟩
    · intro ⟨n, hn, last, hlast, hdone⟩
      cases n with
      | zero =>
        rw [Option.some.inj hlast, hdone]
      | succ n =>
        obtain ⟨next, hnext, hrest⟩ := Option.bind_eq_some_iff.mp hlast
        rw [nextCall_eq_some_iff.mp hnext]
        exact ih.mpr ⟨n, Nat.lt_of_succ_lt_succ hn, last, hrest, hdone⟩

/-- A step keeps the modules. -/
theorem Forwards.subset (h : Forwards host call next) {mod : LinkModule}
    (hmod : mod ∈ call.vm.modules) : mod ∈ next.vm.modules := by
  rcases h.vm with hvm | ⟨-, -, new, hmodules⟩
  · rw [hvm]
    exact hmod
  · rw [hmodules]
    exact List.mem_cons_of_mem new hmod

/-- A call made for another one: what it asks for is in the tables of the modules. -/
structure MadeFor (call c : ResolveCall) : Prop where
  mod : c.mod ∈ call.mod :: c.vm.modules
  func : c.func = call.func ∨ ∃ mod ∈ call.mod :: c.vm.modules, ∃ entry forwarder dll,
    entry ∈ mod.exports.entries ∧ entry.forwarder = some forwarder ∧
      parseForwarder forwarder = some (dll, c.func)

/-- Every call of the chain is made for the first one. -/
theorem callChain_madeFor {n : Nat} {c : ResolveCall} (h : callChain host call n = some c) :
    MadeFor call c := by
  apply orbit_invariant _ _ h
  · exact ⟨List.mem_cons_self, Or.inl rfl⟩
  · intro c d hc hnext
    have hforward : Forwards host c d := step_forward (nextCall_eq_some_iff.mp hnext)
    have hsubset : ∀ mod ∈ call.mod :: c.vm.modules, mod ∈ call.mod :: d.vm.modules := by
      intro mod hmod
      rcases List.mem_cons.mp hmod with rfl | hmod
      · exact List.mem_cons_self
      · exact List.mem_cons_of_mem _ (hforward.subset hmod)
    exact ⟨List.mem_cons_of_mem _ hforward.mod,
      Or.inr ⟨c.mod, hsubset _ hc.mod, hforward.func⟩⟩

/-- The machine changes at loads only. -/
theorem callChain_loads {n : Nat} {c : ResolveCall} (h : callChain host call n = some c) :
    call.vm.loads ≤ c.vm.loads ∧ (c.vm.loads = call.vm.loads → c.vm = call.vm) := by
  apply orbit_invariant (P := fun c => call.vm.loads ≤ c.vm.loads ∧
    (c.vm.loads = call.vm.loads → c.vm = call.vm)) _ _ h
  · exact ⟨Nat.le_refl _, fun _ => rfl⟩
  · intro c d ⟨hle, hsame⟩ hnext
    rcases (step_forward (nextCall_eq_some_iff.mp hnext)).vm with hvm | ⟨hloads, -⟩
    · rw [hvm]
      exact ⟨hle, hsame⟩
    · constructor
      · omega
      · intro heq
        omega

/-- Calls of the chain with the same number of loads see the same machine. -/
theorem callChain_vm {i j : Nat} {c d : ResolveCall} (hc : callChain host call i = some c)
    (hd : callChain host call j = some d) (hloads : d.vm.loads = c.vm.loads) : d.vm = c.vm := by
  have hlater : ∀ {i j : Nat} {c d : ResolveCall}, i ≤ j → callChain host call i = some c →
      callChain host call j = some d → d.vm.loads = c.vm.loads → d.vm = c.vm := by
    intro i j c d hle hc hd hloads
    obtain ⟨k, rfl⟩ := Nat.exists_eq_add_of_le hle
    unfold callChain at hc hd
    rw [orbit_add, hc, Option.bind_some] at hd
    exact (callChain_loads hd).2 hloads
  rcases Nat.le_total i j with hle | hle
  · exact hlater hle hc hd hloads
  · exact (hlater hle hd hc hloads.symm).symm

/-- There are only as many loads as the host has memory for. -/
theorem callChain_loads_le {bound n : Nat} {c : ResolveCall}
    (hbound : ∀ n ≥ bound, (host.heaps n).1.module = false)
    (h : callChain host call n = some c) : c.vm.loads ≤ max call.vm.loads bound := by
  apply orbit_invariant (P := fun c => c.vm.loads ≤ max call.vm.loads bound) _ _ h
  · exact Nat.le_max_left _ _
  · intro c d hle hnext
    rcases (step_forward (nextCall_eq_some_iff.mp hnext)).vm with hvm | ⟨hloads, hheap, -⟩
    · rw [hvm]
      exact hle
    · have hlt : c.vm.loads < bound := by
        by_contra hge
        exact nomatch hheap.symm.trans (hbound _ (Nat.le_of_not_lt hge))
      omega

end Chains

section Termination

/-- The functions that forwarders of modules name. -/
def forwardRefs (modules : List LinkModule) : List FuncRef :=
  modules.flatMap fun mod => mod.exports.entries.filterMap fun entry =>
    (entry.forwarder.bind parseForwarder).map Prod.snd

/-- A call made for another one asks for the function of this one or of a forwarder. -/
theorem MadeFor.func_mem {c : ResolveCall} (h : MadeFor call c) :
    c.func ∈ call.func :: forwardRefs (call.mod :: c.vm.modules) := by
  rcases h.func with heq | ⟨mod, hmod, entry, forwarder, dll, hentry, hforwarder, hparse⟩
  · rw [heq]
    exact List.mem_cons_self
  · apply List.mem_cons_of_mem
    apply List.mem_flatMap.mpr
    refine ⟨mod, hmod, List.mem_filterMap.mpr ⟨entry, hentry, ?_⟩⟩
    rw [hforwarder, Option.bind_some, hparse, Option.map_some]

/-- Between two loads there are finitely many calls to make. -/
theorem callChain_finite (host : LinkHost) (call : ResolveCall) (loads : Nat) :
    {c | c.vm.loads = loads ∧ ∃ n, callChain host call n = some c}.Finite := by
  by_cases hany : ∃ c n, callChain host call n = some c ∧ c.vm.loads = loads
  · obtain ⟨c₀, n₀, hc₀, hloads₀⟩ := hany
    have hfin : ((fun ref : LinkModule × FuncRef => ResolveCall.mk c₀.vm ref.1 ref.2) ''
        ({mod | mod ∈ call.mod :: c₀.vm.modules} ×ˢ
          {func | func ∈ call.func :: forwardRefs (call.mod :: c₀.vm.modules)})).Finite :=
      ((List.finite_toSet _).prod (List.finite_toSet _)).image _
    apply hfin.subset
    intro c ⟨hloads, n, hc⟩
    have hvm : c.vm = c₀.vm := callChain_vm hc₀ hc (hloads.trans hloads₀.symm)
    have hmade : MadeFor call c := callChain_madeFor hc
    refine ⟨(c.mod, c.func), ⟨?_, ?_⟩, ?_⟩
    · exact hvm ▸ hmade.mod
    · exact hvm ▸ hmade.func_mem
    · rw [← hvm]
  · apply Set.finite_empty.subset
    intro c ⟨hloads, n, hc⟩
    exact hany ⟨c, n, hc, hloads⟩

/-- A chain that comes to no call twice ends. -/
theorem callChain_ends (hheap : HostHeapEnds host) (htwice : NoCallTwice host call) :
    ∃ n, callChain host call n = none := by
  obtain ⟨bound, hbound⟩ := hheap
  apply orbit_ends_of_rank fun c : ResolveCall => c.vm.loads
  · exact fun n c hc => callChain_loads_le hbound hc
  · exact callChain_finite host call
  · intro i j c hlt hi hj
    exact htwice i j c c hlt hi hj rfl rfl rfl

/-- A chain that comes to a call twice does not end. -/
theorem noCallTwice_of_ends {n : Nat} (hend : callChain host call n = none) :
    NoCallTwice host call := by
  intro i j c c' hlt hi hj hloads hmod hfunc
  have hvm : c'.vm = c.vm := callChain_vm hi hj hloads
  have heq : c' = c := by
    cases c
    cases c'
    cases hvm
    cases hmod
    cases hfunc
    rfl
  rw [heq] at hj
  exact orbit_ne_none_of_repeat hlt hi hj n hend

/-- Every load on the way returns exactly if no call of the chain is stuck. -/
theorem loadsEnd_iff :
    LoadsEnd host call ↔ ∀ n c, callChain host call n = some c → c.step host ≠ none := by
  constructor
  · intro h n c hc hstuck
    obtain ⟨dll, hmissing, hload⟩ := step_eq_none_iff.mp hstuck
    obtain ⟨path, preferredBase, buf, pe, hrequest, himage, hrelocates, hturn⟩ :=
      LinkVm.load_eq_none_iff.mp hload
    exact hturn (h n c dll path preferredBase buf pe hc hmissing hrequest himage hrelocates)
  · intro h n c dll path preferredBase buf pe hc hmissing hrequest himage hrelocates
    by_contra hturn
    apply h n c hc
    apply step_eq_none_iff.mpr
    exact ⟨dll, hmissing, LinkVm.load_eq_none_iff.mpr
      ⟨path, preferredBase, buf, pe, hrequest, himage, hrelocates, hturn⟩⟩

/-- The chain of a call that returns ends. -/
theorem ends_of_resolves (h : Resolves host call) :
    ∃ n last, callChain host call n = some last ∧
      ∃ vm va isStub, last.step host = some (.done vm va isStub) := by
  obtain ⟨fuel, vm, va, isStub, hreturns, -⟩ := h
  obtain ⟨n, -, last, hlast, hdone⟩ := importsResolveFunction_iff.mp hreturns
  exact ⟨n, last, hlast, vm, va, isStub, hdone⟩

/-- A call that returns comes to no call twice. -/
theorem noCallTwice_of_resolves (h : Resolves host call) : NoCallTwice host call := by
  obtain ⟨n, last, hlast, hdone⟩ := ends_of_resolves h
  have hend : callChain host call (n + 1) = none := by
    unfold callChain at hlast ⊢
    rw [orbit_succ_right, hlast, Option.bind_some]
    exact nextCall_eq_none_iff.mpr (Or.inr hdone)
  exact noCallTwice_of_ends hend

/-- The loads of a call that returns do. -/
theorem loadsEnd_of_resolves (h : Resolves host call) : LoadsEnd host call := by
  obtain ⟨n, last, hlast, hdone⟩ := ends_of_resolves h
  apply loadsEnd_iff.mpr
  intro i c hc hstuck
  -- a stuck call would be the last one
  have heq : last = c :=
    orbit_last_unique hlast (nextCall_eq_none_iff.mpr (Or.inr hdone)) hc
      (nextCall_eq_none_iff.mpr (Or.inl hstuck))
  obtain ⟨vm, va, isStub, hdone⟩ := hdone
  rw [heq, hstuck] at hdone
  cases hdone

/-- The resolver returns the address its forwarders lead to, or 0, exactly if they lead to no
function twice and the modules they need can be loaded. -/
theorem importsResolveFunction_terminates_iff (hheap : HostHeapEnds host) :
    Resolves host call ↔ NoCallTwice host call ∧ LoadsEnd host call := by
  constructor
  · exact fun h => ⟨noCallTwice_of_resolves h, loadsEnd_of_resolves h⟩
  · intro ⟨htwice, hloads⟩
    obtain ⟨n, last, hlast, hnone⟩ := orbit_last (callChain_ends hheap htwice)
    rcases nextCall_eq_none_iff.mp hnone with hstuck | ⟨vm, va, isStub, hdone⟩
    · exact absurd hstuck (loadsEnd_iff.mp hloads n last hlast)
    · exact ⟨n + 1, vm, va, isStub,
        importsResolveFunction_iff.mpr ⟨n, Nat.lt_succ_self n, last, hlast, hdone⟩,
        n, last, hlast, step_done hdone⟩

end Termination

section Example

/-- A host without files and stubs, and without memory for modules. -/
def bareLinkHost : LinkHost where
  toLoaderHost := hostOf []
  ntdllStubs := []
  win32kStubs := []
  heaps := fun _ => ({ roomyHeap with module := false }, true)

/-- The module a.dll, whose only function f is the given one. -/
def exportsOnly (rva : UInt32) (forwarder : Option (List UInt8)) : LinkModule where
  name := ascii "a.dll"
  pe := smallImage 0x400000
  baseVa := 0x400000
  physBase := 0x200000
  size := 0x1000
  entryPoint := 0
  isMainExe := false
  exports := ⟨1, [⟨some (ascii "f"), 1, rva, forwarder⟩]⟩
  fileData := fun _ => 0
  fileSize := 0

/-- A call for f where a.dll is the only module. -/
def callForF (rva : UInt32) (forwarder : Option (List UInt8)) : ResolveCall where
  vm := {
    vm := (loaderStart fun _ => 0).vm
    modules := [exportsOnly rva forwarder]
    stubs := stubsInit
    stubRegion := fun _ => 0
    loads := 0 }
  mod := exportsOnly rva forwarder
  func := .name (ascii "f")

/-- A function that is no forwarder is found. -/
theorem callForF_resolves : Resolves bareLinkHost (callForF 0x1000 none) := by
  have hlast : nextCall bareLinkHost (callForF 0x1000 none) = none := rfl
  have hchain : ∀ n c, callChain bareLinkHost (callForF 0x1000 none) n = some c →
      n = 0 ∧ c = callForF 0x1000 none := by
    intro n c hc
    cases n with
    | zero => exact ⟨rfl, (Option.some.inj hc).symm⟩
    | succ n =>
      unfold callChain at hc
      rw [orbit_succ, hlast, Option.bind_none] at hc
      cases hc
  apply (importsResolveFunction_terminates_iff ⟨0, fun _ _ => rfl⟩).mpr
  constructor
  · intro i j c c' hlt hi hj
    have hj0 : j = 0 := (hchain j c' hj).1
    omega
  · intro n c dll path preferredBase buf pe hc hmissing
    rw [(hchain n c hc).2] at hmissing
    cases hmissing

/-- A forwarder to itself is followed forever. -/
theorem callForF_self_forward : ¬ ∀ host call, HostHeapEnds host → Resolves host call := by
  intro h
  have hnext : nextCall bareLinkHost (callForF 0x1000 (some (ascii "a.f"))) =
      some (callForF 0x1000 (some (ascii "a.f"))) := rfl
  have htwice : NoCallTwice bareLinkHost (callForF 0x1000 (some (ascii "a.f"))) :=
    noCallTwice_of_resolves (h _ _ ⟨0, fun _ _ => rfl⟩)
  exact htwice 0 1 _ _ Nat.zero_lt_one rfl hnext rfl rfl rfl

end Example

end Wbox.Loader
