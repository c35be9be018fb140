import Mathlib
import Wbox.Codegen.Versions

/-!
# Dead uOPs

`codegen_reg_process_dead_list` (`src/cpu/codegen/codegen_reg.c:874–912`) goes through the dead list
and drops the uOPs whose results nothing needs. A source whose last reader is dropped is put onto
the list as well, but the head is then set to the link of the node that has been processed, so that
the list only ever has the nodes that it had when the block was complete.
-/

namespace Wbox.Codegen

open Wbox.Lib RegTable

/-- A reader of a source is gone, `codegen_reg.c:889–894` and the same for the other sources. -/
def releaseSource (t : RegTable) : Option IrReg → RegTable
  | none => t
  | some o =>
      let count := ((t.version o.reg o.version).refcount + 255) % 256
      let t := t.setVersion o.reg o.version { t.version o.reg o.version with refcount := count }
      if count = 0 then t.addToDeadList o.reg o.version else t

/-- The uOP that made a version is dropped unless it is a barrier, `codegen_reg.c:881–908`. -/
def dropUop (ir : IrData) (n : Ireg × Nat) : IrData :=
  let nr := (ir.table.version n.1 n.2).parentUop
  match ir.uops[nr]? with
  | none => ir
  | some u =>
      if u.type.anyBarrier then ir
      else
        let t := releaseSource (releaseSource (releaseSource ir.table u.srcRegA) u.srcRegB)
          u.srcRegC
        { uops := ir.uops.set nr { u with type := uopInvalid },
          table := t.setVersion n.1 n.2 { t.version n.1 n.2 with dead := true } }

/-- `codegen_reg_process_dead_list`; `none` is a list that has not ended within the steps given. -/
def codegenRegProcessDeadList : Nat → IrData → Option IrData
  | fuel, ir =>
      match ir.table.deadList with
      | none => some ir
      | some n =>
          match fuel with
          | 0 => none
          | fuel + 1 =>
              let ir := dropUop ir n
              codegenRegProcessDeadList fuel
                { ir with table := { ir.table with deadList := ir.table.next n } }

/-- `Unneeded` as a computation. -/
instance decidableUnneeded (r : Ireg) : (us : List Uop) → Decidable (Unneeded r us)
  | [] => isFalse id
  | u :: us =>
      have := decidableUnneeded r us
      inferInstanceAs (Decidable (¬ u.Uses r ∧ _ ∧ (u.Fills r ∨ Unneeded r us)))

section Spec

/-- A uOP whose only effect is a value that nothing needs. -/
def Droppable (u : Uop) (after : List Uop) : Prop :=
  ¬ u.type.anyBarrier ∧ ∃ o ∈ u.destRegA, iregEbx < o.reg.number ∧ Unneeded o.reg after

instance (u : Uop) (after : List Uop) : Decidable (Droppable u after) :=
  inferInstanceAs (Decidable (_ ∧ ∃ o ∈ u.destRegA, _ ∧ _))

/-- A uOP that is not compiled. -/
def Uop.invalidated (u : Uop) : Uop := { u with type := uopInvalid }

/-- The block without the uOPs whose results nothing behind them needs. -/
def sweepUops : List Uop → List Uop
  | [] => []
  | u :: us => (if Droppable u us then u.invalidated else u) :: sweepUops us

end Spec

variable {ir ir' : IrData} {t : RegTable} {us : List Uop} {n : Ireg × Nat} {r : Ireg} {v : Nat}

/-- Nothing reads a register that nothing needs. -/
theorem Unneeded.pending {cur : Ireg → Nat} (h : Unneeded r us) (hnum : Numbered cur us) :
    pending us r (cur r) = 0 := by
  induction us generalizing cur with
  | nil => rfl
  | cons u us ih =>
    have hreads : u.readsOf r (cur r) = 0 :=
      readsOf_eq_zero_iff.mpr fun o ho hn => h.1 (.inl ⟨o, ho, hn.1⟩)
    have hrest : Codegen.pending us r (cur r) = 0 := by
      by_cases hfill : u.Fills r
      · exact pending_of_lt hnum.2.2 (by rw [bump_of_writes hfill.writes]; omega)
      · have hnot : ¬ u.Writes r := fun hw => h.1 (.inr ⟨hw, hfill⟩)
        have hcur : u.bump cur r = cur r := bump_of_not_writes hnot
        rw [← hcur]
        exact ih (h.2.2.resolve_left hfill) hnum.2.2
    simp [Codegen.pending, hreads, hrest]

/-- The nodes of the dead list are not read. -/
theorem Doomed.pending (h : Doomed us n) (hnum : Numbered (fun _ => 0) us) :
    pending us n.1 n.2 = 0 := by
  obtain ⟨-, before, w, after, rfl, ⟨o, ho, hreg, hver⟩, hunneeded⟩ := h
  have hw := hnum.dest ho
  obtain ⟨hbefore, hsources, -, hafter⟩ := numbered_append.mp hnum
  have hbump : w.bump (lastVersions (fun _ => 0) before) n.1 = n.2 := by
    rw [← hreg, bump_of_writes ⟨o, ho, rfl⟩, ← hver, hw]
  have hzero : Codegen.pending before n.1 n.2 = 0 := by
    apply pending_of_gt hbefore
    rw [← hreg, ← hver, hw]
    exact Nat.lt_succ_self _
  have hreads : w.readsOf n.1 n.2 = 0 := by
    apply readsOf_eq_zero_iff.mpr
    rintro x hx ⟨hxr, hxv⟩
    have := hsources x hx
    rw [hxr, hxv, ← hver, hw, hreg] at this
    omega
  have hrest := hunneeded.pending hafter
  rw [hbump] at hrest
  rw [pending_append, Codegen.pending, hzero, hreads, hrest]
  simp

/-- Two uOPs do not make the same version. -/
theorem dest_unique {cur : Ireg → Nat} (hnum : Numbered cur us) {i j : Nat} {u w : Uop}
    (hu : us[i]? = some u) (hw : us[j]? = some w) {o o' : IrReg} (ho : o ∈ u.destRegA)
    (ho' : o' ∈ w.destRegA) (hreg : o.reg = o'.reg) (hver : o.version = o'.version) : i = j := by
  induction us generalizing cur i j with
  | nil => simp at hu
  | cons x us ih =>
    have hlater : ∀ {k : Nat} {y : Uop} {p q : IrReg}, us[k]? = some y → p ∈ x.destRegA →
        q ∈ y.destRegA → p.reg = q.reg → p.version ≠ q.version := by
      intro k y p q hy hp hq hreg heq
      obtain ⟨hk, rfl⟩ := List.getElem?_eq_some_iff.mp hy
      have hsplit : us = us.take k ++ us[k] :: us.drop (k + 1) := by simp
      have hrest := hnum.2.2
      rw [hsplit] at hrest
      have hq' := hrest.dest hq
      have hp' := hnum.2.1 p hp
      have hle := le_lastVersions (x.bump cur) (us.take k) q.reg
      rw [← hreg, bump_of_writes ⟨p, hp, rfl⟩, hreg] at hle
      rw [hreg] at hp'
      omega
    cases i with
    | zero =>
      cases j with
      | zero => rfl
      | succ j =>
        obtain rfl := Option.some.inj hu
        exact absurd hver (hlater (by simpa using hw) ho ho' hreg)
    | succ i =>
      cases j with
      | zero =>
        obtain rfl := Option.some.inj hw
        exact absurd hver.symm (hlater (by simpa using hu) ho' ho hreg.symm)
      | succ j => exact congrArg _ (ih hnum.2.2 (by simpa using hu) (by simpa using hw))

/-- The uOPs that the nodes of a list drop. -/
def DroppedBy (ns : List (Ireg × Nat)) (u : Uop) : Prop :=
  ¬ u.type.anyBarrier ∧ ∃ o ∈ u.destRegA, (o.reg, o.version) ∈ ns

instance (ns : List (Ireg × Nat)) (u : Uop) : Decidable (DroppedBy ns u) :=
  inferInstanceAs (Decidable (_ ∧ ∃ o ∈ u.destRegA, _))

/-- The block when some nodes have been processed. -/
def sweepBy (ns : List (Ireg × Nat)) (u : Uop) : Uop :=
  if DroppedBy ns u then u.invalidated else u

/-- All sources of a uOP are released. -/
def releaseAll (t : RegTable) (os : List IrReg) : RegTable :=
  os.foldl (fun t o => releaseSource t (some o)) t

theorem releaseAll_sources (t : RegTable) (u : Uop) :
    releaseSource (releaseSource (releaseSource t u.srcRegA) u.srcRegB) u.srcRegC =
      releaseAll t u.sources := by
  have hone : ∀ (t : RegTable) (o : Option IrReg),
      o.toList.foldl (fun t o => releaseSource t (some o)) t = releaseSource t o := by
    intro t o
    cases o <;> rfl
  unfold releaseAll Uop.sources
  rw [List.foldl_append, List.foldl_append, hone, hone, hone]

/-- A release changes the links of the source only, and no uOP that a version comes from. -/
theorem releaseSource_some (t : RegTable) (o : IrReg) :
    (∀ r v, ((releaseSource t (some o)).version r v).parentUop = (t.version r v).parentUop) ∧
      ∀ n, n ≠ (o.reg, o.version) → (releaseSource t (some o)).next n = t.next n := by
  unfold releaseSource
  dsimp only
  split
  · refine ⟨fun r v => ?_, fun n hn => ?_⟩
    · unfold addToDeadList
      rw [parentUop_setVersion, parentUop_setVersion] <;> rfl
    · unfold next
      rw [version_addToDeadList_of_ne hn, version_setVersion_of_ne _ hn]
  · refine ⟨fun r v => ?_, fun n hn => ?_⟩
    · rw [parentUop_setVersion]
      rfl
    · unfold next
      rw [version_setVersion_of_ne _ hn]

theorem releaseAll_spec (os : List IrReg) (t : RegTable) :
    (∀ r v, ((releaseAll t os).version r v).parentUop = (t.version r v).parentUop) ∧
      ∀ n, (∀ o ∈ os, (o.reg, o.version) ≠ n) → (releaseAll t os).next n = t.next n := by
  induction os generalizing t with
  | nil => exact ⟨fun _ _ => rfl, fun _ _ => rfl⟩
  | cons o os ih =>
    obtain ⟨hparent, hnext⟩ := releaseSource_some t o
    obtain ⟨hparent', hnext'⟩ := ih (releaseSource t (some o))
    refine ⟨fun r v => (hparent' r v).trans (hparent r v), fun n hn => ?_⟩
    exact (hnext' n fun x hx => hn x (List.mem_cons_of_mem _ hx)).trans
      (hnext n (hn o List.mem_cons_self).symm)

/-- The block and its tables when some nodes have been processed. -/
structure Sweep (ir cur : IrData) (done : List (Ireg × Nat)) : Prop where
  uops : cur.uops = ir.uops.map (sweepBy done)
  parentUop : ∀ r v, (cur.table.version r v).parentUop = (ir.table.version r v).parentUop
  next : ∀ n, Doomed ir.uops n → cur.table.next n = ir.table.next n

theorem sweepBy_nil (u : Uop) : sweepBy [] u = u := if_neg (by simp [DroppedBy])

/-- The uOP that made a node of the dead list. -/
theorem Built.parent_of_doomed (h : Built ir) (hn : Doomed ir.uops n) :
    n.2 < ir.table.lastVersion n.1 ∧
      ∃ w, ir.uops[(ir.table.version n.1 n.2).parentUop]? = some w ∧
        ∃ o ∈ w.destRegA, o.reg = n.1 ∧ o.version = n.2 := by
  have hlt := hn.lt_lastVersions h.numbered
  rw [← h.lastVersion] at hlt
  refine ⟨hlt, h.parent n.1 n.2 ?_ hlt.le⟩
  obtain ⟨-, before, w, after, hsplit, ⟨o, ho, -, hver⟩, -⟩ := hn
  have hnum := h.numbered
  rw [hsplit] at hnum
  have := hnum.dest ho
  omega

/-- Processing a node. -/
theorem Sweep.dropUop {cur : IrData} {done : List (Ireg × Nat)} (h : Built ir)
    (hs : Sweep ir cur done) (hn : Doomed ir.uops n) (hnew : n ∉ done) :
    Sweep ir (dropUop cur n) (n :: done) := by
  obtain ⟨hlt, w, hw, o, ho, hreg, hver⟩ := h.parent_of_doomed hn
  have hmem : w ∈ ir.uops := List.mem_of_getElem? hw
  have hnot : ¬ DroppedBy done w := by
    rintro ⟨-, x, hx, hin⟩
    rw [ho] at hx
    cases hx
    rw [hreg, hver] at hin
    exact hnew hin
  have hcur : cur.uops[(cur.table.version n.1 n.2).parentUop]? = some w := by
    rw [hs.parentUop, hs.uops, List.getElem?_map, hw, Option.map_some, sweepBy, if_neg hnot]
  -- only this uOP makes the version
  have honly : ∀ (i : Nat) (u : Uop), ir.uops[i]? = some u →
      i ≠ (ir.table.version n.1 n.2).parentUop →
      (DroppedBy (n :: done) u ↔ DroppedBy done u) := by
    intro i u hu hi
    unfold DroppedBy
    refine and_congr_right fun _ => exists_congr fun x => and_congr_right fun hx => ?_
    rw [List.mem_cons, or_iff_right]
    intro heq
    exact hi (dest_unique h.numbered hu hw hx ho (by rw [hreg, ← heq]) (by rw [hver, ← heq]))
  unfold Codegen.dropUop
  dsimp only
  rw [hcur]
  dsimp only
  split
  · next hbarrier =>
    have hsame : ∀ u ∈ ir.uops, (DroppedBy (n :: done) u ↔ DroppedBy done u) := by
      intro u hu
      obtain ⟨i, hi⟩ := List.mem_iff_getElem?.mp hu
      by_cases heq : i = (ir.table.version n.1 n.2).parentUop
      · have huw : u = w := Option.some.inj (hi.symm.trans (heq ▸ hw))
        subst huw
        exact ⟨fun hd => absurd hbarrier hd.1, fun hd => absurd hbarrier hd.1⟩
      · exact honly i u hi heq
    refine { hs with uops := ?_ }
    rw [hs.uops]
    apply List.map_congr_left
    intro u hu
    unfold sweepBy
    rw [if_congr (hsame u hu) rfl rfl]
  · next hbarrier =>
    rw [releaseAll_sources]
    have hdropped : DroppedBy (n :: done) w := by
      refine ⟨hbarrier, o, ho, ?_⟩
      rw [hreg, hver]
      exact List.mem_cons_self
    obtain ⟨hparent, hnext⟩ := releaseAll_spec w.sources cur.table
    generalize releaseAll cur.table w.sources = t at hparent hnext
    refine ⟨?_, ?_, ?_⟩
    · apply List.ext_getElem?
      intro i
      rw [List.getElem?_set, hs.parentUop, hs.uops, List.getElem?_map, List.getElem?_map]
      split
      · next hi =>
        subst hi
        rw [List.length_map, if_pos (List.getElem?_eq_some_iff.mp hw).1, hw, Option.map_some,
          sweepBy, if_pos hdropped]
        rfl
      · next hi =>
        cases hu : ir.uops[i]? with
        | none => rfl
        | some u =>
          rw [Option.map_some, Option.map_some]
          unfold sweepBy
          rw [if_congr (honly i u hu fun heq => hi heq.symm) rfl rfl]
    · intro r v
      rw [← hs.parentUop, ← hparent r v, parentUop_setVersion]
      rfl
    · intro m hm
      have hread : ∀ x ∈ w.sources, (x.reg, x.version) ≠ m := by
        rintro x hx rfl
        have hpos := pending_pos hmem (h.valid w hmem) hx
        have hzero := hm.pending h.numbered
        exact absurd hzero (Nat.pos_iff_ne_zero.mp hpos)
      rw [← hs.next m hm, ← hnext m hread]
      dsimp only
      rw [next_setVersion]
      rfl

/-- Processing the dead list from a node on. -/
theorem sweep_list (h : Built ir) {ns : List (Ireg × Nat)} :
    ∀ (done : List (Ireg × Nat)) (cur : IrData) (fuel : Nat), Sweep ir cur done →
      Chain ir.table.next cur.table.deadList ns → (∀ n ∈ ns, Doomed ir.uops n) →
      (∀ n ∈ ns, n ∉ done) → ns.length ≤ fuel →
      ∃ ir', codegenRegProcessDeadList fuel cur = some ir' ∧ Sweep ir ir' (ns.reverse ++ done) := by
  induction ns with
  | nil =>
    intro done cur fuel hs hchain _ _ _
    refine ⟨cur, ?_, hs⟩
    unfold codegenRegProcessDeadList
    rw [show cur.table.deadList = none from hchain]
  | cons n ns ih =>
    intro done cur fuel hs hchain hdoomed hnew hfuel
    obtain ⟨fuel, rfl⟩ : ∃ k, fuel = k + 1 := ⟨fuel - 1, by simp at hfuel; omega⟩
    have hn := hdoomed n List.mem_cons_self
    have hstep := hs.dropUop h hn (hnew n List.mem_cons_self)
    have hnext := hstep.next n hn
    have hrest := hchain.2
    rw [← hnext] at hrest
    obtain ⟨ir', hrun, hsweep⟩ := ih (n :: done)
      { Codegen.dropUop cur n with
        table := { (Codegen.dropUop cur n).table with
          deadList := (Codegen.dropUop cur n).table.next n } }
      fuel
      ⟨hstep.uops, hstep.parentUop, hstep.next⟩
      hrest (fun m hm => hdoomed m (List.mem_cons_of_mem _ hm))
      (fun m hm => by
        rw [List.mem_cons, not_or]
        refine ⟨?_, hnew m (List.mem_cons_of_mem _ hm)⟩
        rintro rfl
        exact (List.nodup_cons.mp hchain.nodup).1 hm)
      (by simpa using hfuel)
    refine ⟨ir', ?_, by simpa using hsweep⟩
    rw [codegenRegProcessDeadList, hchain.1]
    exact hrun

/-- The nodes of the dead list are versions that the block makes, one for each of its uOPs at
most. -/
theorem length_le_of_doomed {ns : List (Ireg × Nat)} (hnodup : ns.Nodup)
    (h : ∀ n ∈ ns, Doomed us n) : ns.length ≤ us.length := by
  have hsub : ns ⊆ us.filterMap fun u => u.destRegA.map fun o => (o.reg, o.version) := by
    intro n hn
    obtain ⟨-, before, w, after, rfl, ⟨o, ho, hreg, hver⟩, -⟩ := h n hn
    refine List.mem_filterMap.mpr ⟨w, by simp, ?_⟩
    rw [ho, Option.map_some, hreg, hver]
  exact (List.subperm_of_subset hnodup hsub).length_le.trans (List.length_filterMap_le _ _)

/-- What the nodes of the dead list drop is what nothing needs. -/
theorem droppedBy_iff (hnum : Numbered (fun _ => 0) us) {ns : List (Ireg × Nat)}
    (hns : ∀ n, n ∈ ns ↔ Doomed us n) {before after : List Uop} {u : Uop}
    (hsplit : us = before ++ u :: after) : DroppedBy ns u ↔ Droppable u after := by
  refine and_congr_right fun _ => exists_congr fun o => and_congr_right fun ho => ?_
  rw [hns]
  constructor
  · rintro ⟨hebx, before', w, after', hsplit', ⟨x, hx, hreg, hver⟩, hunneeded⟩
    have hu : us[before.length]? = some u := by simp [hsplit]
    have hw : us[before'.length]? = some w := by simp [hsplit']
    have hlen := dest_unique hnum hu hw ho hx hreg.symm hver.symm
    have heq : before ++ u :: after = before' ++ w :: after' := hsplit.symm.trans hsplit'
    obtain ⟨-, hrest⟩ := List.append_inj heq hlen
    cases hrest
    exact ⟨hebx, hunneeded⟩
  · rintro ⟨hebx, hunneeded⟩
    exact ⟨hebx, before, u, after, hsplit, ⟨o, ho, rfl, rfl⟩, hunneeded⟩

theorem map_sweepBy (hnum : Numbered (fun _ => 0) us) {ns : List (Ireg × Nat)}
    (hns : ∀ n, n ∈ ns ↔ Doomed us n) (before : List Uop) {after : List Uop}
    (hsplit : us = before ++ after) :
    after.map (sweepBy ns) = sweepUops after := by
  induction after generalizing before with
  | nil => rfl
  | cons u after ih =>
    rw [List.map_cons, sweepUops, ih (before ++ [u]) (by simp [hsplit])]
    unfold sweepBy
    rw [if_congr (droppedBy_iff hnum hns hsplit) rfl rfl]

/-- The first two steps of `codegen_ir_compile` on a block that may have been unrolled,
`codegen_ir.c:87–88`. -/
def sweepBlock (ir : IrData) : Option IrData :=
  codegenRegProcessDeadList ir.uops.length
    { ir with table := ir.table.codegenRegMarkAsRequired }

/-- The dead list comes to its end, and what has been dropped are the uOPs whose results nothing
needs. -/
theorem Built.sweep (h : Built ir) :
    ∃ ir', sweepBlock ir = some ir' ∧ ir'.uops = sweepUops ir.uops := by
  obtain ⟨-, -, hnext, hframe⟩ :=
    showRegisters_frame true ⟨0, true, false, false, false⟩ ir.table
  obtain ⟨ns, hchain, hns⟩ := h.deadList
  obtain ⟨ir', hrun, hs⟩ := sweep_list h []
    { ir with table := ir.table.codegenRegMarkAsRequired } ir.uops.length
    ⟨(List.map_id'' sweepBy_nil _).symm, fun r v => (hframe r v).2, fun n _ => congrFun hnext n⟩
    hchain (fun n hn => (hns n).mp hn) (fun n _ => by simp)
    (length_le_of_doomed hchain.nodup fun n hn => (hns n).mp hn)
  have hmem : ∀ n, n ∈ ns.reverse ++ [] ↔ Doomed ir.uops n := by
    intro n
    rw [List.append_nil, List.mem_reverse]
    exact hns n
  refine ⟨ir', hrun, ?_⟩
  rw [hs.uops]
  exact map_sweepBy h.numbered hmem [] rfl

end Wbox.Codegen
