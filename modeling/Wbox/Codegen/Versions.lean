import Mathlib
import Wbox.Lib.Chain
import Wbox.Codegen.Uops

/-!
# Register versions

The tables of `src/cpu/codegen/codegen_reg.h` and `codegen_reg.c`, and the uOPs that are added to a
block (`src/cpu/codegen/codegen_ir_defs.h`). A version that is replaced without having been read
goes onto the dead list, unless a barrier has shown it.
-/

namespace Wbox.Codegen

open Wbox.Lib

/-- `reg_version_t`, `codegen_reg.h:289–298`. `next` is the link of the dead list, the null link
being the number 0 there. -/
structure RegVersion where
  refcount : Nat
  /-- `REG_FLAGS_REQUIRED`. -/
  required : Bool
  /-- `REG_FLAGS_DEAD`. -/
  dead : Bool
  parentUop : Nat
  next : Option (Ireg × Nat)

/-- `reg_last_version`, `reg_version`, `dirty_ir_regs` and `reg_dead_list`. -/
structure RegTable where
  lastVersion : Ireg → Nat
  version : Ireg → Nat → RegVersion
  dirtyIrRegs : Ireg → Bool
  deadList : Option (Ireg × Nat)

namespace RegTable

/-- A version is replaced. -/
def setVersion (t : RegTable) (r : Ireg) (v : Nat) (x : RegVersion) : RegTable :=
  { t with version := Function.update t.version r (Function.update (t.version r) v x) }

/-- The links of the dead list. -/
def next (t : RegTable) (n : Ireg × Nat) : Option (Ireg × Nat) := (t.version n.1 n.2).next

/-- `add_to_dead_list`, `codegen_reg.h:306–311`. -/
def addToDeadList (t : RegTable) (r : Ireg) (v : Nat) : RegTable :=
  { t.setVersion r v { t.version r v with next := t.deadList } with deadList := some (r, v) }

/-- `codegen_reg_reset`, `codegen_reg.c:248–281`, as far as it is about versions: of the versions
only the counts of the first ones are reset. -/
def codegenRegReset (t : RegTable) : RegTable where
  lastVersion := fun _ => 0
  version := fun r v =>
    if v = 0 then { t.version r v with refcount := 0 } else t.version r v
  dirtyIrRegs := fun _ => false
  deadList := none

/-- `codegen_reg_read`, `codegen_reg.h:325–354`. `none` is a count that overflows. -/
def codegenRegRead (t : RegTable) (o : IrReg) : Option (IrReg × RegTable) :=
  let v := t.lastVersion o.reg
  let x := t.version o.reg v
  if x.refcount + 1 = 256 then none
  else some ({ o with version := v },
    t.setVersion o.reg v { x with refcount := x.refcount + 1, required := false, dead := false })

/-- A register that a barrier has shown is required from its next write on,
`codegen_reg.h:365–370`. -/
def requireShown (t : RegTable) (r : Ireg) : RegTable :=
  let last := t.lastVersion r
  if t.dirtyIrRegs r then
    let t := { t with dirtyIrRegs := Function.update t.dirtyIrRegs r false }
    if (iregEbx < r.number ∧ r.number < iregTemp0) ∧ 0 < last then
      t.setVersion r last { t.version r last with required := true }
    else t
  else t

/-- The version that is replaced may be dead, `codegen_reg.h:374–377`. -/
def dropReplaced (t : RegTable) (o : IrReg) : RegTable :=
  let last := t.lastVersion o.reg
  if iregEbx < o.reg.number ∧ last ≠ 0 ∧ (t.version o.reg last).refcount = 0 ∧
      ¬ (t.version o.reg last).required ∧ o.isNativeSize then
    t.addToDeadList o.reg last
  else t

/-- `codegen_reg_write`, `codegen_reg.h:358–397`. `none` is a version that the table has no room
for. -/
def codegenRegWrite (t : RegTable) (o : IrReg) (uopNr : Nat) : Option (IrReg × RegTable) :=
  let v := t.lastVersion o.reg + 1
  if 256 ≤ v then none
  else
    let t := (t.requireShown o.reg).dropReplaced o
    let t := { t with lastVersion := Function.update t.lastVersion o.reg v }
    some ({ o with version := v },
      t.setVersion o.reg v { t.version o.reg v with
        refcount := 0, required := false, dead := false, parentUop := uopNr })

/-- `codegen_reg_mark_as_required`, `codegen_reg.c:211–223`. -/
def codegenRegMarkAsRequired (t : RegTable) : RegTable :=
  { t with
    version := fun r v =>
      if (iregEbx < r.number ∧ r.number < iregTemp0) ∧ 0 < t.lastVersion r ∧
          v = t.lastVersion r then
        { t.version r v with required := true }
      else t.version r v
    dirtyIrRegs := fun _ => false }

/-- An operand is read, if there is one. -/
def readOperand (t : RegTable) : Option IrReg → Option (Option IrReg × RegTable)
  | none => some (none, t)
  | some o => (t.codegenRegRead o).map fun (o, t) => (some o, t)

/-- An operand is written, if there is one. -/
def writeOperand (t : RegTable) (uopNr : Nat) : Option IrReg → Option (Option IrReg × RegTable)
  | none => some (none, t)
  | some o => (t.codegenRegWrite o uopNr).map fun (o, t) => (some o, t)

end RegTable

/-- `ir_data_t` with the tables of its registers; `wr_pos` is the length of the list. -/
structure IrData where
  uops : List Uop
  table : RegTable

/-- `UOP_NR_MAX`. -/
def uopNrMax : Nat := 4096

/-- What `uop_alloc` and, for the copies of a loop, `uop_alloc_unroll` do to the registers,
`codegen_ir_defs.h:384–385`, `412–413`. -/
def showRegisters (unroll : Bool) (type : UopType) (t : RegTable) : RegTable :=
  if type.anyBarrier then
    if unroll then t.codegenRegMarkAsRequired else { t with dirtyIrRegs := fun _ => true }
  else t

/-- `uop_gen` and its variants, and `duplicate_uop`: a uOP whose operands have no versions yet is
added to the block. -/
def uopGen (unroll : Bool) (ir : IrData) (u : Uop) : Option IrData :=
  if uopNrMax ≤ ir.uops.length then none
  else do
    let t := showRegisters unroll u.type ir.table
    let (srcRegA, t) ← t.readOperand u.srcRegA
    let (srcRegB, t) ← t.readOperand u.srcRegB
    let (srcRegC, t) ← t.readOperand u.srcRegC
    let (destRegA, t) ← t.writeOperand ir.uops.length u.destRegA
    pure { uops := ir.uops ++ [{ u with srcRegA, srcRegB, srcRegC, destRegA }], table := t }

/-- The uOPs of the instructions of a block, `codegen_ir_init` and `codegen_reg_reset` first. -/
def codegenBlock (t : RegTable) (us : List Uop) : Option IrData :=
  us.foldlM (uopGen false) { uops := [], table := t.codegenRegReset }

/-- A copy of the loop from `start` on, `codegen_ir.c:78–83`. -/
def unrollOnce (start unrollEnd : Nat) (ir : IrData) : Option IrData :=
  let offset := ir.uops.length - start
  ((ir.uops.take unrollEnd).drop start).foldlM (fun ir u =>
    uopGen true ir { u with jumpDestUop := u.jumpDestUop.map (· + offset) }) ir

/-- The loop is unrolled, `codegen_ir.c:71–85`; `loopStart` are the uOPs of
`codegen_set_loop_start`. -/
def unrollBlock (count start : Nat) (loopStart : List Uop) (ir : IrData) : Option IrData := do
  let ir ← loopStart.foldlM (uopGen false) ir
  let unrollEnd := ir.uops.length
  (List.range (count - 1)).foldlM (fun ir _ => unrollOnce start unrollEnd ir) ir

/-- A version that no operand reads and no barrier shows before its register is written as a
whole. The versions of `EAX`, `ECX`, `EDX` and `EBX` are kept in any case. -/
def Doomed (us : List Uop) (n : Ireg × Nat) : Prop :=
  iregEbx < n.1.number ∧ ∃ before w after, us = before ++ w :: after ∧
    (∃ o ∈ w.destRegA, o.reg = n.1 ∧ o.version = n.2) ∧ Unneeded n.1 after

/-- The last version of a register is needed although nothing reads it: a barrier shows it. -/
def RegTable.marked (t : RegTable) (r : Ireg) : Prop :=
  (t.version r (t.lastVersion r)).required ∨ ¬ r.isVolatile ∧ t.dirtyIrRegs r

/-- The tables describe the uOPs that have been added. -/
structure Built (ir : IrData) : Prop where
  numbered : Numbered (fun _ => 0) ir.uops
  lastVersion : ir.table.lastVersion = lastVersions (fun _ => 0) ir.uops
  valid : ∀ u ∈ ir.uops, u.type ≠ uopInvalid
  refcount : ∀ r v, v ≤ ir.table.lastVersion r →
    (ir.table.version r v).refcount = pending ir.uops r v
  parent : ∀ r v, 0 < v → v ≤ ir.table.lastVersion r →
    ∃ w, ir.uops[(ir.table.version r v).parentUop]? = some w ∧
      ∃ o ∈ w.destRegA, o.reg = r ∧ o.version = v
  deadList : ∃ ns, Chain ir.table.next ir.table.deadList ns ∧ ∀ n, n ∈ ns ↔ Doomed ir.uops n
  marked : ∀ r, iregEbx < r.number → ∀ before w after, ir.uops = before ++ w :: after →
    w.Writes r → (∀ x ∈ after, ¬ x.Reads r ∧ ¬ x.Writes r) →
    (ir.table.marked r ↔ ¬ r.isVolatile ∧ ∃ x ∈ after, x.type.anyBarrier)

namespace RegTable

variable {t t' t'' : RegTable} {r r' : Ireg} {v v' nr : Nat} {o o' : IrReg} {os os' : List IrReg}

theorem version_setVersion (t : RegTable) (r : Ireg) (v : Nat) (x : RegVersion) (r' : Ireg)
    (v' : Nat) :
    (t.setVersion r v x).version r' v' = if (r', v') = (r, v) then x else t.version r' v' := by
  unfold setVersion
  by_cases hr : r' = r
  · subst hr
    by_cases hv : v' = v
    · subst hv
      simp
    · simp [hv]
  · simp [hr]

theorem version_setVersion_of_ne (x : RegVersion) (h : (r', v') ≠ (r, v)) :
    (t.setVersion r v x).version r' v' = t.version r' v' := by
  rw [version_setVersion, if_neg h]

theorem version_addToDeadList_of_ne (h : (r', v') ≠ (r, v)) :
    (t.addToDeadList r v).version r' v' = t.version r' v' :=
  version_setVersion_of_ne _ h

/-- The links stay as they are where they do not change in what is replaced. -/
theorem next_setVersion {x : RegVersion} (hx : x.next = (t.version r v).next) :
    (t.setVersion r v x).next = t.next := by
  funext ⟨r', v'⟩
  unfold next
  rw [version_setVersion]
  split
  · next heq =>
    cases heq
    exact hx
  · rfl

/-- So does where a version comes from. -/
theorem parentUop_setVersion {x : RegVersion} (hx : x.parentUop = (t.version r v).parentUop)
    (r' : Ireg) (v' : Nat) :
    ((t.setVersion r v x).version r' v').parentUop = (t.version r' v').parentUop := by
  rw [version_setVersion]
  split
  · next heq =>
    cases heq
    exact hx
  · rfl

/-- What reading operands does to the tables. -/
structure ReadsFrom (t t' : RegTable) (os : List IrReg) : Prop where
  lastVersion : t'.lastVersion = t.lastVersion
  dirtyIrRegs : t'.dirtyIrRegs = t.dirtyIrRegs
  deadList : t'.deadList = t.deadList
  next : t'.next = t.next
  parentUop : ∀ r v, (t'.version r v).parentUop = (t.version r v).parentUop
  versions : ∀ o ∈ os, o.version = t.lastVersion o.reg
  refcount : ∀ r v, (t'.version r v).refcount =
    (t.version r v).refcount + os.countP fun o => o.reg = r ∧ o.version = v
  required : ∀ r v, (∀ o ∈ os, ¬ (o.reg = r ∧ o.version = v)) →
    (t'.version r v).required = (t.version r v).required

theorem ReadsFrom.nil (t : RegTable) : ReadsFrom t t [] :=
  ⟨rfl, rfl, rfl, rfl, fun _ _ => rfl, by simp, fun _ _ => rfl, fun _ _ _ => rfl⟩

theorem ReadsFrom.append (h : ReadsFrom t t' os) (h' : ReadsFrom t' t'' os') :
    ReadsFrom t t'' (os ++ os') where
  lastVersion := h'.lastVersion.trans h.lastVersion
  dirtyIrRegs := h'.dirtyIrRegs.trans h.dirtyIrRegs
  deadList := h'.deadList.trans h.deadList
  next := h'.next.trans h.next
  parentUop r v := (h'.parentUop r v).trans (h.parentUop r v)
  versions o ho := by
    rcases List.mem_append.mp ho with ho | ho
    · exact h.versions o ho
    · rw [h'.versions o ho, h.lastVersion]
  refcount r v := by rw [h'.refcount, h.refcount, List.countP_append, Nat.add_assoc]
  required r v hn := by
    rw [h'.required r v fun o ho => hn o (List.mem_append_right _ ho),
      h.required r v fun o ho => hn o (List.mem_append_left _ ho)]

/-- A register that is not read stays marked or not. -/
theorem ReadsFrom.marked (h : ReadsFrom t t' os) (hr : ∀ o ∈ os, o.reg ≠ r) :
    t'.marked r ↔ t.marked r := by
  unfold RegTable.marked
  rw [h.lastVersion, h.dirtyIrRegs, h.required r _ fun o ho hn => hr o ho hn.1]

theorem codegenRegRead_spec (h : t.codegenRegRead o = some (o', t')) : ReadsFrom t t' [o'] := by
  unfold codegenRegRead at h
  dsimp only at h
  split at h
  · cases h
  · cases h
    refine ⟨rfl, rfl, rfl, next_setVersion rfl, parentUop_setVersion rfl, ?_, ?_, ?_⟩
    · intro x hx
      rw [List.mem_singleton.mp hx]
    · intro r v
      rw [version_setVersion]
      by_cases hn : (r, v) = (o.reg, t.lastVersion o.reg)
      · cases hn
        simp
      · have hne : ¬ (o.reg = r ∧ t.lastVersion o.reg = v) := by
          rintro ⟨rfl, rfl⟩
          exact hn rfl
        simp [hn, hne]
    · intro r v hne
      rw [version_setVersion, if_neg]
      intro heq
      cases heq
      exact hne _ (List.mem_singleton_self _) ⟨rfl, rfl⟩

theorem readOperand_spec {o o' : Option IrReg} (h : t.readOperand o = some (o', t')) :
    ReadsFrom t t' o'.toList := by
  cases o with
  | none =>
    cases h
    exact .nil t
  | some o =>
    obtain ⟨⟨x, t''⟩, hread, heq⟩ := Option.map_eq_some_iff.mp h
    cases heq
    exact codegenRegRead_spec hread

/-- The version that a write replaces goes onto the dead list. -/
def Drops (t : RegTable) (o : IrReg) : Prop :=
  iregEbx < o.reg.number ∧ 0 < t.lastVersion o.reg ∧
    (t.version o.reg (t.lastVersion o.reg)).refcount = 0 ∧ ¬ t.marked o.reg ∧ o.isNativeSize

/-- What a write does to the tables. -/
structure WritesTo (t t' : RegTable) (nr : Nat) (o : IrReg) : Prop where
  version : o.version = t.lastVersion o.reg + 1
  lastVersion : t'.lastVersion = Function.update t.lastVersion o.reg o.version
  refcount : (t'.version o.reg o.version).refcount = 0
  parentUop : (t'.version o.reg o.version).parentUop = nr
  unmarked : ¬ t'.marked o.reg
  other : ∀ r v, (r, v) ≠ (o.reg, o.version) →
    (t'.version r v).refcount = (t.version r v).refcount ∧
      (t'.version r v).parentUop = (t.version r v).parentUop
  otherMarked : ∀ r, r ≠ o.reg → (t'.marked r ↔ t.marked r)
  dropped : t.Drops o → t'.deadList = some (o.reg, t.lastVersion o.reg) ∧
    t'.next (o.reg, t.lastVersion o.reg) = t.deadList ∧
    ∀ n, n ≠ (o.reg, t.lastVersion o.reg) → t'.next n = t.next n
  kept : ¬ t.Drops o → t'.deadList = t.deadList ∧ t'.next = t.next

/-- What requiring a register that has been shown does to the tables. -/
structure Shown (t t' : RegTable) (r : Ireg) : Prop where
  lastVersion : t'.lastVersion = t.lastVersion
  deadList : t'.deadList = t.deadList
  next : t'.next = t.next
  same : ∀ r' v, (t'.version r' v).refcount = (t.version r' v).refcount ∧
    (t'.version r' v).parentUop = (t.version r' v).parentUop
  required : iregEbx < r.number → 0 < t.lastVersion r →
    ((t'.version r (t.lastVersion r)).required ↔ t.marked r)
  dirty : t'.dirtyIrRegs r = false
  otherMarked : ∀ r', r' ≠ r → (t'.marked r' ↔ t.marked r')

theorem requireShown_spec (t : RegTable) (r : Ireg) : Shown t (t.requireShown r) r := by
  unfold requireShown
  dsimp only
  split
  · next hdirty =>
    split
    · next hlast =>
      have hperm : ¬ r.isVolatile := by
        rw [isVolatile_iff]
        omega
      refine ⟨rfl, rfl, next_setVersion rfl, ?_, ?_, Function.update_self .., ?_⟩
      · intro r' v
        rw [version_setVersion]
        split
        · next heq => cases heq; exact ⟨rfl, rfl⟩
        · exact ⟨rfl, rfl⟩
      · simp [RegTable.marked, setVersion, hperm, hdirty]
      · intro r' hr
        simp [RegTable.marked, setVersion, hr]
    · next hlast =>
      refine ⟨rfl, rfl, rfl, fun _ _ => ⟨rfl, rfl⟩, ?_, Function.update_self .., ?_⟩
      · intro hebx hpos
        have hvol : r.isVolatile := by
          rw [isVolatile_iff]
          omega
        simp [RegTable.marked, hvol]
      · intro r' hr
        simp [RegTable.marked, hr]
  · next hclean =>
    have hfalse : t.dirtyIrRegs r = false := by simpa using hclean
    refine ⟨rfl, rfl, rfl, fun _ _ => ⟨rfl, rfl⟩, ?_, hfalse, fun _ _ => Iff.rfl⟩
    simp [RegTable.marked, hfalse]

theorem codegenRegWrite_spec (h : t.codegenRegWrite o nr = some (o', t')) :
    WritesTo t t' nr o' := by
  unfold codegenRegWrite at h
  dsimp only at h
  split at h
  · cases h
  · have hs := requireShown_spec t o.reg
    generalize t.requireShown o.reg = ts at h hs
    have hdrops : t.Drops o ↔ iregEbx < o.reg.number ∧ ts.lastVersion o.reg ≠ 0 ∧
        (ts.version o.reg (ts.lastVersion o.reg)).refcount = 0 ∧
        ¬ (ts.version o.reg (ts.lastVersion o.reg)).required ∧ o.isNativeSize := by
      unfold Drops
      rw [hs.lastVersion, (hs.same _ _).1, Nat.pos_iff_ne_zero]
      refine and_congr_right fun hebx => and_congr_right fun hpos => ?_
      rw [hs.required hebx (Nat.pos_of_ne_zero hpos)]
    -- the dead list behind the write; of the versions only the link changes
    obtain ⟨td, htd, hlast, hdirty, hdrop, hkeep, hlink⟩ : ∃ td, ts.dropReplaced o = td ∧
        td.lastVersion = ts.lastVersion ∧ td.dirtyIrRegs = ts.dirtyIrRegs ∧
        (t.Drops o → td.deadList = some (o.reg, t.lastVersion o.reg) ∧
          td.next (o.reg, t.lastVersion o.reg) = ts.deadList ∧
          ∀ n, n ≠ (o.reg, t.lastVersion o.reg) → td.next n = ts.next n) ∧
        (¬ t.Drops o → td.deadList = ts.deadList ∧ td.next = ts.next) ∧
        ∀ r v, ∃ n, td.version r v = { ts.version r v with next := n } := by
      refine ⟨_, rfl, ?_⟩
      unfold dropReplaced
      dsimp only
      split
      · next hcond =>
        rw [← hs.lastVersion]
        refine ⟨rfl, rfl, fun _ => ⟨rfl, ?_, ?_⟩, fun hn => absurd (hdrops.mpr hcond) hn, ?_⟩
        · simp [addToDeadList, next, setVersion]
        · rintro ⟨r, v⟩ hn
          exact congrArg RegVersion.next (version_setVersion_of_ne _ hn)
        · intro r v
          unfold addToDeadList
          dsimp only
          rw [version_setVersion]
          split
          · next heq => cases heq; exact ⟨_, rfl⟩
          · exact ⟨_, rfl⟩
      · next hcond =>
        exact ⟨rfl, rfl, fun hd => absurd (hdrops.mp hd) hcond, fun _ => ⟨rfl, rfl⟩,
          fun _ _ => ⟨_, rfl⟩⟩
    rw [htd] at h
    cases h
    have hlinks :
        (({ td with lastVersion := Function.update td.lastVersion o.reg (t.lastVersion o.reg + 1) }
          : RegTable).setVersion o.reg (t.lastVersion o.reg + 1)
            { td.version o.reg (t.lastVersion o.reg + 1) with
              refcount := 0, required := false, dead := false, parentUop := nr }).next = td.next :=
      next_setVersion rfl
    refine ⟨rfl, ?_, ?_, ?_, ?_, ?_, ?_, ?_, ?_⟩
    · exact congrArg (Function.update · _ _) (hlast.trans hs.lastVersion)
    · simp [setVersion]
    · simp [setVersion]
    · simp [RegTable.marked, setVersion, hdirty, hs.dirty]
    · intro r v hn
      obtain ⟨n, heq⟩ := hlink r v
      rw [version_setVersion_of_ne _ hn, heq]
      exact hs.same r v
    · intro r hr
      obtain ⟨n, heq⟩ := hlink r (ts.lastVersion r)
      rw [← hs.otherMarked r hr]
      simp [RegTable.marked, setVersion, hr, hlast, hdirty, heq]
    · intro hd
      obtain ⟨hhead, hlink, hrest⟩ := hdrop hd
      refine ⟨hhead, (congrFun hlinks _).trans (hlink.trans hs.deadList),
        fun n hn => (congrFun hlinks n).trans ?_⟩
      exact (hrest n hn).trans (congrFun hs.next n)
    · intro hd
      obtain ⟨hhead, hlink⟩ := hkeep hd
      exact ⟨hhead.trans hs.deadList, hlinks.trans (hlink.trans hs.next)⟩

theorem writeOperand_spec {o o' : Option IrReg} (h : t.writeOperand nr o = some (o', t')) :
    (o' = none ∧ t' = t) ∨ ∃ x, o' = some x ∧ WritesTo t t' nr x := by
  cases o with
  | none =>
    cases h
    exact .inl ⟨rfl, rfl⟩
  | some o =>
    obtain ⟨⟨x, t''⟩, hwrite, heq⟩ := Option.map_eq_some_iff.mp h
    cases heq
    exact .inr ⟨x, rfl, codegenRegWrite_spec hwrite⟩

end RegTable

open RegTable

/-- What adding a uOP to a block does. -/
structure Adds (unroll : Bool) (ir ir' : IrData) (u' : Uop) (t : RegTable) : Prop where
  uops : ir'.uops = ir.uops ++ [u']
  reads : ReadsFrom (showRegisters unroll u'.type ir.table) t u'.sources
  writes : (u'.destRegA = none ∧ ir'.table = t) ∨
    ∃ o, u'.destRegA = some o ∧ WritesTo t ir'.table ir.uops.length o

theorem uopGen_cases {unroll : Bool} {ir ir' : IrData} {u : Uop}
    (h : uopGen unroll ir u = some ir') :
    ∃ u' t, u'.type = u.type ∧ Adds unroll ir ir' u' t := by
  unfold uopGen at h
  split at h
  · cases h
  · obtain ⟨⟨a, ta⟩, ha, h⟩ := Option.bind_eq_some_iff.mp h
    obtain ⟨⟨b, tb⟩, hb, h⟩ := Option.bind_eq_some_iff.mp h
    obtain ⟨⟨c, tc⟩, hc, h⟩ := Option.bind_eq_some_iff.mp h
    obtain ⟨⟨d, td⟩, hd, h⟩ := Option.bind_eq_some_iff.mp h
    cases h
    exact ⟨{ u with srcRegA := a, srcRegB := b, srcRegC := c, destRegA := d }, tc, rfl, rfl,
      ((readOperand_spec ha).append (readOperand_spec hb)).append (readOperand_spec hc),
      writeOperand_spec hd⟩

section Show

variable {unroll : Bool} {type : UopType} {t : RegTable} {r : Ireg} {v : Nat}

/-- Showing the registers only sets flags. -/
theorem showRegisters_frame (unroll : Bool) (type : UopType) (t : RegTable) :
    (showRegisters unroll type t).lastVersion = t.lastVersion ∧
      (showRegisters unroll type t).deadList = t.deadList ∧
      (showRegisters unroll type t).next = t.next ∧
      ∀ r v, ((showRegisters unroll type t).version r v).refcount = (t.version r v).refcount ∧
        ((showRegisters unroll type t).version r v).parentUop = (t.version r v).parentUop := by
  unfold showRegisters
  split
  · split
    · refine ⟨rfl, rfl, ?_, ?_⟩
      · funext ⟨r, v⟩
        unfold next codegenRegMarkAsRequired
        dsimp only
        split <;> rfl
      · intro r v
        unfold codegenRegMarkAsRequired
        dsimp only
        split <;> exact ⟨rfl, rfl⟩
    · exact ⟨rfl, rfl, rfl, fun _ _ => ⟨rfl, rfl⟩⟩
  · exact ⟨rfl, rfl, rfl, fun _ _ => ⟨rfl, rfl⟩⟩

/-- A barrier marks every register that is seen outside the block. -/
theorem showRegisters_marked (unroll : Bool) (hebx : iregEbx < r.number)
    (hlast : 0 < t.lastVersion r) : (showRegisters unroll type t).marked r ↔
      t.marked r ∨ ¬ r.isVolatile ∧ type.anyBarrier := by
  unfold showRegisters
  by_cases hb : type.anyBarrier
  · rw [if_pos hb]
    by_cases hvol : r.isVolatile
    · have htemp : ¬ r.number < iregTemp0 := not_lt.mpr (isVolatile_iff.mp hvol)
      cases unroll <;> simp [RegTable.marked, codegenRegMarkAsRequired, hvol, htemp]
    · have htemp : r.number < iregTemp0 := not_le.mp fun hn => hvol (isVolatile_iff.mpr hn)
      cases unroll <;>
        simp [RegTable.marked, codegenRegMarkAsRequired, hvol, htemp, hebx, hlast, hb]
  · rw [if_neg hb]
    simp [hb]

end Show

namespace Adds

variable {unroll : Bool} {ir ir' : IrData} {u : Uop} {t : RegTable} {r : Ireg} {v : Nat}

theorem lastVersion_mid (ha : Adds unroll ir ir' u t) : t.lastVersion = ir.table.lastVersion :=
  ha.reads.lastVersion.trans (showRegisters_frame ..).1

theorem lastVersion (ha : Adds unroll ir ir' u t) :
    ir'.table.lastVersion = u.bump ir.table.lastVersion := by
  rcases ha.writes with ⟨hd, htable⟩ | ⟨o, hd, hw⟩
  · rw [htable, ha.lastVersion_mid, bump_of_none hd]
  · rw [hw.lastVersion, bump_of_some hd, hw.version, ha.lastVersion_mid]

theorem refcount_mid (ha : Adds unroll ir ir' u t) (r : Ireg) (v : Nat) :
    (t.version r v).refcount = (ir.table.version r v).refcount + u.readsOf r v := by
  rw [ha.reads.refcount, ((showRegisters_frame ..).2.2.2 r v).1]
  rfl

theorem ne_of_old (ha : Adds unroll ir ir' u t) {o : IrReg} {nr : Nat}
    (hw : WritesTo t ir'.table nr o) (hv : v ≤ ir.table.lastVersion r) : (r, v) ≠ (o.reg, o.version) := by
  intro heq
  cases heq
  rw [hw.version, ha.lastVersion_mid] at hv
  omega

/-- The counts, of versions that were there before. -/
theorem refcount_old (ha : Adds unroll ir ir' u t) (hv : v ≤ ir.table.lastVersion r) :
    (ir'.table.version r v).refcount = (ir.table.version r v).refcount + u.readsOf r v := by
  rcases ha.writes with ⟨-, htable⟩ | ⟨o, -, hw⟩
  · rw [htable, ha.refcount_mid]
  · rw [(hw.other r v (ha.ne_of_old hw hv)).1, ha.refcount_mid]

/-- The version of a register that the uOP does not write, or the one that it makes. -/
theorem new_or_old (ha : Adds unroll ir ir' u t) (hv : v ≤ ir'.table.lastVersion r) :
    v ≤ ir.table.lastVersion r ∨ ∃ o, u.destRegA = some o ∧ WritesTo t ir'.table ir.uops.length o ∧
      o.reg = r ∧ o.version = v := by
  rcases ha.writes with ⟨-, htable⟩ | ⟨o, hd, hw⟩
  · rw [htable, ha.lastVersion_mid] at hv
    exact .inl hv
  · by_cases hr : o.reg = r
    · subst hr
      rw [hw.lastVersion, Function.update_self] at hv
      rcases Nat.lt_or_eq_of_le hv with hlt | heq
      · left
        rw [hw.version, ha.lastVersion_mid] at hlt
        omega
      · exact .inr ⟨o, hd, hw, rfl, heq.symm⟩
    · rw [hw.lastVersion, Function.update_of_ne (Ne.symm hr), ha.lastVersion_mid] at hv
      exact .inl hv

theorem parent_old (ha : Adds unroll ir ir' u t) (hv : v ≤ ir.table.lastVersion r) :
    (ir'.table.version r v).parentUop = (ir.table.version r v).parentUop := by
  have hmid : (t.version r v).parentUop = (ir.table.version r v).parentUop :=
    (ha.reads.parentUop r v).trans ((showRegisters_frame ..).2.2.2 r v).2
  rcases ha.writes with ⟨-, htable⟩ | ⟨o, -, hw⟩
  · rw [htable, hmid]
  · rw [(hw.other r v (ha.ne_of_old hw hv)).2, hmid]

/-- The mark of a register that the uOP does not read. -/
theorem marked_mid (ha : Adds unroll ir ir' u t) (hreads : ¬ u.Reads r) (hebx : iregEbx < r.number)
    (hlast : 0 < ir.table.lastVersion r) :
    t.marked r ↔ ir.table.marked r ∨ ¬ r.isVolatile ∧ u.type.anyBarrier := by
  rw [ha.reads.marked fun o ho hr => hreads ⟨o, ho, hr⟩, showRegisters_marked unroll hebx hlast]

/-- Nor writes. -/
theorem marked (ha : Adds unroll ir ir' u t) (hreads : ¬ u.Reads r) (hwrites : ¬ u.Writes r)
    (hebx : iregEbx < r.number) (hlast : 0 < ir.table.lastVersion r) :
    ir'.table.marked r ↔ ir.table.marked r ∨ ¬ r.isVolatile ∧ u.type.anyBarrier := by
  rw [← ha.marked_mid hreads hebx hlast]
  rcases ha.writes with ⟨-, htable⟩ | ⟨o, hd, hw⟩
  · rw [htable]
  · exact hw.otherMarked r fun heq => hwrites ⟨o, hd, heq.symm⟩

end Adds

section Build

variable {unroll : Bool} {ir ir' : IrData} {u : Uop} {t : RegTable} {r : Ireg} {v : Nat}

/-- Behind the last write of a register that is not read, nothing reads it. -/
theorem Built.not_reads (h : Built ir) {before after : List Uop} {w : Uop}
    (hsplit : ir.uops = before ++ w :: after) (hafter : ∀ x ∈ after, ¬ x.Writes r)
    (hw : w.Writes r) (hcount : pending ir.uops r (ir.table.lastVersion r) = 0) :
    ∀ x ∈ after, ¬ x.Reads r := by
  rintro x hx ⟨o, ho, rfl⟩
  have hmem : x ∈ ir.uops := by rw [hsplit]; simp [hx]
  have hpos := pending_pos hmem (h.valid x hmem) ho
  obtain ⟨xs, ys, rfl⟩ := List.append_of_mem hx
  have hnum := h.numbered
  rw [hsplit, ← List.cons_append, ← List.append_assoc] at hnum
  have hver := hnum.source ho
  rw [lastVersions_append, lastVersions_cons,
    lastVersions_of_not_writes (fun y hy => hafter y (by simp [hy]))] at hver
  have hlast : ir.table.lastVersion o.reg = o.version := by
    rw [h.lastVersion, hsplit, lastVersions_append, lastVersions_cons,
      lastVersions_of_not_writes hafter, hver]
  rw [hlast] at hcount
  omega

/-- And where nothing behind it does, no operand reads it. -/
theorem Built.pending_last (h : Built ir) {before after : List Uop} {w : Uop}
    (hsplit : ir.uops = before ++ w :: after) (hafter : ∀ x ∈ after, Quiet r x)
    (hw : w.Writes r) : pending ir.uops r (ir.table.lastVersion r) = 0 := by
  have hnum := h.numbered
  rw [hsplit] at hnum
  have hlast : ir.table.lastVersion r = lastVersions (fun _ => 0) before r + 1 := by
    rw [h.lastVersion, hsplit, lastVersions_append, lastVersions_cons,
      lastVersions_of_not_writes fun x hx => (hafter x hx).2.1, bump_of_writes hw]
  have hbefore : pending before r (ir.table.lastVersion r) = 0 :=
    pending_of_gt (numbered_append.mp hnum).1 (by omega)
  have hw' : w.readsOf r (ir.table.lastVersion r) = 0 := by
    apply readsOf_eq_zero_iff.mpr
    rintro o ho ⟨rfl, hv⟩
    have := hnum.source ho
    omega
  have hrest : pending after r (ir.table.lastVersion r) = 0 := by
    clear hsplit hnum
    induction after with
    | nil => rfl
    | cons x xs ih =>
      have hx : x.readsOf r (ir.table.lastVersion r) = 0 :=
        readsOf_eq_zero_iff.mpr fun o ho hn => (hafter x List.mem_cons_self).1 ⟨o, ho, hn.1⟩
      simp [pending, hx, ih fun y hy => hafter y (List.mem_cons_of_mem _ hy)]
  rw [hsplit, pending_append, pending, hbefore, hw', hrest]
  simp

/-- The version that a write replaces is doomed exactly if it goes onto the dead list. -/
theorem Built.drops_iff (h : Built ir) (ha : Adds unroll ir ir' u t) {o : IrReg}
    (ho : u.destRegA = some o) :
    t.Drops o ↔ iregEbx < o.reg.number ∧ ∃ before w after, ir.uops = before ++ w :: after ∧
      w.Writes o.reg ∧ (∀ x ∈ after, Quiet o.reg x) ∧ ¬ u.Uses o.reg ∧
      (o.reg.isVolatile ∨ ¬ u.type.anyBarrier) ∧ u.Fills o.reg := by
  have hwrites : u.Writes o.reg := ⟨o, ho, rfl⟩
  have hfills : u.Fills o.reg ↔ o.isNativeSize := by
    simp [Uop.Fills, ho]
  have hcount := ha.refcount_mid o.reg (ir.table.lastVersion o.reg)
  rw [h.refcount _ _ (Nat.le_refl _)] at hcount
  unfold Drops
  rw [ha.lastVersion_mid, hcount]
  constructor
  · rintro ⟨hebx, hpos, hzero, hmark, hnative⟩
    have hlast := hpos
    rw [h.lastVersion] at hlast
    obtain ⟨before, w, after, hsplit, hw, hafter⟩ := exists_last_write (fun _ => 0) ir.uops hlast
    rw [← h.lastVersion] at hlast
    have hnotReads := h.not_reads hsplit hafter hw (by omega)
    have huReads : ¬ u.Reads o.reg := by
      rintro ⟨x, hx, hxr⟩
      have hver := ha.reads.versions x hx
      rw [(showRegisters_frame ..).1, hxr] at hver
      exact readsOf_eq_zero_iff.mp (by omega : u.readsOf o.reg (ir.table.lastVersion o.reg) = 0)
        x hx ⟨hxr, hver⟩
    rw [ha.marked_mid huReads hebx hlast, h.marked o.reg hebx before w after hsplit hw
      fun x hx => ⟨hnotReads x hx, hafter x hx⟩] at hmark
    refine ⟨hebx, before, w, after, hsplit, hw, fun x hx => ⟨hnotReads x hx, hafter x hx, ?_⟩,
      ?_, ?_, hfills.mpr hnative⟩
    · by_contra hn
      obtain ⟨hperm, hbarrier⟩ := not_or.mp hn
      exact hmark (.inl ⟨hperm, x, hx, not_not.mp hbarrier⟩)
    · rintro (hn | ⟨-, hn⟩)
      · exact huReads hn
      · exact hn (hfills.mpr hnative)
    · by_contra hn
      obtain ⟨hperm, hbarrier⟩ := not_or.mp hn
      exact hmark (.inr ⟨hperm, not_not.mp hbarrier⟩)
  · rintro ⟨hebx, before, w, after, hsplit, hw, hquiet, huses, hu, hfill⟩
    have hlast : ir.table.lastVersion o.reg = lastVersions (fun _ => 0) before o.reg + 1 := by
      rw [h.lastVersion, hsplit, lastVersions_append, lastVersions_cons,
        lastVersions_of_not_writes fun x hx => (hquiet x hx).2.1, bump_of_writes hw]
    have hzero := h.pending_last hsplit hquiet hw
    have hreads : u.readsOf o.reg (ir.table.lastVersion o.reg) = 0 :=
      readsOf_eq_zero_iff.mpr fun x hx hn => huses (.inl ⟨x, hx, hn.1⟩)
    refine ⟨hebx, by omega, by omega, ?_, hfills.mp hfill⟩
    rw [ha.marked_mid (fun hn => huses (.inl hn)) hebx (by omega),
      h.marked o.reg hebx before w after hsplit hw fun x hx => ⟨(hquiet x hx).1, (hquiet x hx).2.1⟩]
    rintro (⟨hperm, x, hx, hbarrier⟩ | ⟨hperm, hbarrier⟩)
    · exact (hquiet x hx).2.2.resolve_left hperm hbarrier
    · exact hu.resolve_left hperm hbarrier

/-- A node of the dead list is not the last version of its register. -/
theorem Doomed.lt_lastVersions {us : List Uop} {n : Ireg × Nat} (h : Doomed us n)
    (hnum : Numbered (fun _ => 0) us) : n.2 < lastVersions (fun _ => 0) us n.1 := by
  obtain ⟨-, before, w, after, rfl, ⟨o, ho, hreg, hver⟩, hunneeded⟩ := h
  have hw := hnum.dest ho
  rw [lastVersions_append, lastVersions_cons]
  have hbump : w.bump (lastVersions (fun _ => 0) before) n.1 = n.2 := by
    rw [← hreg, bump_of_writes ⟨o, ho, rfl⟩, ← hver, hw]
  have hlater : ∀ (us : List Uop) (cur : Ireg → Nat), Unneeded n.1 us →
      cur n.1 < lastVersions cur us n.1 := by
    intro us
    induction us with
    | nil => exact fun _ hn => hn.elim
    | cons u us ih =>
      intro cur hu
      rw [lastVersions_cons]
      rcases hu.2.2 with hfill | hrest
      · have hle := le_lastVersions (u.bump cur) us n.1
        rw [bump_of_writes hfill.writes] at hle
        omega
      · exact Nat.lt_of_le_of_lt (le_bump u cur n.1) (ih _ hrest)
  have hlt := hlater after (w.bump (lastVersions (fun _ => 0) before)) hunneeded
  rwa [hbump] at hlt

/-- The nodes of the dead list when a uOP has been added. -/
theorem doomed_concat {us : List Uop} {u : Uop} {n : Ireg × Nat}
    (hnum : Numbered (fun _ => 0) us) :
    Doomed (us ++ [u]) n ↔ Doomed us n ∨ iregEbx < n.1.number ∧
      n.2 = lastVersions (fun _ => 0) us n.1 ∧ ∃ before w after, us = before ++ w :: after ∧
        w.Writes n.1 ∧ (∀ x ∈ after, Quiet n.1 x) ∧ ¬ u.Uses n.1 ∧
        (n.1.isVolatile ∨ ¬ u.type.anyBarrier) ∧ u.Fills n.1 := by
  constructor
  · rintro ⟨hebx, before, w, after, hsplit, ⟨o, ho, hreg, hver⟩, hunneeded⟩
    rcases split_concat hsplit with ⟨-, -, rfl⟩ | ⟨rest, rfl, rfl⟩
    · exact hunneeded.elim
    · rcases unneeded_concat.mp hunneeded with hrest | ⟨hquiet, huses, hu, hfill⟩
      · exact .inl ⟨hebx, before, w, rest, rfl, ⟨o, ho, hreg, hver⟩, hrest⟩
      · refine .inr ⟨hebx, ?_, before, w, rest, rfl, ⟨o, ho, hreg⟩, hquiet, huses, hu, hfill⟩
        rw [← hver, ← hreg]
        exact hnum.dest_last ho fun x hx => hreg ▸ (hquiet x hx).2.1
  · rintro (⟨hebx, before, w, after, rfl, hw, hunneeded⟩ |
      ⟨hebx, hver, before, w, after, rfl, ⟨o, ho, hreg⟩, hquiet, huses, hu, hfill⟩)
    · exact ⟨hebx, before, w, after ++ [u], by simp, hw, hunneeded.append [u]⟩
    · refine ⟨hebx, before, w, after ++ [u], by simp, ⟨o, ho, hreg, ?_⟩,
        unneeded_concat.mpr (.inr ⟨hquiet, huses, hu, hfill⟩)⟩
      rw [hver, ← hreg]
      exact hnum.dest_last ho fun x hx => hreg ▸ (hquiet x hx).2.1

/-- Adding a uOP keeps the tables in order. -/
theorem Built.add {unroll : Bool} {ir ir' : IrData} {u : Uop} (h : Built ir)
    (hgen : uopGen unroll ir u = some ir') (hvalid : u.type ≠ uopInvalid) : Built ir' := by
  obtain ⟨u', t, htype, ha⟩ := uopGen_cases hgen
  have hframe := showRegisters_frame unroll u'.type ir.table
  have hversions : ∀ o ∈ u'.sources, o.version = lastVersions (fun _ => 0) ir.uops o.reg := by
    intro o ho
    rw [ha.reads.versions o ho, hframe.1, h.lastVersion]
  have hdest : ∀ o ∈ u'.destRegA, o.version = lastVersions (fun _ => 0) ir.uops o.reg + 1 := by
    intro o ho
    rcases ha.writes with ⟨hnone, -⟩ | ⟨x, hx, hw⟩
    · rw [hnone] at ho
      cases ho
    · rw [hx] at ho
      cases ho
      rw [hw.version, ha.lastVersion_mid, h.lastVersion]
  refine ⟨?_, ?_, ?_, ?_, ?_, ?_, ?_⟩
  · rw [ha.uops]
    exact numbered_concat.mpr ⟨h.numbered, hversions, hdest⟩
  · rw [ha.uops, lastVersions_concat, ha.lastVersion, h.lastVersion]
  · intro x hx
    rw [ha.uops] at hx
    rcases List.mem_append.mp hx with hx | hx
    · exact h.valid x hx
    · rw [List.mem_singleton.mp hx, htype]
      exact hvalid
  · intro r v hv
    rw [ha.uops, pending_append]
    have hone : pending [u'] r v = u'.readsOf r v := by
      simp [pending, htype, hvalid]
    rw [hone]
    rcases ha.new_or_old hv with hold | ⟨o, ho, hw, rfl, rfl⟩
    · rw [ha.refcount_old hold, h.refcount r v hold]
    · have hnew := hdest o ho
      rw [hw.refcount, pending_of_gt h.numbered (by omega)]
      have hreads : u'.readsOf o.reg o.version = 0 := by
        apply readsOf_eq_zero_iff.mpr
        rintro x hx ⟨hxr, hxv⟩
        have := hversions x hx
        rw [hxr] at this
        omega
      rw [hreads]
  · intro r v hpos hv
    rw [ha.uops]
    rcases ha.new_or_old hv with hold | ⟨o, ho, hw, rfl, rfl⟩
    · obtain ⟨w, hw, ho⟩ := h.parent r v hpos hold
      rw [ha.parent_old hold]
      refine ⟨w, ?_, ho⟩
      rw [List.getElem?_append_left (List.getElem?_eq_some_iff.mp hw).1]
      exact hw
    · refine ⟨u', ?_, o, ho, rfl, rfl⟩
      rw [hw.parentUop]
      simp
  · obtain ⟨ns, hchain, hmem⟩ := h.deadList
    have hlink : t.next = ir.table.next := ha.reads.next.trans hframe.2.2.1
    have hhead : t.deadList = ir.table.deadList := ha.reads.deadList.trans hframe.2.1
    by_cases hdrops : ∃ o, u'.destRegA = some o ∧ t.Drops o
    · obtain ⟨o, ho, hd⟩ := hdrops
      obtain ⟨hebx, hsplit⟩ := (h.drops_iff ha ho).mp hd
      have hw : WritesTo t ir'.table ir.uops.length o := by
        rcases ha.writes with ⟨hnone, -⟩ | ⟨x, hx, hw⟩
        · rw [hnone] at ho
          cases ho
        · rw [hx] at ho
          cases ho
          exact hw
      obtain ⟨hfirst, hnext, hother⟩ := hw.dropped hd
      have hlast : t.lastVersion o.reg = lastVersions (fun _ => 0) ir.uops o.reg := by
        rw [ha.lastVersion_mid, h.lastVersion]
      -- the version that is replaced has not been on the list
      have hnew : (o.reg, t.lastVersion o.reg) ∉ ns := by
        intro hin
        have := ((hmem _).mp hin).lt_lastVersions h.numbered
        rw [hlast] at this
        exact Nat.lt_irrefl _ this
      refine ⟨(o.reg, t.lastVersion o.reg) :: ns, ⟨hfirst, ?_⟩, fun n => ?_⟩
      · rw [hnext, hhead]
        apply hchain.congr
        intro n hn
        rw [hother n fun heq => hnew (heq ▸ hn), hlink]
      · rw [ha.uops, doomed_concat h.numbered, List.mem_cons, hmem, or_comm]
        apply or_congr_right
        constructor
        · rintro rfl
          exact ⟨hebx, hlast, hsplit⟩
        · rintro ⟨-, hver, -, -, -, -, -, -, -, -, hfill⟩
          obtain ⟨x, hx, hreg, -⟩ := hfill
          rw [ho] at hx
          cases hx
          exact Prod.ext hreg.symm (by rw [hlast, hver, hreg])
    · refine ⟨ns, ?_, fun n => ?_⟩
      · rcases ha.writes with ⟨-, htable⟩ | ⟨o, ho, hw⟩
        · rw [htable, hlink, hhead]
          exact hchain
        · obtain ⟨hfirst, hnext⟩ := hw.kept fun hd => hdrops ⟨o, ho, hd⟩
          rw [hfirst, hnext, hlink, hhead]
          exact hchain
      · rw [ha.uops, doomed_concat h.numbered, hmem]
        constructor
        · exact .inl
        · rintro (hn | ⟨hebx, -, before, w, after, hsplit, hw, hquiet, huses, hu, hfill⟩)
          · exact hn
          · obtain ⟨r, v⟩ := n
            obtain ⟨o, ho, rfl, hnative⟩ := hfill
            exact absurd ⟨o, ho, (h.drops_iff ha ho).mpr ⟨hebx, before, w, after, hsplit, hw,
              hquiet, huses, hu, o, ho, rfl, hnative⟩⟩ hdrops
  · intro r hebx before w after hsplit hw hafter
    rw [ha.uops] at hsplit
    rcases split_concat hsplit with ⟨-, rfl, rfl⟩ | ⟨rest, rfl, hold⟩
    · obtain ⟨x, hx, rfl⟩ := hw
      rcases ha.writes with ⟨hnone, -⟩ | ⟨o, ho, hw⟩
      · rw [hnone] at hx
        cases hx
      · rw [ho] at hx
        cases hx
        exact iff_of_false hw.unmarked (by simp)
    · obtain ⟨hnotReads, hnotWrites⟩ := hafter u' (by simp)
      have hrest : ∀ x ∈ rest, ¬ x.Reads r ∧ ¬ x.Writes r := fun x hx => hafter x (by simp [hx])
      have hlast : 0 < ir.table.lastVersion r := by
        rw [h.lastVersion, hold, lastVersions_append, lastVersions_cons,
          lastVersions_of_not_writes fun x hx => (hrest x hx).2, bump_of_writes hw]
        exact Nat.succ_pos _
      rw [ha.marked hnotReads hnotWrites hebx hlast, h.marked r hebx before w rest hold hw hrest,
        ← and_or_left]
      simp [or_and_right, exists_or]

end Build

section Blocks

variable {ir ir' : IrData} {t : RegTable} {us loopStart : List Uop} {unroll : Bool}

theorem Built.addAll (h : Built ir) {us : List Uop} (hvalid : ∀ u ∈ us, u.type ≠ uopInvalid)
    (hgen : us.foldlM (uopGen unroll) ir = some ir') : Built ir' := by
  induction us generalizing ir with
  | nil =>
    cases hgen
    exact h
  | cons u us ih =>
    rw [List.foldlM_cons] at hgen
    obtain ⟨next, hnext, hrest⟩ := Option.bind_eq_some_iff.mp hgen
    exact ih (h.add hnext (hvalid u List.mem_cons_self))
      (fun x hx => hvalid x (List.mem_cons_of_mem _ hx)) hrest

/-- The tables of an empty block. -/
theorem built_reset (t : RegTable) : Built { uops := [], table := t.codegenRegReset } := by
  refine ⟨trivial, rfl, by simp, ?_, ?_, ⟨[], rfl, fun n => ?_⟩, ?_⟩
  · intro r v hv
    obtain rfl : v = 0 := Nat.le_zero.mp hv
    simp [codegenRegReset, pending]
  · intro r v hpos hv
    exact absurd (Nat.lt_of_lt_of_le hpos hv) (Nat.lt_irrefl 0)
  · simp [Doomed]
  · intro r _ before w after hsplit
    simp at hsplit

/-- The tables of a block. -/
theorem built_codegenBlock (hvalid : ∀ u ∈ us, u.type ≠ uopInvalid)
    (h : codegenBlock t us = some ir) : Built ir :=
  (built_reset t).addAll hvalid h

/-- A copy of the loop keeps the tables in order. -/
theorem Built.copyLoop {start unrollEnd : Nat} (h : Built ir)
    (hgen : unrollOnce start unrollEnd ir = some ir') : Built ir' := by
  unfold unrollOnce at hgen
  rw [← List.foldlM_map] at hgen
  refine h.addAll (fun u hu => ?_) hgen
  obtain ⟨x, hx, rfl⟩ := List.mem_map.mp hu
  exact h.valid x (List.mem_of_mem_take (List.mem_of_mem_drop hx))

/-- So does unrolling the loop. -/
theorem Built.loop {count start : Nat} (h : Built ir)
    (hvalid : ∀ u ∈ loopStart, u.type ≠ uopInvalid)
    (hgen : unrollBlock count start loopStart ir = some ir') : Built ir' := by
  obtain ⟨first, hfirst, hrest⟩ := Option.bind_eq_some_iff.mp hgen
  have hbuilt := h.addAll hvalid hfirst
  clear hgen hfirst
  generalize first.uops.length = unrollEnd at hrest
  generalize List.range (count - 1) = rounds at hrest
  induction rounds generalizing first with
  | nil =>
    cases hrest
    exact hbuilt
  | cons k rounds ih =>
    rw [List.foldlM_cons] at hrest
    obtain ⟨next, hnext, hrest⟩ := Option.bind_eq_some_iff.mp hrest
    exact ih next (hbuilt.copyLoop hnext) hrest

end Blocks

end Wbox.Codegen
