import Mathlib
import Wbox.Lib.Masks

/-!
# The intermediate code of the recompiler

A block of guest code is turned into uOPs (`src/cpu/codegen/codegen_ir_defs.h`) whose operands are
versions of intermediate registers (`src/cpu/codegen/codegen_reg.h`): every write of a register
makes its next version, and a read names the last one.
-/

namespace Wbox.Codegen

open Wbox.Lib

/-- The contents of a register, as wide as the widest one. -/
abbrev Word := BitVec 64

/-- `IREG_SIZE_L` to `IREG_SIZE_Q`, `codegen_reg.h:11–16`. -/
inductive IregSize where
  | l
  | w
  | b
  | bh
  | d
  | q
  deriving DecidableEq, Repr

/-- `REG_BYTE` to `REG_FPU_ST_QWORD`, `codegen_reg.c:39–49`. -/
inductive NativeSize where
  | byte
  | word
  | dword
  | qword
  | pointer
  | double
  | fpuStByte
  | fpuStDouble
  | fpuStQword
  deriving DecidableEq, Repr

/-- `IREG_EAX` to `IREG_temp1d`, `codegen_reg.h:18–135`. `IREG_eaa16` is not one of them: it only
selects a variant of a uOP, which then reads `IREG_eaaddr`. -/
inductive Ireg where
  | gpr (n : Fin 8)
  | flagsOp
  | flagsRes
  | flagsOp1
  | flagsOp2
  | pc
  | oldpc
  | eaaddr
  | eaSeg
  | op32
  | ssegsx
  | rmModReg
  | cycles
  | segBase (s : Fin 6)
  | segSeg (s : Fin 6)
  | st (n : Fin 8)
  | tag (n : Fin 8)
  | stI64 (n : Fin 8)
  | mm (n : Fin 8)
  | npxc
  | npxs
  | flagsx
  | eflagsx
  | limitLow (s : Fin 6)
  | limitHigh (s : Fin 6)
  | x87Op
  | fpuTop
  | temp (n : Fin 4)
  | tempD (n : Fin 2)
  deriving DecidableEq, Repr

/-- The number of a register in the enumeration. -/
def Ireg.number : Ireg → Nat
  | .gpr n => n
  | .flagsOp => 8
  | .flagsRes => 9
  | .flagsOp1 => 10
  | .flagsOp2 => 11
  | .pc => 12
  | .oldpc => 13
  | .eaaddr => 14
  | .eaSeg => 15
  | .op32 => 16
  | .ssegsx => 17
  | .rmModReg => 18
  | .cycles => 19
  | .segBase s => 20 + s
  | .segSeg s => 26 + s
  | .st n => 32 + n
  | .tag n => 40 + n
  | .stI64 n => 48 + n
  | .mm n => 56 + n
  | .npxc => 64
  | .npxs => 65
  | .flagsx => 66
  | .eflagsx => 67
  | .limitLow s => 68 + s
  | .limitHigh s => 74 + s
  | .x87Op => 81
  | .fpuTop => 82
  | .temp n => 83 + n
  | .tempD n => 87 + n

/-- `IREG_EBX`, the last register whose versions are never dropped. -/
def iregEbx : Nat := 3

/-- `IREG_temp0`, the first register that is not seen outside the block. -/
def iregTemp0 : Nat := 83

/-- `native_size` of `ireg_data`, `codegen_reg.c:67–174`. -/
def Ireg.nativeSize : Ireg → NativeSize
  | .gpr _ => .dword
  | .flagsOp => .dword
  | .flagsRes => .dword
  | .flagsOp1 => .dword
  | .flagsOp2 => .dword
  | .pc => .dword
  | .oldpc => .dword
  | .eaaddr => .dword
  | .eaSeg => .pointer
  | .op32 => .dword
  | .ssegsx => .byte
  | .rmModReg => .dword
  | .cycles => .dword
  | .segBase _ => .dword
  | .segSeg _ => .word
  | .st _ => .fpuStDouble
  | .tag _ => .fpuStByte
  | .stI64 _ => .fpuStQword
  | .mm _ => .qword
  | .npxc => .word
  | .npxs => .word
  | .flagsx => .word
  | .eflagsx => .word
  | .limitLow _ => .dword
  | .limitHigh _ => .dword
  | .x87Op => .word
  | .fpuTop => .dword
  | .temp _ => .dword
  | .tempD _ => .double

/-- `REG_VOLATILE` rather than `REG_PERMANENT` in `ireg_data`. -/
def Ireg.isVolatile : Ireg → Bool
  | .temp _ => true
  | .tempD _ => true
  | _ => false

/-- The place of a register in memory, the field `p` of `ireg_data`: `IREG_ST_i64` and `IREG_MM` are
two names of `cpu_state.MM`. -/
def Ireg.cell : Ireg → Ireg
  | .stI64 n => .mm n
  | r => r

/-- `native_requested_sizes`, `codegen_reg.c:188–209`, with pointers of 8 bytes. -/
def nativeRequestedSizes : NativeSize → IregSize → Bool
  | .byte, .b => true
  | .fpuStByte, .b => true
  | .word, .w => true
  | .dword, .l => true
  | .qword, .d => true
  | .fpuStQword, .d => true
  | .double, .d => true
  | .fpuStDouble, .d => true
  | .qword, .q => true
  | .fpuStQword, .q => true
  | .double, .q => true
  | .fpuStDouble, .q => true
  | .pointer, .q => true
  | _, _ => false

/-- The bits of a register that an operand of a size names. -/
def IregSize.mask : IregSize → Word
  | .l => 0xffffffff
  | .w => 0xffff
  | .b => 0xff
  | .bh => 0xff00
  | .d => BitVec.allOnes 64
  | .q => BitVec.allOnes 64

/-- The bits that a register has. -/
def NativeSize.mask : NativeSize → Word
  | .byte => 0xff
  | .fpuStByte => 0xff
  | .word => 0xffff
  | .dword => 0xffffffff
  | .qword => BitVec.allOnes 64
  | .pointer => BitVec.allOnes 64
  | .double => BitVec.allOnes 64
  | .fpuStDouble => BitVec.allOnes 64
  | .fpuStQword => BitVec.allOnes 64

/-- The bits that a register has in memory. -/
def Ireg.mask (r : Ireg) : Word := r.nativeSize.mask

/-- `ir_reg_t`: a register, the size of the access, and the version. -/
structure IrReg where
  reg : Ireg
  size : IregSize
  version : Nat
  deriving DecidableEq, Repr

/-- `reg_is_native_size`, `codegen_reg.c:225–232`. -/
def IrReg.isNativeSize (o : IrReg) : Bool := nativeRequestedSizes o.reg.nativeSize o.size

/-- The bits that an access touches: a pointer is accessed as a whole whatever its size says. -/
def IrReg.part (o : IrReg) : Word :=
  if o.reg.nativeSize = .pointer then BitVec.allOnes 64 else o.size.mask &&& o.reg.mask

/-- The bits of `type` in a `uop_t`, `codegen_ir_defs.h:8–37`. `UOP_TYPE_JUMP_DEST` is set later. -/
structure UopType where
  /-- `type & UOP_MASK`. -/
  code : Nat
  /-- `UOP_TYPE_BARRIER`. -/
  barrier : Bool
  /-- `UOP_TYPE_ORDER_BARRIER`. -/
  orderBarrier : Bool
  /-- `UOP_TYPE_PARAMS_REGS`. -/
  paramsRegs : Bool
  /-- `UOP_TYPE_JUMP`. -/
  jump : Bool
  deriving DecidableEq, Repr

/-- `UOP_INVALID`. -/
def uopInvalid : UopType := ⟨0xff, false, false, false, false⟩

/-- `UOP_MOV_IMM & UOP_MASK`. -/
def uopMovImm : Nat := 0x21

/-- `type & (UOP_TYPE_BARRIER | UOP_TYPE_ORDER_BARRIER)`. -/
def UopType.anyBarrier (t : UopType) : Bool := t.barrier || t.orderBarrier

/-- `uop_t`, `codegen_ir_defs.h:343–362`, as it is before it is compiled. -/
structure Uop where
  type : UopType
  destRegA : Option IrReg
  srcRegA : Option IrReg
  srcRegB : Option IrReg
  srcRegC : Option IrReg
  immData : UInt32
  p : UInt64
  jumpDestUop : Option Nat
  deriving DecidableEq, Repr

namespace Uop

/-- The operands that are read. -/
def sources (u : Uop) : List IrReg := u.srcRegA.toList ++ u.srcRegB.toList ++ u.srcRegC.toList

/-- All operands. -/
def operands (u : Uop) : List IrReg := u.sources ++ u.destRegA.toList

/-- The number of operands that read a version. -/
def readsOf (u : Uop) (r : Ireg) (v : Nat) : Nat :=
  u.sources.countP fun o => o.reg = r ∧ o.version = v

/-- A register is read. -/
def Reads (u : Uop) (r : Ireg) : Prop := ∃ o ∈ u.sources, o.reg = r

/-- A register is written. -/
def Writes (u : Uop) (r : Ireg) : Prop := ∃ o ∈ u.destRegA, o.reg = r

/-- A register is written as a whole. -/
def Fills (u : Uop) (r : Ireg) : Prop := ∃ o ∈ u.destRegA, o.reg = r ∧ o.isNativeSize

/-- A register is read, or written in part, which keeps the rest. -/
def Uses (u : Uop) (r : Ireg) : Prop := u.Reads r ∨ u.Writes r ∧ ¬ u.Fills r

/-- A register is an operand. -/
def Touches (u : Uop) (r : Ireg) : Prop := ∃ o ∈ u.operands, o.reg = r

instance (u : Uop) (r : Ireg) : Decidable (u.Reads r) := inferInstanceAs (Decidable (∃ _ ∈ _, _))

instance (u : Uop) (r : Ireg) : Decidable (u.Writes r) := inferInstanceAs (Decidable (∃ _ ∈ _, _))

instance (u : Uop) (r : Ireg) : Decidable (u.Fills r) := inferInstanceAs (Decidable (∃ _ ∈ _, _))

instance (u : Uop) (r : Ireg) : Decidable (u.Uses r) := inferInstanceAs (Decidable (_ ∨ _))

instance (u : Uop) (r : Ireg) : Decidable (u.Touches r) :=
  inferInstanceAs (Decidable (∃ _ ∈ _, _))

/-- The last versions behind a uOP. -/
def bump (u : Uop) (cur : Ireg → Nat) : Ireg → Nat :=
  match u.destRegA with
  | none => cur
  | some o => Function.update cur o.reg (cur o.reg + 1)

end Uop

/-- Every operand reads the last version, and every write makes the next one. -/
def Numbered : (Ireg → Nat) → List Uop → Prop
  | _, [] => True
  | cur, u :: us =>
      (∀ o ∈ u.sources, o.version = cur o.reg) ∧
        (∀ o ∈ u.destRegA, o.version = cur o.reg + 1) ∧ Numbered (u.bump cur) us

/-- The last versions behind a list of uOPs. -/
def lastVersions (cur : Ireg → Nat) (us : List Uop) : Ireg → Nat :=
  us.foldl (fun cur u => u.bump cur) cur

/-- The number of operands that still read a version: a uOP that has been dropped reads nothing. -/
def pending : List Uop → Ireg → Nat → Nat
  | [], _, _ => 0
  | u :: us, r, v => (if u.type = uopInvalid then 0 else u.readsOf r v) + pending us r v

/-- A register is not used before it is written as a whole, and no barrier shows it before: its
value does not matter. -/
def Unneeded (r : Ireg) : List Uop → Prop
  | [] => False
  | u :: us => ¬ u.Uses r ∧ (r.isVolatile ∨ ¬ u.type.anyBarrier) ∧ (u.Fills r ∨ Unneeded r us)

section Basics

variable {u : Uop} {us us' : List Uop} {r : Ireg} {v : Nat} {cur : Ireg → Nat}

@[simp] theorem bump_of_none (h : u.destRegA = none) : u.bump cur = cur := by
  simp [Uop.bump, h]

@[simp] theorem bump_of_some {o : IrReg} (h : u.destRegA = some o) :
    u.bump cur = Function.update cur o.reg (cur o.reg + 1) := by
  simp [Uop.bump, h]

theorem bump_of_not_writes (h : ¬ u.Writes r) : u.bump cur r = cur r := by
  cases hd : u.destRegA with
  | none => rw [bump_of_none hd]
  | some o =>
    rw [bump_of_some hd, Function.update_of_ne]
    intro hr
    exact h ⟨o, hd, hr.symm⟩

theorem bump_of_writes (h : u.Writes r) : u.bump cur r = cur r + 1 := by
  obtain ⟨o, hd, rfl⟩ := h
  rw [bump_of_some hd, Function.update_self]

theorem le_bump (u : Uop) (cur : Ireg → Nat) (r : Ireg) : cur r ≤ u.bump cur r := by
  by_cases h : u.Writes r
  · rw [bump_of_writes h]
    exact Nat.le_succ _
  · rw [bump_of_not_writes h]

theorem Uop.Fills.writes (h : u.Fills r) : u.Writes r := by
  obtain ⟨o, ho, hr, -⟩ := h
  exact ⟨o, ho, hr⟩

theorem numbered_append : Numbered cur (us ++ us') ↔
    Numbered cur us ∧ Numbered (lastVersions cur us) us' := by
  induction us generalizing cur with
  | nil => simp [Numbered, lastVersions]
  | cons u us ih =>
    simp only [List.cons_append, Numbered, ih, and_assoc]
    rfl

@[simp] theorem lastVersions_cons : lastVersions cur (u :: us) = lastVersions (u.bump cur) us := rfl

theorem lastVersions_append :
    lastVersions cur (us ++ us') = lastVersions (lastVersions cur us) us' := List.foldl_append

theorem le_lastVersions (cur : Ireg → Nat) (us : List Uop) (r : Ireg) :
    cur r ≤ lastVersions cur us r := by
  induction us generalizing cur with
  | nil => exact Nat.le_refl _
  | cons u us ih => exact (le_bump u cur r).trans (ih _)

theorem lastVersions_of_not_writes (h : ∀ u ∈ us, ¬ u.Writes r) :
    lastVersions cur us r = cur r := by
  induction us generalizing cur with
  | nil => rfl
  | cons u us ih =>
    rw [lastVersions_cons, ih fun u hu => h u (List.mem_cons_of_mem _ hu),
      bump_of_not_writes (h u List.mem_cons_self)]

theorem pending_append : pending (us ++ us') r v = pending us r v + pending us' r v := by
  induction us with
  | nil => simp [pending]
  | cons u us ih => simp [pending, ih, Nat.add_assoc]

theorem readsOf_eq_zero_iff :
    u.readsOf r v = 0 ↔ ∀ o ∈ u.sources, ¬ (o.reg = r ∧ o.version = v) := by
  simp [Uop.readsOf, List.countP_eq_zero]

/-- A version that is not the last one is not read any more. -/
theorem pending_of_lt (h : Numbered cur us) (hv : v < cur r) : pending us r v = 0 := by
  induction us generalizing cur with
  | nil => rfl
  | cons u us ih =>
    have hrest := ih h.2.2 (Nat.lt_of_lt_of_le hv (le_bump u cur r))
    have hreads : u.readsOf r v = 0 := by
      apply readsOf_eq_zero_iff.mpr
      rintro o ho ⟨rfl, rfl⟩
      have := h.1 o ho
      omega
    simp [pending, hrest, hreads]

theorem numbered_concat : Numbered cur (us ++ [u]) ↔ Numbered cur us ∧
    (∀ o ∈ u.sources, o.version = lastVersions cur us o.reg) ∧
      ∀ o ∈ u.destRegA, o.version = lastVersions cur us o.reg + 1 := by
  simp [numbered_append, Numbered]

theorem lastVersions_concat : lastVersions cur (us ++ [u]) = u.bump (lastVersions cur us) := by
  rw [lastVersions_append]
  rfl

/-- An operand reads the last version that there is. -/
theorem Numbered.source {before after : List Uop} (h : Numbered cur (before ++ u :: after))
    {o : IrReg} (ho : o ∈ u.sources) : o.version = lastVersions cur before o.reg :=
  (numbered_append.mp h).2.1 o ho

/-- A write makes the version behind it. -/
theorem Numbered.dest {before after : List Uop} (h : Numbered cur (before ++ u :: after))
    {o : IrReg} (ho : o ∈ u.destRegA) : o.version = lastVersions cur before o.reg + 1 :=
  (numbered_append.mp h).2.2.1 o ho

/-- The last write of a register makes its last version. -/
theorem Numbered.dest_last {before after : List Uop} (h : Numbered cur (before ++ u :: after))
    {o : IrReg} (ho : o ∈ u.destRegA) (hafter : ∀ x ∈ after, ¬ x.Writes o.reg) :
    o.version = lastVersions cur (before ++ u :: after) o.reg := by
  rw [lastVersions_append, lastVersions_cons, lastVersions_of_not_writes hafter,
    bump_of_writes ⟨o, ho, rfl⟩]
  exact h.dest ho

/-- A version that is not there yet is not read. -/
theorem pending_of_gt (h : Numbered cur us) (hv : lastVersions cur us r < v) :
    pending us r v = 0 := by
  induction us generalizing cur with
  | nil => rfl
  | cons u us ih =>
    have hreads : u.readsOf r v = 0 := by
      apply readsOf_eq_zero_iff.mpr
      rintro o ho ⟨rfl, rfl⟩
      have hver := h.1 o ho
      have hle := le_lastVersions cur (u :: us) o.reg
      omega
    simp [pending, ih h.2.2 hv, hreads]

/-- A version that an operand reads is pending. -/
theorem pending_pos (hu : u ∈ us) (hvalid : u.type ≠ uopInvalid) {o : IrReg}
    (ho : o ∈ u.sources) : 0 < pending us o.reg o.version := by
  induction us with
  | nil => cases hu
  | cons x us ih =>
    rcases List.mem_cons.mp hu with rfl | hu
    · have hpos : 0 < u.readsOf o.reg o.version := by
        unfold Uop.readsOf
        exact List.countP_pos_iff.mpr ⟨o, ho, by simp⟩
      rw [pending, if_neg hvalid]
      omega
    · have := ih hu
      rw [pending]
      omega

/-- A register that has been written has a last write. -/
theorem exists_last_write (cur : Ireg → Nat) (us : List Uop) (h : cur r < lastVersions cur us r) :
    ∃ before w after, us = before ++ w :: after ∧ w.Writes r ∧ ∀ x ∈ after, ¬ x.Writes r := by
  induction us using List.reverseRecOn with
  | nil => exact absurd h (Nat.lt_irrefl _)
  | append_singleton us u ih =>
    by_cases hu : u.Writes r
    · exact ⟨us, u, [], rfl, hu, by simp⟩
    · rw [lastVersions_concat, bump_of_not_writes hu] at h
      obtain ⟨before, w, after, rfl, hw, hafter⟩ := ih h
      refine ⟨before, w, after ++ [u], by simp, hw, fun x hx => ?_⟩
      rcases List.mem_append.mp hx with hx | hx
      · exact hafter x hx
      · rwa [List.mem_singleton.mp hx]

/-- Where a list with one more member is split. -/
theorem split_concat {α : Type} {xs before after : List α} {x w : α}
    (h : xs ++ [x] = before ++ w :: after) :
    (before = xs ∧ w = x ∧ after = []) ∨
      ∃ rest, after = rest ++ [x] ∧ xs = before ++ w :: rest := by
  rcases List.eq_nil_or_concat after with rfl | ⟨rest, y, rfl⟩
  · obtain ⟨rfl, hx⟩ := List.append_inj' h rfl
    cases hx
    exact .inl ⟨rfl, rfl, rfl⟩
  · rw [List.concat_eq_append, ← List.cons_append, ← List.append_assoc] at h
    obtain ⟨rfl, hx⟩ := List.append_inj' h rfl
    cases hx
    exact .inr ⟨rest, List.concat_eq_append, rfl⟩

/-- Nothing happens to a register and nothing shows it. -/
def Quiet (r : Ireg) (u : Uop) : Prop :=
  ¬ u.Reads r ∧ ¬ u.Writes r ∧ (r.isVolatile ∨ ¬ u.type.anyBarrier)

theorem unneeded_concat : Unneeded r (us ++ [u]) ↔ Unneeded r us ∨
    (∀ x ∈ us, Quiet r x) ∧ ¬ u.Uses r ∧ (r.isVolatile ∨ ¬ u.type.anyBarrier) ∧ u.Fills r := by
  induction us with
  | nil => simp [Unneeded]
  | cons x us ih =>
    have hquiet : Quiet r x ↔
        (¬ x.Uses r ∧ (r.isVolatile ∨ ¬ x.type.anyBarrier)) ∧ ¬ x.Fills r := by
      have hfills : x.Fills r → x.Writes r := Uop.Fills.writes
      unfold Quiet Uop.Uses
      tauto
    simp only [List.cons_append, Unneeded, ih, List.forall_mem_cons, hquiet]
    generalize (r.isVolatile = true ∨ ¬ x.type.anyBarrier = true) = hidden
    generalize (¬ u.Uses r ∧ (r.isVolatile = true ∨ ¬ u.type.anyBarrier = true) ∧ u.Fills r) = last
    by_cases hfill : x.Fills r
    · simp [hfill]
    · simp only [hfill, false_or, not_false_eq_true]
      tauto

theorem Unneeded.append (h : Unneeded r us) (us' : List Uop) : Unneeded r (us ++ us') := by
  induction us with
  | nil => exact h.elim
  | cons u us ih => exact ⟨h.1, h.2.1, h.2.2.imp_right ih⟩

/-- Only temporaries are volatile, and they are the last registers of the enumeration. -/
theorem isVolatile_iff : r.isVolatile = true ↔ iregTemp0 ≤ r.number := by
  cases r <;> simp [Ireg.isVolatile, Ireg.number, iregTemp0] <;> omega

/-- A native access is one of the whole register. -/
theorem part_of_isNativeSize {o : IrReg} (h : o.isNativeSize) : o.part = o.reg.mask := by
  obtain ⟨r, s, v⟩ := o
  unfold IrReg.isNativeSize at h
  unfold IrReg.part Ireg.mask
  dsimp only at h ⊢
  revert h
  cases r.nativeSize <;> cases s <;>
    simp [nativeRequestedSizes, IregSize.mask, NativeSize.mask]

/-- An access stays within the register. -/
theorem part_le_mask (o : IrReg) : MaskLe o.part o.reg.mask := by
  unfold IrReg.part
  split
  · next h => simp [MaskLe, Ireg.mask, h, NativeSize.mask]
  · unfold MaskLe
    rw [BitVec.and_assoc, BitVec.and_self]

/-- The two names of a cell have the same width. -/
theorem mask_cell (r : Ireg) : r.cell.mask = r.mask := by
  cases r <;> rfl

/-- And neither is a temporary. -/
theorem isVolatile_cell (r : Ireg) : r.cell.isVolatile = r.isVolatile := by
  cases r <;> rfl

end Basics

end Wbox.Codegen
