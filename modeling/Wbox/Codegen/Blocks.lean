import Mathlib
import Wbox.Codegen.Machine

/-!
# Blocks

The uOPs of a block, unrolled where it ends in a loop, and what is dropped of them before the code
is made (`src/cpu/codegen/codegen_ir.c:65–88`).
-/

namespace Wbox.Codegen

section Blocks

/-- `UOP_MOV_IMM` and `UOP_MOV_PTR`. -/
def movImmType : UopType := ⟨uopMovImm, false, false, true, false⟩
def movPtrType : UopType := ⟨0x20, false, false, true, false⟩

/-- `codegen_set_loop_start`, `codegen.c:48–54`. -/
def codegenSetLoopStart (op32 ssegs : UInt32) (eaSeg : UInt64) : List Uop :=
  [⟨movImmType, some ⟨.op32, .l, 0⟩, none, none, none, op32, 0, none⟩,
    ⟨movPtrType, some ⟨.eaSeg, .l, 0⟩, none, none, none, 0, eaSeg, none⟩,
    ⟨movImmType, some ⟨.ssegsx, .b, 0⟩, none, none, none, ssegs, 0, none⟩]

/-- `codegen_ir_set_unroll`, `codegen_ir.c:30–36`, with what is known of the first instruction. -/
structure Unroll where
  count : Nat
  start : Nat
  op32 : UInt32
  ssegs : UInt32
  eaSeg : UInt64

/-- What a block is made from: the uOPs of its instructions, and the loop at their end. -/
structure BlockSource where
  uops : List Uop
  unroll : Option Unroll
  valid : ∀ u ∈ uops, u.type ≠ uopInvalid

/-- The uOPs of a block and its tables, before anything is dropped. -/
def BlockSource.build (b : BlockSource) (t : RegTable) : Option IrData := do
  let ir ← codegenBlock t b.uops
  match b.unroll with
  | none => pure ir
  | some n => unrollBlock n.count n.start (codegenSetLoopStart n.op32 n.ssegs n.eaSeg) ir

variable {t : RegTable} {b : BlockSource} {ir ir' : IrData}

theorem BlockSource.built (h : b.build t = some ir) : Built ir := by
  obtain ⟨ir₀, hblock, hunroll⟩ := Option.bind_eq_some_iff.mp h
  have hb := built_codegenBlock b.valid hblock
  cases hu : b.unroll with
  | none =>
    rw [hu] at hunroll
    cases hunroll
    exact hb
  | some n =>
    rw [hu] at hunroll
    refine hb.loop ?_ hunroll
    simp [codegenSetLoopStart, movImmType, movPtrType, uopInvalid]

/-- `UOP_CMP_IMM_JZ_DEST` and `UOP_NOP_BARRIER`. -/
def cmpImmJzDestType : UopType := ⟨0x60, false, true, true, true⟩
def nopBarrierType : UopType := ⟨0x18, true, false, false, false⟩

/-- A flag that is written twice, and a conditional jump over the write of the next address. -/
def conditionalBlock : BlockSource where
  uops := [⟨movImmType, some ⟨.flagsOp, .l, 0⟩, none, none, none, 1, 0, none⟩,
    ⟨movImmType, some ⟨.flagsOp, .l, 0⟩, none, none, none, 2, 0, none⟩,
    ⟨cmpImmJzDestType, none, some ⟨.gpr 0, .l, 0⟩, none, none, 0, 0, some 4⟩,
    ⟨movImmType, some ⟨.pc, .l, 0⟩, none, none, none, 7, 0, none⟩,
    ⟨nopBarrierType, none, none, none, none, 0, 0, none⟩]
  unroll := none
  valid := by decide

/-- The tables before the first block. -/
def noVersions : RegTable where
  lastVersion := fun _ => 0
  version := fun _ _ => ⟨0, false, false, 0, none⟩
  dirtyIrRegs := fun _ => false
  deadList := none

theorem conditionalBlock_build : ∃ ir, conditionalBlock.build noVersions = some ir ∧
    ir.uops = [⟨movImmType, some ⟨.flagsOp, .l, 1⟩, none, none, none, 1, 0, none⟩,
      ⟨movImmType, some ⟨.flagsOp, .l, 2⟩, none, none, none, 2, 0, none⟩,
      ⟨cmpImmJzDestType, none, some ⟨.gpr 0, .l, 0⟩, none, none, 0, 0, some 4⟩,
      ⟨movImmType, some ⟨.pc, .l, 1⟩, none, none, none, 7, 0, none⟩,
      ⟨nopBarrierType, none, none, none, none, 0, 0, none⟩] := ⟨_, rfl, rfl⟩

/-- Whatever the tables hold from other blocks, the dead list of a block comes to its end, and what
has been dropped are the uOPs whose results nothing needs. -/
theorem BlockSource.sweeps (h : b.build t = some ir) :
    ∃ ir', sweepBlock ir = some ir' ∧ ir'.uops = sweepUops ir.uops :=
  (BlockSource.built h).sweep

theorem conditionalBlock_sweeps : ∃ ir ir', conditionalBlock.build noVersions = some ir ∧
    sweepBlock ir = some ir' ∧ (ir'.uops.map fun u => decide (u.type = uopInvalid)) =
      [true, false, false, false, false] := by
  obtain ⟨ir, hbuild, huops⟩ := conditionalBlock_build
  obtain ⟨ir', hsweep, hswept⟩ := BlockSource.sweeps hbuild
  refine ⟨ir, ir', hbuild, hsweep, ?_⟩
  rw [hswept, huops]
  decide

/-- What is dropped of a block does not change what it does. -/
theorem BlockSource.keepsMeaning (h : b.build t = some ir) (hsweep : sweepBlock ir = some ir')
    (hone : OneName (ir.uops.flatMap fun u => u.operands.map (·.reg)))
    (hjumps : JumpsLand 0 ir.uops) {σ : Type} (B : Backend σ) (s : State σ) :
    B.run 0 0 ir'.uops s = B.run 0 0 ir.uops s := by
  have hb := BlockSource.built h
  obtain ⟨swept, hrun, huops⟩ := hb.sweep
  rw [hsweep] at hrun
  cases hrun
  rw [huops]
  exact run_sweepUops_eq B hjumps hone hb.valid s

/-- Handlers of `UOP_MOV_IMM` and `UOP_CMP_IMM_JZ_DEST`. -/
def moveBackend : Backend Unit where
  compute := fun u xs _ => xs.headD (BitVec.ofNat 64 u.immData.toNat)
  store := fun _ _ w => w
  jumps := fun u xs => xs.head? = some (BitVec.ofNat 64 u.immData.toNat)
  order := fun _ _ _ w => (w, 0, false)
  call := fun _ _ cells w => (w, cells, 0, false)

theorem conditionalBlock_keepsMeaning : ∃ ir ir', conditionalBlock.build noVersions = some ir ∧
    sweepBlock ir = some ir' ∧
      ∀ s, moveBackend.run 0 0 ir'.uops s = moveBackend.run 0 0 ir.uops s := by
  obtain ⟨ir, hbuild, huops⟩ := conditionalBlock_build
  obtain ⟨ir', hsweep, -⟩ := (BlockSource.built hbuild).sweep
  have hone : OneName (ir.uops.flatMap fun u => u.operands.map (·.reg)) := by
    rw [huops]
    decide
  have hjumps : JumpsLand 0 ir.uops := by
    rw [huops]
    decide
  exact ⟨ir, ir', hbuild, hsweep, fun s =>
    BlockSource.keepsMeaning hbuild hsweep hone hjumps moveBackend s⟩

end Blocks

end Wbox.Codegen
