/-!
# CPU state and saved thread contexts

The registers of `cpu_state` (`src/cpu/cpu.h:334–419`) that a context switch copies,
the lazily evaluated arithmetic flags and MMX registers that it does not copy, and the
saved `wbox_cpu_context_t` (`src/thread/thread.h:54–77`).
-/

namespace Wbox.Cpu

/-- `x86seg` (`src/cpu/cpu.h:217–226`) and its copy `wbox_x86seg_t` (`src/thread/thread.h:39–48`). -/
structure X86Seg where
  base : UInt32
  limit : UInt32
  access : UInt8
  arHigh : UInt8
  seg : UInt16
  limitLow : UInt32
  limitHigh : UInt32
  checked : Int
  deriving DecidableEq, Repr, Inhabited

/-- The register state both records share: general registers, EIP, the flag words, the
segment registers and the x87 state. Doubles are kept as their 64 bits. -/
structure Registers where
  eax : UInt32
  ecx : UInt32
  edx : UInt32
  ebx : UInt32
  esp : UInt32
  ebp : UInt32
  esi : UInt32
  edi : UInt32
  eip : UInt32
  flags : UInt16
  eflags : UInt16
  segCs : X86Seg
  segDs : X86Seg
  segEs : X86Seg
  segSs : X86Seg
  segFs : X86Seg
  segGs : X86Seg
  st : Vector UInt64 8
  tag : Vector UInt8 8
  npxs : UInt16
  npxc : UInt16
  top : Int
  deriving DecidableEq, Inhabited

/-- `cpu_state_t`: the shared registers (`eip` is the field `pc`), the operands of the
lazily evaluated flags and the MMX registers. -/
structure CpuState where
  regs : Registers
  flagsOp : Int
  flagsRes : UInt32
  flagsOp1 : UInt32
  flagsOp2 : UInt32
  ismmx : UInt8
  mm : Vector UInt64 8
  mmW4 : Vector UInt16 8
  deriving DecidableEq, Inhabited

/-- The copies of `thread_save_context`, `src/thread/thread.c:230–307`. The operands of the
lazy flags and the MMX registers are not copied. -/
def saveContext (cpu : CpuState) : Registers :=
  let r := cpu.regs
  { eax := r.eax, ecx := r.ecx, edx := r.edx, ebx := r.ebx
    esp := r.esp, ebp := r.ebp, esi := r.esi, edi := r.edi
    eip := r.eip, flags := r.flags, eflags := r.eflags
    segCs := r.segCs, segDs := r.segDs, segEs := r.segEs
    segSs := r.segSs, segFs := r.segFs, segGs := r.segGs
    st := r.st, tag := r.tag
    npxs := r.npxs, npxc := r.npxc, top := r.top }

/-- The copies of `thread_restore_context`, `src/thread/thread.c:318–396`: every register
is written back, except that FS gets the thread's TEB address as its base. -/
def restoreContext (ctx : Registers) (tebAddr : UInt32) (cpu : CpuState) : CpuState :=
  { cpu with regs :=
    { eax := ctx.eax, ecx := ctx.ecx, edx := ctx.edx, ebx := ctx.ebx
      esp := ctx.esp, ebp := ctx.ebp, esi := ctx.esi, edi := ctx.edi
      eip := ctx.eip, flags := ctx.flags, eflags := ctx.eflags
      segCs := ctx.segCs, segDs := ctx.segDs, segEs := ctx.segEs
      segSs := ctx.segSs, segFs := { ctx.segFs with base := tebAddr }, segGs := ctx.segGs
      st := ctx.st, tag := ctx.tag
      npxs := ctx.npxs, npxc := ctx.npxc, top := ctx.top } }

/-- Saving takes every register of the context from the CPU. -/
@[simp] theorem saveContext_eq (cpu : CpuState) : saveContext cpu = cpu.regs := rfl

/-- Restoring changes no register but the base of FS. -/
@[simp] theorem restoreContext_regs (ctx : Registers) (teb : UInt32) (cpu : CpuState) :
    (restoreContext ctx teb cpu).regs = { ctx with segFs := { ctx.segFs with base := teb } } :=
  rfl

end Wbox.Cpu
