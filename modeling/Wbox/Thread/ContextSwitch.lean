import Wbox.Thread.Machine
import Wbox.Cpu.LazyFlags

/-!
# What a context switch keeps

`thread_save_context` copies the flag word and the x87 registers, but neither the pending
operation the flags are still to be computed from nor the MMX registers. A thread that is
switched back therefore has its x87 registers again, reads from its own flag word the flags
that the operation another thread left pending keeps there, and sees that thread's values of
the others.
-/

namespace Wbox.Thread

open Wbox.Cpu Wbox.Nt

/-- What the guest can see of the flags and the floating-point registers is as it was. -/
structure GuestVisible (cpu cpu' : CpuState) : Prop where
  flags : ∀ f : ArithFlag, f.isSet cpu' = f.isSet cpu
  st : cpu'.regs.st = cpu.regs.st
  mm : cpu'.mm = cpu.mm
  tag : cpu'.regs.tag = cpu.regs.tag
  top : cpu'.regs.top = cpu.regs.top
  npxs : cpu'.regs.npxs = cpu.regs.npxs
  npxc : cpu'.regs.npxc = cpu.regs.npxc

/-- The CPU after `thread_save_context` of a thread, changes that make the CPU state `later`,
and `thread_restore_context` of the thread. -/
def switchedBack (s : WboxScheduler) (thread : Ptr) (later : CpuState) : CpuState :=
  (threadRestoreContext { threadSaveContext s thread with cpu := later } thread).cpu

/-- The other threads leave the MMX registers and a pending operation that suits the flags:
those it keeps in the flag word stood in the saved word, and it computes the others. -/
structure SuitsSaved (cpu later : CpuState) : Prop where
  mm : later.mm = cpu.mm
  kept : ∀ f : ArithFlag, f.readsWord later.flagsOp → f.inWord cpu.regs.flags = f.isSet cpu
  computed : ∀ f : ArithFlag, ¬ f.readsWord later.flagsOp → f.isSet later = f.isSet cpu

variable {s : WboxScheduler} {thread : Ptr} {later : CpuState}

/-- The saved registers are back, FS with the thread's TEB as its base; all else is what the
other threads left. -/
theorem switchedBack_eq (s : WboxScheduler) (thread : Ptr) (later : CpuState) :
    switchedBack s thread later = { later with
      regs := { s.cpu.regs with
        segFs := { s.cpu.regs.segFs with base := (s.threads thread).tebAddr } } } := by
  unfold switchedBack threadRestoreContext threadSaveContext
  simp [WboxScheduler.modifyThread, restoreContext]

theorem switchedBack_sameLazy : SameLazy (switchedBack s thread later) later := by
  rw [switchedBack_eq]
  exact ⟨rfl, rfl, rfl, rfl⟩

theorem isSet_switchedBack (f : ArithFlag) :
    f.isSet (switchedBack s thread later) =
      if f.readsWord later.flagsOp then f.inWord s.cpu.regs.flags else f.isSet later := by
  split
  next h =>
    rw [← switchedBack_sameLazy.op] at h
    rw [ArithFlag.isSet_of_readsWord h, switchedBack_eq]
  next h => exact ArithFlag.isSet_of_not_readsWord h switchedBack_sameLazy

theorem guestVisible_switchedBack :
    GuestVisible s.cpu (switchedBack s thread later) ↔ SuitsSaved s.cpu later := by
  constructor
  · intro h
    refine ⟨?mm, ?kept, ?computed⟩
    case mm =>
      have hmm := h.mm
      rw [switchedBack_eq] at hmm
      exact hmm
    case kept =>
      intro f hf
      rw [← h.flags f, isSet_switchedBack, if_pos hf]
    case computed =>
      intro f hf
      rw [← h.flags f, isSet_switchedBack, if_neg hf]
  · intro h
    refine ⟨fun f => ?_, ?_, ?_, ?_, ?_, ?_, ?_⟩
    · rw [isSet_switchedBack]
      split
      next hf => exact h.kept f hf
      next hf => exact h.computed f hf
    all_goals rw [switchedBack_eq]
    exact h.mm

/-- Whatever is saved, each flag alone is lost to an addition of two bytes in another
thread. -/
theorem setadd8_loses (f : ArithFlag) :
    ∃ a b, f.isSet (switchedBack s thread (setadd8 a b s.cpu)) ≠ f.isSet s.cpu := by
  refine ⟨(f.addends !f.isSet s.cpu).1, (f.addends !f.isSet s.cpu).2, ?_⟩
  have hread : ¬ f.readsWord (setadd8 (f.addends !f.isSet s.cpu).1
      (f.addends !f.isSet s.cpu).2 s.cpu).flagsOp := by
    cases f <;> exact Bool.false_ne_true
  rw [isSet_switchedBack, if_neg hread, ArithFlag.isSet_setadd8_addends]
  cases f.isSet s.cpu <;> decide

/-- A thread switched back sees its own flags and floating-point registers exactly when the
MMX registers are as it left them and the operation left pending suits its flags; no state it
is saved in is safe from all changes, as every flag can be lost to one addition. -/
theorem switchedBack_guestVisible_iff (s : WboxScheduler) (thread : Ptr) :
    (∀ later, GuestVisible s.cpu (switchedBack s thread later) ↔ SuitsSaved s.cpu later) ∧
      ∀ f : ArithFlag, ∃ a b,
        f.isSet (switchedBack s thread (setadd8 a b s.cpu)) ≠ f.isSet s.cpu :=
  ⟨fun _ => guestVisible_switchedBack, setadd8_loses⟩

/-- The main thread has compared two equal bytes when it is switched out; the other thread adds
0 and 1. The jump after the comparison is no longer taken. -/
theorem comparison_not_guestVisible :
    let s := schedulerInit (setsub8 5 5 default) fun _ => 0
    ArithFlag.zf.isSet s.cpu ∧ ¬ ArithFlag.zf.isSet (switchedBack s 1 (setadd8 0 1 s.cpu)) ∧
      ¬ GuestVisible s.cpu (switchedBack s 1 (setadd8 0 1 s.cpu)) := by
  intro s
  have hset : ArithFlag.zf.isSet s.cpu := by decide +kernel
  have hclear : ¬ ArithFlag.zf.isSet (switchedBack s 1 (setadd8 0 1 s.cpu)) := by
    rw [isSet_switchedBack]
    decide +kernel
  exact ⟨hset, hclear, fun h => hclear ((h.flags .zf).trans hset)⟩

end Wbox.Thread
