import Mathlib.Logic.Basic
import Wbox.Cpu.Context

/-!
# The arithmetic flags of the emulator

The emulated CPU does not compute CF, PF, AF, ZF, SF and OF: it notes the last operation and
its operands (`flags_op`, `flags_res`, `flags_op1`, `flags_op2`) and works a flag out when it
is asked for (`src/cpu/x86_flags.h`, as it is built with `USE_NEW_DYNAREC`). Some operations
leave some flags in the flag word, where they are read instead.
-/

namespace Wbox.Cpu

/-- `C_FLAG` to `V_FLAG`, `src/cpu/cpu.h:170–178`. -/
def cFlag : UInt16 := 0x0001
def pFlag : UInt16 := 0x0004
def aFlag : UInt16 := 0x0010
def zFlag : UInt16 := 0x0040
def nFlag : UInt16 := 0x0080
def vFlag : UInt16 := 0x0800

/-- The operand widths of the `FLAGS_` codes. -/
inductive FlagsWidth where
  | b8
  | b16
  | b32
  deriving DecidableEq, Repr

/-- The operations of the `FLAGS_` codes, in the order of the enumeration. -/
inductive FlagsKind where
  | zn
  | add
  | sub
  | shl
  | shr
  | sar
  | rol
  | ror
  | inc
  | dec
  | adc
  | sbc
  deriving DecidableEq, Repr

/-- The enumeration of `x86_flags.h:5–57`. -/
inductive FlagsOp where
  | unknown
  | last (kind : FlagsKind) (width : FlagsWidth)
  deriving DecidableEq, Repr

/-- The operations in the order of their codes, three widths each. -/
def flagsKinds : List FlagsKind :=
  [.zn, .add, .sub, .shl, .shr, .sar, .rol, .ror, .inc, .dec, .adc, .sbc]

/-- The enumeration, from `FLAGS_UNKNOWN` on. -/
def flagsOps : List FlagsOp :=
  .unknown :: flagsKinds.flatMap fun k => [.last k .b8, .last k .b16, .last k .b32]

/-- What the `switch` statements make of `flags_op`: a number past the enumeration has no
case. -/
def FlagsOp.ofCode (code : Int) : Option FlagsOp :=
  if code < 0 then none else flagsOps[code.toNat]?

/-- The sign bit of a width. -/
def FlagsWidth.sign : FlagsWidth → UInt32
  | .b8 => 0x80
  | .b16 => 0x8000
  | .b32 => 0x80000000

/-- The second operand of a carry chain that took the carry with all bits set. -/
def FlagsWidth.ones : FlagsWidth → UInt32
  | .b8 => 0xff
  | .b16 => 0xffff
  | .b32 => 0xffffffff

/-- The index of the sign bit. -/
def FlagsWidth.top : FlagsWidth → UInt32
  | .b8 => 7
  | .b16 => 15
  | .b32 => 31

/-- The sign extensions `(int8_t)`, `(int16_t)` and `(int32_t)` of an operand. -/
def FlagsWidth.signed (w : FlagsWidth) (op : UInt32) : Int32 :=
  match w with
  | .b8 => op.toUInt8.toInt8.toInt32
  | .b16 => op.toUInt16.toInt16.toInt32
  | .b32 => op.toInt32

/-- A condition as the `int` it is in C. -/
def ofCond (b : Bool) : UInt32 := if b then 1 else 0

/-- The carry of an addition: narrow operands are added as words, the word one has wrapped
where the result is below its first operand. -/
def FlagsWidth.carry (w : FlagsWidth) (op1 op2 res : UInt32) : Bool :=
  match w with
  | .b8 => (op1 + op2) &&& 0x100 ≠ 0
  | .b16 => (op1 + op2) &&& 0x10000 ≠ 0
  | .b32 => res < op1

/-- The parity bits of `znptable8`, `src/cpu/x86.c:181–190`: set where the number of ones is
even. The table's other bits are masked away by its only use here. -/
def znptable8Parity (c : UInt32) : UInt32 :=
  if ((List.range 8).countP fun e => c.toNat.testBit e) % 2 = 1 then 0 else pFlag.toUInt32

/-- The flag word as an `int`, under a mask. -/
def flagWord (cpu : CpuState) (mask : UInt16) : UInt32 := (cpu.regs.flags &&& mask).toUInt32

/-- `ZF_SET`, `x86_flags.h:60–113`. -/
def zfSet (cpu : CpuState) : UInt32 :=
  match FlagsOp.ofCode cpu.flagsOp with
  | none => 0
  | some .unknown => flagWord cpu zFlag
  | some (.last .rol _) | some (.last .ror _) => flagWord cpu zFlag
  | some (.last _ _) => ofCond (cpu.flagsRes = 0)

/-- `NF_SET`, `x86_flags.h:115–184`. -/
def nfSet (cpu : CpuState) : UInt32 :=
  match FlagsOp.ofCode cpu.flagsOp with
  | none => 0
  | some .unknown => flagWord cpu nFlag
  | some (.last .rol _) | some (.last .ror _) => flagWord cpu nFlag
  | some (.last _ w) => cpu.flagsRes &&& w.sign

/-- `PF_SET`, `x86_flags.h:186–239`. -/
def pfSet (cpu : CpuState) : UInt32 :=
  match FlagsOp.ofCode cpu.flagsOp with
  | none => 0
  | some .unknown => flagWord cpu pFlag
  | some (.last .rol _) | some (.last .ror _) => flagWord cpu pFlag
  | some (.last _ _) => znptable8Parity (cpu.flagsRes &&& 0xff)

/-- `VF_SET`, `x86_flags.h:241–333`. A shift stands in `flags_op2` only where it is from 1 to
31, and there the shifts below are those of C. -/
def vfSet (cpu : CpuState) : UInt32 :=
  let op1 := cpu.flagsOp1
  let op2 := cpu.flagsOp2
  let res := cpu.flagsRes
  match FlagsOp.ofCode cpu.flagsOp with
  | none => 0
  | some .unknown => flagWord cpu vFlag
  | some (.last .zn _) | some (.last .sar _) => 0
  | some (.last .adc w) | some (.last .add w) | some (.last .inc w) =>
      ofCond ((op1 ^^^ op2) &&& w.sign = 0 && (op1 ^^^ res) &&& w.sign ≠ 0)
  | some (.last .sbc w) | some (.last .sub w) | some (.last .dec w) =>
      (op1 ^^^ op2) &&& (op1 ^^^ res) &&& w.sign
  | some (.last .shl w) => ((op1 <<< op2) ^^^ (op1 <<< (op2 - 1))) &&& w.sign
  | some (.last .shr w) => ofCond (op2 = 1 && op1 &&& w.sign ≠ 0)
  | some (.last .rol w) => (res ^^^ (res >>> w.top)) &&& 1
  | some (.last .ror w) => (res ^^^ (res >>> 1)) &&& (w.sign >>> 1)

/-- `AF_SET`, `x86_flags.h:335–407`. -/
def afSet (cpu : CpuState) : UInt32 :=
  let op1 := cpu.flagsOp1 &&& 0xf
  let op2 := cpu.flagsOp2 &&& 0xf
  let res := cpu.flagsRes &&& 0xf
  match FlagsOp.ofCode cpu.flagsOp with
  | none => 0
  | some .unknown => flagWord cpu aFlag
  | some (.last .rol _) | some (.last .ror _) => flagWord cpu aFlag
  | some (.last .zn _) | some (.last .shl _) | some (.last .shr _) | some (.last .sar _) => 0
  | some (.last .add _) | some (.last .inc _) => (op1 + op2) &&& 0x10
  | some (.last .adc w) => ofCond (res < op1 || res = op1 && cpu.flagsOp2 = w.ones)
  | some (.last .sub _) | some (.last .dec _) => (op1 - op2) &&& 0x10
  | some (.last .sbc _) => ofCond (op1 < op2 || op1 = op2 && res ≠ 0)

/-- `CF_SET`, `x86_flags.h:409–494`, for the same shifts. -/
def cfSet (cpu : CpuState) : UInt32 :=
  let op1 := cpu.flagsOp1
  let op2 := cpu.flagsOp2
  let res := cpu.flagsRes
  match FlagsOp.ofCode cpu.flagsOp with
  | none => 0
  | some .unknown => flagWord cpu cFlag
  | some (.last .inc _) | some (.last .dec _) => flagWord cpu cFlag
  | some (.last .add w) => ofCond (w.carry op1 op2 res)
  | some (.last .adc w) => ofCond (res < op1 || res = op1 && op2 = w.ones)
  | some (.last .sub _) => ofCond (op1 < op2)
  | some (.last .sbc _) => ofCond (op1 < op2 || op1 = op2 && res ≠ 0)
  | some (.last .shl w) => ofCond ((op1 <<< (op2 - 1)) &&& w.sign ≠ 0)
  | some (.last .shr _) => (op1 >>> (op2 - 1)) &&& 1
  | some (.last .sar w) => (w.signed op1 >>> (op2 - 1).toInt32).toUInt32 &&& 1
  | some (.last .zn _) => 0
  | some (.last .rol _) => res &&& 1
  | some (.last .ror w) => ofCond (res &&& w.sign ≠ 0)

/-- `setadd8`, `x86_flags.h:577–584`: what an addition of two bytes leaves behind. -/
def setadd8 (a b : UInt8) (cpu : CpuState) : CpuState :=
  { cpu with
    flagsOp1 := a.toUInt32
    flagsOp2 := b.toUInt32
    flagsRes := (a.toUInt32 + b.toUInt32) &&& 0xff
    flagsOp := 4 }

/-- `setsub8`, `x86_flags.h:629–636`: what a subtraction or a comparison of two bytes leaves
behind. -/
def setsub8 (a b : UInt8) (cpu : CpuState) : CpuState :=
  { cpu with
    flagsOp1 := a.toUInt32
    flagsOp2 := b.toUInt32
    flagsRes := (a.toUInt32 - b.toUInt32) &&& 0xff
    flagsOp := 7 }

/-- The six arithmetic flags. -/
inductive ArithFlag where
  | cf
  | pf
  | af
  | zf
  | nf
  | vf
  deriving DecidableEq, Repr

namespace ArithFlag

/-- The flag's place in the flag word. -/
def mask : ArithFlag → UInt16
  | .cf => cFlag
  | .pf => pFlag
  | .af => aFlag
  | .zf => zFlag
  | .nf => nFlag
  | .vf => vFlag

/-- The function of the source that evaluates the flag. -/
def eval : ArithFlag → CpuState → UInt32
  | .cf => cfSet
  | .pf => pfSet
  | .af => afSet
  | .zf => zfSet
  | .nf => nfSet
  | .vf => vfSet

/-- The flag as an instruction sees it: the function is used as a condition. -/
def isSet (f : ArithFlag) (cpu : CpuState) : Bool := f.eval cpu ≠ 0

/-- The flag's bit of a flag word. -/
def inWord (f : ArithFlag) (flags : UInt16) : Bool := flags &&& f.mask ≠ 0

/-- The operations that leave the flag in the flag word. -/
def keptBy : ArithFlag → FlagsOp → Bool
  | _, .unknown => true
  | .cf, .last k _ => k = .inc || k = .dec
  | .vf, .last _ _ => false
  | _, .last k _ => k = .rol || k = .ror

/-- The flag stands in the flag word. -/
def readsWord (f : ArithFlag) (flagsOp : Int) : Bool :=
  (FlagsOp.ofCode flagsOp).any f.keptBy

end ArithFlag

/-- The bit of a flag that `flags_rebuild` puts into its word, `x86_flags.h:501–512`. -/
def rebuiltBit (cpu : CpuState) (f : ArithFlag) : UInt16 := if f.isSet cpu then f.mask else 0

/-- `flags_rebuild`, `x86_flags.h:496–516`. -/
def flagsRebuild (cpu : CpuState) : CpuState :=
  if cpu.flagsOp ≠ 0 then
    let tempf := rebuiltBit cpu .cf ||| rebuiltBit cpu .pf ||| rebuiltBit cpu .af |||
      rebuiltBit cpu .zf ||| rebuiltBit cpu .nf ||| rebuiltBit cpu .vf
    { cpu with
      regs := { cpu.regs with flags := (cpu.regs.flags &&& ~~~0x8d5) ||| tempf }
      flagsOp := 0 }
  else cpu

variable {cpu cpu' : CpuState} {f : ArithFlag}

/-- The same operation is pending, with the same operands. -/
structure SameLazy (cpu' cpu : CpuState) : Prop where
  op : cpu'.flagsOp = cpu.flagsOp
  res : cpu'.flagsRes = cpu.flagsRes
  op1 : cpu'.flagsOp1 = cpu.flagsOp1
  op2 : cpu'.flagsOp2 = cpu.flagsOp2

namespace ArithFlag

/-- A flag that stands in the flag word is read from there. -/
theorem eval_of_readsWord (h : f.readsWord cpu.flagsOp) :
    f.eval cpu = flagWord cpu f.mask := by
  unfold readsWord at h
  obtain ⟨op, hop, hkept⟩ := (Option.any_eq_true _ _).mp h
  rcases op with _ | ⟨k, w⟩
  · cases f <;> simp [eval, zfSet, nfSet, pfSet, vfSet, afSet, cfSet, hop, mask]
  · cases f <;> cases k <;> simp [keptBy] at hkept <;>
      simp [eval, zfSet, nfSet, pfSet, afSet, cfSet, hop, mask]

theorem isSet_of_readsWord (h : f.readsWord cpu.flagsOp) :
    f.isSet cpu = f.inWord cpu.regs.flags := by
  unfold isSet inWord
  rw [eval_of_readsWord h, decide_eq_decide]
  unfold flagWord
  rw [not_iff_not, ← UInt32.toNat_inj, ← UInt16.toNat_inj, UInt16.toNat_toUInt32]
  rfl

/-- Any other flag is computed from the pending operation alone. -/
theorem eval_of_not_readsWord (h : ¬ f.readsWord cpu.flagsOp) (hlazy : SameLazy cpu' cpu) :
    f.eval cpu' = f.eval cpu := by
  unfold readsWord at h
  rcases hop : FlagsOp.ofCode cpu.flagsOp with _ | _ | ⟨k, w⟩
  · cases f <;> simp [eval, zfSet, nfSet, pfSet, vfSet, afSet, cfSet, hlazy.op, hop]
  · rw [hop] at h
    cases f <;> exact absurd rfl h
  · rw [hop, Option.any_some] at h
    cases f <;> cases k <;> simp [keptBy] at h <;>
      simp [eval, zfSet, nfSet, pfSet, vfSet, afSet, cfSet, hlazy.op, hlazy.res, hlazy.op1,
        hlazy.op2, hop]

theorem isSet_of_not_readsWord (h : ¬ f.readsWord cpu.flagsOp) (hlazy : SameLazy cpu' cpu) :
    f.isSet cpu' = f.isSet cpu := by
  unfold isSet
  rw [eval_of_not_readsWord h hlazy]

theorem readsWord_zero (f : ArithFlag) : f.readsWord 0 = true := by
  cases f <;> rfl

theorem or_and_mask (a b mask : UInt16) : (a ||| b) &&& mask = a &&& mask ||| b &&& mask := by
  apply UInt16.toBitVec_inj.mp
  ext i
  simp [Bool.and_or_distrib_right]

/-- The masks do not overlap. -/
theorem rebuiltBit_and_mask (g f : ArithFlag) (cpu : CpuState) :
    rebuiltBit cpu g &&& f.mask = if g = f then rebuiltBit cpu f else 0 := by
  unfold rebuiltBit
  by_cases h : g = f
  · subst h
    rw [if_pos rfl]
    split
    · cases g <;> rfl
    · exact UInt16.zero_and
  · rw [if_neg h]
    split
    · cases f <;> cases g <;> first | rfl | exact absurd rfl h
    · exact UInt16.zero_and

theorem rebuiltBit_ne_zero : rebuiltBit cpu f ≠ 0 ↔ f.isSet cpu := by
  unfold rebuiltBit
  split
  next h =>
    refine iff_of_true ?_ h
    cases f <;> decide
  next h => exact iff_of_false (fun h' => h' rfl) h

/-- `flags_rebuild` changes no flag: it moves all of them into the flag word. -/
theorem isSet_flagsRebuild (f : ArithFlag) (cpu : CpuState) :
    f.isSet (flagsRebuild cpu) = f.isSet cpu := by
  unfold flagsRebuild
  split
  · rw [isSet_of_readsWord (readsWord_zero f)]
    have hold : cpu.regs.flags &&& ~~~0x8d5 &&& f.mask = 0 := by
      have hmask : ~~~0x8d5 &&& f.mask = 0 := by cases f <;> rfl
      rw [UInt16.and_assoc, hmask, UInt16.and_zero]
    have hnew : (cpu.regs.flags &&& ~~~0x8d5 |||
        (rebuiltBit cpu .cf ||| rebuiltBit cpu .pf ||| rebuiltBit cpu .af |||
          rebuiltBit cpu .zf ||| rebuiltBit cpu .nf ||| rebuiltBit cpu .vf)) &&& f.mask =
        rebuiltBit cpu f := by
      simp only [or_and_mask, hold, rebuiltBit_and_mask]
      cases f <;> simp
    unfold inWord
    dsimp only
    rw [hnew]
    exact Bool.eq_iff_iff.mpr (decide_eq_true_iff.trans rebuiltBit_ne_zero)
  · rfl

/-- Operands with which an addition of bytes gives a flag a value. -/
def addends : ArithFlag → Bool → UInt8 × UInt8
  | .cf, true => (0x80, 0x80)
  | .af, true => (0x08, 0x08)
  | .nf, true => (0x40, 0x40)
  | .vf, true => (0x40, 0x40)
  | .zf, false => (0x00, 0x01)
  | .pf, false => (0x00, 0x01)
  | _, _ => (0x00, 0x00)

theorem isSet_setadd8_addends (f : ArithFlag) (b : Bool) (cpu : CpuState) :
    f.isSet (setadd8 (f.addends b).1 (f.addends b).2 cpu) = b := by
  have hlazy : SameLazy (setadd8 (f.addends b).1 (f.addends b).2 cpu)
      (setadd8 (f.addends b).1 (f.addends b).2 default) := ⟨rfl, rfl, rfl, rfl⟩
  have hread : ¬ f.readsWord (setadd8 (f.addends b).1 (f.addends b).2 default).flagsOp := by
    cases f <;> exact Bool.false_ne_true
  rw [isSet_of_not_readsWord hread hlazy]
  cases f <;> cases b <;> decide +kernel
end ArithFlag

end Wbox.Cpu
