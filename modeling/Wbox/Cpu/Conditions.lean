import Mathlib
import Wbox.Cpu.LazyFlags

/-!
# Comparisons and sums

A comparison leaves its operands in the lazy flags (`setsub8` to `setsub32`), and a conditional
jump reads flags out of them (`src/cpu/x86_ops_jump.h`). Between the two, `flags_rebuild` may
have moved the flags into the flag word. The jump goes as the operands compare.

`ADC` after `ADC` adds numbers of any length, though each carry is worked out of the operands of
the instruction before (`src/cpu/x86_ops_arith.h`).
-/

namespace Wbox.Cpu

/-- `setsub16`, `x86_flags.h:637–644`. -/
def setsub16 (a b : UInt16) (cpu : CpuState) : CpuState :=
  { cpu with
    flagsOp1 := a.toUInt32
    flagsOp2 := b.toUInt32
    flagsRes := (a.toUInt32 - b.toUInt32) &&& 0xffff
    flagsOp := 8 }

/-- `setsub32`, `x86_flags.h:645–652`. -/
def setsub32 (a b : UInt32) (cpu : CpuState) : CpuState :=
  { cpu with flagsOp1 := a, flagsOp2 := b, flagsRes := a - b, flagsOp := 9 }

/-- The conditions of the jumps. -/
inductive Cond where
  | o | no | b | nb | e | ne | be | nbe | s | ns | p | np | l | nl | le | nle

namespace Cond

open ArithFlag (cf pf zf nf vf)

/-- `cond_O` to `cond_NLE`, `x86_ops_jump.h:1–16`. -/
def holds (cpu : CpuState) : Cond → Bool
  | o => vf.isSet cpu
  | no => !vf.isSet cpu
  | b => cf.isSet cpu
  | nb => !cf.isSet cpu
  | e => zf.isSet cpu
  | ne => !zf.isSet cpu
  | be => cf.isSet cpu || zf.isSet cpu
  | nbe => !cf.isSet cpu && !zf.isSet cpu
  | s => nf.isSet cpu
  | ns => !nf.isSet cpu
  | p => pf.isSet cpu
  | np => !pf.isSet cpu
  | l => nf.isSet cpu != vf.isSet cpu
  | nl => nf.isSet cpu == vf.isSet cpu
  | le => (nf.isSet cpu != vf.isSet cpu) || zf.isSet cpu
  | nle => (nf.isSet cpu == vf.isSet cpu) && !zf.isSet cpu

end Cond

/-- The low byte of a number has an even number of ones. -/
def evenParity {w : Nat} (x : BitVec w) : Bool :=
  ((List.range 8).countP fun e => x.getLsbD e) % 2 = 0

/-- What a condition asks of the operands of a comparison. -/
def Cond.compares {w : Nat} (x y : BitVec w) : Cond → Bool
  | o => x.ssubOverflow y
  | no => !x.ssubOverflow y
  | b => x.ult y
  | nb => y.ule x
  | e => x == y
  | ne => x != y
  | be => x.ule y
  | nbe => y.ult x
  | s => (x - y).msb
  | ns => !(x - y).msb
  | p => evenParity (x - y)
  | np => !evenParity (x - y)
  | l => x.slt y
  | nl => y.sle x
  | le => x.sle y
  | nle => y.slt x

/-- The flags are those of a comparison of the two operands. -/
structure Compared {w : Nat} (x y : BitVec w) (cpu : CpuState) : Prop where
  cf : ArithFlag.cf.isSet cpu = x.ult y
  zf : ArithFlag.zf.isSet cpu = (x == y)
  nf : ArithFlag.nf.isSet cpu = (x - y).msb
  vf : ArithFlag.vf.isSet cpu = x.ssubOverflow y
  pf : ArithFlag.pf.isSet cpu = evenParity (x - y)

/-- Instructions that leave the arithmetic flags alone, with any number of
`flags_rebuild`s among them. -/
inductive FlagsKept (cpu : CpuState) : CpuState → Prop where
  | refl : FlagsKept cpu cpu
  | other {cpu₁ cpu₂ : CpuState} (h : FlagsKept cpu cpu₁) (hlazy : SameLazy cpu₂ cpu₁)
      (hword : cpu₂.regs.flags &&& 0x8d5 = cpu₁.regs.flags &&& 0x8d5) : FlagsKept cpu cpu₂
  | rebuild {cpu₁ : CpuState} (h : FlagsKept cpu cpu₁) : FlagsKept cpu (flagsRebuild cpu₁)

section SignedComparison

variable {w : Nat} {x y : BitVec w}

/-- Numbers of one sign are told apart by the sign of their difference. -/
theorem msb_sub_eq_ult (h : x.msb = y.msb) : (x - y).msb = x.ult y := by
  have hx := x.isLt
  have hy := y.isLt
  rcases w with _ | w
  · simp [BitVec.of_length_zero]
  · simp only [BitVec.msb_eq_decide, BitVec.ult_eq_decide, BitVec.toNat_sub, decide_eq_decide,
      Nat.add_sub_cancel, Nat.pow_succ] at hx hy h ⊢
    generalize 2 ^ w = p at hx hy h ⊢
    rcases Nat.lt_or_ge x.toNat y.toNat with hlt | hle
    · rw [Nat.mod_eq_of_lt (by omega)]
      omega
    · rw [show p * 2 - y.toNat + x.toNat = x.toNat - y.toNat + p * 2 by omega,
        Nat.add_mod_right, Nat.mod_eq_of_lt (by omega)]
      omega

/-- Overflow is where the operands differ in sign and the difference has not the sign of the
first. -/
theorem ssubOverflow_eq_msb (x y : BitVec w) :
    x.ssubOverflow y = ((x.msb ^^ y.msb) && (x.msb ^^ (x - y).msb)) := by
  rw [BitVec.ssubOverflow_eq]
  cases x.msb <;> cases y.msb <;> cases (x - y).msb <;> rfl

/-- The sign of the difference tells signed numbers apart where nothing overflows. -/
theorem msb_sub_bne_ssubOverflow (x y : BitVec w) :
    ((x - y).msb != x.ssubOverflow y) = x.slt y := by
  rw [ssubOverflow_eq_msb]
  by_cases h : x.msb = y.msb
  · rw [BitVec.slt_eq_ult_of_msb_eq h, msb_sub_eq_ult h, h]
    simp
  · rw [BitVec.slt_eq_not_ult_of_msb_neq h, BitVec.ult_eq_msb_of_msb_neq h,
      Bool.eq_not_of_ne h]
    cases y.msb <;> cases (x - y).msb <;> rfl

end SignedComparison

theorem ofCond_ne_zero {b : Bool} : ofCond b ≠ 0 ↔ b := by
  cases b <;> decide

namespace Compared

variable {w : FlagsWidth} {n : Nat} {x y : BitVec n} {cpu cpu' : CpuState}

/-- The sign bit of a width under its mask. -/
theorem and_sign_ne_zero (hsign : w.sign.toBitVec = BitVec.twoPow 32 (n - 1)) (hn : n ≤ 32)
    (h0 : 0 < n) (v : UInt32) : decide (v &&& w.sign ≠ 0) = v.toBitVec.getLsbD (n - 1) := by
  rw [Bool.eq_iff_iff, decide_eq_true_iff, ne_eq, ← UInt32.toBitVec_inj, UInt32.toBitVec_and,
    hsign, BitVec.and_twoPow]
  split
  next h =>
    refine iff_of_true (fun heq => ?_) h
    have hbit := congrArg (·.getLsbD (n - 1)) heq
    simp [BitVec.getLsbD_twoPow] at hbit
    omega
  next h => exact iff_of_false (fun hne => hne rfl) h

/-- The parity of a zero-extended number is that of its low byte. -/
theorem parity_eq {v : UInt32} (hv : v.toBitVec = x.setWidth 32) :
    decide (znptable8Parity (v &&& 0xff) ≠ 0) = evenParity x := by
  have hbits : ((List.range 8).countP fun e => (v &&& 0xff).toNat.testBit e) =
      (List.range 8).countP fun e => x.getLsbD e := by
    refine List.countP_congr fun e he => ?_
    rw [List.mem_range] at he
    have hlow : (0xff : UInt32).toBitVec.getLsbD e = true := by interval_cases e <;> rfl
    rw [← UInt32.toNat_toBitVec, BitVec.testBit_toNat, UInt32.toBitVec_and, hv,
      BitVec.getLsbD_and, hlow, Bool.and_true, BitVec.getLsbD_setWidth,
      decide_eq_true (show e < 32 by omega), Bool.true_and]
  unfold znptable8Parity evenParity
  rw [hbits]
  rcases Nat.mod_two_eq_zero_or_one ((List.range 8).countP fun e => x.getLsbD e) with h | h <;>
    simp [h, pFlag]

/-- The flags that a pending subtraction of two zero-extended operands stands for. -/
theorem of_pending (h8 : 8 ≤ n) (h32 : n ≤ 32)
    (hsign : w.sign.toBitVec = BitVec.twoPow 32 (n - 1))
    (hop : FlagsOp.ofCode cpu.flagsOp = some (.last .sub w))
    (h1 : cpu.flagsOp1.toBitVec = x.setWidth 32) (h2 : cpu.flagsOp2.toBitVec = y.setWidth 32)
    (hres : cpu.flagsRes.toBitVec = (x - y).setWidth 32) : Compared x y cpu := by
  have hmsb : ∀ z : BitVec n, (z.setWidth 32).getLsbD (n - 1) = z.msb := by
    intro z
    rw [BitVec.getLsbD_setWidth, BitVec.msb_eq_getLsbD_last,
      decide_eq_true (show n - 1 < 32 by omega), Bool.true_and]
  have hval : ∀ z : BitVec n, (z.setWidth 32).toNat = z.toNat := fun z =>
    BitVec.toNat_setWidth_of_le h32
  constructor
  · simp only [ArithFlag.isSet, ArithFlag.eval, cfSet, hop, ofCond_ne_zero]
    rw [BitVec.ult_eq_decide, ← hval x, ← hval y, ← h1, ← h2]
    simp [UInt32.lt_iff_toNat_lt]
  · simp only [ArithFlag.isSet, ArithFlag.eval, zfSet, hop, ofCond_ne_zero]
    rw [Bool.decide_eq_true, Bool.eq_iff_iff, decide_eq_true_iff, beq_iff_eq,
      ← sub_eq_zero (a := x), ← BitVec.toNat_inj, ← hval, ← hres, ← UInt32.toBitVec_inj,
      ← BitVec.toNat_inj]
    rfl
  · simp only [ArithFlag.isSet, ArithFlag.eval, nfSet, hop]
    rw [and_sign_ne_zero hsign h32 (by omega), hres, hmsb]
  · simp only [ArithFlag.isSet, ArithFlag.eval, vfSet, hop]
    rw [and_sign_ne_zero hsign h32 (by omega), ssubOverflow_eq_msb]
    simp only [UInt32.toBitVec_and, UInt32.toBitVec_xor, h1, h2, hres, BitVec.getLsbD_and,
      BitVec.getLsbD_xor, hmsb]
  · simp only [ArithFlag.isSet, ArithFlag.eval, pfSet, hop]
    exact parity_eq hres

/-- A conditional jump is decided as the operands of the comparison ask. -/
theorem holds_eq (h : Compared x y cpu) (c : Cond) : c.holds cpu = c.compares x y := by
  have hl := msb_sub_bne_ssubOverflow x y
  have hle : (x.ult y || x == y) = x.ule y := by
    rw [BitVec.ult_eq_decide, BitVec.ule_eq_decide, Bool.eq_iff_iff, Bool.or_eq_true,
      decide_eq_true_iff, decide_eq_true_iff, beq_iff_eq, ← BitVec.toNat_inj, Nat.le_iff_lt_or_eq]
  have hnl : ((x - y).msb == x.ssubOverflow y) = y.sle x := by
    rw [BitVec.sle_eq_not_slt, ← hl]
    cases (x - y).msb <;> cases x.ssubOverflow y <;> rfl
  cases c <;> simp only [Cond.holds, Cond.compares, h.cf, h.zf, h.nf, h.vf, h.pf]
  case nb => exact (BitVec.ule_eq_not_ult y x).symm
  case ne => rfl
  case be => exact hle
  case nbe => rw [← Bool.not_or, hle, BitVec.ule_eq_not_ult, Bool.not_not]
  case l => exact hl
  case nl => exact hnl
  case le => rw [hl, BitVec.sle_eq_slt_or_eq]
  case nle =>
    rw [hnl, BitVec.sle_eq_not_slt, ← Bool.not_or, ← BitVec.sle_eq_slt_or_eq,
      BitVec.sle_eq_not_slt, Bool.not_not]

end Compared

/-- The difference of zero-extended operands, cut to their width. -/
theorem sub_and_mask {n : Nat} (hn : n ≤ 32) (x y : BitVec n) :
    (x.setWidth 32 - y.setWidth 32) &&& (BitVec.allOnes n).setWidth 32 =
      (x - y).setWidth 32 := by
  apply BitVec.eq_of_toNat_eq
  have hdvd : 2 ^ n ∣ 2 ^ 32 := Nat.pow_dvd_pow 2 hn
  rw [BitVec.toNat_and, BitVec.toNat_setWidth_of_le hn, BitVec.toNat_setWidth_of_le hn,
    BitVec.toNat_allOnes, Nat.and_two_pow_sub_one_eq_mod, BitVec.toNat_sub, BitVec.toNat_sub,
    BitVec.toNat_setWidth_of_le hn, BitVec.toNat_setWidth_of_le hn,
    Nat.mod_mod_of_dvd _ hdvd]
  obtain ⟨k, hk⟩ := hdvd
  have hy := y.isLt
  rcases k with _ | k
  · omega
  · rw [hk, show 2 ^ n * (k + 1) - y.toNat + x.toNat = 2 ^ n - y.toNat + x.toNat + 2 ^ n * k by
      rw [Nat.mul_succ]; omega, Nat.add_mul_mod_self_left]

theorem compared_setsub8 (a b : UInt8) (cpu : CpuState) :
    Compared a.toBitVec b.toBitVec (setsub8 a b cpu) :=
  .of_pending (w := .b8) (by decide) (by decide) rfl rfl rfl rfl
    (sub_and_mask (by decide) a.toBitVec b.toBitVec)

theorem compared_setsub16 (a b : UInt16) (cpu : CpuState) :
    Compared a.toBitVec b.toBitVec (setsub16 a b cpu) :=
  .of_pending (w := .b16) (by decide) (by decide) rfl rfl rfl rfl
    (sub_and_mask (by decide) a.toBitVec b.toBitVec)

theorem compared_setsub32 (a b : UInt32) (cpu : CpuState) :
    Compared a.toBitVec b.toBitVec (setsub32 a b cpu) :=
  .of_pending (w := .b32) (by decide) (by decide) rfl rfl (BitVec.setWidth_eq _).symm
    (BitVec.setWidth_eq _).symm (BitVec.setWidth_eq _).symm

/-- What stands between a comparison and a jump changes no flag. -/
theorem FlagsKept.isSet {cpu cpu' : CpuState} (h : FlagsKept cpu cpu') (f : ArithFlag) :
    f.isSet cpu' = f.isSet cpu := by
  induction h with
  | refl => rfl
  | @other cpu₁ cpu₂ _ hlazy hword ih =>
    rw [← ih]
    by_cases hread : f.readsWord cpu₁.flagsOp
    · have hmask : 0x8d5 &&& f.mask = f.mask := by cases f <;> rfl
      rw [ArithFlag.isSet_of_readsWord hread,
        ArithFlag.isSet_of_readsWord (by rwa [hlazy.op])]
      unfold ArithFlag.inWord
      rw [← hmask, ← UInt16.and_assoc, hword, UInt16.and_assoc]
    · exact ArithFlag.isSet_of_not_readsWord hread hlazy
  | rebuild _ ih => rw [ArithFlag.isSet_flagsRebuild, ih]

theorem Compared.kept {w : Nat} {x y : BitVec w} {cpu cpu' : CpuState} (h : Compared x y cpu)
    (hk : FlagsKept cpu cpu') : Compared x y cpu' := by
  constructor <;> rw [hk.isSet]
  exacts [h.cf, h.zf, h.nf, h.vf, h.pf]

/-- A conditional jump is decided as the operands of the last comparison ask, at every width and
however often the flags have been rebuilt in between. -/
theorem Cond.holds_of_flagsKept (c : Cond) (cpu cpu' : CpuState) :
    (∀ a b : UInt8, FlagsKept (setsub8 a b cpu) cpu' →
      c.holds cpu' = c.compares a.toBitVec b.toBitVec) ∧
    (∀ a b : UInt16, FlagsKept (setsub16 a b cpu) cpu' →
      c.holds cpu' = c.compares a.toBitVec b.toBitVec) ∧
    ∀ a b : UInt32, FlagsKept (setsub32 a b cpu) cpu' →
      c.holds cpu' = c.compares a.toBitVec b.toBitVec := by
  refine ⟨fun a b h => ?_, fun a b h => ?_, fun a b h => ?_⟩
  · exact ((compared_setsub8 a b cpu).kept h).holds_eq c
  · exact ((compared_setsub16 a b cpu).kept h).holds_eq c
  · exact ((compared_setsub32 a b cpu).kept h).holds_eq c

/-- As signed words `0x8000` is below 1, though their difference overflows to a positive one. -/
theorem l_holds_of_flagsKept :
    Cond.l.holds (flagsRebuild (setsub16 0x8000 1 default)) = true ∧
      Cond.s.holds (flagsRebuild (setsub16 0x8000 1 default)) = false := by
  have hkept : FlagsKept (setsub16 0x8000 1 default)
      (flagsRebuild (setsub16 0x8000 1 default)) := .rebuild .refl
  exact ⟨(Cond.holds_of_flagsKept .l default _).2.1 0x8000 1 hkept,
    (Cond.holds_of_flagsKept .s default _).2.1 0x8000 1 hkept⟩

section Sums

open ArithFlag (cf)

/-- `setadc32`, `x86_flags.h:699–706`. -/
def setadc32 (tempc a b : UInt32) (cpu : CpuState) : CpuState :=
  { cpu with flagsOp1 := a, flagsOp2 := b, flagsRes := a + b + tempc, flagsOp := 33 }

/-- `ADC` of double words, `x86_ops_arith.h:332`. -/
def opAdc (dst src : UInt32) (cpu : CpuState) : UInt32 × CpuState :=
  let tempc := if cf.isSet cpu then 1 else 0
  (dst + src + tempc, setadc32 tempc dst src cpu)

/-- The `ADC`s of a sum, lowest word first, with other instructions in front of each. -/
def adcWords (between : CpuState → CpuState) : List (UInt32 × UInt32) → CpuState →
    List UInt32 × CpuState
  | [], cpu => ([], cpu)
  | (dst, src) :: ws, cpu =>
      let (r, cpu) := opAdc dst src (between cpu)
      let (rs, cpu) := adcWords between ws cpu
      (r :: rs, cpu)

/-- The number that words stand for, lowest word first. -/
def number (ws : List UInt32) : Nat := Nat.ofDigits (2 ^ 32) (ws.map UInt32.toNat)

theorem number_cons (w : UInt32) (ws : List UInt32) :
    number (w :: ws) = w.toNat + 2 ^ 32 * number ws := by
  simp [number, Nat.ofDigits_cons]

variable {between : CpuState → CpuState}

theorem opAdc_carry (dst src : UInt32) (cpu : CpuState) :
    (opAdc dst src cpu).1.toNat + 2 ^ 32 * (cf.isSet (opAdc dst src cpu).2).toNat =
      dst.toNat + src.toNat + (cf.isSet cpu).toNat := by
  have hd := dst.toNat_lt
  have hs := src.toNat_lt
  have hbool : ∀ b : Bool, b.toNat = if b then 1 else 0 := fun b => by cases b <;> rfl
  have hsum : ∀ c : UInt32, c.toNat ≤ 1 → (dst + src + c).toNat + 2 ^ 32 *
      (decide (ofCond (dst + src + c < dst || dst + src + c = dst && src = 0xffffffff) ≠ 0)).toNat
      = dst.toNat + src.toNat + c.toNat := by
    intro c hc
    simp only [ofCond_ne_zero, hbool, decide_eq_true_eq, Bool.or_eq_true, Bool.and_eq_true,
      UInt32.lt_iff_toNat_lt, ← UInt32.toNat_inj, UInt32.toNat_add, UInt32.reduceToNat]
    split <;> omega
  cases h : cf.isSet cpu
  · rw [opAdc, h]
    exact hsum 0 (by decide)
  · rw [opAdc, h]
    exact hsum 1 (by decide)

/-- The words that are left stand for the sum, and the carry for what does not fit. -/
theorem adcWords_number (hcf : ∀ cpu, cf.isSet (between cpu) = cf.isSet cpu)
    (ws : List (UInt32 × UInt32)) (cpu : CpuState) :
    number (adcWords between ws cpu).1 +
        2 ^ (32 * ws.length) * (cf.isSet (adcWords between ws cpu).2).toNat =
      number (ws.map (·.1)) + number (ws.map (·.2)) + (cf.isSet cpu).toNat := by
  induction ws generalizing cpu with
  | nil => simp [adcWords, number]
  | cons w ws ih =>
    obtain ⟨dst, src⟩ := w
    have hfirst := opAdc_carry dst src (between cpu)
    rw [hcf] at hfirst
    have hpow : 2 ^ (32 * (ws.length + 1)) = 2 ^ 32 * 2 ^ (32 * ws.length) := by
      rw [← Nat.pow_add, Nat.mul_succ, Nat.add_comm]
    simp only [adcWords, List.map_cons, number_cons, List.length_cons, hpow]
    linarith [ih (opAdc dst src (between cpu)).2]

/-- Two words, where the flags are rebuilt in front of each. -/
theorem adcWords_flagsRebuild :
    number (adcWords flagsRebuild [(0xffffffff, 1), (1, 2)] default).1 + 2 ^ 64 *
        (cf.isSet (adcWords flagsRebuild [(0xffffffff, 1), (1, 2)] default).2).toNat =
      0x400000000 :=
  (adcWords_number (ArithFlag.isSet_flagsRebuild .cf) [(0xffffffff, 1), (1, 2)] default).trans rfl

end Sums

end Wbox.Cpu
