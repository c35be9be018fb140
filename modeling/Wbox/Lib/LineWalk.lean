import Mathlib.Algebra.Order.Ring.Int
import Mathlib.Data.Int.GCD
import Mathlib.Logic.Function.Iterate
import Mathlib.Tactic.Linarith
import Mathlib.Tactic.Ring

/-!
# Walks along a line

Bresenham's algorithm on a line of `a` steps along its longer axis and `b` along the other one. The
error term is a function of the steps taken. A round tests twice the error term as `w` shows it,
which may wrap around.
-/

namespace Wbox.Lib

/-- The error term after `i` steps along the longer axis and `j` along the other one. -/
def lineErr (a b i j : Int) : Int := j * a - i * b + a - b

/-- A round: a step along the longer axis, along the other one, along both, or none. -/
def lineStep (w : Int → Int) (a b : Int) (p : Int × Int) : Int × Int :=
  (if -b < w (2 * lineErr a b p.1 p.2) then p.1 + 1 else p.1,
    if w (2 * lineErr a b p.1 p.2) < a then p.2 + 1 else p.2)

/-- The line over `i`, rounded to the nearest number; halves are rounded down. -/
def lineRound (a b i : Int) : Int := (2 * (i * b) + a - 1) / (2 * a)

/-- `w v` is `v`, but for multiples of `m`, in the range of length `m` from `lo` on. -/
structure WrapsFrom (w : Int → Int) (lo m : Int) : Prop where
  lower : ∀ v, lo ≤ w v
  upper : ∀ v, w v < lo + m
  congr : ∀ v, m ∣ v - w v

/-- The line has a length, and its steps are in the range. -/
structure LineInRange (lo m a b : Int) : Prop where
  pos : 0 < a
  nonneg : 0 ≤ b
  le : b ≤ a
  lower : lo ≤ -a
  upper : a ≤ lo + m
  modulus : 2 * a < m

variable {w : Int → Int} {lo m a b i j v : Int}

section Wrap

theorem WrapsFrom.eq_self (h : WrapsFrom w lo m) (hlo : lo ≤ v) (hhi : v < lo + m) : w v = v := by
  have hl := h.lower v
  have hu := h.upper v
  have hzero : v - w v = 0 := by
    apply Int.eq_zero_of_abs_lt_dvd (h.congr v)
    rw [abs_lt]
    constructor <;> omega
  omega

/-- What is beyond the range has been lowered by `m` at least. -/
theorem WrapsFrom.of_high (h : WrapsFrom w lo m) (hhi : lo + m ≤ v) : w v + m ≤ v := by
  have hu := h.upper v
  have hle : m ≤ v - w v := Int.le_of_dvd (by omega) (h.congr v)
  omega

end Wrap

section Rounding

/-- The rounded line is within half a step of the line. -/
theorem eq_lineRound_iff (ha : 0 < a) :
    j = lineRound a b i ↔ -a ≤ 2 * (j * a - i * b) ∧ 2 * (j * a - i * b) < a := by
  have hdouble : j * (2 * a) = 2 * (j * a) := by ring
  unfold lineRound
  rw [eq_comm, Int.ediv_eq_iff_of_pos (by omega), hdouble]
  omega

theorem lineRound_zero (ha : 0 < a) : lineRound a b 0 = 0 := by
  symm
  rw [eq_lineRound_iff ha]
  omega

theorem lineRound_end (ha : 0 < a) : lineRound a b a = b := by
  symm
  rw [eq_lineRound_iff ha, Int.mul_comm b a]
  omega

/-- On the rounded line the error term stays in a window as long as the line. -/
theorem lineErr_round (ha : 0 < a) :
    a - 2 * b ≤ 2 * lineErr a b i (lineRound a b i) ∧
      2 * lineErr a b i (lineRound a b i) < 3 * a - 2 * b := by
  have hround := (eq_lineRound_iff ha).mp (rfl : lineRound a b i = lineRound a b i)
  unfold lineErr
  omega

end Rounding

section Walk

variable {n k : Nat} {p : Int × Int}

/-- A round on the rounded line goes on along it, if twice the error term is in the range. -/
theorem lineStep_round (hw : WrapsFrom w lo m) (h : LineInRange lo m a b)
    (hfits : 2 * lineErr a b i (lineRound a b i) < lo + m) :
    lineStep w a b (i, lineRound a b i) = (i + 1, lineRound a b (i + 1)) := by
  obtain ⟨hpos, hnonneg, hle, hlower, -, -⟩ := h
  obtain ⟨hlo, hhi⟩ := lineErr_round (b := b) (i := i) hpos
  have hself : w (2 * lineErr a b i (lineRound a b i)) = 2 * lineErr a b i (lineRound a b i) :=
    hw.eq_self (by omega) hfits
  have hlong : -b < 2 * lineErr a b i (lineRound a b i) := by
    rcases Int.lt_or_eq_of_le hle with hlt | heq
    · omega
    · -- on a diagonal the error term is a multiple of `a`
      subst heq
      have hmul : lineErr b b i (lineRound b b i) = (lineRound b b i - i) * b := by
        unfold lineErr
        ring
      rw [hmul] at hlo ⊢
      have hhalf : 0 ≤ lineRound b b i - i := by
        by_contra hneg
        have hone : (lineRound b b i - i) * b ≤ -1 * b :=
          Int.mul_le_mul_of_nonneg_right (by omega) hnonneg
        omega
      have hzero : 0 ≤ (lineRound b b i - i) * b := Int.mul_nonneg hhalf hnonneg
      omega
  have hright : (i + 1) * b = i * b + b := by ring
  have hup : (lineRound a b i + 1) * a = lineRound a b i * a + a := by ring
  unfold lineErr at hlong hhi
  unfold lineStep lineErr
  unfold lineErr at hself
  rw [hself, if_pos hlong]
  split
  · next hshort =>
    have hround : lineRound a b i + 1 = lineRound a b (i + 1) := by
      rw [eq_lineRound_iff hpos, hright, hup]
      omega
    rw [hround]
  · next hshort =>
    have hround : lineRound a b i = lineRound a b (i + 1) := by
      rw [eq_lineRound_iff hpos, hright]
      omega
    rw [← hround]

/-- As long as twice the error term is in the range, the walk is the rounded line. -/
theorem lineWalk_round (hw : WrapsFrom w lo m) (h : LineInRange lo m a b)
    (hfits : ∀ i : Nat, i < n → 2 * lineErr a b i (lineRound a b i) < lo + m) (hk : k ≤ n) :
    (lineStep w a b)^[k] (0, 0) = ((k : Int), lineRound a b k) := by
  induction k with
  | zero =>
    rw [Function.iterate_zero_apply, Int.natCast_zero, lineRound_zero h.pos]
  | succ k ih =>
    rw [Function.iterate_succ_apply', ih (by omega), lineStep_round hw h (hfits k (by omega)),
      Int.natCast_succ]

theorem lineStep_long (w : Int → Int) (a b : Int) (p : Int × Int) :
    (lineStep w a b p).1 = p.1 ∨ (lineStep w a b p).1 = p.1 + 1 := by
  unfold lineStep
  dsimp only
  split
  · exact Or.inr rfl
  · exact Or.inl rfl

theorem lineStep_short (w : Int → Int) (a b : Int) (p : Int × Int) :
    (lineStep w a b p).2 = p.2 ∨ (lineStep w a b p).2 = p.2 + 1 := by
  unfold lineStep
  dsimp only
  split
  · exact Or.inr rfl
  · exact Or.inl rfl

theorem lineWalk_long (w : Int → Int) (a b : Int) (p : Int × Int) (k : Nat) :
    ((lineStep w a b)^[k] p).1 ≤ p.1 + k := by
  induction k with
  | zero => simp
  | succ k ih =>
    have hstep := lineStep_long w a b ((lineStep w a b)^[k] p)
    rw [Function.iterate_succ_apply']
    push_cast
    omega

/-- No coordinate of a walk ever decreases. -/
theorem lineWalk_mono (w : Int → Int) (a b : Int) (p : Int × Int) (k : Nat) :
    p.1 ≤ ((lineStep w a b)^[k] p).1 ∧ p.2 ≤ ((lineStep w a b)^[k] p).2 := by
  induction k with
  | zero => simp
  | succ k ih =>
    have hlong := lineStep_long w a b ((lineStep w a b)^[k] p)
    have hshort := lineStep_short w a b ((lineStep w a b)^[k] p)
    rw [Function.iterate_succ_apply']
    omega

/-- A walk stays between its start and where it comes later. -/
theorem lineWalk_between (w : Int → Int) (a b : Int) (hk : k ≤ n) :
    0 ≤ ((lineStep w a b)^[k] (0, 0)).1 ∧
      ((lineStep w a b)^[k] (0, 0)).1 ≤ ((lineStep w a b)^[n] (0, 0)).1 ∧
      0 ≤ ((lineStep w a b)^[k] (0, 0)).2 ∧
      ((lineStep w a b)^[k] (0, 0)).2 ≤ ((lineStep w a b)^[n] (0, 0)).2 := by
  have hfirst := lineWalk_mono w a b (0, 0) k
  have hrest := lineWalk_mono w a b ((lineStep w a b)^[k] (0, 0)) (n - k)
  rw [← Function.iterate_add_apply, Nat.sub_add_cancel hk] at hrest
  exact ⟨hfirst.1, hrest.1, hfirst.2, hrest.2⟩

/-- A walk of `n` rounds that comes `n` steps far makes one in every round. -/
theorem lineWalk_long_eq (hreach : ((lineStep w a b)^[n] (0, 0)).1 = n) (hk : k ≤ n) :
    ((lineStep w a b)^[k] (0, 0)).1 = k := by
  have hhi := lineWalk_long w a b (0, 0) k
  have hrest := lineWalk_long w a b ((lineStep w a b)^[k] (0, 0)) (n - k)
  rw [← Function.iterate_add_apply, Nat.sub_add_cancel hk, hreach] at hrest
  push_cast [hk] at hrest
  dsimp only at hhi
  omega

/-- Where twice the error term is beyond the range, a round with a step along the longer axis leaves
it there. -/
theorem lineErr_stays_high (hw : WrapsFrom w lo m) (h : LineInRange lo m a b)
    (hlong : (lineStep w a b p).1 = p.1 + 1) (hhigh : lo + m ≤ 2 * lineErr a b p.1 p.2) :
    lo + m ≤ 2 * lineErr a b (lineStep w a b p).1 (lineStep w a b p).2 := by
  obtain ⟨hpos, hnonneg, hle, hlower, -, -⟩ := h
  have hwrapped := hw.of_high hhigh
  have hshort : (lineStep w a b p).2 =
      if w (2 * lineErr a b p.1 p.2) < a then p.2 + 1 else p.2 := rfl
  rw [hlong, hshort]
  split
  · have hboth : lineErr a b (p.1 + 1) (p.2 + 1) = lineErr a b p.1 p.2 + (a - b) := by
      unfold lineErr
      ring
    rw [hboth]
    omega
  · next hno =>
    have hone : lineErr a b (p.1 + 1) p.2 = lineErr a b p.1 p.2 - b := by
      unfold lineErr
      ring
    rw [hone]
    omega

/-- The last round but one is not beyond the range if the walk reaches the end of the line. -/
theorem lineErr_last (hw : WrapsFrom w lo m) (h : LineInRange lo m a b) (hp : p.1 = a - 1)
    (hlast : lineStep w a b p = (a, b)) : 2 * lineErr a b p.1 p.2 < lo + m := by
  obtain ⟨hpos, -, -, -, hupper, hmodulus⟩ := h
  by_contra hhigh
  have hwrapped := hw.of_high (Int.not_lt.mp hhigh)
  have hshort : (if w (2 * lineErr a b p.1 p.2) < a then p.2 + 1 else p.2) = b :=
    congrArg Prod.snd hlast
  split at hshort
  · have hzero : lineErr a b p.1 p.2 = 0 := by
      have hp2 : p.2 = b - 1 := by omega
      unfold lineErr
      rw [hp, hp2]
      ring
    omega
  · next hno =>
    have hlen : lineErr a b p.1 p.2 = a := by
      unfold lineErr
      rw [hp, hshort]
      ring
    omega

/-- A walk that reaches the end of the line in as many rounds as the line is long keeps twice the
error term in the range. -/
theorem lineErr_fits_of_reaches (hw : WrapsFrom w lo m) (h : LineInRange lo m a b) (hn : a = n)
    (hreach : (lineStep w a b)^[n] (0, 0) = (a, b)) (hk : k < n) :
    2 * lineErr a b k (lineRound a b k) < lo + m := by
  have hlong : ∀ l ≤ n, ((lineStep w a b)^[l] (0, 0)).1 = l :=
    fun l hl => lineWalk_long_eq ((congrArg Prod.fst hreach).trans hn) hl
  -- what is beyond the range stays there until the last round but one
  have hlow : ∀ l < n, 2 * lineErr a b ((lineStep w a b)^[l] (0, 0)).1
      ((lineStep w a b)^[l] (0, 0)).2 < lo + m := by
    intro l hl
    by_contra hhigh
    have hstays : ∀ d, l + d < n → lo + m ≤ 2 * lineErr a b ((lineStep w a b)^[l + d] (0, 0)).1
        ((lineStep w a b)^[l + d] (0, 0)).2 := by
      intro d
      induction d with
      | zero => exact fun _ => Int.not_lt.mp hhigh
      | succ d ih =>
        intro hd
        have hnext := hlong (l + d + 1) (by omega)
        rw [Function.iterate_succ_apply'] at hnext
        rw [← Nat.add_assoc, Function.iterate_succ_apply']
        apply lineErr_stays_high hw h _ (ih (by omega))
        rw [hnext, hlong (l + d) (by omega)]
        push_cast
        rfl
    have hlast := hstays (n - 1 - l) (by omega)
    rw [show l + (n - 1 - l) = n - 1 by omega] at hlast
    have hstep : lineStep w a b ((lineStep w a b)^[n - 1] (0, 0)) = (a, b) := by
      rw [← Function.iterate_succ_apply' (lineStep w a b), Nat.succ_eq_add_one,
        Nat.sub_add_cancel (by omega), hreach]
    have hpos : ((lineStep w a b)^[n - 1] (0, 0)).1 = a - 1 := by
      rw [hlong (n - 1) (by omega), hn]
      omega
    exact absurd (lineErr_last hw h hpos hstep) (Int.not_lt.mpr hlast)
  have hround : ∀ l < n, (lineStep w a b)^[l] (0, 0) = ((l : Int), lineRound a b l) := by
    intro l
    induction l with
    | zero =>
      intro _
      rw [Function.iterate_zero_apply, Int.natCast_zero, lineRound_zero h.pos]
    | succ l ih =>
      intro hl
      have hfits := hlow l (by omega)
      rw [ih (by omega)] at hfits
      rw [Function.iterate_succ_apply', ih (by omega), lineStep_round hw h hfits, Int.natCast_succ]
  have hfits := hlow k hk
  rw [hround k hk] at hfits
  exact hfits

/-- The error terms of the rounded line are the multiples of `gcd a b` in the window. -/
theorem lineErr_surj (ha : 0 < a) (hdvd : (Int.gcd a b : Int) ∣ v) (hlo : a - 2 * b ≤ 2 * v)
    (hhi : 2 * v < 3 * a - 2 * b) :
    ∃ i, 0 ≤ i ∧ i < a ∧ lineErr a b i (lineRound a b i) = v := by
  obtain ⟨q, hq⟩ := hdvd
  have hbezout := Int.gcd_eq_gcd_ab a b
  set x := Int.gcdA a b
  set y := Int.gcdB a b
  have hmod := Int.emod_add_mul_ediv (-(y * q) - 1) a
  have hnonneg := Int.emod_nonneg (-(y * q) - 1) ha.ne'
  have hlt := Int.emod_lt_of_pos (-(y * q) - 1) ha
  set i := (-(y * q) - 1) % a
  set t := (-(y * q) - 1) / a
  have herr : lineErr a b i (x * q - b * t - 1) = v := by
    have hi : i = -(y * q) - 1 - a * t := by omega
    unfold lineErr
    rw [hi, hq, hbezout]
    ring
  refine ⟨i, hnonneg, hlt, ?_⟩
  have hround : x * q - b * t - 1 = lineRound a b i := by
    rw [eq_lineRound_iff ha]
    unfold lineErr at herr
    omega
  rw [← hround]
  exact herr

/-- Twice the error term stays below a bound on the rounded line exactly if all multiples of
`gcd a b` below the end of the window do. -/
theorem lineErr_lt_iff (ha : 0 < a) (hb : 0 ≤ b) {bound : Int} (hbound : a ≤ bound) :
    (∀ i, 0 ≤ i → i < a → 2 * lineErr a b i (lineRound a b i) < bound) ↔
      ∀ v, (Int.gcd a b : Int) ∣ v → 2 * v < 3 * a - 2 * b → 2 * v < bound := by
  constructor
  · intro h v hdvd hhi
    by_cases hlo : a - 2 * b ≤ 2 * v
    · obtain ⟨i, hi, hlt, rfl⟩ := lineErr_surj ha hdvd hlo hhi
      exact h i hi hlt
    · omega
  · intro h i _ _
    apply h _ _ (lineErr_round ha).2
    have ha' : (Int.gcd a b : Int) ∣ a := Int.gcd_dvd_left _ _
    have hb' : (Int.gcd a b : Int) ∣ b := Int.gcd_dvd_right _ _
    unfold lineErr
    exact Int.dvd_sub (Int.dvd_add (Int.dvd_sub (ha'.mul_left _) (hb'.mul_left _)) ha') hb'

end Walk

section Both

variable {dx dy lo' : Int} {n k : Nat}

/-- The rounded line after `k` rounds, along whichever axis is the longer one. -/
def linePoint (dx dy k : Int) : Int × Int :=
  if dy ≤ dx then (k, lineRound dx dy k) else (lineRound dy dx k, k)

/-- Twice the error term is below a bound for each direction, wherever the rounded line comes. -/
structure LineErrFits (dx dy bound bound' : Int) : Prop where
  flat : dy ≤ dx → ∀ v, (Int.gcd dx dy : Int) ∣ v → 2 * v < 3 * dx - 2 * dy → 2 * v < bound
  steep : dx < dy → ∀ v, (Int.gcd dy dx : Int) ∣ v → 2 * v < 3 * dy - 2 * dx → 2 * v < bound'

/-- With its axes exchanged a walk is one whose error term has the other sign. -/
theorem lineStep_swap (w : Int → Int) (dx dy : Int) (p : Int × Int) :
    (lineStep w dx dy p).swap = lineStep (fun v => -w (-v)) dy dx p.swap := by
  have herr : -(2 * lineErr dy dx p.2 p.1) = 2 * lineErr dx dy p.1 p.2 := by
    unfold lineErr
    ring
  simp only [lineStep, Prod.swap_prod_mk, Prod.fst_swap, Prod.snd_swap, herr]
  congr 1
  · exact if_congr (by omega) rfl rfl
  · exact if_congr (by omega) rfl rfl

theorem lineWalk_swap (w : Int → Int) (dx dy : Int) (k : Nat) :
    ((lineStep w dx dy)^[k] (0, 0)).swap = (lineStep (fun v => -w (-v)) dy dx)^[k] (0, 0) := by
  induction k with
  | zero => rfl
  | succ k ih =>
    rw [Function.iterate_succ_apply', Function.iterate_succ_apply', lineStep_swap, ih]

theorem LineInRange.lineErr_fits_iff (h : LineInRange lo m a b) (hn : a = n) :
    (∀ i : Nat, i < n → 2 * lineErr a b i (lineRound a b i) < lo + m) ↔
      ∀ v, (Int.gcd a b : Int) ∣ v → 2 * v < 3 * a - 2 * b → 2 * v < lo + m := by
  obtain ⟨hpos, hnonneg, -, -, hupper, -⟩ := h
  rw [← lineErr_lt_iff hpos hnonneg hupper]
  constructor
  · intro hfits i hi hlt
    have hcast : i = (i.toNat : Int) := by omega
    rw [hcast]
    exact hfits i.toNat (by omega)
  · intro hfits i hi
    exact hfits i (by omega) (by omega)

/-- A walk along a line goes along the rounded line and reaches its end in as many rounds as the
longer axis has steps, if twice the error term does not wrap on the way. -/
theorem lineWalk_points (hw : WrapsFrom w lo m) (hw' : WrapsFrom (fun v => -w (-v)) lo' m)
    (hflat : dy ≤ dx → LineInRange lo m dx dy) (hsteep : dx < dy → LineInRange lo' m dy dx)
    (hn : (n : Int) = max dx dy) (hfits : LineErrFits dx dy (lo + m) (lo' + m)) (hk : k ≤ n) :
    (lineStep w dx dy)^[k] (0, 0) = linePoint dx dy k := by
  unfold linePoint
  split
  · next hle =>
    have hrange := hflat hle
    have hna : dx = n := by omega
    exact lineWalk_round hw hrange ((hrange.lineErr_fits_iff hna).mpr (hfits.flat hle)) hk
  · next hlt =>
    have hrange := hsteep (by omega)
    have hna : dy = n := by omega
    rw [← Prod.swap_inj, lineWalk_swap, Prod.swap_prod_mk]
    exact lineWalk_round hw' hrange ((hrange.lineErr_fits_iff hna).mpr (hfits.steep (by omega))) hk

theorem linePoint_ne {i j : Int} (h : i ≠ j) : linePoint dx dy i ≠ linePoint dx dy j := by
  intro heq
  unfold linePoint at heq
  split at heq
  · exact h (congrArg Prod.fst heq)
  · exact h (congrArg Prod.snd heq)

theorem linePoint_end (hx : 0 ≤ dx) (hy : 0 ≤ dy) (hpos : 0 < max dx dy) :
    linePoint dx dy (max dx dy) = (dx, dy) := by
  unfold linePoint
  split
  · next hle => rw [max_eq_left hle, lineRound_end (by omega)]
  · next hlt => rw [max_eq_right (by omega), lineRound_end (by omega)]

/-- Only such a walk reaches the end of the line in that many rounds. -/
theorem lineErrFits_of_reaches (hw : WrapsFrom w lo m) (hw' : WrapsFrom (fun v => -w (-v)) lo' m)
    (hflat : dy ≤ dx → LineInRange lo m dx dy) (hsteep : dx < dy → LineInRange lo' m dy dx)
    (hn : (n : Int) = max dx dy) (hreach : (lineStep w dx dy)^[n] (0, 0) = (dx, dy)) :
    LineErrFits dx dy (lo + m) (lo' + m) := by
  constructor
  case flat =>
    intro hle
    have hna : dx = n := by omega
    rw [← (hflat hle).lineErr_fits_iff hna]
    exact fun i hi => lineErr_fits_of_reaches hw (hflat hle) hna hreach hi
  case steep =>
    intro hlt
    have hna : dy = n := by omega
    have hswap : (lineStep (fun v => -w (-v)) dy dx)^[n] (0, 0) = (dy, dx) := by
      rw [← lineWalk_swap, hreach, Prod.swap_prod_mk]
    rw [← (hsteep hlt).lineErr_fits_iff hna]
    exact fun i hi => lineErr_fits_of_reaches hw' (hsteep hlt) hna hswap hi

end Both

end Wbox.Lib
