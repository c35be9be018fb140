import Mathlib.Data.Finset.Range
import Mathlib.Data.Set.Finite.Lattice

/-!
# Iterating a partial function

The states a loop passes when each round is a partial function of the state before it (`orbit`).
A loop that stays in a finite set ends exactly if it never comes back to a state.
-/

namespace Wbox.Lib

variable {σ : Type}

/-- The state after `n` rounds; `none` once the loop has ended. -/
def orbit (next : σ → Option σ) : Nat → σ → Option σ
  | 0, s => some s
  | n + 1, s => (next s).bind (orbit next n)

variable {next : σ → Option σ} {s t : σ} {i j m n : Nat}

theorem orbit_zero (next : σ → Option σ) (s : σ) : orbit next 0 s = some s := rfl

theorem orbit_succ (next : σ → Option σ) (n : Nat) (s : σ) :
    orbit next (n + 1) s = (next s).bind (orbit next n) := rfl

/-- Rounds can be split anywhere. -/
theorem orbit_add (next : σ → Option σ) (m n : Nat) (s : σ) :
    orbit next (m + n) s = (orbit next m s).bind (orbit next n) := by
  induction m generalizing s with
  | zero => rw [Nat.zero_add, orbit_zero, Option.bind_some]
  | succ m ih =>
    rw [Nat.succ_add, orbit_succ, orbit_succ]
    cases next s with
    | none => rfl
    | some t => exact ih t

/-- The last round comes after the others. -/
theorem orbit_succ_right (next : σ → Option σ) (n : Nat) (s : σ) :
    orbit next (n + 1) s = (orbit next n s).bind next := by
  rw [orbit_add next n 1]
  congr 1
  funext t
  rw [orbit_succ]
  cases next t with
  | none => rfl
  | some u => rfl

/-- What holds at first and after every round holds of every state. -/
theorem orbit_invariant {P : σ → Prop} (hs : P s) (hround : ∀ t u, P t → next t = some u → P u)
    (h : orbit next n s = some t) : P t := by
  induction n generalizing s with
  | zero => exact Option.some.inj h ▸ hs
  | succ n ih =>
    obtain ⟨u, hu, hrest⟩ := Option.bind_eq_some_iff.mp h
    exact ih (hround s u hs hu) hrest

/-- An ended loop stays ended. -/
theorem orbit_none_of_le (h : orbit next m s = none) (hle : m ≤ n) : orbit next n s = none := by
  obtain ⟨k, rfl⟩ := Nat.exists_eq_add_of_le hle
  rw [orbit_add, h]
  rfl

/-- Every round before another one has a state. -/
theorem orbit_some_of_le (h : orbit next n s = some t) (hle : m ≤ n) :
    ∃ u, orbit next m s = some u := by
  cases hm : orbit next m s with
  | none => exact nomatch (orbit_none_of_le hm hle).symm.trans h
  | some u => exact ⟨u, rfl⟩

/-- A loop that ends has a last state. -/
theorem orbit_last (h : ∃ n, orbit next n s = none) :
    ∃ n t, orbit next n s = some t ∧ next t = none := by
  obtain ⟨n, hn⟩ := h
  induction n with
  | zero => cases hn
  | succ n ih =>
    cases hlast : orbit next n s with
    | none => exact ih hlast
    | some t =>
      rw [orbit_succ_right, hlast] at hn
      exact ⟨n, t, hlast, hn⟩

/-- It has one last state. -/
theorem orbit_last_unique {u : σ} (ht : orbit next m s = some t) (hnt : next t = none)
    (hu : orbit next n s = some u) (hnu : next u = none) : t = u := by
  have hend : ∀ {i j : Nat} {v w : σ}, orbit next i s = some v → next v = none →
      orbit next j s = some w → j ≤ i := by
    intro i j v w hv hnv hw
    by_contra hlt
    have hnone : orbit next (i + 1) s = none := by
      rw [orbit_succ_right, hv]
      exact hnv
    exact nomatch (orbit_none_of_le hnone (by omega)).symm.trans hw
  have heq : m = n := Nat.le_antisymm (hend hu hnu ht) (hend ht hnt hu)
  rw [heq] at ht
  exact Option.some.inj (ht.symm.trans hu)

/-- A loop that comes back to a state does not end. -/
theorem orbit_ne_none_of_repeat (hlt : i < j) (hi : orbit next i s = some t)
    (hj : orbit next j s = some t) (n : Nat) : orbit next n s ≠ none := by
  obtain ⟨d, rfl⟩ := Nat.exists_eq_add_of_lt hlt
  have hperiod : orbit next (d + 1) t = some t := by
    rw [Nat.add_assoc, orbit_add, hi] at hj
    exact hj
  have hcycle : ∀ k, orbit next (k * (d + 1)) t = some t := by
    intro k
    induction k with
    | zero => rw [Nat.zero_mul, orbit_zero]
    | succ k ih =>
      rw [Nat.succ_mul, orbit_add, ih]
      exact hperiod
  have hlate : orbit next (i + n * (d + 1)) s = some t := by
    rw [orbit_add, hi]
    exact hcycle n
  intro hnone
  have hle : n ≤ i + n * (d + 1) :=
    Nat.le_trans (Nat.le_mul_of_pos_right n d.succ_pos) (Nat.le_add_left _ i)
  exact nomatch (orbit_none_of_le hnone hle).symm.trans hlate

/-- A loop all of whose states are different from round `k` on, in a finite set, ends. -/
theorem orbit_ends_of_finite {S : Set σ} (hfin : S.Finite) (k : Nat)
    (hmem : ∀ n t, k ≤ n → orbit next n s = some t → t ∈ S)
    (hfresh : ∀ i j t, k ≤ i → i < j → orbit next i s = some t → orbit next j s ≠ some t) :
    ∃ n, orbit next n s = none := by
  by_contra hnone
  have hsome : ∀ n, ∃ t, orbit next n s = some t := by
    intro n
    cases hn : orbit next n s with
    | none => exact absurd ⟨n, hn⟩ hnone
    | some t => exact ⟨t, rfl⟩
  choose f hf using hsome
  have hinj : Function.Injective fun n => f (k + n) := by
    intro m n hmn
    have hmn' : f (k + m) = f (k + n) := hmn
    by_contra hne
    rcases Nat.lt_or_gt_of_ne hne with hlt | hgt
    · exact hfresh (k + m) (k + n) _ (by omega) (by omega) (hf _) (hmn' ▸ hf _)
    · exact hfresh (k + n) (k + m) _ (by omega) (by omega) (hf _) (hmn' ▸ hf _)
  have hrange : ∀ n, f (k + n) ∈ S := fun n => hmem (k + n) _ (by omega) (hf _)
  exact Set.infinite_of_injective_forall_mem hinj hrange hfin

/-- A loop in a finite type ends exactly if it never comes back to a state. -/
theorem orbit_ends_iff [Finite σ] :
    (∃ n, orbit next n s = none) ↔
      ∀ i j t, i < j → orbit next i s = some t → orbit next j s ≠ some t := by
  constructor
  · intro ⟨n, hn⟩ i j t hlt hi hj
    exact orbit_ne_none_of_repeat hlt hi hj n hn
  · intro hfresh
    exact orbit_ends_of_finite Set.finite_univ 0 (fun _ _ _ _ => trivial)
      fun i j t _ => hfresh i j t

/-- A loop with a bounded rank and finitely many states of each rank ends if it never comes back
to a state. -/
theorem orbit_ends_of_rank (rank : σ → Nat) {bound : Nat}
    (hbound : ∀ n t, orbit next n s = some t → rank t ≤ bound)
    (hfin : ∀ r, {t | rank t = r ∧ ∃ n, orbit next n s = some t}.Finite)
    (hfresh : ∀ i j t, i < j → orbit next i s = some t → orbit next j s ≠ some t) :
    ∃ n, orbit next n s = none := by
  have hranks : (⋃ r ∈ Finset.range (bound + 1),
      {t | rank t = r ∧ ∃ n, orbit next n s = some t}).Finite :=
    (Finset.range (bound + 1)).finite_toSet.biUnion fun r _ => hfin r
  apply orbit_ends_of_finite hranks 0
  · intro n t _ ht
    simp only [Set.mem_iUnion]
    exact ⟨rank t, Finset.mem_range.mpr (Nat.lt_succ_of_le (hbound n t ht)), rfl, n, ht⟩
  · exact fun i j t _ => hfresh i j t

end Wbox.Lib
