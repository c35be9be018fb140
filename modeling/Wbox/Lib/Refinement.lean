import Mathlib.Logic.Basic

/-!
# Refinement of machines with outputs

Two machines that take the same inputs, one more abstract than the other. If every step keeps their
states related and gives the same output, so does every run. The abstract machine may be given by a
relation, which leaves it a choice of outputs and of next states.
-/

namespace Wbox.Lib

variable {σ τ ι ω : Type}

/-- The state after a list of inputs, and the output for each of them. -/
def runOutputs (step : σ → ι → σ × ω) : σ → List ι → σ × List ω
  | s, [] => (s, [])
  | s, e :: es =>
      let next := step s e
      let rest := runOutputs step next.1 es
      (rest.1, next.2 :: rest.2)

/-- A step of the one machine is a step of the other. -/
def Simulates (R : σ → τ → Prop) (step : σ → ι → σ × ω) (step' : τ → ι → τ × ω) : Prop :=
  ∀ s t e, R s t → R (step s e).1 (step' t e).1 ∧ (step s e).2 = (step' t e).2

/-- So is a run. -/
theorem Simulates.run {R : σ → τ → Prop} {step : σ → ι → σ × ω} {step' : τ → ι → τ × ω}
    (h : Simulates R step step') {s : σ} {t : τ} (hst : R s t) (es : List ι) :
    R (runOutputs step s es).1 (runOutputs step' t es).1 ∧
      (runOutputs step s es).2 = (runOutputs step' t es).2 := by
  induction es generalizing s t with
  | nil => exact ⟨hst, rfl⟩
  | cons e es ih =>
    obtain ⟨hnext, hout⟩ := h s t e hst
    obtain ⟨hrest, houts⟩ := ih hnext
    exact ⟨hrest, by rw [runOutputs, runOutputs, hout, houts]⟩

/-- A run of a machine whose steps are given by a relation. -/
inductive RunsTo (spec : τ → ι → ω → τ → Prop) : τ → List ι → List ω → τ → Prop where
  | nil (t : τ) : RunsTo spec t [] [] t
  | cons {t t' t'' : τ} {e : ι} {o : ω} {es : List ι} {os : List ω} (hstep : spec t e o t')
      (hrest : RunsTo spec t' es os t'') : RunsTo spec t (e :: es) (o :: os) t''

/-- Where every step is one that the relation allows, every run is. -/
theorem RunsTo.of_step {spec : τ → ι → ω → τ → Prop} {step : σ → ι → σ × ω} {abs : σ → τ}
    (h : ∀ s e, spec (abs s) e (step s e).2 (abs (step s e).1)) (s : σ) (es : List ι) :
    RunsTo spec (abs s) es (runOutputs step s es).2 (abs (runOutputs step s es).1) := by
  induction es generalizing s with
  | nil => exact .nil (abs s)
  | cons e es ih => exact .cons (h s e) (ih (step s e).1)

end Wbox.Lib
