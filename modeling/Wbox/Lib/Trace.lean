import Mathlib.Logic.Basic

/-!
# Runs of a partial step function

A run executes a list of inputs from a state. `trace` records every state it visits;
a step that yields `none` (the program does not return from it) has no successor.
`Guarded` asks a condition of every step the run takes.
-/

namespace Wbox.Lib

variable {σ ι : Type}

/-- The states of a run, the first one included. -/
def trace (step : σ → ι → Option σ) : σ → List ι → Option (List σ)
  | s, [] => some [s]
  | s, e :: es => do
      let s' ← step s e
      let rest ← trace step s' es
      return s :: rest

/-- Every input of the run meets `ok` in the state it is given to. -/
def Guarded (step : σ → ι → Option σ) (ok : σ → ι → Prop) : σ → List ι → Prop
  | _, [] => True
  | s, e :: es => ok s e ∧ ∀ s', step s e = some s' → Guarded step ok s' es

variable {step : σ → ι → Option σ} {ok : σ → ι → Prop}

/-- A run of one more input takes its first step and continues from there. -/
theorem trace_cons {s : σ} {e : ι} {es : List ι} {tr : List σ}
    (h : trace step s (e :: es) = some tr) :
    ∃ s' rest, step s e = some s' ∧ trace step s' es = some rest ∧ tr = s :: rest := by
  cases hs : step s e with
  | none => simp [trace, hs] at h
  | some s' =>
    cases hr : trace step s' es with
    | none => simp [trace, hs, hr] at h
    | some rest => exact ⟨s', rest, rfl, hr, by simpa [trace, hs, hr] using h.symm⟩

/-- The first state of a run is where it started. -/
theorem trace_head {s : σ} {es : List ι} {tr : List σ} (h : trace step s es = some tr) :
    tr[0]? = some s := by
  cases es with
  | nil => simp [← Option.some.inj h]
  | cons e es =>
    obtain ⟨_, _, _, _, rfl⟩ := trace_cons h
    rfl

/-- The states before and after an input of a guarded run are related by its guarded step. -/
theorem trace_step_at {s : σ} {es : List ι} {tr : List σ} (h : trace step s es = some tr)
    (hg : Guarded step ok s es) {k : Nat} {a b : σ} (ha : tr[k]? = some a)
    (hb : tr[k + 1]? = some b) : ∃ e, es[k]? = some e ∧ ok a e ∧ step a e = some b := by
  induction es generalizing s tr k with
  | nil =>
    have ht : tr = [s] := (Option.some.inj h).symm
    simp [ht] at hb
  | cons e es ih =>
    obtain ⟨s', rest, hs, hr, rfl⟩ := trace_cons h
    cases k with
    | zero =>
      have hsb : s' = b := by
        have hh := trace_head hr
        simp only [List.getElem?_cons_succ, hh] at hb
        exact Option.some.inj hb
      have hsa : s = a := by simpa using ha
      subst hsa hsb
      exact ⟨e, rfl, hg.1, hs⟩
    | succ k => exact ih hr (hg.2 s' hs) (by simpa using ha) (by simpa using hb)

/-- Every input of a run is given to the state that the run has come to. -/
theorem trace_next {s : σ} {es : List ι} {tr : List σ} (h : trace step s es = some tr) {k : Nat}
    {a : σ} {e : ι} (ha : tr[k]? = some a) (he : es[k]? = some e) : ∃ b, step a e = some b := by
  induction es generalizing s tr k with
  | nil => cases he
  | cons e' es ih =>
    obtain ⟨s', rest, hs, hr, rfl⟩ := trace_cons h
    cases k with
    | zero =>
      obtain rfl : s = a := Option.some.inj ha
      obtain rfl : e' = e := Option.some.inj he
      exact ⟨s', hs⟩
    | succ k => exact ih hr ha he

/-- A run is guarded if every input meets its condition in the state the run has come to. -/
theorem guarded_iff_at {s : σ} {es : List ι} {tr : List σ} (h : trace step s es = some tr) :
    Guarded step ok s es ↔
      ∀ (k : Nat) (a : σ) (e : ι), tr[k]? = some a → es[k]? = some e → ok a e := by
  induction es generalizing s tr with
  | nil => simp [Guarded]
  | cons e es ih =>
    obtain ⟨s', rest, hs, hr, rfl⟩ := trace_cons h
    constructor
    · intro ⟨hok, hg⟩ k a e' ha he
      cases k with
      | zero =>
        obtain rfl : s = a := Option.some.inj ha
        obtain rfl : e = e' := Option.some.inj he
        exact hok
      | succ k => exact (ih hr).mp (hg s' hs) k a e' ha he
    · intro hall
      refine ⟨hall 0 s e rfl rfl, ?_⟩
      intro b hb
      obtain rfl : s' = b := Option.some.inj (hs.symm.trans hb)
      exact (ih hr).mpr fun k a e' ha he => hall (k + 1) a e' ha he

/-- Consecutive states of a guarded run are related by one guarded step. -/
theorem trace_step {s : σ} {es : List ι} {tr : List σ} (h : trace step s es = some tr)
    (hg : Guarded step ok s es) {k : Nat} {a b : σ} (ha : tr[k]? = some a)
    (hb : tr[k + 1]? = some b) : ∃ e, ok a e ∧ step a e = some b := by
  obtain ⟨e, -, hok, hstep⟩ := trace_step_at h hg ha hb
  exact ⟨e, hok, hstep⟩

/-- What holds at the start and is kept by every guarded step holds all along the run. -/
theorem trace_invariant {I : σ → Prop}
    (hstep : ∀ a e b, I a → ok a e → step a e = some b → I b)
    {s : σ} {es : List ι} {tr : List σ} (h0 : I s) (h : trace step s es = some tr)
    (hg : Guarded step ok s es) : ∀ a ∈ tr, I a := by
  induction es generalizing s tr with
  | nil =>
    have ht : tr = [s] := (Option.some.inj h).symm
    simpa [ht] using h0
  | cons e es ih =>
    obtain ⟨s', rest, hs, hr, rfl⟩ := trace_cons h
    intro a ha
    rcases List.mem_cons.mp ha with rfl | ha
    · exact h0
    · exact ih (hstep s e s' h0 hg.1 hs) hr (hg.2 s' hs) a ha

/-- A condition that follows from another one in the states of a guarded run. -/
theorem Guarded.imp {I : σ → Prop} {ok' : σ → ι → Prop}
    (hstep : ∀ a e b, I a → ok a e → step a e = some b → I b)
    (himp : ∀ a e, I a → ok a e → ok' a e)
    {s : σ} {es : List ι} (h0 : I s) (hg : Guarded step ok s es) : Guarded step ok' s es := by
  induction es generalizing s with
  | nil => trivial
  | cons e es ih =>
    refine ⟨himp s e h0 hg.1, ?_⟩
    intro s' hs
    exact ih (hstep s e s' h0 hg.1 hs) (hg.2 s' hs)

/-- A condition on the inputs alone may be added. -/
theorem Guarded.and_mem {p : ι → Prop} {s : σ} {es : List ι} (hg : Guarded step ok s es)
    (hp : ∀ e ∈ es, p e) : Guarded step (fun a e => ok a e ∧ p e) s es := by
  induction es generalizing s with
  | nil => trivial
  | cons e es ih =>
    refine ⟨⟨hg.1, hp e List.mem_cons_self⟩, ?_⟩
    intro s' hs
    exact ih (hg.2 s' hs) fun e' he' => hp e' (List.mem_cons_of_mem e he')

/-- Conditions that say the same in every step of a guarded run. -/
theorem Guarded.iff {p q : σ → ι → Prop} (hiff : ∀ a e, ok a e → (p a e ↔ q a e))
    {s : σ} {es : List ι} (hg : Guarded step ok s es) :
    Guarded step p s es ↔ Guarded step q s es := by
  induction es generalizing s with
  | nil => exact Iff.rfl
  | cons e es ih =>
    have hrest : (∀ s', step s e = some s' → Guarded step p s' es) ↔
        ∀ s', step s e = some s' → Guarded step q s' es :=
      forall_congr' fun s' => imp_congr_right fun hs => ih (hg.2 s' hs)
    exact and_congr (hiff s e hg.1) hrest

/-- Conditions that say the same in every step that an invariant allows, which they keep. -/
theorem Guarded.iff_of_invariant {I : σ → Prop} {p q : σ → ι → Prop}
    (hiff : ∀ a e, I a → (p a e ↔ q a e))
    (hstep : ∀ a e b, I a → p a e → step a e = some b → I b)
    {s : σ} (h0 : I s) (es : List ι) : Guarded step p s es ↔ Guarded step q s es := by
  induction es generalizing s with
  | nil => exact Iff.rfl
  | cons e es ih =>
    constructor
    · intro ⟨hp, hrest⟩
      exact ⟨(hiff s e h0).mp hp, fun b hb => (ih (hstep s e b h0 hp hb)).mp (hrest b hb)⟩
    · intro ⟨hq, hrest⟩
      have hp := (hiff s e h0).mpr hq
      exact ⟨hp, fun b hb => (ih (hstep s e b h0 hp hb)).mpr (hrest b hb)⟩

/-- An invariant of every step needs no condition on the inputs. -/
theorem trace_invariant_of_step {I : σ → Prop} (hstep : ∀ a e b, I a → step a e = some b → I b)
    {s : σ} {es : List ι} {tr : List σ} (h0 : I s) (h : trace step s es = some tr) :
    ∀ a ∈ tr, I a := by
  have hg : ∀ s es, Guarded step (fun _ _ => True) s es := by
    intro s es
    induction es generalizing s with
    | nil => trivial
    | cons e es ih => exact ⟨trivial, fun s' _ => ih s'⟩
  exact trace_invariant (fun a e b ha _ => hstep a e b ha) h0 h (hg s es)

/-- Where a guarded step keeps an invariant and any other step spoils `P`, the states of a run
have `P` exactly if the run is guarded. Only the inputs of the run matter. -/
theorem trace_forall_iff_guarded_mem {I P : σ → Prop} (hsound : ∀ a, I a → P a)
    {s : σ} {es : List ι} {tr : List σ}
    (hstep : ∀ a e b, e ∈ es → I a → ok a e → step a e = some b → I b)
    (hbad : ∀ a e b, e ∈ es → I a → ¬ ok a e → step a e = some b → ¬ P b)
    (h0 : I s) (h : trace step s es = some tr) :
    (∀ a ∈ tr, P a) ↔ Guarded step ok s es := by
  induction es generalizing s tr with
  | nil =>
    have ht : tr = [s] := (Option.some.inj h).symm
    constructor
    · exact fun _ => trivial
    · intro _ a ha
      rw [ht] at ha
      exact List.mem_singleton.mp ha ▸ hsound s h0
  | cons e es ih =>
    obtain ⟨s', rest, hs, hr, rfl⟩ := trace_cons h
    have hrest := fun (hi : I s') => ih (fun a e b he => hstep a e b (List.mem_cons_of_mem _ he))
      (fun a e b he => hbad a e b (List.mem_cons_of_mem _ he)) hi hr
    constructor
    · intro hall
      have hs' : s' ∈ rest := List.mem_of_getElem? (trace_head hr)
      have hok : ok s e := Classical.byContradiction fun hok =>
        hbad s e s' List.mem_cons_self h0 hok hs (hall s' (List.mem_cons_of_mem s hs'))
      refine ⟨hok, ?_⟩
      intro b hb
      obtain rfl : s' = b := Option.some.inj (hs.symm.trans hb)
      exact (hrest (hstep s e s' List.mem_cons_self h0 hok hs)).mp fun a ha =>
        hall a (List.mem_cons_of_mem s ha)
    · intro hg a ha
      rcases List.mem_cons.mp ha with rfl | ha
      · exact hsound a h0
      · exact (hrest (hstep s e s' List.mem_cons_self h0 hg.1 hs)).mpr (hg.2 s' hs) a ha

/-- The same for steps that do not need to be known to be of the run. -/
theorem trace_forall_iff_guarded {I P : σ → Prop} (hsound : ∀ a, I a → P a)
    (hstep : ∀ a e b, I a → ok a e → step a e = some b → I b)
    (hbad : ∀ a e b, I a → ¬ ok a e → step a e = some b → ¬ P b)
    {s : σ} {es : List ι} {tr : List σ} (h0 : I s) (h : trace step s es = some tr) :
    (∀ a ∈ tr, P a) ↔ Guarded step ok s es :=
  trace_forall_iff_guarded_mem hsound (fun a e b _ => hstep a e b) (fun a e b _ => hbad a e b) h0 h

/-- The states of a run tell that it is guarded, where another guard makes any other step spoil
them. -/
theorem guarded_of_forall {I P : σ → Prop} {ok' : σ → ι → Prop}
    (hstep : ∀ a e b, I a → ok a e → step a e = some b → I b)
    (hbad : ∀ a e b, I a → ok' a e → ¬ ok a e → step a e = some b → ¬ P b)
    {s : σ} {es : List ι} {tr : List σ} (h0 : I s) (h : trace step s es = some tr)
    (hg : Guarded step ok' s es) (hall : ∀ a ∈ tr, P a) : Guarded step ok s es := by
  induction es generalizing s tr with
  | nil => trivial
  | cons e es ih =>
    obtain ⟨s', rest, hs, hr, rfl⟩ := trace_cons h
    have hs' : s' ∈ rest := List.mem_of_getElem? (trace_head hr)
    have hok : ok s e := Classical.byContradiction fun hok =>
      hbad s e s' h0 hg.1 hok hs (hall s' (List.mem_cons_of_mem s hs'))
    refine ⟨hok, ?_⟩
    intro b hb
    obtain rfl : s' = b := Option.some.inj (hs.symm.trans hb)
    exact ih (hstep s e s' h0 hok hs) hr (hg.2 s' hs) fun a ha => hall a (List.mem_cons_of_mem s ha)

/-- What a step relates and what can be chained holds between any two states of a run. -/
theorem trace_pairwise {I : σ → Prop} {R : σ → σ → Prop}
    (hstep : ∀ a e b, I a → ok a e → step a e = some b → I b ∧ R a b)
    (htrans : ∀ a b c, R a b → R b c → R a c)
    {s : σ} {es : List ι} {tr : List σ} (h0 : I s) (h : trace step s es = some tr)
    (hg : Guarded step ok s es) : tr.Pairwise R := by
  induction es generalizing s tr with
  | nil =>
    have ht : tr = [s] := (Option.some.inj h).symm
    simp [ht]
  | cons e es ih =>
    obtain ⟨s', rest, hs, hr, rfl⟩ := trace_cons h
    obtain ⟨hi, hss⟩ := hstep s e s' h0 hg.1 hs
    have hrest := ih hi hr (hg.2 s' hs)
    refine List.pairwise_cons.mpr ⟨?_, hrest⟩
    intro a ha
    cases rest with
    | nil => cases ha
    | cons b rest =>
      have hb : b = s' := Option.some.inj (trace_head hr)
      subst hb
      rcases List.mem_cons.mp ha with rfl | ha
      · exact hss
      · exact htrans _ _ _ hss ((List.pairwise_cons.mp hrest).1 a ha)

/-- A loop over a list of inputs keeps what each of its iterations keeps. -/
theorem foldlM_invariant {I : σ → Prop} {es : List ι}
    (hstep : ∀ a e b, e ∈ es → I a → step a e = some b → I b)
    {s s' : σ} (h0 : I s) (h : es.foldlM step s = some s') : I s' := by
  induction es generalizing s with
  | nil =>
    have he : s = s' := by simpa using h
    exact he ▸ h0
  | cons e es ih =>
    cases hs : step s e with
    | none => simp [hs] at h
    | some b =>
      have hb : I b := hstep s e b (by simp) h0 hs
      refine ih (fun a e b he => hstep a e b (by simp [he])) hb ?_
      simpa [hs] using h

/-- Where exactly the guarded steps return, and keep an invariant, exactly the guarded loops do. -/
theorem foldlM_isSome_iff_guarded {I : σ → Prop}
    (hsome : ∀ a e, I a → ((step a e).isSome = true ↔ ok a e))
    (hstep : ∀ a e b, I a → step a e = some b → I b) {s : σ} (h0 : I s) (es : List ι) :
    (es.foldlM step s).isSome = true ↔ Guarded step ok s es := by
  induction es generalizing s with
  | nil => exact iff_of_true rfl trivial
  | cons e es ih =>
    rw [List.foldlM_cons]
    cases hs : step s e with
    | none =>
      have hbad : ¬ ok s e := by
        rw [← hsome s e h0, hs]
        exact Bool.false_ne_true
      exact iff_of_false Bool.false_ne_true fun hg => hbad hg.1
    | some b =>
      have hok : ok s e := (hsome s e h0).mp (by rw [hs]; rfl)
      rw [Option.bind_eq_bind, Option.bind_some, ih (hstep s e b h0 hs)]
      constructor
      · refine fun hg => ⟨hok, ?_⟩
        intro b' hb'
        exact Option.some.inj (hs.symm.trans hb') ▸ hg
      · exact fun hg => hg.2 b hs

/-- A loop commutes with a map of the states that each of its iterations commutes with. -/
theorem foldlM_comm {f : σ → ι → Option σ} {g : σ → σ}
    (hf : ∀ a e, f (g a) e = (f a e).map g) (s : σ) (es : List ι) :
    es.foldlM f (g s) = (es.foldlM f s).map g := by
  induction es generalizing s with
  | nil => rfl
  | cons e es ih =>
    simp only [List.foldlM_cons, hf, Option.bind_eq_bind]
    cases f s e with
    | none => rfl
    | some b => exact ih b

section Fold

variable {I B : σ → Prop} {f : σ → ι → σ}

/-- A loop whose iterations are guarded keeps an invariant. -/
theorem foldl_of_guarded (hstep : ∀ a e, I a → ok a e → I (f a e)) {s : σ} {es : List ι}
    (h0 : I s) (hg : Guarded (fun a e => some (f a e)) ok s es) : I (es.foldl f s) := by
  induction es generalizing s with
  | nil => exact h0
  | cons e es ih => exact ih (hstep s e h0 hg.1) (hg.2 _ rfl)

/-- A loop with an iteration that is not guarded ends in what that iteration leaves behind, if
the others do not undo it. -/
theorem foldl_of_not_guarded (hstep : ∀ a e, I a → ok a e → I (f a e))
    (hbad : ∀ a e, I a → ¬ ok a e → B (f a e)) (hkeep : ∀ a e, B a → B (f a e))
    {s : σ} {es : List ι} (h0 : I s) (hg : ¬ Guarded (fun a e => some (f a e)) ok s es) :
    B (es.foldl f s) := by
  have hfold : ∀ (es : List ι) (s : σ), B s → B (es.foldl f s) := by
    intro es
    induction es with
    | nil => exact fun _ h => h
    | cons e es ih => exact fun s h => ih _ (hkeep s e h)
  induction es generalizing s with
  | nil => exact absurd trivial hg
  | cons e es ih =>
    by_cases hok : ok s e
    · refine ih (hstep s e h0 hok) ?_
      intro hrest
      refine hg ⟨hok, ?_⟩
      intro b hb
      exact Option.some.inj hb ▸ hrest
    · exact hfold es _ (hbad s e h0 hok)

end Fold

end Wbox.Lib
