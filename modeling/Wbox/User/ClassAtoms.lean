import Wbox.User.Classes

/-!
# Atoms of class names

From `user_class_init` on, names have the same atom exactly if they are equal up to case, and the
name of an atom is the first spelling that was added (`src/user/user_class.c:95–133`).
-/

namespace Wbox.User

open Wbox.Lib

/-- What a list of calls of `user_class_add_atom` gives, when these names have been added `before`:
names that are equal up to case have one atom, other names do not, the name of an atom is the first
spelling, and a name gets no atom only when it is new and all elements of the table are used. -/
structure AtomLaws (t : AtomTable) (before names : List WideName) : Prop where
  same : ∀ i j (hi : i < names.length) (hj : j < names.length), names[i].SameName names[j] →
    t.callAtom names i hi = t.callAtom names j hj
  apart : ∀ i j (hi : i < names.length) (hj : j < names.length),
    t.callAtom names i hi = t.callAtom names j hj → t.callAtom names i hi ≠ 0 →
      names[i].SameName names[j]
  first : ∀ i (hi : i < names.length), t.callAtom names i hi ≠ 0 → ∀ k, i < k →
    ∃ name, (before ++ names).find? (fun other => other.SameName names[i]) = some name ∧
      (t.addAll (names.take k)).userClassGetAtomName (t.callAtom names i hi) = some name
  full : ∀ i (hi : i < names.length), t.callAtom names i hi = 0 →
    ∀ e ∈ (t.addAll (names.take i)).entries, e.used ∧ ¬ e.name.SameName names[i]

/-- The names of the system classes that `user_class_init` gets to. -/
def registeredNames : List SystemClassDef → List Int → List WideName
  | [], _ => []
  | d :: ds, blocks =>
    if blocks.headD 0 = 0 then []
    else d.name.copied (maxClassName - 1) :: registeredNames ds blocks.tail

namespace AtomTable

variable {t : AtomTable} {before names : List WideName} {i k : Nat}

/-- The names that are kept when these have been added. -/
abbrev kept (names : List WideName) : List WideName :=
  internAll WideName.lower maxAtoms [] names

theorem kept_append {more : List WideName} :
    internAll WideName.lower maxAtoms (kept before) more = kept (before ++ more) :=
  internAll_append.symm

theorem Holds.addTake (h : t.Holds (kept before)) (hnames : ∀ name ∈ names, name.Fits) (k : Nat) :
    (t.addAll (names.take k)).Holds (kept (before ++ names.take k)) := by
  rw [← kept_append]
  exact h.addAll fun name hname => hnames name (List.mem_of_mem_take hname)

/-- The place of a name is settled when it is added. -/
theorem internIndex_kept (hi : i < names.length) :
    internIndex WideName.lower (kept (before ++ names)) names[i] =
      internIndex WideName.lower
        (intern WideName.lower maxAtoms (kept (before ++ names.take i)) names[i]) names[i] := by
  have hsplit : kept (before ++ names) = internAll WideName.lower maxAtoms
      (intern WideName.lower maxAtoms (kept (before ++ names.take i)) names[i])
      (names.drop (i + 1)) := by
    rw [← internAll_concat, List.append_assoc, List.take_concat_get' names i hi, kept_append,
      List.append_assoc, List.take_append_drop]
  rw [hsplit, internIndex_settled]

theorem internIndex_kept_take (hi : i < names.length) (hk : i < k) :
    internIndex WideName.lower (kept (before ++ names.take k)) names[i] =
      internIndex WideName.lower (kept (before ++ names)) names[i] := by
  have htake : i < (names.take k).length := by
    rw [List.length_take]
    exact lt_min hk hi
  have hname : (names.take k)[i] = names[i] := List.getElem_take
  have hbefore : (names.take k).take i = names.take i := by
    rw [List.take_take, min_eq_left hk.le]
  have hsettled : internIndex WideName.lower (kept (before ++ names.take k)) (names.take k)[i] =
      internIndex WideName.lower (intern WideName.lower maxAtoms
        (kept (before ++ (names.take k).take i)) (names.take k)[i]) (names.take k)[i] :=
    internIndex_kept htake
  rw [hname, hbefore] at hsettled
  rw [hsettled, internIndex_kept hi]

/-- The atom of a call is that of the place its name has in the end. -/
theorem Holds.callAtom_eq (h : t.Holds (kept before)) (hnames : ∀ name ∈ names, name.Fits)
    (hi : i < names.length) : t.callAtom names i hi =
      atomAt (internIndex WideName.lower (kept (before ++ names)) names[i]) := by
  rw [internIndex_kept hi]
  exact ((h.addTake hnames i).add (hnames names[i] (List.getElem_mem hi))).2

theorem kept_lt {name : WideName}
    (h : internIndex WideName.lower (kept names) name = some i) : i < maxAtoms :=
  Nat.lt_of_lt_of_le (internIndex_lt h) (internAll_length (Nat.zero_le maxAtoms))

/-- A call that gives an atom gives a place. -/
theorem Holds.place_of_ne (h : t.Holds (kept before)) (hnames : ∀ name ∈ names, name.Fits)
    {hi : i < names.length} (hne : t.callAtom names i hi ≠ 0) :
    ∃ p, internIndex WideName.lower (kept (before ++ names)) names[i] = some p ∧ p < maxAtoms ∧
      t.callAtom names i hi = atomAt (some p) := by
  rw [h.callAtom_eq hnames hi] at hne ⊢
  cases hplace : internIndex WideName.lower (kept (before ++ names)) names[i] with
  | none =>
    rw [hplace] at hne
    exact absurd rfl hne
  | some p => exact ⟨p, rfl, kept_lt hplace, rfl⟩

/-- Of all names before the call one is the first that is equal up to case. -/
theorem Holds.first (h : t.Holds (kept before)) (hnames : ∀ name ∈ names, name.Fits)
    {hi : i < names.length} (hne : t.callAtom names i hi ≠ 0) (hk : i < k) :
    ∃ name, (before ++ names).find? (fun other => other.SameName names[i]) = some name ∧
      (t.addAll (names.take k)).userClassGetAtomName (t.callAtom names i hi) = some name := by
  obtain ⟨p, hplace, -, hatom⟩ := h.place_of_ne hnames hne
  have hextends : kept (before ++ names.take k) <+: kept (before ++ names) := by
    have hsplit : before ++ names = (before ++ names.take k) ++ names.drop k := by
      rw [List.append_assoc, List.take_append_drop]
    have hkept : internAll WideName.lower maxAtoms (kept (before ++ names.take k)) (names.drop k) =
        kept (before ++ names.take k ++ names.drop k) := kept_append
    rw [hsplit, ← hkept]
    exact internAll_extends (kept (before ++ names.take k)) (names.drop k)
  have hthere : p < (kept (before ++ names.take k)).length :=
    internIndex_lt ((internIndex_kept_take hi hk).trans hplace)
  have hholds := h.addTake hnames k
  have hfirst : (kept (before ++ names))[p]? =
      (before ++ names).find? (fun other => decide (other.SameName names[i])) :=
    internAll_getElem_first hplace
  obtain ⟨name, hname, -⟩ := internIndex_getElem hplace
  refine ⟨name, hfirst.symm.trans hname, ?_⟩
  rw [hatom, hholds.getAtomName hthere]
  obtain ⟨more, hmore⟩ := hextends
  rw [← hmore, List.getElem?_append_left hthere] at hname
  exact hname

theorem Holds.full (h : t.Holds (kept before)) (hnames : ∀ name ∈ names, name.Fits)
    {hi : i < names.length} (hzero : t.callAtom names i hi = 0) :
    ∀ e ∈ (t.addAll (names.take i)).entries, e.used ∧ ¬ e.name.SameName names[i] := by
  have hholds := h.addTake hnames i
  rw [h.callAtom_eq hnames hi] at hzero
  have hnone : internIndex WideName.lower (kept (before ++ names)) names[i] = none := by
    cases hplace : internIndex WideName.lower (kept (before ++ names)) names[i] with
    | none => rfl
    | some p =>
      rw [hplace] at hzero
      exact absurd hzero (atomAt_ne_zero (kept_lt hplace))
  rw [internIndex_kept hi] at hnone
  obtain ⟨hnew, hfull⟩ := internIndex_intern_eq_none.mp hnone
  intro e he
  rw [hholds, Nat.sub_eq_zero_of_le hfull, List.replicate_zero, List.append_nil] at he
  obtain ⟨name, hname, rfl⟩ := List.mem_map.mp he
  exact ⟨rfl, internIndex_eq_none.mp hnew name hname⟩

theorem Holds.laws (h : t.Holds (kept before)) (hnames : ∀ name ∈ names, name.Fits) :
    AtomLaws t before names where
  same i j hi hj hsame := by
    rw [h.callAtom_eq hnames hi, h.callAtom_eq hnames hj, internIndex_congr hsame]
  apart i j hi hj heq hne := by
    obtain ⟨p, hp, hplt, hpatom⟩ := h.place_of_ne hnames hne
    have hother : t.callAtom names j hj ≠ 0 := heq ▸ hne
    obtain ⟨q, hq, hqlt, hqatom⟩ := h.place_of_ne hnames hother
    have hplace : p = q := atomAt_inj hplt hqlt (hpatom.symm.trans (heq.trans hqatom))
    exact internIndex_inj hp (hplace ▸ hq)
  first i hi hne k hk := h.first hnames hne hk
  full i hi hzero := h.full hnames hzero

end AtomTable

section Init

variable {t : ClassTable} {ds : List SystemClassDef} {blocks : List Int}

/-- The system classes add their names. -/
theorem registerSystemClasses_atoms : (t.userClassRegisterSystemClasses ds blocks).1.atoms =
    t.atoms.addAll (registeredNames ds blocks) := by
  induction ds generalizing t blocks with
  | nil => rfl
  | cons d ds ih =>
    unfold ClassTable.userClassRegisterSystemClasses registeredNames
    by_cases hblock : blocks.headD 0 = 0
    · rw [if_pos hblock, if_pos hblock]
      rfl
    · rw [if_neg hblock, if_neg hblock, ih]
      rfl

theorem registeredNames_fit (h : ∀ d ∈ ds, (d.name.copied (maxClassName - 1)).Fits) :
    ∀ name ∈ registeredNames ds blocks, name.Fits := by
  induction ds generalizing blocks with
  | nil => exact fun name hname => absurd hname List.not_mem_nil
  | cons d ds ih =>
    intro name hname
    unfold registeredNames at hname
    split at hname
    · exact absurd hname List.not_mem_nil
    · obtain rfl | hrest := List.mem_cons.mp hname
      · exact h d List.mem_cons_self
      · exact ih (fun other hother => h other (List.mem_cons_of_mem d hother)) name hrest

theorem systemClassDefs_fit :
    ∀ d ∈ systemClassDefs, (d.name.copied (maxClassName - 1)).Fits := by decide

/-- However many system classes `calloc` gives memory for, the atoms of the names that are added
from `user_class_init` on are those of a table of names up to case. -/
theorem userClassInit_atomLaws (blocks : List Int) {names : List WideName}
    (hnames : ∀ name ∈ names, name.Fits) :
    AtomLaws (userClassInit blocks).1.atoms (registeredNames systemClassDefs blocks) names := by
  have hfit : ∀ name ∈ registeredNames systemClassDefs blocks, name.Fits :=
    registeredNames_fit systemClassDefs_fit
  have hbefore := AtomTable.holds_clear.addAll hfit
  have hatoms : (userClassInit blocks).1.atoms =
      AtomTable.clear.addAll (registeredNames systemClassDefs blocks) :=
    registerSystemClasses_atoms
  rw [hatoms]
  exact AtomTable.Holds.laws hbefore hnames

/-- A name that is the one of a system class up to case, and a new one. -/
theorem userClassInit_atomLaws_button :
    (userClassInit [1, 2, 3, 4, 5, 6, 7, 8]).2 = 0 ∧
      AtomLaws (userClassInit [1, 2, 3, 4, 5, 6, 7, 8]).1.atoms
        (registeredNames systemClassDefs [1, 2, 3, 4, 5, 6, 7, 8])
        [wide ['B', 'U', 'T', 'T', 'O', 'N'], wide ['B', 'u', 't']] :=
  ⟨by decide, userClassInit_atomLaws [1, 2, 3, 4, 5, 6, 7, 8] (by decide)⟩

end Init

end Wbox.User
