import Mathlib.Data.List.DropRight
import Mathlib.Data.List.Infix

/-!
# Path components

A path as a list of components over any alphabet: splitting a text at its separators,
writing components back, and resolving "." and ".." against a stack.
-/

namespace Wbox.Lib

variable {α β : Type}

/-- The parts of a text between its separators, the empty ones left out. -/
def components (isSep : α → Bool) (xs : List α) : List (List α) :=
  (xs.splitOnP isSep).filter fun c => !c.isEmpty

/-- The components with a separator after each. -/
def closedText (sep : α) (cs : List (List α)) : List α := cs.flatMap (· ++ [sep])

/-- A non-empty text without a separator in it. -/
def IsComponent (isSep : α → Bool) (c : List α) : Prop := c ≠ [] ∧ ∀ x ∈ c, isSep x = false

instance [DecidableEq α] (isSep : α → Bool) (c : List α) : Decidable (IsComponent isSep c) :=
  inferInstanceAs (Decidable (c ≠ [] ∧ ∀ x ∈ c, isSep x = false))

theorem isComponent_of_mem_singleton {isSep : α → Bool} {c : List α} (h : IsComponent isSep c) :
    ∀ n ∈ [c], IsComponent isSep n := by
  intro n hn
  rw [List.mem_singleton.mp hn]
  exact h

/-- The components with a separator between any two. -/
def joinText (sep : α) (cs : List (List α)) : List α := [sep].intercalate cs

/-- One component resolved against the stack of those before it, the last one first. -/
def resolveStep [DecidableEq β] (dot dotdot : β) (stack : List β) (c : β) : Option (List β) :=
  if c = dot then some stack
  else if c = dotdot then
    match stack with
    | [] => none
    | _ :: below => some below
  else some (c :: stack)

/-- The stack after the components of a path; `none` if a ".." finds it empty. -/
def resolveFrom [DecidableEq β] (dot dotdot : β) (stack : List β) (cs : List β) :
    Option (List β) :=
  cs.foldlM (resolveStep dot dotdot) stack

/-- Lexical resolution of a path from its root. -/
def resolve [DecidableEq β] (dot dotdot : β) (cs : List β) : Option (List β) :=
  (resolveFrom dot dotdot [] cs).map List.reverse

section Components

variable {isSep : α → Bool} {sep : α} {xs ys : List α} {cs : List (List α)}

@[simp] theorem components_nil : components isSep [] = [] := rfl

/-- A separator ends the components before it. -/
theorem components_append_cons (hsep : isSep sep = true) :
    components isSep (xs ++ sep :: ys) = components isSep xs ++ components isSep ys := by
  rw [components, List.splitOnP_append_cons xs ys hsep, List.filter_append]
  rfl

/-- A separator in first place ends nothing. -/
theorem components_cons_sep (hsep : isSep sep = true) :
    components isSep (sep :: ys) = components isSep ys := by
  have hnil : components isSep ([] ++ sep :: ys) = components isSep [] ++ components isSep ys :=
    components_append_cons hsep
  exact hnil

/-- A component is its own text. -/
theorem components_singleton (h : IsComponent isSep xs) : components isSep xs = [xs] := by
  rw [components, List.splitOnP_eq_singleton h.2]
  simpa using h.1

/-- Induction on a text from its parts: those without a separator, and two parts with a separator
between them. -/
@[elab_as_elim]
theorem sepInduction {motive : List α → Prop} (isSep : α → Bool)
    (plain : ∀ xs, (∀ x ∈ xs, isSep x = false) → motive xs)
    (split : ∀ as s bs, isSep s = true → motive as → motive bs → motive (as ++ s :: bs))
    (xs : List α) : motive xs := by
  induction hn : xs.length using Nat.strong_induction_on generalizing xs with
  | _ n ih =>
    by_cases hall : ∀ x ∈ xs, isSep x = false
    · exact plain xs hall
    · push Not at hall
      obtain ⟨s, hs, hsep⟩ := hall
      obtain ⟨as, bs, rfl⟩ := List.append_of_mem hs
      simp only [List.length_append, List.length_cons] at hn
      exact split as s bs (by simpa using hsep) (ih as.length (by omega) as rfl)
        (ih bs.length (by omega) bs rfl)

/-- A text without separators is at most one component. -/
theorem components_of_noSep (h : ∀ x ∈ xs, isSep x = false) :
    components isSep xs = if xs = [] then [] else [xs] := by
  by_cases hx : xs = []
  · simp [hx]
  · rw [components_singleton ⟨hx, h⟩, if_neg hx]

/-- What stands between separators is a component. -/
theorem components_isComponent {c : List α} (h : c ∈ components isSep xs) :
    IsComponent isSep c := by
  induction xs using sepInduction isSep with
  | plain xs hall =>
    rw [components_of_noSep hall] at h
    split at h
    · cases h
    · next hne =>
      rw [List.mem_singleton.mp h]
      exact ⟨hne, hall⟩
  | split as s bs hsep ihas ihbs =>
    rw [components_append_cons hsep] at h
    rcases List.mem_append.mp h with h | h
    · exact ihas h
    · exact ihbs h

/-- A component has nothing that the text has not. -/
theorem mem_of_mem_components {c : List α} {x : α} (h : c ∈ components isSep xs) (hx : x ∈ c) :
    x ∈ xs := by
  induction xs using sepInduction isSep with
  | plain xs hall =>
    rw [components_of_noSep hall] at h
    split at h
    · cases h
    · exact List.mem_singleton.mp h ▸ hx
  | split as s bs hsep ihas ihbs =>
    rw [components_append_cons hsep] at h
    rcases List.mem_append.mp h with h | h
    · exact List.mem_append_left _ (ihas h)
    · exact List.mem_append_right _ (List.mem_cons_of_mem s (ihbs h))

/-- What is not a separator is in a component. -/
theorem mem_components {x : α} (hx : x ∈ xs) (hsep : isSep x = false) :
    ∃ c ∈ components isSep xs, x ∈ c := by
  induction xs using sepInduction isSep with
  | plain xs hall =>
    rw [components_of_noSep hall, if_neg (List.ne_nil_of_mem hx)]
    exact ⟨xs, List.mem_singleton.mpr rfl, hx⟩
  | split as s bs hs ihas ihbs =>
    rw [components_append_cons hs]
    rcases List.mem_append.mp hx with hx | hx
    · obtain ⟨c, hc, hxc⟩ := ihas hx
      exact ⟨c, List.mem_append_left _ hc, hxc⟩
    · rcases List.mem_cons.mp hx with rfl | hx
      · rw [hsep] at hs
        cases hs
      · obtain ⟨c, hc, hxc⟩ := ihbs hx
        exact ⟨c, List.mem_append_right _ hc, hxc⟩

/-- The components of a translated alphabet. -/
theorem components_map {isSep' : β → Bool} {f : α → β} (h : ∀ x ∈ xs, isSep' (f x) = isSep x) :
    components isSep' (xs.map f) = (components isSep xs).map (List.map f) := by
  induction xs using sepInduction isSep with
  | plain xs hall =>
    have hall' : ∀ y ∈ xs.map f, isSep' y = false := by
      intro y hy
      obtain ⟨x, hx, rfl⟩ := List.mem_map.mp hy
      rw [h x hx, hall x hx]
    rw [components_of_noSep hall, components_of_noSep hall']
    by_cases hx : xs = []
    · simp [hx]
    · simp [hx]
  | split as s bs hsep ihas ihbs =>
    have hsep' : isSep' (f s) = true := by rw [h s (by simp), hsep]
    rw [List.map_append, List.map_cons, components_append_cons hsep', components_append_cons hsep,
      ihas fun x hx => h x (by simp [hx]), ihbs fun x hx => h x (by simp [hx]), List.map_append]

/-- Components written out with separators are read back. -/
theorem components_closedText (hsep : isSep sep = true) (h : ∀ c ∈ cs, IsComponent isSep c) :
    components isSep (closedText sep cs ++ ys) = cs ++ components isSep ys := by
  induction cs with
  | nil => rfl
  | cons c cs ih =>
    have htext : closedText sep (c :: cs) ++ ys = c ++ sep :: (closedText sep cs ++ ys) := by
      simp [closedText]
    have hrest := ih fun d hd => h d (List.mem_cons_of_mem c hd)
    rw [htext, components_append_cons hsep, components_singleton (h c List.mem_cons_self), hrest]
    rfl

theorem closedText_append (cs ds : List (List α)) :
    closedText sep (cs ++ ds) = closedText sep cs ++ closedText sep ds :=
  List.flatMap_append

theorem closedText_concat (cs : List (List α)) (c : List α) :
    closedText sep (cs ++ [c]) = closedText sep cs ++ (c ++ [sep]) := by
  simp [closedText]

/-- The last separator is what the closed text has more than the joined one. -/
theorem closedText_eq_joinText (sep : α) (h : cs ≠ []) : closedText sep cs = joinText sep cs ++ [sep] := by
  induction cs with
  | nil => exact absurd rfl h
  | cons c cs ih =>
    by_cases hcs : cs = []
    · subst hcs
      simp [closedText, joinText]
    · have hcons : closedText sep (c :: cs) = c ++ [sep] ++ closedText sep cs := by
        simp [closedText]
      have hjoin : joinText sep (c :: cs) = c ++ [sep] ++ joinText sep cs := by
        cases cs with
        | nil => exact absurd rfl hcs
        | cons d ds => simp [joinText, List.intercalate]
      rw [hcons, hjoin, ih hcs]
      simp only [List.append_assoc]

/-- A joined text has what its components have. -/
theorem mem_joinText {sep x : α} {c : List α} (hc : c ∈ cs) (hx : x ∈ c) :
    x ∈ joinText sep cs := by
  induction cs with
  | nil => cases hc
  | cons d ds ih =>
    have hcons : joinText sep (d :: ds) = if ds = [] then d else d ++ sep :: joinText sep ds := by
      cases ds with
      | nil => simp [joinText, List.intercalate]
      | cons e es => simp [joinText, List.intercalate]
    rw [hcons]
    rcases List.mem_cons.mp hc with rfl | hc
    · split
      · exact hx
      · exact List.mem_append_left _ hx
    · rw [if_neg (List.ne_nil_of_mem hc)]
      exact List.mem_append_right _ (List.mem_cons_of_mem sep (ih hc))

/-- Joining with the separator of a translated alphabet. -/
theorem joinText_flatMap (f : α → List β) (sep : α) (cs : List (List α)) :
    (joinText sep cs).flatMap f = (f sep).intercalate (cs.map fun c => c.flatMap f) := by
  induction cs with
  | nil => rfl
  | cons c cs ih =>
    cases cs with
    | nil => simp [joinText, List.intercalate]
    | cons d ds =>
      simp only [joinText, List.intercalate] at ih ⊢
      simp [ih]

end Components

section Strip

variable {p : α → Bool} {xs ys : List α}

/-- Stripping from the right stops at the last element that is kept. -/
theorem rdropWhile_append_of_all (h : ∀ y ∈ ys, p y = true) :
    (xs ++ ys).rdropWhile p = xs.rdropWhile p := by
  have hrev : ∀ y ∈ ys.reverse, p y = true := fun y hy => h y (List.mem_reverse.mp hy)
  rw [List.rdropWhile, List.rdropWhile, List.reverse_append, List.dropWhile_append_of_pos hrev]

/-- What is stripped from a text of which only the end is stripped. -/
theorem rdropWhile_sublist {zs : List α} (h : xs.Sublist (zs ++ ys))
    (hys : ∀ y ∈ ys, p y = true) : (xs.rdropWhile p).Sublist zs := by
  obtain ⟨as, bs, rfl, has, hbs⟩ := List.sublist_append_iff.mp h
  rw [rdropWhile_append_of_all fun b hb => hys b (hbs.subset hb)]
  exact (List.rdropWhile_prefix p as).sublist.trans has

/-- Without their last elements a sublist is still one. -/
theorem dropLast_sublist_dropLast (h : xs.Sublist ys) : xs.dropLast.Sublist ys.dropLast := by
  have htail := h.reverse.tail
  rw [List.tail_reverse, List.tail_reverse] at htail
  exact List.reverse_sublist.mp htail

end Strip

section Resolve

variable [DecidableEq β] {dot dotdot : β} {stack : List β} {cs : List β}

/-- A map that keeps "." and ".." apart from the rest commutes with the resolution. -/
theorem resolveFrom_map {γ : Type} [DecidableEq γ] (f : β → γ) {stack cs : List β}
    (h : ∀ c ∈ cs, (f c = f dot → c = dot) ∧ (f c = f dotdot → c = dotdot)) :
    resolveFrom (f dot) (f dotdot) (stack.map f) (cs.map f) =
      (resolveFrom dot dotdot stack cs).map (List.map f) := by
  induction cs generalizing stack with
  | nil => rfl
  | cons c cs ih =>
    have hcs := fun s : List β => @ih s fun d hd => h d (List.mem_cons_of_mem c hd)
    obtain ⟨hdot, hdotdot⟩ := h c List.mem_cons_self
    have hstep : resolveStep (f dot) (f dotdot) (stack.map f) (f c) =
        (resolveStep dot dotdot stack c).map (List.map f) := by
      unfold resolveStep
      by_cases h1 : c = dot
      · rw [if_pos h1, if_pos (congrArg f h1)]
        rfl
      · rw [if_neg h1, if_neg (fun he => h1 (hdot he))]
        by_cases h2 : c = dotdot
        · rw [if_pos h2, if_pos (congrArg f h2)]
          cases stack with
          | nil => rfl
          | cons top below => rfl
        · rw [if_neg h2, if_neg (fun he => h2 (hdotdot he))]
          rfl
    rw [resolveFrom, resolveFrom, List.map_cons, List.foldlM_cons, List.foldlM_cons, hstep]
    cases resolveStep dot dotdot stack c with
    | none => rfl
    | some s => exact hcs s

/-- Components that are neither "." nor ".." are all kept. -/
theorem resolveFrom_plain (h : ∀ c ∈ cs, c ≠ dotdot) :
    ∃ kept, resolveFrom dot dotdot stack cs = some kept := by
  induction cs generalizing stack with
  | nil => exact ⟨stack, rfl⟩
  | cons c cs ih =>
    have hc := h c List.mem_cons_self
    have hcs := fun d hd => h d (List.mem_cons_of_mem c hd)
    by_cases hd : c = dot
    · have hstep : resolveStep dot dotdot stack c = some stack := if_pos hd
      obtain ⟨kept, hk⟩ := @ih stack hcs
      exact ⟨kept, by simpa [resolveFrom, hstep] using hk⟩
    · have hstep : resolveStep dot dotdot stack c = some (c :: stack) := by
        simp only [resolveStep, hd, hc, if_false]
      obtain ⟨kept, hk⟩ := @ih (c :: stack) hcs
      exact ⟨kept, by simpa [resolveFrom, hstep] using hk⟩

/-- Without a ".." the resolution never leaves the root. -/
theorem resolve_plain (h : ∀ c ∈ cs, c ≠ dotdot) : resolve dot dotdot cs ≠ none := by
  have hplain : ∃ kept, resolveFrom dot dotdot [] cs = some kept := resolveFrom_plain h
  obtain ⟨kept, hk⟩ := hplain
  simp [resolve, hk]

end Resolve

end Wbox.Lib
