import Wbox.Host.Fs

/-!
# What an open leaves behind

An open changes at most one place of the tree, and the same path leads there afterwards.
-/

namespace Wbox.Host

open Wbox.Lib

variable {fs fs' : HostFs} {node : List Name → Option Node} {follow : Bool}
  {onLink onLink' : List Name → List Name → Lookup} {cur names loc real : List Name}
  {path : List UInt8} {flags : OpenFlags}

/-- All names of a real path are names. -/
def AllNames (path : List Name) : Prop := ∀ n ∈ path, IsComponent isSlash n

/-- A lookup that finds a place in the tree finds one with proper names. -/
def Lookup.AllNames : Lookup → Prop
  | .found real => Host.AllNames real
  | .missing parent name => Host.AllNames (parent ++ [name])
  | .failed _ => True

/-- The names of a real path can be read off its text. -/
theorem components_pathText (h : AllNames names) :
    components isSlash (pathText names) = names := by
  unfold pathText
  split
  · next hnil =>
    rw [hnil]
    rfl
  · have hall : ∀ names : List Name, AllNames names →
        components isSlash (names.flatMap (slash :: ·)) = names := by
      intro names hnames
      induction names with
      | nil => rfl
      | cons n ns ih =>
        have hn := hnames n List.mem_cons_self
        have hns := ih fun m hm => hnames m (List.mem_cons_of_mem n hm)
        have hhead : components isSlash (slash :: (n ++ ns.flatMap (slash :: ·))) =
            components isSlash (n ++ ns.flatMap (slash :: ·)) :=
          components_cons_sep (by decide)
        rw [List.flatMap_cons, List.cons_append, hhead]
        cases ns with
        | nil =>
          rw [List.flatMap_nil, List.append_nil]
          exact components_singleton hn
        | cons m ms =>
          have htail : components isSlash (slash :: (m ++ ms.flatMap (slash :: ·))) =
              components isSlash (m ++ ms.flatMap (slash :: ·)) :=
            components_cons_sep (by decide)
          rw [List.flatMap_cons, List.cons_append, htail] at hns
          rw [List.flatMap_cons, List.cons_append, components_append_cons (by decide),
            components_singleton hn, hns]
          rfl
    exact hall names h

theorem pathNames_allNames (path : List UInt8) : AllNames (pathNames path) := by
  intro n hn
  unfold pathNames at hn
  rcases List.mem_append.mp hn with hn | hn
  · exact components_isComponent hn
  · split at hn
    · rw [List.mem_singleton.mp hn]
      decide
    · cases hn

private theorem AllNames.append {as bs : List Name} (ha : AllNames as) (hb : AllNames bs) :
    AllNames (as ++ bs) := by
  intro n hn
  rcases List.mem_append.mp hn with hn | hn
  · exact ha n hn
  · exact hb n hn

private theorem startOf_allNames (hcur : AllNames cur) : AllNames (startOf path cur) := by
  unfold startOf
  split
  · nofun
  · exact hcur

/-- Names that are looked up below proper names are proper names. -/
theorem walkNames_allNames
    (hlink : ∀ cur names, AllNames cur → AllNames names → (onLink cur names).AllNames)
    (hcur : AllNames cur) (hnames : AllNames names) :
    (walkNames node follow onLink cur names).AllNames := by
  induction names generalizing cur with
  | nil => exact hcur
  | cons name rest ih =>
    have hname := hnames name List.mem_cons_self
    have hrest : AllNames rest := fun n hn => hnames n (List.mem_cons_of_mem name hn)
    have hnext : AllNames (cur ++ [name]) :=
      hcur.append fun n hn => List.mem_singleton.mp hn ▸ hname
    unfold walkNames
    split
    · exact ih hcur hrest
    · split
      · exact ih (fun n hn => hcur n (List.dropLast_subset cur hn)) hrest
      · split
        · split
          · exact hnext
          · trivial
        · exact ih hnext hrest
        · split
          · exact hnext
          · trivial
        · split
          · exact hnext
          · split
            · trivial
            · exact hlink _ _ (startOf_allNames hcur) ((pathNames_allNames _).append hrest)

/-- The same with links followed. -/
theorem walk_allNames (links : Nat) (hcur : AllNames cur) (hnames : AllNames names) :
    (walk node follow links cur names).AllNames := by
  induction links generalizing cur names with
  | zero => exact walkNames_allNames (fun _ _ _ _ => trivial) hcur hnames
  | succ links ih => exact walkNames_allNames (fun _ _ => ih) hcur hnames

end Wbox.Host
