import Wbox.Host.Opens

/-!
# Directories of the host

`opendir` and `readdir` over the host tree. A directory lists ".", ".." and its children, in any
order. In a tree without symbolic links a path leads where its names lead one after the other.
-/

namespace Wbox.Host

open Wbox.Lib

/-- A host together with the order in which `readdir` returns the entries of each directory. -/
structure HostTree extends HostFs where
  entries : List Name → List Name
  entries_iff : ∀ dir n, n ∈ entries dir ↔ n = dotName ∨ n = dotdotName ∨
    IsComponent isSlash n ∧ n ≠ dotName ∧ n ≠ dotdotName ∧ node (dir ++ [n]) ≠ none

/-- `opendir` and `readdir`: the entries of the directory a path leads to. -/
def HostTree.opendir (t : HostTree) (path : List UInt8) : Option (List Name) :=
  match t.refuses path { directory := true } with
  | some _ => none
  | none =>
      match t.lookup true path with
      | .found dir => if t.nodeAt dir = some .dir then some (t.entries dir) else none
      | .missing _ _ => none
      | .failed _ => none

/-- A tree without symbolic links. -/
def HostFs.NoLinks (fs : HostFs) : Prop := ∀ path target, fs.node path ≠ some (.symlink target)

/-- A directory with a real path: names from the root, each a directory. -/
structure HostFs.RealDir (fs : HostFs) (dir : List Name) : Prop where
  names : AllNames dir
  plain : ∀ n ∈ dir, n ≠ dotName ∧ n ≠ dotdotName
  dirs : ∀ part, part ≠ [] → part <+: dir → fs.node part = some .dir

/-- One name after a directory, read as text. -/
def lexStep (cur : List Name) (n : Name) : List Name :=
  if n = dotName then cur else if n = dotdotName then cur.dropLast else cur ++ [n]

/-- The text of a path leads to a directory. -/
structure HostFs.LeadsTo (fs : HostFs) (path : List UInt8) (dir : List Name) : Prop where
  absolute : path.head? = some slash
  walks : ∀ onLink, walkNames fs.node true onLink [] (components isSlash path) = .found dir
  real : fs.RealDir dir

variable {fs : HostFs} {onLink : List Name → List Name → Lookup} {cur mid dir : List Name}
  {path : List UInt8} {n : Name}

private theorem walkNames_cons (name : Name) (rest : List Name) :
    walkNames fs.node true onLink cur (name :: rest) =
      if name = dotName then walkNames fs.node true onLink cur rest
      else if name = dotdotName then walkNames fs.node true onLink cur.dropLast rest
      else match fs.node (cur ++ [name]) with
        | none => if rest = [] then .missing cur name else .failed .noent
        | some .dir => walkNames fs.node true onLink (cur ++ [name]) rest
        | some (.file _) => if rest = [] then .found (cur ++ [name]) else .failed .notdir
        | some (.symlink target) =>
            if rest = [] ∧ true = false then .found (cur ++ [name])
            else if target = [] then .failed .noent
            else onLink (startOf target cur) (pathNames target ++ rest) := rfl

/-- Names after those that lead to a directory are looked up from there. -/
theorem walkNames_append (hlinks : fs.NoLinks) {xs : List Name} (ys : List Name)
    (h : walkNames fs.node true onLink cur xs = .found mid) (hdir : fs.nodeAt mid = some .dir) :
    walkNames fs.node true onLink cur (xs ++ ys) = walkNames fs.node true onLink mid ys := by
  induction xs generalizing cur with
  | nil =>
    cases h
    rfl
  | cons x xs ih =>
    rw [walkNames_cons] at h
    rw [List.cons_append, walkNames_cons]
    by_cases hdot : x = dotName
    · rw [if_pos hdot] at h ⊢
      exact ih h
    by_cases hdotdot : x = dotdotName
    · rw [if_neg hdot, if_pos hdotdot] at h ⊢
      exact ih h
    rw [if_neg hdot, if_neg hdotdot] at h ⊢
    cases hnode : fs.node (cur ++ [x]) with
    | none =>
      simp only [hnode] at h
      split at h <;> cases h
    | some node =>
      cases node with
      | dir =>
        simp only [hnode] at h ⊢
        exact ih h
      | file content =>
        simp only [hnode] at h
        split at h
        · cases h
          simp [HostFs.nodeAt, hnode] at hdir
        · cases h
      | symlink target => exact absurd hnode (hlinks _ target)

/-- A single name looked up in a directory. -/
theorem walkNames_single (hlinks : fs.NoLinks) :
    walkNames fs.node true onLink cur [n] =
      if n = dotName ∨ n = dotdotName ∨ fs.node (cur ++ [n]) ≠ none then .found (lexStep cur n)
      else .missing cur n := by
  rw [walkNames_cons, lexStep]
  by_cases hdot : n = dotName
  · simp [hdot, walkNames]
  by_cases hdotdot : n = dotdotName
  · have hne : dotdotName ≠ dotName := by decide
    simp [hdotdot, hne, walkNames]
  simp only [hdot, hdotdot, if_false, false_or]
  cases hnode : fs.node (cur ++ [n]) with
  | none => simp
  | some node =>
    cases node with
    | dir => simp [walkNames]
    | file content => simp
    | symlink target => exact absurd hnode (hlinks _ target)

/-- Directories from the root, one below the other, lead to the last one. -/
theorem HostFs.RealDir.walks (h : fs.RealDir (cur ++ dir)) :
    walkNames fs.node true onLink cur dir = .found (cur ++ dir) := by
  induction dir generalizing cur with
  | nil => simp [walkNames]
  | cons n rest ih =>
    have happend : cur ++ n :: rest = cur ++ [n] ++ rest := by simp
    obtain ⟨hdot, hdotdot⟩ := h.plain n (by simp)
    have hnode : fs.node (cur ++ [n]) = some .dir := by
      apply h.dirs _ (by simp)
      rw [happend]
      exact List.prefix_append _ _
    rw [walkNames_cons, if_neg hdot, if_neg hdotdot]
    simp only [hnode]
    rw [happend] at h ⊢
    exact ih h

/-- A real directory is a directory. -/
theorem HostFs.RealDir.isDir (h : fs.RealDir dir) : fs.nodeAt dir = some .dir := by
  unfold HostFs.nodeAt
  split
  · rfl
  · next hne => exact h.dirs dir hne (List.prefix_refl dir)

/-- The parent of a real directory is one. -/
theorem HostFs.RealDir.dropLast (h : fs.RealDir dir) : fs.RealDir dir.dropLast where
  names := fun n hn => h.names n (List.dropLast_subset dir hn)
  plain := fun n hn => h.plain n (List.dropLast_subset dir hn)
  dirs := fun part hne hpart => h.dirs part hne (hpart.trans (List.dropLast_prefix dir))

/-- The directory that an entry of a real directory stands for is real. -/
theorem HostFs.RealDir.step (h : fs.RealDir dir) (hn : IsComponent isSlash n)
    (hdir : fs.nodeAt (lexStep dir n) = some .dir) : fs.RealDir (lexStep dir n) := by
  unfold lexStep at hdir ⊢
  by_cases hdot : n = dotName
  · rwa [if_pos hdot]
  by_cases hdotdot : n = dotdotName
  · rw [if_neg hdot, if_pos hdotdot]
    exact h.dropLast
  rw [if_neg hdot, if_neg hdotdot] at hdir ⊢
  have hnode : fs.node (dir ++ [n]) = some .dir := by
    simpa [HostFs.nodeAt] using hdir
  constructor
  · intro m hm
    rcases List.mem_append.mp hm with hm | hm
    · exact h.names m hm
    · exact List.mem_singleton.mp hm ▸ hn
  · intro m hm
    rcases List.mem_append.mp hm with hm | hm
    · exact h.plain m hm
    · exact List.mem_singleton.mp hm ▸ ⟨hdot, hdotdot⟩
  · intro part hne hpart
    rcases List.prefix_concat_iff.mp hpart with rfl | hpart
    · exact hnode
    · exact h.dirs part hne hpart

/-- A real directory's text leads to it. -/
theorem HostFs.RealDir.leadsTo (h : fs.RealDir dir) : fs.LeadsTo (pathText dir) dir where
  absolute := by
    unfold pathText
    cases dir <;> rfl
  walks := by
    intro onLink
    rw [components_pathText h.names]
    exact HostFs.RealDir.walks (by simpa using h)
  real := h

/-- What a text leads to is what the host finds; a slash at its end changes nothing. -/
theorem HostFs.LeadsTo.lookup (h : fs.LeadsTo path dir) (hlinks : fs.NoLinks) :
    fs.lookup true path = .found dir := by
  have hne : path ≠ [] := by
    rintro rfl
    cases h.absolute
  unfold HostFs.lookup startOf pathNames
  rw [if_neg hne, if_pos h.absolute]
  have hwalk : ∀ onLink, walkNames fs.node true onLink [] (components isSlash path ++
      if path.getLast? = some slash then [dotName] else []) = .found dir := by
    intro onLink
    rw [walkNames_append hlinks _ (h.walks onLink) h.real.isDir]
    split <;> simp [walkNames]
  unfold maxSymlinks walk
  exact hwalk _

/-- A name after a text that leads to a directory is looked up there. -/
theorem HostFs.LeadsTo.lookup_name (h : fs.LeadsTo path dir) (hlinks : fs.NoLinks)
    (hn : IsComponent isSlash n) :
    fs.lookup true (path ++ slash :: n) =
      if n = dotName ∨ n = dotdotName ∨ fs.node (dir ++ [n]) ≠ none then .found (lexStep dir n)
      else .missing dir n := by
  have hhead : (path ++ slash :: n).head? = some slash := by
    rw [List.head?_append, h.absolute]
    rfl
  have hlast : (path ++ slash :: n).getLast? ≠ some slash := by
    intro hslash
    rw [List.getLast?_append_of_ne_nil _ (by simp), List.getLast?_cons,
      List.getLast?_eq_some_getLast hn.1] at hslash
    have hmem : slash ∈ n := by
      rw [← Option.some.inj hslash]
      simp
    exact absurd (hn.2 slash hmem) (by decide)
  unfold HostFs.lookup startOf pathNames
  rw [if_neg (by simp), if_pos hhead, if_neg hlast, List.append_nil,
    components_append_cons (by decide), components_singleton hn]
  unfold maxSymlinks walk
  rw [walkNames_append hlinks _ (h.walks _) h.real.isDir, walkNames_single hlinks]

/-- A slash at the end of a text changes nothing. -/
theorem HostFs.LeadsTo.trailing (h : fs.LeadsTo path dir) : fs.LeadsTo (path ++ [slash]) dir where
  absolute := by
    rw [List.head?_append, h.absolute]
    rfl
  walks := by
    intro onLink
    rw [components_append_cons (by decide), components_nil, List.append_nil]
    exact h.walks onLink
  real := h.real

/-- A directory found under a name is what the longer text leads to. -/
theorem HostFs.LeadsTo.name (h : fs.LeadsTo path dir) (hlinks : fs.NoLinks)
    (hn : IsComponent isSlash n)
    (hfound : n = dotName ∨ n = dotdotName ∨ fs.node (dir ++ [n]) ≠ none)
    (hdir : fs.nodeAt (lexStep dir n) = some .dir) :
    fs.LeadsTo (path ++ slash :: n) (lexStep dir n) where
  absolute := by
    rw [List.head?_append, h.absolute]
    rfl
  walks := by
    intro onLink
    rw [components_append_cons (by decide), components_singleton hn,
      walkNames_append hlinks _ (h.walks onLink) h.real.isDir, walkNames_single hlinks, if_pos hfound]
  real := h.real.step hn hdir

end Wbox.Host
