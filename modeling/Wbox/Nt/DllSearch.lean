import Wbox.Host.Dirs
import Wbox.Nt.VfsJail

/-!
# The search for DLLs

`vfs_find_dll` of `src/nt/vfs_jail.c:471–591`: a DLL name is split at its slashes, and every
component is matched, ignoring case, against what `readdir` lists, "." and ".." included.
-/

namespace Wbox.Nt

open Wbox.Lib Wbox.Host

/-- `tolower` of the C locale. -/
def foldCase (b : UInt8) : UInt8 := if 0x41 ≤ b ∧ b ≤ 0x5A then b + 0x20 else b

/-- `strcasecmp(a, b) == 0`. -/
def sameIcase (a b : Name) : Bool := a.map foldCase == b.map foldCase

/-- The bytes of a text of the source. -/
def ascii (text : String) : Name := text.toList.map fun c => UInt8.ofNat c.toNat

/-- What fits in a buffer of VFS_MAX_PATH bytes with its NUL. -/
def clip (path : List UInt8) : List UInt8 := path.take (vfsMaxPath - 1)

/-- `find_entry_icase`, `vfs_jail.c:476–497`. -/
def findEntryIcase (t : HostTree) (dirPath : List UInt8) (name : Name) : Option (List UInt8) :=
  match t.opendir dirPath with
  | none => none
  | some entries =>
      (entries.find? fun entry => sameIcase entry name).map fun entry =>
        clip (dirPath ++ slash :: entry)

/-- `resolve_path_icase`, `vfs_jail.c:505–537`. -/
def resolvePathIcase (t : HostTree) (basePath relPath : List UInt8) : Option (List UInt8) :=
  ((components isSlash relPath).foldlM (findEntryIcase t) (clip basePath)).map clip

/-- The directories of the C: drive that are searched, in order. -/
def searchPaths : List (List UInt8) :=
  [ascii "reactos/system32", ascii "windows/system32", ascii "system32", ascii "reactos",
    ascii "windows"]

/-- The relative path of a DLL in one of them. -/
def relPath (searchPath : List UInt8) (dllName : Name) : List UInt8 :=
  clip (searchPath ++ slash :: dllName)

/-- A DLL looked for in one directory, `vfs_jail.c:560–569`, `578–587`. -/
def dllIn (t : HostTree) (cDrive : List UInt8) (dllName : Name) (searchPath : List UInt8) :
    Option (List UInt8) :=
  match resolvePathIcase t cDrive (relPath searchPath dllName) with
  | none => none
  | some outPath =>
      match t.stat outPath with
      | some (.file _) => some outPath
      | _ => none

/-- `vfs_find_dll`, `vfs_jail.c:539–591`. -/
def vfsFindDll (vfs : VfsJail) (t : HostTree) (dllName : Name) : Option (List UInt8) :=
  if vfs.initialized = false then none
  else if (vfs.drives 2).mapped = false then none
  else searchPaths.findSome? (dllIn t (vfs.drives 2).hostPath dllName)

/-- The components left once ".." has been met as often as at depth 0 it climbs out. -/
def afterClimb : Nat → List Name → Option (List Name)
  | _, [] => none
  | depth, c :: cs =>
      if c = dotName then afterClimb depth cs
      else if c = dotdotName then
        match depth with
        | 0 => some cs
        | depth + 1 => afterClimb depth cs
      else afterClimb (depth + 1) cs

/-- The directory that components lead to from a directory, each of them the first entry that is
the same ignoring case. -/
def dirWalk (t : HostTree) : List Name → List Name → Option (List Name)
  | cur, [] => some cur
  | cur, c :: cs =>
      match (t.entries cur).find? fun entry => sameIcase entry c with
      | none => none
      | some entry =>
          if t.nodeAt (lexStep cur entry) = some .dir then dirWalk t (lexStep cur entry) cs
          else none

/-- A path leads to a place below a directory. -/
def LeadsInside (t : HostTree) (root : List Name) (path : List UInt8) : Prop :=
  ∃ real, t.lookup true path = .found real ∧ root <+: real

/-- If the components climb above the root, then what is left of them, but the last, leads back
below it. -/
def LeadsBack (t : HostTree) (root : List Name) (cs : List Name) : Prop :=
  ∀ rest, afterClimb 0 cs = some rest →
    ∀ dir, dirWalk t root.dropLast rest.dropLast = some dir → root <+: dir

variable {t : HostTree} {root dir base below : List Name} {path out : List UInt8} {c entry : Name}
  {cs : List Name} {depth : Nat}

/-- Only the byte '.' is the same as '.' ignoring case. -/
theorem foldCase_dot {b : UInt8} (h : foldCase b = 0x2E) : b = 0x2E := by
  unfold foldCase at h
  split at h
  · next hletter =>
    obtain ⟨hlow, hhigh⟩ := hletter
    have hb := congrArg UInt8.toNat h
    rw [UInt8.le_iff_toNat_le] at hlow hhigh
    rw [UInt8.toNat_add] at hb
    simp only [UInt8.reduceToNat] at hlow hhigh hb
    omega
  · exact h

/-- A name of dots has no other spelling. -/
theorem sameIcase_dots {a b : Name} (hb : ∀ x ∈ b, x = 0x2E) (h : sameIcase a b = true) :
    a = b := by
  have hmap : a.map foldCase = b.map foldCase := eq_of_beq h
  have hdots : b.map foldCase = b := by
    rw [List.map_congr_left (g := id) fun x hx => by rw [hb x hx]; decide, List.map_id]
  rw [hdots] at hmap
  have ha : a.map foldCase = a := by
    rw [List.map_congr_left (g := id) ?_, List.map_id]
    intro x hx
    have hmem : foldCase x ∈ b := hmap ▸ List.mem_map_of_mem hx
    have hdot := hb _ hmem
    rw [hdot, foldCase_dot hdot]
    rfl
  rw [← ha, hmap]

/-- The entry matched is ".." exactly if the component is; the same for ".". -/
theorem sameIcase_dot_iff (h : sameIcase entry c = true) :
    (entry = dotName ↔ c = dotName) ∧ (entry = dotdotName ↔ c = dotdotName) := by
  have hsymm : sameIcase c entry = true := by
    unfold sameIcase at h ⊢
    rw [beq_iff_eq] at h ⊢
    exact h.symm
  have hspell : ∀ n : Name, (∀ x ∈ n, x = 0x2E) → (entry = n ↔ c = n) := by
    intro n hn
    constructor
    · rintro rfl
      exact sameIcase_dots hn hsymm
    · rintro rfl
      exact sameIcase_dots hn h
  exact ⟨hspell dotName (by simp [dotName]), hspell dotdotName (by simp [dotdotName])⟩

/-- The first step of a walk. -/
theorem dirWalk_cons (h : dirWalk t base (c :: cs) = some dir) :
    ∃ entry, sameIcase entry c = true ∧ dirWalk t (lexStep base entry) cs = some dir := by
  unfold dirWalk at h
  split at h
  · cases h
  · next entry hentry =>
    split at h
    · exact ⟨entry, List.find?_some (p := fun e => sameIcase e c) hentry, h⟩
    · cases h

/-- A walk that does not climb ends below where it started; otherwise it goes on from the parent
of that directory. -/
theorem dirWalk_climb (h : dirWalk t (base ++ below) cs = some dir) :
    (afterClimb below.length cs = none → base <+: dir) ∧
      ∀ rest, afterClimb below.length cs = some rest →
        dirWalk t base.dropLast rest = some dir := by
  induction cs generalizing below with
  | nil =>
    refine ⟨fun _ => ?_, fun rest hrest => by cases hrest⟩
    rw [← Option.some.inj h]
    exact List.prefix_append base below
  | cons c cs ih =>
    obtain ⟨entry, hsame, hnext⟩ := dirWalk_cons h
    obtain ⟨hdot, hdotdot⟩ := sameIcase_dot_iff hsame
    unfold lexStep at hnext
    unfold afterClimb
    by_cases hc : c = dotName
    · rw [if_pos (hdot.mpr hc)] at hnext
      rw [if_pos hc]
      exact ih hnext
    by_cases hcc : c = dotdotName
    · rw [if_neg (mt hdot.mp hc), if_pos (hdotdot.mpr hcc)] at hnext
      rw [if_neg hc, if_pos hcc]
      rcases List.eq_nil_or_concat below with rfl | ⟨init, last, rfl⟩
      · rw [List.append_nil] at hnext
        constructor
        · nofun
        · intro rest hrest
          rw [← Option.some.inj hrest]
          exact hnext
      · rw [List.concat_eq_append, ← List.append_assoc, List.dropLast_concat] at hnext
        rw [List.concat_eq_append, List.length_append]
        exact ih hnext
    · rw [if_neg (mt hdot.mp hc), if_neg (mt hdotdot.mp hcc), List.append_assoc] at hnext
      rw [if_neg hc, if_neg hcc]
      have hlen : below.length + 1 = (below ++ [entry]).length := by simp
      rw [hlen]
      exact ih hnext

/-- A component that is not ".." adds nothing to climb. -/
theorem afterClimb_concat (hc : c ≠ dotdotName) :
    afterClimb depth (cs ++ [c]) = (afterClimb depth cs).map (· ++ [c]) := by
  induction cs generalizing depth with
  | nil => simp [afterClimb, hc]
  | cons d ds ih =>
    rw [List.cons_append]
    unfold afterClimb
    split
    · exact ih
    · split
      · cases depth with
        | zero => rfl
        | succ depth => exact ih
      · exact ih

/-- A file found in a directory reached by a walk is inside exactly if the walk leads back. -/
theorem inside_iff_leadsBack (hroot : t.RealDir root)
    {init : List Name} {n : Name} (hwalk : dirWalk t root init = some dir)
    (hc : c ≠ dotdotName) (hfile : t.nodeAt (dir ++ [n]) ≠ some .dir) :
    root <+: dir ++ [n] ↔ LeadsBack t root (init ++ [c]) := by
  have hfrom : dirWalk t (root ++ []) init = some dir := by rwa [List.append_nil]
  obtain ⟨hstay, hclimb⟩ := dirWalk_climb hfrom
  have hinside : root <+: dir ++ [n] ↔ root <+: dir := by
    rw [List.prefix_concat_iff]
    constructor
    · rintro (rfl | h)
      · exact absurd (hroot.isDir) hfile
      · exact h
    · exact Or.inr
  rw [hinside]
  unfold LeadsBack
  rw [afterClimb_concat hc]
  cases hafter : afterClimb 0 init with
  | none => exact ⟨fun _ rest hrest => by simp at hrest, fun _ => hstay hafter⟩
  | some rest =>
    have hrest := hclimb rest hafter
    constructor
    · intro h rest' hrest' dir' hdir'
      have heq : rest' = rest ++ [c] := (Option.some.inj hrest').symm
      rw [heq, List.dropLast_concat, hrest] at hdir'
      exact Option.some.inj hdir' ▸ h
    · intro h
      exact h (rest ++ [c]) rfl dir (by rw [List.dropLast_concat]; exact hrest)

section Search

variable {s s' : List UInt8} {d : List Name}

/-- A directory that can be read is what its path leads to. -/
theorem opendir_some {entries : List Name} (h : t.opendir path = some entries) :
    ∃ dir, t.lookup true path = .found dir ∧ t.nodeAt dir = some .dir ∧ entries = t.entries dir := by
  unfold HostTree.opendir at h
  split at h
  · cases h
  · split at h
    · next dir hlook =>
      split at h
      · next hdir => exact ⟨dir, hlook, hdir, (Option.some.inj h).symm⟩
      · cases h
    · cases h
    · cases h

/-- What one step of the search does: it appends the first entry that is the same. -/
theorem findEntryIcase_some (h : findEntryIcase t s c = some s') :
    t.stat s = some .dir ∧ ∃ dir entry, t.lookup true s = .found dir ∧
      (t.entries dir).find? (fun entry => sameIcase entry c) = some entry ∧
        s' = clip (s ++ slash :: entry) := by
  unfold findEntryIcase at h
  split at h
  · cases h
  · next entries hopen =>
    obtain ⟨dir, hlook, hdir, rfl⟩ := opendir_some hopen
    cases hfind : (t.entries dir).find? fun entry => sameIcase entry c with
    | none =>
      rw [hfind] at h
      cases h
    | some entry =>
      rw [hfind] at h
      constructor
      · unfold HostFs.stat
        rw [hlook]
        exact hdir
      · exact ⟨dir, entry, hlook, hfind, (Option.some.inj h).symm⟩

/-- Nothing is searched below what is no directory. -/
theorem search_ends (h : cs.foldlM (findEntryIcase t) s = some out) (hno : t.stat s ≠ some .dir) :
    cs = [] ∧ out = s := by
  cases cs with
  | nil => exact ⟨rfl, (Option.some.inj h).symm⟩
  | cons c cs =>
    obtain ⟨s', hstep, -⟩ := Option.bind_eq_some_iff.mp h
    exact absurd (findEntryIcase_some hstep).1 hno

/-- A path that fills its buffer stays as it is. -/
theorem search_full (h : cs.foldlM (findEntryIcase t) s = some out)
    (hfull : s.length = vfsMaxPath - 1) : out = s := by
  induction cs with
  | nil => exact (Option.some.inj h).symm
  | cons c cs ih =>
    obtain ⟨s', hstep, hrest⟩ := Option.bind_eq_some_iff.mp h
    obtain ⟨-, dir, entry, -, -, hs'⟩ := findEntryIcase_some hstep
    have hsame : s' = s := by
      rw [hs', clip, List.take_append_of_le_length (by omega), List.take_of_length_le (by omega)]
    exact ih (hsame ▸ hrest)

/-- The search never overruns its buffer. -/
theorem search_length (h : cs.foldlM (findEntryIcase t) s = some out)
    (hfits : s.length ≤ vfsMaxPath - 1) : out.length ≤ vfsMaxPath - 1 := by
  induction cs generalizing s with
  | nil => exact Option.some.inj h ▸ hfits
  | cons c cs ih =>
    obtain ⟨s', hstep, hrest⟩ := Option.bind_eq_some_iff.mp h
    obtain ⟨-, dir, entry, -, -, rfl⟩ := findEntryIcase_some hstep
    exact ih hrest (List.length_take_le _ _)

/-- An entry of a directory is a name that stands for something there. -/
theorem entry_found {n : Name} (h : n ∈ t.entries d) :
    IsComponent isSlash n ∧ (n = dotName ∨ n = dotdotName ∨ t.node (d ++ [n]) ≠ none) := by
  rcases (t.entries_iff d n).mp h with rfl | rfl | ⟨hn, -, -, hnode⟩
  · exact ⟨by decide, Or.inl rfl⟩
  · exact ⟨by decide, Or.inr (Or.inl rfl)⟩
  · exact ⟨hn, Or.inr (Or.inr hnode)⟩

/-- A name after a directory that leads to a file is the place below it. -/
theorem stat_name {n : Name} (hlinks : t.NoLinks) (hs : t.LeadsTo s d) (hn : IsComponent isSlash n)
    (hfile : ∃ content, t.stat (s ++ slash :: n) = some (.file content)) :
    n ≠ dotName ∧ n ≠ dotdotName ∧ t.lookup true (s ++ slash :: n) = .found (d ++ [n]) ∧
      t.nodeAt (d ++ [n]) ≠ some .dir := by
  obtain ⟨content, hfile⟩ := hfile
  unfold HostFs.stat at hfile
  rw [hs.lookup_name hlinks hn] at hfile ⊢
  by_cases hfound : n = dotName ∨ n = dotdotName ∨ t.node (d ++ [n]) ≠ none
  · rw [if_pos hfound] at hfile ⊢
    dsimp only at hfile
    unfold lexStep at hfile ⊢
    by_cases hdot : n = dotName
    · rw [if_pos hdot, hs.real.isDir] at hfile
      cases hfile
    by_cases hdotdot : n = dotdotName
    · rw [if_neg hdot, if_pos hdotdot, hs.real.dropLast.isDir] at hfile
      cases hfile
    rw [if_neg hdot, if_neg hdotdot] at hfile ⊢
    refine ⟨hdot, hdotdot, rfl, ?_⟩
    rw [hfile]
    nofun
  · rw [if_neg hfound] at hfile
    cases hfile

/-- What the buffer holds of an entry's path. -/
theorem clip_entry (hfits : s.length ≤ vfsMaxPath - 1) :
    clip (s ++ slash :: entry) = s ∨ clip (s ++ slash :: entry) = s ++ [slash] ∨
      ∃ k, clip (s ++ slash :: entry) = s ++ slash :: entry.take (k + 1) := by
  unfold clip
  rw [List.take_append, List.take_of_length_le hfits]
  rcases hroom : vfsMaxPath - 1 - s.length with _ | _ | k
  · left
    simp
  · right; left
    simp
  · right; right
    exact ⟨k, rfl⟩

/-- A file that is found is an entry of the directory that the components but the last lead to,
cut where the buffer ends. -/
theorem search_finds (hlinks : t.NoLinks) (hs : t.LeadsTo s d) (hfits : s.length ≤ vfsMaxPath - 1)
    (h : cs.foldlM (findEntryIcase t) s = some out)
    (hfile : ∃ content, t.stat out = some (.file content)) :
    ∃ init c dir n, cs = init ++ [c] ∧ c ≠ dotdotName ∧ dirWalk t d init = some dir ∧
      t.lookup true out = .found (dir ++ [n]) ∧ t.nodeAt (dir ++ [n]) ≠ some .dir := by
  have hstat : ∀ {s d}, t.LeadsTo s d → t.stat s = some .dir := by
    intro s d hs
    unfold HostFs.stat
    rw [hs.lookup hlinks]
    exact hs.real.isDir
  induction cs generalizing s d with
  | nil =>
    obtain ⟨content, hfile⟩ := hfile
    rw [← Option.some.inj h, hstat hs] at hfile
    cases hfile
  | cons c cs ih =>
    obtain ⟨s', hstep, hrest⟩ := Option.bind_eq_some_iff.mp h
    obtain ⟨-, dir, entry, hlook, hfind, hs'⟩ := findEntryIcase_some hstep
    have hdir : dir = d := by
      rw [hs.lookup hlinks] at hlook
      exact (Lookup.found.inj hlook).symm
    subst hdir
    have hsame : sameIcase entry c = true := List.find?_some (p := fun e => sameIcase e c) hfind
    obtain ⟨hentry, hfound⟩ := entry_found (List.mem_of_find?_eq_some hfind)
    -- a directory that is found in full is searched further
    by_cases hnext : s' = s ++ slash :: entry ∧ t.nodeAt (lexStep dir entry) = some .dir
    · obtain ⟨rfl, hnode⟩ := hnext
      have hlen : (s ++ slash :: entry).length ≤ vfsMaxPath - 1 := by
        rw [hs']
        exact List.length_take_le _ _
      obtain ⟨init, last, found, n, rfl, hlast, hwalk, hout⟩ :=
        ih (hs.name hlinks hentry hfound hnode) hlen hrest
      refine ⟨c :: init, last, found, n, rfl, hlast, ?_, hout⟩
      unfold dirWalk
      simp only [hfind]
      rw [if_pos hnode]
      exact hwalk
    -- whatever else is found has to be the file
    have hend : cs = [] ∧ out = s' := by
      apply search_ends hrest
      by_cases hwhole : s' = s ++ slash :: entry
      · unfold HostFs.stat
        rw [hwhole, hs.lookup_name hlinks hentry, if_pos hfound]
        exact fun hnode => hnext ⟨hwhole, hnode⟩
      · have hfull : s'.length = vfsMaxPath - 1 := by
          rw [hs', clip, List.length_take, Nat.min_eq_left]
          by_contra hshort
          exact hwhole (hs'.trans (List.take_of_length_le (by omega)))
        obtain ⟨content, hfile⟩ := hfile
        rw [← search_full hrest hfull, hfile]
        nofun
    obtain ⟨rfl, rfl⟩ := hend
    have hnodir : ¬ t.LeadsTo out dir := by
      intro hleads
      obtain ⟨content, hfile⟩ := hfile
      rw [hstat hleads] at hfile
      cases hfile
    have hcuts : clip (s ++ slash :: entry) = s ∨ clip (s ++ slash :: entry) = s ++ [slash] ∨
        ∃ k, clip (s ++ slash :: entry) = s ++ slash :: entry.take (k + 1) := clip_entry hfits
    rcases hcuts with hcut | hcut | ⟨k, hcut⟩
    · exact absurd (hs'.trans hcut ▸ hs) hnodir
    · exact absurd (hs'.trans hcut ▸ hs.trailing) hnodir
    rw [hs', hcut] at hfile ⊢
    have hpart : IsComponent isSlash (entry.take (k + 1)) := by
      constructor
      · simp [hentry.1]
      · exact fun x hx => hentry.2 x (List.mem_of_mem_take hx)
    obtain ⟨hdot, hdotdot, hout⟩ := stat_name hlinks hs hpart hfile
    refine ⟨[], c, dir, entry.take (k + 1), rfl, ?_, rfl, hout⟩
    intro hc
    rw [(sameIcase_dot_iff hsame).2.mpr hc] at hdot hdotdot
    cases k with
    | zero => exact hdot rfl
    | succ k => exact hdotdot (List.take_of_length_le (by simp [dotdotName]))

/-- A DLL found in one directory is a file that the components lead to. -/
theorem dllIn_some {p base : List UInt8} {name : Name} (h : dllIn t base name p = some out)
    (hbase : base.length < vfsMaxPath) :
    (components isSlash (relPath p name)).foldlM (findEntryIcase t) base = some out ∧
      ∃ content, t.stat out = some (.file content) := by
  unfold dllIn at h
  split at h
  · cases h
  · next found hfound =>
    unfold resolvePathIcase at hfound
    have hclip : clip base = base := List.take_of_length_le (by omega)
    rw [hclip] at hfound
    obtain ⟨cur, hcur, rfl⟩ := Option.map_eq_some_iff.mp hfound
    have hlen := search_length hcur (by omega)
    rw [clip, List.take_of_length_le hlen] at h
    split at h
    · next content hfile =>
      cases Option.some.inj h
      exact ⟨hcur, content, hfile⟩
    · cases h

end Search

/-- The first result of a search is that of the first place with a result. -/
theorem findSome?_iff {α β : Type} {f : α → Option β} {xs : List α} {b : β} :
    xs.findSome? f = some b ↔ ∃ a, (xs.find? fun x => (f x).isSome) = some a ∧ f a = some b := by
  induction xs with
  | nil => simp
  | cons x xs ih =>
    cases hx : f x with
    | none => simp [hx, ih]
    | some y => simp [hx]

section Jail

variable {vfs : VfsJail} {name : Name}

/-- A DLL found in one directory of the C: drive is inside it exactly if its path leads back. -/
theorem dllIn_inside_iff {p : List UInt8} (hhost : (vfs.drives 2).hostPath = pathText root)
    (hroot : t.RealDir root) (hlen : (pathText root).length < vfsMaxPath) (hlinks : t.NoLinks)
    (h : dllIn t (vfs.drives 2).hostPath name p = some path) :
    LeadsInside t root path ↔ LeadsBack t root (components isSlash (relPath p name)) := by
  rw [hhost] at h
  obtain ⟨hsearch, hfile⟩ := dllIn_some h hlen
  obtain ⟨init, c, dir, n, hcs, hc, hwalk, hlook, hnode⟩ :=
    search_finds hlinks hroot.leadsTo (by omega) hsearch hfile
  rw [hcs, ← inside_iff_leadsBack hroot hwalk hc hnode]
  unfold LeadsInside
  rw [hlook]
  constructor
  · rintro ⟨real, hreal, hprefix⟩
    exact Lookup.found.inj hreal ▸ hprefix
  · exact fun hprefix => ⟨_, rfl, hprefix⟩

/-- What `vfs_find_dll` finds is below the root of the C: drive exactly if the name, read from
the first directory in which it leads to a file, stays below the root or comes back to it. -/
theorem vfsFindDll_inside_iff (hinit : vfs.initialized = true)
    (hmapped : (vfs.drives 2).mapped = true) (hhost : (vfs.drives 2).hostPath = pathText root)
    (hroot : t.RealDir root) (hlen : (pathText root).length < vfsMaxPath) (hlinks : t.NoLinks) :
    (∀ path, vfsFindDll vfs t name = some path → LeadsInside t root path) ↔
      ∀ p, (searchPaths.find? fun p => (dllIn t (vfs.drives 2).hostPath name p).isSome) = some p →
        LeadsBack t root (components isSlash (relPath p name)) := by
  have hfind : vfsFindDll vfs t name =
      searchPaths.findSome? (dllIn t (vfs.drives 2).hostPath name) := by
    unfold vfsFindDll
    simp [hinit, hmapped]
  rw [hfind]
  constructor
  · intro h p hp
    have hsome := List.find?_some (p := fun p => (dllIn t _ name p).isSome) hp
    obtain ⟨path, hpath⟩ := Option.isSome_iff_exists.mp hsome
    rw [← dllIn_inside_iff hhost hroot hlen hlinks hpath]
    exact h path (findSome?_iff.mpr ⟨p, hp, hpath⟩)
  · intro h path hpath
    obtain ⟨p, hp, hdll⟩ := findSome?_iff.mp hpath
    rw [dllIn_inside_iff hhost hroot hlen hlinks hdll]
    exact h p hp

end Jail

section Example

/-- A host with the files /c/system32/a and /b. -/
def smallNode (path : List Name) : Option Node :=
  if path = [ascii "c"] then some .dir
  else if path = [ascii "c", ascii "system32"] then some .dir
  else if path = [ascii "c", ascii "system32", ascii "a"] then some (.file [])
  else if path = [ascii "b"] then some (.file [])
  else none

/-- What its directories list. -/
def smallEntries (dir : List Name) : List Name :=
  dotName :: dotdotName ::
    if dir = [] then [ascii "c", ascii "b"]
    else if dir = [ascii "c"] then [ascii "system32"]
    else if dir = [ascii "c", ascii "system32"] then [ascii "a"]
    else []

/-- A place in it is an entry of its parent. -/
theorem smallNode_iff (dir : List Name) (n : Name) :
    smallNode (dir ++ [n]) ≠ none ↔ n ∈ (smallEntries dir).drop 2 := by
  unfold smallNode smallEntries
  rcases dir with _ | ⟨c, _ | ⟨d, _ | ⟨e, below⟩⟩⟩ <;> grind

/-- The host as a tree. -/
def smallTree : HostTree where
  node := smallNode
  cwd := []
  openFds := []
  refuses := fun _ _ => none
  entries := smallEntries
  entries_iff := by
    intro dir n
    have hentry : n ∈ smallEntries dir ↔
        n = dotName ∨ n = dotdotName ∨ n ∈ (smallEntries dir).drop 2 := by
      simp [smallEntries]
    have hname : n ∈ (smallEntries dir).drop 2 →
        IsComponent isSlash n ∧ n ≠ dotName ∧ n ≠ dotdotName := by
      have hall : ∀ m ∈ [ascii "c", ascii "b", ascii "system32", ascii "a"],
          IsComponent isSlash m ∧ m ≠ dotName ∧ m ≠ dotdotName := by
        decide
      intro hn
      apply hall
      unfold smallEntries at hn
      grind
    rw [hentry, smallNode_iff]
    tauto

theorem smallTree_noLinks : smallTree.NoLinks := by
  intro path target
  unfold smallTree smallNode
  grind

theorem smallTree_c : smallTree.RealDir [ascii "c"] := by
  constructor
  · intro n hn
    rw [List.mem_singleton.mp hn]
    decide
  · decide
  · intro part hne hpart
    rcases List.prefix_cons_iff.mp hpart with rfl | ⟨rest, rfl, hrest⟩
    · exact absurd rfl hne
    · rw [List.prefix_nil.mp hrest]
      rfl

/-- A jail with C: at /c. -/
def jailAtC : VfsJail := vfsInit.mapDrive 2 [ascii "c"] (isComponent_of_mem_singleton (by decide))

/-- The name ../../b finds a file outside. -/
theorem vfsFindDll_leaves_drive :
    ¬ ∀ path, vfsFindDll jailAtC smallTree (ascii "../../b") = some path →
      LeadsInside smallTree [ascii "c"] path := by
  intro h
  have hfound : vfsFindDll jailAtC smallTree (ascii "../../b") =
      some (ascii "/c/system32/../../b") := by decide +kernel
  obtain ⟨real, hreal, hprefix⟩ := h _ hfound
  have hlook : smallTree.lookup true (ascii "/c/system32/../../b") = .found [ascii "b"] := by
    decide +kernel
  rw [hlook] at hreal
  rw [← Lookup.found.inj hreal] at hprefix
  exact absurd hprefix (by decide)

/-- The name A finds a file below the root. -/
theorem vfsFindDll_inside_a :
    (∃ path, vfsFindDll jailAtC smallTree (ascii "A") = some path) ∧
      ∀ path, vfsFindDll jailAtC smallTree (ascii "A") = some path →
        LeadsInside smallTree [ascii "c"] path := by
  constructor
  · exact ⟨ascii "/c/system32/a", by decide +kernel⟩
  · apply (vfsFindDll_inside_iff rfl rfl rfl smallTree_c (by decide) smallTree_noLinks).mpr
    intro p hp rest hrest
    have hp' : p = ascii "system32" := by
      have hfirst : (searchPaths.find? fun p =>
          (dllIn smallTree (jailAtC.drives 2).hostPath (ascii "A") p).isSome) =
            some (ascii "system32") := by decide +kernel
      rw [hfirst] at hp
      exact (Option.some.inj hp).symm
    subst hp'
    have hstays : afterClimb 0 (components isSlash (relPath (ascii "system32") (ascii "A"))) =
        none := by decide +kernel
    rw [hstays] at hrest
    cases hrest

end Example

end Wbox.Nt
