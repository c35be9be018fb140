import Wbox.Nt.FileEffects

/-!
# Which paths a drive contains

`check_path_in_drive` (`src/nt/vfs_jail.c:389–394`) compares the texts of two resolved paths:
the drive's as a prefix, then one more byte. For a drive that `vfs_map_drive` (51–104) has mapped
this is the prefix order of their names, unless the drive is the root directory, whose text ends
with the slash that the look-ahead expects behind it.
-/

namespace Wbox.Nt

open Wbox.Lib Wbox.Host

variable {vfs vfs' : VfsJail} {fs : HostFs} {hcwd : AllNames fs.cwd} {letter : UInt8}
  {hostPath resolved : List UInt8} {root path rest : List Name} {drive : VfsDrive}

private theorem realpath_names (hcwd : AllNames fs.cwd) (h : fs.realpath hostPath = some resolved) :
    ∃ root, AllNames root ∧ fs.lookup true hostPath = .found root ∧ resolved = pathText root := by
  unfold HostFs.realpath at h
  split at h
  · next real hfound =>
    split at h
    · have hnames : (fs.lookup true hostPath).AllNames := by
        unfold HostFs.lookup startOf
        split
        · trivial
        · split
          · exact walk_allNames _ nofun (pathNames_allNames hostPath)
          · exact walk_allNames _ hcwd (pathNames_allNames hostPath)
      rw [hfound] at hnames
      exact ⟨real, hnames, hfound, (Option.some.inj h).symm⟩
    · cases h
  · cases h
  · cases h

/-- Only the root directory's text ends with a slash. -/
private theorem pathText_getLast (hroot : AllNames root) (hne : root ≠ []) :
    (pathText root).getLast? ≠ some slash := by
  obtain ⟨init, last, rfl⟩ := (List.eq_nil_or_concat' root).resolve_left hne
  have hlast : IsComponent isSlash last := hroot last (by simp)
  have htext : pathText (init ++ [last]) = (init.flatMap (slash :: ·) ++ [slash]) ++ last := by
    simp [pathText]
  intro hslash
  rw [htext, List.getLast?_append_of_ne_nil _ hlast.1] at hslash
  have hmem : slash ∈ last := List.mem_of_getLast? hslash
  exact absurd (hlast.2 slash hmem) (by decide)

/-- `vfs_map_drive` has no slash to remove from a resolved path. -/
theorem trimSlash_pathText (hroot : AllNames root) : trimSlash (pathText root) = pathText root := by
  unfold trimSlash
  by_cases hne : root = []
  · rw [hne]
    rfl
  · rw [if_neg]
    intro h
    exact pathText_getLast hroot hne h.2

/-- `vfs_map_drive`, `vfs_jail.c:51–104`, in a process whose working directory has a real path. -/
def vfsMapDrive (vfs : VfsJail) (fs : HostFs) (hcwd : AllNames fs.cwd) (driveLetter : UInt8)
    (hostPath : List UInt8) : Option VfsJail :=
  match driveToIndex driveLetter with
  | none => none
  | some index =>
      match h : fs.realpath hostPath with
      | none => none
      | some resolved =>
          if fs.stat resolved ≠ some .dir then none
          else if vfsMaxPath ≤ (trimSlash resolved).length then none
          else some {
            drives := Function.update vfs.drives index {
              hostPath := trimSlash resolved
              hostPathLen := (trimSlash resolved).length
              mapped := true
              len_eq := rfl
              resolved := by
                intro _
                obtain ⟨root, hroot, -, htext⟩ := realpath_names hcwd h
                exact ⟨root, hroot, by rw [htext, trimSlash_pathText hroot]⟩ }
            initialized := true }

/-- The test agrees with the tree: the drive contains what is its directory or below it. -/
def MembershipExact (drive : VfsDrive) (root path : List Name) : Prop :=
  checkPathInDrive drive (pathText path) = true ↔ root <+: path

/-- A mapped drive has the text of the directory that its path leads to. -/
theorem vfsMapDrive_root (h : vfsMapDrive vfs fs hcwd letter hostPath = some vfs') :
    ∃ i root, driveToIndex letter = some i ∧ AllNames root ∧
      fs.lookup true hostPath = .found root ∧ (vfs'.drives i).mapped = true ∧
      (vfs'.drives i).hostPath = pathText root := by
  unfold vfsMapDrive at h
  split at h
  · cases h
  next i hi =>
  split at h
  · cases h
  next resolved hreal =>
  split at h
  · cases h
  split at h
  · cases h
  have hvfs := Option.some.inj h
  obtain ⟨root, hroot, hfound, htext⟩ := realpath_names hcwd hreal
  refine ⟨i, root, hi, hroot, hfound, ?_, ?_⟩
  · rw [← hvfs]
    simp
  · have hpath : (vfs'.drives i).hostPath = trimSlash resolved := by
      rw [← hvfs]
      simp
    rw [hpath, htext, trimSlash_pathText hroot]

/-- Below a directory other than the root the text goes on with a slash. -/
theorem checkPathInDrive_below (hdrive : drive.hostPath = pathText root) (hne : root ≠ []) :
    checkPathInDrive drive (pathText (root ++ rest)) = true := by
  have htext : pathText (root ++ rest) = pathText root ++ rest.flatMap (slash :: ·) := by
    simp [pathText, hne]
  unfold checkPathInDrive
  rw [drive.len_eq, hdrive, htext, List.take_left]
  cases rest with
  | nil => simp
  | cons n ns => simp

/-- Behind the slash of the root directory stands a name, not another slash. -/
theorem checkPathInDrive_root (hdrive : drive.hostPath = pathText []) (hpath : AllNames path) :
    checkPathInDrive drive (pathText path) = true ↔ path = [] := by
  unfold checkPathInDrive
  rw [drive.len_eq, hdrive]
  constructor
  · intro h
    cases path with
    | nil => rfl
    | cons n ns =>
      obtain ⟨hnil, hslash⟩ := hpath n List.mem_cons_self
      cases n with
      | nil => exact absurd rfl hnil
      | cons b bs =>
        have hb := hslash b List.mem_cons_self
        simp [pathText, isSlash] at h hb
        exact absurd h hb
  · intro h
    rw [h]
    decide

/-- The test is exact for every drive but the root directory, and there for the root only. -/
theorem membershipExact_iff (hdrive : drive.hostPath = pathText root) (hroot : AllNames root)
    (hpath : AllNames path) : MembershipExact drive root path ↔ root ≠ [] ∨ path = [] := by
  unfold MembershipExact
  by_cases hne : root = []
  · rw [hne] at hdrive ⊢
    rw [checkPathInDrive_root hdrive hpath]
    simp
  · constructor
    · intro _
      exact .inl hne
    · intro _
      constructor
      · exact checkPathInDrive_prefix hroot hdrive hpath
      · intro hprefix
        obtain ⟨rest, rfl⟩ := hprefix
        exact checkPathInDrive_below hdrive hne

/-- A drive that `vfs_map_drive` has mapped contains its directory and what is below it, and
nothing else, except that the root directory contains only itself. -/
theorem vfsMapDrive_membership (h : vfsMapDrive vfs fs hcwd letter hostPath = some vfs')
    (hpath : AllNames path) :
    ∃ i root, driveToIndex letter = some i ∧ fs.lookup true hostPath = .found root ∧
      (vfs'.drives i).hostPath = pathText root ∧
      (MembershipExact (vfs'.drives i) root path ↔ root ≠ [] ∨ path = []) := by
  obtain ⟨i, root, hi, hroot, hfound, -, htext⟩ := vfsMapDrive_root h
  exact ⟨i, root, hi, hfound, htext, membershipExact_iff htext hroot hpath⟩

/-- A host with the directory "/h" and nothing else. -/
def homeHost : HostFs where
  node := fun path => if path = [[0x68]] then some .dir else none
  cwd := []
  openFds := []
  refuses := fun _ _ => none

/-- The jail in which C: is mapped to a directory of that host. -/
def homeJail (hostPath : List UInt8) : VfsJail :=
  (vfsMapDrive vfsInit homeHost nofun 0x43 hostPath).getD vfsInit

theorem vfsMapDrive_membership_home :
    ∃ i root, driveToIndex 0x43 = some i ∧ homeHost.lookup true [slash, 0x68] = .found root ∧
      ((homeJail [slash, 0x68]).drives i).hostPath = pathText root ∧
      (MembershipExact ((homeJail [slash, 0x68]).drives i) root [[0x68], [0x61]] ↔
        root ≠ [] ∨ [[0x68], [0x61]] = ([] : List Name)) := by
  have hsome : (vfsMapDrive vfsInit homeHost nofun 0x43 [slash, 0x68]).isSome := by decide +kernel
  refine vfsMapDrive_membership (Option.eq_some_of_isSome hsome |>.trans ?_) ?_
  · rw [homeJail, Option.get_eq_getD]
  · intro n hn
    rcases List.mem_cons.mp hn with rfl | hn
    · decide
    · rw [List.mem_singleton.mp hn]
      decide

/-- With C: mapped to "/" the directory "/h" is below C:, and the test says that it is not. -/
theorem rootDrive_not_exact :
    vfsMapDrive vfsInit homeHost nofun 0x43 [slash] = some (homeJail [slash]) ∧
      ((homeJail [slash]).drives 2).hostPath = pathText [] ∧
      AllNames [[0x68]] ∧ ¬ MembershipExact ((homeJail [slash]).drives 2) [] [[0x68]] := by
  have hsome : (vfsMapDrive vfsInit homeHost nofun 0x43 [slash]).isSome := by decide +kernel
  have hpath : ((homeJail [slash]).drives 2).hostPath = pathText [] := by decide +kernel
  have hnames : AllNames [[0x68]] := by
    intro n hn
    rw [List.mem_singleton.mp hn]
    decide
  refine ⟨?_, hpath, hnames, ?_⟩
  · rw [homeJail, ← Option.get_eq_getD (h := hsome), Option.some_get]
  · rw [membershipExact_iff hpath nofun hnames]
    decide

end Wbox.Nt
