import Wbox.Nt.Files
import Wbox.Nt.VfsResolution

/-!
# What creating files does to the host

`NtCreateFile` opens with O_CREAT and O_TRUNC before `vfs_path_is_safe` and `handles_add` can
fail (`src/nt/sys_file.c:380–402`). Whatever the symbolic links are, the file that was created
or truncated is the one the path leads to afterwards, so the safety test is about it.
-/

namespace Wbox.Nt

open Wbox.Lib Wbox.Host Wbox.Thread

variable {c : FileContext} {a : CreateFileArgs} {vfs : VfsJail} {fs fs' : HostFs}
  {hostPath : List UInt8} {path root : List Name}

/-- A path that passes the prefix test of a drive lies below its root. -/
theorem checkPathInDrive_prefix {drive : VfsDrive} (hroot : AllNames root)
    (hdrive : drive.hostPath = pathText root) (hpath : AllNames path)
    (h : checkPathInDrive drive (pathText path) = true) : root <+: path := by
  unfold checkPathInDrive at h
  rw [Bool.and_eq_true, decide_eq_true_eq, drive.len_eq, hdrive, Bool.or_eq_true,
    decide_eq_true_eq, decide_eq_true_eq] at h
  obtain ⟨htake, hend⟩ := h
  have hparse := components_pathText hpath
  have hsplit := List.take_append_drop (pathText root).length (pathText path)
  rw [htake] at hsplit
  rcases hend with hslash | hlen
  · have hdrop : (pathText path).drop (pathText root).length =
        slash :: (pathText path).drop ((pathText root).length + 1) := by
      obtain ⟨hlt, hget⟩ := List.getElem?_eq_some_iff.mp hslash
      rw [List.drop_eq_getElem_cons hlt, hget]
    rw [hdrop] at hsplit
    rw [← hsplit, components_append_cons (by decide), components_pathText hroot] at hparse
    exact ⟨_, hparse⟩
  · have hnil : (pathText path).drop (pathText root).length = [] :=
      List.drop_eq_nil_of_le (Nat.le_of_eq hlen)
    rw [hnil, List.append_nil] at hsplit
    rw [← hsplit, components_pathText hroot] at hparse
    rw [hparse]

end Wbox.Nt
