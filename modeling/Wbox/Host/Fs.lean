import Mathlib.Logic.Function.Basic
import Wbox.Lib.Path

/-!
# The host filesystem

The POSIX calls that `src/nt/vfs_jail.c` and `src/nt/sys_file.c` make: open, close, stat,
realpath and dirname over a tree of directories, regular files and symbolic links. Every
other reason for which a host may refuse an open is left open in the state.
-/

namespace Wbox.Host

open Wbox.Lib

/-- The byte '/'. -/
def slash : UInt8 := 0x2F

/-- A file name or a path as the host sees it. -/
abbrev Name := List UInt8

/-- The name ".". -/
def dotName : Name := [0x2E]

/-- The name "..". -/
def dotdotName : Name := [0x2E, 0x2E]

/-- A byte that separates names. -/
def isSlash (b : UInt8) : Bool := b == slash

/-- `PATH_MAX`. -/
def pathMax : Nat := 4096

/-- The number of symbolic links a lookup follows. -/
def maxSymlinks : Nat := 40

/-- The errors of the host that `errno_to_ntstatus` tells apart. -/
inductive Errno where
  | noent | exist | acces | perm | nomem | notdir | isdir
  | other (code : Nat)
  deriving DecidableEq, Repr

/-- The flags of `open`. -/
structure OpenFlags where
  read : Bool := true
  write : Bool := false
  creat : Bool := false
  excl : Bool := false
  trunc : Bool := false
  directory : Bool := false
  deriving DecidableEq, Repr

/-- What a name stands for. -/
inductive Node where
  | dir
  | file (content : List UInt8)
  | symlink (target : List UInt8)
  deriving DecidableEq, Repr

/-- The host: what each real path (its names, from the root) stands for, the working
directory, the descriptors in use, and the opens refused for reasons that are not modelled. -/
structure HostFs where
  node : List Name → Option Node
  cwd : List Name
  openFds : List Nat
  refuses : List UInt8 → OpenFlags → Option Errno

/-- Where a lookup ends. -/
inductive Lookup where
  | found (path : List Name)
  | missing (parent : List Name) (name : Name)
  | failed (error : Errno)
  deriving DecidableEq, Repr

/-- The names of a path; a trailing slash counts as a ".". -/
def pathNames (path : List UInt8) : List Name :=
  components isSlash path ++ if path.getLast? = some slash then [dotName] else []

/-- Where a path starts. -/
def startOf (path : List UInt8) (cwd : List Name) : List Name :=
  if path.head? = some slash then [] else cwd

/-- Look up names from a directory; `onLink` continues behind a symbolic link. -/
def walkNames (node : List Name → Option Node) (follow : Bool)
    (onLink : List Name → List Name → Lookup) : List Name → List Name → Lookup
  | cur, [] => .found cur
  | cur, name :: rest =>
      if name = dotName then walkNames node follow onLink cur rest
      else if name = dotdotName then walkNames node follow onLink cur.dropLast rest
      else match node (cur ++ [name]) with
        | none => if rest = [] then .missing cur name else .failed .noent
        | some .dir => walkNames node follow onLink (cur ++ [name]) rest
        | some (.file _) => if rest = [] then .found (cur ++ [name]) else .failed .notdir
        | some (.symlink target) =>
            if rest = [] ∧ follow = false then .found (cur ++ [name])
            else if target = [] then .failed .noent
            else onLink (startOf target cur) (pathNames target ++ rest)

/-- Look up names, following a limited number of symbolic links. -/
def walk (node : List Name → Option Node) (follow : Bool) : Nat → List Name → List Name → Lookup
  | 0 => walkNames node follow fun _ _ => .failed (.other 40)
  | links + 1 => walkNames node follow (walk node follow links)

/-- Look up a path; `follow` says whether a link in last place is followed. -/
def HostFs.lookup (fs : HostFs) (follow : Bool) (path : List UInt8) : Lookup :=
  if path = [] then .failed .noent
  else walk fs.node follow maxSymlinks (startOf path fs.cwd) (pathNames path)

/-- The text of a real path. -/
def pathText (path : List Name) : List UInt8 :=
  if path = [] then [slash] else path.flatMap (slash :: ·)

/-- `realpath`: the path without links, if it exists and fits in PATH_MAX. -/
def HostFs.realpath (fs : HostFs) (path : List UInt8) : Option (List UInt8) :=
  match fs.lookup true path with
  | .found real => if (pathText real).length < pathMax then some (pathText real) else none
  | .missing _ _ => none
  | .failed _ => none

/-- What is at a real path; the root is a directory. -/
def HostFs.nodeAt (fs : HostFs) (path : List Name) : Option Node :=
  if path = [] then some .dir else fs.node path

/-- `stat`: what a path leads to, if it exists. -/
def HostFs.stat (fs : HostFs) (path : List UInt8) : Option Node :=
  match fs.lookup true path with
  | .found real => fs.nodeAt real
  | .missing _ _ => none
  | .failed _ => none

/-- `dirname`. -/
def dirname (path : List UInt8) : List UInt8 :=
  let name := path.rdropWhile isSlash
  if name = [] then if path = [] then dotName else [slash]
  else
    let dir := name.rdropWhile fun b => !isSlash b
    if dir = [] then dotName
    else if dir.rdropWhile isSlash = [] then [slash] else dir.rdropWhile isSlash

/-- The lowest descriptor not in use. -/
def HostFs.lowestFd (fs : HostFs) : Nat :=
  ((List.range (fs.openFds.length + 1)).find? fun fd => decide (fd ∉ fs.openFds)).getD 0

/-- An empty regular file at a real path. -/
def HostFs.putEmpty (fs : HostFs) (path : List Name) : HostFs :=
  { fs with node := Function.update fs.node path (some (.file [])) }

/-- What `open` does to the tree. -/
def HostFs.openNode (fs : HostFs) (path : List UInt8) (flags : OpenFlags) : Except Errno HostFs :=
  match fs.lookup (!(flags.creat && flags.excl)) path with
  | .failed e => .error e
  | .missing parent name =>
      if flags.creat then .ok (fs.putEmpty (parent ++ [name])) else .error .noent
  | .found real =>
      if flags.creat && flags.excl then .error .exist
      else match fs.nodeAt real with
        | some .dir => if flags.creat || flags.write || flags.trunc then .error .isdir else .ok fs
        | some (.file _) =>
            if flags.directory then .error .notdir
            else if flags.trunc then .ok (fs.putEmpty real) else .ok fs
        | some (.symlink _) => .error (.other 40)
        | none => .error .noent

/-- `open`: a descriptor, or an error that leaves everything as it is. -/
def HostFs.openFile (fs : HostFs) (path : List UInt8) (flags : OpenFlags) :
    Except Errno (HostFs × Nat) :=
  match fs.refuses path flags with
  | some e => .error e
  | none =>
      match fs.openNode path flags with
      | .error e => .error e
      | .ok fs' => .ok ({ fs' with openFds := fs.lowestFd :: fs.openFds }, fs.lowestFd)

/-- `close`. -/
def HostFs.close (fs : HostFs) (fd : Nat) : HostFs := { fs with openFds := fs.openFds.erase fd }

end Wbox.Host
