import Wbox.Host.Fs

/-!
# The VFS jail

`src/nt/vfs_jail.c`: Windows paths to host paths below the root of a mapped drive. A Windows
path is its UTF-16 units; the part of `path_utf8` that is in use, `path_utf8[0..j)`, is `buf`.
-/

namespace Wbox.Nt

open Wbox.Lib Wbox.Host

/-- `VFS_MAX_PATH`. -/
def vfsMaxPath : Nat := 4096

/-- `vfs_error_t`, `vfs_jail.h:83–92`. -/
inductive VfsError where
  | invalidPath | pathEscape | unmappedDrive | pathTooLong | devicePath | uncPath
  deriving DecidableEq, Repr

/-- `vfs_drive_t`, `vfs_jail.h:20–24`. A mapped drive has the text of a real path. -/
structure VfsDrive where
  hostPath : List UInt8
  hostPathLen : Nat
  mapped : Bool
  len_eq : hostPathLen = hostPath.length
  resolved : mapped = true →
    ∃ root : List Name, (∀ n ∈ root, IsComponent isSlash n) ∧ hostPath = pathText root

/-- `vfs_jail_t`, `vfs_jail.h:27–30`. -/
structure VfsJail where
  drives : Fin 26 → VfsDrive
  initialized : Bool

/-- `drive_to_index`, `vfs_jail.c:24–33`. -/
def driveToIndex (drive : UInt8) : Option (Fin 26) :=
  if h : 0x41 ≤ drive ∧ drive ≤ 0x5A then
    some ⟨drive.toNat - 0x41, by
      have hle := UInt8.le_iff_toNat_le.mp h.2
      simp only [UInt8.reduceToNat] at hle
      omega⟩
  else if h : 0x61 ≤ drive ∧ drive ≤ 0x7A then
    some ⟨drive.toNat - 0x61, by
      have hle := UInt8.le_iff_toNat_le.mp h.2
      simp only [UInt8.reduceToNat] at hle
      omega⟩
  else none

/-- A drive that is not mapped. -/
def VfsDrive.unmapped : VfsDrive where
  hostPath := []
  hostPathLen := 0
  mapped := false
  len_eq := rfl
  resolved := nofun

/-- `vfs_init`, `vfs_jail.c:44–49`. -/
def vfsInit : VfsJail where
  drives := fun _ => .unmapped
  initialized := true

/-- The entry `vfs_map_drive` makes for a directory with a real path, `vfs_jail.c:84–99`. -/
def VfsDrive.ofRoot (root : List Name) (h : ∀ n ∈ root, IsComponent isSlash n) : VfsDrive where
  hostPath := pathText root
  hostPathLen := (pathText root).length
  mapped := true
  len_eq := rfl
  resolved := fun _ => ⟨root, h, rfl⟩

/-- `vfs_map_drive`, `vfs_jail.c:51–104`, for a directory that exists and whose path fits. -/
def VfsJail.mapDrive (vfs : VfsJail) (index : Fin 26) (root : List Name)
    (h : ∀ n ∈ root, IsComponent isSlash n) : VfsJail where
  drives := Function.update vfs.drives index (VfsDrive.ofRoot root h)
  initialized := true

private theorem driveC_lt : 2 < 26 := by decide

/-- The drive C:. -/
def driveC : Fin 26 := ⟨2, driveC_lt⟩

/-- The units the translation compares with. -/
def unitBackslash : UInt16 := 0x5C
def unitSlash : UInt16 := 0x2F
def unitQuestion : UInt16 := 0x3F
def unitColon : UInt16 := 0x3A
def unitDot : UInt16 := 0x2E

/-- `win_path[i]`; every access of the source is below the length. -/
def unitAt (winPath : List UInt16) (i : Nat) : UInt16 := winPath.getD i 0

/-- A separator of Windows paths. -/
def isSep (wc : UInt16) : Bool := wc == unitBackslash || wc == unitSlash

/-- Skip the prefix `\??\`, `vfs_jail.c:209–213`. -/
def prefixLen (winPath : List UInt16) : Nat :=
  if 4 ≤ winPath.length ∧ unitAt winPath 0 = unitBackslash ∧ unitAt winPath 1 = unitQuestion ∧
      unitAt winPath 2 = unitQuestion ∧ unitAt winPath 3 = unitBackslash then 4 else 0

/-- The letter in either case. -/
def isLetter (wc upper : UInt16) : Bool := wc == upper || wc == upper + 0x20

/-- `Device\` at a position, `vfs_jail.c:221–228`. -/
def isDeviceAt (winPath : List UInt16) (start : Nat) : Bool :=
  decide (7 ≤ winPath.length - start) &&
    isLetter (unitAt winPath start) 0x44 && isLetter (unitAt winPath (start + 1)) 0x45 &&
    isLetter (unitAt winPath (start + 2)) 0x56 && isLetter (unitAt winPath (start + 3)) 0x49 &&
    isLetter (unitAt winPath (start + 4)) 0x43 && isLetter (unitAt winPath (start + 5)) 0x45 &&
    unitAt winPath (start + 6) == unitBackslash

/-- The test for device paths, `vfs_jail.c:216–232`. -/
def isDevicePath (winPath : List UInt16) (i : Nat) : Bool :=
  let skip := if unitAt winPath i = unitBackslash then 1 else 0
  decide (i + 7 ≤ winPath.length) && (unitAt winPath i == unitBackslash || i == 0) &&
    decide (skip + i < winPath.length) && isDeviceAt winPath (i + skip)

/-- The test for UNC paths, `vfs_jail.c:235–237`. -/
def isUncPath (winPath : List UInt16) : Bool :=
  decide (2 ≤ winPath.length) && unitAt winPath 0 == unitBackslash &&
    unitAt winPath 1 == unitBackslash

/-- Whether a drive letter and a colon stand at a position, `vfs_jail.c:240–243`. -/
def hasDriveAt (winPath : List UInt16) (i : Nat) : Bool :=
  let wc := unitAt winPath i
  decide (i + 1 < winPath.length) &&
    (decide (0x41 ≤ wc ∧ wc ≤ 0x5A) || decide (0x61 ≤ wc ∧ wc ≤ 0x7A)) &&
    unitAt winPath (i + 1) == unitColon

/-- The drive letter, in upper case, and where the rest begins, `vfs_jail.c:239–249`. -/
def driveLetter (winPath : List UInt16) (i : Nat) : UInt8 × Nat :=
  if hasDriveAt winPath i then
    let letter := (unitAt winPath i).toUInt8
    (if 0x61 ≤ letter then letter - 0x61 + 0x41 else letter, i + 2)
  else (0x43, i)

/-- The bytes a unit becomes, `vfs_jail.c:320–334`. -/
def utf8 (wc : UInt16) : List UInt8 :=
  if wc ≤ 0x7F then [wc.toUInt8]
  else if wc ≤ 0x7FF then
    [(0xC0 : UInt8) ||| (wc >>> 6).toUInt8, (0x80 : UInt8) ||| (wc &&& 0x3F).toUInt8]
  else
    [(0xE0 : UInt8) ||| (wc >>> 12).toUInt8, (0x80 : UInt8) ||| ((wc >>> 6) &&& 0x3F).toUInt8,
      (0x80 : UInt8) ||| (wc &&& 0x3F).toUInt8]

/-- The variables of the conversion loop, `vfs_jail.c:260–262`. -/
structure TranslateState where
  buf : List UInt8
  componentStart : Nat
  depth : Int32
  lastWasSep : Bool
  deriving DecidableEq, Repr

/-- The loop's variables before the first unit. -/
def TranslateState.start : TranslateState where
  buf := []
  componentStart := 0
  depth := 0
  lastWasSep := true

/-- `j--; while (j > 0 && path_utf8[j - 1] != '/') j--`, if `j > 0`. -/
def removePrevious (buf : List UInt8) : List UInt8 := buf.dropLast.rdropWhile fun b => b != slash

/-- The component just finished, `vfs_jail.c:270–301`. -/
def TranslateState.closeComponent (s : TranslateState) : Except VfsError TranslateState :=
  let kept := s.buf.take s.componentStart
  if s.buf.drop s.componentStart = dotdotName then
    if s.depth - 1 < 0 then .error .pathEscape
    else .ok { s with depth := s.depth - 1, buf := removePrevious kept }
  else if s.buf.drop s.componentStart = dotName then .ok { s with buf := kept.dropLast }
  else .ok { s with depth := s.depth + 1, buf := s.buf ++ [slash] }

/-- A separator, `vfs_jail.c:268–306`. -/
def TranslateState.separator (s : TranslateState) : Except VfsError TranslateState :=
  if s.lastWasSep = false ∧ s.componentStart < s.buf.length then
    match s.closeComponent with
    | .error e => .error e
    | .ok s' => .ok { s' with lastWasSep := true, componentStart := s'.buf.length }
  else .ok { s with lastWasSep := true, componentStart := s.buf.length }

/-- The first unit behind a separator, `vfs_jail.c:309–312`. -/
def TranslateState.beginComponent (s : TranslateState) : TranslateState :=
  if s.lastWasSep then { s with componentStart := s.buf.length, lastWasSep := false } else s

/-- The unit ends the path, or its bytes do not fit, `vfs_jail.c:315–330`. -/
def TranslateState.stopsAt (s : TranslateState) (wc : UInt16) : Bool :=
  decide (wc = 0) || decide (0x7F < wc) && decide (vfsMaxPath ≤ s.buf.length + (utf8 wc).length)

/-- The conversion loop, `vfs_jail.c:264–335`. -/
def translateLoop (s : TranslateState) : List UInt16 → Except VfsError TranslateState
  | [] => .ok s
  | wc :: units =>
      if s.buf.length < vfsMaxPath - 1 then
        if isSep wc then
          match s.separator with
          | .error e => .error e
          | .ok s' => translateLoop s' units
        else
          let s := s.beginComponent
          if s.stopsAt wc then .ok s
          else translateLoop { s with buf := s.buf ++ utf8 wc } units
      else .ok s

/-- The units up to the NUL that ends the path, or to where the loop finds the buffer full. -/
def unitsRead (s : TranslateState) : List UInt16 → List UInt16
  | [] => []
  | wc :: units =>
      if s.buf.length < vfsMaxPath - 1 then
        if isSep wc then
          match s.separator with
          | .error _ => wc :: units
          | .ok s' => wc :: unitsRead s' units
        else
          let s := s.beginComponent
          if s.stopsAt wc then []
          else wc :: unitsRead { s with buf := s.buf ++ utf8 wc } units
      else []

/-- The final component, `vfs_jail.c:338–361`: an ordinary one stays as it is. -/
def TranslateState.lastComponent (s : TranslateState) : Except VfsError (List UInt8) :=
  if s.lastWasSep = false ∧ s.componentStart < s.buf.length then
    let kept := s.buf.take s.componentStart
    if s.buf.drop s.componentStart = dotdotName then
      if s.depth - 1 < 0 then .error .pathEscape else .ok (removePrevious kept)
    else if s.buf.drop s.componentStart = dotName then .ok kept.dropLast
    else .ok s.buf
  else .ok s.buf

/-- Remove a trailing slash, `vfs_jail.c:364–366`. -/
def trimSlash (buf : List UInt8) : List UInt8 :=
  if 1 < buf.length ∧ buf.getLast? = some slash then buf.dropLast else buf

/-- `snprintf(out_path, VFS_MAX_PATH, "%s/%s", …)`, `vfs_jail.c:371–377`. -/
def buildPath (hostPath pathUtf8 : List UInt8) : Except VfsError (List UInt8) :=
  if vfsMaxPath ≤ (hostPath ++ slash :: pathUtf8).length then .error .pathTooLong
  else .ok (hostPath ++ slash :: pathUtf8)

/-- The path below the drive root, `vfs_jail.c:259–368`. -/
def translateRest (units : List UInt16) : Except VfsError (List UInt8) := do
  let s ← translateLoop .start units
  let buf ← s.lastComponent
  return trimSlash buf

/-- The drive of a path and the units behind its prefix and drive letter, or why the path is
rejected before its components are read, `vfs_jail.c:198–257`. -/
def openDrive (vfs : VfsJail) (winPath : List UInt16) :
    Except VfsError (VfsDrive × List UInt16) :=
  if vfs.initialized = false ∨ winPath = [] then .error .invalidPath
  else if isDevicePath winPath (prefixLen winPath) then .error .devicePath
  else if isUncPath winPath then .error .uncPath
  else
    let letter := driveLetter winPath (prefixLen winPath)
    match driveToIndex letter.1 with
    | none => .error .unmappedDrive
    | some index =>
        if (vfs.drives index).mapped then .ok (vfs.drives index, winPath.drop letter.2)
        else .error .unmappedDrive

/-- `vfs_translate_path_ex`, `vfs_jail.c:195–378`. -/
def vfsTranslatePathEx (vfs : VfsJail) (winPath : List UInt16) : Except VfsError (List UInt8) := do
  let (drive, units) ← openDrive vfs winPath
  let pathUtf8 ← translateRest units
  buildPath drive.hostPath pathUtf8

/-- `vfs_translate_path`, `vfs_jail.c:380–387`. -/
def vfsTranslatePath (vfs : VfsJail) (winPath : List UInt16) : Option (List UInt8) :=
  (vfsTranslatePathEx vfs winPath).toOption

/-- `check_path_in_drive`, `vfs_jail.c:389–394`. -/
def checkPathInDrive (drive : VfsDrive) (resolved : List UInt8) : Bool :=
  decide (resolved.take drive.hostPathLen = drive.hostPath) &&
    (decide (resolved[drive.hostPathLen]? = some slash) ||
      decide (resolved.length = drive.hostPathLen))

/-- Some mapped drive contains the path, `vfs_jail.c:455–462`. -/
def VfsJail.contains (vfs : VfsJail) (resolved : List UInt8) : Bool :=
  (List.finRange 26).any fun i =>
    (vfs.drives i).mapped && checkPathInDrive (vfs.drives i) resolved

/-- `vfs_path_is_safe`, `vfs_jail.c:432–468`. -/
def vfsPathIsSafe (vfs : VfsJail) (fs : HostFs) (hostPath : List UInt8) : Bool :=
  if vfs.initialized = false then false
  else
    match fs.realpath hostPath with
    | some resolved => vfs.contains resolved
    | none =>
        match fs.realpath (dirname hostPath) with
        | some resolved => vfs.contains resolved
        | none => false

end Wbox.Nt
