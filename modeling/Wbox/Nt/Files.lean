import Wbox.Host.Opens
import Wbox.Nt.VfsJail
import Wbox.Nt.WaitSyscalls
import Wbox.Vm.Guest

/-!
# Creating files

`NtCreateFile` of `src/nt/sys_file.c:283–421`: the translated path is opened first; whether it
is safe and whether a handle is free is looked at afterwards.
-/

namespace Wbox.Nt

open Wbox.Lib Wbox.Host Wbox.Thread Wbox.Vm

/-- `STATUS_SUCCESS`. -/
def statusSuccess : UInt32 := 0x00000000
/-- `STATUS_NO_MEMORY`. -/
def statusNoMemory : UInt32 := 0xC0000017
/-- `STATUS_ACCESS_DENIED`. -/
def statusAccessDenied : UInt32 := 0xC0000022
/-- `STATUS_OBJECT_NAME_INVALID`. -/
def statusObjectNameInvalid : UInt32 := 0xC0000033
/-- `STATUS_OBJECT_NAME_NOT_FOUND`. -/
def statusObjectNameNotFound : UInt32 := 0xC0000034
/-- `STATUS_OBJECT_NAME_COLLISION`. -/
def statusObjectNameCollision : UInt32 := 0xC0000035
/-- `STATUS_OBJECT_PATH_INVALID`. -/
def statusObjectPathInvalid : UInt32 := 0xC0000039
/-- `STATUS_OBJECT_PATH_NOT_FOUND`. -/
def statusObjectPathNotFound : UInt32 := 0xC000003A
/-- `STATUS_IO_DEVICE_ERROR`. -/
def statusIoDeviceError : UInt32 := 0xC0000185

/-- `vm_context_t`, the parts the file calls use, with the host they run on. -/
structure FileContext where
  jail : VfsJail
  handles : HandleTable
  guest : GuestMem
  fs : HostFs

/-- The arguments of `NtCreateFile` that it uses. -/
structure CreateFileArgs where
  fileHandlePtr : UInt32
  desiredAccess : UInt32
  objAttrPtr : UInt32
  ioStatusPtr : UInt32
  createDisp : UInt32
  createOptions : UInt32
  deriving DecidableEq, Repr

/-- `vfs_read_unicode_string`, `vfs_jail.c:154–193`. -/
def vfsReadUnicodeString (m : GuestMem) (ptr : UInt32) : Option (List UInt16) :=
  let byteLength := readmemwl m ptr
  let bufferPtr := readmemll m (ptr + 4)
  if ptr = 0 ∨ byteLength = 0 ∨ bufferPtr = 0 then none
  else some ((List.range (byteLength / 2).toNat).map fun i =>
    readmemwl m (bufferPtr + UInt32.ofNat (i * 2)))

/-- The host path of a call, or the status with which it fails, `sys_file.c:297–321`. -/
def createPath (c : FileContext) (objAttrPtr : UInt32) : Except UInt32 (List UInt8) :=
  if c.jail.initialized = false then .error statusAccessDenied
  else
    let unicodeStrPtr := readmemll c.guest (objAttrPtr + 8)
    if unicodeStrPtr = 0 then .error statusObjectNameInvalid
    else
      match vfsReadUnicodeString c.guest unicodeStrPtr with
      | none => .error statusObjectNameInvalid
      | some winPath =>
          match vfsTranslatePath c.jail winPath with
          | none => .error statusObjectPathInvalid
          | some hostPath => .ok hostPath

/-- `GENERIC_READ | FILE_READ_DATA`. -/
def readAccess : UInt32 := 0x80000001
/-- `GENERIC_WRITE | FILE_WRITE_DATA | FILE_APPEND_DATA`. -/
def writeAccess : UInt32 := 0x40000006

/-- The access mode and O_DIRECTORY, `sys_file.c:358–374`. -/
def accessFlags (flags : OpenFlags) (desiredAccess createOptions : UInt32) : OpenFlags :=
  let wantRead := desiredAccess &&& readAccess != 0
  let wantWrite := desiredAccess &&& writeAccess != 0
  { flags with
    read := wantRead || !wantWrite
    write := wantWrite
    directory := createOptions &&& 1 != 0 }

/-- `errno_to_ntstatus`, `sys_file.c:243–265`. -/
def errnoToNtstatus (err : Errno) (mustExist : Bool) : UInt32 :=
  match err with
  | .noent => if mustExist then statusObjectNameNotFound else statusObjectPathNotFound
  | .exist => statusObjectNameCollision
  | .acces => statusAccessDenied
  | .perm => statusAccessDenied
  | .nomem => statusNoMemory
  | .notdir => statusObjectPathNotFound
  | .isdir => statusObjectTypeMismatch
  | .other _ => statusIoDeviceError

/-- Set the fields of the entry of a handle, `sys_file.c:404–408`. -/
def HandleTable.setAccess (ht : HandleTable) (handle access : UInt32) : HandleTable :=
  match handlesGet ht handle with
  | none => ht
  | some entry =>
      { ht with
        entries := Function.update ht.entries handle.toNat
          { entry with accessMask := access, fileOffset := 0 } }

/-- The values written to the guest, `sys_file.c:410–417`. -/
def writeCreateResult (m : GuestMem) (a : CreateFileArgs) (handle info : UInt32) : GuestMem :=
  let m := writememll m a.fileHandlePtr handle
  if a.ioStatusPtr = 0 then m
  else writememll (writememll m a.ioStatusPtr statusSuccess) (a.ioStatusPtr + 4) info

/-- The handle of an opened file that is safe, `sys_file.c:391–420`. -/
def finishCreate (c : FileContext) (a : CreateFileArgs) (fd : Nat) (info : UInt32) :
    FileContext × UInt32 :=
  let added := handlesAdd c.handles .file fd
  if added.2 = 0 then ({ c with fs := c.fs.close fd }, statusNoMemory)
  else
    ({ c with
        handles := added.1.setAccess added.2 a.desiredAccess
        guest := writeCreateResult c.guest a added.2 info }, statusSuccess)

end Wbox.Nt
