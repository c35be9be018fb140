import Wbox.Host.Descriptors
import Wbox.Nt.Files
import Wbox.Vm.GuestBuffer

/-!
# Reading and writing files

`NtReadFile` and `NtWriteFile` of `src/nt/sys_file.c:48–114` and `162–241`, and `NtOpenFile` of
`434–526`. Where a file is read and written is kept by the host, with its descriptor, and by the
entry of the handle: `NtReadFile` moves both, `NtWriteFile` leaves the entry alone.
-/

namespace Wbox.Nt

open Wbox.Lib Wbox.Host Wbox.Thread Wbox.Vm

/-- `STATUS_END_OF_FILE`. -/
def statusEndOfFile : UInt32 := 0xC0000011

section Opening

/-- The arguments of `NtOpenFile` that it uses. -/
structure OpenFileArgs where
  fileHandlePtr : UInt32
  desiredAccess : UInt32
  objAttrPtr : UInt32
  ioStatusPtr : UInt32
  openOptions : UInt32
  deriving DecidableEq, Repr

/-- The same call as one of `NtCreateFile`: the file must exist. -/
def OpenFileArgs.create (a : OpenFileArgs) : CreateFileArgs where
  fileHandlePtr := a.fileHandlePtr
  desiredAccess := a.desiredAccess
  objAttrPtr := a.objAttrPtr
  ioStatusPtr := a.ioStatusPtr
  createDisp := 1
  createOptions := a.openOptions

/-- `sys_NtOpenFile`, `sys_file.c:434–526`. -/
def sysNtOpenFile (c : FileContext) (a : OpenFileArgs) : FileContext × UInt32 :=
  match createPath c a.objAttrPtr with
  | .error status => (c, status)
  | .ok hostPath =>
      match c.fs.openFile hostPath (accessFlags {} a.desiredAccess a.openOptions) with
      | .error err => (c, errnoToNtstatus err true)
      | .ok (fs, fd) =>
          if vfsPathIsSafe c.jail fs hostPath then finishCreate { c with fs := fs } a.create fd 1
          else ({ c with fs := fs.close fd }, statusAccessDenied)

end Opening

section Transfers

/-- The arguments of `NtReadFile` that it uses. -/
structure ReadFileArgs where
  ioStatusPtr : UInt32
  bufferPtr : UInt32
  length : UInt32
  byteOffsetPtr : UInt32
  deriving DecidableEq, Repr

/-- The arguments of `NtWriteFile` that it uses. -/
structure WriteFileArgs where
  ioStatusPtr : UInt32
  bufferPtr : UInt32
  length : UInt32
  deriving DecidableEq, Repr

/-- What the calls see: the handle table, the offset of `std_in_entry` (of the three static entries
the only one that a call changes), the guest and the host. -/
structure IoState (σ : Type) where
  handles : HandleTable
  stdInOffset : UInt64
  guest : GuestMem
  host : σ

variable {σ : Type}

/-- The entry at an address. -/
def IoState.entry (s : IoState σ) : EntryRef → HandleEntry
  | .stdIn => ⟨.consoleIn, 0, 0, s.stdInOffset, none⟩
  | .stdOut => ⟨.consoleOut, 1, 0, 0, none⟩
  | .stdErr => ⟨.consoleErr, 2, 0, 0, none⟩
  | .entry i => s.handles.entries i

/-- `he->file_offset = offset` for an entry that is read from. -/
def IoState.setOffset (s : IoState σ) (he : EntryRef) (offset : UInt64) : IoState σ :=
  match he with
  | .stdIn => { s with stdInOffset := offset }
  | .entry i =>
      { s with
        handles :=
          { s.handles with
            entries := Function.update s.handles.entries i
              { s.handles.entries i with fileOffset := offset } } }
  | .stdOut => s
  | .stdErr => s

/-- The `IO_STATUS_BLOCK`, if there is one. -/
def writeIoStatus (m : GuestMem) (ioStatusPtr status information : UInt32) : GuestMem :=
  if ioStatusPtr = 0 then m
  else writememll (writememll m ioStatusPtr status) (ioStatusPtr + 4) information

/-- The bytes of a guest buffer, `sys_file.c:92–94`. -/
def bufferBytes (m : GuestMem) (bufferPtr length : UInt32) : List UInt8 :=
  (List.range length.toNat).map fun i => readmembl m (bufferPtr + UInt32.ofNat i)

/-- Bytes are copied to a guest buffer, `sys_file.c:224–226`. -/
def copyToGuest (m : GuestMem) (bufferPtr : UInt32) (buf : List UInt8) : GuestMem :=
  (buf.zipIdx 0).foldl (fun m b => Function.update m (bufferPtr + UInt32.ofNat b.2) b.1) m

/-- `sys_NtWriteFile`, `sys_file.c:48–114`. -/
def sysNtWriteFile (io : HostIo σ) (s : IoState σ) (fileHandle : UInt32) (a : WriteFileArgs) :
    IoState σ × UInt32 :=
  match handlesResolve s.handles fileHandle with
  | none => (s, statusInvalidHandle)
  | some he =>
      let type := (s.entry he).type
      if type ≠ .file ∧ type ≠ .consoleOut ∧ type ≠ .consoleErr then (s, statusInvalidHandle)
      else if a.length = 0 then
        ({ s with guest := writeIoStatus s.guest a.ioStatusPtr statusSuccess 0 }, statusSuccess)
      else
        match io.malloc a.length s.host with
        | (host, false) => ({ s with host }, statusNoMemory)
        | (host, true) =>
            let buf := bufferBytes s.guest a.bufferPtr a.length
            match io.write (s.entry he).hostFd buf host with
            | (host, none) => ({ s with host }, statusIoDeviceError)
            | (host, some written) =>
                ({ s with
                    host
                    guest := writeIoStatus s.guest a.ioStatusPtr statusSuccess
                      (UInt32.ofNat written) }, statusSuccess)

/-- The offset in the guest's memory, `sys_file.c:194–196`; as an `int64_t` it is not negative if
it is less than 2^63. -/
def byteOffset (m : GuestMem) (byteOffsetPtr : UInt32) : UInt64 :=
  (readmemll m byteOffsetPtr).toUInt64 ||| (readmemll m (byteOffsetPtr + 4)).toUInt64 <<< 32

/-- Whether the call names a position, `sys_file.c:193–199`. -/
def ReadFileArgs.Seeks (a : ReadFileArgs) (m : GuestMem) : Prop :=
  a.byteOffsetPtr ≠ 0 ∧ (byteOffset m a.byteOffsetPtr).toNat < 2 ^ 63

instance (a : ReadFileArgs) (m : GuestMem) : Decidable (a.Seeks m) :=
  inferInstanceAs (Decidable (_ ∧ _))

/-- The position is set, if one is given, `sys_file.c:192–205`; `false` is a seek that fails. -/
def seekFile (io : HostIo σ) (s : IoState σ) (he : EntryRef) (a : ReadFileArgs) :
    IoState σ × Bool :=
  if a.Seeks s.guest then
    let offset := byteOffset s.guest a.byteOffsetPtr
    match io.lseek (s.entry he).hostFd offset s.host with
    | (host, false) => ({ s with host }, false)
    | (host, true) => ({ s with host }.setOffset he offset, true)
  else (s, true)

/-- The bytes are read and copied, `sys_file.c:207–240`. -/
def readToGuest (io : HostIo σ) (s : IoState σ) (he : EntryRef) (a : ReadFileArgs) :
    IoState σ × UInt32 :=
  match io.malloc a.length s.host with
  | (host, false) => ({ s with host }, statusNoMemory)
  | (host, true) =>
      match io.read (s.entry he).hostFd a.length host with
      | (host, none) => ({ s with host }, statusIoDeviceError)
      | (host, some buf) =>
          let s := { s with host, guest := copyToGuest s.guest a.bufferPtr buf }
          let s := s.setOffset he ((s.entry he).fileOffset + UInt64.ofNat buf.length)
          let status := if buf.length = 0 then statusEndOfFile else statusSuccess
          ({ s with
              guest := writeIoStatus s.guest a.ioStatusPtr status (UInt32.ofNat buf.length) },
            status)

/-- `sys_NtReadFile`, `sys_file.c:162–241`. -/
def sysNtReadFile (io : HostIo σ) (s : IoState σ) (fileHandle : UInt32) (a : ReadFileArgs) :
    IoState σ × UInt32 :=
  match handlesResolve s.handles fileHandle with
  | none => (s, statusInvalidHandle)
  | some he =>
      let type := (s.entry he).type
      if type ≠ .file ∧ type ≠ .consoleIn then (s, statusInvalidHandle)
      else if a.length = 0 then
        ({ s with guest := writeIoStatus s.guest a.ioStatusPtr statusSuccess 0 }, statusSuccess)
      else
        match seekFile io s he a with
        | (s, false) => (s, statusIoDeviceError)
        | (s, true) => readToGuest io s he a

/-- A call on a handle. -/
inductive IoCall where
  | read (a : ReadFileArgs)
  | write (a : WriteFileArgs)
  deriving DecidableEq, Repr

/-- What a call leaves, and its status. -/
def ioCall (io : HostIo σ) (s : IoState σ) (fileHandle : UInt32) : IoCall → IoState σ × UInt32
  | .read a => sysNtReadFile io s fileHandle a
  | .write a => sysNtWriteFile io s fileHandle a

end Transfers

end Wbox.Nt
