import Wbox.Lib.Trace
import Wbox.Nt.FileIo
import Wbox.Nt.HandleMap

/-!
# File positions

Runs of `NtReadFile` and `NtWriteFile` (`src/nt/sys_file.c:48–114`, `162–241`) on a handle of
`NtCreateFile` or `NtOpenFile`. `file_offset` follows the position of the descriptor through every
read and every seek, successful or not; a write moves the position and leaves `file_offset` behind.
-/

namespace Wbox.Nt

open Wbox.Lib Wbox.Host Wbox.Thread Wbox.Vm

variable {σ : Type} {io : HostIo σ} {s s' : IoState σ} {handle : UInt32} {fd : Int}

section Opening

/-- The table has just got this handle for a descriptor (`sys_file.c:396–409`, `502–515`). -/
def Issued (ht : HandleTable) (handle : UInt32) (fd : Int) : Prop :=
  ∃ before access, (handlesAdd before .file fd).2 = handle ∧ handle ≠ 0 ∧
    ht = (handlesAdd before .file fd).1.setAccess handle access

end Opening

section Guest

/-- The bytes that are copied, and no others, are in the buffer. -/
theorem copyToGuest_filled (m : GuestMem) (bufferPtr : UInt32) {buf : List UInt8}
    (hlen : buf.length ≤ 2 ^ 32) :
    Filled m bufferPtr (buf.getD · 0) buf.length (copyToGuest m bufferPtr buf) := by
  have hfill : ∀ (rest : List UInt8) (start : Nat) (m' : GuestMem),
      (∀ k, rest.getD k 0 = buf.getD (start + k) 0) → start + rest.length = buf.length →
      Filled m bufferPtr (buf.getD · 0) start m' →
      Filled m bufferPtr (buf.getD · 0) buf.length ((rest.zipIdx start).foldl
        (fun m b => Function.update m (bufferPtr + UInt32.ofNat b.2) b.1) m') := by
    intro rest
    induction rest with
    | nil =>
      intro start m' _ hend h
      rw [← hend]
      exact h
    | cons b rest ih =>
      intro start m' hget hend h
      rw [List.length_cons] at hend
      apply ih (start + 1)
      · intro k
        have hnext := hget (k + 1)
        rw [List.getD_cons_succ] at hnext
        rw [hnext, Nat.add_assoc, Nat.add_comm 1 k]
      · omega
      · have hb : b = buf.getD start 0 := hget 0
        rw [hb]
        exact h.write (by omega)
  exact hfill buf 0 m (fun k => by rw [Nat.zero_add]) (Nat.zero_add _) (filled_zero _ _ _)

theorem readmemll_writememll (m : GuestMem) (a v : UInt32) :
    readmemll (writememll m a v) a = v := by
  have hzero : Filled m a (wordByte v) 0 m := filled_zero m a _
  have hword := hzero.writell (v := v) (by decide) fun j _ => by rw [Nat.zero_add]
  have hbase : a + UInt32.ofNat 0 = a := UInt32.add_zero a
  rw [hbase] at hword
  exact readmemll_of_bytes fun j hj => hword.at (by omega) (by decide)

/-- The count that the guest is told. -/
theorem writeIoStatus_information (m : GuestMem) {ioStatusPtr : UInt32} (h : ioStatusPtr ≠ 0)
    (status information : UInt32) :
    readmemll (writeIoStatus m ioStatusPtr status information) (ioStatusPtr + 4) = information := by
  unfold writeIoStatus
  rw [if_neg h]
  exact readmemll_writememll _ _ _

theorem bufferBytes_length (m : GuestMem) (bufferPtr length : UInt32) :
    (bufferBytes m bufferPtr length).length = length.toNat := by
  unfold bufferBytes
  rw [List.length_map, List.length_range]

end Guest

section Meets

/-- Where a read starts. -/
def ReadFileArgs.start (a : ReadFileArgs) (m : GuestMem) (pos : Nat) : Nat :=
  if a.Seeks m then (byteOffset m a.byteOffsetPtr).toNat else pos

/-- A read that is said to succeed, or to be at the end of the file, has delivered the bytes of the
file where it starts, as many as it says, and the next one goes on behind them. -/
structure ReadMeets (io : HostIo σ) (fd : Int) (a : ReadFileArgs) (s s' : IoState σ)
    (status : UInt32) : Prop where
  delivered : status = statusSuccess ∨ status = statusEndOfFile → ∃ data m,
    data.length ≤ a.length.toNat ∧
    data = ((io.file fd s.host).seek (a.start s.guest (io.file fd s.host).pos)).next data.length ∧
    Filled s.guest a.bufferPtr (data.getD · 0) data.length m ∧
    s'.guest = writeIoStatus m a.ioStatusPtr status (UInt32.ofNat data.length) ∧
    (a.ioStatusPtr ≠ 0 → (readmemll s'.guest (a.ioStatusPtr + 4)).toNat = data.length) ∧
    (a.length ≠ 0 → (io.file fd s'.host).pos =
      a.start s.guest (io.file fd s.host).pos + data.length)
  failed : ¬ (status = statusSuccess ∨ status = statusEndOfFile) → s'.guest = s.guest
  kept : (io.file fd s'.host).bytes = (io.file fd s.host).bytes

/-- The bytes that the host takes of a write. -/
def taken (io : HostIo σ) (handle : UInt32) (s : IoState σ) (a : WriteFileArgs) : Nat :=
  match handlesResolve s.handles handle with
  | none => 0
  | some he =>
      if a.length = 0 then 0
      else
        match io.malloc a.length s.host with
        | (_, false) => 0
        | (host, true) =>
            (io.write (s.entry he).hostFd (bufferBytes s.guest a.bufferPtr a.length) host).2.getD 0

/-- A write that is said to succeed has stored the bytes of the guest at the position, as many as
the host has taken and as it says, and the next one goes on behind them. -/
structure WriteMeets (io : HostIo σ) (handle : UInt32) (fd : Int) (a : WriteFileArgs)
    (s s' : IoState σ) (status : UInt32) : Prop where
  stored : status = statusSuccess →
    io.file fd s'.host = (io.file fd s.host).store
      ((bufferBytes s.guest a.bufferPtr a.length).take (taken io handle s a)) ∧
    s'.guest =
      writeIoStatus s.guest a.ioStatusPtr status (UInt32.ofNat (taken io handle s a)) ∧
    (a.ioStatusPtr ≠ 0 →
      (readmemll s'.guest (a.ioStatusPtr + 4)).toNat = taken io handle s a)
  failed : status ≠ statusSuccess →
    s'.guest = s.guest ∧ io.file fd s'.host = io.file fd s.host

/-- `file_offset` is the position of the descriptor. -/
def OffsetAgrees (io : HostIo σ) (handle : UInt32) (fd : Int) (s : IoState σ) : Prop :=
  (s.handles.entries handle.toNat).fileOffset.toNat = (io.file fd s.host).pos

/-- The call transfers what it should, and leaves the offset at the position. -/
def CallMeets (io : HostIo σ) (handle : UInt32) (fd : Int) (s : IoState σ) (call : IoCall) : Prop :=
  (match call with
    | .read a => ReadMeets io fd a s (ioCall io s handle call).1 (ioCall io s handle call).2
    | .write a =>
        WriteMeets io handle fd a s (ioCall io s handle call).1 (ioCall io s handle call).2) ∧
  OffsetAgrees io handle fd (ioCall io s handle call).1

/-- The call is a read, or a write of which the host takes nothing. -/
def TakesNothing (io : HostIo σ) (handle : UInt32) (s : IoState σ) : IoCall → Prop
  | .read _ => True
  | .write a => taken io handle s a = 0

end Meets

section Steps

/-- The entry of the handle is the one of the descriptor. -/
structure Stands (handle : UInt32) (fd : Int) (s : IoState σ) : Prop where
  lo : 1 ≤ handle.toNat
  hi : handle.toNat ≤ 255
  type : (s.handles.entries handle.toNat).type = .file
  hostFd : (s.handles.entries handle.toNat).hostFd = fd

/-- The handle names the entry, unless it is one of the two that always mean the console. -/
theorem Stands.resolve (h : Stands handle fd s) :
    handlesResolve s.handles handle = some (.entry handle.toNat) ∨
      handlesResolve s.handles handle = some .stdOut ∨
      handlesResolve s.handles handle = some .stdErr := by
  have hlo := h.lo
  have hhi := h.hi
  have hne : ∀ x : UInt32, 255 < x.toNat ∨ x.toNat = 0 → handle ≠ x := by
    rintro x hx rfl
    omega
  unfold handlesResolve
  rw [if_neg (hne stdInputHandle (by decide)), if_neg (hne stdOutputHandle (by decide)),
    if_neg (hne stdErrorHandle (by decide)), if_neg (hne 0 (by decide))]
  split
  · exact .inr (.inl rfl)
  · split
    · exact .inr (.inr rfl)
    · left
      have hentry : (s.handles.entries handle.toNat).type ≠ .none := by
        rw [h.type]
        decide
      unfold handlesGetRef
      rw [handlesGet_of_entry hlo (by unfold maxHandles; omega) rfl hentry]
      rfl

/-- The entry is the one of the descriptor, and follows its position. -/
structure Follows (io : HostIo σ) (handle : UInt32) (fd : Int) (s : IoState σ) : Prop
    extends Stands handle fd s where
  agrees : OffsetAgrees io handle fd s

theorem Stands.setOffset (h : Stands handle fd s) (offset : UInt64) :
    Stands handle fd (s.setOffset (.entry handle.toNat) offset) := by
  have hentry : (s.setOffset (.entry handle.toNat) offset).handles.entries handle.toNat =
      { s.handles.entries handle.toNat with fileOffset := offset } := Function.update_self _ _ _
  refine ⟨h.lo, h.hi, ?_, ?_⟩
  · rw [hentry]
    exact h.type
  · rw [hentry]
    exact h.hostFd

/-- An offset that is set is followed if it is the position. -/
theorem Stands.follows (h : Stands handle fd s) {offset : UInt64}
    (hpos : offset.toNat = (io.file fd s.host).pos) :
    Follows io handle fd (s.setOffset (.entry handle.toNat) offset) where
  toStands := h.setOffset offset
  agrees := by
    have hentry : (s.setOffset (.entry handle.toNat) offset).handles.entries handle.toNat =
        { s.handles.entries handle.toNat with fileOffset := offset } := Function.update_self _ _ _
    unfold OffsetAgrees
    rw [hentry]
    exact hpos

/-- The offset is followed as long as the table and the file stay. -/
theorem Follows.congr (h : Follows io handle fd s) (hhandles : s'.handles = s.handles)
    (hfile : io.file fd s'.host = io.file fd s.host) : Follows io handle fd s' where
  lo := h.lo
  hi := h.hi
  type := by rw [hhandles]; exact h.type
  hostFd := by rw [hhandles]; exact h.hostFd
  agrees := by
    unfold OffsetAgrees
    rw [hhandles, hfile]
    exact h.agrees

/-- A seek goes where the read starts, or nowhere. -/
theorem seekFile_spec (hposix : io.Posix fd) (h : Follows io handle fd s) (a : ReadFileArgs)
    {ok : Bool} (hseek : seekFile io s (.entry handle.toNat) a = (s', ok)) :
    Follows io handle fd s' ∧ s'.guest = s.guest ∧
      (io.file fd s'.host).bytes = (io.file fd s.host).bytes ∧
      (ok = true → io.file fd s'.host =
        (io.file fd s.host).seek (a.start s.guest (io.file fd s.host).pos)) := by
  unfold seekFile at hseek
  unfold ReadFileArgs.start
  split at hseek
  · next hseeks =>
    rw [if_pos hseeks]
    have hfd : (s.entry (.entry handle.toNat)).hostFd = fd := h.hostFd
    dsimp only at hseek
    rw [hfd] at hseek
    split at hseek
    · next host hfailed =>
      cases hseek
      have hfile := hposix.lseek_false _ _ _ hfailed
      exact ⟨h.congr rfl hfile, rfl, congrArg _ hfile, fun hok => absurd hok Bool.false_ne_true⟩
    · next host hdone =>
      cases hseek
      have hfile := hposix.lseek_true _ _ _ hdone
      have hstands : Stands handle fd { s with host } := ⟨h.lo, h.hi, h.type, h.hostFd⟩
      have hbytes : (io.file fd host).bytes = (io.file fd s.host).bytes := by
        rw [hfile]
        rfl
      refine ⟨hstands.follows ?_, rfl, hbytes, fun _ => hfile⟩
      exact (congrArg OpenFile.pos hfile).symm
  · next hstays =>
    rw [if_neg hstays]
    cases hseek
    exact ⟨h, rfl, rfl, fun _ => rfl⟩

/-- What is read is what is at the position, and both the position and the offset move behind it. -/
theorem readToGuest_spec (hposix : io.Posix fd) (h : Follows io handle fd s) (a : ReadFileArgs)
    {status : UInt32} (hread : readToGuest io s (.entry handle.toNat) a = (s', status)) :
    Follows io handle fd s' ∧ (io.file fd s'.host).bytes = (io.file fd s.host).bytes ∧
      (status = statusSuccess ∨ status = statusEndOfFile → ∃ data m,
        data.length ≤ a.length.toNat ∧ data = (io.file fd s.host).next data.length ∧
        Filled s.guest a.bufferPtr (data.getD · 0) data.length m ∧
        s'.guest = writeIoStatus m a.ioStatusPtr status (UInt32.ofNat data.length) ∧
        (io.file fd s'.host).pos = (io.file fd s.host).pos + data.length) ∧
      (¬ (status = statusSuccess ∨ status = statusEndOfFile) → s'.guest = s.guest) := by
  have hfd : (s.entry (.entry handle.toNat)).hostFd = fd := h.hostFd
  unfold readToGuest at hread
  rw [hfd] at hread
  split at hread
  · next host halloc =>
    cases hread
    have hfile : io.file fd host = io.file fd s.host := by
      have hkept := hposix.malloc a.length s.host
      rw [halloc] at hkept
      exact hkept
    exact ⟨h.congr rfl hfile, congrArg OpenFile.bytes hfile, fun hor => absurd hor (by decide),
      fun _ => rfl⟩
  · next host halloc =>
    have hfile : io.file fd host = io.file fd s.host := by
      have hkept := hposix.malloc a.length s.host
      rw [halloc] at hkept
      exact hkept
    split at hread
    · next host' hfailed =>
      cases hread
      have hfile' : io.file fd host' = io.file fd s.host :=
        (hposix.read_none _ _ _ hfailed).trans hfile
      exact ⟨h.congr rfl hfile', congrArg OpenFile.bytes hfile', fun hor => absurd hor (by decide),
        fun _ => rfl⟩
    · next host' buf hdone =>
      obtain ⟨hlen, hdata, hfile', hrange⟩ := hposix.read_some _ _ _ _ hdone
      rw [hfile] at hdata hfile' hrange
      have hlength := a.length.toNat_lt
      have hagrees := h.agrees
      unfold OffsetAgrees at hagrees
      have hstands : Stands handle fd
          { s with host := host', guest := copyToGuest s.guest a.bufferPtr buf } :=
        ⟨h.lo, h.hi, h.type, h.hostFd⟩
      have hsize : buf.length < UInt64.size :=
        Nat.lt_trans (by omega : buf.length < 2 ^ 63) (by decide)
      have hoffset : ((s.handles.entries handle.toNat).fileOffset +
          UInt64.ofNat buf.length).toNat = (io.file fd host').pos := by
        rw [UInt64.toNat_add, hagrees, UInt64.toNat_ofNat_of_lt' hsize, hfile',
          Nat.mod_eq_of_lt (by omega)]
        rfl
      cases hread
      refine ⟨(hstands.follows hoffset).congr rfl rfl, ?_, ?_, ?_⟩
      · show (io.file fd host').bytes = _
        rw [hfile']
        rfl
      · intro _
        refine ⟨buf, copyToGuest s.guest a.bufferPtr buf, hlen, hdata,
          copyToGuest_filled _ _ (by omega), rfl, ?_⟩
        show (io.file fd host').pos = _
        rw [hfile']
        rfl
      · intro hnot
        exfalso
        apply hnot
        split
        · exact .inr rfl
        · exact .inl rfl

/-- Nothing is read through a handle that means the console. -/
theorem ReadMeets.refused (a : ReadFileArgs) : ReadMeets io fd a s s statusInvalidHandle where
  delivered := fun hor => absurd hor (by decide)
  failed := fun _ => rfl
  kept := rfl

/-- Every read meets what it should, and is followed by the offset. -/
theorem sysNtReadFile_meets (hposix : io.Posix fd) (h : Follows io handle fd s) (a : ReadFileArgs) :
    ReadMeets io fd a s (sysNtReadFile io s handle a).1 (sysNtReadFile io s handle a).2 ∧
      Follows io handle fd (sysNtReadFile io s handle a).1 := by
  unfold sysNtReadFile
  rcases h.resolve with hentry | hout | herr
  · have htype : (s.entry (.entry handle.toNat)).type = .file := h.type
    rw [hentry]
    dsimp only
    rw [htype, if_neg (by decide)]
    split
    · next hzero =>
      have hnil : a.length.toNat = 0 := by
        rw [hzero]
        rfl
      refine ⟨⟨fun _ => ⟨[], s.guest, Nat.zero_le _, ?_, filled_zero _ _ _, rfl, ?_, ?_⟩,
        fun hnot => absurd (.inl rfl) hnot, rfl⟩, h.congr rfl rfl⟩
      · rfl
      · intro hptr
        rw [writeIoStatus_information _ hptr]
        rfl
      · exact fun hne => absurd hzero hne
    · next hlength =>
      obtain ⟨s₁, ok, hseek⟩ : ∃ s₁ ok, seekFile io s (.entry handle.toNat) a = (s₁, ok) :=
        ⟨_, _, rfl⟩
      obtain ⟨hfollows, hguest, hbytes, hstart⟩ := seekFile_spec hposix h a hseek
      rw [hseek]
      cases ok with
      | false =>
        dsimp only
        exact ⟨⟨fun hor => absurd hor (by decide), fun _ => hguest, hbytes⟩, hfollows⟩
      | true =>
        obtain ⟨s₂, status, hread⟩ :
            ∃ s₂ status, readToGuest io s₁ (.entry handle.toNat) a = (s₂, status) := ⟨_, _, rfl⟩
        obtain ⟨hfollows', hbytes', hdelivered, hfailed⟩ := readToGuest_spec hposix hfollows a hread
        rw [hstart rfl, hguest] at hdelivered
        dsimp only
        rw [hread]
        refine ⟨⟨?_, fun hnot => (hfailed hnot).trans hguest, hbytes'.trans hbytes⟩, hfollows'⟩
        intro hor
        obtain ⟨data, m, hlen, hdata, hfilled, hreport, hpos⟩ := hdelivered hor
        refine ⟨data, m, hlen, hdata, hfilled, hreport, ?_, fun _ => hpos⟩
        intro hptr
        have hlt := a.length.toNat_lt
        rw [hreport, writeIoStatus_information _ hptr,
          UInt32.toNat_ofNat_of_lt' (Nat.lt_of_le_of_lt hlen hlt)]
  · rw [hout]
    exact ⟨ReadMeets.refused a, h⟩
  · rw [herr]
    exact ⟨ReadMeets.refused a, h⟩

/-- The address of an entry that may be written through. -/
theorem Stands.writable (h : Stands handle fd s) : ∃ he,
    handlesResolve s.handles handle = some he ∧
      ¬ ((s.entry he).type ≠ .file ∧ (s.entry he).type ≠ .consoleOut ∧
        (s.entry he).type ≠ .consoleErr) := by
  rcases h.resolve with hentry | hout | herr
  · exact ⟨_, hentry, fun hnot => hnot.1 h.type⟩
  · exact ⟨_, hout, fun hnot => hnot.2.1 rfl⟩
  · exact ⟨_, herr, fun hnot => hnot.2.2 rfl⟩

/-- A write leaves the table alone. -/
theorem sysNtWriteFile_handles (io : HostIo σ) (s : IoState σ) (handle : UInt32)
    (a : WriteFileArgs) : (sysNtWriteFile io s handle a).1.handles = s.handles := by
  unfold sysNtWriteFile
  split
  · rfl
  · dsimp only
    split
    · rfl
    · split
      · rfl
      · split
        · rfl
        · split <;> rfl

/-- A write of which the host takes nothing meets what it should. -/
theorem sysNtWriteFile_meets (hposix : io.Posix fd) (h : Follows io handle fd s) (a : WriteFileArgs)
    (hnothing : taken io handle s a = 0) :
    WriteMeets io handle fd a s (sysNtWriteFile io s handle a).1 (sysNtWriteFile io s handle a).2 ∧
      io.file fd (sysNtWriteFile io s handle a).1.host = io.file fd s.host := by
  -- what is stored and said if the file has not changed
  have hstored : ∀ s' : IoState σ, io.file fd s'.host = io.file fd s.host →
      s'.guest = writeIoStatus s.guest a.ioStatusPtr statusSuccess 0 →
      WriteMeets io handle fd a s s' statusSuccess := by
    intro s' hfile hguest
    refine ⟨fun _ => ?_, fun hne => absurd rfl hne⟩
    rw [hnothing, List.take_zero, OpenFile.store_nil]
    refine ⟨hfile, hguest, fun hptr => ?_⟩
    rw [hguest, writeIoStatus_information _ hptr]
    rfl
  have hfailed : ∀ (s' : IoState σ) (status : UInt32), io.file fd s'.host = io.file fd s.host →
      s'.guest = s.guest → status ≠ statusSuccess → WriteMeets io handle fd a s s' status :=
    fun s' status hfile hguest hne => ⟨fun heq => absurd heq hne, fun _ => ⟨hguest, hfile⟩⟩
  obtain ⟨he, hresolve, htype⟩ := h.writable
  unfold taken at hnothing
  unfold sysNtWriteFile
  rw [hresolve] at hnothing ⊢
  dsimp only at hnothing ⊢
  rw [if_neg htype]
  split
  · exact ⟨hstored _ rfl rfl, rfl⟩
  · next hlength =>
    rw [if_neg hlength] at hnothing
    have hkept := hposix.malloc a.length s.host
    split
    · next host halloc =>
      rw [halloc] at hkept
      exact ⟨hfailed _ _ hkept rfl (by decide : statusNoMemory ≠ statusSuccess), hkept⟩
    · next host halloc =>
      rw [halloc] at hkept hnothing
      dsimp only at hkept hnothing
      have hfile : ∀ host' r, io.write (s.entry he).hostFd
          (bufferBytes s.guest a.bufferPtr a.length) host = (host', r) →
          r.getD 0 = 0 → io.file fd host' = io.file fd s.host := by
        intro host' r hwrite hr
        by_cases hfd : (s.entry he).hostFd = fd
        · rw [hfd] at hwrite
          cases r with
          | none => exact (hposix.write_none _ _ _ hwrite).trans hkept
          | some k =>
            have hzero : k = 0 := hr
            obtain ⟨-, hstore⟩ := hposix.write_some _ _ _ _ hwrite
            rw [hstore, hzero, List.take_zero, OpenFile.store_nil, hkept]
        · exact (hposix.other _ _ _ _ _ hfd hwrite hr).trans hkept
      split
      · next host' hwrite =>
        have hsame := hfile _ _ hwrite rfl
        exact ⟨hfailed _ _ hsame rfl (by decide : statusIoDeviceError ≠ statusSuccess), hsame⟩
      · next host' written hwrite =>
        rw [hwrite] at hnothing
        have hzero : written = 0 := hnothing
        have hsame := hfile _ _ hwrite hzero
        rw [hzero]
        exact ⟨hstored _ hsame rfl, hsame⟩

/-- A write of which the host takes something leaves the offset behind. -/
theorem sysNtWriteFile_behind (h : Follows io handle fd s) (a : WriteFileArgs)
    (hsome : taken io handle s a ≠ 0) : ¬ CallMeets io handle fd s (.write a) := by
  rintro ⟨hmeets, hagrees⟩
  have hstays := h.agrees
  unfold OffsetAgrees at hagrees hstays
  dsimp only [ioCall] at hmeets hagrees
  rw [sysNtWriteFile_handles, hstays] at hagrees
  -- the host has taken something: so the call has succeeded
  have hsuccess : (sysNtWriteFile io s handle a).2 = statusSuccess ∧ a.length ≠ 0 := by
    obtain ⟨he, hresolve, htype⟩ := h.writable
    unfold taken at hsome
    unfold sysNtWriteFile
    rw [hresolve] at hsome ⊢
    dsimp only at hsome ⊢
    rw [if_neg htype]
    by_cases hlength : a.length = 0
    · rw [if_pos hlength] at hsome
      exact absurd rfl hsome
    · rw [if_neg hlength] at hsome ⊢
      refine ⟨?_, hlength⟩
      obtain ⟨host, ok, halloc⟩ : ∃ host ok, io.malloc a.length s.host = (host, ok) :=
        ⟨_, _, rfl⟩
      rw [halloc] at hsome ⊢
      cases ok with
      | false => exact absurd rfl hsome
      | true =>
        dsimp only at hsome ⊢
        generalize io.write (s.entry he).hostFd (bufferBytes s.guest a.bufferPtr a.length) host =
          wrote at hsome ⊢
        obtain ⟨host', _ | written⟩ := wrote
        · exact absurd rfl hsome
        · rfl
  obtain ⟨hstored, -⟩ := hmeets.stored hsuccess.1
  rw [hstored, OpenFile.store_pos, List.length_take, bufferBytes_length] at hagrees
  have hlength : a.length.toNat ≠ 0 := fun hzero => hsuccess.2 (UInt32.toNat_inj.mp hzero)
  omega

/-- A call meets what it should exactly if it is not a write of which the host takes something. -/
theorem callMeets_iff (hposix : io.Posix fd) (h : Follows io handle fd s) (call : IoCall) :
    CallMeets io handle fd s call ↔ TakesNothing io handle s call := by
  cases call with
  | read a =>
    obtain ⟨hmeets, hfollows⟩ := sysNtReadFile_meets hposix h a
    exact iff_of_true ⟨hmeets, hfollows.agrees⟩ trivial
  | write a =>
    constructor
    · intro hmeets
      apply Classical.byContradiction
      exact fun hsome => sysNtWriteFile_behind h a hsome hmeets
    · intro hnothing
      obtain ⟨hmeets, hfile⟩ := sysNtWriteFile_meets hposix h a hnothing
      exact ⟨hmeets, (h.congr (sysNtWriteFile_handles io s handle a) hfile).agrees⟩

/-- A call that meets what it should leaves an offset that follows the position. -/
theorem CallMeets.follows (hposix : io.Posix fd) (h : Follows io handle fd s) {call : IoCall}
    (hmeets : CallMeets io handle fd s call) :
    Follows io handle fd (ioCall io s handle call).1 := by
  cases call with
  | read a => exact (sysNtReadFile_meets hposix h a).2
  | write a =>
    have hhandles : (ioCall io s handle (.write a)).1.handles = s.handles :=
      sysNtWriteFile_handles io s handle a
    exact
      { lo := h.lo, hi := h.hi
        type := by rw [hhandles]; exact h.type
        hostFd := by rw [hhandles]; exact h.hostFd
        agrees := hmeets.2 }

end Steps

section Runs

/-- A handle that has just been issued stands for its descriptor, from its start. -/
theorem Issued.follows (h : Issued s.handles handle fd) (hpos : (io.file fd s.host).pos = 0) :
    Follows io handle fd s := by
  obtain ⟨before, access, hadd, hne, htable⟩ := h
  have hentry : AddsEntry before ⟨.file, fd, 0, 0, none⟩ (handlesAdd before .file fd) :=
    insert_addsEntry before _
  generalize handlesAdd before .file fd = added at hadd htable hentry
  cases hentry with
  | full => exact absurd hadd.symm hne
  | added hlo hhi hfree hentry hothers =>
    subst hadd
    rename_i ht handle
    have hget : handlesGet ht handle = some ⟨.file, fd, 0, 0, none⟩ :=
      handlesGet_of_entry hlo (by unfold maxHandles; omega) hentry nofun
    have hset : s.handles.entries handle.toNat = ⟨.file, fd, access, 0, none⟩ := by
      rw [htable]
      unfold HandleTable.setAccess
      rw [hget]
      exact Function.update_self _ _ _
    refine ⟨⟨hlo, hhi, ?_, ?_⟩, ?_⟩
    · rw [hset]
    · rw [hset]
    · unfold OffsetAgrees
      rw [hset, hpos]
      rfl

/-- In a run of reads and writes from the start of a file, every call transfers what it should and
leaves the offset of the handle at the position of the descriptor if and only if the host takes
nothing of any write. -/
theorem filePositions_iff (hposix : io.Posix fd) (hissued : Issued s.handles handle fd)
    (hpos : (io.file fd s.host).pos = 0) (calls : List IoCall) :
    Guarded (fun s call => some (ioCall io s handle call).1) (CallMeets io handle fd) s calls ↔
      Guarded (fun s call => some (ioCall io s handle call).1) (TakesNothing io handle) s
        calls := by
  apply Guarded.iff_of_invariant (I := Follows io handle fd) _ _ (hissued.follows hpos)
  · exact fun s call h => callMeets_iff hposix h call
  · intro s call s' h hmeets hstep
    cases hstep
    exact hmeets.follows hposix h

/-- A host with one file, at descriptor 3. -/
def oneFileIo : HostIo OpenFile where
  malloc := fun _ f => (f, true)
  read := fun fd n f =>
    if fd = 3 ∧ f.pos + (f.next n.toNat).length < 2 ^ 63 then
      (f.seek (f.pos + (f.next n.toNat).length), some (f.next n.toNat))
    else (f, none)
  write := fun fd data f =>
    if fd = 3 ∧ f.pos + data.length < 2 ^ 63 then (f.store data, some data.length) else (f, none)
  lseek := fun fd offset f => if fd = 3 then (f.seek offset.toNat, true) else (f, false)
  file := fun _ f => f

theorem oneFileIo_posix : oneFileIo.Posix 3 where
  malloc := fun _ _ => rfl
  read_some := by
    intro n f f' data h
    dsimp only [oneFileIo] at h ⊢
    split at h
    · next hin =>
      cases h
      have hlen : (f.next n.toNat).length ≤ n.toNat := List.length_take_le _ _
      refine ⟨hlen, ?_, rfl, hin.2⟩
      unfold OpenFile.next
      rw [List.length_take, List.take_eq_take_min]
    · cases h
  read_none := by
    intro n f f' h
    dsimp only [oneFileIo] at h ⊢
    split at h <;> cases h
    rfl
  write_some := by
    intro data f f' k h
    dsimp only [oneFileIo] at h ⊢
    split at h
    · cases h
      exact ⟨Nat.le_refl _, by rw [List.take_length]⟩
    · cases h
  write_none := by
    intro data f f' h
    dsimp only [oneFileIo] at h ⊢
    split at h <;> cases h
    rfl
  lseek_true := by
    intro offset f f' h
    dsimp only [oneFileIo] at h ⊢
    rw [if_pos rfl] at h
    cases h
    rfl
  lseek_false := by
    intro offset f f' h
    dsimp only [oneFileIo] at h ⊢
    rw [if_pos rfl] at h
    cases h
  other := by
    intro fd data f f' r hne h _
    dsimp only [oneFileIo] at h ⊢
    rw [if_neg fun hin => hne hin.1] at h
    cases h
    rfl

/-- A file of three bytes that has just been opened. -/
def justOpened : IoState OpenFile where
  handles := (handlesAdd handlesInit .file 3).1.setAccess 4 readAccess
  stdInOffset := 0
  guest := fun _ => 0x58
  host := ⟨[0x41, 0x42, 0x43], 0⟩

theorem justOpened_issued : Issued justOpened.handles 4 3 :=
  ⟨handlesInit, readAccess, by decide +kernel, by decide, rfl⟩

/-- Two reads, the second with an offset of the guest, and a write of nothing. -/
theorem filePositions_reads :
    Guarded (fun s call => some (ioCall oneFileIo s 4 call).1) (CallMeets oneFileIo 4 3) justOpened
      [.read ⟨0, 0x1000, 2, 0⟩, .read ⟨0x2000, 0x1000, 1, 0x3000⟩, .write ⟨0, 0x1000, 0⟩] := by
  apply (filePositions_iff oneFileIo_posix justOpened_issued rfl _).mpr
  refine ⟨trivial, fun _ _ => ⟨trivial, fun s _ => ⟨?_, fun _ _ => trivial⟩⟩⟩
  show taken oneFileIo 4 s ⟨0, 0x1000, 0⟩ = 0
  unfold taken
  split <;> rfl

/-- A byte is written: the descriptor is behind it, the offset of the handle before it. -/
theorem filePositions_write :
    oneFileIo.Posix 3 ∧ Issued justOpened.handles 4 3 ∧ (oneFileIo.file 3 justOpened.host).pos = 0 ∧
      ((ioCall oneFileIo justOpened 4 (.write ⟨0, 0x1000, 1⟩)).1.handles.entries 4).fileOffset = 0 ∧
      (ioCall oneFileIo justOpened 4 (.write ⟨0, 0x1000, 1⟩)).1.host = ⟨[0x58, 0x42, 0x43], 1⟩ ∧
      ¬ Guarded (fun s call => some (ioCall oneFileIo s 4 call).1) (CallMeets oneFileIo 4 3)
        justOpened [.write ⟨0, 0x1000, 1⟩] := by
  have hoffset : ((ioCall oneFileIo justOpened 4
      (.write ⟨0, 0x1000, 1⟩)).1.handles.entries 4).fileOffset = 0 := by decide +kernel
  have hhost : (ioCall oneFileIo justOpened 4 (.write ⟨0, 0x1000, 1⟩)).1.host =
      ⟨[0x58, 0x42, 0x43], 1⟩ := by decide +kernel
  refine ⟨oneFileIo_posix, justOpened_issued, rfl, hoffset, hhost, ?_⟩
  rintro ⟨⟨-, hagrees⟩, -⟩
  have hfour : (4 : UInt32).toNat = 4 := rfl
  unfold OffsetAgrees at hagrees
  rw [hfour, hoffset, hhost] at hagrees
  exact absurd hagrees (by decide)

end Runs

end Wbox.Nt
