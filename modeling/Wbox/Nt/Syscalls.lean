import Wbox.Loader.Stubs

/-!
# Arguments of system calls

How the handlers of `nt_syscall_handler` (`src/nt/ntdll.c:123–1860`) read the arguments the guest
has pushed. A call through ntdll leaves two return addresses above them, a call of a loader stub
one; only `nt_read_arg` tells the two apart.
-/

namespace Wbox.Nt

open Wbox.Cpu Wbox.Vm Wbox.Loader

/-- `is_loader_stub_pc`, `ntdll.c:25–28`. -/
def isLoaderStubPc (pc : UInt32) : Bool := decide (0x7F000000 ≤ pc ∧ pc < 0x7F010000)

/-- `nt_read_arg`, `ntdll.c:41–45`. -/
def ntReadArg (c : GuestCpu) (index : Nat) : UInt32 :=
  let baseOffset : UInt32 := if isLoaderStubPc c.regs.eip then 4 else 8
  readmemll c.mem (c.regs.esp + baseOffset + UInt32.ofNat (index * 4))

/-- `read_stack_arg`, `sys_file.c:29–32`, `sys_process.c:22–25`. -/
def readStackArg (c : GuestCpu) (index : Nat) : UInt32 :=
  readmemll c.mem (c.regs.esp + 8 + UInt32.ofNat (index * 4))

/-- `readmemll(ESP + 4)` and so on, `ntdll.c:1007–1011`. -/
def espArg (c : GuestCpu) (index : Nat) : UInt32 :=
  readmemll c.mem (c.regs.esp + 4 + UInt32.ofNat (index * 4))

/-- The readers of arguments. -/
inductive ArgReader where
  | ntReadArg
  | readStackArg
  | espArg
  deriving DecidableEq, Repr

/-- What a reader takes for an argument. -/
def ArgReader.read : ArgReader → GuestCpu → Nat → UInt32
  | .ntReadArg => Nt.ntReadArg
  | .readStackArg => Nt.readStackArg
  | .espArg => Nt.espArg

/-- The NT system calls that `nt_syscall_handler` dispatches. -/
inductive NtSyscall where
  | ntClose | ntCreateFile | ntOpenFile | ntReadFile | ntWriteFile | ntTerminateProcess
  | ntQueryPerformanceCounter | ntCreateEvent | ntQueryDefaultLocale | ntWaitForSingleObject
  | ntWaitForMultipleObjects | ntSetEvent | ntResetEvent | ntClearEvent | ntPulseEvent
  | ntOpenKey | ntQueryValueKey | ntAddAtom | ntCreateSection | ntOpenThreadToken
  | ntOpenThreadTokenEx | ntOpenProcessToken | ntOpenProcessTokenEx | ntQueryInformationProcess
  | ntQueryAttributesFile | ntQueryFullAttributesFile | ntCreateSemaphore | ntReleaseSemaphore
  | ntCreateMutant | ntReleaseMutant | ntDelayExecution | ntQuerySystemInformation
  | ntQueryVolumeInformationFile | ntCallbackReturn | ntCreateKeyedEvent | ntCreateThread
  | ntTerminateThread | ntQueryInformationThread | ntResumeThread | ntSuspendThread
  deriving DecidableEq, Repr

/-- The number of a system call, `syscalls.h:11–306`. -/
def NtSyscall.number : NtSyscall → UInt32
  | .ntClose => 27
  | .ntCreateFile => 39
  | .ntOpenFile => 122
  | .ntReadFile => 191
  | .ntWriteFile => 284
  | .ntTerminateProcess => 266
  | .ntQueryPerformanceCounter => 173
  | .ntCreateEvent => 37
  | .ntQueryDefaultLocale => 149
  | .ntWaitForSingleObject => 281
  | .ntWaitForMultipleObjects => 280
  | .ntSetEvent => 228
  | .ntResetEvent => 210
  | .ntClearEvent => 26
  | .ntPulseEvent => 144
  | .ntOpenKey => 125
  | .ntQueryValueKey => 185
  | .ntAddAtom => 8
  | .ntCreateSection => 52
  | .ntOpenThreadToken => 135
  | .ntOpenThreadTokenEx => 136
  | .ntOpenProcessToken => 129
  | .ntOpenProcessTokenEx => 130
  | .ntQueryInformationProcess => 161
  | .ntQueryAttributesFile => 145
  | .ntQueryFullAttributesFile => 156
  | .ntCreateSemaphore => 53
  | .ntReleaseSemaphore => 197
  | .ntCreateMutant => 45
  | .ntReleaseMutant => 196
  | .ntDelayExecution => 61
  | .ntQuerySystemInformation => 181
  | .ntQueryVolumeInformationFile => 187
  | .ntCallbackReturn => 22
  | .ntCreateKeyedEvent => 289
  | .ntCreateThread => 55
  | .ntTerminateThread => 267
  | .ntQueryInformationThread => 162
  | .ntResumeThread => 214
  | .ntSuspendThread => 263

/-- All of them. -/
def NtSyscall.all : List NtSyscall :=
  [.ntClose, .ntCreateFile, .ntOpenFile, .ntReadFile, .ntWriteFile, .ntTerminateProcess,
    .ntQueryPerformanceCounter, .ntCreateEvent, .ntQueryDefaultLocale, .ntWaitForSingleObject,
    .ntWaitForMultipleObjects, .ntSetEvent, .ntResetEvent, .ntClearEvent, .ntPulseEvent,
    .ntOpenKey, .ntQueryValueKey, .ntAddAtom, .ntCreateSection, .ntOpenThreadToken,
    .ntOpenThreadTokenEx, .ntOpenProcessToken, .ntOpenProcessTokenEx, .ntQueryInformationProcess,
    .ntQueryAttributesFile, .ntQueryFullAttributesFile, .ntCreateSemaphore, .ntReleaseSemaphore,
    .ntCreateMutant, .ntReleaseMutant, .ntDelayExecution, .ntQuerySystemInformation,
    .ntQueryVolumeInformationFile, .ntCallbackReturn, .ntCreateKeyedEvent, .ntCreateThread,
    .ntTerminateThread, .ntQueryInformationThread, .ntResumeThread, .ntSuspendThread]

/-- The switch of `nt_syscall_handler` on the number. -/
def NtSyscall.dispatch (syscallNum : UInt32) : Option NtSyscall :=
  NtSyscall.all.find? fun call => call.number == syscallNum

/-- The reader a handler uses and the arguments it reads; `none` reads none. -/
def NtSyscall.argReads : NtSyscall → Option (ArgReader × List Nat)
  | .ntClose => some (.readStackArg, [0])
  | .ntCreateFile => some (.readStackArg, [0, 1, 2, 3, 7, 8])
  | .ntOpenFile => some (.readStackArg, [0, 1, 2, 3, 5])
  | .ntReadFile => some (.readStackArg, [0, 4, 5, 6, 7])
  | .ntWriteFile => some (.readStackArg, [0, 4, 5, 6])
  | .ntTerminateProcess => some (.readStackArg, [0, 1])
  | .ntQueryPerformanceCounter => some (.readStackArg, [0, 1])
  | .ntCreateEvent => some (.ntReadArg, [0, 1, 2, 3, 4])
  | .ntQueryDefaultLocale => some (.ntReadArg, [1])
  | .ntWaitForSingleObject => some (.ntReadArg, [0, 1, 2])
  | .ntWaitForMultipleObjects => some (.ntReadArg, [0, 1, 2, 3, 4])
  | .ntSetEvent => some (.ntReadArg, [0, 1])
  | .ntResetEvent => some (.ntReadArg, [0, 1])
  | .ntClearEvent => some (.ntReadArg, [0])
  | .ntPulseEvent => some (.ntReadArg, [0, 1])
  | .ntOpenKey => none
  | .ntQueryValueKey => none
  | .ntAddAtom => some (.ntReadArg, [2])
  | .ntCreateSection => none
  | .ntOpenThreadToken => none
  | .ntOpenThreadTokenEx => none
  | .ntOpenProcessToken => none
  | .ntOpenProcessTokenEx => none
  | .ntQueryInformationProcess => some (.espArg, [0, 1, 2, 3, 4])
  | .ntQueryAttributesFile => none
  | .ntQueryFullAttributesFile => none
  | .ntCreateSemaphore => some (.ntReadArg, [0, 1, 2, 3, 4])
  | .ntReleaseSemaphore => some (.ntReadArg, [0, 1, 2])
  | .ntCreateMutant => some (.ntReadArg, [0, 1, 2, 3])
  | .ntReleaseMutant => some (.ntReadArg, [0, 1])
  | .ntDelayExecution => some (.ntReadArg, [0, 1])
  | .ntQuerySystemInformation => some (.ntReadArg, [0, 1, 2, 3])
  | .ntQueryVolumeInformationFile => none
  | .ntCallbackReturn => some (.ntReadArg, [0, 1, 2])
  | .ntCreateKeyedEvent => some (.ntReadArg, [0])
  | .ntCreateThread => some (.ntReadArg, [0, 1, 2, 3, 4, 5, 6, 7])
  | .ntTerminateThread => some (.ntReadArg, [0, 1])
  | .ntQueryInformationThread => some (.ntReadArg, [0, 1, 2, 3, 4])
  | .ntResumeThread => some (.ntReadArg, [0, 1])
  | .ntSuspendThread => some (.ntReadArg, [0, 1])

/-- The ways into a handler. -/
inductive EntryPath where
  | ntdll
  | loaderStub
  deriving DecidableEq, Repr

/-- The return addresses on the stack. -/
def EntryPath.returns : EntryPath → Nat
  | .ntdll => 2
  | .loaderStub => 1

/-- The arguments the guest has pushed, behind a number of return addresses. -/
def OnStack (c : GuestCpu) (returns : Nat) (args : List UInt32) : Prop :=
  ∀ i a, args[i]? = some a →
    readmemll c.mem (c.regs.esp + UInt32.ofNat (returns * 4) + UInt32.ofNat (i * 4)) = a

/-- The guest calls the stub in the KUSD page from ntdll, with the number in EAX, or a stub that
the loader has generated. -/
def Enters (call : NtSyscall) (path : EntryPath) (c : GuestCpu) : Prop :=
  match path with
  | .ntdll =>
      BytesAt c.mem syscallStubVa syscallStubCode ∧ c.regs.eip = syscallStubVa ∧
        c.regs.eax = call.number
  | .loaderStub =>
      ∃ stub : StubDef, InStubRegion c.regs.eip ∧ stub.type = .syscall ∧
        stub.syscallNum = call.number ∧ BytesAt c.mem c.regs.eip (stubCode stub)

/-- The handler is entered for the call, and takes for every argument it reads the one the guest
has pushed. -/
def ReadsArgs (call : NtSyscall) (path : EntryPath) : Prop :=
  ∀ c args, Enters call path c → OnStack c path.returns args →
    ∃ c', runToSysenter 3 c = some c' ∧ NtSyscall.dispatch c'.regs.eax = some call ∧
      ∀ reader indices, call.argReads = some (reader, indices) →
        ∀ i ∈ indices, ∀ a, args[i]? = some a → reader.read c' i = a

/-- The reader is the right one for the way in. -/
def ArgReader.Fits : ArgReader → EntryPath → Prop
  | .ntReadArg, _ => True
  | .readStackArg, path => path = .ntdll
  | .espArg, path => path = .loaderStub

variable {call : NtSyscall} {path : EntryPath} {c : GuestCpu} {reader : ArgReader}
  {indices : List Nat}

/-- Every call is dispatched to its handler. -/
@[simp] theorem NtSyscall.dispatch_number (call : NtSyscall) :
    NtSyscall.dispatch call.number = some call := by
  cases call <;> rfl

/-- What the callback of SYSENTER finds, whichever way the guest came. -/
theorem enters_sysenter (h : Enters call path c) :
    ∃ c', runToSysenter 3 c = some c' ∧ c'.regs.eax = call.number ∧ c'.mem = c.mem ∧
      c'.regs.esp = c.regs.esp ∧ isLoaderStubPc c'.regs.eip = decide (path = .loaderStub) := by
  cases path with
  | ntdll =>
    obtain ⟨hcode, hpc, hnum⟩ := h
    exact ⟨_, run_syscallStub hcode hpc, hnum, rfl, rfl, rfl⟩
  | loaderStub =>
    obtain ⟨stub, hregion, htype, hnum, hcode⟩ := h
    refine ⟨_, run_stub hcode htype rfl, hnum, rfl, rfl, ?_⟩
    obtain ⟨hlow, hhigh⟩ := hregion.toNat
    apply decide_eq_true
    rw [UInt32.le_iff_toNat_le, UInt32.lt_iff_toNat_lt, UInt32.toNat_add]
    simp only [UInt32.reduceToNat]
    omega

/-- The words a reader skips. -/
def ArgReader.skips : ArgReader → EntryPath → Nat
  | .ntReadArg, path => path.returns
  | .readStackArg, _ => 2
  | .espArg, _ => 1

/-- The word a reader reads at the callback. -/
theorem ArgReader.read_eq (reader : ArgReader) {c' : GuestCpu} (hmem : c'.mem = c.mem)
    (hesp : c'.regs.esp = c.regs.esp)
    (hpc : isLoaderStubPc c'.regs.eip = decide (path = .loaderStub)) (i : Nat) :
    reader.read c' i = readmemll c.mem
      (c.regs.esp + UInt32.ofNat (reader.skips path * 4) + UInt32.ofNat (i * 4)) := by
  cases reader with
  | ntReadArg =>
    show Nt.ntReadArg c' i = _
    unfold Nt.ntReadArg ArgReader.skips
    rw [hmem, hesp, hpc]
    cases path <;> rfl
  | readStackArg =>
    show Nt.readStackArg c' i = _
    unfold Nt.readStackArg ArgReader.skips
    rw [hmem, hesp]
    rfl
  | espArg =>
    show Nt.espArg c' i = _
    unfold Nt.espArg ArgReader.skips
    rw [hmem, hesp]
    rfl

/-- A reader fits if it skips the return addresses. -/
theorem ArgReader.fits_iff : reader.Fits path ↔ reader.skips path = path.returns := by
  cases reader <;> cases path <;> simp [ArgReader.Fits, ArgReader.skips, EntryPath.returns]

/-- A handler whose reader fits reads the arguments. -/
theorem readsArgs_of_fits (hfits : ∀ reader indices, call.argReads = some (reader, indices) →
    reader.Fits path) : ReadsArgs call path := by
  intro c args henters hstack
  obtain ⟨c', hrun, hnum, hmem, hesp, hpc⟩ := enters_sysenter henters
  refine ⟨c', hrun, by rw [hnum, NtSyscall.dispatch_number], ?_⟩
  intro reader indices hreads i _ a ha
  rw [reader.read_eq hmem hesp hpc, ArgReader.fits_iff.mp (hfits reader indices hreads)]
  exact hstack i a ha

/-- A stack of different words: the word at `4 * k` is `k`, for small `k`. -/
def countingMem : GuestMem := fun x => if x &&& 3 = 0 then (x >>> 2).toUInt8 else 0

/-- A call with this stack. -/
def countingCall (call : NtSyscall) : EntryPath → GuestCpu
  | .ntdll =>
      { regs := { (default : Registers) with eip := syscallStubVa, eax := call.number }
        mem := writeBytes countingMem syscallStubVa syscallStubCode }
  | .loaderStub =>
      { regs := { (default : Registers) with eip := stubsInit.nextVa }
        mem := writeBytes countingMem stubsInit.nextVa
          (stubCode ⟨[], .syscall, call.number, 0, 0⟩) }

theorem countingCall_enters (call : NtSyscall) (path : EntryPath) :
    Enters call path (countingCall call path) := by
  cases path with
  | ntdll => exact ⟨writeBytes_bytesAt (by decide), rfl, rfl⟩
  | loaderStub =>
    refine ⟨⟨[], .syscall, call.number, 0, 0⟩, ⟨stubsInit, by decide, rfl⟩, rfl, rfl, ?_⟩
    exact writeBytes_bytesAt (by simp [stubCode, le32, le16])

private theorem ofNat_toNat_small {n : Nat} (hn : n < 64) : (UInt32.ofNat n).toNat = n :=
  UInt32.toNat_ofNat_of_lt' (Nat.lt_trans hn (by decide))

/-- Its words. -/
theorem countingCall_word (call : NtSyscall) (path : EntryPath) {k : Nat} (hk : k < 16) :
    readmemll (countingCall call path).mem (UInt32.ofNat (k * 4)) = UInt32.ofNat k := by
  have hstack : ∀ x : UInt32, x.toNat < 64 → (countingCall call path).mem x = countingMem x := by
    intro x hx
    have hfar : ∀ va : UInt32, va = syscallStubVa ∨ va = stubsInit.nextVa →
        16 ≤ (x - va).toNat := by
      intro va hva
      have hnat : va.toNat = 0x7FFE0340 ∨ va.toNat = 0x7F000000 := by
        rcases hva with rfl | rfl
        · exact Or.inl rfl
        · exact Or.inr rfl
      rw [UInt32.toNat_sub]
      omega
    cases path with
    | ntdll => exact writeBytes_of_le (Nat.le_trans (by decide) (hfar _ (Or.inl rfl)))
    | loaderStub =>
      exact writeBytes_of_le (Nat.le_trans (stubCode_length _) (hfar _ (Or.inr rfl)))
  have hwords : ∀ k < 16, readmemll countingMem (UInt32.ofNat (k * 4)) = UInt32.ofNat k := by
    decide
  have hnat : ∀ j ≤ 3, (UInt32.ofNat (k * 4) + UInt32.ofNat j).toNat < 64 := by
    intro j hj
    rw [← UInt32.ofNat_add, ofNat_toNat_small (by omega)]
    omega
  have hbyte : ∀ j ≤ 3, (countingCall call path).mem (UInt32.ofNat (k * 4) + UInt32.ofNat j) =
      countingMem (UInt32.ofNat (k * 4) + UInt32.ofNat j) := fun j hj => hstack _ (hnat j hj)
  have hzero := hbyte 0 (by omega)
  have hone := hbyte 1 (by omega)
  have htwo := hbyte 2 (by omega)
  have hthree := hbyte 3 (by omega)
  simp only [UInt32.reduceOfNat, UInt32.add_zero] at hzero hone htwo hthree
  rw [← hwords k hk]
  unfold readmemll
  rw [hzero, hone, htwo, hthree]

/-- The handlers read none but the first nine arguments. -/
theorem NtSyscall.index_lt (h : call.argReads = some (reader, indices)) {i : Nat}
    (hi : i ∈ indices) : i < 9 := by
  have hall : ∀ r ∈ call.argReads, ∀ i ∈ r.2, i < 9 := by
    cases call <;> decide
  exact hall _ h i hi

/-- A handler reads something, or has no reader. -/
theorem NtSyscall.indices_ne_nil (h : call.argReads = some (reader, indices)) : indices ≠ [] := by
  have hall : ∀ r ∈ call.argReads, r.2 ≠ [] := by
    cases call <;> decide
  exact hall _ h

/-- A reader that does not fit takes another word of a stack of different words. -/
theorem not_readsArgs (h : call.argReads = some (reader, indices)) (hfits : ¬ reader.Fits path) :
    ¬ ReadsArgs call path := by
  intro hreads
  obtain ⟨i, hi⟩ := List.exists_mem_of_ne_nil indices (NtSyscall.indices_ne_nil h)
  have hlt := NtSyscall.index_lt h hi
  -- the arguments are what stands behind the return addresses
  have hreturns : path.returns ≤ 2 := by cases path <;> decide
  have hskips : reader.skips path ≤ 2 := by
    cases reader <;> cases path <;> decide
  have haddr : ∀ n j : Nat, (countingCall call path).regs.esp + UInt32.ofNat (n * 4) +
      UInt32.ofNat (j * 4) = UInt32.ofNat ((n + j) * 4) := by
    intro n j
    have hesp : (countingCall call path).regs.esp = 0 := by cases path <;> rfl
    rw [hesp, UInt32.zero_add, ← UInt32.ofNat_add, Nat.add_mul]
  have hstack : OnStack (countingCall call path) path.returns
      ((List.range (i + 1)).map fun j => UInt32.ofNat (path.returns + j)) := by
    intro j a ha
    obtain ⟨hj, rfl⟩ := List.getElem?_eq_some_iff.mp ha
    rw [List.length_map, List.length_range] at hj
    rw [haddr, countingCall_word call path (by omega)]
    simp
  obtain ⟨c', hrun, -, hargs⟩ := hreads _ _ (countingCall_enters call path) hstack
  obtain ⟨c'', hrun', -, hmem, hesp, hpc⟩ := enters_sysenter (countingCall_enters call path)
  cases Option.some.inj (hrun.symm.trans hrun')
  have hread := hargs reader indices h i hi (UInt32.ofNat (path.returns + i)) (by simp)
  rw [reader.read_eq hmem hesp hpc, haddr, countingCall_word call path (by omega)] at hread
  have hsame : reader.skips path + i = path.returns + i := by
    have hnat := congrArg UInt32.toNat hread
    rwa [ofNat_toNat_small (by omega), ofNat_toNat_small (by omega)] at hnat
  exact hfits (ArgReader.fits_iff.mpr (Nat.add_right_cancel hsame))

/-- A handler takes the arguments the guest has pushed, on every stack, exactly if it reads none,
uses `nt_read_arg`, or uses the reader for the way in. -/
theorem readsArgs_iff (call : NtSyscall) (path : EntryPath) :
    ReadsArgs call path ↔
      ∀ reader indices, call.argReads = some (reader, indices) → reader.Fits path := by
  constructor
  · intro hreads reader indices h
    by_contra hfits
    exact not_readsArgs h hfits hreads
  · exact readsArgs_of_fits

/-- `NtClose`, called through a loader stub, closes what stands behind its argument. -/
theorem ntClose_loaderStub : ¬ ReadsArgs .ntClose .loaderStub := by
  have hreads : NtSyscall.ntClose.argReads = some (.readStackArg, [0]) := rfl
  apply not_readsArgs hreads
  unfold ArgReader.Fits
  decide

end Wbox.Nt
