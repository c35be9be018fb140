import Wbox.Cpu.Context
import Wbox.Lib.Word
import Wbox.Vm.Guest

/-!
# Stub code

The stubs of `src/loader/stubs.c` and the system call stub in the KUSD page
(`src/vm/vm.c:1007–1021`), with the five instructions they are made of. A guest that runs
either one gets to SYSENTER with its stack as it was.
-/

namespace Wbox.Loader

open Wbox.Cpu Wbox.Lib Wbox.Vm

/-- `LOADER_STUB_REGION_VA`, which `stubs_init` takes as the address of the region. -/
def loaderStubRegionVa : UInt32 := 0x7F000000
/-- `LOADER_STUB_REGION_SIZE`. -/
def loaderStubRegionSize : UInt32 := 64 * 1024
/-- `STUB_CODE_SIZE`. -/
def stubCodeSize : UInt32 := 16
/-- `VM_KUSD_ADDR + 0x340`, the stub behind the SystemCall pointer. -/
def syscallStubVa : UInt32 := 0x7FFE0340

/-- `stub_type_t`, `stubs.h:13–17`. -/
inductive StubType where
  | syscall
  | returnZero
  | returnError
  deriving DecidableEq, Repr

/-- `stub_def_t`, `stubs.h:20–26`. -/
structure StubDef where
  name : List UInt8
  type : StubType
  syscallNum : UInt32
  returnValue : UInt32
  numArgs : Nat
  deriving DecidableEq, Repr

/-- `stub_manager_t`, `stubs.h:35–45`: what `stubs_generate` changes of it. -/
structure StubManager where
  stubAllocPtr : UInt32
  registry : List (List UInt8 × UInt32)
  alloc_le : stubAllocPtr.toNat ≤ 65536

/-- `stubs_init`, `stubs.c:17–60`. -/
def stubsInit : StubManager where
  stubAllocPtr := 0
  registry := []
  alloc_le := by decide

/-- The bytes `mem_writel_phys` stores. -/
def le32 (v : UInt32) : List UInt8 :=
  [v.toUInt8, (v >>> 8).toUInt8, (v >>> 16).toUInt8, (v >>> 24).toUInt8]

/-- The bytes `mem_writew_phys` stores. -/
def le16 (v : UInt16) : List UInt8 := [v.toUInt8, (v >>> 8).toUInt8]

/-- The code of a stub, `stubs.c:104–155`. -/
def stubCode (stub : StubDef) : List UInt8 :=
  let cleanup := le16 (UInt16.ofNat (stub.numArgs * 4))
  match stub.type with
  | .syscall => 0xB8 :: le32 stub.syscallNum ++ [0x89, 0xE2, 0x0F, 0x34, 0xC2] ++ cleanup
  | .returnZero => [0x31, 0xC0, 0xC2] ++ cleanup
  | .returnError => 0xB8 :: le32 stub.returnValue ++ 0xC2 :: cleanup

/-- The code of the stub in the KUSD page. -/
def syscallStubCode : List UInt8 := [0x89, 0xE2, 0x0F, 0x34, 0xC3]

/-- Write bytes from an address on. -/
def writeBytes (mem : GuestMem) (addr : UInt32) (bytes : List UInt8) : GuestMem :=
  fun x => bytes.getD (x - addr).toNat (mem x)

/-- The address the next stub gets. -/
def StubManager.nextVa (mgr : StubManager) : UInt32 := loaderStubRegionVa + mgr.stubAllocPtr

/-- There is space for another stub. -/
def StubManager.HasSpace (mgr : StubManager) : Prop :=
  mgr.stubAllocPtr + stubCodeSize ≤ loaderStubRegionSize

instance (mgr : StubManager) : Decidable mgr.HasSpace :=
  inferInstanceAs (Decidable (mgr.stubAllocPtr + stubCodeSize ≤ loaderStubRegionSize))

theorem StubManager.HasSpace.toNat {mgr : StubManager} (h : mgr.HasSpace) :
    (mgr.stubAllocPtr + stubCodeSize).toNat = mgr.stubAllocPtr.toNat + 16 ∧
      mgr.stubAllocPtr.toNat + 16 ≤ 65536 := by
  have hle := mgr.alloc_le
  have hsize : loaderStubRegionSize.toNat = 65536 := by decide
  have hcode : stubCodeSize.toNat = 16 := by decide
  have hsum := UInt32.le_iff_toNat_le.mp h
  rw [UInt32.toNat_add, hsize, hcode] at hsum
  rw [UInt32.toNat_add, hcode]
  omega

/-- `stubs_generate`, `stubs.c:92–176`; 0 is a failure. `registryOk` says whether there is memory
for the registry. What is written behind `stub_phys` is what the guest sees at `stub_va`. -/
def stubsGenerate (mgr : StubManager) (mem : GuestMem) (registryOk : Bool) (stub : StubDef) :
    StubManager × GuestMem × UInt32 :=
  if h : mgr.HasSpace then
    let mem := writeBytes mem mgr.nextVa (stubCode stub)
    let stubAllocPtr := mgr.stubAllocPtr + stubCodeSize
    have hle : stubAllocPtr.toNat ≤ 65536 := by
      have hnat : (mgr.stubAllocPtr + stubCodeSize).toNat ≤ 65536 := by
        have hspace := h.toNat
        omega
      exact hnat
    if registryOk then
      ({ stubAllocPtr := stubAllocPtr, registry := mgr.registry ++ [(stub.name, mgr.nextVa)]
         alloc_le := hle }, mem, mgr.nextVa)
    else ({ mgr with stubAllocPtr := stubAllocPtr, alloc_le := hle }, mem, 0)
  else (mgr, mem, 0)

/-- The registers and the memory of the guest. -/
structure GuestCpu where
  regs : Registers
  mem : GuestMem

/-- One instruction of a stub: MOV EAX, imm32; MOV EDX, ESP; SYSENTER; RET imm16; RET. The flag
says that it was SYSENTER, at whose callback the pc is that of the next instruction. -/
def stubStep (c : GuestCpu) : Option (GuestCpu × Bool) :=
  let pc := c.regs.eip
  let esp := c.regs.esp
  match c.mem pc with
  | 0xB8 =>
      some ({ c with regs := { c.regs with eax := readmemll c.mem (pc + 1), eip := pc + 5 } },
        false)
  | 0x89 =>
      if c.mem (pc + 1) = 0xE2 then
        some ({ c with regs := { c.regs with edx := esp, eip := pc + 2 } }, false)
      else none
  | 0x0F =>
      if c.mem (pc + 1) = 0x34 then
        some ({ c with regs := { c.regs with eip := pc + 2 } }, true)
      else none
  | 0xC2 =>
      let pops := (readmemwl c.mem (pc + 1)).toUInt32
      some ({ c with regs :=
        { c.regs with eip := readmemll c.mem esp, esp := esp + 4 + pops } }, false)
  | 0xC3 =>
      some ({ c with regs := { c.regs with eip := readmemll c.mem esp, esp := esp + 4 } }, false)
  | _ => none

/-- Run to the callback of SYSENTER, within a number of instructions. -/
def runToSysenter : Nat → GuestCpu → Option GuestCpu
  | 0, _ => none
  | n + 1, c =>
      match stubStep c with
      | none => none
      | some (c', true) => some c'
      | some (c', false) => runToSysenter n c'

/-- The memory holds bytes from an address on. -/
def BytesAt (mem : GuestMem) (addr : UInt32) (bytes : List UInt8) : Prop :=
  ∀ i b, bytes[i]? = some b → mem (addr + UInt32.ofNat i) = b

/-- The address is one at which a stub was generated. -/
def InStubRegion (va : UInt32) : Prop := ∃ mgr : StubManager, mgr.HasSpace ∧ va = mgr.nextVa

variable {mgr : StubManager} {mem : GuestMem} {c : GuestCpu} {stub : StubDef} {va : UInt32}

/-- A stub fits in the space it takes. -/
theorem stubCode_length (stub : StubDef) : (stubCode stub).length ≤ 16 := by
  unfold stubCode
  cases stub.type <;> simp [le32, le16]

/-- Bytes that were written are there. -/
theorem writeBytes_bytesAt {bytes : List UInt8} (hlen : bytes.length ≤ 2 ^ 32) :
    BytesAt (writeBytes mem va bytes) va bytes := by
  intro i b hb
  obtain ⟨hi, rfl⟩ := List.getElem?_eq_some_iff.mp hb
  have hoff : (va + UInt32.ofNat i - va).toNat = i := by
    rw [UInt32.add_comm, UInt32.add_sub_cancel]
    exact UInt32.toNat_ofNat_of_lt' (by simpa using Nat.lt_of_lt_of_le hi hlen)
  unfold writeBytes
  rw [hoff, List.getD_eq_getElem _ _ hi]

/-- Bytes elsewhere stay. -/
theorem writeBytes_of_le {bytes : List UInt8} {x : UInt32} (h : bytes.length ≤ (x - va).toNat) :
    writeBytes mem va bytes x = mem x := by
  unfold writeBytes
  rw [List.getD_eq_getElem?_getD, List.getElem?_eq_none h]
  rfl

/-- The region lies where `is_loader_stub_pc` looks for it. -/
theorem InStubRegion.toNat (h : InStubRegion va) :
    0x7F000000 ≤ va.toNat ∧ va.toNat + 16 ≤ 0x7F010000 := by
  obtain ⟨mgr, hspace, rfl⟩ := h
  have hnat := hspace.toNat
  have hbase : loaderStubRegionVa.toNat = 0x7F000000 := by decide
  unfold StubManager.nextVa
  rw [UInt32.toNat_add, hbase]
  omega

/-- A word of the code that was stored with `mem_writel_phys`. -/
theorem readmemll_le32 {v : UInt32} (h : BytesAt mem va (le32 v)) : readmemll mem va = v := by
  have h0 := h 0 _ rfl
  have h1 := h 1 _ rfl
  have h2 := h 2 _ rfl
  have h3 := h 3 _ rfl
  simp only [UInt32.reduceOfNat, UInt32.add_zero] at h0 h1 h2 h3
  unfold readmemll
  rw [h0, h1, h2, h3]
  exact word_of_bytes v

/-- Bytes from a place in the middle on. -/
theorem BytesAt.drop {bytes : List UInt8} (h : BytesAt mem va bytes) (n : Nat) :
    BytesAt mem (va + UInt32.ofNat n) (bytes.drop n) := by
  intro i b hb
  rw [List.getElem?_drop] at hb
  rw [UInt32.add_assoc, ← UInt32.ofNat_add]
  exact h (n + i) b hb

/-- The first bytes alone. -/
theorem BytesAt.take {bytes : List UInt8} (h : BytesAt mem va bytes) (n : Nat) :
    BytesAt mem va (bytes.take n) := by
  intro i b hb
  rw [List.getElem?_take] at hb
  split at hb
  · exact h i b hb
  · cases hb

/-- A loader stub gets to SYSENTER with its number in EAX and the caller's stack. -/
theorem run_stub (hcode : BytesAt c.mem va (stubCode stub)) (htype : stub.type = .syscall)
    (hpc : c.regs.eip = va) :
    runToSysenter 3 c = some { c with regs :=
      { c.regs with eax := stub.syscallNum, edx := c.regs.esp, eip := va + 9 } } := by
  unfold stubCode at hcode
  rw [htype] at hcode
  have hnum : readmemll c.mem (va + 1) = stub.syscallNum :=
    readmemll_le32 ((hcode.drop 1).take 4)
  have h0 : c.mem va = 0xB8 := by simpa using hcode 0 _ rfl
  have h5 : c.mem (va + 5) = 0x89 := hcode 5 _ rfl
  have h6 : c.mem (va + 6) = 0xE2 := hcode 6 _ rfl
  have h7 : c.mem (va + 7) = 0x0F := hcode 7 _ rfl
  have h8 : c.mem (va + 8) = 0x34 := hcode 8 _ rfl
  simp [runToSysenter, stubStep, hpc, h0, h5, h6, h7, h8, hnum, UInt32.add_assoc]

/-- The stub in the KUSD page gets to SYSENTER with the registers of its caller. -/
theorem run_syscallStub (hcode : BytesAt c.mem syscallStubVa syscallStubCode)
    (hpc : c.regs.eip = syscallStubVa) :
    runToSysenter 3 c = some { c with regs :=
      { c.regs with edx := c.regs.esp, eip := syscallStubVa + 4 } } := by
  have h0 : c.mem syscallStubVa = 0x89 := hcode 0 _ rfl
  have h1 : c.mem (syscallStubVa + 1) = 0xE2 := hcode 1 _ rfl
  have h2 : c.mem (syscallStubVa + 2) = 0x0F := hcode 2 _ rfl
  have h3 : c.mem (syscallStubVa + 3) = 0x34 := hcode 3 _ rfl
  simp [runToSysenter, stubStep, hpc, h0, h1, h2, h3, UInt32.add_assoc]

end Wbox.Loader
