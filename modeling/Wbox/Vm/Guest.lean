import Mathlib.Logic.Function.Basic

/-!
# Guest memory as the guest sees it

The accesses by virtual address of `src/cpu/mem.h:150–158`, for pages that are present:
bytes by address, words in little-endian order, addresses wrapping in 32 bits.
-/

namespace Wbox.Vm

/-- The bytes of the guest's address space. -/
abbrev GuestMem := UInt32 → UInt8

/-- `readmembl`. -/
def readmembl (m : GuestMem) (addr : UInt32) : UInt8 := m addr

/-- `readmemwl`. -/
def readmemwl (m : GuestMem) (addr : UInt32) : UInt16 :=
  (m addr).toUInt16 ||| (m (addr + 1)).toUInt16 <<< 8

/-- `readmemll`. -/
def readmemll (m : GuestMem) (addr : UInt32) : UInt32 :=
  (m addr).toUInt32 ||| (m (addr + 1)).toUInt32 <<< 8 ||| (m (addr + 2)).toUInt32 <<< 16 |||
    (m (addr + 3)).toUInt32 <<< 24

/-- `writememwl`. -/
def writememwl (m : GuestMem) (addr : UInt32) (val : UInt16) : GuestMem :=
  Function.update (Function.update m addr val.toUInt8) (addr + 1) (val >>> 8).toUInt8

/-- `writememll`. -/
def writememll (m : GuestMem) (addr val : UInt32) : GuestMem :=
  Function.update (Function.update (Function.update (Function.update m addr val.toUInt8)
    (addr + 1) (val >>> 8).toUInt8) (addr + 2) (val >>> 16).toUInt8) (addr + 3)
    (val >>> 24).toUInt8

end Wbox.Vm
