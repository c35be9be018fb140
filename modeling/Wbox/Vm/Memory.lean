import Mathlib.Logic.Function.Basic

/-!
# Physical memory and paging

The byte array behind the guest (`src/cpu/mem.c:986–1022`) and the page walk that turns a
virtual into a physical address (`src/vm/paging.c:155–176`). Addresses wrap in 32 bits, and
an access is checked against `ram_size` only after its last byte has wrapped.
-/

namespace Wbox.Vm

/-- `ram` and `ram_size`. Bytes from `ram_size` on are host memory behind the array. -/
structure PhysMem where
  ram : Nat → UInt8
  ramSize : Nat

/-- `mem_readb_phys`, `src/cpu/mem.c:989–993`. -/
def memReadbPhys (m : PhysMem) (addr : UInt32) : UInt8 :=
  if addr.toNat < m.ramSize then m.ram addr.toNat else 0xff

/-- `mem_readw_phys`, `src/cpu/mem.c:995–999`. -/
def memReadwPhys (m : PhysMem) (addr : UInt32) : UInt16 :=
  if (addr + 1).toNat < m.ramSize then
    (m.ram addr.toNat).toUInt16 ||| (m.ram (addr.toNat + 1)).toUInt16 <<< 8
  else 0xffff

/-- `mem_readl_phys`, `src/cpu/mem.c:1001–1005`; the host is little-endian. -/
def memReadlPhys (m : PhysMem) (addr : UInt32) : UInt32 :=
  if (addr + 3).toNat < m.ramSize then
    (m.ram addr.toNat).toUInt32 ||| (m.ram (addr.toNat + 1)).toUInt32 <<< 8 |||
      (m.ram (addr.toNat + 2)).toUInt32 <<< 16 ||| (m.ram (addr.toNat + 3)).toUInt32 <<< 24
  else 0xffffffff

/-- `mem_writeb_phys`, `src/cpu/mem.c:1007–1010`. -/
def memWritebPhys (m : PhysMem) (addr : UInt32) (val : UInt8) : PhysMem :=
  if addr.toNat < m.ramSize then { m with ram := Function.update m.ram addr.toNat val } else m

/-- `mem_writew_phys`, `src/cpu/mem.c:1012–1015`. -/
def memWritewPhys (m : PhysMem) (addr : UInt32) (val : UInt16) : PhysMem :=
  if (addr + 1).toNat < m.ramSize then
    { m with
      ram := Function.update (Function.update m.ram addr.toNat val.toUInt8) (addr.toNat + 1)
        (val >>> 8).toUInt8 }
  else m

/-- The four bytes of a word stored at an index of the array. -/
def storeWord (ram : Nat → UInt8) (i : Nat) (val : UInt32) : Nat → UInt8 :=
  Function.update (Function.update (Function.update (Function.update ram
    i val.toUInt8) (i + 1) (val >>> 8).toUInt8) (i + 2) (val >>> 16).toUInt8)
    (i + 3) (val >>> 24).toUInt8

/-- `mem_writel_phys`, `src/cpu/mem.c:1017–1020`. -/
def memWritelPhys (m : PhysMem) (addr : UInt32) (val : UInt32) : PhysMem :=
  if (addr + 3).toNat < m.ramSize then { m with ram := storeWord m.ram addr.toNat val } else m

/-- `PTE_PRESENT`. -/
def ptePresent : UInt32 := 0x001

/-- `PAGE_MASK`. -/
def pageMask : UInt32 := 0xFFFFF000

/-- `paging_context_t`, `src/vm/paging.h:37–44`: the field a page walk reads. -/
structure PagingContext where
  pdPhys : UInt32
  deriving DecidableEq, Repr

/-- `paging_is_mapped`, `src/vm/paging.c:137–153`. -/
def pagingIsMapped (m : PhysMem) (ctx : PagingContext) (virt : UInt32) : Bool :=
  let virt := virt &&& pageMask
  let pde := memReadlPhys m (ctx.pdPhys + (virt >>> 22 &&& 0x3FF) * 4)
  if pde &&& ptePresent = 0 then false
  else memReadlPhys m ((pde &&& pageMask) + (virt >>> 12 &&& 0x3FF) * 4) &&& ptePresent ≠ 0

/-- `paging_get_phys`, `src/vm/paging.c:155–176`; 0 is an address that is not mapped. -/
def pagingGetPhys (m : PhysMem) (ctx : PagingContext) (virt : UInt32) : UInt32 :=
  let offset := virt &&& 0xFFF
  let virt := virt &&& pageMask
  let pde := memReadlPhys m (ctx.pdPhys + (virt >>> 22 &&& 0x3FF) * 4)
  if pde &&& ptePresent = 0 then 0
  else
    let pte := memReadlPhys m ((pde &&& pageMask) + (virt >>> 12 &&& 0x3FF) * 4)
    if pte &&& ptePresent = 0 then 0 else pte &&& pageMask ||| offset

end Wbox.Vm
