import Wbox.Loader.Accesses
import Wbox.Loader.Placement

/-!
# What relocations change

`src/loader/loader.c:145–181` against the relocation table of the file: blocks of a page and its
entries, of which those of type HIGHLOW name words of the image. The loader reads the table through
`pe_rva_to_file_offset`, which looks at the headers first and then at the virtual sizes of the
sections, so that an RVA may lead elsewhere than to the raw data of the section it is in.
-/

namespace Wbox.Loader

open Wbox.Lib Wbox.Nt Wbox.Pe Wbox.Vm

/-- A block of a relocation table: its page and its entries. -/
structure RelocBlock where
  rva : UInt32
  entries : List UInt16

/-- The size of a block, with its header of 8 bytes. -/
def RelocBlock.size (b : RelocBlock) : Nat := 8 + 2 * b.entries.length

/-- The word that an entry of a block names. -/
def RelocBlock.target (b : RelocBlock) (entry : UInt16) : Option Nat :=
  if entry >>> 12 = imageRelBasedHighlow then some (b.rva.toNat + (entry &&& 0xFFF).toNat) else none

variable {buf : Nat → UInt8} {pe : PeImage} {imagePhys baseVa delta relocRva relocSize : UInt32}
  {mem mem' : PhysMem} {sec : PeSection} {b : RelocBlock} {blocks : List RelocBlock} {t : Nat}
  {targets : List Nat} {fuel fileSize : Nat} {offset : UInt32}

section Words

end Words

section Table

end Table

section Loads

variable {host : LoaderHost} {r : ImageVm} {heap : HostHeap} {path : List UInt8}
  {preferredBase : UInt32} {isMainExe : Bool}

end Loads

end Wbox.Loader
