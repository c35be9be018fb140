import Wbox.Loader.Accesses
import Wbox.Pe.Bounds

/-!
# The file view and the memory view of an image

The imports, exports and relocations are read in the file through `pe_rva_to_ptr`
(`src/pe/pe_loader.c:261–307`), while the guest reads what the loop over the sections has copied
(`src/loader/loader.c:118–144`). The first takes a virtual size of 0 for the raw size, the second
does not, and address 0 has a pointer even if nothing is there.
-/

namespace Wbox.Loader

open Wbox.Lib Wbox.Pe Wbox.Vm

/-- `pe_rva_to_ptr`, `pe_loader.c:296–306`, as an offset in the file. -/
def peRvaToPtr (pe : PeImage) (fileSize : Nat) (rva : UInt32) : Option UInt32 :=
  if peRvaToFileOffset pe rva = 0 ∧ rva ≠ 0 then none
  else if fileSize ≤ (peRvaToFileOffset pe rva).toNat then none
  else some (peRvaToFileOffset pe rva)

/-- The size `pe_get_section_by_rva` takes for a section. -/
def extentOf (sec : PeSection) : UInt32 :=
  if sec.virtualSize = 0 then sec.rawSize else sec.virtualSize

/-- An address of a section. -/
def InSection (sec : PeSection) (rva : UInt32) : Prop :=
  sec.virtualAddress.toNat ≤ rva.toNat ∧
    rva.toNat < sec.virtualAddress.toNat + (extentOf sec).toNat

/-- The sections are apart from each other and from the headers, in the image and in the file. -/
structure SectionsPlaced (pe : PeImage) (fileSize : Nat) : Prop where
  apart : pe.sections.Pairwise fun sec sec' => ∀ rva, ¬ (InSection sec rva ∧ InSection sec' rva)
  headers : ∀ sec ∈ pe.sections, ∀ rva, InSection sec rva → pe.sizeOfHeaders ≤ rva
  image : ∀ sec ∈ pe.sections, extentOf sec ≠ 0 →
    sec.virtualAddress.toNat + (extentOf sec).toNat ≤ pe.sizeOfImage.toNat
  file : ∀ sec ∈ pe.sections, sec.rawSize ≠ 0 →
    sec.rawOffset.toNat + sec.rawSize.toNat ≤ fileSize

/-- What is read where a byte has been written: 0xff behind the end of memory. -/
def stored (mem : PhysMem) (addr : UInt32) (b : UInt8) : UInt8 :=
  if addr.toNat < mem.ramSize then b else 0xff

variable {buf src : Nat → UInt8} {pe : PeImage} {imagePhys dst : UInt32} {mem : PhysMem}
  {sec : PeSection} {fileSize : Nat}

section Copies

/-- The section is copied to an address. -/
def Covers (imagePhys : UInt32) (sec : PeSection) (y : UInt32) : Prop :=
  (y - (imagePhys + sec.virtualAddress)).toNat < sec.virtualSize.toNat

end Copies

section Lookup

variable {rva : UInt32} {other : PeSection}

/-- A section that has addresses ends in the image. -/
theorem SectionsPlaced.extent (h : SectionsPlaced pe fileSize) (hsec : sec ∈ pe.sections)
    (hin : InSection sec rva) :
    sec.virtualAddress.toNat + (extentOf sec).toNat ≤ pe.sizeOfImage.toNat := by
  apply h.image sec hsec
  intro hzero
  have hextent : (extentOf sec).toNat = 0 := by
    rw [hzero]
    rfl
  have hlo := hin.1
  have hhi := hin.2
  omega

/-- An address is in one section at most. -/
theorem SectionsPlaced.unique (h : SectionsPlaced pe fileSize) (hsec : sec ∈ pe.sections)
    (hother : other ∈ pe.sections) (hin : InSection sec rva) (hin' : InSection other rva) :
    other = sec := by
  by_contra hne
  have hsymm : Std.Symm fun sec sec' : PeSection =>
      ∀ rva, ¬ (InSection sec rva ∧ InSection sec' rva) :=
    ⟨fun _ _ hapart rva hboth => hapart rva hboth.symm⟩
  exact h.apart.forall hother hsec hne rva ⟨hin', hin⟩

end Lookup

section Agreement

end Agreement

section Example

variable {virtualSize : UInt32}

end Example

end Wbox.Loader
