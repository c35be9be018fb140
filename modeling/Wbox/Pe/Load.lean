import Wbox.Lib.Reads

/-!
# Parsing PE files

`pe_load` of `src/pe/pe_loader.c:131–246`: every read of the file's buffer is a read of the
model. What the host's heap holds behind the buffer is a parameter, as nothing in the code keeps
the reads off it.
-/

namespace Wbox.Pe

open Wbox.Lib

/-- `pe_section_t`, `src/pe/pe_loader.h:44–51`. -/
structure PeSection where
  name : List UInt8
  virtualSize : UInt32
  virtualAddress : UInt32
  rawSize : UInt32
  rawOffset : UInt32
  characteristics : UInt32
  deriving DecidableEq, Repr

/-- `pe_data_directory_t`. -/
structure PeDataDirectory where
  virtualAddress : UInt32
  size : UInt32
  deriving DecidableEq, Repr

/-- What `pe_load` takes from the optional header. -/
structure OptionalHeader where
  imageBase : UInt32
  entryPointRva : UInt32
  sizeOfImage : UInt32
  sizeOfHeaders : UInt32
  sectionAlignment : UInt32
  fileAlignment : UInt32
  subsystem : UInt16
  dllCharacteristics : UInt16
  sizeOfStackReserve : UInt32
  sizeOfStackCommit : UInt32
  sizeOfHeapReserve : UInt32
  sizeOfHeapCommit : UInt32
  deriving DecidableEq, Repr

/-- `pe_image_t`, `src/pe/pe_loader.h:60–91`, without the buffer. -/
structure PeImage extends OptionalHeader where
  sections : List PeSection
  dataDirs : List PeDataDirectory
  deriving DecidableEq, Repr

/-- The failures of `pe_load`, one for each message. -/
inductive PeError where
  | emptyFile
  | outOfMemory
  | tooSmallForDosHeader
  | invalidDosSignature
  | invalidPeOffset
  | invalidPeSignature
  | not32BitX86 (machine : UInt16)
  | optionalHeaderTooSmall
  | notPe32 (magic : UInt16)
  | noSections
  | outOfMemoryForSections
  deriving DecidableEq, Repr

/-- The little-endian value of some bytes. -/
def leValue : List UInt8 → Nat
  | [] => 0
  | b :: bs => b.toNat + 256 * leValue bs

/-- A read of the buffer of a file. -/
abbrev PeRead := Reading UInt8 PeError

/-- The 16-bit value at an offset. -/
def u16At (buf : Nat → UInt8) (offset : Nat) : UInt16 :=
  UInt16.ofNat (leValue ((List.range 2).map fun i => buf (offset + i)))

/-- The 32-bit value at an offset. -/
def u32At (buf : Nat → UInt8) (offset : Nat) : UInt32 :=
  UInt32.ofNat (leValue ((List.range 4).map fun i => buf (offset + i)))

/-- Read a `uint16_t`. -/
def readU16 (offset : Nat) : PeRead UInt16 := do
  let bytes ← Reading.read offset 2
  pure (UInt16.ofNat (leValue bytes))

/-- Read a `uint32_t`. -/
def readU32 (offset : Nat) : PeRead UInt32 := do
  let bytes ← Reading.read offset 4
  pure (UInt32.ofNat (leValue bytes))

/-- `IMAGE_DOS_SIGNATURE`. -/
def imageDosSignature : UInt16 := 0x5A4D
/-- `IMAGE_NT_SIGNATURE`. -/
def imageNtSignature : UInt32 := 0x00004550
/-- `IMAGE_FILE_MACHINE_I386`. -/
def imageFileMachineI386 : UInt16 := 0x014C
/-- `IMAGE_NT_OPTIONAL_HDR32_MAGIC`. -/
def imageNtOptionalHdr32Magic : UInt16 := 0x010B
/-- `IMAGE_NUMBEROF_DIRECTORY_ENTRIES`. -/
def imageNumberofDirectoryEntries : UInt32 := 16

/-- `sizeof(dos_header_t)`. -/
def dosHeaderSize : Nat := 64
/-- `sizeof(coff_header_t)`. -/
def coffHeaderSize : Nat := 20
/-- `sizeof(optional_header32_t)`. -/
def optionalHeader32Size : Nat := 96
/-- `sizeof(section_header_t)`. -/
def sectionHeaderSize : Nat := 40

/-- The fields of the optional header at `opt`, `pe_loader.c:186–197`. -/
def readOptionalHeader (opt : Nat) : PeRead OptionalHeader := do
  let imageBase ← readU32 (opt + 28)
  let entryPointRva ← readU32 (opt + 16)
  let sizeOfImage ← readU32 (opt + 56)
  let sizeOfHeaders ← readU32 (opt + 60)
  let sectionAlignment ← readU32 (opt + 32)
  let fileAlignment ← readU32 (opt + 36)
  let subsystem ← readU16 (opt + 68)
  let dllCharacteristics ← readU16 (opt + 70)
  let sizeOfStackReserve ← readU32 (opt + 72)
  let sizeOfStackCommit ← readU32 (opt + 76)
  let sizeOfHeapReserve ← readU32 (opt + 80)
  let sizeOfHeapCommit ← readU32 (opt + 84)
  pure
    { imageBase, entryPointRva, sizeOfImage, sizeOfHeaders, sectionAlignment, fileAlignment,
      subsystem, dllCharacteristics, sizeOfStackReserve, sizeOfStackCommit, sizeOfHeapReserve,
      sizeOfHeapCommit }

/-- One data directory, `pe_loader.c:206–209`. -/
def readDataDir (dirPtr i : Nat) : PeRead PeDataDirectory := do
  let virtualAddress ← readU32 (dirPtr + i * 8)
  let size ← readU32 (dirPtr + i * 8 + 4)
  pure { virtualAddress, size }

/-- One section header, `pe_loader.c:225–237`. -/
def readSection (sectionPtr i : Nat) : PeRead PeSection := do
  let sh := sectionPtr + i * sectionHeaderSize
  let name ← Reading.read sh 8
  let virtualSize ← readU32 (sh + 8)
  let virtualAddress ← readU32 (sh + 12)
  let rawSize ← readU32 (sh + 16)
  let rawOffset ← readU32 (sh + 20)
  let characteristics ← readU32 (sh + 36)
  pure { name, virtualSize, virtualAddress, rawSize, rawOffset, characteristics }

/-- The optional header at `opt`, the data directories and the sections,
`pe_loader.c:179–239`. `sectionsOk` says whether `calloc` succeeds. -/
def readHeaders (sectionsOk : Bool) (coff opt : Nat) (sizeOfOptionalHeader : UInt16) :
    PeRead PeImage := do
  let magic ← readU16 opt
  if magic ≠ imageNtOptionalHdr32Magic then Reading.throw (.notPe32 magic)
  else
    let header ← readOptionalHeader opt
    let numDirs ← readU32 (opt + 92)
    let numDirs := min numDirs imageNumberofDirectoryEntries
    let dataDirs ← (List.range numDirs.toNat).mapM (readDataDir (opt + optionalHeader32Size))
    let numSections ← readU16 (coff + 2)
    if numSections = 0 then Reading.throw .noSections
    else if sectionsOk = false then Reading.throw .outOfMemoryForSections
    else
      let sections ← (List.range numSections.toNat).mapM
        (readSection (opt + sizeOfOptionalHeader.toNat))
      pure
        { header with
          sections
          dataDirs := dataDirs ++ List.replicate (16 - numDirs.toNat) ⟨0, 0⟩ }

/-- Whether the allocations of `pe_load` succeed. -/
structure PeAllocs where
  file : Bool
  sections : Bool

/-- The body of `pe_load` over the buffer of a file of `size` bytes, `pe_loader.c:140–240`. -/
def parse (allocs : PeAllocs) (size : Nat) : PeRead PeImage := do
  if size < dosHeaderSize then Reading.throw .tooSmallForDosHeader
  else
    let magic ← readU16 0
    if magic ≠ imageDosSignature then Reading.throw .invalidDosSignature
    else
      let peOffset ← readU32 60
      if peOffset.toNat + 4 + coffHeaderSize > size then Reading.throw .invalidPeOffset
      else
        let peSig ← readU32 peOffset.toNat
        if peSig ≠ imageNtSignature then Reading.throw .invalidPeSignature
        else
          let coff := peOffset.toNat + 4
          let machine ← readU16 coff
          if machine ≠ imageFileMachineI386 then Reading.throw (.not32BitX86 machine)
          else
            let sizeOfOptionalHeader ← readU16 (coff + 16)
            if sizeOfOptionalHeader.toNat < optionalHeader32Size then
              Reading.throw .optionalHeaderTooSmall
            else readHeaders allocs.sections coff (coff + coffHeaderSize) sizeOfOptionalHeader

/-- The buffer of a file, and the heap behind it. -/
def fileBuffer (file : List UInt8) (heap : Nat → UInt8) (i : Nat) : UInt8 :=
  if h : i < file.length then file[i] else heap i

/-- `pe_load`, `src/pe/pe_loader.c:131–246`: `read_file` refuses an empty file. -/
def peLoad (allocs : PeAllocs) (file : List UInt8) : PeRead PeImage :=
  if file.length = 0 then Reading.throw .emptyFile
  else if allocs.file = false then Reading.throw .outOfMemory
  else parse allocs file.length

end Wbox.Pe
