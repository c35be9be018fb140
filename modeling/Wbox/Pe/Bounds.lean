import Wbox.Pe.Load

/-!
# Where `pe_load` reads

Only the DOS and COFF headers are checked against the size of the file. The condition under
which the other reads stay inside it, in terms of the offsets and counts the headers contain.
-/

namespace Wbox.Pe

open Wbox.Lib Reading

variable {buf : Nat → UInt8} {size : Nat} {α : Type}

@[simp] theorem yields_readU16 (offset : Nat) :
    (readU16 offset).Yields buf (u16At buf offset) := rfl

@[simp] theorem yields_readU32 (offset : Nat) :
    (readU32 offset).Yields buf (u32At buf offset) := rfl

theorem inBounds_readU16 (offset : Nat) :
    (readU16 offset).InBounds buf size ↔ offset + 2 ≤ size := by
  rw [readU16, inBounds_bind (yields_read offset 2)]
  simp

theorem inBounds_readU32 (offset : Nat) :
    (readU32 offset).InBounds buf size ↔ offset + 4 ≤ size := by
  rw [readU32, inBounds_bind (yields_read offset 4)]
  simp

/-- A 16-bit read, then the rest with its value. -/
theorem inBounds_bindU16 {offset : Nat} {f : UInt16 → PeRead α} :
    (readU16 offset >>= f).InBounds buf size ↔
      offset + 2 ≤ size ∧ (f (u16At buf offset)).InBounds buf size := by
  rw [inBounds_bind (yields_readU16 offset), inBounds_readU16]

/-- A 32-bit read, then the rest with its value. -/
theorem inBounds_bindU32 {offset : Nat} {f : UInt32 → PeRead α} :
    (readU32 offset >>= f).InBounds buf size ↔
      offset + 4 ≤ size ∧ (f (u32At buf offset)).InBounds buf size := by
  rw [inBounds_bind (yields_readU32 offset), inBounds_readU32]

/-- The optional header at an offset. -/
def optionalHeaderAt (buf : Nat → UInt8) (opt : Nat) : OptionalHeader where
  imageBase := u32At buf (opt + 28)
  entryPointRva := u32At buf (opt + 16)
  sizeOfImage := u32At buf (opt + 56)
  sizeOfHeaders := u32At buf (opt + 60)
  sectionAlignment := u32At buf (opt + 32)
  fileAlignment := u32At buf (opt + 36)
  subsystem := u16At buf (opt + 68)
  dllCharacteristics := u16At buf (opt + 70)
  sizeOfStackReserve := u32At buf (opt + 72)
  sizeOfStackCommit := u32At buf (opt + 76)
  sizeOfHeapReserve := u32At buf (opt + 80)
  sizeOfHeapCommit := u32At buf (opt + 84)

/-- The data directory at an index. -/
def dataDirAt (buf : Nat → UInt8) (dirPtr i : Nat) : PeDataDirectory where
  virtualAddress := u32At buf (dirPtr + i * 8)
  size := u32At buf (dirPtr + i * 8 + 4)

/-- The section header at an index. -/
def sectionAt (buf : Nat → UInt8) (sectionPtr i : Nat) : PeSection where
  name := (List.range 8).map fun k => buf (sectionPtr + i * sectionHeaderSize + k)
  virtualSize := u32At buf (sectionPtr + i * sectionHeaderSize + 8)
  virtualAddress := u32At buf (sectionPtr + i * sectionHeaderSize + 12)
  rawSize := u32At buf (sectionPtr + i * sectionHeaderSize + 16)
  rawOffset := u32At buf (sectionPtr + i * sectionHeaderSize + 20)
  characteristics := u32At buf (sectionPtr + i * sectionHeaderSize + 36)

theorem yields_readOptionalHeader (opt : Nat) :
    (readOptionalHeader opt).Yields buf (optionalHeaderAt buf opt) := rfl

theorem yields_readDataDir (dirPtr i : Nat) :
    (readDataDir dirPtr i).Yields buf (dataDirAt buf dirPtr i) := rfl

theorem yields_readSection (sectionPtr i : Nat) :
    (readSection sectionPtr i).Yields buf (sectionAt buf sectionPtr i) := rfl

/-- The last field read ends at byte 88. -/
theorem inBounds_readOptionalHeader (opt : Nat) :
    (readOptionalHeader opt).InBounds buf size ↔ opt + 88 ≤ size := by
  simp only [readOptionalHeader, inBounds_bindU16, inBounds_bindU32, inBounds_pure, and_true]
  omega

theorem inBounds_readDataDir (dirPtr i : Nat) :
    (readDataDir dirPtr i).InBounds buf size ↔ dirPtr + i * 8 + 8 ≤ size := by
  simp only [readDataDir, inBounds_bindU32, inBounds_pure, and_true]
  omega

theorem inBounds_readSection (sectionPtr i : Nat) :
    (readSection sectionPtr i).InBounds buf size ↔
      sectionPtr + (i + 1) * sectionHeaderSize ≤ size := by
  simp only [readSection, inBounds_bind (yields_read _ _), inBounds_read, inBounds_bindU32,
    inBounds_pure, and_true, sectionHeaderSize]
  omega

/-- A table of `n` entries of `width` bytes is read up to its end. -/
theorem inBounds_table {f : Nat → PeRead α} {v : Nat → α} {start width : Nat}
    (hv : ∀ i, (f i).Yields buf (v i))
    (hf : ∀ i, (f i).InBounds buf size ↔ start + (i + 1) * width ≤ size) (n : Nat) :
    ((List.range n).mapM f).InBounds buf size ↔ n = 0 ∨ start + n * width ≤ size := by
  rw [inBounds_mapM hv]
  simp only [hf, List.mem_range]
  constructor
  · intro h
    cases n with
    | zero => exact Or.inl rfl
    | succ n => exact Or.inr (h n (Nat.lt_succ_self n))
  · rintro (rfl | hend) i hi
    · exact absurd hi (Nat.not_lt_zero i)
    · have hmul : (i + 1) * width ≤ n * width := Nat.mul_le_mul_right width hi
      omega

/-- The offset of the COFF header, after the signature. -/
def coffAt (buf : Nat → UInt8) : Nat := (u32At buf 60).toNat + 4

/-- The offset of the optional header. -/
def optAt (buf : Nat → UInt8) : Nat := coffAt buf + coffHeaderSize

/-- `SizeOfOptionalHeader` of the COFF header. -/
def sizeOfOptionalHeaderAt (buf : Nat → UInt8) : UInt16 := u16At buf (coffAt buf + 16)

/-- A file that passes every check made before the optional header. -/
structure PassesCoff (buf : Nat → UInt8) (size : Nat) : Prop where
  dosFits : dosHeaderSize ≤ size
  dosSignature : u16At buf 0 = imageDosSignature
  coffFits : optAt buf ≤ size
  peSignature : u32At buf (u32At buf 60).toNat = imageNtSignature
  machine : u16At buf (coffAt buf) = imageFileMachineI386
  optionalHeader : optionalHeader32Size ≤ (sizeOfOptionalHeaderAt buf).toNat

/-- The file has the two bytes of the optional header's magic number; for PE32, the whole optional
header with the directories it announces; and the section headers, if there is memory for them. -/
structure HeadersFit (sectionsOk : Bool) (buf : Nat → UInt8) (size : Nat) : Prop where
  magic : optAt buf + 2 ≤ size
  directories : u16At buf (optAt buf) = imageNtOptionalHdr32Magic →
    optAt buf + optionalHeader32Size +
      (min (u32At buf (optAt buf + 92)) imageNumberofDirectoryEntries).toNat * 8 ≤ size
  sections : u16At buf (optAt buf) = imageNtOptionalHdr32Magic →
    u16At buf (coffAt buf + 2) ≠ 0 → sectionsOk = true →
      optAt buf + (sizeOfOptionalHeaderAt buf).toNat +
        (u16At buf (coffAt buf + 2)).toNat * sectionHeaderSize ≤ size

/-- Reading the data directories. -/
theorem inBounds_dataDirs {dirPtr n : Nat} :
    ((List.range n).mapM (readDataDir dirPtr)).InBounds buf size ↔
      n = 0 ∨ dirPtr + n * 8 ≤ size := by
  apply inBounds_table (yields_readDataDir dirPtr)
  intro i
  rw [inBounds_readDataDir]
  omega

/-- Reading the section headers. -/
theorem inBounds_sections {sectionPtr n : Nat} :
    ((List.range n).mapM (readSection sectionPtr)).InBounds buf size ↔
      n = 0 ∨ sectionPtr + n * sectionHeaderSize ≤ size :=
  inBounds_table (yields_readSection sectionPtr) (inBounds_readSection sectionPtr) n

/-- From the optional header on, the reads stay in the file if the headers fit. -/
theorem inBounds_readHeaders {sectionsOk : Bool} (hcoff : optAt buf ≤ size) :
    (readHeaders sectionsOk (coffAt buf) (optAt buf) (sizeOfOptionalHeaderAt buf)).InBounds
      buf size ↔ HeadersFit sectionsOk buf size := by
  have hcount : coffAt buf + 2 + 2 ≤ size := by
    unfold optAt coffHeaderSize at hcoff
    omega
  have hreads : (readHeaders sectionsOk (coffAt buf) (optAt buf)
      (sizeOfOptionalHeaderAt buf)).InBounds buf size ↔
      optAt buf + 2 ≤ size ∧ (u16At buf (optAt buf) = imageNtOptionalHdr32Magic →
        optAt buf + 88 ≤ size ∧ optAt buf + 92 + 4 ≤ size ∧
        ((min (u32At buf (optAt buf + 92)) imageNumberofDirectoryEntries).toNat = 0 ∨
          optAt buf + optionalHeader32Size +
            (min (u32At buf (optAt buf + 92)) imageNumberofDirectoryEntries).toNat * 8 ≤ size) ∧
        coffAt buf + 2 + 2 ≤ size ∧ (¬ u16At buf (coffAt buf + 2) = 0 → ¬ sectionsOk = false →
          ((u16At buf (coffAt buf + 2)).toNat = 0 ∨
            optAt buf + (sizeOfOptionalHeaderAt buf).toNat +
              (u16At buf (coffAt buf + 2)).toNat * sectionHeaderSize ≤ size))) := by
    simp only [readHeaders, inBounds_bindU16, inBounds_check, not_not, ne_eq,
      inBounds_bind (yields_readOptionalHeader _), inBounds_readOptionalHeader, inBounds_bindU32,
      inBounds_bind (yields_mapM (yields_readDataDir _) _), inBounds_dataDirs,
      inBounds_bind (yields_mapM (yields_readSection _) _), inBounds_sections, inBounds_pure,
      and_true]
  rw [hreads]
  constructor
  · rintro ⟨hmagic, hbody⟩
    refine ⟨hmagic, ?_, ?_⟩
    · intro hpe
      obtain ⟨-, hcounts, hdirs, -⟩ := hbody hpe
      unfold optionalHeader32Size at hdirs ⊢
      omega
    · intro hpe hsome hok
      obtain ⟨-, -, -, -, hsections⟩ := hbody hpe
      have hne : (u16At buf (coffAt buf + 2)).toNat ≠ 0 := by
        intro hzero
        exact hsome (UInt16.toNat_inj.mp hzero)
      exact (hsections hsome (by simp [hok])).resolve_left hne
  · rintro ⟨hmagic, hdirs, hsections⟩
    refine ⟨hmagic, ?_⟩
    intro hpe
    have hend := hdirs hpe
    unfold optionalHeader32Size at hend
    refine ⟨by omega, by omega, Or.inr (hdirs hpe), hcount, ?_⟩
    intro hsome hok
    exact Or.inr (hsections hpe hsome (by simpa using hok))

/-- The checks before the optional header cover the reads made for them. -/
theorem inBounds_parse (allocs : PeAllocs) :
    (parse allocs size).InBounds buf size ↔
      (PassesCoff buf size → HeadersFit allocs.sections buf size) := by
  simp only [parse, inBounds_check, inBounds_bindU16, inBounds_bindU32, Nat.not_lt, ne_eq, not_not,
    gt_iff_lt]
  constructor
  · intro hin hpass
    have hcoff := hpass.coffFits
    unfold optAt coffAt at hcoff
    obtain ⟨-, hdos⟩ := hin hpass.dosFits
    obtain ⟨-, hsig⟩ := hdos hpass.dosSignature
    obtain ⟨-, hmachine⟩ := hsig hcoff
    obtain ⟨-, hopt⟩ := hmachine hpass.peSignature
    obtain ⟨-, hheaders⟩ := hopt hpass.machine
    exact (inBounds_readHeaders hpass.coffFits).mp (hheaders hpass.optionalHeader)
  · intro hfit hsize
    unfold dosHeaderSize at hsize
    refine ⟨by omega, fun hdos => ⟨by omega, fun hcoff => ?_⟩⟩
    have hend : optAt buf ≤ size := hcoff
    unfold coffHeaderSize at hcoff
    refine ⟨by omega, fun hsig => ⟨by omega, fun hmachine => ⟨by omega, fun hopt => ?_⟩⟩⟩
    exact (inBounds_readHeaders hend).mpr (hfit ⟨hsize, hdos, hend, hsig, hmachine, hopt⟩)

/-- For every file, whatever the heap holds behind its buffer: all reads of `pe_load` end inside
the file exactly if, once the checks before the optional header pass, its headers fit. -/
theorem peLoad_inBounds_iff (allocs : PeAllocs) (file : List UInt8) (heap : Nat → UInt8) :
    (peLoad allocs file).InBounds (fileBuffer file heap) file.length ↔
      (allocs.file = true → PassesCoff (fileBuffer file heap) file.length →
        HeadersFit allocs.sections (fileBuffer file heap) file.length) := by
  rw [peLoad, inBounds_check, inBounds_check, inBounds_parse, Bool.not_eq_false]
  constructor
  · intro h halloc hpass
    have hsize : file.length ≠ 0 := by
      have hdos := hpass.dosFits
      unfold dosHeaderSize at hdos
      omega
    exact h hsize halloc hpass
  · intro h _
    exact h

/-- A DOS header, the PE signature and a COFF header, with which the file ends. -/
def truncatedFile : List UInt8 :=
  [0x4D, 0x5A] ++ List.replicate 58 0 ++ [64, 0, 0, 0] ++ [0x50, 0x45, 0, 0] ++
    [0x4C, 0x01, 1, 0] ++ List.replicate 12 0 ++ [224, 0, 2, 1]

/-- `pe_load` reads the magic number of the optional header behind its end. -/
theorem peLoad_truncated :
    ¬ (peLoad ⟨true, true⟩ truncatedFile).InBounds (fileBuffer truncatedFile fun _ => 0)
      truncatedFile.length := by
  intro h
  have hread : (⟨88, 2⟩ : Access) ∈
      (peLoad ⟨true, true⟩ truncatedFile (fileBuffer truncatedFile fun _ => 0)).1 := by
    decide +kernel
  exact absurd (h ⟨88, 2⟩ hread) (by decide)

end Wbox.Pe
