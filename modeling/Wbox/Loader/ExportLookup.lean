import Wbox.Loader.Exports

/-!
# Lookups against the export directory

What `exports_parse` and the two lookups (`src/loader/exports.c:21–160`) make of a well-formed
export directory. The three tables of the file become one array with an entry for each function,
and an entry has room for one name.
-/

namespace Wbox.Loader

open Wbox.Lib Wbox.Pe

/-- The data directory of the exports. -/
def exportDir (pe : PeImage) : PeDataDirectory := pe.dataDirs.getD imageDirectoryEntryExport ⟨0, 0⟩

/-- A well-formed export directory: the offsets of its header and of its tables, which are inside
the file, at most 65536 functions, and a function and a string for every name. -/
structure ExportDirectory (buf : Nat → UInt8) (pe : PeImage) (fileSize : Nat) where
  header : UInt32
  functions : UInt32
  namePtrs : UInt32
  ordinals : UInt32
  present : (exportDir pe).virtualAddress ≠ 0
  headerAt : peRvaToPtr pe fileSize (exportDir pe).virtualAddress = some header
  headerFits : header.toNat + 40 ≤ fileSize
  inside : ∀ k < (exportDir pe).size.toNat,
    (exportDir pe).virtualAddress.toNat + k < 2 ^ 32 ∧
      (peRvaToPtr pe fileSize ((exportDir pe).virtualAddress + UInt32.ofNat k)).isSome
  count : (u32At buf (header.toNat + 20)).toNat ≤ 65536
  functionsAt : (u32At buf (header.toNat + 20)).toNat ≠ 0 →
    peRvaToPtr pe fileSize (u32At buf (header.toNat + 28)) = some functions ∧
      functions.toNat + 4 * (u32At buf (header.toNat + 20)).toNat ≤ fileSize
  namesAt : (u32At buf (header.toNat + 24)).toNat ≠ 0 →
    u32At buf (header.toNat + 32) ≠ 0 ∧
      peRvaToPtr pe fileSize (u32At buf (header.toNat + 32)) = some namePtrs ∧
      namePtrs.toNat + 4 * (u32At buf (header.toNat + 24)).toNat ≤ fileSize
  ordinalsAt : (u32At buf (header.toNat + 24)).toNat ≠ 0 →
    u32At buf (header.toNat + 36) ≠ 0 ∧
      peRvaToPtr pe fileSize (u32At buf (header.toNat + 36)) = some ordinals ∧
      ordinals.toNat + 2 * (u32At buf (header.toNat + 24)).toNat ≤ fileSize
  inStep : ∀ i < (u32At buf (header.toNat + 24)).toNat,
    (u16At buf (ordinals.toNat + 2 * i)).toNat < (u32At buf (header.toNat + 20)).toNat
  strings : ∀ i < (u32At buf (header.toNat + 24)).toNat,
    (stringAt buf pe fileSize (u32At buf (namePtrs.toNat + 4 * i))).isSome

namespace ExportDirectory

variable {buf : Nat → UInt8} {pe : PeImage} {fileSize : Nat}

/-- `Base`. -/
def base (d : ExportDirectory buf pe fileSize) : UInt32 := u32At buf (d.header.toNat + 16)

/-- `NumberOfFunctions`. -/
def numFunctions (d : ExportDirectory buf pe fileSize) : Nat :=
  (u32At buf (d.header.toNat + 20)).toNat

/-- `NumberOfNames`. -/
def numNames (d : ExportDirectory buf pe fileSize) : Nat :=
  (u32At buf (d.header.toNat + 24)).toNat

/-- `EAT[i]`. -/
def eat (d : ExportDirectory buf pe fileSize) (i : Nat) : UInt32 :=
  u32At buf (d.functions.toNat + 4 * i)

/-- The string of the name pointer at an index. -/
def name (d : ExportDirectory buf pe fileSize) (i : Nat) : List UInt8 :=
  (stringAt buf pe fileSize (u32At buf (d.namePtrs.toNat + 4 * i))).getD []

/-- `ordinals[i]`, the index of the function that has the name. -/
def ordinal (d : ExportDirectory buf pe fileSize) (i : Nat) : Nat :=
  (u16At buf (d.ordinals.toNat + 2 * i)).toNat

/-- What the module has of it, if there is memory. -/
def table (_ : ExportDirectory buf pe fileSize) : ExportTable := exportsParse true buf pe fileSize

/-- The lookups return what the directory says, and the forwarders are the addresses in it. -/
structure LookupsAgree (d : ExportDirectory buf pe fileSize) : Prop where
  byName : ∀ i < d.numNames, ∃ entry,
    exportsLookupByName d.table (d.name i) = some entry ∧ entry.rva = d.eat (d.ordinal i)
  byOrdinal : ∀ ordinal : UInt16, d.base.toNat ≤ ordinal.toNat →
    ordinal.toNat - d.base.toNat < d.numFunctions → d.eat (ordinal.toNat - d.base.toNat) ≠ 0 →
    ∃ entry, exportsLookupByOrdinal d.table ordinal = some entry ∧
      entry.rva = d.eat (ordinal.toNat - d.base.toNat)
  forwarders : ∀ entry ∈ d.table.entries, entry.forwarder.isSome ↔
    (exportDir pe).virtualAddress.toNat ≤ entry.rva.toNat ∧
      entry.rva.toNat < (exportDir pe).virtualAddress.toNat + (exportDir pe).size.toNat

/-- No later name is that of the same function. -/
def KeepsName (d : ExportDirectory buf pe fileSize) (j : Nat) : Prop :=
  ∀ k, j < k → k < d.numNames → d.ordinal k ≠ d.ordinal j

/-- Every name is the last one of some function, and the first function of which it is has the
address that the name's own function has. -/
def NamesKept (d : ExportDirectory buf pe fileSize) : Prop :=
  ∀ i < d.numNames, ∃ j < d.numNames, d.KeepsName j ∧ d.name j = d.name i ∧
    d.eat (d.ordinal j) = d.eat (d.ordinal i) ∧
    ∀ k < d.numNames, d.KeepsName k → d.name k = d.name i → d.ordinal j ≤ d.ordinal k

variable (d : ExportDirectory buf pe fileSize)

section Parse

/-- The last of the first `n` names of a function. -/
def lastName : Nat → Nat → Option (List UInt8)
  | 0, _ => none
  | n + 1, idx => if d.ordinal n = idx then some (d.name n) else lastName n idx

/-- The entry of a function after the first `n` names. -/
def entryAfter (n idx : Nat) : ExportEntry :=
  { exportEntry buf pe fileSize (exportDir pe) d.base d.functions idx with
    name := d.lastName n idx }

variable {d}

/-- A name replaces what its function had. -/
theorem nameEntry_entries {n : Nat} (hn : n < d.numNames) :
    nameEntry buf pe fileSize d.namePtrs d.ordinals
      ((List.range d.numFunctions).map (d.entryAfter n)) n =
        (List.range d.numFunctions).map (d.entryAfter (n + 1)) := by
  obtain ⟨name, hname⟩ := Option.isSome_iff_exists.mp (d.strings n hn)
  have hget : d.name n = name := by rw [ExportDirectory.name, hname]; rfl
  unfold nameEntry
  rw [hname]
  apply List.ext_getElem?
  intro idx
  rw [List.getElem?_modify, List.getElem?_map, List.getElem?_map]
  by_cases hidx : idx < d.numFunctions
  · rw [List.getElem?_range hidx]
    by_cases hord : (u16At buf (d.ordinals.toNat + 2 * n)).toNat = idx
    · have hmine : d.ordinal n = idx := hord
      simp [hord, entryAfter, lastName, hmine, hget]
    · have hother : d.ordinal n ≠ idx := hord
      simp [hord, entryAfter, lastName, hother]
  · rw [List.getElem?_eq_none (by rw [List.length_range]; omega)]
    simp

/-- The loop over the names. -/
theorem foldl_nameEntry {n : Nat} (hn : n ≤ d.numNames) :
    (List.range n).foldl (nameEntry buf pe fileSize d.namePtrs d.ordinals)
      ((List.range d.numFunctions).map (d.entryAfter 0)) =
        (List.range d.numFunctions).map (d.entryAfter n) := by
  induction n with
  | zero => rfl
  | succ n ih =>
    rw [List.range_succ, List.foldl_append, ih (by omega)]
    exact nameEntry_entries hn

/-- What `exports_parse` makes of the directory. -/
theorem table_eq (d : ExportDirectory buf pe fileSize) :
    d.table = ⟨d.base, (List.range d.numFunctions).map (d.entryAfter d.numNames)⟩ := by
  have hdir : pe.dataDirs.getD imageDirectoryEntryExport ⟨0, 0⟩ = exportDir pe := rfl
  unfold table exportsParse
  simp only [hdir, if_neg d.present, d.headerAt]
  by_cases hnone : d.numFunctions = 0
  · have hzero : u32At buf (d.header.toNat + 20) = 0 := UInt32.toNat_inj.mp hnone
    rw [if_pos (Or.inl hzero), hnone]
    rfl
  · have hsome : ¬ (u32At buf (d.header.toNat + 20) = 0 ∨ true = false) := by
      rintro (hzero | hno)
      · exact hnone (by rw [numFunctions, hzero]; rfl)
      · cases hno
    rw [if_neg hsome, (d.functionsAt hnone).1]
    dsimp only
    by_cases hnames : d.numNames = 0
    · have hzero : (u32At buf (d.header.toNat + 24)).toNat = 0 := hnames
      rw [hzero, hnames]
      split
      · rfl
      · rfl
    · obtain ⟨hname, hnamePtrs, -⟩ := d.namesAt hnames
      obtain ⟨hord, hordinals, -⟩ := d.ordinalsAt hnames
      rw [if_neg hname, if_neg hord, hnamePtrs, hordinals]
      exact congrArg (ExportTable.mk d.base) (foldl_nameEntry (Nat.le_refl d.numNames))

end Parse

section Names

variable {d}

/-- The last of the first `n` names of a function is one that no later name replaces. -/
theorem lastName_eq_some {n idx : Nat} {name : List UInt8} :
    d.lastName n idx = some name ↔ ∃ j < n, d.ordinal j = idx ∧ d.name j = name ∧
      ∀ k, j < k → k < n → d.ordinal k ≠ idx := by
  induction n with
  | zero => simp [lastName]
  | succ n ih =>
    unfold lastName
    by_cases hord : d.ordinal n = idx
    · rw [if_pos hord]
      constructor
      · intro h
        exact ⟨n, Nat.lt_succ_self n, hord, Option.some.inj h, fun k hlt hk => by omega⟩
      · rintro ⟨j, hj, -, hname, hlast⟩
        by_cases hjn : j = n
        · rw [← hjn, hname]
        · exact absurd hord (hlast n (by omega) (Nat.lt_succ_self n))
    · rw [if_neg hord, ih]
      constructor
      · rintro ⟨j, hj, hidx, hname, hlast⟩
        refine ⟨j, by omega, hidx, hname, ?_⟩
        intro k hlt hk
        by_cases hkn : k = n
        · exact hkn ▸ hord
        · exact hlast k hlt (by omega)
      · rintro ⟨j, hj, hidx, hname, hlast⟩
        have hjn : j ≠ n := by
          rintro rfl
          exact hord hidx
        exact ⟨j, by omega, hidx, hname, fun k hlt hk => hlast k hlt (by omega)⟩

/-- A function keeps a name exactly if it is its last one. -/
theorem lastName_iff {idx : Nat} {name : List UInt8} :
    d.lastName d.numNames idx = some name ↔
      ∃ j < d.numNames, d.KeepsName j ∧ d.name j = name ∧ d.ordinal j = idx := by
  rw [lastName_eq_some]
  constructor
  · rintro ⟨j, hj, rfl, hname, hlast⟩
    exact ⟨j, hj, hlast, hname, rfl⟩
  · rintro ⟨j, hj, hkeeps, hname, rfl⟩
    exact ⟨j, hj, rfl, hname, hkeeps⟩

/-- The lookup by name finds the first function whose last name it is. -/
theorem lookupByName_iff {name : List UInt8} {entry : ExportEntry} :
    exportsLookupByName d.table name = some entry ↔
      ∃ idx < d.numFunctions, entry = d.entryAfter d.numNames idx ∧
        d.lastName d.numNames idx = some name ∧
        ∀ k < idx, d.lastName d.numNames k ≠ some name := by
  unfold exportsLookupByName
  rw [table_eq]
  dsimp only
  rw [List.find?_map, Option.map_eq_some_iff]
  constructor
  · rintro ⟨idx, hfind, rfl⟩
    obtain ⟨hmatch, hmem, hfirst⟩ := List.find?_range_eq_some.mp hfind
    refine ⟨idx, List.mem_range.mp hmem, rfl, of_decide_eq_true hmatch, ?_⟩
    intro k hk
    exact of_decide_eq_false ((Bool.not_eq_true' _).mp (hfirst k hk))
  · rintro ⟨idx, hidx, rfl, hmatch, hfirst⟩
    refine ⟨idx, List.find?_range_eq_some.mpr ⟨decide_eq_true hmatch, List.mem_range.mpr hidx, ?_⟩,
      rfl⟩
    intro k hk
    exact (Bool.not_eq_true' _).mpr (decide_eq_false (hfirst k hk))

/-- The names are found with their addresses exactly if they are kept. -/
theorem byName_iff (d : ExportDirectory buf pe fileSize) :
    (∀ i < d.numNames, ∃ entry,
      exportsLookupByName d.table (d.name i) = some entry ∧ entry.rva = d.eat (d.ordinal i)) ↔
        d.NamesKept := by
  constructor
  · intro hall i hi
    obtain ⟨entry, hlookup, hrva⟩ := hall i hi
    obtain ⟨idx, -, rfl, hname, hfirst⟩ := lookupByName_iff.mp hlookup
    obtain ⟨j, hj, hkeeps, hsame, rfl⟩ := lastName_iff.mp hname
    refine ⟨j, hj, hkeeps, hsame, hrva, ?_⟩
    intro k hk hkept hkname
    by_contra hlt
    exact hfirst (d.ordinal k) (Nat.lt_of_not_le hlt) (lastName_iff.mpr ⟨k, hk, hkept, hkname, rfl⟩)
  · intro hkept i hi
    obtain ⟨j, hj, hkeeps, hsame, hrva, hfirst⟩ := hkept i hi
    refine ⟨d.entryAfter d.numNames (d.ordinal j), lookupByName_iff.mpr ⟨d.ordinal j, ?_, rfl, ?_, ?_⟩,
      hrva⟩
    · exact d.inStep j hj
    · exact lastName_iff.mpr ⟨j, hj, hkeeps, hsame, rfl⟩
    · intro k hlt hk
      obtain ⟨j', hj', hkeeps', hsame', hord⟩ := lastName_iff.mp hk
      have hle := hfirst j' hj' hkeeps' hsame'
      omega

end Names

section Ordinals

/-- The lookup by ordinal takes the entry at its distance from `Base`. -/
theorem byOrdinal (ordinal : UInt16) (hbase : d.base.toNat ≤ ordinal.toNat)
    (hfun : ordinal.toNat - d.base.toNat < d.numFunctions)
    (hused : d.eat (ordinal.toNat - d.base.toNat) ≠ 0) :
    ∃ entry, exportsLookupByOrdinal d.table ordinal = some entry ∧
      entry.rva = d.eat (ordinal.toNat - d.base.toNat) := by
  have hwide : ordinal.toUInt32.toNat = ordinal.toNat := UInt16.toNat_toUInt32 ordinal
  have hge : ¬ ordinal.toUInt32 < d.base := by
    rw [UInt32.lt_iff_toNat_lt, hwide]
    omega
  have hidx : (ordinal.toUInt32 - d.base).toNat = ordinal.toNat - d.base.toNat := by
    rw [UInt32.toNat_sub_of_le _ _ (UInt32.not_lt.mp hge), hwide]
  have hrva : (d.entryAfter d.numNames (ordinal.toNat - d.base.toNat)).rva =
      d.eat (ordinal.toNat - d.base.toNat) := rfl
  refine ⟨d.entryAfter d.numNames (ordinal.toNat - d.base.toNat), ?_, hrva⟩
  unfold exportsLookupByOrdinal
  rw [table_eq]
  dsimp only
  rw [if_neg hge, hidx, List.getElem?_map, List.getElem?_range hfun]
  exact if_neg hused

end Ordinals

section Forwarders

/-- The last address there is has no data: the end of a section behind it would be 0. -/
private theorem peRvaToPtr_last {rva : UInt32} (hlast : rva.toNat + 1 = 2 ^ 32) :
    peRvaToPtr pe fileSize rva = none := by
  have hnot : ∀ bound : UInt32, ¬ rva < bound := by
    intro bound hlt
    have hnat := UInt32.lt_iff_toNat_lt.mp hlt
    have hbound := bound.toNat_lt
    omega
  have hsection : peGetSectionByRva pe rva = none := by
    unfold peGetSectionByRva
    apply List.find?_eq_none.mpr
    intro sec _ hin
    exact hnot _ (of_decide_eq_true hin).2
  have hoffset : peRvaToFileOffset pe rva = 0 := by
    unfold peRvaToFileOffset
    rw [if_neg (hnot _), hsection]
  have hne : rva ≠ 0 := by
    rintro rfl
    cases hlast
  unfold peRvaToPtr
  rw [if_pos ⟨hoffset, hne⟩]

/-- The directory ends before the last address. -/
theorem end_lt (d : ExportDirectory buf pe fileSize) :
    (exportDir pe).virtualAddress.toNat + (exportDir pe).size.toNat < 2 ^ 32 := by
  have hva := (exportDir pe).virtualAddress.toNat_lt
  by_cases hempty : (exportDir pe).size.toNat = 0
  · omega
  · obtain ⟨hend, hptr⟩ := d.inside ((exportDir pe).size.toNat - 1) (by omega)
    by_contra hge
    have hlast : ((exportDir pe).virtualAddress +
        UInt32.ofNat ((exportDir pe).size.toNat - 1)).toNat + 1 = 2 ^ 32 := by
      rw [UInt32.toNat_add, UInt32.toNat_ofNat']
      omega
    rw [peRvaToPtr_last hlast] at hptr
    cases hptr

/-- The forwarders are the functions whose address is in the directory. -/
theorem forwarders (entry : ExportEntry) (hentry : entry ∈ d.table.entries) :
    entry.forwarder.isSome ↔
      (exportDir pe).virtualAddress.toNat ≤ entry.rva.toNat ∧
        entry.rva.toNat < (exportDir pe).virtualAddress.toNat + (exportDir pe).size.toNat := by
  rw [table_eq] at hentry
  obtain ⟨idx, -, rfl⟩ := List.mem_map.mp hentry
  have hend := d.end_lt
  have hsum : ((exportDir pe).virtualAddress + (exportDir pe).size).toNat =
      (exportDir pe).virtualAddress.toNat + (exportDir pe).size.toNat := by
    rw [UInt32.toNat_add, Nat.mod_eq_of_lt hend]
  have hrange : ((exportDir pe).virtualAddress ≤ d.eat idx ∧
      d.eat idx < (exportDir pe).virtualAddress + (exportDir pe).size) ↔
        (exportDir pe).virtualAddress.toNat ≤ (d.eat idx).toNat ∧
          (d.eat idx).toNat < (exportDir pe).virtualAddress.toNat + (exportDir pe).size.toNat := by
    rw [UInt32.le_iff_toNat_le, UInt32.lt_iff_toNat_lt, hsum]
  have hforwarder : (d.entryAfter d.numNames idx).forwarder =
      if (exportDir pe).virtualAddress ≤ d.eat idx ∧
          d.eat idx < (exportDir pe).virtualAddress + (exportDir pe).size then
        stringAt buf pe fileSize (d.eat idx)
      else none := rfl
  have hrva : (d.entryAfter d.numNames idx).rva = d.eat idx := rfl
  rw [hforwarder, hrva, ← hrange]
  split
  · next hin =>
    obtain ⟨hle, hlt⟩ := hrange.mp hin
    obtain ⟨-, hptr⟩ := d.inside ((d.eat idx).toNat - (exportDir pe).virtualAddress.toNat) (by omega)
    have haddr : (exportDir pe).virtualAddress +
        UInt32.ofNat ((d.eat idx).toNat - (exportDir pe).virtualAddress.toNat) = d.eat idx := by
      have heat := (d.eat idx).toNat_lt
      apply UInt32.toNat_inj.mp
      rw [UInt32.toNat_add, UInt32.toNat_ofNat']
      omega
    rw [haddr] at hptr
    have hstring : (stringAt buf pe fileSize (d.eat idx)).isSome := by
      rw [stringAt, Option.isSome_map]
      exact hptr
    exact ⟨fun _ => hin, fun _ => hstring⟩
  · next hout => simp [hout]

end Forwarders

/-- For every well-formed export directory the lookups agree with it exactly if no name is
replaced by a later name of its function. -/
theorem lookups_agree_iff : d.LookupsAgree ↔ d.NamesKept := by
  rw [← byName_iff]
  constructor
  · exact fun h => h.byName
  · exact fun h => ⟨h, d.byOrdinal, d.forwarders⟩

end ExportDirectory

section Example

/-- An image that is all headers, with an export directory at 64. -/
def aliasImage : PeImage :=
  peImageOf (peHeader 0x10000000 0x1000 0x200) [⟨64, 40⟩] (namelessSection 0 0 0 0)

/-- A file with two functions and two names, `A` and `B`, both for the first function. -/
def aliasFile : List UInt8 :=
  List.replicate 80 0 ++ wordBytes 1 ++ wordBytes 2 ++ wordBytes 2 ++ wordBytes 104 ++
    wordBytes 112 ++ wordBytes 120 ++ wordBytes 0x1000 ++ wordBytes 0x1010 ++ wordBytes 124 ++
    wordBytes 126 ++ [0, 0, 0, 0] ++ [0x41, 0, 0x42, 0]

/-- Its export directory. -/
def aliasDirectory :
    ExportDirectory (fileBuffer aliasFile fun _ => 0) aliasImage aliasFile.length where
  header := 64
  functions := 104
  namePtrs := 112
  ordinals := 120
  present := by decide
  headerAt := by decide +kernel
  headerFits := by decide +kernel
  inside := by decide +kernel
  count := by decide +kernel
  functionsAt := by decide +kernel
  namesAt := by decide +kernel
  ordinalsAt := by decide +kernel
  inStep := by decide +kernel
  strings := by decide +kernel

theorem aliasDirectory_not_agree :
    exportsLookupByName aliasDirectory.table [0x41] = none ∧ ¬ aliasDirectory.LookupsAgree := by
  have hmissing : exportsLookupByName aliasDirectory.table [0x41] = none := by decide +kernel
  have hcount : 0 < aliasDirectory.numNames := by decide +kernel
  have hname : aliasDirectory.name 0 = [0x41] := by decide +kernel
  refine ⟨hmissing, ?_⟩
  intro hagree
  obtain ⟨entry, hfound, -⟩ := hagree.byName 0 hcount
  rw [hname, hmissing] at hfound
  cases hfound

end Example

end Wbox.Loader
