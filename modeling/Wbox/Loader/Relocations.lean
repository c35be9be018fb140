import Mathlib.Data.Fintype.Pigeonhole
import Wbox.Lib.Orbit
import Wbox.Loader.Images

/-!
# The loop over the relocation blocks

`src/loader/loader.c:155–178` walks the blocks of the relocation directory by the sizes in their
headers, added in 32 bits. It comes back to a block, and then never ends, if the sizes of
consecutive blocks add up to a multiple of `2 ^ 32`.
-/

namespace Wbox.Loader

open Wbox.Lib Wbox.Pe Wbox.Vm

/-- The size in the header of the block at an offset of the directory. -/
def blockSizeAt (buf : Nat → UInt8) (pe : PeImage) (relocRva offset : UInt32) : UInt32 :=
  u32At buf (peRvaToFileOffset pe (relocRva + offset + 4)).toNat

/-- The offset after a round of the loop, if there is another round to try. -/
def nextBlock (buf : Nat → UInt8) (pe : PeImage) (relocRva relocSize offset : UInt32) :
    Option UInt32 :=
  if offset < relocSize ∧ blockSizeAt buf pe relocRva offset ≠ 0 then
    some (offset + blockSizeAt buf pe relocRva offset)
  else none

/-- The RVAs the loop over the relocation blocks adds `delta` to, as it meets them. -/
def relocRvas (buf : Nat → UInt8) (pe : PeImage) (relocRva relocSize : UInt32) :
    Nat → UInt32 → List UInt32
  | 0, _ => []
  | fuel + 1, offset =>
      if offset < relocSize then
        let blockRva := u32At buf (peRvaToFileOffset pe (relocRva + offset)).toNat
        let blockSize := u32At buf (peRvaToFileOffset pe (relocRva + offset + 4)).toNat
        if blockSize = 0 then []
        else
          (List.range ((blockSize - 8) / 2).toNat).filterMap
              (relocEntry buf pe blockRva (relocRva + offset + 8)) ++
            relocRvas buf pe relocRva relocSize fuel (offset + blockSize)
      else []

/-- The base relocation directory of an image. -/
def relocDir (pe : PeImage) : PeDataDirectory :=
  pe.dataDirs.getD imageDirectoryEntryBasereloc ⟨0, 0⟩

/-- The loop is entered, `loader.c:146–151`. -/
def Relocates (pe : PeImage) (baseVa : UInt32) : Prop :=
  0 < (relocDir pe).size ∧ baseVa ≠ pe.imageBase

instance (pe : PeImage) (baseVa : UInt32) : Decidable (Relocates pe baseVa) :=
  inferInstanceAs (Decidable (_ ∧ _))

/-- The offset the loop has after some rounds. -/
def relocOffset (buf : Nat → UInt8) (pe : PeImage) (n : Nat) : Option UInt32 :=
  orbit (nextBlock buf pe (relocDir pe).virtualAddress (relocDir pe).size) n 0

/-- The block a round visits; `none` if the loop has ended or is not entered. -/
def relocVisit (buf : Nat → UInt8) (pe : PeImage) (baseVa : UInt32) (n : Nat) : Option UInt32 :=
  if Relocates pe baseVa then
    (relocOffset buf pe n).filter fun offset => decide (offset < (relocDir pe).size)
  else none

/-- Relocating an image ends, and visits no block twice. -/
structure RelocatesOnce (buf : Nat → UInt8) (pe : PeImage) (imagePhys baseVa : UInt32)
    (mem : PhysMem) : Prop where
  ends : ∃ mem', applyRelocations buf pe imagePhys baseVa mem = some mem'
  once : ∀ i j offset, i < j → relocVisit buf pe baseVa i = some offset →
    relocVisit buf pe baseVa j ≠ some offset

/-- The size of the block that the loop meets after `n` rounds. -/
def nthBlockSize (buf : Nat → UInt8) (pe : PeImage) (n : Nat) : Nat :=
  ((relocOffset buf pe n).elim 0 (blockSizeAt buf pe (relocDir pe).virtualAddress)).toNat

/-- The sizes of the first `n` blocks, added without wrap-around. -/
def relocTotal (buf : Nat → UInt8) (pe : PeImage) (n : Nat) : Nat :=
  ((List.range n).map (nthBlockSize buf pe)).sum

/-- The sizes of no consecutive blocks add up to a multiple of `2 ^ 32`. -/
def NoFullTurn (buf : Nat → UInt8) (pe : PeImage) : Prop :=
  ∀ i j, i < j → relocOffset buf pe j ≠ none →
    ¬ 2 ^ 32 ∣ relocTotal buf pe j - relocTotal buf pe i

instance finite_uint32 : Finite UInt32 :=
  Finite.of_injective UInt32.toFin fun _ _ h => UInt32.toFin_inj.mp h

variable {buf : Nat → UInt8} {pe : PeImage} {imagePhys baseVa delta relocRva relocSize : UInt32}
  {mem : PhysMem}

/-- The fuel of the loop runs out if there is a round left. -/
theorem relocBlocks_eq_none_iff (fuel : Nat) (offset : UInt32) (mem : PhysMem) :
    relocBlocks buf pe imagePhys delta relocRva relocSize fuel offset mem = none ↔
      orbit (nextBlock buf pe relocRva relocSize) fuel offset ≠ none := by
  induction fuel generalizing offset mem with
  | zero => exact ⟨fun _ h => (nomatch h), fun _ => rfl⟩
  | succ fuel ih =>
    rw [orbit_succ, nextBlock, relocBlocks]
    by_cases hoffset : offset < relocSize
    · by_cases hblock : blockSizeAt buf pe relocRva offset = 0
      · have hblock' : u32At buf (peRvaToFileOffset pe (relocRva + offset + 4)).toNat = 0 := hblock
        simp only [hoffset, hblock, hblock', if_true, ne_eq, not_true_eq_false, and_false, if_false,
          Option.bind_none, reduceCtorEq]
      · have hblock' : ¬ u32At buf (peRvaToFileOffset pe (relocRva + offset + 4)).toNat = 0 := hblock
        simp only [hoffset, hblock, hblock', if_true, if_false, ne_eq, not_false_eq_true, true_and,
          Option.bind_some]
        exact ih _ _
    · simp only [hoffset, if_false, false_and, Option.bind_none, ne_eq, not_true_eq_false,
        reduceCtorEq]

/-- The RVAs that the entries of a block name. -/
def blockRvas (buf : Nat → UInt8) (pe : PeImage) (relocRva offset : UInt32) : List UInt32 :=
  (List.range ((blockSizeAt buf pe relocRva offset - 8) / 2).toNat).filterMap
    (relocEntry buf pe (u32At buf (peRvaToFileOffset pe (relocRva + offset)).toNat)
      (relocRva + offset + 8))

theorem relocRvas_go {offset : UInt32} (hlt : offset < relocSize)
    (hblock : blockSizeAt buf pe relocRva offset ≠ 0) (fuel : Nat) :
    relocRvas buf pe relocRva relocSize (fuel + 1) offset =
      blockRvas buf pe relocRva offset ++
        relocRvas buf pe relocRva relocSize fuel
          (offset + blockSizeAt buf pe relocRva offset) := by
  rw [relocRvas, if_pos hlt]
  exact if_neg hblock

theorem relocRvas_stop {offset : UInt32} (h : nextBlock buf pe relocRva relocSize offset = none)
    (fuel : Nat) : relocRvas buf pe relocRva relocSize fuel offset = [] := by
  cases fuel with
  | zero => rfl
  | succ fuel =>
    rw [relocRvas]
    split
    · next hlt =>
      apply if_pos
      by_contra hblock
      rw [nextBlock, if_pos ⟨hlt, hblock⟩] at h
      cases h
    · rfl

/-- The words the first rounds add to: those the entries of their blocks name. -/
theorem mem_relocRvas_iff {fuel : Nat} {offset rva : UInt32} :
    rva ∈ relocRvas buf pe relocRva relocSize fuel offset ↔
      ∃ n block, n < fuel ∧ orbit (nextBlock buf pe relocRva relocSize) n offset = some block ∧
        nextBlock buf pe relocRva relocSize block ≠ none ∧
        rva ∈ blockRvas buf pe relocRva block := by
  induction fuel generalizing offset with
  | zero => exact ⟨fun h => (nomatch h), fun ⟨_, _, hlt, _⟩ => absurd hlt (Nat.not_lt_zero _)⟩
  | succ fuel ih =>
    cases hnext : nextBlock buf pe relocRva relocSize offset with
    | none =>
      rw [relocRvas_stop hnext]
      constructor
      · exact fun h => absurd h List.not_mem_nil
      · rintro ⟨n, block, -, horbit, hgo, -⟩
        cases n with
        | zero =>
          obtain rfl : offset = block := Option.some.inj horbit
          exact absurd hnext hgo
        | succ n =>
          rw [orbit_succ, hnext] at horbit
          cases horbit
    | some after =>
      have hgo : offset < relocSize ∧ blockSizeAt buf pe relocRva offset ≠ 0 := by
        by_contra hstop
        rw [nextBlock, if_neg hstop] at hnext
        cases hnext
      have hafter : offset + blockSizeAt buf pe relocRva offset = after := by
        rw [nextBlock, if_pos hgo] at hnext
        exact Option.some.inj hnext
      rw [relocRvas_go hgo.1 hgo.2, hafter, List.mem_append, ih]
      constructor
      · rintro (hentry | ⟨n, block, hlt, horbit, hrest⟩)
        · refine ⟨0, offset, Nat.succ_pos fuel, rfl, ?_, hentry⟩
          rw [hnext]
          exact Option.some_ne_none after
        · refine ⟨n + 1, block, Nat.succ_lt_succ hlt, ?_, hrest⟩
          rw [orbit_succ, hnext]
          exact horbit
      · rintro ⟨n, block, hlt, horbit, hrest⟩
        cases n with
        | zero =>
          obtain rfl : offset = block := Option.some.inj horbit
          exact Or.inl hrest.2
        | succ n =>
          rw [orbit_succ, hnext] at horbit
          exact Or.inr ⟨n, block, Nat.lt_of_succ_lt_succ hlt, horbit, hrest⟩

/-- A loop that has not ended after `2 ^ 32` rounds never ends. -/
theorem relocOffset_ne_none (h : relocOffset buf pe (2 ^ 32) ≠ none) (n : Nat) :
    relocOffset buf pe n ≠ none := by
  obtain ⟨last, hlast⟩ := Option.ne_none_iff_exists'.mp h
  have hsome : ∀ k : Fin (2 ^ 32 + 1), ∃ o, relocOffset buf pe k = some o := fun k =>
    orbit_some_of_le hlast (Nat.le_of_lt_succ k.isLt)
  choose f hf using hsome
  have hcard : Fintype.card (Fin (2 ^ 32)) < Fintype.card (Fin (2 ^ 32 + 1)) := by
    rw [Fintype.card_fin, Fintype.card_fin]
    exact Nat.lt_succ_self _
  obtain ⟨i, j, hne, hij⟩ := Fintype.exists_ne_map_eq_of_card_lt
    (fun k => (f k).toFin : Fin (2 ^ 32 + 1) → Fin (2 ^ 32)) hcard
  have hoff : f i = f j := UInt32.toFin_inj.mp hij
  rcases Nat.lt_or_gt_of_ne (fun h => hne (Fin.ext h)) with hlt | hgt
  · exact orbit_ne_none_of_repeat hlt (hf i) (hoff ▸ hf j) n
  · exact orbit_ne_none_of_repeat hgt (hf j) (hoff ▸ hf i) n

/-- What `applyRelocations` says of the loop is so: it has no result exactly if every number of
rounds leaves another one. -/
theorem applyRelocations_eq_none_iff (mem : PhysMem) :
    applyRelocations buf pe imagePhys baseVa mem = none ↔
      Relocates pe baseVa ∧ ∀ n, relocOffset buf pe n ≠ none := by
  unfold applyRelocations
  by_cases hruns : Relocates pe baseVa
  · have hruns' : 0 < (pe.dataDirs.getD imageDirectoryEntryBasereloc ⟨0, 0⟩).size ∧
        baseVa ≠ pe.imageBase := hruns
    dsimp only
    rw [if_pos hruns', relocBlocks_eq_none_iff]
    simp only [hruns, true_and]
    constructor
    · intro hfuel
      have hcard : relocOffset buf pe (2 ^ 32) ≠ none :=
        fun hnone => hfuel (orbit_none_of_le hnone (Nat.le_succ _))
      exact relocOffset_ne_none hcard
    · intro hall
      exact hall _
  · have hruns' : ¬ (0 < (pe.dataDirs.getD imageDirectoryEntryBasereloc ⟨0, 0⟩).size ∧
        baseVa ≠ pe.imageBase) := hruns
    dsimp only
    rw [if_neg hruns']
    simp only [hruns, false_and, reduceCtorEq]

section Turns

/-- The size of a block that exists. -/
theorem nthBlockSize_of_some {n : Nat} {offset : UInt32} (h : relocOffset buf pe n = some offset) :
    nthBlockSize buf pe n = (blockSizeAt buf pe (relocDir pe).virtualAddress offset).toNat := by
  rw [nthBlockSize, h]
  rfl

theorem relocTotal_succ (buf : Nat → UInt8) (pe : PeImage) (n : Nat) :
    relocTotal buf pe (n + 1) = relocTotal buf pe n + nthBlockSize buf pe n := by
  unfold relocTotal
  rw [List.range_succ, List.map_append, List.sum_append]
  simp only [List.map_cons, List.map_nil, List.sum_cons, List.sum_nil, Nat.add_zero]

theorem relocTotal_mono {i j : Nat} (h : i ≤ j) :
    relocTotal buf pe i ≤ relocTotal buf pe j := by
  induction j, h using Nat.le_induction with
  | base => exact Nat.le_refl _
  | succ j _ ih =>
    rw [relocTotal_succ]
    omega

/-- The offset of a round is the total of the sizes before, in 32 bits. -/
theorem relocOffset_toNat {n : Nat} {offset : UInt32} (h : relocOffset buf pe n = some offset) :
    offset.toNat = relocTotal buf pe n % 2 ^ 32 := by
  induction n generalizing offset with
  | zero =>
    have hzero : (0 : UInt32) = offset := Option.some.inj h
    rw [← hzero]
    rfl
  | succ n ih =>
    rw [relocOffset, orbit_succ_right] at h
    obtain ⟨before, hbefore, hnext⟩ := Option.bind_eq_some_iff.mp h
    have hbefore' : relocOffset buf pe n = some before := hbefore
    unfold nextBlock at hnext
    split at hnext
    · rw [← Option.some.inj hnext, UInt32.toNat_add, ih hbefore', relocTotal_succ,
        nthBlockSize_of_some hbefore', Nat.mod_add_mod]
    · cases hnext

/-- Two rounds are at one offset if the sizes between them add up to whole turns. -/
theorem relocOffset_eq_iff {i j : Nat} (hle : i ≤ j) {a b : UInt32}
    (hi : relocOffset buf pe i = some a) (hj : relocOffset buf pe j = some b) :
    a = b ↔ 2 ^ 32 ∣ relocTotal buf pe j - relocTotal buf pe i := by
  have hmono : relocTotal buf pe i ≤ relocTotal buf pe j := relocTotal_mono hle
  rw [← UInt32.toNat_inj, relocOffset_toNat hi, relocOffset_toNat hj]
  omega

/-- The loop visits no block twice exactly if no consecutive sizes make a turn. -/
theorem noFullTurn_iff : NoFullTurn buf pe ↔
    ∀ i j offset, i < j → relocOffset buf pe i = some offset →
      relocOffset buf pe j ≠ some offset := by
  constructor
  · intro hturn i j offset hlt hi hj
    have hne : relocOffset buf pe j ≠ none := by
      rw [hj]
      exact Option.some_ne_none offset
    exact hturn i j hlt hne ((relocOffset_eq_iff (Nat.le_of_lt hlt) hi hj).mp rfl)
  · intro hfresh i j hlt hj hdvd
    obtain ⟨b, hb⟩ := Option.ne_none_iff_exists'.mp hj
    obtain ⟨a, ha⟩ := orbit_some_of_le hb (Nat.le_of_lt hlt)
    have hab : a = b := (relocOffset_eq_iff (Nat.le_of_lt hlt) ha hb).mpr hdvd
    exact hfresh i j a hlt ha (hab ▸ hb)

/-- Without a full turn the loop ends, and only then. -/
theorem noFullTurn_iff_ends : NoFullTurn buf pe ↔ ∃ n, relocOffset buf pe n = none :=
  noFullTurn_iff.trans orbit_ends_iff.symm

/-- Relocating an image ends and visits no block twice exactly if the image is at its own base,
or the sizes of no consecutive blocks of its directory add up to a multiple of `2 ^ 32`. -/
theorem relocatesOnce_iff (buf : Nat → UInt8) (pe : PeImage) (imagePhys baseVa : UInt32)
    (mem : PhysMem) :
    RelocatesOnce buf pe imagePhys baseVa mem ↔ (Relocates pe baseVa → NoFullTurn buf pe) := by
  constructor
  · intro honce hruns
    rw [noFullTurn_iff]
    intro i j offset hlt hi hj
    obtain ⟨mem', hmem'⟩ := honce.ends
    have hnever : ∀ n, relocOffset buf pe n ≠ none := orbit_ne_none_of_repeat hlt hi hj
    rw [(applyRelocations_eq_none_iff mem).mpr ⟨hruns, hnever⟩] at hmem'
    cases hmem'
  · intro hturn
    constructor
    · rw [← Option.ne_none_iff_exists']
      intro hnone
      obtain ⟨hruns, hall⟩ := (applyRelocations_eq_none_iff mem).mp hnone
      obtain ⟨n, hn⟩ := noFullTurn_iff_ends.mp (hturn hruns)
      exact hall n hn
    · intro i j offset hlt hi hj
      unfold relocVisit at hi hj
      split at hi
      · next hruns =>
        rw [if_pos hruns] at hj
        exact noFullTurn_iff.mp (hturn hruns) i j offset hlt (Option.filter_eq_some_iff.mp hi).1
          (Option.filter_eq_some_iff.mp hj).1
      · cases hi

end Turns

section Example

/-- The directory of two blocks at file offset 272. -/
def turnDirs : List PeDataDirectory := List.replicate 5 ⟨0, 0⟩ ++ [⟨272, 16⟩]

/-- The sizes of the blocks are 8 and `2 ^ 32 - 8`. -/
def turnPe : List UInt8 :=
  peFile (peHeader 0 0x1000 288) turnDirs (namelessSection 0 0 0 0)
    (wordBytes 0 ++ wordBytes 8 ++ wordBytes 0 ++ wordBytes 0xFFFFFFF8)

/-- The image `pe_load` makes of it. -/
def turnImage : PeImage := peImageOf (peHeader 0 0x1000 288) turnDirs (namelessSection 0 0 0 0)

/-- The loop over these blocks is back at the first one after the second. -/
theorem relocates_turnPe_twice :
    ¬ ∀ (heap : HostHeap) (content : List UInt8) (pe : PeImage) (imagePhys baseVa : UInt32)
        (mem : PhysMem),
      (peLoad heap.pe content (fileBuffer content heap.behind)).2.toOption = some pe →
        RelocatesOnce (fileBuffer content heap.behind) pe imagePhys baseVa mem := by
  intro h
  have hpe : (peLoad roomyHeap.pe turnPe (fileBuffer turnPe roomyHeap.behind)).2.toOption =
      some turnImage := by decide +kernel
  have honce := (h roomyHeap turnPe turnImage 0 0x400000 ⟨fun _ => 0, 0⟩ hpe).once 0 2 0 (by decide)
  have hfirst : relocVisit (fileBuffer turnPe roomyHeap.behind) turnImage 0x400000 0 = some 0 := by
    decide +kernel
  have hthird : relocVisit (fileBuffer turnPe roomyHeap.behind) turnImage 0x400000 2 = some 0 := by
    decide +kernel
  exact honce hfirst hthird

end Example

end Wbox.Loader
