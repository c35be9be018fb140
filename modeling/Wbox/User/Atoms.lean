import Wbox.Lib.Intern

/-!
# The atom table

The names of window classes are kept in a table of fixed size, and the atom of a name is the place
of the first name in it that is the same without regard to case
(`src/user/user_class.c:19–24`, `46–57`, `95–133`).
-/

namespace Wbox.User

open Wbox.Lib

/-- `MAX_CLASSNAME`. -/
def maxClassName : Nat := 256
/-- `MAX_ATOMS`. -/
def maxAtoms : Nat := 1024

/-- A string of wide characters, up to its NUL. -/
structure WideName where
  chars : List UInt32
  noNul : 0 ∉ chars
  deriving DecidableEq

/-- What `wcsncpy` copies of a string into a buffer that is ended behind its `n` characters. -/
def WideName.copied (s : WideName) (n : Nat) : WideName where
  chars := s.chars.take n
  noNul h := s.noNul (List.mem_of_mem_take h)

theorem WideName.copied_of_short {s : WideName} {n : Nat} (h : s.chars.length ≤ n) :
    s.copied n = s := by
  unfold copied
  simp only [List.take_of_length_le h]

/-- `towlower`; the program runs in the C locale. -/
def towlower (c : UInt32) : UInt32 := if 0x41 ≤ c ∧ c ≤ 0x5A then c + 0x20 else c

/-- `wcsicmp_local`, `user_class.c:46–57`. -/
def wcsicmpLocal : List UInt32 → List UInt32 → Int32
  | c1 :: s1, c2 :: s2 =>
    if towlower c1 ≠ towlower c2 then (towlower c1 - towlower c2).toInt32
    else wcsicmpLocal s1 s2
  | s1, s2 => (towlower (s1.headD 0) - towlower (s2.headD 0)).toInt32

/-- An element of `g_atom_table`. -/
structure AtomEntry where
  name : WideName
  used : Bool
  deriving DecidableEq

/-- `g_atom_table`. -/
structure AtomTable where
  entries : List AtomEntry
  size : entries.length = maxAtoms

namespace AtomTable

/-- An element after `memset`. -/
def noEntry : AtomEntry where
  name := { chars := [], noNul := List.not_mem_nil }
  used := false

/-- The table after `memset`. -/
def clear : AtomTable where
  entries := List.replicate maxAtoms noEntry
  size := List.length_replicate

/-- Fill in an element. -/
def set (t : AtomTable) (i : Nat) (entry : AtomEntry) : AtomTable where
  entries := t.entries.set i entry
  size := List.length_set.trans t.size

/-- `user_class_add_atom`, `user_class.c:95–119`. -/
def userClassAddAtom (t : AtomTable) (name : WideName) : AtomTable × UInt16 :=
  if name.chars = [] then (t, 0)
  else
    match t.entries.findIdx? fun e => e.used ∧ wcsicmpLocal e.name.chars name.chars = 0 with
    | some i => (t, 0xC000 + UInt16.ofNat i)
    | none =>
      match t.entries.findIdx? fun e => !e.used with
      | some i =>
        (t.set i { name := name.copied (maxClassName - 1), used := true }, 0xC000 + UInt16.ofNat i)
      | none => (t, 0)

/-- `user_class_get_atom_name`, `user_class.c:121–133`; `none` is `NULL`. -/
def userClassGetAtomName (t : AtomTable) (atom : UInt16) : Option WideName :=
  if atom < 0xC000 then none
  else
    match t.entries[(atom - 0xC000).toNat]? with
    | some e => if e.used then some e.name else none
    | none => none

/-- The table after a list of names has been added. -/
def addAll (t : AtomTable) (names : List WideName) : AtomTable :=
  names.foldl (fun t name => (t.userClassAddAtom name).1) t

end AtomTable

/-- A name without regard to case. -/
def WideName.lower (s : WideName) : List UInt32 := s.chars.map towlower

/-- Two names are equal up to case. -/
def WideName.SameName (a b : WideName) : Prop := a.lower = b.lower

/-- A name that is not empty and fits into an element of the table. -/
def WideName.Fits (s : WideName) : Prop := s.chars ≠ [] ∧ s.chars.length < maxClassName

instance (s : WideName) : Decidable s.Fits :=
  inferInstanceAs (Decidable (s.chars ≠ [] ∧ s.chars.length < maxClassName))

section Compare

variable {c d : UInt32} {a b : List UInt32}

/-- Only the NUL is one in lower case. -/
theorem towlower_eq_zero (h : towlower c = 0) : c = 0 := by
  unfold towlower at h
  split at h
  · next hupper =>
    rw [UInt32.le_iff_toNat_le, UInt32.le_iff_toNat_le] at hupper
    have hnat := congrArg UInt32.toNat h
    rw [UInt32.toNat_add] at hnat
    simp only [UInt32.reduceToNat] at hupper hnat
    omega
  · exact h

theorem toInt32_sub_eq_zero : (c - d).toInt32 = 0 ↔ c = d := by
  constructor
  · intro h
    have hback := congrArg Int32.toUInt32 h
    rw [UInt32.toUInt32_toInt32] at hback
    rw [UInt32.sub_eq_iff_eq_add] at hback
    exact hback.trans (UInt32.zero_add d)
  · rintro rfl
    rw [UInt32.sub_self]
    rfl

/-- Two strings compare as equal exactly if they are so in lower case. -/
theorem wcsicmpLocal_eq_zero (ha : 0 ∉ a) (hb : 0 ∉ b) :
    wcsicmpLocal a b = 0 ↔ a.map towlower = b.map towlower := by
  induction a generalizing b with
  | nil =>
    cases b with
    | nil => exact iff_of_true (by decide) rfl
    | cons d b =>
      unfold wcsicmpLocal
      rw [toInt32_sub_eq_zero]
      apply iff_of_false
      · intro h
        have hzero : d = 0 := towlower_eq_zero h.symm
        exact hb (hzero ▸ List.mem_cons_self)
      · exact fun h => by cases h
  | cons c a ih =>
    cases b with
    | nil =>
      unfold wcsicmpLocal
      rw [toInt32_sub_eq_zero]
      apply iff_of_false
      · intro h
        have hzero : c = 0 := towlower_eq_zero h
        exact ha (hzero ▸ List.mem_cons_self)
      · exact fun h => by cases h
    | cons d b =>
      have hrest := ih (fun h => ha (List.mem_cons_of_mem c h))
        fun h => hb (List.mem_cons_of_mem d h)
      unfold wcsicmpLocal
      rw [List.map_cons, List.map_cons, List.cons.injEq]
      by_cases heq : towlower c = towlower d
      · rw [if_neg (not_not.mpr heq), hrest]
        exact (and_iff_right heq).symm
      · rw [if_pos heq, toInt32_sub_eq_zero]
        exact iff_of_false heq fun h => heq h.1

theorem wcsicmpLocal_iff {s t : WideName} : wcsicmpLocal s.chars t.chars = 0 ↔ s.SameName t :=
  wcsicmpLocal_eq_zero s.noNul t.noNul

end Compare

instance (s t : WideName) : Decidable (s.SameName t) :=
  inferInstanceAs (Decidable (s.lower = t.lower))

namespace AtomTable

/-- The element that holds a name. -/
def held (name : WideName) : AtomEntry := { name, used := true }

/-- The elements in use are the first ones, and hold these names. -/
def Holds (t : AtomTable) (seen : List WideName) : Prop :=
  t.entries = seen.map held ++ List.replicate (maxAtoms - seen.length) noEntry

/-- The atom of a place. -/
def atomAt : Option Nat → UInt16
  | some i => 0xC000 + UInt16.ofNat i
  | none => 0

/-- What a call of a list of calls gives. -/
def callAtom (t : AtomTable) (names : List WideName) (i : Nat) (h : i < names.length) : UInt16 :=
  ((t.addAll (names.take i)).userClassAddAtom names[i]).2

variable {t : AtomTable} {seen names before : List WideName} {name : WideName} {i : Nat}

theorem Holds.length_le (h : t.Holds seen) : seen.length ≤ maxAtoms := by
  have hsize := t.size
  rw [h, List.length_append, List.length_map, List.length_replicate] at hsize
  omega

/-- The search for the name. -/
theorem Holds.search (h : t.Holds seen) :
    (t.entries.findIdx? fun e => e.used ∧ wcsicmpLocal e.name.chars name.chars = 0) =
      internIndex WideName.lower seen name := by
  have hheld : (fun e : AtomEntry => decide (e.used ∧ wcsicmpLocal e.name.chars name.chars = 0)) ∘
      held = fun s : WideName => decide (s.lower = name.lower) := by
    funext s
    simp only [Function.comp_apply, held, true_and, wcsicmpLocal_iff, WideName.SameName]
  have hrest : ¬ (noEntry.used = true ∧ wcsicmpLocal noEntry.name.chars name.chars = 0) :=
    fun hused => by cases hused.1
  rw [h, List.findIdx?_append, List.findIdx?_map, hheld, List.findIdx?_replicate, if_neg]
  · rw [Option.map_none, Option.or_none]
    rfl
  · exact fun hfound => hrest (of_decide_eq_true hfound.2)

/-- The search for an element that is not used. -/
theorem Holds.searchFree (h : t.Holds seen) : (t.entries.findIdx? fun e => !e.used) =
    if seen.length < maxAtoms then some seen.length else none := by
  have hnone : (seen.map held).findIdx? (fun e => !e.used) = none := by
    rw [List.findIdx?_eq_none_iff]
    intro e he
    obtain ⟨s, -, rfl⟩ := List.mem_map.mp he
    rfl
  rw [h, List.findIdx?_append, hnone, List.findIdx?_replicate, Option.none_or, List.length_map]
  by_cases hroom : seen.length < maxAtoms
  · rw [if_pos hroom, if_pos ⟨Nat.sub_pos_of_lt hroom, rfl⟩, Option.map_some, Nat.zero_add]
  · rw [if_neg hroom, if_neg fun hpos => hroom (Nat.lt_of_sub_pos hpos.1), Option.map_none]

theorem Holds.set (h : t.Holds seen) (hroom : seen.length < maxAtoms) :
    (t.set seen.length (held name)).Holds (seen ++ [name]) := by
  obtain ⟨k, hk⟩ : ∃ k, maxAtoms - seen.length = k + 1 :=
    ⟨maxAtoms - seen.length - 1, by omega⟩
  have hk' : maxAtoms - (seen ++ [name]).length = k := by
    rw [List.length_append, List.length_singleton]
    omega
  unfold Holds AtomTable.set
  dsimp only
  rw [h, hk, hk', List.map_append, List.replicate_succ, ← List.length_map held,
    List.set_append_right _ _ le_rfl, Nat.sub_self, List.append_assoc]
  rfl

/-- A name is interned, and the atom is that of its place. -/
theorem Holds.add (h : t.Holds seen) (hname : name.Fits) :
    (t.userClassAddAtom name).1.Holds (intern WideName.lower maxAtoms seen name) ∧
      (t.userClassAddAtom name).2 = atomAt
        (internIndex WideName.lower (intern WideName.lower maxAtoms seen name) name) := by
  unfold userClassAddAtom
  rw [if_neg hname.1, h.search, h.searchFree]
  cases hindex : internIndex WideName.lower seen name with
  | some i =>
    rw [intern_of_some hindex, hindex]
    exact ⟨h, rfl⟩
  | none =>
    by_cases hroom : seen.length < maxAtoms
    · obtain ⟨hintern, hplace⟩ := intern_of_none hindex hroom
      have hcopied : name.copied (maxClassName - 1) = name :=
        WideName.copied_of_short (Nat.le_sub_one_of_lt hname.2)
      rw [if_pos hroom, hintern, hplace, hcopied]
      exact ⟨h.set hroom, rfl⟩
    · rw [intern_full (Nat.not_lt.mp hroom), hindex, if_neg hroom]
      exact ⟨h, rfl⟩

theorem Holds.addAll (h : t.Holds seen) (hnames : ∀ name ∈ names, name.Fits) :
    (t.addAll names).Holds (internAll WideName.lower maxAtoms seen names) := by
  induction names generalizing t seen with
  | nil => exact h
  | cons name names ih =>
    exact ih (h.add (hnames name List.mem_cons_self)).1
      fun other hother => hnames other (List.mem_cons_of_mem name hother)

theorem holds_clear : clear.Holds [] := rfl

theorem atomAt_toNat (hi : i < maxAtoms) : (atomAt (some i)).toNat = 0xC000 + i := by
  have hmax : maxAtoms = 1024 := rfl
  unfold atomAt
  rw [UInt16.toNat_add, UInt16.toNat_ofNat']
  simp only [UInt16.reduceToNat]
  omega

theorem atomAt_ne_zero (hi : i < maxAtoms) : atomAt (some i) ≠ 0 := by
  intro h
  have hnat := atomAt_toNat hi
  rw [h, UInt16.toNat_zero] at hnat
  omega

/-- Different places have different atoms. -/
theorem atomAt_inj {j : Nat} (hi : i < maxAtoms) (hj : j < maxAtoms)
    (h : atomAt (some i) = atomAt (some j)) : i = j := by
  have hnat := atomAt_toNat hi
  rw [h, atomAt_toNat hj] at hnat
  omega

/-- The name of an atom. -/
theorem Holds.getAtomName (h : t.Holds seen) (hi : i < seen.length) :
    t.userClassGetAtomName (atomAt (some i)) = seen[i]? := by
  have hmax : i < maxAtoms := Nat.lt_of_lt_of_le hi h.length_le
  have hnat := atomAt_toNat hmax
  have hlow : ¬ atomAt (some i) < 0xC000 := by
    rw [UInt16.lt_iff_toNat_lt, hnat]
    simp only [UInt16.reduceToNat]
    omega
  have hindex : (atomAt (some i) - 0xC000).toNat = i := by
    have hle : (0xC000 : UInt16) ≤ atomAt (some i) := UInt16.not_lt.mp hlow
    rw [UInt16.toNat_sub_of_le _ _ hle, hnat]
    simp only [UInt16.reduceToNat]
    omega
  unfold userClassGetAtomName
  rw [if_neg hlow, hindex, h, List.getElem?_append_left (by rwa [List.length_map]),
    List.getElem?_map, List.getElem?_eq_getElem hi]
  rfl

end AtomTable

end Wbox.User
