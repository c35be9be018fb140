import Mathlib.Data.List.TakeWhile
import Wbox.User.Atoms
import Wbox.Vm.Strings

/-!
# Counted strings

The decoders of `UNICODE_STRING` and `LARGE_STRING` (`src/user/user_syscalls.c:66–245`), and what
`NtUserGetClassInfo` and `NtUserRegisterClassExWOW` take for the name of a class.
-/

namespace Wbox.User.CountedStrings

open Wbox.Lib Wbox.Vm

/-- `is_atom`. -/
def isAtom (ptr : UInt32) : Bool := ptr >>> 16 = 0

/-- A buffer of `wchar_t`. -/
abbrev WcharBuffer := Nat → UInt32

/-- `read_guest_mem`, `user_syscalls.c:69–80`. -/
def readGuestMem (m : PhysMem) (ctx : PagingContext) (va : UInt32) (data : Nat → UInt8)
    (size : Nat) : Nat → UInt8 :=
  (List.range size).foldl (fun data i =>
    let phys := pagingGetPhys m ctx (va + UInt32.ofNat i)
    if phys ≠ 0 then Function.update data i (memReadbPhys m phys) else data) data

/-- The loops that copy a string, with so many characters to go from one on. -/
def copyChars (m : PhysMem) (ctx : PagingContext) (char : UInt32 → UInt32) (width ptr : UInt32) :
    Nat → Nat → WcharBuffer → WcharBuffer
  | 0, _, buffer => buffer
  | n + 1, i, buffer =>
    let charPhys := pagingGetPhys m ctx (ptr + UInt32.ofNat i * width)
    if charPhys ≠ 0 then
      copyChars m ctx char width ptr n (i + 1) (Function.update buffer i (char charPhys))
    else Function.update buffer i 0

/-- The copy of a string of two-byte characters, `user_syscalls.c:152–160`, `233–242`. -/
def copyUnits (m : PhysMem) (ctx : PagingContext) (ptr : UInt32) :
    Nat → Nat → WcharBuffer → WcharBuffer :=
  copyChars m ctx (fun phys => (memReadwPhys m phys).toUInt32) 2 ptr

/-- The copy of an ANSI string, `user_syscalls.c:217–226`. -/
def copyBytes (m : PhysMem) (ctx : PagingContext) (ptr : UInt32) :
    Nat → Nat → WcharBuffer → WcharBuffer :=
  copyChars m ctx (fun phys => (memReadbPhys m phys).toUInt32) 1 ptr

/-- The number of characters that are copied. -/
def charsCopied (chars maxlen : UInt64) : UInt64 := if chars ≥ maxlen then maxlen - 1 else chars

/-- A `UNICODE_STRING`. -/
structure UnicodeString where
  length : UInt16
  buffer : UInt32
  deriving DecidableEq

/-- `read_guest_unicode_string`, `user_syscalls.c:110–161`. Behind the copy there is no `return`:
the caller finds what is left over. -/
def readGuestUnicodeString (m : PhysMem) (ctx : PagingContext) (leftover : UInt16) (va : UInt32)
    (buffer : WcharBuffer) (maxlen : UInt64) : UInt16 × WcharBuffer :=
  let buffer := Function.update buffer 0 0
  if va = 0 then (0, buffer)
  else
    let phys := pagingGetPhys m ctx va
    if phys = 0 then (0, buffer)
    else
      let length := memReadwPhys m phys
      let bufPtr := memReadlPhys m (phys + 4)
      if length = 0 ∧ bufPtr ≠ 0 ∧ isAtom bufPtr then (bufPtr.toUInt16, buffer)
      else if bufPtr = 0 ∨ length = 0 then (0, buffer)
      else
        let chars := (charsCopied (length / 2).toUInt64 maxlen).toNat
        (leftover, Function.update (copyUnits m ctx bufPtr chars 0 buffer) chars 0)

/-- A `LARGE_STRING`. -/
structure LargeString where
  length : UInt32
  maxLenAndAnsi : UInt32
  buffer : UInt32
  deriving DecidableEq

/-- `LARGE_STRING_IS_ANSI`. -/
def LargeString.isAnsi (ls : LargeString) : Bool := ls.maxLenAndAnsi >>> 31 &&& 1 ≠ 0

/-- The structure that twelve bytes hold. -/
def LargeString.ofBytes (data : Nat → UInt8) : LargeString where
  length := loadWord data 0
  maxLenAndAnsi := loadWord data 4
  buffer := loadWord data 8

/-- `read_guest_large_string`, `user_syscalls.c:182–245`; where the structure is not mapped it has
what was on the stack. -/
def readGuestLargeString (m : PhysMem) (ctx : PagingContext) (stack : Nat → UInt8) (va : UInt32)
    (buffer : WcharBuffer) (maxlen : UInt64) : UInt16 × WcharBuffer :=
  let buffer := Function.update buffer 0 0
  if va = 0 then (0, buffer)
  else if isAtom va then (va.toUInt16, buffer)
  else
    let ls := LargeString.ofBytes (readGuestMem m ctx va stack 12)
    if ls.buffer = 0 ∨ ls.length = 0 then (0, buffer)
    else if ls.isAnsi then
      let chars := (charsCopied ls.length.toUInt64 maxlen).toNat
      (0, Function.update (copyBytes m ctx ls.buffer chars 0 buffer) chars 0)
    else
      let chars := (charsCopied (ls.length / 2).toUInt64 maxlen).toNat
      (0, Function.update (copyUnits m ctx ls.buffer chars 0 buffer) chars 0)

/-- How a class is named. -/
inductive ClassKey where
  | atom (atom : UInt16)
  | name (name : WideName)

/-- The string in a buffer. -/
def nameIn (buffer : WcharBuffer) (maxlen : UInt64) : WideName where
  chars := ((List.range maxlen.toNat).map buffer).takeWhile (· ≠ 0)
  noNul h := by simpa using List.mem_takeWhile_imp h

/-- What the callers look a class up by, `user_syscalls.c:558–569`, `622–667`. -/
def classKey (result : UInt16 × WcharBuffer) (maxlen : UInt64) : ClassKey :=
  if result.1 ≠ 0 then .atom result.1 else .name (nameIn result.2 maxlen)

section Spec

/-- The atom that a string stands for. -/
def UnicodeString.atom (s : UnicodeString) : Option UInt16 :=
  if s.length = 0 ∧ s.buffer ≠ 0 ∧ isAtom s.buffer then some s.buffer.toUInt16 else none

/-- The number of characters that a buffer has room for. -/
def UnicodeString.room (s : UnicodeString) (maxlen : UInt64) : Nat :=
  min (s.length.toNat / 2) (maxlen.toNat - 1)

/-- The string at an address as the guest sees it. -/
def guestUnicodeString (m : PhysMem) (ctx : PagingContext) (va : UInt32) : UnicodeString where
  length := guestHalf m ctx va
  buffer := guestWord m ctx (va + 4)

/-- The string at an address as it is read from one physical address. -/
def seenUnicodeString (m : PhysMem) (ctx : PagingContext) (va : UInt32) : UnicodeString where
  length := memReadwPhys m (pagingGetPhys m ctx va)
  buffer := memReadlPhys m (pagingGetPhys m ctx va + 4)

/-- The large string at an address as the guest sees it. -/
def guestLargeString (m : PhysMem) (ctx : PagingContext) (va : UInt32) : LargeString where
  length := guestWord m ctx va
  maxLenAndAnsi := guestWord m ctx (va + 4)
  buffer := guestWord m ctx (va + 8)

/-- The text in a buffer: its characters and the NUL behind them. -/
def textIn (buffer : WcharBuffer) (n : Nat) : List UInt32 := (List.range (n + 1)).map buffer

/-- A string of the guest that is mapped, and its buffer too. -/
structure Mapped (m : PhysMem) (ctx : PagingContext) (va : UInt32) : Prop where
  null : va ≠ 0
  header : ∀ i < 8, pagingGetPhys m ctx (va + UInt32.ofNat i) ≠ 0
  text : (guestUnicodeString m ctx va).length ≠ 0 → (guestUnicodeString m ctx va).buffer ≠ 0 ∧
    ∀ i < (guestUnicodeString m ctx va).length.toNat,
      pagingGetPhys m ctx ((guestUnicodeString m ctx va).buffer + UInt32.ofNat i) ≠ 0

/-- A Unicode `LARGE_STRING` with the length and the buffer of a string. -/
structure SameLarge (m : PhysMem) (ctx : PagingContext) (s : UnicodeString) (va : UInt32) : Prop
    where
  pointer : isAtom va = false
  header : ∀ i < 12, pagingGetPhys m ctx (va + UInt32.ofNat i) ≠ 0
  length : (guestLargeString m ctx va).length = s.length.toUInt32
  buffer : (guestLargeString m ctx va).buffer = s.buffer
  unicode : (guestLargeString m ctx va).isAnsi = false

/-- A result that is right for the string at an address. -/
structure Decodes (m : PhysMem) (ctx : PagingContext) (va : UInt32) (maxlen : UInt64)
    (result : UInt16 × WcharBuffer) : Prop where
  atom : ∀ a, (guestUnicodeString m ctx va).atom = some a → result.1 = a
  string : (guestUnicodeString m ctx va).atom = none → result.1 = 0
  text : (guestUnicodeString m ctx va).atom = none →
    textIn result.2 ((guestUnicodeString m ctx va).room maxlen) =
      (guestUnits m ctx (guestUnicodeString m ctx va).buffer
        ((guestUnicodeString m ctx va).room maxlen)).map UInt16.toUInt32 ++ [0]
  large : (guestUnicodeString m ctx va).atom = none → ∀ stack va' buffer,
    SameLarge m ctx (guestUnicodeString m ctx va) va' →
      (readGuestLargeString m ctx stack va' buffer maxlen).1 = result.1 ∧
        textIn (readGuestLargeString m ctx stack va' buffer maxlen).2
          ((guestUnicodeString m ctx va).room maxlen) =
            textIn result.2 ((guestUnicodeString m ctx va).room maxlen)
  byName : (guestUnicodeString m ctx va).atom = none →
    ∃ name, classKey result maxlen = .name name

/-- No string is copied, nor is there one to copy, and the atom is read as it is. -/
structure NothingCopied (m : PhysMem) (ctx : PagingContext) (va : UInt32) (maxlen : UInt64) :
    Prop where
  noCopy : (seenUnicodeString m ctx va).length = 0 ∨ (seenUnicodeString m ctx va).buffer = 0
  atom : (seenUnicodeString m ctx va).atom = (guestUnicodeString m ctx va).atom
  noText : (guestUnicodeString m ctx va).room maxlen = 0

end Spec

section Reading

variable {m : PhysMem} {ctx : PagingContext} {va : UInt32} {maxlen : UInt64}

theorem readGuestMem_eq {data : Nat → UInt8} {size : Nat}
    (hmapped : ∀ i < size, pagingGetPhys m ctx (va + UInt32.ofNat i) ≠ 0) (i : Nat) :
    readGuestMem m ctx va data size i =
      if i < size then guestByte m ctx (va + UInt32.ofNat i) else data i := by
  unfold readGuestMem
  induction size with
  | zero => rfl
  | succ size ih =>
    have hlast := hmapped size (Nat.lt_succ_self size)
    rw [List.range_succ, List.foldl_append, List.foldl_cons, List.foldl_nil]
    dsimp only
    rw [if_pos hlast]
    by_cases hi : i = size
    · subst hi
      rw [Function.update_self, if_pos (Nat.lt_succ_self i)]
      rfl
    · rw [Function.update_of_ne hi, ih fun j hj => hmapped j (Nat.lt_succ_of_lt hj)]
      have hiff : i < size ↔ i < size + 1 := by omega
      simp only [hiff]

theorem charsCopied_toNat {chars : UInt64} (hmax : 1 ≤ maxlen) :
    (charsCopied chars maxlen).toNat = min chars.toNat (maxlen.toNat - 1) := by
  have hpos : 1 ≤ maxlen.toNat := UInt64.le_iff_toNat_le.mp hmax
  unfold charsCopied
  by_cases hlong : chars ≥ maxlen
  · have hle : maxlen.toNat ≤ chars.toNat := UInt64.le_iff_toNat_le.mp hlong
    rw [if_pos hlong, UInt64.toNat_sub_of_le _ _ hmax, min_eq_right (by omega)]
    rfl
  · have hlt : chars.toNat < maxlen.toNat := by
      rw [← UInt64.lt_iff_toNat_lt]
      exact UInt64.not_le.mp hlong
    rw [if_neg hlong, min_eq_left (by omega)]

theorem UnicodeString.charsCopied_eq {s : UnicodeString} (hmax : 1 ≤ maxlen) :
    (charsCopied (s.length / 2).toUInt64 maxlen).toNat = s.room maxlen := by
  rw [charsCopied_toNat hmax, UInt16.toNat_toUInt64, UInt16.toNat_div]
  rfl

theorem UnicodeString.charsCopied_large_eq {s : UnicodeString} (hmax : 1 ≤ maxlen) :
    (charsCopied (s.length.toUInt32 / 2).toUInt64 maxlen).toNat = s.room maxlen := by
  rw [charsCopied_toNat hmax, UInt32.toNat_toUInt64, UInt32.toNat_div, UInt16.toNat_toUInt32]
  rfl

theorem UnicodeString.atom_ne_zero {s : UnicodeString} {a : UInt16} (h : s.atom = some a) :
    a ≠ 0 := by
  unfold atom at h
  split at h
  · next hs =>
    obtain ⟨-, hne, hatom⟩ := hs
    obtain rfl := Option.some.inj h
    intro hzero
    apply hne
    have hlow : s.buffer.toNat % 65536 = 0 := by
      rw [← UInt32.toNat_toUInt16, hzero]
      rfl
    have hhigh : s.buffer.toNat / 65536 = 0 := by
      have hshift := congrArg UInt32.toNat (of_decide_eq_true hatom)
      rw [UInt32.toNat_shiftRight, Nat.shiftRight_eq_div_pow] at hshift
      exact hshift
    apply UInt32.toNat_inj.mp
    have hzero : (0 : UInt32).toNat = 0 := rfl
    omega
  · exact absurd h (Option.some_ne_none a).symm

theorem UnicodeString.room_of_atom {s : UnicodeString} {a : UInt16} (h : s.atom = some a) :
    s.room maxlen = 0 := by
  unfold atom at h
  split at h
  · next hs =>
    unfold room
    rw [hs.1]
    exact Nat.zero_min _
  · exact absurd h (Option.some_ne_none a).symm

/-- What is read of a string, by the structure that is seen. -/
theorem readGuestUnicodeString_eq (hnull : va ≠ 0) (hphys : pagingGetPhys m ctx va ≠ 0)
    (hmax : 1 ≤ maxlen) (leftover : UInt16) (buffer : WcharBuffer) :
    readGuestUnicodeString m ctx leftover va buffer maxlen =
      let s := seenUnicodeString m ctx va
      if s.length = 0 ∨ s.buffer = 0 then (s.atom.getD 0, Function.update buffer 0 0)
      else (leftover, Function.update (copyUnits m ctx s.buffer (s.room maxlen) 0
        (Function.update buffer 0 0)) (s.room maxlen) 0) := by
  have hroom := (seenUnicodeString m ctx va).charsCopied_eq hmax
  unfold readGuestUnicodeString
  dsimp only
  rw [if_neg hnull, if_neg hphys, ← hroom]
  unfold seenUnicodeString UnicodeString.atom
  dsimp only
  by_cases hatom : memReadwPhys m (pagingGetPhys m ctx va) = 0 ∧
      memReadlPhys m (pagingGetPhys m ctx va + 4) ≠ 0 ∧
        isAtom (memReadlPhys m (pagingGetPhys m ctx va + 4))
  · rw [if_pos hatom, if_pos (Or.inl hatom.1), if_pos hatom, Option.getD_some]
  · rw [if_neg hatom, if_neg hatom]
    simp only [or_comm, Option.getD_none]

/-- What is read of a large string with the same length and buffer. -/
theorem readGuestLargeString_eq {s : UnicodeString} (h : SameLarge m ctx s va) (hmax : 1 ≤ maxlen)
    (stack : Nat → UInt8) (buffer : WcharBuffer) :
    readGuestLargeString m ctx stack va buffer maxlen =
      if s.length = 0 ∨ s.buffer = 0 then (0, Function.update buffer 0 0)
      else (0, Function.update (copyUnits m ctx s.buffer (s.room maxlen) 0
        (Function.update buffer 0 0)) (s.room maxlen) 0) := by
  have hbytes : ∀ i < 12, readGuestMem m ctx va stack 12 i =
      guestByte m ctx (va + UInt32.ofNat i) :=
    fun i hi => (readGuestMem_eq h.header i).trans (if_pos hi)
  have hword : ∀ k ≤ 8, loadWord (readGuestMem m ctx va stack 12) k =
      guestWord m ctx (va + UInt32.ofNat k) := by
    intro k hk
    unfold guestWord loadWord
    simp only [hbytes k (by omega), hbytes (k + 1) (by omega), hbytes (k + 2) (by omega),
      hbytes (k + 3) (by omega), UInt32.add_assoc, ← UInt32.ofNat_add, Nat.zero_add, Nat.add_zero]
  have hls : LargeString.ofBytes (readGuestMem m ctx va stack 12) = guestLargeString m ctx va := by
    unfold LargeString.ofBytes guestLargeString
    rw [hword 0 (by omega), hword 4 (by omega), hword 8 (by omega),
      show UInt32.ofNat 0 = 0 from rfl, UInt32.add_zero]
    rfl
  have hnull : va ≠ 0 := by
    rintro rfl
    exact absurd h.pointer (by decide)
  have hzero : s.length.toUInt32 = 0 ↔ s.length = 0 := by
    rw [← UInt32.toNat_inj, ← UInt16.toNat_inj, UInt16.toNat_toUInt32]
    rfl
  have hpointer : ¬ isAtom va = true := by rw [h.pointer]; exact Bool.false_ne_true
  have hunicode : ¬ (guestLargeString m ctx va).isAnsi = true := by
    rw [h.unicode]
    exact Bool.false_ne_true
  unfold readGuestLargeString
  dsimp only
  rw [if_neg hnull, if_neg hpointer, hls, h.length, h.buffer]
  by_cases hs : s.length = 0 ∨ s.buffer = 0
  · rw [if_pos hs, if_pos (hs.symm.imp id hzero.mpr)]
  · have hs' : ¬ (s.buffer = 0 ∨ s.length.toUInt32 = 0) :=
      fun hor => hs (hor.symm.imp hzero.mp id)
    rw [if_neg hs, if_neg hs', if_neg hunicode, s.charsCopied_large_eq hmax]

end Reading

section Decoding

variable {m : PhysMem} {ctx : PagingContext} {va : UInt32} {maxlen : UInt64}

theorem textIn_zero (buffer : WcharBuffer) : textIn buffer 0 = [buffer 0] := rfl

/-- A string is decoded whatever is left over exactly if nothing is copied: only the paths without a
copy return a result. -/
theorem readGuestUnicodeString_decodes_iff (h : Mapped m ctx va) (hmax : 1 ≤ maxlen) :
    (∀ leftover buffer, Decodes m ctx va maxlen
      (readGuestUnicodeString m ctx leftover va buffer maxlen)) ↔
        NothingCopied m ctx va maxlen := by
  have hphys : pagingGetPhys m ctx va ≠ 0 := by
    have hfirst := h.header 0 (by omega)
    rwa [show UInt32.ofNat 0 = 0 from rfl, UInt32.add_zero] at hfirst
  have hread := readGuestUnicodeString_eq h.null hphys hmax
  constructor
  · intro hall
    have hnoCopy : (seenUnicodeString m ctx va).length = 0 ∨
        (seenUnicodeString m ctx va).buffer = 0 := by
      by_contra hcopied
      -- a leftover that is neither the atom nor 0
      have hleft : ∀ leftover, (readGuestUnicodeString m ctx leftover va (fun _ => 0) maxlen).1 =
          leftover := by
        intro leftover
        rw [hread]
        dsimp only
        rw [if_neg hcopied]
      cases hatom : (guestUnicodeString m ctx va).atom with
      | none =>
        have hone := (hall 1 fun _ => 0).string hatom
        rw [hleft] at hone
        exact absurd hone (by decide)
      | some a =>
        have hzero := (hall 0 fun _ => 0).atom a hatom
        rw [hleft] at hzero
        exact UnicodeString.atom_ne_zero hatom hzero.symm
    have hresult : ∀ leftover buffer, readGuestUnicodeString m ctx leftover va buffer maxlen =
        ((seenUnicodeString m ctx va).atom.getD 0, Function.update buffer 0 0) := by
      intro leftover buffer
      rw [hread]
      dsimp only
      rw [if_pos hnoCopy]
    cases hatom : (guestUnicodeString m ctx va).atom with
    | some a =>
      have hret := (hall 0 fun _ => 0).atom a hatom
      rw [hresult] at hret
      refine ⟨hnoCopy, ?_, UnicodeString.room_of_atom hatom⟩
      cases hseen : (seenUnicodeString m ctx va).atom with
      | none =>
        rw [hseen] at hret
        exact absurd hret.symm (UnicodeString.atom_ne_zero hatom)
      | some b =>
        rw [hseen] at hret
        rw [hatom]
        exact congrArg some hret
    | none =>
      have hret := (hall 0 fun _ => 1).string hatom
      have htext := (hall 0 fun _ => 1).text hatom
      rw [hresult] at hret htext
      refine ⟨hnoCopy, ?_, ?_⟩
      · cases hseen : (seenUnicodeString m ctx va).atom with
        | none => exact hatom.symm
        | some b =>
          rw [hseen] at hret
          exact absurd hret (UnicodeString.atom_ne_zero hseen)
      · -- the NUL behind the text is the one at the start of the buffer
        by_contra hroom
        have hlast := congrArg List.getLast? htext
        unfold textIn at hlast
        dsimp only at hlast
        rw [List.range_succ, List.map_append, List.getLast?_append, List.getLast?_append,
          List.map_singleton, Function.update_of_ne hroom] at hlast
        exact absurd (Option.some.inj hlast) (by decide)
  · intro hnothing leftover buffer
    have hresult : readGuestUnicodeString m ctx leftover va buffer maxlen =
        ((guestUnicodeString m ctx va).atom.getD 0, Function.update buffer 0 0) := by
      rw [hread, ← hnothing.atom]
      dsimp only
      rw [if_pos hnothing.noCopy]
    rw [hresult]
    refine ⟨?atom, ?string, ?text, ?large, ?byName⟩
    case atom =>
      intro a hatom
      rw [hatom]
      rfl
    case string =>
      intro hatom
      rw [hatom]
      rfl
    case text =>
      intro _
      rw [hnothing.noText, textIn_zero]
      dsimp only
      rw [Function.update_self]
      rfl
    case large =>
      intro hatom stack va' buffer' hlarge
      rw [readGuestLargeString_eq hlarge hmax, hnothing.noText, textIn_zero, textIn_zero, hatom]
      split
      · dsimp only
        exact ⟨rfl, by rw [Function.update_self, Function.update_self]⟩
      · dsimp only
        exact ⟨rfl, by rw [Function.update_self, Function.update_self]⟩
    case byName =>
      intro hatom
      rw [hatom]
      exact ⟨_, rfl⟩

end Decoding

section Example

/-- The page at 0x10000 in frame 0x5000, with a structure at 0x10010 and one character behind it. -/
def pageWith (header : List UInt8) : PhysMem :=
  ((((⟨fun _ => 0, 0x10000⟩ : PhysMem).writeBytes 0x1000 [1, 0x20]).writeBytes 0x2040
    [1, 0x50]).writeBytes 0x5010 header).writeBytes 0x5020 [0x42, 0]

/-- The string `B`. -/
def stringB : PhysMem := pageWith [2, 0, 4, 0, 0x20, 0, 1, 0]

/-- The atom 0xC001. -/
def atomString : PhysMem := pageWith [0, 0, 0, 0, 1, 0xC0, 0, 0]

/-- The string `B` is copied, and what is left over is returned. -/
theorem readGuestUnicodeString_not_decodes :
    ¬ ∀ m ctx va maxlen, 1 ≤ maxlen → Mapped m ctx va → ∀ leftover buffer,
      Decodes m ctx va maxlen (readGuestUnicodeString m ctx leftover va buffer maxlen) := by
  intro hall
  have hmapped : Mapped stringB ⟨0x1000⟩ 0x10010 :=
    ⟨by decide, by decide, fun _ => ⟨by decide, by decide⟩⟩
  have hret := (hall stringB ⟨0x1000⟩ 0x10010 256 (by decide) hmapped 1 fun _ => 0).string
    (by decide)
  exact absurd hret (by decide)

/-- An atom is decoded. -/
theorem readGuestUnicodeString_decodes_atomString : Decodes atomString ⟨0x1000⟩ 0x10010 256
    (readGuestUnicodeString atomString ⟨0x1000⟩ 1 0x10010 (fun _ => 0) 256) :=
  (readGuestUnicodeString_decodes_iff
    ⟨by decide, by decide, fun hlength => absurd hlength (by decide)⟩ (by decide)).mpr
      ⟨by decide, by decide, by decide⟩ 1 fun _ => 0

end Example

end Wbox.User.CountedStrings
