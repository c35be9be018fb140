import Wbox.Vm.GuestBuffer
import Mathlib.Data.List.Range

/-!
# The arguments of a window procedure

`user_call_wndproc_addr` (`src/user/user_callback.c:177–353`) puts its arguments on the stack of the
guest and starts the callback handler. For `WM_NCCREATE` and `WM_CREATE` a copy of the
`CREATESTRUCT` follows them, and its two strings: each is kept if it is an atom, and otherwise
replaced by the offset of its copy. An empty string takes two bytes, which are not written.
-/

namespace Wbox.User

open Wbox.Lib Wbox.Vm

/-- `WM_CREATE`. -/
def wmCreate : UInt32 := 0x0001
/-- `WM_NCCREATE`. -/
def wmNccreate : UInt32 := 0x0081
/-- `WPCB_SIZE`. -/
def wpcbSize : Nat := 32
/-- `CREATESTRUCTW_SIZE`. -/
def createStructSize : Nat := 48
/-- `MAX_CALLBACK_DEPTH`. -/
def maxCallbackDepth : Int32 := 16

/-- `CREATESTRUCTW`. -/
structure CreateStruct where
  lpCreateParams : UInt32
  hInstance : UInt32
  hMenu : UInt32
  hwndParent : UInt32
  cy : UInt32
  cx : UInt32
  y : UInt32
  x : UInt32
  style : UInt32
  lpszName : UInt32
  lpszClass : UInt32
  dwExStyle : UInt32
  deriving DecidableEq, Repr

/-- Read a `CREATESTRUCT`, `user_callback.c:250–261`. -/
def readCreateStruct (m : GuestMem) (va : UInt32) : CreateStruct where
  lpCreateParams := readmemll m va
  hInstance := readmemll m (va + 0x04)
  hMenu := readmemll m (va + 0x08)
  hwndParent := readmemll m (va + 0x0C)
  cy := readmemll m (va + 0x10)
  cx := readmemll m (va + 0x14)
  y := readmemll m (va + 0x18)
  x := readmemll m (va + 0x1C)
  style := readmemll m (va + 0x20)
  lpszName := readmemll m (va + 0x24)
  lpszClass := readmemll m (va + 0x28)
  dwExStyle := readmemll m (va + 0x2C)

/-- `is_atom`. -/
def isAtom (val : UInt32) : Bool := val &&& 0xFFFF0000 = 0 ∧ val &&& 0xFFFF ≠ 0

/-- The loop of `read_guest_wstr_len`, with so many characters to go. -/
def wstrLenLoop (m : GuestMem) (va : UInt32) : Nat → Nat → Nat
  | 0, len => len
  | fuel + 1, len =>
      if readmemwl m (va + UInt32.ofNat (len * 2)) = 0 then len else wstrLenLoop m va fuel (len + 1)

/-- `read_guest_wstr_len`, `user_callback.c:149–163`. -/
def readGuestWstrLen (m : GuestMem) (va : UInt32) : Nat :=
  if va = 0 then 0 else if isAtom va then 0 else wstrLenLoop m va 512 0

/-- The arguments of the callback, `user_callback.c:291–298`. -/
def callbackFields (wndproc hwnd msg wParam lParam bufSize : UInt32) : List (UInt32 × UInt32) :=
  [(0, wndproc), (4, 0), (8, hwnd), (12, msg), (16, wParam), (20, lParam), (24, bufSize), (28, 0)]

/-- The copy of the `CREATESTRUCT`, `user_callback.c:302–313`. -/
def createFields (cs : CreateStruct) (nameOffset classOffset : UInt32) : List (UInt32 × UInt32) :=
  [(0x00, cs.lpCreateParams), (0x04, cs.hInstance), (0x08, cs.hMenu), (0x0C, cs.hwndParent),
    (0x10, cs.cy), (0x14, cs.cx), (0x18, cs.y), (0x1C, cs.x), (0x20, cs.style),
    (0x24, nameOffset), (0x28, classOffset), (0x2C, cs.dwExStyle)]

/-- The loop that copies a string and ends it with a NUL, `user_callback.c:316–321`. -/
def copyWstr (m : GuestMem) (dst src : UInt32) (len : Nat) : GuestMem :=
  (List.range (len + 1)).foldl (fun m i =>
    let ch := if i < len then readmemwl m (src + UInt32.ofNat (i * 2)) else 0
    writememwl m (dst + UInt32.ofNat (i * 2)) ch) m

/-- A string is copied if it is not an atom and not empty. -/
def copyName (m : GuestMem) (dst src : UInt32) (len : Nat) : GuestMem :=
  if isAtom src = false ∧ 0 < len then copyWstr m dst src len else m

/-- The bytes a string takes, `user_callback.c:271–274`. -/
def nameBytes (m : GuestMem) (va : UInt32) : Nat :=
  if isAtom va then 0 else (readGuestWstrLen m va + 1) * 2

/-- The arguments of the callback on the stack: where they are, and how long. -/
structure CallbackArgs where
  mem : GuestMem
  va : UInt32
  length : UInt32

/-- The arguments of `WM_NCCREATE` and `WM_CREATE`, `user_callback.c:248–334`. -/
def createArguments (m : GuestMem) (esp wndproc hwnd msg wParam lParam : UInt32) : CallbackArgs :=
  let cs := readCreateStruct m lParam
  let nameLen := if isAtom cs.lpszName then 0 else readGuestWstrLen m cs.lpszName
  let classLen := if isAtom cs.lpszClass then 0 else readGuestWstrLen m cs.lpszClass
  let nameSize := nameBytes m cs.lpszName
  let bufSize := createStructSize + nameSize + nameBytes m cs.lpszClass
  let length := UInt32.ofNat (wpcbSize + bufSize)
  let va := esp - length
  let nameOffset := if isAtom cs.lpszName then cs.lpszName else UInt32.ofNat createStructSize
  let classOffset :=
    if isAtom cs.lpszClass then cs.lpszClass else UInt32.ofNat (createStructSize + nameSize)
  let m := writeFields m va (callbackFields wndproc hwnd msg wParam lParam (UInt32.ofNat bufSize))
  let csVa := va + UInt32.ofNat wpcbSize
  let m := writeFields m csVa (createFields cs nameOffset classOffset)
  let m := copyName m (csVa + UInt32.ofNat createStructSize) cs.lpszName nameLen
  let m := copyName m (csVa + UInt32.ofNat createStructSize + UInt32.ofNat nameSize) cs.lpszClass
    classLen
  { mem := m, va, length }

/-- The arguments of all other messages, `user_callback.c:335–349`. -/
def simpleArguments (m : GuestMem) (esp wndproc hwnd msg wParam lParam : UInt32) : CallbackArgs :=
  let va := esp - UInt32.ofNat wpcbSize
  { mem := writeFields m va (callbackFields wndproc hwnd msg wParam lParam 0xFFFFFFFF)
    va
    length := UInt32.ofNat wpcbSize }

/-- The handler of window procedure callbacks, `user_callback.c:197–219`: the first entry of the
`KernelCallbackTable` of the PEB that the TEB leads to. -/
def callbackHandler (m : GuestMem) : Option UInt32 :=
  let peb := readmemll m (0x7FFDF000 + 0x30)
  let table := readmemll m (peb + 0x2C)
  let handler := readmemll m table
  if peb = 0 ∨ table = 0 ∨ handler = 0 then none else some handler

/-- What the handler is started with, and the arguments it is given. -/
structure CallbackStart where
  args : CallbackArgs
  mem : GuestMem
  esp : UInt32
  pc : UInt32

/-- `user_call_wndproc_addr` up to the start of the handler, `user_callback.c:177–366`. Without one
there is no buffer. -/
def userCallWndprocAddr (m : GuestMem) (depth : Int32)
    (returnStub esp wndproc hwnd msg wParam lParam : UInt32) : Option CallbackStart :=
  if wndproc = 0 ∨ depth ≥ maxCallbackDepth then none
  else
    (callbackHandler m).map fun handler =>
      let args := if (msg = wmNccreate ∨ msg = wmCreate) ∧ lParam ≠ 0
        then createArguments m esp wndproc hwnd msg wParam lParam
        else simpleArguments m esp wndproc hwnd msg wParam lParam
      let mem := writememll args.mem (args.va - 4) args.length
      let mem := writememll mem (args.va - 8) args.va
      let mem := writememll mem (args.va - 12) returnStub
      { args, mem, esp := args.va - 12, pc := handler }

section Specification

/-- The characters of a string before its NUL. -/
structure WideString (m : GuestMem) (va : UInt32) (len : Nat) : Prop where
  chars : ∀ i < len, readmemwl m (va + UInt32.ofNat (i * 2)) ≠ 0
  nul : readmemwl m (va + UInt32.ofNat (len * 2)) = 0

/-- An atom, or the address of a string of at most 511 characters. -/
def AtomOrString (m : GuestMem) (va : UInt32) : Prop :=
  isAtom va = true ∨ 0x10000 ≤ va.toNat ∧ ∃ len ≤ 511, WideString m va len

/-- A string of the copy behind the arguments: the atom is kept, or the field is the offset of a
copy of the string that ends with a NUL, behind the structure and inside the buffer. -/
def StringKept (m m' : GuestMem) (csVa bufSize va field : UInt32) : Prop :=
  if isAtom va then field = va
  else ∀ len, WideString m va len →
    createStructSize ≤ field.toNat ∧ field.toNat + (len + 1) * 2 ≤ bufSize.toNat ∧
    (∀ i < len, readmemwl m' (csVa + field + UInt32.ofNat (i * 2)) =
      readmemwl m (va + UInt32.ofNat (i * 2))) ∧
    readmemwl m' (csVa + field + UInt32.ofNat (len * 2)) = 0

/-- The buffer decodes to the structure it was made from. -/
structure Decodes (m m' : GuestMem) (lParam argsVa : UInt32) : Prop where
  fields : readCreateStruct m' (argsVa + UInt32.ofNat wpcbSize) =
    { readCreateStruct m lParam with
      lpszName := (readCreateStruct m' (argsVa + UInt32.ofNat wpcbSize)).lpszName
      lpszClass := (readCreateStruct m' (argsVa + UInt32.ofNat wpcbSize)).lpszClass }
  name : StringKept m m' (argsVa + UInt32.ofNat wpcbSize) (readmemll m' (argsVa + 24))
    (readCreateStruct m lParam).lpszName
    (readCreateStruct m' (argsVa + UInt32.ofNat wpcbSize)).lpszName
  className : StringKept m m' (argsVa + UInt32.ofNat wpcbSize) (readmemll m' (argsVa + 24))
    (readCreateStruct m lParam).lpszClass
    (readCreateStruct m' (argsVa + UInt32.ofNat wpcbSize)).lpszClass
  apart : ∀ nameLen classLen, isAtom (readCreateStruct m lParam).lpszName = false →
    isAtom (readCreateStruct m lParam).lpszClass = false →
    WideString m (readCreateStruct m lParam).lpszName nameLen →
    WideString m (readCreateStruct m lParam).lpszClass classLen →
    (readCreateStruct m' (argsVa + UInt32.ofNat wpcbSize)).lpszName.toNat + (nameLen + 1) * 2 ≤
      (readCreateStruct m' (argsVa + UInt32.ofNat wpcbSize)).lpszClass.toNat ∨
    (readCreateStruct m' (argsVa + UInt32.ofNat wpcbSize)).lpszClass.toNat + (classLen + 1) * 2 ≤
      (readCreateStruct m' (argsVa + UInt32.ofNat wpcbSize)).lpszName.toNat

/-- The units of a string in the buffer, its NUL included; an atom has none. -/
def nameUnits (m : GuestMem) (va : UInt32) : List UInt16 :=
  if isAtom va then []
  else (List.range (readGuestWstrLen m va)).map (fun i => readmemwl m (va + UInt32.ofNat (i * 2))) ++
    [0]

/-- What the buffer is to hold: twenty words, and the units of two strings. -/
def bufferByte (words : List UInt32) (name className : List UInt16) (k : Nat) : UInt8 :=
  if k < 80 then wordByte (words.getD (k / 4) 0) (k % 4)
  else if k < 80 + name.length * 2 then halfByte (name.getD ((k - 80) / 2) 0) (k % 2)
  else halfByte (className.getD ((k - 80) / 2 - name.length) 0) (k % 2)

/-- The words of the arguments, one after the other. -/
def callbackWords (wndproc hwnd msg wParam lParam bufSize : UInt32) : List UInt32 :=
  [wndproc, 0, hwnd, msg, wParam, lParam, bufSize, 0]

/-- The words of the structure, with what stands for its strings. -/
def createWords (cs : CreateStruct) (nameOffset classOffset : UInt32) : List UInt32 :=
  [cs.lpCreateParams, cs.hInstance, cs.hMenu, cs.hwndParent, cs.cy, cs.cx, cs.y, cs.x, cs.style,
    nameOffset, classOffset, cs.dwExStyle]

/-- An atom stands for itself, and a string is at its offset. -/
def atomOr (va : UInt32) (offset : Nat) : UInt32 := if isAtom va then va else UInt32.ofNat offset

/-- What the buffer of a structure is to hold. -/
def bufferContent (m : GuestMem) (wndproc hwnd msg wParam lParam : UInt32) : Nat → UInt8 :=
  let cs := readCreateStruct m lParam
  let nameSize := nameBytes m cs.lpszName
  bufferByte
    (callbackWords wndproc hwnd msg wParam lParam
        (UInt32.ofNat (createStructSize + nameSize + nameBytes m cs.lpszClass)) ++
      createWords cs (atomOr cs.lpszName createStructSize)
        (atomOr cs.lpszClass (createStructSize + nameSize)))
    (nameUnits m cs.lpszName) (nameUnits m cs.lpszClass)

/-- A string from some byte of the buffer on. If it is empty, its NUL is there already; otherwise
those of its bytes that the buffer has taken when they are copied have been left as they were. -/
structure StringSafe (m : GuestMem) (argsVa : UInt32) (content : Nat → UInt8) (n : Nat)
    (va : UInt32) : Prop where
  empty : isAtom va = false → readGuestWstrLen m va = 0 →
    ∀ j < 2, m (argsVa + UInt32.ofNat (n + j)) = 0
  copied : isAtom va = false → ∀ i < readGuestWstrLen m va, ∀ j < 2,
    (va + UInt32.ofNat (i * 2 + j) - argsVa).toNat < n + i * 2 →
    m (va + UInt32.ofNat (i * 2 + j)) = content (va + UInt32.ofNat (i * 2 + j) - argsVa).toNat

end Specification

section Strings

variable {m m' m₁ : GuestMem} {base va src : UInt32} {content : Nat → UInt8} {n k len i : Nat}

/-- The scan stops at the first NUL, or when it runs out. -/
theorem wstrLenLoop_spec (m : GuestMem) (va : UInt32) (fuel len : Nat) :
    len ≤ wstrLenLoop m va fuel len ∧ wstrLenLoop m va fuel len ≤ len + fuel ∧
      (∀ i, len ≤ i → i < wstrLenLoop m va fuel len →
        readmemwl m (va + UInt32.ofNat (i * 2)) ≠ 0) ∧
      (wstrLenLoop m va fuel len < len + fuel →
        readmemwl m (va + UInt32.ofNat (wstrLenLoop m va fuel len * 2)) = 0) := by
  induction fuel generalizing len with
  | zero => exact ⟨Nat.le_refl _, Nat.le_refl _, fun i hlo hhi => absurd hhi (by
      unfold wstrLenLoop; omega), fun h => absurd h (by unfold wstrLenLoop; omega)⟩
  | succ fuel ih =>
    unfold wstrLenLoop
    split
    · next hnul =>
      exact ⟨Nat.le_refl _, by omega, fun i hlo hhi => absurd hhi (by omega), fun _ => hnul⟩
    · next hch =>
      obtain ⟨hle, hhi, hchars, hnul⟩ := ih (len + 1)
      refine ⟨by omega, by omega, ?_, fun h => hnul (by omega)⟩
      intro i hlo hlt
      by_cases hi : i = len
      · rw [hi]
        exact hch
      · exact hchars i (by omega) hlt

/-- A string has one length. -/
theorem WideString.unique {len' : Nat} (h : WideString m va len) (h' : WideString m va len') :
    len = len' := by
  rcases Nat.lt_trichotomy len len' with hlt | heq | hlt
  · exact absurd h.nul (h'.chars len hlt)
  · exact heq
  · exact absurd h'.nul (h.chars len' hlt)

/-- The length of a string is found. -/
theorem AtomOrString.wide (h : AtomOrString m va) (hatom : isAtom va = false) :
    WideString m va (readGuestWstrLen m va) ∧ readGuestWstrLen m va ≤ 511 := by
  rcases h with h | ⟨hva, len, hlen, hstring⟩
  · rw [hatom] at h
    cases h
  · have hne : va ≠ 0 := by
      rintro rfl
      simp at hva
    have hval : readGuestWstrLen m va = wstrLenLoop m va 512 0 := by
      unfold readGuestWstrLen
      rw [if_neg hne, hatom, if_neg Bool.false_ne_true]
    obtain ⟨-, -, hchars, hnul⟩ := wstrLenLoop_spec m va 512 0
    have hle : wstrLenLoop m va 512 0 ≤ len := by
      by_contra hlt
      exact hchars len (Nat.zero_le _) (by omega) hstring.nul
    have hwide : WideString m va (wstrLenLoop m va 512 0) :=
      ⟨fun i hi => hchars i (Nat.zero_le _) hi, hnul (by omega)⟩
    rw [hval]
    exact ⟨hwide, by omega⟩

end Strings

end Wbox.User
