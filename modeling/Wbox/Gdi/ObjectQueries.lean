import Wbox.Gdi.HandleTable
import Wbox.Gdi.TextOut
import Wbox.Nt.HeapRealloc
import Wbox.Vm.FieldWrites

/-!
# Querying GDI objects

`NtGdiExtGetObjectW` (`src/nt/win32k_dispatcher.c:869–1023`) writes the structure of an object to a
buffer, field by field, each under a threshold of its own. It reports the bytes asked for; it has
written these exactly if they end where a field ends, with the face name no longer than its text.
-/

namespace Wbox.Gdi

open Wbox.Lib Wbox.Lib.Logged Wbox.Vm Wbox.Nt

/-- `gdi_pen_t`. -/
structure LogPen extends GdiPen where
  width : Int32
  deriving DecidableEq, Repr

/-- `gdi_brush_t`. -/
structure LogBrush extends GdiBrush where
  hatchStyle : Int32
  deriving DecidableEq, Repr

/-- `gdi_font_t`; the face name is read at the indices below 32. -/
structure LogFont extends GdiFont where
  weight : Int32
  escapement : Int32
  orientation : Int32
  italic : Bool
  underline : Bool
  strikeout : Bool
  charSet : Int32
  pitchAndFamily : Int32
  faceName : Nat → UInt8

/-- `gdi_palette_t`. -/
structure GdiPalette where
  entryCount : Int32
  deriving DecidableEq, Repr

/-- The objects that pointers point to, by the type that a pointer is cast to. -/
structure GdiObjects where
  pen : GdiPtr → LogPen
  brush : GdiPtr → LogBrush
  font : GdiPtr → LogFont
  bitmap : GdiPtr → GdiBitmap
  palette : GdiPtr → GdiPalette

/-- An object of a type that can be queried. -/
inductive LogObject where
  | pen (pen : LogPen)
  | brush (brush : LogBrush)
  | font (font : LogFont)
  | bitmap (bitmap : GdiBitmap)
  | palette (palette : GdiPalette)

/-- The object of a pointer and a type; there is none of another type. -/
def GdiObjects.log (s : GdiObjects) (object : GdiPtr) (type : UInt8) : Option LogObject :=
  if type = gdiObjPen then some (.pen (s.pen object))
  else if type = gdiObjBrush then some (.brush (s.brush object))
  else if type = gdiObjFont then some (.font (s.font object))
  else if type = gdiObjBitmap then some (.bitmap (s.bitmap object))
  else if type = gdiObjPalette then some (.palette (s.palette object))
  else none

/-- `size_needed`, `win32k_dispatcher.c:883–903`. -/
def LogObject.sizeNeeded : LogObject → Int32
  | pen _ => 16
  | brush _ => 12
  | font _ => 92
  | bitmap _ => 24
  | palette _ => 2

/-- `write_guest_dword`. -/
def writeGuestDword (ctx : PagingContext) (guestPtr value : UInt32) : PhysM PUnit :=
  writeGuest ctx guestPtr fun phys => writel phys value

/-- `write_guest_word`. -/
def writeGuestWord (ctx : PagingContext) (guestPtr : UInt32) (value : UInt16) : PhysM PUnit :=
  writeGuest ctx guestPtr fun phys => writew phys value

/-- `write_guest_byte`. -/
def writeGuestByte (ctx : PagingContext) (guestPtr : UInt32) (value : UInt8) : PhysM PUnit :=
  writeGuest ctx guestPtr fun phys => writeb phys value

/-- A field is written with the call for its size. -/
def writeField (ctx : PagingContext) (guestPtr : UInt32) : GuestField → PhysM PUnit
  | .dword val => writeGuestDword ctx guestPtr val
  | .word val => writeGuestWord ctx guestPtr val
  | .byte val => writeGuestByte ctx guestPtr val

/-- `if (count >= need) write_guest_…(buffer_ptr + offset, …)`. -/
structure FieldWrite where
  need : Int32
  offset : UInt32
  field : GuestField
  deriving DecidableEq, Repr

/-- The fields of a structure, each if the count reaches it. -/
def writeFields (ctx : PagingContext) (bufferPtr : UInt32) (count : Int32)
    (fields : List FieldWrite) : PhysM PUnit :=
  fields.forM fun f =>
    if count ≥ f.need then writeField ctx (bufferPtr + f.offset) f.field else return

/-- `LOGPEN`, `win32k_dispatcher.c:929–932`. -/
def penStruct (pen : LogPen) : List FieldWrite :=
  [⟨4, 0, .dword pen.style.toUInt32⟩, ⟨8, 4, .dword pen.width.toUInt32⟩, ⟨12, 8, .dword 0⟩,
   ⟨16, 12, .dword pen.color⟩]

/-- `LOGBRUSH`, `win32k_dispatcher.c:943–945`. -/
def brushStruct (brush : LogBrush) : List FieldWrite :=
  [⟨4, 0, .dword brush.style.toUInt32⟩, ⟨8, 4, .dword brush.color⟩,
   ⟨12, 8, .dword brush.hatchStyle.toUInt32⟩]

/-- `BITMAP`, `win32k_dispatcher.c:960–966`. -/
def bitmapStruct (bmp : GdiBitmap) : List FieldWrite :=
  [⟨4, 0, .dword 0⟩, ⟨8, 4, .dword bmp.width.toUInt32⟩, ⟨12, 8, .dword bmp.height.toUInt32⟩,
   ⟨16, 12, .dword bmp.pitch.toUInt32⟩, ⟨18, 16, .word bmp.planes.toUInt32.toUInt16⟩,
   ⟨20, 18, .word bmp.bitsPerPixel.toUInt32.toUInt16⟩, ⟨24, 20, .dword 0⟩]

/-- `LOGFONTW` without the face name, `win32k_dispatcher.c:988–1000`. -/
def fontStruct (font : LogFont) : List FieldWrite :=
  [⟨4, 0, .dword font.height.toUInt32⟩, ⟨8, 4, .dword font.width.toUInt32⟩,
   ⟨12, 8, .dword font.escapement.toUInt32⟩, ⟨16, 12, .dword font.orientation.toUInt32⟩,
   ⟨20, 16, .dword font.weight.toUInt32⟩, ⟨21, 20, .byte (if font.italic then 1 else 0)⟩,
   ⟨22, 21, .byte (if font.underline then 1 else 0)⟩,
   ⟨23, 22, .byte (if font.strikeout then 1 else 0)⟩,
   ⟨24, 23, .byte font.charSet.toUInt32.toUInt8⟩, ⟨25, 24, .byte 0⟩, ⟨26, 25, .byte 0⟩,
   ⟨27, 26, .byte 0⟩, ⟨28, 27, .byte font.pitchAndFamily.toUInt32.toUInt8⟩]

/-- The palette has only the number of its entries, `win32k_dispatcher.c:1016`. -/
def paletteStruct (pal : GdiPalette) : List FieldWrite :=
  [⟨2, 0, .word pal.entryCount.toUInt32.toUInt16⟩]

/-- The loop over the characters of a face name, `win32k_dispatcher.c:1005–1009`, from one of them
on, with so many left. -/
def writeFaceName (ctx : PagingContext) (bufferPtr : UInt32) (faceName : Nat → UInt8) :
    Nat → Nat → PhysM PUnit
  | 0, _ => return
  | n + 1, i => do
    let wch : UInt16 := (faceName i).toUInt16
    writeGuestWord ctx (bufferPtr + 28 + UInt32.ofNat (i * 2)) wch
    if wch = 0 then return
    else writeFaceName ctx bufferPtr faceName n (i + 1)

/-- The fields of an object, as far as a count reaches, `win32k_dispatcher.c:919–1019`. -/
def writeObject (ctx : PagingContext) (bufferPtr : UInt32) (count : Int32) :
    LogObject → PhysM PUnit
  | .pen pen => writeFields ctx bufferPtr count (penStruct pen)
  | .brush brush => writeFields ctx bufferPtr count (brushStruct brush)
  | .bitmap bmp => writeFields ctx bufferPtr count (bitmapStruct bmp)
  | .palette pal => writeFields ctx bufferPtr count (paletteStruct pal)
  | .font font => do
    writeFields ctx bufferPtr count (fontStruct font)
    if count > 28 then
      let maxChars := (count - 28) / 2
      let maxChars := if maxChars > 32 then 32 else maxChars
      writeFaceName ctx bufferPtr font.faceName maxChars.toInt.toNat 0

/-- `sys_NtGdiExtGetObjectW`, `win32k_dispatcher.c:869–1023`: what it leaves in `EAX`. -/
def sysNtGdiExtGetObjectW (ctx : PagingContext) (t : GdiHandleTable) (s : GdiObjects)
    (hobject : UInt32) (count : Int32) (bufferPtr : UInt32) : PhysM UInt32 :=
  match gdiGetObjectAny t hobject with
  | (some object, some type) =>
      match s.log object type with
      | none => return 0
      | some obj =>
          let sizeNeeded := obj.sizeNeeded
          if bufferPtr = 0 then return sizeNeeded.toUInt32
          else
            let count := if count > sizeNeeded then sizeNeeded else count
            if count ≤ 0 then return 0
            else do
              writeObject ctx bufferPtr count obj
              return count.toUInt32
  | _ => return 0

section Layouts

variable {ctx : PagingContext} {va : UInt32} {count : Int32} {k o : Nat}
variable {fs : List FieldWrite} {obj : LogObject}

/-- The fields follow one another from an offset on, and each needs the bytes up to its end. -/
def Packed : Nat → List FieldWrite → Prop
  | _, [] => True
  | o, f :: fs => f.offset = UInt32.ofNat o ∧ f.need.toInt = (o + f.field.size : Nat) ∧
      Packed (o + f.field.size) fs

/-- The words of a face name from a character on, at most so many, as far as the first `NUL`. -/
def faceNameWords (faceName : Nat → UInt8) : Nat → Nat → List GuestField
  | 0, _ => []
  | n + 1, i =>
      .word (faceName i).toUInt16 :: if faceName i = 0 then [] else faceNameWords faceName n (i + 1)

/-- All fields of the structure of an object; a face name ends with its `NUL`. -/
def LogObject.fields : LogObject → List GuestField
  | .pen p => (penStruct p).map (·.field)
  | .brush b => (brushStruct b).map (·.field)
  | .bitmap b => (bitmapStruct b).map (·.field)
  | .palette p => (paletteStruct p).map (·.field)
  | .font f => (fontStruct f).map (·.field) ++ faceNameWords f.faceName 32 0

/-- The bytes of its structure that a call with a count is to write. -/
def LogObject.cut (obj : LogObject) (count : Int32) : Nat :=
  min count.toInt.toNat obj.sizeNeeded.toInt.toNat

theorem writeField_eq (ctx : PagingContext) (guestPtr : UInt32) (f : GuestField) :
    writeField ctx guestPtr f = writeGuest ctx guestPtr f.put := by
  cases f <;> rfl

/-- The writes of a packed structure are those of the fields that end in the first bytes. -/
theorem writeFields_packed (hpacked : Packed o fs) (hcount : count.toInt = k) :
    writeFields ctx va count fs =
      writePlaced ctx va (endingBy k (placed o (fs.map (·.field)))) := by
  induction fs generalizing o with
  | nil => rfl
  | cons f fs ih =>
    obtain ⟨hoffset, hneed, hrest⟩ := hpacked
    have hreach : count ≥ f.need ↔ o + f.field.size ≤ k := by
      rw [ge_iff_le, Int32.le_iff_toInt_le, hneed, hcount]
      omega
    have hsplit : writeFields ctx va count (f :: fs) =
        ((if count ≥ f.need then writeField ctx (va + f.offset) f.field else return) >>= fun _ =>
          writeFields ctx va count fs) := rfl
    rw [hsplit, ih hrest, List.map_cons, placed]
    by_cases hin : o + f.field.size ≤ k
    · rw [if_pos (hreach.mpr hin), endingBy_cons_of_le hin, writeField_eq, hoffset]
      rfl
    · rw [if_neg fun h => hin (hreach.mp h), endingBy_cons_of_not_le hin]
      rfl

theorem penStruct_packed (pen : LogPen) : Packed 0 (penStruct pen) :=
  ⟨rfl, rfl, rfl, rfl, rfl, rfl, rfl, rfl, trivial⟩

theorem brushStruct_packed (brush : LogBrush) : Packed 0 (brushStruct brush) :=
  ⟨rfl, rfl, rfl, rfl, rfl, rfl, trivial⟩

theorem bitmapStruct_packed (bmp : GdiBitmap) : Packed 0 (bitmapStruct bmp) :=
  ⟨rfl, rfl, rfl, rfl, rfl, rfl, rfl, rfl, rfl, rfl, rfl, rfl, rfl, rfl, trivial⟩

theorem fontStruct_packed (font : LogFont) : Packed 0 (fontStruct font) :=
  ⟨rfl, rfl, rfl, rfl, rfl, rfl, rfl, rfl, rfl, rfl, rfl, rfl, rfl, rfl, rfl, rfl, rfl, rfl, rfl,
    rfl, rfl, rfl, rfl, rfl, rfl, rfl, trivial⟩

theorem paletteStruct_packed (pal : GdiPalette) : Packed 0 (paletteStruct pal) :=
  ⟨rfl, rfl, trivial⟩

/-- The loop writes the words of the face name that end in the first bytes. -/
theorem writeFaceName_eq (ctx : PagingContext) (va : UInt32) (faceName : Nat → UInt8) (k : Nat)
    {n m i : Nat} (hn : n = min m ((k - 28) / 2 - i)) :
    writeFaceName ctx va faceName n i =
      writePlaced ctx va (endingBy k (placed (28 + 2 * i) (faceNameWords faceName m i))) := by
  induction m generalizing n i with
  | zero =>
    obtain rfl : n = 0 := by omega
    rfl
  | succ m ih =>
    have hsize : (GuestField.word (faceName i).toUInt16).size = 2 := rfl
    rw [faceNameWords, placed]
    by_cases hin : 28 + 2 * i + (GuestField.word (faceName i).toUInt16).size ≤ k
    · obtain ⟨n', rfl⟩ : ∃ n', n = n' + 1 := ⟨n - 1, by omega⟩
      have haddr : va + 28 + UInt32.ofNat (i * 2) = va + UInt32.ofNat (28 + 2 * i) := by
        rw [UInt32.add_assoc, UInt32.ofNat_add, Nat.mul_comm]
        rfl
      have hword : (faceName i).toUInt16 = 0 ↔ faceName i = 0 := by
        rw [← UInt16.toNat_inj, ← UInt8.toNat_inj, UInt8.toNat_toUInt16]
        rfl
      rw [writeFaceName, endingBy_cons_of_le hin, haddr]
      by_cases hnul : faceName i = 0
      · rw [if_pos (hword.mpr hnul), if_pos hnul]
        rfl
      · rw [if_neg fun h => hnul (hword.mp h), if_neg hnul, ih (i := i + 1) (n := n') (by omega)]
        rfl
    · obtain rfl : n = 0 := by omega
      rw [endingBy_cons_of_not_le hin, endingBy_of_le (by omega)]
      rfl

/-- The number of characters that fit in a count. -/
theorem maxChars_eq (hcount : count.toInt = k) (hk : 28 < k ∧ k ≤ 92) :
    (if (count - 28) / 2 > (32 : Int32) then 32 else (count - 28) / 2 : Int32).toInt.toNat =
      min 32 ((k - 28) / 2 - 0) := by
  have hsub : (count - 28).toInt = k - 28 := by
    have h28 : (28 : Int32).toInt = 28 := rfl
    rw [int_sub_of_fits (by omega) (by omega), hcount, h28]
  have hdiv : ((count - 28) / 2).toInt = ((k - 28 : Int) / 2) := by
    have h2 : (2 : Int32).toInt = 2 := rfl
    rw [Int32.toInt_div, hsub, h2, Int.tdiv_eq_ediv_of_nonneg (by omega),
      bmod_of_fits (by omega) (by omega)]
  have hle : ¬ (count - 28) / 2 > (32 : Int32) := by
    have h32 : (32 : Int32).toInt = 32 := rfl
    rw [gt_iff_lt, Int32.lt_iff_toInt_lt, hdiv, h32]
    omega
  rw [if_neg hle, hdiv]
  omega

/-- The writes of an object are those of the fields that end in the first bytes. -/
theorem writeObject_eq (ctx : PagingContext) (va : UInt32) (obj : LogObject)
    (hcount : count.toInt = k) (hk : k ≤ 92) :
    writeObject ctx va count obj = writePlaced ctx va (endingBy k (placed 0 obj.fields)) := by
  cases obj with
  | pen pen => exact writeFields_packed (penStruct_packed pen) hcount
  | brush brush => exact writeFields_packed (brushStruct_packed brush) hcount
  | bitmap bmp => exact writeFields_packed (bitmapStruct_packed bmp) hcount
  | palette pal => exact writeFields_packed (paletteStruct_packed pal) hcount
  | font font =>
    have hsize : sizeOfFields ((fontStruct font).map (·.field)) = 28 := rfl
    have hname : (if count > 28 then writeFaceName ctx va font.faceName
        (if (count - 28) / 2 > (32 : Int32) then 32 else (count - 28) / 2 : Int32).toInt.toNat 0
        else return) =
        writePlaced ctx va (endingBy k (placed 28 (faceNameWords font.faceName 32 0))) := by
      have h28 : (28 : Int32).toInt = 28 := rfl
      by_cases hmore : count > 28
      · have hlt : 28 < k := by
          rw [gt_iff_lt, Int32.lt_iff_toInt_lt, h28, hcount] at hmore
          omega
        rw [if_pos hmore, maxChars_eq hcount ⟨hlt, hk⟩]
        exact writeFaceName_eq ctx va font.faceName k rfl
      · have hle : k ≤ 28 := by
          rw [gt_iff_lt, Int32.lt_iff_toInt_lt, h28, hcount] at hmore
          omega
        rw [if_neg hmore, endingBy_of_le hle]
        rfl
    rw [LogObject.fields, placed_append, hsize, endingBy_append, writePlaced_append,
      ← writeFields_packed (fontStruct_packed font) hcount, Nat.zero_add, ← hname]
    rfl

end Layouts

section Queries

variable {vm : PagedVm} {t : GdiHandleTable} {s : GdiObjects} {hobject bufferPtr : UInt32}
variable {obj : LogObject} {count : Int32} {m : PhysMem}

/-- The object of a live handle that can be queried. -/
def liveObject (t : GdiHandleTable) (s : GdiObjects) (hobject : UInt32) : Option LogObject :=
  match gdiGetObjectAny t hobject with
  | (some object, some type) => s.log object type
  | _ => none

/-- The bytes of a buffer. -/
def bufferOf (vm : PagedVm) (bufferPtr : UInt32) (k : Nat) : GuestBuffer := ⟨vm.mem, bufferPtr, k⟩

/-- The bytes of memory outside a buffer. -/
def outsideOf (vm : PagedVm) (bufferPtr : UInt32) (k : Nat) : Set Nat :=
  {x | ∀ a ∈ (bufferOf vm bufferPtr k).bytes vm.paging.toPagingContext, a.toNat ≠ x}

/-- The call in a machine. -/
def getObject (vm : PagedVm) (t : GdiHandleTable) (s : GdiObjects) (hobject bufferPtr : UInt32)
    (count : Int32) : PhysM UInt32 :=
  sysNtGdiExtGetObjectW vm.paging.toPagingContext t s hobject count bufferPtr

/-- What the guest finds in the buffer after the call. -/
def bufferAfter (vm : PagedVm) (m : PhysMem) (bufferPtr : UInt32) (k : Nat) (x : PhysM UInt32) :
    List UInt8 :=
  guestBytes (x.after m) vm.paging.toPagingContext bufferPtr k

/-- A call that is to report `k` bytes has written just these, as a call for the whole structure
does, whatever they were before. -/
structure PrefixLaw (vm : PagedVm) (t : GdiHandleTable) (s : GdiObjects)
    (hobject bufferPtr : UInt32) (size count : Int32) (k : Nat) : Prop where
  reports : (getObject vm t s hobject bufferPtr count).value vm.mem = UInt32.ofNat k
  writes : ∀ a, a ∈ writesOf ((getObject vm t s hobject bufferPtr count).events vm.mem) ↔
    a ∈ (bufferOf vm bufferPtr k).bytes vm.paging.toPagingContext
  full : bufferAfter vm vm.mem bufferPtr k (getObject vm t s hobject bufferPtr count) =
    bufferAfter vm vm.mem bufferPtr k (getObject vm t s hobject bufferPtr size)
  beyond : SameOn (outsideOf vm bufferPtr k) vm.mem
    ((getObject vm t s hobject bufferPtr count).after vm.mem)
  fresh : ∀ m, SameOn (outsideOf vm bufferPtr k) vm.mem m →
    bufferAfter vm m bufferPtr k (getObject vm t s hobject bufferPtr count) =
      bufferAfter vm vm.mem bufferPtr k (getObject vm t s hobject bufferPtr count)

/-- A structure has a size. -/
theorem LogObject.sizeNeeded_bounds (obj : LogObject) :
    0 < obj.sizeNeeded.toInt ∧ obj.sizeNeeded.toInt ≤ 92 := by
  cases obj <;> simp [sizeNeeded]

/-- The count, clamped to the structure. -/
theorem clamped_eq (obj : LogObject) (hcount : 0 < count) :
    (if count > obj.sizeNeeded then obj.sizeNeeded else count).toInt = obj.cut count ∧
      0 < obj.cut count ∧ obj.cut count ≤ 92 := by
  obtain ⟨hpos, hle⟩ := obj.sizeNeeded_bounds
  have hzero : (0 : Int32).toInt = 0 := rfl
  rw [Int32.lt_iff_toInt_lt, hzero] at hcount
  unfold LogObject.cut
  refine ⟨?_, by omega, by omega⟩
  by_cases hover : count > obj.sizeNeeded
  · have hlt := Int32.lt_iff_toInt_lt.mp hover
    rw [if_pos hover]
    omega
  · have hnlt : ¬ obj.sizeNeeded.toInt < count.toInt := fun h => hover (Int32.lt_iff_toInt_lt.mpr h)
    rw [if_neg hover]
    omega

/-- A call for a live object with a buffer. -/
theorem getObject_eq (ctx : PagingContext) (hlive : liveObject t s hobject = some obj)
    (hbuffer : bufferPtr ≠ 0) (hcount : 0 < count) :
    sysNtGdiExtGetObjectW ctx t s hobject count bufferPtr =
      (writePlaced ctx bufferPtr (endingBy (obj.cut count) (placed 0 obj.fields)) >>= fun _ =>
        pure (UInt32.ofNat (obj.cut count))) := by
  obtain ⟨hclamped, hpos, hle⟩ := clamped_eq obj hcount
  unfold liveObject at hlive
  unfold sysNtGdiExtGetObjectW
  generalize hfound : gdiGetObjectAny t hobject = found at hlive
  obtain ⟨_ | object, _ | type⟩ := found
  · cases hlive
  · cases hlive
  · cases hlive
  dsimp only at hlive ⊢
  rw [hlive]
  dsimp only
  generalize (if count > obj.sizeNeeded then obj.sizeNeeded else count) = c at hclamped ⊢
  have hsome : ¬ c ≤ 0 := by
    have hzero : (0 : Int32).toInt = 0 := rfl
    rw [Int32.le_iff_toInt_le, hclamped, hzero]
    omega
  have hreport : c.toUInt32 = UInt32.ofNat (obj.cut count) := by
    apply UInt32.toNat_inj.mp
    rw [toNat_toUInt32 (by omega), hclamped, UInt32.toNat_ofNat']
    omega
  rw [if_neg hbuffer, if_neg hsome, writeObject_eq ctx bufferPtr obj hclamped hle, hreport]

/-- The bytes of a mapped buffer. -/
theorem mem_bytes_iff (vm : PagedVm) (bufferPtr : UInt32) (k : Nat) (a : UInt32) :
    a ∈ (bufferOf vm bufferPtr k).bytes vm.paging.toPagingContext ↔
      ∃ i < k, vm.translate (bufferPtr + UInt32.ofNat i) = a := by
  constructor
  · intro ha
    obtain ⟨i, hi, heq⟩ := List.mem_map.mp ha
    exact ⟨i, List.mem_range.mp hi, heq⟩
  · intro ⟨i, hi, heq⟩
    exact List.mem_map.mpr ⟨i, List.mem_range.mpr hi, heq⟩

theorem bufferOf_mapped {k : Nat} (h : ∀ i < k, pagingIsMapped vm.mem vm.paging.toPagingContext
    (bufferPtr + UInt32.ofNat i) = true) :
    (bufferOf vm bufferPtr k).Mapped vm.paging.toPagingContext := h

/-- What is mapped has an address. -/
theorem translate_of_mapped (h : PageTables vm) {va : UInt32}
    (hmapped : pagingIsMapped vm.mem vm.paging.toPagingContext va = true) :
    vm.translate va ≠ 0 := by
  have hpresent := (isMapped_iff_entry vm va).mp hmapped
  have hframe := h.frames va hpresent
  have hfirst := h.first
  have hlast := h.last
  intro hzero
  have hnat := congrArg UInt32.toNat hzero
  rw [translate_eq_entry, if_pos hpresent, frame_or_offset_toNat] at hnat
  have h0 : (0 : UInt32).toNat = 0 := rfl
  omega

/-- The tables are outside of every mapped buffer. -/
theorem tablesKept_of_outside (h : PageTables vm) {k : Nat}
    (hmapped : ∀ i < k, vm.translate (bufferPtr + UInt32.ofNat i) ≠ 0)
    (hsame : SameOn (outsideOf vm bufferPtr k) vm.mem m) : TablesKept vm m := by
  apply hsame.mono
  intro x hx a ha heq
  obtain ⟨i, hi, rfl⟩ := (mem_bytes_iff vm bufferPtr k a).mp ha
  have hbase := (h.translate_bounds (hmapped i hi)).1
  have hlt : x < vm.paging.physAllocBase.toNat := hx
  omega

/-- What the guest finds where straight fields have been written: their bytes. -/
theorem guestByte_written (h : PageTables vm) (hm : TablesKept vm m) {fs : List GuestField}
    {k n i : Nat} (hn : n ≤ 4096) (hk : k ≤ n)
    (hmapped : ∀ i < k, vm.translate (bufferPtr + UInt32.ofNat i) ≠ 0)
    {p : Nat × GuestField} (hp : p ∈ endingBy k (placed 0 fs))
    (hstraight : Straight vm bufferPtr p.1 p.2.size) (hlo : p.1 ≤ i) (hhi : i < p.1 + p.2.size) :
    guestByte ((writePlaced vm.paging.toPagingContext bufferPtr (endingBy n (placed 0 fs))).after m)
      vm.paging.toPagingContext (bufferPtr + UInt32.ofNat i) = p.2.bytes.getD (i - p.1) 0 := by
  obtain ⟨hmem, hend⟩ := mem_endingBy.mp hp
  obtain ⟨-, -, hkept⟩ := h.writePlaced_spec bufferPtr hm (endingBy n (placed 0 fs))
  have hbyte := h.writePlaced_bytes bufferPtr (endingBy n (placed 0 fs)) (j := i - p.1) hm
    (fun p hp => Nat.le_trans (mem_endingBy.mp hp).2 hn)
    (fun p hp p' hp' i hi hi' => placed_apart (mem_endingBy.mp hp).1 (mem_endingBy.mp hp').1 hi hi')
    (mem_endingBy.mpr ⟨hmem, Nat.le_trans hend hk⟩) hstraight
    (fun j hj => hmapped (p.1 + j) (by omega)) (by omega)
  have hsum : p.1 + (i - p.1) = i := by omega
  rw [hsum] at hbyte
  have hlt := (h.translate_bounds (hmapped i (by omega))).2.1
  unfold guestByte
  rw [h.getPhys_kept hkept, memReadbPhys, if_pos, hbyte]
  rw [hkept.size]
  exact hlt

/-- Without a buffer nothing is written. -/
theorem getObject_null (ctx : PagingContext) (t : GdiHandleTable) (s : GdiObjects)
    (hobject : UInt32) (count : Int32) (m : PhysMem) :
    (sysNtGdiExtGetObjectW ctx t s hobject count 0).events m = [] := by
  unfold sysNtGdiExtGetObjectW
  split
  · split
    · rfl
    · rfl
  · rfl

/-- Where a field ends with the bytes asked for, and the fields up to there are straight, the law
holds. -/
theorem PrefixLaw.of_fits (h : PageTables vm) (hlive : liveObject t s hobject = some obj)
    (hbuffer : bufferPtr ≠ 0) (hcount : 0 < count)
    (hmapped : ∀ i < obj.cut count, vm.translate (bufferPtr + UInt32.ofNat i) ≠ 0)
    (hends : ∃ p ∈ placed 0 obj.fields, p.1 + p.2.size = obj.cut count)
    (hstraight : ∀ p ∈ endingBy (obj.cut count) (placed 0 obj.fields),
      Straight vm bufferPtr p.1 p.2.size) :
    PrefixLaw vm t s hobject bufferPtr obj.sizeNeeded count (obj.cut count) := by
  obtain ⟨-, hpos, hle⟩ := clamped_eq obj hcount
  obtain ⟨hsize, -⟩ := obj.sizeNeeded_bounds
  have hfull : 0 < obj.sizeNeeded := Int32.lt_iff_toInt_lt.mpr hsize
  obtain ⟨-, -, hle'⟩ := clamped_eq obj hfull
  have hcut : obj.cut count ≤ obj.cut obj.sizeNeeded := by
    unfold LogObject.cut
    omega
  have hkept : TablesKept vm vm.mem := .refl _ _
  obtain ⟨hevents, hsame, -⟩ :=
    h.writePlaced_spec bufferPtr hkept (endingBy (obj.cut count) (placed 0 obj.fields))
  have hexact := (h.endingBy_exact_iff bufferPtr obj.fields (by omega) hpos
    hmapped).mpr ⟨hends, hstraight⟩
  -- the fields decide what is in the buffer
  have hbytes : ∀ {m n}, TablesKept vm m → n ≤ 4096 → obj.cut count ≤ n → ∀ i < obj.cut count,
      ∃ p ∈ endingBy (obj.cut count) (placed 0 obj.fields), p.1 ≤ i ∧ i < p.1 + p.2.size ∧
        guestByte ((writePlaced vm.paging.toPagingContext bufferPtr
            (endingBy n (placed 0 obj.fields))).after m) vm.paging.toPagingContext
          (bufferPtr + UInt32.ofNat i) = p.2.bytes.getD (i - p.1) 0 := by
    intro m n hm hn hk i hi
    obtain ⟨p, hp, hlo, hhi⟩ := exists_endingBy hends hi
    exact ⟨p, hp, hlo, hhi,
      guestByte_written h hm hn hk hmapped hp (hstraight p hp) hlo hhi⟩
  have hagree : ∀ {m n m' n'}, TablesKept vm m → n ≤ 4096 → obj.cut count ≤ n →
      TablesKept vm m' → n' ≤ 4096 → obj.cut count ≤ n' →
      guestBytes ((writePlaced vm.paging.toPagingContext bufferPtr
          (endingBy n (placed 0 obj.fields))).after m) vm.paging.toPagingContext bufferPtr
        (obj.cut count) =
      guestBytes ((writePlaced vm.paging.toPagingContext bufferPtr
          (endingBy n' (placed 0 obj.fields))).after m') vm.paging.toPagingContext bufferPtr
        (obj.cut count) := by
    intro m n m' n' hm hn hk hm' hn' hk'
    apply List.map_congr_left
    intro i hi
    obtain ⟨p, hp, hlo, hhi, hbyte⟩ := hbytes hm hn hk i (List.mem_range.mp hi)
    obtain ⟨p', hp', hlo', hhi', hbyte'⟩ := hbytes hm' hn' hk' i (List.mem_range.mp hi)
    obtain rfl : p = p' := placed_apart (mem_endingBy.mp hp).1 (mem_endingBy.mp hp').1 ⟨hlo, hhi⟩
      ⟨hlo', hhi'⟩
    rw [hbyte, hbyte']
  constructor
  case reports =>
    unfold getObject
    rw [getObject_eq _ hlive hbuffer hcount]
    rfl
  case writes =>
    intro a
    unfold getObject
    rw [getObject_eq _ hlive hbuffer hcount, events_bind, hevents, events_pure, List.append_nil,
      writesOf_writes, hexact, mem_bytes_iff]
  case full =>
    unfold bufferAfter getObject
    rw [getObject_eq _ hlive hbuffer hcount, getObject_eq _ hlive hbuffer hfull]
    exact hagree hkept (by omega) (Nat.le_refl _) hkept (by omega) hcut
  case beyond =>
    unfold getObject
    rw [getObject_eq _ hlive hbuffer hcount]
    apply hsame.mono
    intro x hx p hp a ha
    exact hx a ((mem_bytes_iff vm bufferPtr _ a).mpr
      ((hexact a).mp (List.mem_flatMap.mpr ⟨p, hp, ha⟩)))
  case fresh =>
    intro m hm
    unfold bufferAfter getObject
    rw [getObject_eq _ hlive hbuffer hcount]
    exact hagree (tablesKept_of_outside h hmapped hm) (by omega) (Nat.le_refl _) hkept (by omega)
      (Nat.le_refl _)

/-- `NtGdiExtGetObjectW` writes exactly the bytes that it reports if and only if they end where a
field of the structure ends, with the face name as long as its text and its `NUL`, and no field up
to there crosses into a frame that does not follow or starts at the address 0. -/
theorem sysNtGdiExtGetObjectW_prefixLaw_iff (h : PageTables vm)
    (hlive : liveObject t s hobject = some obj) (hcount : 0 < count)
    (hmapped : (bufferOf vm bufferPtr (obj.cut count)).Mapped vm.paging.toPagingContext) :
    PrefixLaw vm t s hobject bufferPtr obj.sizeNeeded count (obj.cut count) ↔
      (∃ p ∈ placed 0 obj.fields, p.1 + p.2.size = obj.cut count) ∧
        ∀ p ∈ endingBy (obj.cut count) (placed 0 obj.fields),
          Straight vm bufferPtr p.1 p.2.size := by
  obtain ⟨-, hpos, hle⟩ := clamped_eq obj hcount
  have htranslate : ∀ i < obj.cut count, vm.translate (bufferPtr + UInt32.ofNat i) ≠ 0 :=
    fun i hi => translate_of_mapped h (hmapped i hi)
  by_cases hbuffer : bufferPtr = 0
  · -- nothing is written, and no field lies at the address 0
    subst hbuffer
    constructor
    · intro hlaw
      have hfirst := (hlaw.writes _).mpr ((mem_bytes_iff vm 0 (obj.cut count) _).mpr
        ⟨0, hpos, rfl⟩)
      unfold getObject at hfirst
      rw [getObject_null] at hfirst
      cases hfirst
    · intro ⟨hends, hstraight⟩
      obtain ⟨p, hp, hlo, -⟩ := exists_endingBy hends hpos
      have hzero := (hstraight p hp).1
      rw [Nat.le_zero.mp hlo] at hzero
      exact absurd rfl hzero
  · constructor
    · intro hlaw
      have hwrites := hlaw.writes
      obtain ⟨hevents, -, -⟩ := h.writePlaced_spec bufferPtr (m := vm.mem) (.refl _ _)
        (endingBy (obj.cut count) (placed 0 obj.fields))
      unfold getObject at hwrites
      rw [getObject_eq _ hlive hbuffer hcount, events_bind, hevents, events_pure, List.append_nil,
        writesOf_writes] at hwrites
      apply (h.endingBy_exact_iff bufferPtr obj.fields (by omega) hpos htranslate).mp
      intro a
      rw [hwrites, mem_bytes_iff]
    · intro ⟨hends, hstraight⟩
      exact .of_fits h hlive hbuffer hcount htranslate hends hstraight

/-- A page of a program is straight. -/
theorem programVm_translate {i : Nat} (hi : i < 4096) :
    programVm.translate (0x400000 + UInt32.ofNat i) = 0x200000 + UInt32.ofNat i := by
  have hbase : (0x400000 + UInt32.ofNat i).toNat = 0x400000 + i :=
    toNat_add_ofNat hi (by decide)
  have hframe : (0x200000 + UInt32.ofNat i).toNat = 0x200000 + i := toNat_add_ofNat hi (by decide)
  have hpage : (0x400000 + UInt32.ofNat i) &&& pageMask = 0x400000 &&& pageMask := by
    apply UInt32.toNat_inj.mp
    rw [pageMask_toNat, pageMask_toNat, hbase]
    have hconst : (0x400000 : UInt32).toNat = 0x400000 := rfl
    omega
  have hptr : vmPages.vm.paging.physAllocPtr = 0x200000 := by decide
  rw [programVm_maps.translate, if_pos hpage, hptr]
  apply UInt32.toNat_inj.mp
  rw [frame_or_offset_toNat, pageMask_toNat, hbase, hframe]
  have hconst : (0x200000 : UInt32).toNat = 0x200000 := rfl
  omega

theorem programVm_straight {o n : Nat} (hn : o + n ≤ 4096) :
    Straight programVm 0x400000 o n := by
  constructor
  · intro hzero
    have hnat := congrArg UInt32.toNat hzero
    rw [toNat_add_ofNat (n := 4097) (by omega) (by decide)] at hnat
    have hconst : (0x400000 : UInt32).toNat = 0x400000 := rfl
    have h0 : (0 : UInt32).toNat = 0 := rfl
    omega
  · intro j hj
    rw [programVm_translate (by omega), programVm_translate (by omega), UInt32.ofNat_add,
      UInt32.add_assoc]

theorem programVm_mapped {i : Nat} (hi : i < 4096) :
    pagingIsMapped programVm.mem programVm.paging.toPagingContext (0x400000 + UInt32.ofNat i) =
      true := by
  rw [isMapped_iff_entry]
  apply Classical.byContradiction
  intro habsent
  have hnat := congrArg UInt32.toNat (programVm_translate hi)
  rw [translate_eq_entry, if_neg habsent, toNat_add_ofNat hi (by decide)] at hnat
  have hconst : (0x200000 : UInt32).toNat = 0x200000 := rfl
  have h0 : (0 : UInt32).toNat = 0 := rfl
  omega

theorem programVm_buffer {k : Nat} (hk : k ≤ 4096) :
    (bufferOf programVm 0x400000 k).Mapped programVm.paging.toPagingContext :=
  bufferOf_mapped fun _ hi => programVm_mapped (Nat.lt_of_lt_of_le hi hk)

/-- `OEM_FIXED_FONT`. -/
def terminalFont : LogFont where
  height := 16
  width := 8
  weight := 400
  escapement := 0
  orientation := 0
  italic := false
  underline := false
  strikeout := false
  charSet := 0
  pitchAndFamily := 0x31
  faceName i := [84, 101, 114, 109, 105, 110, 97, 108].getD i 0

/-- The first stock object of each type. -/
def firstObjects : GdiObjects where
  pen _ := { style := 0, color := 0x00FFFFFF, width := 1 }
  brush _ := { style := 0, color := 0x00FFFFFF, hatchStyle := 0 }
  font _ := terminalFont
  bitmap _ := {}
  palette _ := ⟨0⟩

theorem whiteBrush_live : liveObject gdiHandleTableInit firstObjects 0x80100000 =
    some (.brush (firstObjects.brush (.stock 0))) := rfl

/-- The style and the color of the white brush are written where they are asked for. -/
theorem sysNtGdiExtGetObjectW_prefixLaw_brush :
    PrefixLaw programVm gdiHandleTableInit firstObjects 0x80100000 0x400000 12 8 8 := by
  apply (sysNtGdiExtGetObjectW_prefixLaw_iff programVm_maps.tables whiteBrush_live
    (by decide : (0 : Int32) < 8) _).mpr
  · constructor
    · exact ⟨(4, .dword 0x00FFFFFF), List.mem_cons_of_mem _ List.mem_cons_self, rfl⟩
    · intro p hp
      have hend : p.1 + p.2.size ≤ 8 := (mem_endingBy.mp hp).2
      exact programVm_straight (by omega)
  · exact programVm_buffer (by decide)

/-- Of the white brush the first six bytes are reported, but only its style is written. -/
theorem sysNtGdiExtGetObjectW_prefixLaw_fails :
    ¬ PrefixLaw programVm gdiHandleTableInit firstObjects 0x80100000 0x400000 12 6 6 := by
  intro hlaw
  have hfifth := (hlaw.writes (0x200000 + UInt32.ofNat 4)).mpr ((mem_bytes_iff programVm 0x400000 6
    _).mpr ⟨4, by decide, programVm_translate (by decide)⟩)
  obtain ⟨hevents, -, -⟩ := programVm_maps.tables.writePlaced_spec 0x400000
    (m := programVm.mem) (.refl _ _) [(0, .dword 0)]
  have hcall := getObject_eq programVm.paging.toPagingContext whiteBrush_live
    (by decide : (0x400000 : UInt32) ≠ 0) (by decide : (0 : Int32) < 6)
  unfold getObject at hfifth
  rw [hcall, events_bind] at hfifth
  have hfields : endingBy ((LogObject.brush (firstObjects.brush (.stock 0))).cut 6)
    (placed 0 (LogObject.brush (firstObjects.brush (.stock 0))).fields) = [(0, .dword 0)] := rfl
  rw [hfields, hevents, events_pure, List.append_nil, writesOf_writes] at hfifth
  obtain ⟨p, hp, ha⟩ := List.mem_flatMap.mp hfifth
  obtain rfl := List.mem_singleton.mp hp
  obtain ⟨j, hj, heq, -⟩ := programVm_maps.tables.touchedBy_mod ha
  have hlt : j < 4 := hj
  have hnat := congrArg UInt32.toNat heq
  rw [programVm_translate (by decide : 0 < 4096), UInt32.add_assoc, ← UInt32.ofNat_add,
    toNat_add_ofNat (n := 5) (by decide) (by decide),
    toNat_add_ofNat (n := 5) (by omega) (by decide)] at hnat
  omega

end Queries

end Wbox.Gdi
