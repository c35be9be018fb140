import Wbox.Gdi.HandleTable
import Wbox.Gdi.Objects
import Wbox.Lib.Pool

/-!
# Selecting objects into device contexts

The objects behind the GDI handles: their pools (`src/gdi/gdi_handle_table.c:506–633`), their creation
(`src/gdi/gdi_dc.c:61–164`, `gdi_drawing.c:629–755`, `gdi_text.c:373–412`), selection
(`gdi_dc.c:213–295`), saving and restoring (`gdi_dc.c:520–574`) and deletion (`gdi_dc.c:167–185`,
`src/nt/win32k_dispatcher.c:174–226`). A function yields `none` where the source touches memory that
has been freed, where a counter overflows, and where a loop takes more steps than it is given.
-/

namespace Wbox.Gdi

open Wbox.Lib

/-- `DCTYPE_DIRECT`. -/
def dctypeDirect : Int32 := 0

/-- A pointer, and how often its object had been freed when the pointer was taken. -/
structure Ref (P : Type) where
  target : P
  frees : Nat
  deriving DecidableEq, Repr

/-- The pixels of a context: the framebuffer, or the buffer of a bitmap. -/
inductive Surface where
  | display
  | buffer (id : Nat)
  deriving DecidableEq, Repr

/-- `gdi_dc_t`: the position, colours, modes, origins and the like. -/
structure DcAttributes where
  curX : Int32 := 0
  curY : Int32 := 0
  textColor : UInt32 := 0
  bkColor : UInt32 := 0
  bkMode : Int32 := 0
  mapMode : Int32 := 0
  textAlign : Int32 := 0
  rop2 : Int32 := 0
  stretchMode : Int32 := 0
  polyFillMode : Int32 := 0
  vpOrgX : Int32 := 0
  vpOrgY : Int32 := 0
  vpExtX : Int32 := 0
  vpExtY : Int32 := 0
  winOrgX : Int32 := 0
  winOrgY : Int32 := 0
  winExtX : Int32 := 0
  winExtY : Int32 := 0
  brushOrgX : Int32 := 0
  brushOrgY : Int32 := 0
  clipRegion : Option Nat := none
  palette : Option Nat := none
  hwnd : UInt32 := 0
  dirty : Bool := false
  deriving DecidableEq, Repr

/-- What `gdi_init_dc_defaults` sets, `gdi_dc.c:18–48`: black on white and opaque, `MM_TEXT`,
`R2_COPYPEN`, `BLACKONWHITE` and `ALTERNATE`. -/
def gdiInitDcDefaults : DcAttributes where
  bkColor := 0xFFFFFF
  bkMode := 2
  mapMode := 1
  rop2 := 13
  stretchMode := 1
  polyFillMode := 1
  vpExtX := 1
  vpExtY := 1
  winExtX := 1
  winExtY := 1

/-- `gdi_dc_t`: what selecting, saving and restoring use. -/
structure DcSelection where
  handle : UInt32 := 0
  dcType : Int32 := 0
  pixels : Option Surface := none
  width : Int32 := 0
  height : Int32 := 0
  pitch : Int32 := 0
  bitsPerPixel : Int32 := 0
  brush : Option (Ref GdiPtr) := none
  pen : Option (Ref GdiPtr) := none
  font : Option (Ref GdiPtr) := none
  bitmap : Option (Ref Nat) := none
  prevBrushHandle : UInt32 := 0
  prevPenHandle : UInt32 := 0
  prevFontHandle : UInt32 := 0
  prevBitmapHandle : UInt32 := 0
  attributes : DcAttributes := {}
  saveLevel : Int := 0
  savedDc : Option Nat := none
  inUse : Bool := false
  deriving DecidableEq, Repr

/-- `gdi_brush_t`, `gdi_pen_t`, `gdi_font_t` and `gdi_region_t`: their handle. -/
structure GdiObject where
  handle : UInt32 := 0
  inUse : Bool := false
  deriving DecidableEq, Repr

/-- The objects without pixels or a selection of their own. -/
inductive GdiKind where
  | brush
  | pen
  | font
  | region
  deriving DecidableEq, Repr

/-- The type that handles of these objects carry. -/
def GdiKind.type : GdiKind → UInt8
  | .brush => gdiObjBrush
  | .pen => gdiObjPen
  | .font => gdiObjFont
  | .region => gdiObjRegion

/-- `BRUSH_POOL_SIZE`, `PEN_POOL_SIZE`, `FONT_POOL_SIZE` and `REGION_POOL_SIZE`. -/
def GdiKind.poolSize : GdiKind → Nat
  | .brush => 256
  | .pen => 128
  | .font => 64
  | .region => 128

instance : PoolObject DcSelection where
  zero := {}
  inUse := DcSelection.inUse
  setInUse := fun b dc => { dc with inUse := b }
  inUse_setInUse := fun _ _ => rfl

instance : PoolObject GdiObject where
  zero := {}
  inUse := GdiObject.inUse
  setInUse := fun b object => { object with inUse := b }
  inUse_setInUse := fun _ _ => rfl

instance : PoolObject GdiBitmap where
  zero := {}
  inUse := GdiBitmap.inUse
  setInUse := fun b bmp => { bmp with inUse := b }
  inUse_setInUse := fun _ _ => rfl

/-- The handle table and the pools of objects, with the pixel buffers: how many have been
allocated, and which of them have been freed. -/
structure GdiState where
  table : GdiHandleTable
  dcs : Pool DcSelection
  objects : GdiKind → Pool GdiObject
  bitmaps : Pool GdiBitmap
  buffers : Nat
  freed : Nat → Bool

/-- `gdi_handle_table_init` with its pools. -/
def gdiInit : GdiState where
  table := gdiHandleTableInit
  dcs := Pool.init 64
  objects := fun kind => Pool.init kind.poolSize
  bitmaps := Pool.init 128
  buffers := 0
  freed := fun _ => false

/-- A handle of a stock object, `gdi_handle_table.c:152–193`. -/
def stockHandle (type : UInt8) (index : UInt32) : UInt32 :=
  (0x80000000 : UInt32) ||| type.toUInt32 <<< 16 ||| index

/-- `table->stock_handles[GDI_STOCK_WHITE_BRUSH]`. -/
def stockWhiteBrush : UInt32 := stockHandle gdiObjBrush 0
/-- `table->stock_handles[GDI_STOCK_BLACK_PEN]`. -/
def stockBlackPen : UInt32 := stockHandle gdiObjPen 1
/-- `table->stock_handles[GDI_STOCK_SYSTEM_FONT]`. -/
def stockSystemFont : UInt32 := stockHandle gdiObjFont 3

namespace GdiState

/-- The context that a handle denotes. -/
def getDc (s : GdiState) (hdc : UInt32) : Option Nat :=
  match gdiGetObject s.table hdc gdiObjDc with
  | some (.object p) => some p
  | _ => none

/-- The bitmap that a handle denotes. -/
def getBitmap (s : GdiState) (hbitmap : UInt32) : Option Nat :=
  match gdiGetObject s.table hbitmap gdiObjBitmap with
  | some (.object b) => some b
  | _ => none

/-- Store through a pointer to a context. -/
def setDc (s : GdiState) (p : Nat) (dc : DcSelection) : GdiState :=
  { s with dcs := s.dcs.set p dc }

/-- Store through a pointer to a bitmap. -/
def setBitmap (s : GdiState) (b : Nat) (bmp : GdiBitmap) : GdiState :=
  { s with bitmaps := s.bitmaps.set b bmp }

/-- Replace the pool of a kind. -/
def setObjects (s : GdiState) (kind : GdiKind) (pool : Pool GdiObject) : GdiState :=
  { s with objects := Function.update s.objects kind pool }

/-- A pointer to an object of a kind, taken now. -/
def refTo (s : GdiState) (kind : GdiKind) (ptr : GdiPtr) : Ref GdiPtr :=
  match ptr with
  | .stock _ => { target := ptr, frees := 0 }
  | .object a => { target := ptr, frees := (s.objects kind).frees a }

/-- A pointer to a bitmap, taken now. -/
def refToBitmap (s : GdiState) (b : Nat) : Ref Nat := { target := b, frees := s.bitmaps.frees b }

end GdiState

/-- `gdi_alloc_dc`, with the answer of `calloc`. -/
def gdiAllocDc (s : GdiState) (answer : Option Nat) : Option (GdiState × Nat) :=
  (s.dcs.alloc answer).map fun r => ({ s with dcs := r.1 }, r.2)

/-- `gdi_free_dc`. -/
def gdiFreeDc (s : GdiState) (p : Nat) : Option GdiState :=
  (s.dcs.free p).map fun dcs => { s with dcs }

/-- The allocators of the plain objects, `gdi_handle_table.c:534–606,620–633`. -/
def allocObject (kind : GdiKind) (s : GdiState) (answer : Option Nat) : Option (GdiState × Nat) :=
  ((s.objects kind).alloc answer).map fun r => (s.setObjects kind r.1, r.2)

/-- The counterparts of the allocators. -/
def freeObject (kind : GdiKind) (s : GdiState) (a : Nat) : Option GdiState :=
  ((s.objects kind).free a).map fun pool => s.setObjects kind pool

/-- `gdi_alloc_brush`. -/
def gdiAllocBrush := allocObject .brush
/-- `gdi_alloc_pen`. -/
def gdiAllocPen := allocObject .pen
/-- `gdi_alloc_font`. -/
def gdiAllocFont := allocObject .font
/-- `gdi_alloc_region`. -/
def gdiAllocRegion := allocObject .region
/-- `gdi_free_brush`. -/
def gdiFreeBrush := freeObject .brush
/-- `gdi_free_pen`. -/
def gdiFreePen := freeObject .pen
/-- `gdi_free_font`. -/
def gdiFreeFont := freeObject .font
/-- `gdi_free_region`. -/
def gdiFreeRegion := freeObject .region

/-- `gdi_alloc_bitmap`. -/
def gdiAllocBitmap (s : GdiState) (answer : Option Nat) : Option (GdiState × Nat) :=
  (s.bitmaps.alloc answer).map fun r => ({ s with bitmaps := r.1 }, r.2)

/-- `free` of a pixel buffer; a buffer is freed only once. -/
def freePixels (s : GdiState) : Option Nat → Option GdiState
  | none => some s
  | some id =>
      if s.freed id then none else some { s with freed := Function.update s.freed id true }

/-- `gdi_free_bitmap`, `gdi_handle_table.c:612–626`. -/
def gdiFreeBitmap (s : GdiState) (b : Nat) : Option GdiState := do
  let bmp ← s.bitmaps.read b
  let s ← freePixels s bmp.pixels
  let bitmaps ← (s.bitmaps.set b { bmp with pixels := none }).free b
  return { s with bitmaps }

/-- A context with the attributes that both kinds of new contexts get, `gdi_dc.c:85–91`. -/
def DcSelection.withStockObjects (dc : DcSelection) : DcSelection :=
  { dc with
    brush := some { target := .stock 0, frees := 0 }
    pen := some { target := .stock 1, frees := 0 }
    font := some { target := .stock 3, frees := 0 }
    prevBrushHandle := stockWhiteBrush
    prevPenHandle := stockBlackPen
    prevFontHandle := stockSystemFont }

/-- `display_context_t`: its framebuffer. -/
structure Display where
  width : Int32
  height : Int32
  pitch : Int32

/-- A new context is given its handle, or freed again, `gdi_dc.c:93–101`. -/
def newDc (s : GdiState) (p : Nat) (dc : DcSelection) : Option (GdiState × UInt32) :=
  let made := gdiAllocHandle s.table (some (.object p)) gdiObjDc
  let s := { s with table := made.1 }
  if made.2 = 0 then (gdiFreeDc (s.setDc p dc) p).map fun s => (s, 0)
  else some (s.setDc p { dc with handle := made.2 }, made.2)

/-- `gdi_create_display_dc`, `gdi_dc.c:61–102`. -/
def gdiCreateDisplayDc (s : GdiState) (answer : Option Nat) (display : Option Display) :
    Option (GdiState × UInt32) :=
  match gdiAllocDc s answer with
  | none => some (s, 0)
  | some (s, p) =>
      let dc : DcSelection := match display with
        | some d =>
            { pixels := some .display, width := d.width, height := d.height, pitch := d.pitch }
        | none => { width := 800, height := 600, pitch := 3200 }
      let dc := { dc with
        dcType := dctypeDirect
        bitsPerPixel := 32
        attributes := gdiInitDcDefaults
        inUse := true }
      newDc s p dc.withStockObjects

/-- The depth that a new memory context takes from its reference, `gdi_dc.c:130–143`. -/
def referenceDepth (s : GdiState) (hdcRef : UInt32) : Option Int32 :=
  match s.getDc hdcRef with
  | some r => (s.dcs.read r).map DcSelection.bitsPerPixel
  | none => some 32

/-- The colours and modes that it takes over. -/
def referenceAttributes (s : GdiState) (hdcRef : UInt32) : DcAttributes :=
  match s.getDc hdcRef with
  | some r =>
      let ref := (s.dcs.object r).attributes
      { gdiInitDcDefaults with
        textColor := ref.textColor
        bkColor := ref.bkColor
        bkMode := ref.bkMode
        mapMode := ref.mapMode }
  | none => gdiInitDcDefaults

/-- `gdi_create_compatible_dc`, `gdi_dc.c:118–164`. -/
def gdiCreateCompatibleDc (s : GdiState) (answer : Option Nat) (hdcRef : UInt32) :
    Option (GdiState × UInt32) :=
  match gdiAllocDc s answer with
  | none => some (s, 0)
  | some (s, p) => do
      let bitsPerPixel ← referenceDepth s hdcRef
      let dc : DcSelection :=
        { dcType := dctypeMemory
          width := 1
          height := 1
          pitch := 4
          bitsPerPixel
          attributes := referenceAttributes s hdcRef
          inUse := true }
      newDc s p dc.withStockObjects

/-- `gdi_create_solid_brush`, `gdi_create_pattern_brush`, `gdi_create_pen`, `gdi_create_font` and
`gdi_create_rect_rgn`: a new object is given its handle, or freed again. -/
def createObject (kind : GdiKind) (s : GdiState) (answer : Option Nat) :
    Option (GdiState × UInt32) :=
  match allocObject kind s answer with
  | none => some (s, 0)
  | some (s, a) =>
      let made := gdiAllocHandle s.table (some (.object a)) kind.type
      let s := { s with table := made.1 }
      if made.2 = 0 then (freeObject kind s a).map fun s => (s, 0)
      else
        let object : GdiObject := { handle := made.2, inUse := true }
        some (s.setObjects kind ((s.objects kind).set a object), made.2)

/-- `gdi_create_bitmap`, `gdi_drawing.c:672–707`. Without a handle for it the pixels of the bitmap
are freed twice. -/
def gdiCreateBitmap (heap : Heap) (s : GdiState) (answer : Option Nat) (width height : Int32)
    (planes bpp : UInt32) : Option (GdiState × UInt32) :=
  match gdiAllocBitmap s answer with
  | none => some (s, 0)
  | some (s, b) =>
      match newBitmap heap s.buffers width height planes bpp with
      | none =>
          let bmp := { bitmapFields width height planes bpp with inUse := true }
          (gdiFreeBitmap (s.setBitmap b bmp) b).map fun s => (s, 0)
      | some bmp => do
          let s := { s with buffers := s.buffers + 1 }.setBitmap b { bmp with inUse := true }
          let made := gdiAllocHandle s.table (some (.object b)) gdiObjBitmap
          let s := { s with table := made.1 }
          if made.2 = 0 then do
            let s ← freePixels s bmp.pixels
            let s ← gdiFreeBitmap s b
            return (s, 0)
          else
            return (s.setBitmap b { bmp with inUse := true, handle := made.2 }, made.2)

/-- `gdi_free_dc` for a chain of saved states, `gdi_dc.c:173–178`. -/
def freeSaved : Nat → GdiState → Option Nat → Option GdiState
  | _, s, none => some s
  | 0, _, some _ => none
  | fuel + 1, s, some saved => do
      let dc ← s.dcs.read saved
      let s ← gdiFreeDc s saved
      freeSaved fuel s dc.savedDc

/-- `gdi_delete_dc`, `gdi_dc.c:167–185`. -/
def gdiDeleteDc (fuel : Nat) (s : GdiState) (hdc : UInt32) : Option (GdiState × Bool) :=
  match s.getDc hdc with
  | none => some (s, false)
  | some p => do
      let dc ← s.dcs.read p
      let s ← freeSaved fuel s dc.savedDc
      let s := { s with table := (gdiFreeHandle s.table hdc).1 }
      let s ← gdiFreeDc s p
      return (s, true)

/-- `gdi_select_brush`, `gdi_select_pen` and `gdi_select_font`, `gdi_dc.c:213–256`: which field of
the context they read and which they set. -/
def selectObject (kind : GdiKind) (prev : DcSelection → UInt32)
    (put : Ref GdiPtr → UInt32 → DcSelection → DcSelection) (s : GdiState)
    (hdc hobject : UInt32) : Option (GdiState × UInt32) :=
  match s.getDc hdc with
  | none => some (s, 0)
  | some p =>
      match gdiGetObject s.table hobject kind.type with
      | none => some (s, 0)
      | some ptr => do
          let dc ← s.dcs.read p
          return (s.setDc p (put (s.refTo kind ptr) hobject dc), prev dc)

/-- `gdi_select_brush`. -/
def gdiSelectBrush := selectObject .brush DcSelection.prevBrushHandle
  fun brush hbrush dc => { dc with brush := some brush, prevBrushHandle := hbrush }

/-- `gdi_select_pen`. -/
def gdiSelectPen := selectObject .pen DcSelection.prevPenHandle
  fun pen hpen dc => { dc with pen := some pen, prevPenHandle := hpen }

/-- `gdi_select_font`. -/
def gdiSelectFont := selectObject .font DcSelection.prevFontHandle
  fun font hfont dc => { dc with font := some font, prevFontHandle := hfont }

/-- The bitmap of a context is not selected any more, `gdi_dc.c:277–280`. -/
def deselectBitmap (s : GdiState) (bitmap : Option (Ref Nat)) : Option GdiState :=
  match bitmap with
  | none => some s
  | some r => (s.bitmaps.read r.target).map fun bmp => s.setBitmap r.target { bmp with hdc := 0 }

/-- A context with a bitmap selected into it, `gdi_dc.c:283–292`. -/
def DcSelection.withBitmap (dc : DcSelection) (r : Ref Nat) (hbitmap : UInt32) (bmp : GdiBitmap) :
    DcSelection :=
  { dc with
    bitmap := some r
    prevBitmapHandle := hbitmap
    pixels := bmp.pixels.map .buffer
    width := bmp.width
    height := bmp.height
    pitch := bmp.pitch
    bitsPerPixel := bmp.bitsPerPixel }

/-- `gdi_select_bitmap`, `gdi_dc.c:258–295`. -/
def gdiSelectBitmap (s : GdiState) (hdc hbitmap : UInt32) : Option (GdiState × UInt32) :=
  match s.getDc hdc with
  | none => some (s, 0)
  | some p => do
      let dc ← s.dcs.read p
      if dc.dcType ≠ dctypeMemory then return (s, 0)
      match s.getBitmap hbitmap with
      | none => return (s, 0)
      | some b =>
          let bmp ← s.bitmaps.read b
          if bmp.hdc ≠ 0 ∧ bmp.hdc ≠ hdc then return (s, 0)
          let s ← deselectBitmap s dc.bitmap
          let s := s.setDc p (dc.withBitmap (s.refToBitmap b) hbitmap bmp)
          return (s.setBitmap b { s.bitmaps.object b with hdc }, dc.prevBitmapHandle)

/-- `gdi_save_dc`, `gdi_dc.c:520–538`. -/
def gdiSaveDc (s : GdiState) (answer : Option Nat) (hdc : UInt32) : Option (GdiState × Int) :=
  match s.getDc hdc with
  | none => some (s, 0)
  | some p =>
      match gdiAllocDc s answer with
      | none => some (s, 0)
      | some (s, saved) => do
          let dc ← s.dcs.read p
          let s := s.setDc saved dc
          let dc := s.dcs.object p
          if dc.saveLevel = 2 ^ 31 - 1 then none
          return (s.setDc p { dc with savedDc := some saved, saveLevel := dc.saveLevel + 1 },
            dc.saveLevel + 1)

/-- The loop of `gdi_restore_dc`, `gdi_dc.c:555–571`. -/
def restoreStates : Nat → GdiState → Nat → Int → Option GdiState
  | fuel, s, p, level => do
      let dc ← s.dcs.read p
      match dc.savedDc with
      | none => return s
      | some q =>
          if dc.saveLevel < level then return s
          match fuel with
          | 0 => none
          | fuel + 1 =>
              let saved ← s.dcs.read q
              let s ← gdiFreeDc (s.setDc p { saved with handle := dc.handle }) q
              restoreStates fuel s p level

/-- The level that the argument of `gdi_restore_dc` asks for, `gdi_dc.c:545–548`. -/
def DcSelection.restoreLevel (dc : DcSelection) (level : Int32) : Int :=
  if level < 0 then dc.saveLevel + level.toInt + 1 else level.toInt

/-- `gdi_restore_dc`, `gdi_dc.c:540–574`. -/
def gdiRestoreDc (fuel : Nat) (s : GdiState) (hdc : UInt32) (level : Int32) :
    Option (GdiState × Bool) :=
  match s.getDc hdc with
  | none => some (s, false)
  | some p => do
      let dc ← s.dcs.read p
      let level := dc.restoreLevel level
      if level ≤ 0 ∨ level > dc.saveLevel then return (s, false)
      let s ← restoreStates fuel s p level
      return (s, true)

/-- `gdi_free_brush` and its like, for a pointer from the handle table. -/
def freePointer (free : GdiState → Nat → Option GdiState) (s : GdiState) (ptr : GdiPtr) :
    Option GdiState :=
  match ptr with
  | .object a => free s a
  | .stock _ => none

/-- An object is freed once its handle is, `win32k_dispatcher.c:199–219`. -/
def deleteObject (free : GdiState → Nat → Option GdiState) (s : GdiState) (hobject : UInt32)
    (ptr : GdiPtr) : Option (GdiState × UInt32) :=
  let done := gdiFreeHandle s.table hobject
  let s := { s with table := done.1 }
  if done.2 then (freePointer free s ptr).map fun s => (s, 1) else some (s, 0)

/-- `sys_NtGdiDeleteObjectApp`, `win32k_dispatcher.c:174–226`. -/
def ntGdiDeleteObjectApp (fuel : Nat) (s : GdiState) (hobject : UInt32) :
    Option (GdiState × UInt32) :=
  match gdiGetObjectAny s.table hobject with
  | (some ptr, some type) =>
      if gdiHandleIsStock hobject then some (s, 1)
      else if type = gdiObjDc then
        (gdiDeleteDc fuel s hobject).map fun r => (r.1, if r.2 then 1 else 0)
      else if type = gdiObjBrush then deleteObject gdiFreeBrush s hobject ptr
      else if type = gdiObjPen then deleteObject gdiFreePen s hobject ptr
      else if type = gdiObjFont then deleteObject gdiFreeFont s hobject ptr
      else if type = gdiObjBitmap then deleteObject gdiFreeBitmap s hobject ptr
      else if type = gdiObjRegion then deleteObject gdiFreeRegion s hobject ptr
      else some ({ s with table := (gdiFreeHandle s.table hobject).1 },
        if (gdiFreeHandle s.table hobject).2 then 1 else 0)
  | _ => some (s, 0)

end Wbox.Gdi
