import Wbox.Gdi.Outlines
import Wbox.Gdi.TextOut

/-!
# What drawing text shows

A drawing computation shows a picture if every pixel of the surface gets the colour that the
picture has there, and keeps its own where the picture has none. `gdi_ext_text_out` shows the cells
of its characters, at the place that its alignment leads to.
-/

namespace Wbox.Gdi

open Wbox.Lib Wbox.Lib.Logged

/-- What a computation gives to the pixels of a surface; all other words are left. -/
def Shows (dc : GdiDc) (buf : Nat) {α : Type} (x : DrawM α)
    (picture : Int → Int → Option UInt32) : Prop :=
  ∀ m, (∀ px py, dc.OnSurface px py → x.after m buf (py * dc.stride + px) =
      (picture px py).getD (m buf (py * dc.stride + px))) ∧
    ∀ b i, (b = buf → ¬dc.WordOf dc.OnSurface i) → x.after m b i = m b i

/-- The colours of a cell at a place. -/
def CharColors.cell (colors : CharColors) (x y : Int) (ch : UInt16) (px py : Int) :
    Option UInt32 :=
  if (x ≤ px ∧ px < x + 8) ∧ y ≤ py ∧ py < y + 16 then
    colors.pixelAt ch (py - y).toNat (px - x).toNat
  else none

/-- The cells that are drawn from a position on, with their characters. -/
def textCells (a : TextArgs) (str : Nat → UInt16) : List Nat → Int32 → List (Int32 × UInt16)
  | [], _ => []
  | i :: is, curX =>
      if str i < 32 then textCells a str is curX
      else if besideRect (a.rectFor etoClipped) curX then textCells a str is (curX + a.advance i)
      else (curX, str i) :: textCells a str is (curX + a.advance i)

/-- Cells in a row, the later ones in front. -/
def cellsPicture (colors : CharColors) (y : Int) (cells : List (Int32 × UInt16)) (px py : Int) :
    Option UInt32 :=
  cells.foldr (fun cell later => later.or (colors.cell cell.1.toInt y cell.2 px py)) none

/-- A rectangle of one colour, by the places on the surface. -/
def rectPicture (rect : Rect) (c : UInt32) (px py : Int) : Option UInt32 :=
  if (rect.left.toInt ≤ px ∧ px < rect.right.toInt) ∧
      rect.top.toInt ≤ py ∧ py < rect.bottom.toInt then some c
  else none

/-- The fill that `ETO_OPAQUE` asks for. -/
def fillPicture (a : TextArgs) (c : UInt32) (px py : Int) : Option UInt32 :=
  (a.rectFor etoOpaque).bind fun rect => rectPicture rect c px py

/-- Where the first character goes, and the row of the characters. -/
def TextDc.startX (dc : TextDc) (a : TextArgs) : Int32 :=
  alignX dc.textAlign (a.x + (dc.vpOrgX - dc.winOrgX)) a.count

def TextDc.startY (dc : TextDc) (a : TextArgs) : Int32 :=
  alignY dc.textAlign (a.y + (dc.vpOrgY - dc.winOrgY))

/-- The cells of a call. -/
def TextDc.cells (dc : TextDc) (a : TextArgs) (str : Nat → UInt16) : List (Int32 × UInt16) :=
  textCells a str a.indices (dc.startX a)

variable {dc : GdiDc} {buf : Nat} {α β ι : Type} {x : DrawM α}
  {p q picture : Int → Int → Option UInt32} {words : Nat → Nat} {c : UInt32}
  {colors : CharColors} {ch : UInt16}

section Shows

theorem Shows.congr (h : Shows dc buf x p)
    (hpq : ∀ px py, dc.OnSurface px py → p px py = q px py) : Shows dc buf x q := by
  intro m
  refine ⟨?_, (h m).2⟩
  intro px py hon
  rw [(h m).1 px py hon, hpq px py hon]

theorem shows_pure (a : α) : Shows dc buf (pure a : DrawM α) fun _ _ => none :=
  fun _ => ⟨fun _ _ _ => rfl, fun _ _ _ => rfl⟩

/-- Of two pictures the later one is in front. -/
theorem Shows.bind {f : α → DrawM β} (hx : Shows dc buf x p) (hf : ∀ a, Shows dc buf (f a) q) :
    Shows dc buf (x >>= f) fun px py => (q px py).or (p px py) := by
  intro m
  obtain ⟨hfirst, hfirst'⟩ := hx m
  obtain ⟨hsecond, hsecond'⟩ := hf (x.value m) (x.after m)
  constructor
  · intro px py hon
    rw [after_bind, hsecond px py hon, hfirst px py hon]
    show _ = ((q px py).or (p px py)).getD _
    cases q px py with
    | none => rw [Option.none_or, Option.getD_none]
    | some c => rw [Option.some_or, Option.getD_some, Option.getD_some]
  · intro b i hi
    rw [after_bind, hsecond' b i hi, hfirst' b i hi]

/-- A pixel of the surface. -/
theorem shows_put (hsurface : SurfaceFits words dc) (hbuf : dc.pixels = some buf) {x y : Int32}
    (hon : dc.OnSurface x.toInt y.toInt) (c : UInt32) :
    Shows dc buf (putPixel buf (y * (dc.pitch / 4) + x).toInt c) fun px py =>
      if px = x.toInt ∧ py = y.toInt then some c else none := by
  obtain ⟨hx, hxw, hy, hyh⟩ := hon
  obtain ⟨-, -, -, hindex⟩ := hsurface.index hbuf hx hxw hy hyh
  have hright := hsurface.right
  intro m
  have hput : ∀ b i, _ ∧ _ := (paints_put (y.toInt * dc.stride + x.toInt) :
    Paints (putPixel buf (y.toInt * dc.stride + x.toInt) c) buf c _) m
  rw [hindex]
  constructor
  · rintro px py ⟨hpx, hpxw, -⟩
    by_cases h : px = x.toInt ∧ py = y.toInt
    · dsimp only
      rw [if_pos h, h.1, h.2]
      exact (hput buf _).1 ⟨rfl, rfl⟩
    · dsimp only
      rw [if_neg h]
      refine (hput buf _).2 ?_
      rintro ⟨-, hi⟩
      obtain ⟨hpy, hpx'⟩ := index_inj hpx (by omega) hx (by omega) hi
      exact h ⟨hpx', hpy⟩
  · intro b i hi
    refine (hput b i).2 ?_
    rintro ⟨hb, rfl⟩
    exact hi hb ⟨x.toInt, y.toInt, ⟨hx, hxw, hy, hyh⟩, rfl⟩

/-- A loop whose rounds show parts of one picture shows the parts. -/
theorem shows_forM {body : ι → DrawM PUnit} {p : ι → Int → Int → Option UInt32} {is : List ι}
    (h : ∀ j ∈ is, Shows dc buf (body j) (p j))
    (hpart : ∀ j ∈ is, ∀ px py, p j px py = none ∨ p j px py = picture px py)
    (hall : ∀ px py, dc.OnSurface px py → picture px py ≠ none → ∃ j ∈ is, p j px py ≠ none) :
    Shows dc buf (is.forM body) picture := by
  classical
  have hparts : Shows dc buf (is.forM body) fun px py =>
      if ∃ j ∈ is, p j px py ≠ none then picture px py else none := by
    clear hall
    induction is with
    | nil => exact (shows_pure PUnit.unit).congr fun _ _ _ => by simp
    | cons j is ih =>
      have hrest := ih (fun k hk => h k (List.mem_cons_of_mem j hk))
        fun k hk => hpart k (List.mem_cons_of_mem j hk)
      have hbind : Shows dc buf (body j >>= fun _ => is.forM body) _ :=
        (h j (List.mem_cons_self ..)).bind fun _ => hrest
      refine hbind.congr ?_
      intro px py _
      by_cases htail : ∃ k ∈ is, p k px py ≠ none
      · obtain ⟨k, hk, hsome⟩ := htail
        have hpic : picture px py ≠ none :=
          ((hpart k (List.mem_cons_of_mem j hk) px py).resolve_left hsome) ▸ hsome
        rw [if_pos ⟨k, hk, hsome⟩, if_pos ⟨k, List.mem_cons_of_mem j hk, hsome⟩]
        obtain ⟨c, hc⟩ := Option.ne_none_iff_exists'.mp hpic
        rw [hc]
        rfl
      · rw [if_neg htail, Option.none_or]
        rcases hpart j (List.mem_cons_self ..) px py with hnone | hpic
        · rw [hnone, if_neg]
          rintro ⟨k, hk, hsome⟩
          rcases List.mem_cons.mp hk with rfl | hk
          · exact hsome hnone
          · exact htail ⟨k, hk, hsome⟩
        · by_cases hsome : p j px py = none
          · rw [hsome, if_neg]
            rintro ⟨k, hk, hsome'⟩
            rcases List.mem_cons.mp hk with rfl | hk
            · exact hsome' hsome
            · exact htail ⟨k, hk, hsome'⟩
          · rw [if_pos ⟨j, List.mem_cons_self .., hsome⟩, hpic]
  refine hparts.congr ?_
  intro px py hon
  split
  · rfl
  · next hno =>
    by_contra hsome
    exact hno (hall px py hon (Ne.symm hsome))

/-- A colour, or the one that is there, whichever it is. -/
theorem getD_inj {u v : Option UInt32} (h : ∀ old, u.getD old = v.getD old) : u = v := by
  cases u with
  | none =>
    cases v with
    | none => rfl
    | some d =>
      have hother : d + 1 ≠ d := by simp
      exact absurd (h (d + 1)) hother
  | some c =>
    cases v with
    | none =>
      have hother : c ≠ c + 1 := by simp
      exact absurd (h (c + 1)) hother
    | some d => exact congrArg some (h 0)

/-- A computation shows one picture. -/
theorem Shows.iff_eq (h : Shows dc buf x p) :
    Shows dc buf x q ↔ ∀ px py, dc.OnSurface px py → p px py = q px py := by
  constructor
  · intro h' px py hon
    refine getD_inj fun old => ?_
    exact ((h fun _ _ => old).1 px py hon).symm.trans ((h' fun _ _ => old).1 px py hon)
  · intro heq
    exact h.congr heq

end Shows

section Cells

theorem toInt_ofNat_lt {n : Nat} (h : n < 2 ^ 31) : (Int32.ofNat n).toInt = n :=
  Int32.toInt_ofNat_of_lt h

/-- A coordinate that wraps is negative, and the exact one is beyond every surface. -/
theorem step_cases (x : Int32) {k : Nat} (hk : k < 16) :
    (x + Int32.ofNat k).toInt = x.toInt + k ∨
      (x + Int32.ofNat k).toInt < 0 ∧ 2 ^ 31 ≤ x.toInt + k := by
  have hnat : (Int32.ofNat k).toInt = k := toInt_ofNat_lt (by omega)
  have hlow := x.le_toInt
  have hhigh := x.toInt_lt
  rw [Int32.toInt_add, hnat, Int.bmod_def]
  omega

/-- A place of a cell, in a row of the surface. -/
theorem charPixel_shows (hsurface : SurfaceFits words dc) (hbuf : dc.pixels = some buf)
    {x py : Int32} (hpy : 0 ≤ py.toInt) (hpyh : py.toInt < dc.height.toInt) {row col : Nat}
    (hcol : col < 8) :
    Shows dc buf (charPixel dc buf x py ch colors row col) fun qx qy =>
      if qx = x.toInt + col ∧ qy = py.toInt then colors.pixelAt ch row col else none := by
  have hstep := step_cases x (show col < 16 by omega)
  have hwidth := dc.width.toInt_lt
  unfold charPixel
  dsimp only
  split
  · next hoff =>
    rw [Int32.lt_iff_toInt_lt, ge_iff_le, Int32.le_iff_toInt_le, Int32.toInt_zero] at hoff
    refine (shows_pure PUnit.unit).congr ?_
    rintro qx qy ⟨hqx, hqxw, -⟩
    rw [if_neg]
    rintro ⟨rfl, -⟩
    omega
  · next hin =>
    rw [not_or, Int32.lt_iff_toInt_lt, ge_iff_le, Int32.le_iff_toInt_le, Int32.toInt_zero] at hin
    have hpx : (x + Int32.ofNat col).toInt = x.toInt + col := by omega
    split
    · next hnone =>
      refine (shows_pure PUnit.unit).congr ?_
      intro qx qy _
      rw [hnone, ite_self]
    · next c hc =>
      have hon : dc.OnSurface (x + Int32.ofNat col).toInt py.toInt :=
        ⟨by omega, by omega, hpy, hpyh⟩
      refine (shows_put hsurface hbuf hon c).congr ?_
      intro qx qy _
      rw [hpx, hc]

/-- A character shows its cell. -/
theorem drawChar_shows (hsurface : SurfaceFits words dc) (hbuf : dc.pixels = some buf)
    (x y : Int32) :
    Shows dc buf (drawChar dc buf x y ch colors) (colors.cell x.toInt y.toInt ch) := by
  have hheight := dc.height.toInt_lt
  refine shows_forM (p := fun row qx qy =>
    if qy = y.toInt + (row : Nat) then colors.cell x.toInt y.toInt ch qx qy else none) ?_ ?_ ?_
  · intro row hrow
    have hrow' := List.mem_range.mp hrow
    have hstep := step_cases y hrow'
    dsimp only
    split
    · next hoff =>
      rw [Int32.lt_iff_toInt_lt, ge_iff_le, Int32.le_iff_toInt_le, Int32.toInt_zero] at hoff
      refine (shows_pure PUnit.unit).congr ?_
      rintro qx qy ⟨-, -, hqy, hqyh⟩
      rw [if_neg]
      omega
    · next hin =>
      rw [not_or, Int32.lt_iff_toInt_lt, ge_iff_le, Int32.le_iff_toInt_le, Int32.toInt_zero]
        at hin
      have hpy : (y + Int32.ofNat row).toInt = y.toInt + row := by omega
      refine shows_forM (p := fun col qx qy => if qx = x.toInt + (col : Nat) ∧
        qy = (y + Int32.ofNat row).toInt then colors.pixelAt ch row col else none) ?_ ?_ ?_
      · intro col hcol
        exact charPixel_shows hsurface hbuf (by omega) (by omega) (List.mem_range.mp hcol)
      · intro col hcol qx qy
        have hcol' := List.mem_range.mp hcol
        by_cases hat : qx = x.toInt + col ∧ qy = (y + Int32.ofNat row).toInt
        · refine .inr ?_
          obtain ⟨rfl, hqy⟩ := hat
          rw [hpy] at hqy
          subst hqy
          have hr : (y.toInt + (row : Int) - y.toInt).toNat = row := by omega
          have hc : (x.toInt + (col : Int) - x.toInt).toNat = col := by omega
          rw [if_pos ⟨rfl, hpy.symm⟩, if_pos rfl, CharColors.cell, hr, hc, if_pos (by omega)]
        · exact .inl (if_neg hat)
      · intro qx qy _ hsome
        by_cases hqy : qy = y.toInt + row
        · rw [if_pos hqy] at hsome
          by_cases hcell : (x.toInt ≤ qx ∧ qx < x.toInt + 8) ∧ y.toInt ≤ qy ∧ qy < y.toInt + 16
          · refine ⟨(qx - x.toInt).toNat, List.mem_range.mpr (by omega), ?_⟩
            rw [if_pos ⟨by omega, by omega⟩]
            rw [CharColors.cell, if_pos hcell, hqy,
              show (y.toInt + (row : Int) - y.toInt).toNat = row by omega] at hsome
            exact hsome
          · rw [CharColors.cell, if_neg hcell] at hsome
            exact absurd rfl hsome
        · rw [if_neg hqy] at hsome
          exact absurd rfl hsome
  · intro row _ qx qy
    by_cases hqy : qy = y.toInt + (row : Nat)
    · exact .inr (if_pos hqy)
    · exact .inl (if_neg hqy)
  · intro qx qy _ hsome
    have hcell : (x.toInt ≤ qx ∧ qx < x.toInt + 8) ∧ y.toInt ≤ qy ∧ qy < y.toInt + 16 := by
      by_contra hno
      exact hsome (if_neg hno)
    refine ⟨(qy - y.toInt).toNat, List.mem_range.mpr (by omega), ?_⟩
    rw [if_pos (by omega)]
    exact hsome

end Cells

section Texts

/-- The loop over the characters shows their cells. -/
theorem drawChars_shows (hsurface : SurfaceFits words dc) (hbuf : dc.pixels = some buf)
    (a : TextArgs) (str : Nat → UInt16) (y : Int32) (is : List Nat) (curX : Int32) :
    Shows dc buf (drawChars a str (fun curX ch => drawChar dc buf curX y ch colors) is curX)
      (cellsPicture colors y.toInt (textCells a str is curX)) := by
  induction is generalizing curX with
  | nil => exact shows_pure curX
  | cons i is ih =>
    unfold drawChars textCells
    split
    · exact ih curX
    · split
      · exact ih _
      · exact (drawChar_shows hsurface hbuf curX y).bind fun _ => ih _

/-- The loops over the rectangle show it. -/
theorem fillTextRect_shows (hsurface : SurfaceFits words dc) (hbuf : dc.pixels = some buf)
    (rect : Rect) (c : UInt32) :
    Shows dc buf (fillTextRect dc buf rect c) (rectPicture rect c) := by
  have hmin : ∀ v w : Int32, (if v < w then v else w).toInt = min v.toInt w.toInt := by
    intro v w
    split
    · next h =>
      rw [Int32.lt_iff_toInt_lt] at h
      omega
    · next h =>
      rw [Int32.lt_iff_toInt_lt] at h
      omega
  have hofInt : ∀ v : Int, 0 ≤ v → v < 2 ^ 31 → (Int32.ofInt v).toInt = v := fun v hlo hhi =>
    Int32.toInt_ofInt_of_le (by omega) (by omega)
  have hwidth := dc.width.toInt_lt
  have hheight := dc.height.toInt_lt
  refine shows_forM (p := fun (row : Int32) px py =>
    if py = row.toInt then rectPicture rect c px py else none) ?_ ?_ ?_
  · intro row hrow
    rw [mem_countUp, hmin] at hrow
    split
    · next hneg =>
      rw [Int32.lt_iff_toInt_lt, Int32.toInt_zero] at hneg
      refine (shows_pure PUnit.unit).congr ?_
      rintro px py ⟨-, -, hpy, -⟩
      rw [if_neg (by omega)]
    · next hneg =>
      rw [Int32.lt_iff_toInt_lt, Int32.toInt_zero] at hneg
      refine shows_forM (p := fun (col : Int32) px py =>
        if px = col.toInt ∧ py = row.toInt then some c else none) ?_ ?_ ?_
      · intro col hcol
        rw [mem_countUp, hmin] at hcol
        split
        · next hoff =>
          rw [Int32.lt_iff_toInt_lt, Int32.toInt_zero] at hoff
          refine (shows_pure PUnit.unit).congr ?_
          rintro px py ⟨hpx, -⟩
          rw [if_neg (by omega)]
        · next hin =>
          rw [Int32.lt_iff_toInt_lt, Int32.toInt_zero] at hin
          exact shows_put hsurface hbuf ⟨by omega, by omega, by omega, by omega⟩ c
      · intro col hcol px py
        rw [mem_countUp, hmin] at hcol
        by_cases hat : px = col.toInt ∧ py = row.toInt
        · refine .inr ?_
          rw [if_pos hat, if_pos hat.2, rectPicture, if_pos (by omega)]
        · exact .inl (if_neg hat)
      · rintro px py ⟨hpx, hpxw, -⟩ hsome
        by_cases hpy : py = row.toInt
        · rw [if_pos hpy] at hsome
          have hin : (rect.left.toInt ≤ px ∧ px < rect.right.toInt) ∧
              rect.top.toInt ≤ py ∧ py < rect.bottom.toInt := by
            by_contra hno
            exact hsome (if_neg hno)
          have hcol := hofInt px hpx (by omega)
          refine ⟨Int32.ofInt px, ?_, ?_⟩
          · rw [mem_countUp, hmin, hcol]
            omega
          · rw [hcol, if_pos ⟨rfl, hpy⟩]
            exact Option.some_ne_none c
        · rw [if_neg hpy] at hsome
          exact absurd rfl hsome
  · intro row _ px py
    by_cases hpy : py = row.toInt
    · exact .inr (if_pos hpy)
    · exact .inl (if_neg hpy)
  · rintro px py ⟨-, -, hpy, hpyh⟩ hsome
    have hin : (rect.left.toInt ≤ px ∧ px < rect.right.toInt) ∧
        rect.top.toInt ≤ py ∧ py < rect.bottom.toInt := by
      by_contra hno
      exact hsome (if_neg hno)
    have hrow := hofInt py hpy (by omega)
    refine ⟨Int32.ofInt py, ?_, ?_⟩
    · rw [mem_countUp, hmin, hrow]
      omega
    · rw [hrow, if_pos rfl]
      exact hsome

/-- The fill of `ETO_OPAQUE` shows its rectangle. -/
theorem fillOpaque_shows (hsurface : SurfaceFits words dc) (hbuf : dc.pixels = some buf)
    (a : TextArgs) (c : UInt32) : Shows dc buf (fillOpaque dc buf a c) (fillPicture a c) := by
  unfold fillOpaque fillPicture
  cases a.rectFor etoOpaque with
  | none => exact shows_pure PUnit.unit
  | some rect => exact fillTextRect_shows hsurface hbuf rect c

/-- A call that draws shows the cells in front of the fill. -/
theorem extTextOut_shows {dc : TextDc} {a : TextArgs} {str : Nat → UInt16}
    (hsurface : SurfaceFits words dc.toGdiDc) (hbuf : dc.pixels = some buf)
    (hstr : a.str = some str) (hcount : 0 < a.count.toInt) :
    Shows dc.toGdiDc buf (gdiExtTextOut dc a) fun px py =>
      (cellsPicture (a.colors dc) (dc.startY a).toInt (dc.cells a str) px py).or
        (fillPicture a (a.colors dc).bg px py) := by
  have hpos : ¬a.count ≤ 0 := by
    rw [Int32.le_iff_toInt_le, Int32.toInt_zero]
    omega
  have htext : Shows dc.toGdiDc buf (drawText dc buf a str)
      (cellsPicture (a.colors dc) (dc.startY a).toInt (dc.cells a str)) := by
    have hchars : Shows dc.toGdiDc buf (drawChars a str (fun curX ch =>
        drawChar dc.toGdiDc buf curX (dc.startY a) ch (a.colors dc)) a.indices (dc.startX a)) _ :=
      drawChars_shows hsurface hbuf a str (dc.startY a) a.indices (dc.startX a)
    exact (hchars.bind fun _ => shows_pure _).congr fun _ _ _ => Option.none_or
  unfold gdiExtTextOut
  rw [hbuf, hstr]
  dsimp only
  rw [if_neg hpos]
  refine (fillOpaque_shows hsurface hbuf a (a.colors dc).bg).bind fun _ => ?_
  exact (htext.bind fun _ => shows_pure _).congr fun _ _ _ => Option.none_or

/-- A call with an empty string shows nothing. -/
theorem extTextOut_empty {dc : TextDc} {a : TextArgs} {str : Nat → UInt16}
    (hbuf : dc.pixels = some buf) (hstr : a.str = some str) (hcount : a.count.toInt ≤ 0) :
    gdiExtTextOut dc a = pure (false, dc) := by
  unfold gdiExtTextOut
  rw [hbuf, hstr]
  dsimp only
  rw [if_pos]
  rw [Int32.le_iff_toInt_le, Int32.toInt_zero]
  exact hcount

end Texts

end Wbox.Gdi
