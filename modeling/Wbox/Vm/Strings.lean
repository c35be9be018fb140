import Wbox.Vm.Buffers
import Wbox.Vm.Bytes
import Wbox.Vm.Words

/-!
# Strings of bytes in physical memory

Bytes that are written one after the other, and areas of guest memory that lie in one piece of
physical memory whose page tables are not written to.
-/

namespace Wbox.Vm

open Wbox.Lib

namespace PhysMem

/-- Write bytes from an index of the array on. -/
def writeBytes (m : PhysMem) (p : Nat) (bs : List UInt8) : PhysMem :=
  { m with ram := fun a => if p ≤ a then bs.getD (a - p) (m.ram a) else m.ram a }

/-- The bytes from an index of the array on. -/
def readBytes (m : PhysMem) (p n : Nat) : List UInt8 := (List.range n).map fun i => m.ram (p + i)

/-- The half words from an index of the array on. -/
def readUnits (m : PhysMem) (p n : Nat) : List UInt16 :=
  (List.range n).map fun i => loadHalf m.ram (p + 2 * i)

variable {m : PhysMem} {p n : Nat} {bs cs : List UInt8}

@[simp] theorem writeBytes_ramSize : (m.writeBytes p bs).ramSize = m.ramSize := rfl

@[simp] theorem writeBytes_nil : m.writeBytes p [] = m := by
  unfold writeBytes
  simp

@[simp] theorem length_readBytes : (m.readBytes p n).length = n := by
  unfold readBytes
  rw [List.length_map, List.length_range]

theorem getElem_readBytes {i : Nat} (hi : i < (m.readBytes p n).length) :
    (m.readBytes p n)[i] = m.ram (p + i) := by
  simp [readBytes]

@[simp] theorem length_readUnits : (m.readUnits p n).length = n := by
  unfold readUnits
  rw [List.length_map, List.length_range]

theorem getElem_readUnits {i : Nat} (hi : i < (m.readUnits p n).length) :
    (m.readUnits p n)[i] = loadHalf m.ram (p + 2 * i) := by
  simp [readUnits]

theorem writeBytes_append : m.writeBytes p (bs ++ cs) =
    (m.writeBytes p bs).writeBytes (p + bs.length) cs := by
  unfold writeBytes
  congr 1
  funext a
  dsimp only
  by_cases hp : p ≤ a
  · rw [if_pos hp, List.getD_eq_getElem?_getD, List.getElem?_append]
    by_cases hbs : a - p < bs.length
    · rw [if_pos hbs, if_neg (show ¬ p + bs.length ≤ a by omega), if_pos hp,
        List.getD_eq_getElem?_getD]
    · have hold : bs[a - p]? = none := List.getElem?_eq_none (Nat.not_lt.mp hbs)
      rw [if_neg hbs, if_pos (show p + bs.length ≤ a by omega), if_pos hp,
        List.getD_eq_getElem?_getD, List.getD_eq_getElem?_getD, hold, Option.getD_none, Nat.sub_sub]
  · rw [if_neg hp, if_neg (show ¬ p + bs.length ≤ a by omega), if_neg hp]

theorem writeBytes_inside {i : Nat} (hi : i < bs.length) :
    (m.writeBytes p bs).ram (p + i) = bs[i] := by
  unfold writeBytes
  dsimp only
  rw [if_pos (Nat.le_add_right p i), Nat.add_sub_cancel_left, List.getD_eq_getElem?_getD,
    List.getElem?_eq_getElem hi, Option.getD_some]

theorem sameOn_writeBytes (m : PhysMem) (p : Nat) (bs : List UInt8) :
    SameOn {x | x < p ∨ p + bs.length ≤ x} m (m.writeBytes p bs) := by
  refine ⟨rfl, ?_⟩
  intro x hx
  unfold writeBytes
  dsimp only
  by_cases hp : p ≤ x
  · have hlen : bs.length ≤ x - p := by
      have hx' : x < p ∨ p + bs.length ≤ x := hx
      omega
    rw [if_pos hp, List.getD_eq_getElem?_getD, List.getElem?_eq_none hlen, Option.getD_none]
  · rw [if_neg hp]

/-- What has been written is read back. -/
theorem readBytes_writeBytes : (m.writeBytes p bs).readBytes p bs.length = bs := by
  apply List.ext_getElem length_readBytes
  intro i _ hi
  rw [getElem_readBytes]
  exact writeBytes_inside hi

end PhysMem

variable {m m' : PhysMem} {a : UInt32}

/-- Bytes read from a set of common bytes. -/
theorem SameOn.readBytes {s : Set Nat} {p n : Nat} (h : SameOn s m m') (hs : ∀ i < n, p + i ∈ s) :
    m'.readBytes p n = m.readBytes p n := by
  unfold PhysMem.readBytes
  apply List.map_congr_left
  intro i hi
  exact h.ram _ (hs i (List.mem_range.mp hi))

theorem memWritebPhys_eq (h : a.toNat < m.ramSize) (v : UInt8) :
    memWritebPhys m a v = m.writeBytes a.toNat [v] := by
  unfold memWritebPhys PhysMem.writeBytes
  rw [if_pos h]
  congr 1
  funext x
  by_cases hx : x = a.toNat
  · subst hx
    rw [Function.update_self, if_pos le_rfl, Nat.sub_self]
    rfl
  · rw [Function.update_of_ne hx]
    split
    · rw [List.getD_eq_getElem?_getD, List.getElem?_eq_none (by rw [List.length_singleton]; omega),
        Option.getD_none]
    · rfl

theorem memWritewPhys_eq (hram : m.ramSize ≤ 2 ^ 32) (h : a.toNat + 2 ≤ m.ramSize) (v : UInt16) :
    memWritewPhys m a v = m.writeBytes a.toNat [v.toUInt8, (v >>> 8).toUInt8] := by
  have hone : (1 : UInt32).toNat = 1 := rfl
  have hnext : (a + 1).toNat = a.toNat + 1 := by
    rw [UInt32.toNat_add, hone]
    omega
  unfold memWritewPhys PhysMem.writeBytes
  rw [if_pos (by omega)]
  congr 1
  funext x
  by_cases hsecond : x = a.toNat + 1
  · subst hsecond
    rw [Function.update_self, if_pos (Nat.le_succ _), Nat.add_sub_cancel_left]
    rfl
  · rw [Function.update_of_ne hsecond]
    by_cases hfirst : x = a.toNat
    · subst hfirst
      rw [Function.update_self, if_pos le_rfl, Nat.sub_self]
      rfl
    · rw [Function.update_of_ne hfirst]
      split
      · rw [List.getD_eq_getElem?_getD,
          List.getElem?_eq_none (by rw [List.length_cons, List.length_singleton]; omega),
          Option.getD_none]
      · rfl

/-- A buffer of the guest and where it lies in physical memory. -/
structure Area where
  va : UInt32
  phys : UInt32
  len : UInt32

namespace Area

/-- The bytes of the array that belong to it. -/
def range (a : Area) : Set Nat := {x | a.phys.toNat ≤ x ∧ x < a.phys.toNat + a.len.toNat}

/-- It is mapped to physical memory in one piece, and stays so while only these bytes are written:
the page tables are not among them. -/
structure Ready (m : PhysMem) (ctx : PagingContext) (written : Set Nat) (a : Area) : Prop where
  null : a.va ≠ 0
  mapped : a.phys ≠ 0
  inside : a.phys.toNat + a.len.toNat ≤ m.ramSize
  translated : ∀ m', SameOn {x | x ∉ written} m m' → ∀ i < a.len.toNat,
    pagingGetPhys m' ctx (a.va + UInt32.ofNat i) = a.phys + UInt32.ofNat i

variable {a : Area} {ctx : PagingContext} {written written' : Set Nat}

theorem Ready.mono (h : a.Ready m ctx written) (hsub : written' ⊆ written) :
    a.Ready m ctx written' where
  null := h.null
  mapped := h.mapped
  inside := h.inside
  translated m' hsame := h.translated m' (hsame.mono fun _ hx hin => hx (hsub hin))

/-- It stays ready. -/
theorem Ready.after (h : a.Ready m ctx written) (hsame : SameOn {x | x ∉ written} m m') :
    a.Ready m' ctx written where
  null := h.null
  mapped := h.mapped
  inside := by rw [hsame.size]; exact h.inside
  translated m'' hsame' := h.translated m'' (hsame.trans hsame')

theorem Ready.first (h : a.Ready m ctx written) (hlen : 0 < a.len.toNat) :
    pagingGetPhys m ctx a.va = a.phys := by
  have hzero := h.translated m (.refl _ m) 0 hlen
  rw [show UInt32.ofNat 0 = 0 from rfl, UInt32.add_zero, UInt32.add_zero] at hzero
  exact hzero

end Area

/-- A translation that finds the same words of the page tables. -/
theorem SameOn.pagingGetPhys {s : Set Nat} {ctx : PagingContext} {virt : UInt32}
    (h : SameOn s m m')
    (hdir : ∀ k < 4, (ctx.pdPhys + ((virt &&& pageMask) >>> 22 &&& 0x3FF) * 4).toNat + k ∈ s)
    (htable : ∀ k < 4,
      ((memReadlPhys m (ctx.pdPhys + ((virt &&& pageMask) >>> 22 &&& 0x3FF) * 4) &&& pageMask) +
        ((virt &&& pageMask) >>> 12 &&& 0x3FF) * 4).toNat + k ∈ s) :
    pagingGetPhys m' ctx virt = pagingGetPhys m ctx virt := by
  unfold Vm.pagingGetPhys
  dsimp only
  rw [h.readl hdir, h.readl htable]

/-- A buffer whose page tables lie below all that is written. -/
theorem Area.ready_of_tables_below {a : Area} {ctx : PagingContext} {written : Set Nat} {low : Nat}
    (hlow : ∀ x ∈ written, low ≤ x) (hnull : a.va ≠ 0) (hmapped : a.phys ≠ 0)
    (hinside : a.phys.toNat + a.len.toNat ≤ m.ramSize)
    (hdir : ∀ i < a.len.toNat, (ctx.pdPhys +
      ((a.va + UInt32.ofNat i &&& pageMask) >>> 22 &&& 0x3FF) * 4).toNat + 4 ≤ low)
    (htable : ∀ i < a.len.toNat,
      ((memReadlPhys m (ctx.pdPhys + ((a.va + UInt32.ofNat i &&& pageMask) >>> 22 &&& 0x3FF) * 4) &&&
        pageMask) + ((a.va + UInt32.ofNat i &&& pageMask) >>> 12 &&& 0x3FF) * 4).toNat + 4 ≤ low)
    (htranslated : ∀ i < a.len.toNat,
      pagingGetPhys m ctx (a.va + UInt32.ofNat i) = a.phys + UInt32.ofNat i) :
    a.Ready m ctx written where
  null := hnull
  mapped := hmapped
  inside := hinside
  translated m' hsame i hi := by
    have hquiet : ∀ x < low, x ∈ {x | x ∉ written} :=
      fun x hx hin => absurd (hlow x hin) (Nat.not_le.mpr hx)
    have hdir' := hdir i hi
    have htable' := htable i hi
    rw [hsame.pagingGetPhys (fun k hk => hquiet _ (by omega)) (fun k hk => hquiet _ (by omega))]
    exact htranslated i hi

/-- A byte as the guest sees it. -/
def guestByte (m : PhysMem) (ctx : PagingContext) (va : UInt32) : UInt8 :=
  memReadbPhys m (pagingGetPhys m ctx va)

/-- A half word as the guest sees it, byte by byte. -/
def guestHalf (m : PhysMem) (ctx : PagingContext) (va : UInt32) : UInt16 :=
  (guestByte m ctx va).toUInt16 ||| (guestByte m ctx (va + 1)).toUInt16 <<< 8

/-- A word as the guest sees it. -/
def guestWord (m : PhysMem) (ctx : PagingContext) (va : UInt32) : UInt32 :=
  loadWord (fun i => guestByte m ctx (va + UInt32.ofNat i)) 0

/-- The bytes of a buffer as the guest sees them. -/
def guestBytes (m : PhysMem) (ctx : PagingContext) (va : UInt32) (n : Nat) : List UInt8 :=
  (List.range n).map fun i => guestByte m ctx (va + UInt32.ofNat i)

/-- The characters of a buffer as the guest sees them. -/
def guestUnits (m : PhysMem) (ctx : PagingContext) (va : UInt32) (n : Nat) : List UInt16 :=
  (List.range n).map fun i => guestHalf m ctx (va + UInt32.ofNat (2 * i))

theorem guestHalf_add (m : PhysMem) (ctx : PagingContext) (va : UInt32) (i : Nat) :
    guestHalf m ctx (va + UInt32.ofNat i) = (guestByte m ctx (va + UInt32.ofNat i)).toUInt16 |||
      (guestByte m ctx (va + UInt32.ofNat (i + 1))).toUInt16 <<< 8 := by
  unfold guestHalf
  rw [UInt32.ofNat_add, UInt32.add_assoc]
  rfl

/-- They are those of physical memory. -/
theorem Area.Ready.guestBytes_eq {a : Area} {ctx : PagingContext} {written : Set Nat}
    (h : a.Ready m ctx written) (hram : m.ramSize ≤ 2 ^ 32) {n : Nat} (hn : n ≤ a.len.toNat) :
    guestBytes m ctx a.va n = m.readBytes a.phys.toNat n := by
  unfold guestBytes PhysMem.readBytes
  apply List.map_congr_left
  intro i hi
  have hlt : i < a.len.toNat := Nat.lt_of_lt_of_le (List.mem_range.mp hi) hn
  have hinside := h.inside
  have haddr : (a.phys + UInt32.ofNat i).toNat = a.phys.toNat + i :=
    toNat_add_ofNat hlt (h.inside.trans hram)
  unfold guestByte
  rw [h.translated m (.refl _ m) i hlt]
  unfold memReadbPhys
  rw [haddr, if_pos (by omega)]

/-- The characters that the guest sees are those of physical memory. -/
theorem Area.Ready.guestUnits_eq {a : Area} {ctx : PagingContext} {written : Set Nat}
    (h : a.Ready m ctx written) (hram : m.ramSize ≤ 2 ^ 32) {n : Nat} (hn : 2 * n ≤ a.len.toNat) :
    guestUnits m ctx a.va n = m.readUnits a.phys.toNat n := by
  have hbytes := h.guestBytes_eq hram hn
  have hbyte : ∀ x < 2 * n, guestByte m ctx (a.va + UInt32.ofNat x) =
      m.ram (a.phys.toNat + x) := fun x hx =>
    List.map_inj_left.mp hbytes x (List.mem_range.mpr hx)
  unfold guestUnits PhysMem.readUnits
  apply List.map_congr_left
  intro i hi
  have hlt := List.mem_range.mp hi
  rw [guestHalf_add, hbyte (2 * i) (by omega), hbyte (2 * i + 1) (by omega)]
  rfl

end Wbox.Vm
