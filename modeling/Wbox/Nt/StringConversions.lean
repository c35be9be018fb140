import Wbox.Nt.BufferSyscalls
import Wbox.Vm.Strings

/-!
# Conversions of strings

The conversions between bytes and UTF-16 of `src/nt/ntdll.c:691–902`: what each writes of a string
that it has room for, and what is left of a string that is converted there and back. The OEM
conversions keep ASCII only.
-/

namespace Wbox.Nt

open Wbox.Lib Wbox.Vm

/-- The conversion of `RtlOemToUnicodeN`, `ntdll.c:833–848`. The index and the number of characters
count the same rounds. -/
def oemToUnicode (ctx : PagingContext) (unicodeStr unicodeSize oemStr oemSize : UInt32) :
    PhysM UInt32 := do
  if unicodeStr ≠ 0 ∧ oemStr ≠ 0 then
    let oemPhys ← getPhys ctx oemStr
    let unicodePhys ← getPhys ctx unicodeStr
    if oemPhys ≠ 0 ∧ unicodePhys ≠ 0 then
      (List.range (mbChars unicodeSize oemSize).toNat).forM fun i => do
        let ch ← readb (oemPhys + UInt32.ofNat i)
        writeb (unicodePhys + UInt32.ofNat i * 2) ch
        writeb (unicodePhys + UInt32.ofNat i * 2 + 1) 0
      return mbChars unicodeSize oemSize
    else return 0
  else return 0

/-- The conversion of `RtlUnicodeToOemN`, `ntdll.c:874–890`. -/
def unicodeToOem (ctx : PagingContext) (oemStr oemSize unicodeStr unicodeSize : UInt32) :
    PhysM UInt32 := do
  if oemStr ≠ 0 ∧ unicodeStr ≠ 0 then
    let oemPhys ← getPhys ctx oemStr
    let unicodePhys ← getPhys ctx unicodeStr
    if oemPhys ≠ 0 ∧ unicodePhys ≠ 0 then
      (List.range (unicodeChars oemSize unicodeSize).toNat).forM fun i => do
        let low ← readb (unicodePhys + UInt32.ofNat i * 2)
        let high ← readb (unicodePhys + UInt32.ofNat i * 2 + 1)
        let wch := low.toUInt16 ||| high.toUInt16 <<< 8
        writeb (oemPhys + UInt32.ofNat i) (if wch ≤ 0x7F then wch.toUInt8 else 0x3F)
      return unicodeChars oemSize unicodeSize
    else return 0
  else return 0

/-- `RtlOemToUnicodeN`, `ntdll.c:820–860`. -/
def rtlOemToUnicodeN (ctx : PagingContext)
    (unicodeStr unicodeSize resultSizePtr oemStr oemSize : UInt32) : PhysM PUnit := do
  let charsConverted ← oemToUnicode ctx unicodeStr unicodeSize oemStr oemSize
  writeResultSize ctx resultSizePtr (charsConverted * 2)

/-- `RtlUnicodeToOemN`, `ntdll.c:862–902`. -/
def rtlUnicodeToOemN (ctx : PagingContext)
    (oemStr oemSize resultSizePtr unicodeStr unicodeSize : UInt32) : PhysM PUnit := do
  let bytesWritten ← unicodeToOem ctx oemStr oemSize unicodeStr unicodeSize
  writeResultSize ctx resultSizePtr bytesWritten

/-- `RtlMultiByteToUnicodeSize`, `ntdll.c:776–796`. -/
def rtlMultiByteToUnicodeSize (ctx : PagingContext) (unicodeSizePtr _mbStr mbSize : UInt32) :
    PhysM PUnit :=
  writeResultSize ctx unicodeSizePtr (mbSize * 2)

/-- `RtlUnicodeToMultiByteSize`, `ntdll.c:798–818`. -/
def rtlUnicodeToMultiByteSize (ctx : PagingContext) (mbSizePtr _unicodeStr unicodeSize : UInt32) :
    PhysM PUnit :=
  writeResultSize ctx mbSizePtr (unicodeSize / 2)

/-- A byte as a character of two bytes. -/
def widen (b : UInt8) : List UInt8 := [b, 0]

/-- A character as a byte. -/
def narrow (wch : UInt16) : UInt8 := if wch < 256 then wch.toUInt8 else 0x3F

/-- An ASCII character as a byte. -/
def narrowOem (wch : UInt16) : UInt8 := if wch ≤ 0x7F then wch.toUInt8 else 0x3F

/-- What comes back of a byte through `RtlUnicodeToOemN`. -/
def oemByte (b : UInt8) : UInt8 := if b ≤ 0x7F then b else 0x3F

section Spec

variable {α : Type}

/-- The longest prefix that fits into `cap` bytes, with `w` bytes for each element. -/
structure LongestPrefix (w cap : Nat) (xs p : List α) : Prop where
  isPrefix : p <+: xs
  fits : w * p.length ≤ cap
  longest : ∀ q, q <+: xs → w * q.length ≤ cap → q.length ≤ p.length

/-- The pointer to the result size. -/
def resultPtr (res : Option Area) : UInt32 := (res.map Area.va).getD 0

/-- The bytes that a conversion may write. -/
def written (dst : Area) (res : Option Area) : Set Nat :=
  {x | x ∈ dst.range ∨ ∃ r ∈ res, x ∈ r.range}

/-- The buffers of a conversion. -/
structure Buffers (m : PhysMem) (ctx : PagingContext) (src dst : Area) (res : Option Area) :
    Prop where
  ram : m.ramSize ≤ 2 ^ 32
  srcReady : src.Ready m ctx (written dst res)
  dstReady : dst.Ready m ctx (written dst res)
  resReady : ∀ r ∈ res, r.len = 4 ∧ r.Ready m ctx (written dst res)
  apart : ∀ x ∈ src.range, x ∉ dst.range
  resApart : ∀ r ∈ res, ∀ x ∈ r.range, x ∉ dst.range

/-- The buffers of a conversion to Unicode and of one back: the characters and the bytes have enough
room, and nothing that is converted is written over before. -/
structure ThereAndBack (m : PhysMem) (ctx : PagingContext) (src wide back : Area)
    (res res' : Option Area) : Prop where
  ram : m.ramSize ≤ 2 ^ 32
  srcReady : src.Ready m ctx (written wide res ∪ written back res')
  wideReady : wide.Ready m ctx (written wide res ∪ written back res')
  backReady : back.Ready m ctx (written wide res ∪ written back res')
  resReady : ∀ r ∈ res, r.len = 4 ∧ r.Ready m ctx (written wide res ∪ written back res')
  resReady' : ∀ r ∈ res', r.len = 4 ∧ r.Ready m ctx (written wide res ∪ written back res')
  wideRoom : src.len.toNat * 2 ≤ wide.len.toNat
  backRoom : src.len.toNat ≤ back.len.toNat
  apart : ∀ x ∈ src.range, x ∉ wide.range
  apart' : ∀ x ∈ wide.range, x ∉ back.range
  resApart : ∀ r ∈ res, ∀ x ∈ r.range, x ∉ wide.range
  resApart' : ∀ r ∈ res', ∀ x ∈ r.range, x ∉ back.range

/-- A conversion has written these bytes to its buffer, and their number to the result size, and
nothing else. -/
structure Converted (m m' : PhysMem) (ctx : PagingContext) (dst : Area) (res : Option Area)
    (out : List UInt8) : Prop where
  bytes : guestBytes m' ctx dst.va out.length = out
  size : ∀ r ∈ res, (memReadlPhys m' (pagingGetPhys m' ctx r.va)).toNat = out.length
  rest : SameOn {x | ¬ (dst.phys.toNat ≤ x ∧ x < dst.phys.toNat + out.length) ∧
    ∀ r ∈ res, x ∉ r.range} m m'

/-- Each conversion writes the longest prefix that fits, and reports its size. -/
structure ConvertsPrefixes (m : PhysMem) (ctx : PagingContext) (src dst : Area)
    (res : Option Area) : Prop where
  mbToUnicode : ∃ p, LongestPrefix 2 dst.len.toNat (guestBytes m ctx src.va src.len.toNat) p ∧
    Converted m
      ((rtlMultiByteToUnicodeN ctx dst.va dst.len (resultPtr res) src.va src.len).after m) ctx dst
      res (p.flatMap widen)
  oemToUnicode : ∃ p, LongestPrefix 2 dst.len.toNat (guestBytes m ctx src.va src.len.toNat) p ∧
    Converted m ((rtlOemToUnicodeN ctx dst.va dst.len (resultPtr res) src.va src.len).after m) ctx
      dst res (p.flatMap widen)
  unicodeToMb : ∃ p,
    LongestPrefix 1 dst.len.toNat (guestUnits m ctx src.va (src.len.toNat / 2)) p ∧
      Converted m
        ((rtlUnicodeToMultiByteN ctx dst.va dst.len (resultPtr res) src.va src.len).after m) ctx
        dst res (p.map narrow)
  unicodeToOem : ∃ p,
    LongestPrefix 1 dst.len.toNat (guestUnits m ctx src.va (src.len.toNat / 2)) p ∧
      Converted m ((rtlUnicodeToOemN ctx dst.va dst.len (resultPtr res) src.va src.len).after m)
        ctx dst res (p.map narrowOem)

/-- What is left of a string that is converted there and back. -/
structure ComesBack (m : PhysMem) (ctx : PagingContext) (src wide back : Area)
    (res res' : Option Area) : Prop where
  mb : guestBytes
    ((rtlUnicodeToMultiByteN ctx back.va back.len (resultPtr res') wide.va (src.len * 2)).after
      ((rtlMultiByteToUnicodeN ctx wide.va wide.len (resultPtr res) src.va src.len).after m))
    ctx back.va src.len.toNat = guestBytes m ctx src.va src.len.toNat
  oem : guestBytes
    ((rtlUnicodeToOemN ctx back.va back.len (resultPtr res') wide.va (src.len * 2)).after
      ((rtlOemToUnicodeN ctx wide.va wide.len (resultPtr res) src.va src.len).after m))
    ctx back.va src.len.toNat = (guestBytes m ctx src.va src.len.toNat).map oemByte

/-- The sizes are those of what is written with room for all of it. -/
structure SizesAgree (m : PhysMem) (ctx : PagingContext) (r : Area) (str n : UInt32) : Prop where
  unicodeSize : n.toNat < 2 ^ 31 → ∀ (bs p : List UInt8) (cap : Nat), bs.length = n.toNat →
    2 * bs.length ≤ cap → LongestPrefix 2 cap bs p →
      (memReadlPhys ((rtlMultiByteToUnicodeSize ctx r.va str n).after m)
        (pagingGetPhys ((rtlMultiByteToUnicodeSize ctx r.va str n).after m) ctx r.va)).toNat =
          (p.flatMap widen).length
  mbSize : ∀ (us p : List UInt16) (cap : Nat), us.length = n.toNat / 2 → us.length ≤ cap →
    LongestPrefix 1 cap us p →
      (memReadlPhys ((rtlUnicodeToMultiByteSize ctx r.va str n).after m)
        (pagingGetPhys ((rtlUnicodeToMultiByteSize ctx r.va str n).after m) ctx r.va)).toNat =
          (p.map narrow).length

theorem longestPrefix_take {w : Nat} (hw : 0 < w) (cap : Nat) (xs : List α) :
    LongestPrefix w cap xs (xs.take (cap / w)) where
  isPrefix := List.take_prefix _ xs
  fits := by
    rw [List.length_take]
    exact (Nat.mul_le_mul_left w (min_le_left _ _)).trans (Nat.mul_div_le cap w)
  longest q hq hfits := by
    rw [List.length_take]
    apply le_min _ hq.length_le
    rw [Nat.le_div_iff_mul_le hw, Nat.mul_comm]
    exact hfits

end Spec

section Loops

variable {α : Type} {m m' : PhysMem} {ctx : PagingContext} {src dst : Area} {res : Option Area}

/-- The rounds of a conversion write one element after the other. -/
theorem convert_rounds {enc : α → List UInt8} {w k pd : Nat} {xs : List α}
    {body : Nat → PhysM PUnit} (hw : ∀ x, (enc x).length = w) (hk : k ≤ xs.length)
    (hbody : ∀ i (hi : i < xs.length), i < k → ∀ done, done.length = w * i →
      (body i).after (m.writeBytes pd done) =
        (m.writeBytes pd done).writeBytes (pd + w * i) (enc xs[i])) :
    ((List.range k).forM body).after m = m.writeBytes pd ((xs.take k).flatMap enc) := by
  have hlength : ∀ i ≤ xs.length, ((xs.take i).flatMap enc).length = w * i := by
    intro i hi
    rw [List.length_flatMap, List.map_congr_left fun x _ => hw x, List.map_const',
      List.sum_replicate_nat, List.length_take, min_eq_left hi, Nat.mul_comm]
  have hrounds : ∀ i < k, (body i).after (m.writeBytes pd ((xs.take i).flatMap enc)) =
      m.writeBytes pd ((xs.take (i + 1)).flatMap enc) := by
    intro i hi
    have hlt := Nat.lt_of_lt_of_le hi hk
    rw [hbody i hlt hi _ (hlength i hlt.le), List.take_succ_eq_append_getElem hlt,
      List.flatMap_append, PhysMem.writeBytes_append, hlength i hlt.le, List.flatMap_singleton]
  have hloop := Logged.after_forM_range hrounds
  rw [List.take_zero, List.flatMap_nil, PhysMem.writeBytes_nil] at hloop
  exact hloop

/-- A conversion of as many elements as there are and there is room for; without a round it need not
find its buffers. -/
theorem convert_spec {enc : α → List UInt8} {w cap pd : Nat} {xs : List α} {n : UInt32}
    {found : Prop} [Decidable found] {body : Nat → PhysM PUnit} (hw : ∀ x, (enc x).length = w)
    (hcount : n.toNat = min cap xs.length) (hfound : 0 < n.toNat → found)
    (hbody : ∀ i (hi : i < xs.length), i < n.toNat → ∀ done, done.length = w * i →
      (body i).after (m.writeBytes pd done) =
        (m.writeBytes pd done).writeBytes (pd + w * i) (enc xs[i])) :
    (if found then (do (List.range n.toNat).forM body; return n) else return 0 :
        PhysM UInt32).after m = m.writeBytes pd ((xs.take cap).flatMap enc) ∧
      ((if found then (do (List.range n.toNat).forM body; return n) else return 0 :
        PhysM UInt32).value m).toNat = (xs.take cap).length := by
  have htake : xs.take n.toNat = xs.take cap := by
    rw [hcount, ← List.take_take, List.take_length]
  by_cases hif : found
  · rw [if_pos hif]
    constructor
    · refine (convert_rounds hw ?_ hbody).trans (by rw [htake])
      rw [hcount]
      exact min_le_right _ _
    · rw [List.length_take]
      exact hcount
  · have hzero : n.toNat = 0 := Nat.eq_zero_of_not_pos fun hpos => hif (hfound hpos)
    rw [hzero, List.take_zero] at htake
    rw [if_neg hif, ← htake, List.flatMap_nil, PhysMem.writeBytes_nil]
    exact ⟨rfl, rfl⟩

/-- The address of an element of two bytes. -/
theorem unit_toNat {a : UInt32} {i n : Nat} (hi : 2 * i < n) (hfits : a.toNat + n ≤ 2 ^ 32) :
    (a + UInt32.ofNat i * 2).toNat = a.toNat + 2 * i := by
  have htwo : UInt32.ofNat i * 2 = UInt32.ofNat (2 * i) := by
    rw [Nat.mul_comm, UInt32.ofNat_mul]
    rfl
  rw [htwo]
  exact toNat_add_ofNat hi hfits

/-- The two bytes of a character that is a byte. -/
theorem widen_eq (b : UInt8) : [b.toUInt16.toUInt8, (b.toUInt16 >>> 8).toUInt8] = widen b := by
  have hhigh : (b.toUInt16 >>> 8).toUInt8 = 0 := by
    apply UInt8.toNat_inj.mp
    have hb := b.toNat_lt
    have height : (8 : UInt16).toNat % 16 = 8 := rfl
    rw [UInt16.toNat_toUInt8, UInt16.toNat_shiftRight, height, UInt8.toNat_toUInt16,
      Nat.shiftRight_eq_div_pow, Nat.div_eq_of_lt hb]
    rfl
  rw [hhigh, UInt8.toUInt8_toUInt16]
  rfl

variable (h : Buffers m ctx src dst res)

include h

/-- What has been converted leaves the source alone. -/
theorem Buffers.source {done : List UInt8} (hdone : done.length ≤ dst.len.toNat) {x : Nat}
    (hx : x < src.len.toNat) : (m.writeBytes dst.phys.toNat done).ram (src.phys.toNat + x) =
      m.ram (src.phys.toNat + x) := by
  have hsrc : src.phys.toNat + x ∈ src.range := ⟨Nat.le_add_right _ _, Nat.add_lt_add_left hx _⟩
  have hout : ¬ (dst.phys.toNat ≤ src.phys.toNat + x ∧
      src.phys.toNat + x < dst.phys.toNat + dst.len.toNat) := h.apart _ hsrc
  apply (PhysMem.sameOn_writeBytes m dst.phys.toNat done).ram
  show _ ∨ _
  omega

/-- A byte of the source. -/
theorem Buffers.readByte {done : List UInt8} (hdone : done.length ≤ dst.len.toNat) {a : UInt32}
    {x : Nat} (ha : a.toNat = src.phys.toNat + x) (hx : x < src.len.toNat) :
    memReadbPhys (m.writeBytes dst.phys.toNat done) a = m.ram (src.phys.toNat + x) := by
  have hinside := h.srcReady.inside
  unfold memReadbPhys
  rw [PhysMem.writeBytes_ramSize, if_pos (by omega), ha]
  exact h.source hdone hx

/-- A character of the source. -/
theorem Buffers.readUnit {done : List UInt8} (hdone : done.length ≤ dst.len.toNat) {i : Nat}
    (hi : 2 * i + 2 ≤ src.len.toNat) :
    memReadwPhys (m.writeBytes dst.phys.toNat done) (src.phys + UInt32.ofNat i * 2) =
      loadHalf m.ram (src.phys.toNat + 2 * i) := by
  have hinside := h.srcReady.inside
  have hram := h.ram
  have hlow : (src.phys + UInt32.ofNat i * 2).toNat = src.phys.toNat + 2 * i :=
    unit_toNat (by omega) (hinside.trans hram)
  have hhigh : (src.phys + UInt32.ofNat i * 2 + 1).toNat = src.phys.toNat + (2 * i + 1) := by
    rw [UInt32.toNat_add, hlow, show (1 : UInt32).toNat = 1 from rfl]
    omega
  unfold memReadwPhys loadHalf
  rw [if_pos (by rw [hhigh, PhysMem.writeBytes_ramSize]; omega), hlow, Nat.add_assoc,
    h.source hdone (by omega), h.source hdone (by omega)]

/-- A byte of the destination. -/
theorem Buffers.writeByte {done : List UInt8} {a : UInt32} {x : Nat}
    (ha : a.toNat = dst.phys.toNat + x) (hx : x < dst.len.toNat) (v : UInt8) :
    memWritebPhys (m.writeBytes dst.phys.toNat done) a v =
      (m.writeBytes dst.phys.toNat done).writeBytes (dst.phys.toNat + x) [v] := by
  have hinside := h.dstReady.inside
  rw [memWritebPhys_eq (by rw [PhysMem.writeBytes_ramSize]; omega), ha]

omit h in
theorem mbChars_toNat (unicodeSize mbSize : UInt32) :
    (mbChars unicodeSize mbSize).toNat = min (unicodeSize.toNat / 2) mbSize.toNat := by
  have htwo : (unicodeSize / 2).toNat = unicodeSize.toNat / 2 := UInt32.toNat_div _ _
  unfold mbChars
  dsimp only
  split
  · next hlt =>
    rw [UInt32.lt_iff_toNat_lt, htwo] at hlt
    rw [min_eq_right hlt.le]
  · next hge =>
    rw [UInt32.lt_iff_toNat_lt, htwo, not_lt] at hge
    rw [htwo, min_eq_left hge]

omit h in
theorem unicodeChars_toNat (mbSize unicodeSize : UInt32) :
    (unicodeChars mbSize unicodeSize).toNat = min mbSize.toNat (unicodeSize.toNat / 2) := by
  have htwo : (unicodeSize / 2).toNat = unicodeSize.toNat / 2 := UInt32.toNat_div _ _
  unfold unicodeChars
  dsimp only
  split
  · next hlt =>
    rw [UInt32.lt_iff_toNat_lt, htwo] at hlt
    rw [htwo, min_eq_right hlt.le]
  · next hge =>
    rw [UInt32.lt_iff_toNat_lt, htwo, not_lt] at hge
    rw [min_eq_left hge]

/-- A conversion to Unicode that has a round finds its buffers. -/
theorem Buffers.found (hpos : 0 < src.len.toNat) (hpos' : 0 < dst.len.toNat) :
    pagingGetPhys m ctx src.va = src.phys ∧ pagingGetPhys m ctx dst.va = dst.phys :=
  ⟨h.srcReady.first hpos, h.dstReady.first hpos'⟩

/-- `RtlMultiByteToUnicodeN` converts what there is room for. -/
theorem mbToUnicode_spec :
    (mbToUnicode ctx dst.va dst.len src.va src.len).after m = m.writeBytes dst.phys.toNat
      (((m.readBytes src.phys.toNat src.len.toNat).take (dst.len.toNat / 2)).flatMap widen) ∧
    ((mbToUnicode ctx dst.va dst.len src.va src.len).value m).toNat =
      ((m.readBytes src.phys.toNat src.len.toNat).take (dst.len.toNat / 2)).length := by
  have hcount := mbChars_toNat dst.len src.len
  have hinside := h.dstReady.inside
  have hram := h.ram
  have hfound : 0 < (mbChars dst.len src.len).toNat →
      pagingGetPhys m ctx src.va = src.phys ∧ pagingGetPhys m ctx dst.va = dst.phys :=
    fun hpos => h.found (by omega) (by omega)
  have hwidth : ∀ b, (widen b).length = 2 := fun _ => rfl
  show (if pagingGetPhys m ctx src.va ≠ 0 ∧ pagingGetPhys m ctx dst.va ≠ 0 then _ else _ :
      PhysM UInt32).after m = _ ∧
    ((if pagingGetPhys m ctx src.va ≠ 0 ∧ pagingGetPhys m ctx dst.va ≠ 0 then _ else _ :
      PhysM UInt32).value m).toNat = _
  apply convert_spec hwidth
  · rw [hcount, PhysMem.length_readBytes]
  · intro hpos
    rw [(hfound hpos).1, (hfound hpos).2]
    exact ⟨h.srcReady.mapped, h.dstReady.mapped⟩
  · intro i hi hround done hdone
    obtain ⟨hsrc, hdst⟩ := hfound (Nat.zero_lt_of_lt hround)
    rw [PhysMem.length_readBytes] at hi
    have hread : memReadbPhys (m.writeBytes dst.phys.toNat done)
        (src.phys + UInt32.ofNat i) = m.ram (src.phys.toNat + i) :=
      h.readByte (by omega) (toNat_add_ofNat hi (h.srcReady.inside.trans hram)) hi
    have haddr : (dst.phys + UInt32.ofNat i * 2).toNat = dst.phys.toNat + 2 * i :=
      unit_toNat (by omega) (hinside.trans hram)
    have hroom : (dst.phys + UInt32.ofNat i * 2).toNat + 2 ≤
        (m.writeBytes dst.phys.toNat done).ramSize := by
      rw [haddr, PhysMem.writeBytes_ramSize]
      omega
    rw [PhysMem.getElem_readBytes]
    show memWritewPhys (m.writeBytes dst.phys.toNat done)
      (pagingGetPhys m ctx dst.va + UInt32.ofNat i * 2)
      (memReadbPhys (m.writeBytes dst.phys.toNat done)
        (pagingGetPhys m ctx src.va + UInt32.ofNat i)).toUInt16 = _
    rw [hsrc, hdst, hread, memWritewPhys_eq (m := m.writeBytes dst.phys.toNat done) hram hroom,
      haddr, widen_eq]

/-- So does `RtlOemToUnicodeN`. -/
theorem oemToUnicode_spec :
    (oemToUnicode ctx dst.va dst.len src.va src.len).after m = m.writeBytes dst.phys.toNat
      (((m.readBytes src.phys.toNat src.len.toNat).take (dst.len.toNat / 2)).flatMap widen) ∧
    ((oemToUnicode ctx dst.va dst.len src.va src.len).value m).toNat =
      ((m.readBytes src.phys.toNat src.len.toNat).take (dst.len.toNat / 2)).length := by
  have hcount := mbChars_toNat dst.len src.len
  have hinside := h.dstReady.inside
  have hram := h.ram
  have hfound : 0 < (mbChars dst.len src.len).toNat →
      pagingGetPhys m ctx src.va = src.phys ∧ pagingGetPhys m ctx dst.va = dst.phys :=
    fun hpos => h.found (by omega) (by omega)
  have hwidth : ∀ b, (widen b).length = 2 := fun _ => rfl
  unfold oemToUnicode
  rw [if_pos ⟨h.dstReady.null, h.srcReady.null⟩]
  show (if pagingGetPhys m ctx src.va ≠ 0 ∧ pagingGetPhys m ctx dst.va ≠ 0 then _ else _ :
      PhysM UInt32).after m = _ ∧
    ((if pagingGetPhys m ctx src.va ≠ 0 ∧ pagingGetPhys m ctx dst.va ≠ 0 then _ else _ :
      PhysM UInt32).value m).toNat = _
  apply convert_spec hwidth
  · rw [hcount, PhysMem.length_readBytes]
  · intro hpos
    rw [(hfound hpos).1, (hfound hpos).2]
    exact ⟨h.srcReady.mapped, h.dstReady.mapped⟩
  · intro i hi hround done hdone
    obtain ⟨hsrc, hdst⟩ := hfound (Nat.zero_lt_of_lt hround)
    rw [PhysMem.length_readBytes] at hi
    have hread : memReadbPhys (m.writeBytes dst.phys.toNat done)
        (src.phys + UInt32.ofNat i) = m.ram (src.phys.toNat + i) :=
      h.readByte (by omega) (toNat_add_ofNat hi (h.srcReady.inside.trans hram)) hi
    have hlow : (dst.phys + UInt32.ofNat i * 2).toNat = dst.phys.toNat + 2 * i :=
      unit_toNat (by omega) (hinside.trans hram)
    have hhigh : (dst.phys + UInt32.ofNat i * 2 + 1).toNat = dst.phys.toNat + (2 * i + 1) := by
      rw [UInt32.toNat_add, hlow, show (1 : UInt32).toNat = 1 from rfl]
      omega
    rw [PhysMem.getElem_readBytes]
    show memWritebPhys (memWritebPhys (m.writeBytes dst.phys.toNat done)
      (pagingGetPhys m ctx dst.va + UInt32.ofNat i * 2)
      (memReadbPhys (m.writeBytes dst.phys.toNat done)
        (pagingGetPhys m ctx src.va + UInt32.ofNat i)))
      (pagingGetPhys m ctx dst.va + UInt32.ofNat i * 2 + 1) 0 = _
    have hroom : (dst.phys + UInt32.ofNat i * 2 + 1).toNat < ((m.writeBytes dst.phys.toNat
        done).writeBytes (dst.phys.toNat + 2 * i) [m.ram (src.phys.toNat + i)]).ramSize := by
      rw [hhigh, PhysMem.writeBytes_ramSize, PhysMem.writeBytes_ramSize]
      omega
    rw [hsrc, hdst, hread, h.writeByte hlow (by omega), memWritebPhys_eq hroom, hhigh]
    have happend : ∀ (m' : PhysMem) p b,
        (m'.writeBytes p [b]).writeBytes (p + 1) [0] = m'.writeBytes p (widen b) :=
      fun _ _ _ => PhysMem.writeBytes_append.symm
    exact happend _ _ _

/-- `RtlUnicodeToMultiByteN` converts what there is room for. -/
theorem unicodeToMb_spec :
    (unicodeToMb ctx dst.va dst.len src.va src.len).after m = m.writeBytes dst.phys.toNat
      (((m.readUnits src.phys.toNat (src.len.toNat / 2)).take dst.len.toNat).flatMap
        fun wch => [narrow wch]) ∧
    ((unicodeToMb ctx dst.va dst.len src.va src.len).value m).toNat =
      ((m.readUnits src.phys.toNat (src.len.toNat / 2)).take dst.len.toNat).length := by
  have hcount := unicodeChars_toNat dst.len src.len
  have hram := h.ram
  have hfound : 0 < (unicodeChars dst.len src.len).toNat →
      pagingGetPhys m ctx src.va = src.phys ∧ pagingGetPhys m ctx dst.va = dst.phys :=
    fun hpos => h.found (by omega) (by omega)
  have hwidth : ∀ wch, [narrow wch].length = 1 := fun _ => rfl
  show (if pagingGetPhys m ctx src.va ≠ 0 ∧ pagingGetPhys m ctx dst.va ≠ 0 then _ else _ :
      PhysM UInt32).after m = _ ∧
    ((if pagingGetPhys m ctx src.va ≠ 0 ∧ pagingGetPhys m ctx dst.va ≠ 0 then _ else _ :
      PhysM UInt32).value m).toNat = _
  apply convert_spec hwidth
  · rw [hcount, PhysMem.length_readUnits]
  · intro hpos
    rw [(hfound hpos).1, (hfound hpos).2]
    exact ⟨h.srcReady.mapped, h.dstReady.mapped⟩
  · intro i hi hround done hdone
    obtain ⟨hsrc, hdst⟩ := hfound (Nat.zero_lt_of_lt hround)
    rw [PhysMem.length_readUnits] at hi
    have hread : memReadwPhys (m.writeBytes dst.phys.toNat done)
        (src.phys + UInt32.ofNat i * 2) = loadHalf m.ram (src.phys.toNat + 2 * i) :=
      h.readUnit (by omega) (by omega)
    have haddr : (dst.phys + UInt32.ofNat i).toNat = dst.phys.toNat + i :=
      toNat_add_ofNat (by omega) (h.dstReady.inside.trans hram)
    rw [PhysMem.getElem_readUnits, Nat.one_mul]
    show memWritebPhys (m.writeBytes dst.phys.toNat done)
      (pagingGetPhys m ctx dst.va + UInt32.ofNat i)
      (narrow (memReadwPhys (m.writeBytes dst.phys.toNat done)
        (pagingGetPhys m ctx src.va + UInt32.ofNat i * 2))) = _
    rw [hsrc, hdst, hread, h.writeByte haddr (by omega)]

/-- So does `RtlUnicodeToOemN`, which keeps ASCII only. -/
theorem unicodeToOem_spec :
    (unicodeToOem ctx dst.va dst.len src.va src.len).after m = m.writeBytes dst.phys.toNat
      (((m.readUnits src.phys.toNat (src.len.toNat / 2)).take dst.len.toNat).flatMap
        fun wch => [narrowOem wch]) ∧
    ((unicodeToOem ctx dst.va dst.len src.va src.len).value m).toNat =
      ((m.readUnits src.phys.toNat (src.len.toNat / 2)).take dst.len.toNat).length := by
  have hcount := unicodeChars_toNat dst.len src.len
  have hram := h.ram
  have hinside := h.srcReady.inside
  have hfound : 0 < (unicodeChars dst.len src.len).toNat →
      pagingGetPhys m ctx src.va = src.phys ∧ pagingGetPhys m ctx dst.va = dst.phys :=
    fun hpos => h.found (by omega) (by omega)
  have hwidth : ∀ wch, [narrowOem wch].length = 1 := fun _ => rfl
  unfold unicodeToOem
  rw [if_pos ⟨h.dstReady.null, h.srcReady.null⟩]
  show (if pagingGetPhys m ctx dst.va ≠ 0 ∧ pagingGetPhys m ctx src.va ≠ 0 then _ else _ :
      PhysM UInt32).after m = _ ∧
    ((if pagingGetPhys m ctx dst.va ≠ 0 ∧ pagingGetPhys m ctx src.va ≠ 0 then _ else _ :
      PhysM UInt32).value m).toNat = _
  apply convert_spec hwidth
  · rw [hcount, PhysMem.length_readUnits]
  · intro hpos
    rw [(hfound hpos).1, (hfound hpos).2]
    exact ⟨h.dstReady.mapped, h.srcReady.mapped⟩
  · intro i hi hround done hdone
    obtain ⟨hsrc, hdst⟩ := hfound (Nat.zero_lt_of_lt hround)
    rw [PhysMem.length_readUnits] at hi
    have hlow : (src.phys + UInt32.ofNat i * 2).toNat = src.phys.toNat + 2 * i :=
      unit_toNat (by omega) (hinside.trans hram)
    have hhigh : (src.phys + UInt32.ofNat i * 2 + 1).toNat = src.phys.toNat + (2 * i + 1) := by
      rw [UInt32.toNat_add, hlow, show (1 : UInt32).toNat = 1 from rfl]
      omega
    have haddr : (dst.phys + UInt32.ofNat i).toNat = dst.phys.toNat + i :=
      toNat_add_ofNat (by omega) (h.dstReady.inside.trans hram)
    rw [PhysMem.getElem_readUnits, Nat.one_mul]
    show memWritebPhys (m.writeBytes dst.phys.toNat done)
      (pagingGetPhys m ctx dst.va + UInt32.ofNat i)
      (narrowOem ((memReadbPhys (m.writeBytes dst.phys.toNat done)
          (pagingGetPhys m ctx src.va + UInt32.ofNat i * 2)).toUInt16 |||
        (memReadbPhys (m.writeBytes dst.phys.toNat done)
          (pagingGetPhys m ctx src.va + UInt32.ofNat i * 2 + 1)).toUInt16 <<< 8)) = _
    rw [hsrc, hdst, h.readByte (by omega) hlow (by omega), h.readByte (by omega) hhigh (by omega),
      h.writeByte haddr (by omega)]
    rfl

end Loops

section Results

variable {m m' : PhysMem} {ctx : PagingContext} {src dst r : Area} {res : Option Area}
  {out : List UInt8} {v : UInt32} {written' : Set Nat}

/-- The result size goes to its buffer. -/
theorem writeResultSize_ready (hr : r.Ready m ctx written') (hlen : r.len = 4) :
    (writeResultSize ctx r.va v).after m = memWritelPhys m r.phys v := by
  have hphys := hr.first (by rw [hlen]; decide)
  unfold writeResultSize
  rw [if_pos hr.null]
  show (if pagingGetPhys m ctx r.va ≠ 0 then _ else _ : PhysM PUnit).after m = _
  rw [hphys, if_pos hr.mapped]
  show memWritelPhys m (pagingGetPhys m ctx r.va) v = _
  rw [hphys]

/-- It is found there, and nothing else is changed. -/
theorem writeResultSize_spec (hram : m.ramSize ≤ 2 ^ 32) (hr : r.Ready m ctx written')
    (hlen : r.len = 4) (hsub : r.range ⊆ written') :
    SameOn {x | x ∉ r.range} m ((writeResultSize ctx r.va v).after m) ∧
      memReadlPhys ((writeResultSize ctx r.va v).after m)
        (pagingGetPhys ((writeResultSize ctx r.va v).after m) ctx r.va) = v := by
  have hinside := hr.inside
  have hfour : r.len.toNat = 4 := by rw [hlen]; rfl
  have hlast : (r.phys + 3).toNat = r.phys.toNat + 3 := by
    rw [UInt32.toNat_add, show (3 : UInt32).toNat = 3 from rfl]
    omega
  have hsame : SameOn {x | x ∉ r.range} m ((writeResultSize ctx r.va v).after m) := by
    rw [writeResultSize_ready hr hlen]
    apply (sameOn_writel m r.phys v).mono
    intro x hx
    have hx' : ¬ (r.phys.toNat ≤ x ∧ x < r.phys.toNat + r.len.toNat) := hx
    show x < r.phys.toNat ∨ r.phys.toNat + 4 ≤ x
    omega
  refine ⟨hsame, ?_⟩
  have hafter := hr.after (hsame.mono fun x hx hin => hx (hsub hin))
  rw [hafter.first (by rw [hfour]; decide), writeResultSize_ready hr hlen]
  exact memReadlPhys_writel (by omega) v

/-- A conversion that has written its bytes, with the result size after it. -/
theorem Buffers.converted (h : Buffers m ctx src dst res) (hout : out.length ≤ dst.len.toNat)
    (hv : v.toNat = out.length) :
    Converted m ((writeResultSize ctx (resultPtr res) v).after (m.writeBytes dst.phys.toNat out))
      ctx dst res out := by
  have hwrite := PhysMem.sameOn_writeBytes m dst.phys.toNat out
  have hbytes : (m.writeBytes dst.phys.toNat out).readBytes dst.phys.toNat out.length = out :=
    PhysMem.readBytes_writeBytes
  have hquiet : SameOn {x | x ∉ written dst res} m (m.writeBytes dst.phys.toNat out) := by
    apply hwrite.mono
    intro x hx
    have hx' : ¬ (dst.phys.toNat ≤ x ∧ x < dst.phys.toNat + dst.len.toNat) :=
      fun hin => hx (.inl hin)
    show x < dst.phys.toNat ∨ dst.phys.toNat + out.length ≤ x
    omega
  cases res with
  | none =>
    show Converted m (m.writeBytes dst.phys.toNat out) ctx dst none out
    refine ⟨?_, fun r hr => absurd hr (Option.not_mem_none r), ?_⟩
    · rw [(h.dstReady.after hquiet).guestBytes_eq h.ram hout, hbytes]
    · apply hwrite.mono
      intro x hx
      have hx' := hx.1
      show x < dst.phys.toNat ∨ dst.phys.toNat + out.length ≤ x
      omega
  | some r =>
    obtain ⟨hlen, hready⟩ := h.resReady r rfl
    have hsub : r.range ⊆ written dst (some r) := fun x hx => .inr ⟨r, rfl, hx⟩
    obtain ⟨hsame, hsize⟩ := writeResultSize_spec (m := m.writeBytes dst.phys.toNat out) (v := v)
      h.ram (hready.after hquiet) hlen hsub
    have hdst := (h.dstReady.after hquiet).after (hsame.mono fun x hx hin => hx (hsub hin))
    refine ⟨?_, ?_, ?_⟩
    · show guestBytes ((writeResultSize ctx r.va v).after _) ctx dst.va out.length = out
      rw [hdst.guestBytes_eq (by rw [hsame.size]; exact h.ram) hout]
      refine (hsame.readBytes fun i hi hin => ?_).trans hbytes
      exact h.resApart r rfl _ hin ⟨Nat.le_add_right _ _, by omega⟩
    · rintro r' hr'
      obtain rfl := Option.some.inj hr'
      exact (congrArg UInt32.toNat hsize).trans hv
    · apply (hwrite.mono _).trans (hsame.mono _)
      · intro x hx
        have hx' := hx.1
        show x < dst.phys.toNat ∨ dst.phys.toNat + out.length ≤ x
        omega
      · exact fun x hx => hx.2 r rfl

end Results

section Laws

variable {m : PhysMem} {ctx : PagingContext} {src dst : Area} {res : Option Area}

theorem length_flatMap_widen (bs : List UInt8) : (bs.flatMap widen).length = bs.length * 2 := by
  rw [List.length_flatMap]
  exact (congrArg List.sum List.map_const').trans List.sum_replicate_nat

theorem flatMap_singleton_eq_map {α β : Type} (f : α → β) (xs : List α) :
    (xs.flatMap fun x => [f x]) = xs.map f := by
  induction xs with
  | nil => rfl
  | cons x xs ih => rw [List.flatMap_cons, ih, List.singleton_append, List.map_cons]

/-- Conversions to Unicode convert the longest prefix that fits. -/
theorem toUnicode_converted (h : Buffers m ctx src dst res) {conv : PhysM UInt32}
    (hspec : conv.after m = m.writeBytes dst.phys.toNat
        (((m.readBytes src.phys.toNat src.len.toNat).take (dst.len.toNat / 2)).flatMap widen) ∧
      (conv.value m).toNat =
        ((m.readBytes src.phys.toNat src.len.toNat).take (dst.len.toNat / 2)).length) :
    ∃ p, LongestPrefix 2 dst.len.toNat (guestBytes m ctx src.va src.len.toNat) p ∧
      Converted m ((writeResultSize ctx (resultPtr res) (conv.value m * 2)).after (conv.after m))
        ctx dst res (p.flatMap widen) := by
  refine ⟨_, longestPrefix_take Nat.two_pos _ _, ?_⟩
  rw [h.srcReady.guestBytes_eq h.ram le_rfl, hspec.1]
  have hfits := (longestPrefix_take Nat.two_pos dst.len.toNat
    (m.readBytes src.phys.toNat src.len.toNat)).fits
  have hlen := dst.len.toNat_lt
  apply h.converted
  · rw [length_flatMap_widen, Nat.mul_comm]
    exact hfits
  · rw [UInt32.toNat_mul, hspec.2, length_flatMap_widen, show (2 : UInt32).toNat = 2 from rfl]
    omega

/-- So do the conversions to bytes. -/
theorem fromUnicode_converted (h : Buffers m ctx src dst res) {f : UInt16 → UInt8}
    {conv : PhysM UInt32}
    (hspec : conv.after m = m.writeBytes dst.phys.toNat
        (((m.readUnits src.phys.toNat (src.len.toNat / 2)).take dst.len.toNat).flatMap
          fun wch => [f wch]) ∧
      (conv.value m).toNat =
        ((m.readUnits src.phys.toNat (src.len.toNat / 2)).take dst.len.toNat).length) :
    ∃ p, LongestPrefix 1 dst.len.toNat (guestUnits m ctx src.va (src.len.toNat / 2)) p ∧
      Converted m ((writeResultSize ctx (resultPtr res) (conv.value m)).after (conv.after m))
        ctx dst res (p.map f) := by
  refine ⟨_, longestPrefix_take Nat.one_pos _ _, ?_⟩
  rw [h.srcReady.guestUnits_eq h.ram (Nat.mul_div_le _ 2), hspec.1, Nat.div_one,
    flatMap_singleton_eq_map]
  apply h.converted
  · rw [List.length_map, List.length_take]
    exact min_le_left _ _
  · rw [List.length_map]
    exact hspec.2

variable {wide back : Area} {res' : Option Area} {m' : PhysMem}

theorem ThereAndBack.first (h : ThereAndBack m ctx src wide back res res') :
    Buffers m ctx src wide res where
  ram := h.ram
  srcReady := h.srcReady.mono Set.subset_union_left
  dstReady := h.wideReady.mono Set.subset_union_left
  resReady r hr := ⟨(h.resReady r hr).1, (h.resReady r hr).2.mono Set.subset_union_left⟩
  apart := h.apart
  resApart := h.resApart

/-- The part of the second buffer that the first conversion fills. -/
def filled (src wide : Area) : Area := { wide with len := src.len * 2 }

theorem ThereAndBack.filled_len (h : ThereAndBack m ctx src wide back res res') :
    (filled src wide).len.toNat = src.len.toNat * 2 := by
  have hlen := wide.len.toNat_lt
  have hroom := h.wideRoom
  show (src.len * 2).toNat = _
  rw [UInt32.toNat_mul, show (2 : UInt32).toNat = 2 from rfl]
  omega

/-- The second conversion finds its buffers after the first one. -/
theorem ThereAndBack.second (h : ThereAndBack m ctx src wide back res res')
    (hsame : SameOn {x | x ∉ written wide res} m m') :
    Buffers m' ctx (filled src wide) back res' := by
  have hfilled := h.filled_len
  have hroom := h.wideRoom
  have hquiet : SameOn {x | x ∉ written wide res ∪ written back res'} m m' :=
    hsame.mono fun x hx hin => hx (.inl hin)
  have hwide := (h.wideReady.after hquiet).mono
    (Set.subset_union_right : written back res' ⊆ written wide res ∪ written back res')
  refine ⟨by rw [hsame.size]; exact h.ram, ⟨hwide.null, hwide.mapped, ?_, ?_⟩,
    (h.backReady.after hquiet).mono Set.subset_union_right, ?_, ?_, h.resApart'⟩
  · have hinside := hwide.inside
    show wide.phys.toNat + (filled src wide).len.toNat ≤ m'.ramSize
    omega
  · intro m'' hsame' i hi
    exact hwide.translated m'' hsame' i (by omega)
  · exact fun r hr => ⟨(h.resReady' r hr).1,
      ((h.resReady' r hr).2.after hquiet).mono Set.subset_union_right⟩
  · rintro x ⟨hlow, hhigh⟩
    have hlow' : wide.phys.toNat ≤ x := hlow
    have hhigh' : x < wide.phys.toNat + (filled src wide).len.toNat := hhigh
    exact h.apart' x ⟨hlow', by omega⟩

theorem getElem?_flatMap_widen (bs : List UInt8) (i : Nat) :
    (bs.flatMap widen)[2 * i]? = bs[i]? ∧
      (bs.flatMap widen)[2 * i + 1]? = bs[i]?.map fun _ => 0 := by
  induction bs generalizing i with
  | nil => exact ⟨rfl, rfl⟩
  | cons b bs ih =>
    cases i with
    | zero => exact ⟨rfl, rfl⟩
    | succ i => exact ih i

/-- Bytes that are spread over characters. -/
theorem guestUnits_of_widen {va : UInt32} {bs : List UInt8}
    (h : guestBytes m ctx va (bs.flatMap widen).length = bs.flatMap widen) :
    guestUnits m ctx va bs.length = bs.map UInt8.toUInt16 := by
  have hbyte : ∀ x < (bs.flatMap widen).length,
      some (guestByte m ctx (va + UInt32.ofNat x)) = (bs.flatMap widen)[x]? := by
    intro x hx
    rw [← h]
    unfold guestBytes
    rw [List.getElem?_map, List.getElem?_range hx]
    rfl
  have hlen := length_flatMap_widen bs
  apply List.ext_getElem
  · unfold guestUnits
    rw [List.length_map, List.length_map, List.length_range]
  · intro i hi hi'
    rw [List.length_map] at hi'
    obtain ⟨hlow, hhigh⟩ := getElem?_flatMap_widen bs i
    rw [← hbyte _ (by omega), List.getElem?_eq_getElem hi'] at hlow
    rw [← hbyte _ (by omega), List.getElem?_eq_getElem hi'] at hhigh
    have hzero : (0 : UInt8).toUInt16 <<< 8 = 0 := rfl
    have hunit : (guestUnits m ctx va bs.length)[i] =
        guestHalf m ctx (va + UInt32.ofNat (2 * i)) := by
      simp only [guestUnits, List.getElem_map, List.getElem_range]
    rw [hunit, guestHalf_add, List.getElem_map, Option.some.inj hlow, Option.some.inj hhigh, hzero,
      UInt16.or_zero]

/-- A string that fits is converted as a whole. -/
theorem LongestPrefix.eq_of_fits {α : Type} {w cap : Nat} {xs p : List α}
    (h : LongestPrefix w cap xs p) (hfits : w * xs.length ≤ cap) : p = xs :=
  h.isPrefix.eq_of_length_le (h.longest xs List.prefix_rfl hfits)

/-- A string that is converted to Unicode and back. -/
theorem ThereAndBack.back_eq (h : ThereAndBack m ctx src wide back res res')
    {m₁ m₂ : PhysMem} {p : List UInt8} {us : List UInt16} {f : UInt16 → UInt8}
    (hp : LongestPrefix 2 wide.len.toNat (guestBytes m ctx src.va src.len.toNat) p)
    (hfirst : Converted m m₁ ctx wide res (p.flatMap widen))
    (hus : LongestPrefix 1 back.len.toNat
      (guestUnits m₁ ctx wide.va ((filled src wide).len.toNat / 2)) us)
    (hsecond : Converted m₁ m₂ ctx back res' (us.map f)) :
    guestBytes m₂ ctx back.va src.len.toNat =
      (guestBytes m ctx src.va src.len.toNat).map fun b => f b.toUInt16 := by
  have hlen : (guestBytes m ctx src.va src.len.toNat).length = src.len.toNat := by
    unfold guestBytes
    rw [List.length_map, List.length_range]
  have hwide := h.wideRoom
  have hback := h.backRoom
  obtain rfl := hp.eq_of_fits (by rw [hlen]; omega)
  have hunits := guestUnits_of_widen hfirst.bytes
  rw [hlen] at hunits
  rw [h.filled_len, Nat.mul_div_cancel _ Nat.two_pos, hunits] at hus
  obtain rfl := hus.eq_of_fits (by rw [List.length_map, hlen]; omega)
  have hbytes := hsecond.bytes
  rw [List.length_map, List.length_map, hlen, List.map_map] at hbytes
  exact hbytes

theorem narrow_byte (b : UInt8) : narrow b.toUInt16 = b := by
  have hlt : b.toUInt16 < 256 := by
    rw [UInt16.lt_iff_toNat_lt, UInt8.toNat_toUInt16]
    exact b.toNat_lt
  unfold narrow
  rw [if_pos hlt, UInt8.toUInt8_toUInt16]

theorem narrowOem_byte (b : UInt8) : narrowOem b.toUInt16 = oemByte b := by
  have hiff : b.toUInt16 ≤ 0x7F ↔ b ≤ 0x7F := by
    rw [UInt16.le_iff_toNat_le, UInt8.le_iff_toNat_le, UInt8.toNat_toUInt16]
    rfl
  unfold narrowOem oemByte
  simp only [hiff, UInt8.toUInt8_toUInt16]

theorem Buffers.convertsPrefixes (h : Buffers m ctx src dst res) :
    ConvertsPrefixes m ctx src dst res := by
  refine ⟨?mbToUnicode, ?oemToUnicode, ?unicodeToMb, ?unicodeToOem⟩
  case mbToUnicode =>
    unfold rtlMultiByteToUnicodeN
    simp only [Logged.after_bind]
    exact toUnicode_converted h (mbToUnicode_spec h)
  case oemToUnicode =>
    unfold rtlOemToUnicodeN
    simp only [Logged.after_bind]
    exact toUnicode_converted h (oemToUnicode_spec h)
  case unicodeToMb =>
    unfold rtlUnicodeToMultiByteN
    simp only [Logged.after_bind]
    exact fromUnicode_converted h (unicodeToMb_spec h)
  case unicodeToOem =>
    unfold rtlUnicodeToOemN
    simp only [Logged.after_bind]
    exact fromUnicode_converted h (unicodeToOem_spec h)

/-- A conversion changes its buffers only. -/
theorem Converted.quiet {out : List UInt8} (h : Converted m m' ctx dst res out)
    (hout : out.length ≤ dst.len.toNat) : SameOn {x | x ∉ written dst res} m m' := by
  apply h.rest.mono
  intro x hx
  have hdst : ¬ (dst.phys.toNat ≤ x ∧ x < dst.phys.toNat + dst.len.toNat) :=
    fun hin => hx (.inl hin)
  exact ⟨fun hin => hdst ⟨hin.1, by omega⟩, fun r hr hin => hx (.inr ⟨r, hr, hin⟩)⟩

theorem ThereAndBack.comesBack (h : ThereAndBack m ctx src wide back res res') :
    ComesBack m ctx src wide back res res' := by
  have hfirst := h.first.convertsPrefixes
  refine ⟨?mb, ?oem⟩
  case mb =>
    obtain ⟨p, hp, hthere⟩ := hfirst.mbToUnicode
    have hquiet := hthere.quiet (by rw [length_flatMap_widen, Nat.mul_comm]; exact hp.fits)
    obtain ⟨us, hus, hback⟩ := (h.second hquiet).convertsPrefixes.unicodeToMb
    refine (h.back_eq hp hthere hus hback).trans ?_
    exact (List.map_congr_left fun b _ => narrow_byte b).trans (List.map_id' _)
  case oem =>
    obtain ⟨p, hp, hthere⟩ := hfirst.oemToUnicode
    have hquiet := hthere.quiet (by rw [length_flatMap_widen, Nat.mul_comm]; exact hp.fits)
    obtain ⟨us, hus, hback⟩ := (h.second hquiet).convertsPrefixes.unicodeToOem
    refine (h.back_eq hp hthere hus hback).trans ?_
    exact List.map_congr_left fun b _ => narrowOem_byte b

theorem sizesAgree {r : Area} (hram : m.ramSize ≤ 2 ^ 32) (hr : r.Ready m ctx r.range)
    (hlen : r.len = 4) (str n : UInt32) : SizesAgree m ctx r str n where
  unicodeSize hn bs p cap hbs hcap hp := by
    obtain rfl := hp.eq_of_fits hcap
    obtain ⟨-, hsize⟩ := writeResultSize_spec (v := n * 2) hram hr hlen Set.Subset.rfl
    refine (congrArg UInt32.toNat hsize).trans ?_
    rw [length_flatMap_widen, hbs, UInt32.toNat_mul, show (2 : UInt32).toNat = 2 from rfl]
    omega
  mbSize us p cap hus hcap hp := by
    obtain rfl := hp.eq_of_fits (by rw [Nat.one_mul]; exact hcap)
    obtain ⟨-, hsize⟩ := writeResultSize_spec (v := n / 2) hram hr hlen Set.Subset.rfl
    refine (congrArg UInt32.toNat hsize).trans ?_
    rw [List.length_map, hus, UInt32.toNat_div]
    rfl

end Laws

/-- The conversions write the longest prefix that fits and report its size; a string comes back
through the bytes of the ANSI code page as it was, and through OEM with `?` for what is not ASCII;
and the sizes of strings of less than 2 GiB are those of what is written. -/
theorem stringConversions_laws :
    (∀ m ctx src dst res, Buffers m ctx src dst res → ConvertsPrefixes m ctx src dst res) ∧
      (∀ m ctx src wide back res res', ThereAndBack m ctx src wide back res res' →
        ComesBack m ctx src wide back res res') ∧
      ∀ (m : PhysMem) ctx (r : Area), m.ramSize ≤ 2 ^ 32 → r.Ready m ctx r.range → r.len = 4 →
        ∀ str n, SizesAgree m ctx r str n :=
  ⟨fun _ _ _ _ _ h => h.convertsPrefixes, fun _ _ _ _ _ _ _ h => h.comesBack,
    fun _ _ _ hram hr hlen => sizesAgree hram hr hlen⟩

section Example

/-- A string of one byte on page 0. -/
def byteString : PhysMem := threePages.writeBytes 0x5010 [0x80]

theorem byteString_thereAndBack : ThereAndBack byteString ⟨0x1000⟩ ⟨0x10, 0x5010, 1⟩
    ⟨0x1000, 0x9000, 2⟩ ⟨0x2000, 0xA000, 1⟩ (some ⟨0x20, 0x5020, 4⟩) none := by
  have hlow : ∀ x ∈ written ⟨0x1000, 0x9000, 2⟩ (some ⟨0x20, 0x5020, 4⟩) ∪
      written ⟨0x2000, 0xA000, 1⟩ none, 0x5000 ≤ x := by
    rintro x ((⟨hx, -⟩ | ⟨r, hr, hx⟩) | (⟨hx, -⟩ | ⟨r, hr, -⟩))
    · exact (by decide : 0x5000 ≤ (0x9000 : UInt32).toNat).trans hx
    · obtain rfl := Option.some.inj hr
      exact (by decide : 0x5000 ≤ (0x5020 : UInt32).toNat).trans hx.1
    · exact (by decide : 0x5000 ≤ (0xA000 : UInt32).toNat).trans hx
    · exact absurd hr (Option.not_mem_none r)
  have hres : ∀ r ∈ some (⟨0x20, 0x5020, 4⟩ : Area), r = ⟨0x20, 0x5020, 4⟩ :=
    fun r hr => (Option.some.inj hr).symm
  have hnone : ∀ r : Area, r ∉ (none : Option Area) := fun r hr => absurd hr (Option.not_mem_none r)
  refine ⟨by decide, ?srcReady, ?wideReady, ?backReady, ?resReady, fun r hr => absurd hr (hnone r),
    by decide, by decide, ?apart, ?apart', ?resApart, fun r hr => absurd hr (hnone r)⟩
  case srcReady => apply Area.ready_of_tables_below hlow <;> decide
  case wideReady => apply Area.ready_of_tables_below hlow <;> decide
  case backReady => apply Area.ready_of_tables_below hlow <;> decide
  case resReady =>
    intro r hr
    rw [hres r hr]
    refine ⟨rfl, ?_⟩
    apply Area.ready_of_tables_below hlow <;> decide
  case apart =>
    rintro x ⟨hx, hx'⟩ ⟨hin, hin'⟩
    have hlow : 0x9000 ≤ x := hin
    have hhigh : x < 0x5011 := hx'
    omega
  case apart' =>
    rintro x ⟨hx, hx'⟩ ⟨hin, hin'⟩
    have hlow : 0xA000 ≤ x := hin
    have hhigh : x < 0x9002 := hx'
    omega
  case resApart =>
    intro r hr
    rw [hres r hr]
    rintro x ⟨hx, hx'⟩ ⟨hin, hin'⟩
    have hlow : 0x9000 ≤ x := hin
    have hhigh : x < 0x5024 := hx'
    omega

theorem byteString_size_ready : Area.Ready byteString ⟨0x1000⟩
    (Area.range ⟨0x20, 0x5020, 4⟩) ⟨0x20, 0x5020, 4⟩ := by
  have hlow : ∀ x ∈ Area.range ⟨0x20, 0x5020, 4⟩, 0x5000 ≤ x :=
    fun x hx => (by decide : 0x5000 ≤ (0x5020 : UInt32).toNat).trans hx.1
  apply Area.ready_of_tables_below hlow <;> decide

/-- The byte 0x80 is converted, comes back from the ANSI code page as it was and from the OEM code
page as `?`, and needs two bytes. -/
theorem stringConversions_laws_byteString :
    ConvertsPrefixes byteString ⟨0x1000⟩ ⟨0x10, 0x5010, 1⟩ ⟨0x1000, 0x9000, 2⟩
        (some ⟨0x20, 0x5020, 4⟩) ∧
      ComesBack byteString ⟨0x1000⟩ ⟨0x10, 0x5010, 1⟩ ⟨0x1000, 0x9000, 2⟩ ⟨0x2000, 0xA000, 1⟩
        (some ⟨0x20, 0x5020, 4⟩) none ∧
      SizesAgree byteString ⟨0x1000⟩ ⟨0x20, 0x5020, 4⟩ 0x10 1 :=
  ⟨stringConversions_laws.1 _ _ _ _ _ byteString_thereAndBack.first,
    stringConversions_laws.2.1 _ _ _ _ _ _ _ byteString_thereAndBack,
    stringConversions_laws.2.2 _ _ _ (by decide) byteString_size_ready rfl _ _⟩

/-- The OEM conversions do not give the byte 0x80 back, and the size of a string of 2 GiB wraps. -/
theorem oem_not_comesBack :
    (¬ ∀ m ctx src wide back res res', ThereAndBack m ctx src wide back res res' →
      guestBytes
        ((rtlUnicodeToOemN ctx back.va back.len (resultPtr res') wide.va (src.len * 2)).after
          ((rtlOemToUnicodeN ctx wide.va wide.len (resultPtr res) src.va src.len).after m))
        ctx back.va src.len.toNat = guestBytes m ctx src.va src.len.toNat) ∧
      ¬ ∀ (m : PhysMem) ctx (r : Area), m.ramSize ≤ 2 ^ 32 → r.Ready m ctx r.range → r.len = 4 →
        ∀ (str n : UInt32) (bs : List UInt8), bs.length = n.toNat →
          (memReadlPhys ((rtlMultiByteToUnicodeSize ctx r.va str n).after m)
            (pagingGetPhys ((rtlMultiByteToUnicodeSize ctx r.va str n).after m) ctx r.va)).toNat =
              (bs.flatMap widen).length := by
  constructor
  · intro hall
    have hsame := hall _ _ _ _ _ _ _ byteString_thereAndBack
    have hoem := byteString_thereAndBack.comesBack.oem
    rw [hsame] at hoem
    revert hoem
    decide
  · intro hall
    have hready := byteString_size_ready
    have hbytes : (List.replicate (2 ^ 31) (0 : UInt8)).length = (0x80000000 : UInt32).toNat :=
      List.length_replicate
    have hwrap := hall byteString ⟨0x1000⟩ ⟨0x20, 0x5020, 4⟩ (by decide) hready rfl 0 0x80000000 _
      hbytes
    obtain ⟨-, hsize⟩ := writeResultSize_spec (v := 0x80000000 * 2) (by decide) hready rfl
      Set.Subset.rfl
    have hzero := hwrap.symm.trans (congrArg UInt32.toNat hsize)
    rw [length_flatMap_widen, hbytes] at hzero
    revert hzero
    decide

end Example

end Wbox.Nt
