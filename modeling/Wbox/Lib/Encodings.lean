import Mathlib.Data.List.Basic

/-!
# Encodings of characters

UTF-16 as a list of units, UTF-8 as a list of bytes. A code point from 0x10000 on is a pair of
units in the one and four bytes in the other.
-/

namespace Wbox.Lib

/-- The UTF-16 units of a code point. -/
def utf16Char (c : Char) : List UInt16 :=
  if c.val < 0x10000 then [c.val.toUInt16]
  else [(0xD800 : UInt16) ||| ((c.val - 0x10000) >>> 10).toUInt16,
    (0xDC00 : UInt16) ||| ((c.val - 0x10000) &&& 0x3FF).toUInt16]

/-- The units of a text. A list of units is well-formed UTF-16 if it is one of these. -/
def utf16 (cs : List Char) : List UInt16 := cs.flatMap utf16Char

/-- The bytes of a text in UTF-8. -/
def encodeUtf8 (cs : List Char) : List UInt8 := cs.flatMap String.utf8EncodeChar

/-- The text of some bytes, if they are valid UTF-8. -/
def decodeUtf8 (bytes : List UInt8) : Option (List Char) :=
  bytes.toByteArray.utf8Decode?.map Array.toList

variable {c : Char} {cs ds : List Char} {bytes : List UInt8}

/-- What is encoded is decoded again. -/
theorem decodeUtf8_encodeUtf8 (cs : List Char) : decodeUtf8 (encodeUtf8 cs) = some cs := by
  have hbytes : (encodeUtf8 cs).toByteArray = cs.utf8Encode := rfl
  rw [decodeUtf8, hbytes, List.utf8Decode?_utf8Encode]
  rfl

/-- Two texts with the same bytes are the same. -/
theorem encodeUtf8_inj (h : encodeUtf8 cs = encodeUtf8 ds) : cs = ds := by
  have hdec := decodeUtf8_encodeUtf8 cs
  rw [h, decodeUtf8_encodeUtf8] at hdec
  exact (Option.some.inj hdec).symm

/-- Bytes are decoded to a text exactly if they are its encoding. -/
theorem decodeUtf8_eq_some : decodeUtf8 bytes = some cs ↔ bytes = encodeUtf8 cs := by
  constructor
  · intro h
    obtain ⟨chars, hdec, rfl⟩ := Option.map_eq_some_iff.mp h
    have hsome : bytes.toByteArray.utf8Decode?.isSome := by rw [hdec]; rfl
    have hget : bytes.toByteArray.utf8Decode?.get hsome = chars := by simp [hdec]
    have henc := ByteArray.utf8Encode_get_utf8Decode? (b := bytes.toByteArray) (h := hsome)
    rw [hget] at henc
    have hlist := congrArg (fun b : ByteArray => b.data.toList) henc
    simpa [List.utf8Encode, encodeUtf8] using hlist.symm
  · rintro rfl
    exact decodeUtf8_encodeUtf8 cs

/-- A code point from 0x10000 on begins with a byte that no other one has. -/
theorem exists_byte_of_astral (h : 0x10000 ≤ c.val) :
    ∃ b ∈ String.utf8EncodeChar c, 0xF0 ≤ b := by
  have hv : 0x10000 ≤ c.val.toNat := UInt32.le_iff_toNat_le.mp h
  have hmax : c.val.toNat < 0x110000 := by
    rcases c.valid with hlow | ⟨-, hhigh⟩
    · exact Nat.lt_trans hlow (by decide)
    · exact hhigh
  unfold String.utf8EncodeChar
  dsimp only
  rw [if_neg (by omega), if_neg (by omega), if_neg (by omega)]
  refine ⟨_, List.mem_cons_self, ?_⟩
  apply UInt8.le_iff_toNat_le.mpr
  simp only [UInt8.toNat_ofNat', UInt8.reduceToNat]
  omega

/-- Without code points from 0x10000 on, the units are the code points. -/
theorem utf16_bmp (h : ∀ c ∈ cs, c.val < 0x10000) : utf16 cs = cs.map fun c => c.val.toUInt16 := by
  induction cs with
  | nil => rfl
  | cons c cs ih =>
    have hrest := ih fun d hd => h d (List.mem_cons_of_mem c hd)
    unfold utf16 at hrest ⊢
    rw [List.flatMap_cons, hrest, utf16Char, if_pos (h c List.mem_cons_self)]
    rfl

end Wbox.Lib
