import Mathlib.Algebra.Ring.Int.Defs
import Mathlib.Algebra.Ring.Nat
import Wbox.Lib.Encodings
import Wbox.Nt.VfsResolution
import Wbox.Nt.VfsTruncation

/-!
# The encoding of translated paths

The conversion of `src/nt/vfs_jail.c:319–335` takes one UTF-16 unit at a time. A unit that is a
code point of its own becomes the UTF-8 of it; the two units of a surrogate pair become three
bytes each, which are not UTF-8.
-/

namespace Wbox.Nt

open Wbox.Lib Wbox.Host

/-- A separator of Windows paths, as a character. -/
def isSepChar (c : Char) : Bool := c == '\\' || c == '/'

/-- The components of a path with a slash between any two. -/
def slashPath (chars : List Char) : List Char := joinText '/' (components isSepChar chars)

/-- The text behind the drive's path is UTF-8 for the path. -/
def WritesUtf8 (vfs : VfsJail) (winPath : List UInt16) (drive : VfsDrive) (chars : List Char) :
    Prop :=
  ∃ text, vfsTranslatePathEx vfs winPath = .ok (drive.hostPath ++ slash :: text) ∧
    decodeUtf8 text = some (slashPath chars)

variable {units : List UInt16} {wc : UInt16} {chars : List Char} {c : Char} {k k' : Kept}
  {n : Name} {cs : List Name} {p : UInt8 → Prop}

section Bytes

private theorem or_low {high low : UInt8} {i a : Nat} (hhigh : high.toNat = 2 ^ i * a)
    (hlow : low.toNat < 2 ^ i) : (high ||| low).toNat = high.toNat + low.toNat := by
  rw [UInt8.toNat_or, hhigh, Nat.two_pow_add_eq_or_of_lt hlow]

private theorem low_bits (wc : UInt16) : (wc &&& 0x3F).toUInt8.toNat = wc.toNat % 64 := by
  have hmask : wc.toNat &&& 0x3F = wc.toNat % 64 := Nat.and_two_pow_sub_one_eq_mod wc.toNat 6
  rw [UInt16.toNat_toUInt8, UInt16.toNat_and]
  simp only [UInt16.reduceToNat, hmask]
  omega

private theorem middle_bits (wc : UInt16) :
    ((wc >>> 6) &&& 0x3F).toUInt8.toNat = wc.toNat / 64 % 64 := by
  rw [low_bits, UInt16.toNat_shiftRight]
  simp only [UInt16.reduceToNat, Nat.reduceMod, Nat.shiftRight_eq_div_pow, Nat.reducePow]

private theorem high_bits (wc : UInt16) (i : UInt16) (hi : i.toNat < 16) :
    (wc >>> i).toUInt8.toNat = wc.toNat / 2 ^ i.toNat % 256 := by
  rw [UInt16.toNat_toUInt8, UInt16.toNat_shiftRight, Nat.mod_eq_of_lt hi,
    Nat.shiftRight_eq_div_pow]

/-- A continuation byte. -/
private theorem cont_byte {low : UInt8} (hlow : low.toNat < 64) :
    ((0x80 : UInt8) ||| low).toNat = 0x80 + low.toNat :=
  or_low (i := 6) (a := 2) rfl hlow

/-- The bytes of a unit that is a code point of its own. -/
theorem utf8_bmp (h : c.val < 0x10000) : utf8 c.val.toUInt16 = String.utf8EncodeChar c := by
  have hv : c.val.toNat < 0x10000 := UInt32.lt_iff_toNat_lt.mp h
  have hunit : c.val.toUInt16.toNat = c.val.toNat := by
    rw [UInt32.toNat_toUInt16]
    omega
  have hone : c.val.toUInt16 ≤ 0x7F ↔ c.val.toNat ≤ 0x7F := by
    rw [UInt16.le_iff_toNat_le, hunit]
    rfl
  have htwo : c.val.toUInt16 ≤ 0x7FF ↔ c.val.toNat ≤ 0x7FF := by
    rw [UInt16.le_iff_toNat_le, hunit]
    rfl
  have hthree : c.val.toNat ≤ 0xFFFF := by omega
  have hlow := low_bits c.val.toUInt16
  have hmiddle := middle_bits c.val.toUInt16
  rw [hunit] at hlow hmiddle
  have hlast : (0x80 : UInt8) ||| (c.val.toUInt16 &&& 0x3F).toUInt8 =
      UInt8.ofNat (c.val.toNat % 0x40 + 0x80) := by
    apply UInt8.toNat_inj.mp
    rw [cont_byte (by omega), hlow, UInt8.toNat_ofNat']
    omega
  unfold utf8 String.utf8EncodeChar
  simp only [hone, htwo, hthree, if_true]
  split
  · have hbyte : c.val.toUInt16.toUInt8 = UInt8.ofNat c.val.toNat := by
      apply UInt8.toNat_inj.mp
      rw [UInt16.toNat_toUInt8, hunit, UInt8.toNat_ofNat']
    rw [hbyte]
  · split
    · have hhigh := high_bits c.val.toUInt16 6 (by decide)
      rw [hunit] at hhigh
      simp only [UInt16.reduceToNat, Nat.reducePow] at hhigh
      have hfirst : (0xC0 : UInt8) ||| (c.val.toUInt16 >>> 6).toUInt8 =
          UInt8.ofNat (c.val.toNat / 64 % 0x20 + 0xC0) := by
        apply UInt8.toNat_inj.mp
        rw [or_low (i := 6) (a := 3) rfl (by omega), hhigh, UInt8.toNat_ofNat']
        simp only [UInt8.reduceToNat]
        omega
      rw [hfirst, hlast]
    · have hhigh := high_bits c.val.toUInt16 12 (by decide)
      rw [hunit] at hhigh
      simp only [UInt16.reduceToNat, Nat.reducePow] at hhigh
      have hfirst : (0xE0 : UInt8) ||| (c.val.toUInt16 >>> 12).toUInt8 =
          UInt8.ofNat (c.val.toNat / 4096 % 0x10 + 0xE0) := by
        apply UInt8.toNat_inj.mp
        rw [or_low (i := 5) (a := 7) rfl (by omega), hhigh, UInt8.toNat_ofNat']
        simp only [UInt8.reduceToNat]
        omega
      have hsecond : (0x80 : UInt8) ||| ((c.val.toUInt16 >>> 6) &&& 0x3F).toUInt8 =
          UInt8.ofNat (c.val.toNat / 64 % 0x40 + 0x80) := by
        apply UInt8.toNat_inj.mp
        rw [cont_byte (by omega), hmiddle, UInt8.toNat_ofNat']
        omega
      rw [hfirst, hsecond, hlast]

/-- No byte of a unit begins a code point of four bytes. -/
theorem utf8_lt (wc : UInt16) : ∀ b ∈ utf8 wc, b < 0xF0 := by
  have hwc := wc.toNat_lt
  have hlow := low_bits wc
  have hmiddle := middle_bits wc
  have hhigh := high_bits wc 6 (by decide)
  have htop := high_bits wc 12 (by decide)
  simp only [UInt16.reduceToNat, Nat.reducePow] at hhigh htop
  intro b hb
  apply UInt8.lt_iff_toNat_lt.mpr
  simp only [UInt8.reduceToNat]
  unfold utf8 at hb
  split at hb
  · next hle =>
    have hnat := UInt16.le_iff_toNat_le.mp hle
    simp only [UInt16.reduceToNat] at hnat
    rw [List.mem_singleton.mp hb, UInt16.toNat_toUInt8]
    omega
  · split at hb
    · next hle =>
      have hnat := UInt16.le_iff_toNat_le.mp hle
      simp only [UInt16.reduceToNat] at hnat
      rcases List.mem_cons.mp hb with rfl | hb
      · rw [or_low (i := 6) (a := 3) rfl (by omega)]
        simp only [UInt8.reduceToNat]
        omega
      · rw [List.mem_singleton.mp hb, cont_byte (by omega)]
        omega
    · rcases List.mem_cons.mp hb with rfl | hb
      · rw [or_low (i := 5) (a := 7) rfl (by omega)]
        simp only [UInt8.reduceToNat]
        omega
      · rcases List.mem_cons.mp hb with rfl | hb
        · rw [cont_byte (by omega)]
          omega
        · rw [List.mem_singleton.mp hb, cont_byte (by omega)]
          omega

end Bytes

section Kept

/-- The bytes kept are slashes and bytes of the components. -/
theorem Kept.Ok.bytes_add (hok : k.Ok) (hk : ∀ b ∈ k.text, p b) (hslash : p slash)
    (hn : ∀ b ∈ n, p b) (h : k.add n = some k') : ∀ b ∈ k'.text, p b := by
  unfold Kept.add at h
  split at h
  · split at h
    · cases h
    · rw [← Option.some.inj h]
      intro b hb
      have htext : Kept.text { k.dropName with depth := k.depth - 1 } = removePrevious k.text :=
        hok.text_dropName
      rw [htext, removePrevious] at hb
      have hsub := List.rdropWhile_prefix (fun b => b != slash) k.text.dropLast
      exact hk b (List.dropLast_subset _ (hsub.subset hb))
  · split at h
    · rw [← Option.some.inj h, k.text_dropByte]
      exact fun b hb => hk b (List.dropLast_subset _ hb)
    · rw [← Option.some.inj h]
      intro b hb
      simp only [Kept.text, List.reverse_cons, closedText_concat, List.append_nil,
        ← List.append_assoc] at hb
      rcases List.mem_append.mp hb with hb | hb
      · rcases List.mem_append.mp hb with hb | hb
        · exact hk b hb
        · exact hn b hb
      · exact List.mem_singleton.mp hb ▸ hslash

theorem Kept.Ok.bytes (hok : k.Ok) (hk : ∀ b ∈ k.text, p b) (hslash : p slash)
    (hcomp : ∀ n ∈ cs, IsComponent isSlash n) (hcs : ∀ n ∈ cs, ∀ b ∈ n, p b)
    (h : Nt.keepFrom k cs = some k') : ∀ b ∈ k'.text, p b := by
  induction cs generalizing k with
  | nil => exact Option.some.inj h ▸ hk
  | cons n cs ih =>
    rw [Nt.keepFrom, List.foldlM_cons] at h
    obtain ⟨k₁, hadd, hrest⟩ := Option.bind_eq_some_iff.mp h
    have hn := hcs n List.mem_cons_self
    exact ih (hok.add (hcomp n List.mem_cons_self) hadd) (hok.bytes_add hk hslash hn hadd)
      (fun m hm => hcomp m (List.mem_cons_of_mem n hm))
      (fun m hm => hcs m (List.mem_cons_of_mem n hm)) hrest

/-- Ordinary components are kept as they are. -/
theorem keepFrom_plain (hdots : ∀ n ∈ cs, n ≠ dotName ∧ n ≠ dotdotName) (htail : k.tail = []) :
    ∃ k', keepFrom k cs = some k' ∧ k'.closed = cs.reverse ++ k.closed ∧ k'.tail = [] := by
  induction cs generalizing k with
  | nil => exact ⟨k, rfl, rfl, htail⟩
  | cons n cs ih =>
    obtain ⟨hd, hdd⟩ := hdots n List.mem_cons_self
    have hadd : k.add n = some ⟨n :: k.closed, [], k.depth + 1⟩ := by
      simp [Kept.add, hd, hdd, htail]
    obtain ⟨k', hkeep, hclosed, htail'⟩ :=
      @ih ⟨n :: k.closed, [], k.depth + 1⟩ (fun m hm => hdots m (List.mem_cons_of_mem n hm)) rfl
    refine ⟨k', ?_, ?_, htail'⟩
    · rw [keepFrom, List.foldlM_cons, hadd]
      exact hkeep
    · rw [hclosed, List.reverse_cons, List.append_assoc]
      rfl

end Kept

section Room

/-- The bytes of an unfinished component are among those of the whole text. -/
private theorem length_unfinished {xs : List UInt16} (hsep : ∀ wc ∈ xs, isSep wc = false)
    (hne : xs ≠ []) (ys : List UInt16) :
    (toUtf8 xs).length < (closedText slash (names (xs ++ ys))).length := by
  have hclosed : ∀ {xs : List UInt16}, (∀ wc ∈ xs, isSep wc = false) → xs ≠ [] →
      names xs = [toUtf8 xs] := by
    intro xs hsep hne
    rw [names, components_singleton ⟨hne, hsep⟩]
    rfl
  induction ys generalizing xs with
  | nil =>
    rw [List.append_nil, hclosed hsep hne]
    simp [closedText]
  | cons y ys ih =>
    by_cases hy : isSep y = true
    · have hsplit : names (xs ++ y :: ys) = names xs ++ names ys := by
        unfold names
        rw [components_append_cons hy, List.map_append]
      rw [hsplit, closedText_append, hclosed hsep hne]
      simp only [closedText, List.flatMap_cons, List.flatMap_nil, List.append_nil,
        List.length_append, List.length_singleton]
      omega
    · have hlonger := @ih (xs ++ [y]) (by
        intro wc hwc
        rcases List.mem_append.mp hwc with hwc | hwc
        · exact hsep wc hwc
        · rw [List.mem_singleton.mp hwc]
          simpa using hy) (by simp)
      rw [← List.append_cons, toUtf8_append, List.length_append] at hlonger
      omega

/-- The units of ordinary components whose text fits all find room in the buffer. -/
theorem room_of_fits (hdots : ∀ n ∈ names units, n ≠ dotName ∧ n ≠ dotdotName)
    (hfits : (closedText slash (names units)).length < vfsMaxPath - 1) {before after : List UInt16}
    (hunits : units = before ++ wc :: after) : ¬ FullBefore before wc := by
  rintro ⟨buf, hbuf, hfull⟩
  obtain ⟨k, hkeep, rfl⟩ := Option.map_eq_some_iff.mp hbuf
  have hnames : names units = names (finished before) ++ names (unfinished before ++ wc :: after) := by
    rw [hunits]
    exact names_append before (wc :: after)
  rw [hnames] at hdots hfits
  obtain ⟨k', hkeep', hclosed, htail⟩ :=
    @keepFrom_plain .start _ (fun n hn => hdots n (List.mem_append_left _ hn)) rfl
  have hk : k = k' := Option.some.inj (hkeep.symm.trans hkeep')
  have htext : k.text = closedText slash (names (finished before)) := by
    rw [Kept.text, hk, hclosed, htail, List.reverse_append, List.reverse_reverse, List.append_nil]
    rfl
  rw [closedText_append, List.length_append] at hfits
  rw [htext, List.length_append] at hfull
  have hpart : (toUtf8 (unfinished before)).length ≤
      (closedText slash (names (unfinished before ++ wc :: after))).length := by
    by_cases hnil : unfinished before = []
    · rw [hnil]
      exact Nat.zero_le _
    · exact Nat.le_of_lt (length_unfinished unfinished_noSep hnil _)
  rcases hfull with hfull | ⟨hwide, hfull⟩
  · omega
  · have hsep : isSep wc = false := isSep_of_wide hwide
    have hunit : (toUtf8 (unfinished before ++ [wc])).length <
        (closedText slash (names (unfinished before ++ [wc] ++ after))).length := by
      apply length_unfinished
      · intro w hw
        rcases List.mem_append.mp hw with hw | hw
        · exact unfinished_noSep w hw
        · exact List.mem_singleton.mp hw ▸ hsep
      · simp
    have hone : toUtf8 [wc] = utf8 wc := by simp [toUtf8]
    rw [← List.append_cons, toUtf8_append, List.length_append, hone] at hunit
    omega

end Room

section Path

variable {vfs : VfsJail} {winPath : List UInt16} {drive : VfsDrive}

private theorem unit_beq {d : Char} (hc : c.val < 0x10000) (hd : d.val < 0x10000) :
    (c.val.toUInt16 == d.val.toUInt16) = (c == d) := by
  have hcv := UInt32.lt_iff_toNat_lt.mp hc
  have hdv := UInt32.lt_iff_toNat_lt.mp hd
  simp only [UInt32.reduceToNat] at hcv hdv
  apply Bool.eq_iff_iff.mpr
  rw [beq_iff_eq, beq_iff_eq]
  constructor
  · intro h
    have hnat := congrArg UInt16.toNat h
    rw [UInt32.toNat_toUInt16, UInt32.toNat_toUInt16] at hnat
    apply Char.ext
    apply UInt32.toNat_inj.mp
    omega
  · rintro rfl
    rfl

/-- The names of a path without surrogate pairs are the UTF-8 of its components. -/
theorem names_bmp (h : ∀ c ∈ chars, c.val < 0x10000) :
    names (utf16 chars) = (components isSepChar chars).map encodeUtf8 := by
  have hsep : ∀ c ∈ chars, isSep c.val.toUInt16 = isSepChar c := by
    intro c hc
    have hback : unitBackslash = '\\'.val.toUInt16 := by decide
    have hslash : unitSlash = '/'.val.toUInt16 := by decide
    rw [isSep, isSepChar, hback, hslash, unit_beq (h c hc) (by decide),
      unit_beq (h c hc) (by decide)]
  rw [names, utf16_bmp h, components_map hsep, List.map_map]
  apply List.map_congr_left
  intro n hn
  rw [Function.comp_apply, toUtf8, encodeUtf8, List.flatMap_map]
  exact List.flatMap_congr fun c hc => utf8_bmp (h c (mem_of_mem_components hn hc))

/-- The bytes of a path are the joined bytes of its components. -/
theorem encodeUtf8_slashPath (chars : List Char) :
    encodeUtf8 (slashPath chars) =
      joinText slash ((components isSepChar chars).map encodeUtf8) :=
  joinText_flatMap String.utf8EncodeChar '/' (components isSepChar chars)

/-- The UTF-8 of an ordinary component is not "." or "..". -/
private theorem plain_names (hbmp : ∀ c ∈ chars, c.val < 0x10000)
    (hdots : ∀ n ∈ components isSepChar chars, n ≠ ['.'] ∧ n ≠ ['.', '.']) :
    ∀ n ∈ names (utf16 chars), n ≠ dotName ∧ n ≠ dotdotName := by
  have hdot : dotName = encodeUtf8 ['.'] := by decide
  have hdotdot : dotdotName = encodeUtf8 ['.', '.'] := by decide
  intro n hn
  rw [names_bmp hbmp] at hn
  obtain ⟨part, hpart, rfl⟩ := List.mem_map.mp hn
  rw [hdot, hdotdot]
  exact ⟨fun h => (hdots part hpart).1 (encodeUtf8_inj h),
    fun h => (hdots part hpart).2 (encodeUtf8_inj h)⟩

/-- A path without surrogate pairs is written in UTF-8. -/
theorem writesUtf8_of_bmp (hopen : openDrive vfs winPath = .ok (drive, units))
    (hunits : pathUnits units = utf16 chars)
    (hdots : ∀ n ∈ components isSepChar chars, n ≠ ['.'] ∧ n ≠ ['.', '.'])
    (hfits : (drive.hostPath ++ slash :: encodeUtf8 (slashPath chars)).length < vfsMaxPath)
    (hbmp : ∀ c ∈ chars, c.val < 0x10000) : WritesUtf8 vfs winPath drive chars := by
  have hplain := plain_names hbmp hdots
  have hnames := names_bmp hbmp
  have hparts : ∀ n ∈ names (utf16 chars), IsComponent isSlash n := names_component
  have hjoin : encodeUtf8 (slashPath chars) = joinText slash (names (utf16 chars)) := by
    rw [hnames, encodeUtf8_slashPath]
  have hhost := List.length_pos_iff.mpr (VfsDrive.hostPath_ne_nil (openDrive_ok hopen).1)
  have hclosed : (closedText slash (names (utf16 chars))).length < vfsMaxPath - 1 := by
    by_cases hnil : names (utf16 chars) = []
    · rw [hnil]
      decide
    · rw [closedText_eq_joinText slash hnil, ← hjoin]
      simp only [List.length_append, List.length_cons, List.length_nil] at hfits ⊢
      omega
  obtain ⟨k, hkeep, hkclosed, htail⟩ := @keepFrom_plain .start _ hplain rfl
  have htext : trimSlash k.text = encodeUtf8 (slashPath chars) := by
    rw [Kept.text, hkclosed, htail, hjoin, List.append_nil, List.reverse_append,
      List.reverse_reverse]
    exact trimSlash_closedText hparts
  have hroom : ∀ before w after, pathUnits units = before ++ w :: after →
      ¬ FullBefore before w := by
    intro before w after heq
    rw [hunits] at heq
    exact room_of_fits hplain hclosed heq
  refine ⟨encodeUtf8 (slashPath chars), ?_, decodeUtf8_encodeUtf8 _⟩
  rw [(vfsTranslatePathEx_whole hopen hroom).1, hunits, translationOf, hkeep]
  exact buildPath_ok.mpr ⟨by rw [htext]; exact hfits, by rw [htext]⟩

/-- Text that the source writes has no code point of four bytes. -/
theorem bmp_of_writesUtf8 (hopen : openDrive vfs winPath = .ok (drive, units))
    (hwrites : WritesUtf8 vfs winPath drive chars) : ∀ c ∈ chars, c.val < 0x10000 := by
  obtain ⟨text, hout, hdec⟩ := hwrites
  rw [vfsTranslatePathEx_eq hopen] at hout
  cases hkeep : keepFrom .start (names (unitsRead .start units)) with
  | none => simp [hkeep] at hout
  | some k =>
    rw [hkeep] at hout
    have htext : text = trimSlash k.text :=
      List.tail_eq_of_cons_eq (List.append_cancel_left (buildPath_ok.mp hout).2)
    have hnames : ∀ n ∈ names (unitsRead .start units), ∀ b ∈ n, b < 0xF0 := by
      intro n hn b hb
      obtain ⟨part, -, rfl⟩ := List.mem_map.mp hn
      obtain ⟨wc, -, hb⟩ := List.mem_flatMap.mp hb
      exact utf8_lt wc b hb
    have hkept : ∀ b ∈ k.text, b < 0xF0 :=
      Kept.start_ok.bytes nofun (by decide) names_component hnames hkeep
    have hlow : ∀ b ∈ text, b < 0xF0 := by
      rw [htext]
      intro b hb
      unfold trimSlash at hb
      split at hb
      · exact hkept b (List.dropLast_subset _ hb)
      · exact hkept b hb
    intro c hc
    by_contra hbig
    have hbig' : 0x10000 ≤ c.val := UInt32.not_lt.mp hbig
    have hsep : isSepChar c = false := by
      apply Bool.or_eq_false_iff.mpr
      constructor
      · apply beq_eq_false_iff_ne.mpr
        rintro rfl
        exact absurd hbig' (by decide)
      · apply beq_eq_false_iff_ne.mpr
        rintro rfl
        exact absurd hbig' (by decide)
    obtain ⟨n, hn, hcn⟩ := mem_components hc hsep
    obtain ⟨b, hb, hhigh⟩ := exists_byte_of_astral hbig'
    have hmem : b ∈ text := by
      rw [decodeUtf8_eq_some.mp hdec, encodeUtf8_slashPath]
      apply mem_joinText (List.mem_map_of_mem hn)
      exact List.mem_flatMap.mpr ⟨c, hcn, hb⟩
    exact absurd (hlow b hmem) (UInt8.not_lt.mpr hhigh)

/-- A well-formed UTF-16 path of ordinary components that fits is written in UTF-8 exactly if it
has no surrogate pair. -/
theorem vfsTranslatePathEx_utf8_iff (hopen : openDrive vfs winPath = .ok (drive, units))
    (hunits : pathUnits units = utf16 chars)
    (hdots : ∀ n ∈ components isSepChar chars, n ≠ ['.'] ∧ n ≠ ['.', '.'])
    (hfits : (drive.hostPath ++ slash :: encodeUtf8 (slashPath chars)).length < vfsMaxPath) :
    WritesUtf8 vfs winPath drive chars ↔ ∀ c ∈ chars, c.val < 0x10000 :=
  ⟨bmp_of_writesUtf8 hopen, writesUtf8_of_bmp hopen hunits hdots hfits⟩

/-- The path `é\ü`. -/
def accentsPath : List UInt16 := [0xE9, 0x5C, 0xFC]

theorem vfsTranslatePathEx_utf8_accents :
    WritesUtf8 jailC accentsPath (jailC.drives 2) ['é', '\\', 'ü'] := by
  have hopen : openDrive jailC accentsPath = .ok (jailC.drives 2, accentsPath) := by rfl
  have hbmp : ['é', '\\', 'ü'].all (·.val < 0x10000) := by decide
  refine (vfsTranslatePathEx_utf8_iff hopen (by decide) (by decide +kernel) (by decide +kernel)).mpr ?_
  exact fun c hc => of_decide_eq_true (List.all_eq_true.mp hbmp c hc)

/-- The path of U+1F600 alone, which becomes six bytes that are not UTF-8. -/
def pairPath : List UInt16 := [0xD83D, 0xDE00]

theorem pairPath_not_utf8 : openDrive jailC pairPath = .ok (jailC.drives 2, pairPath) ∧
    pathUnits pairPath = utf16 [Char.ofNat 0x1F600] ∧
      (∀ n ∈ components isSepChar [Char.ofNat 0x1F600], n ≠ ['.'] ∧ n ≠ ['.', '.']) ∧
      ((jailC.drives 2).hostPath ++
        slash :: encodeUtf8 (slashPath [Char.ofNat 0x1F600])).length < vfsMaxPath ∧
      vfsTranslatePathEx jailC pairPath =
        .ok [0x2F, 0x6A, 0x2F, 0xED, 0xA0, 0xBD, 0xED, 0xB8, 0x80] ∧
      ¬ WritesUtf8 jailC pairPath (jailC.drives 2) [Char.ofNat 0x1F600] := by
  have hopen : openDrive jailC pairPath = .ok (jailC.drives 2, pairPath) := by rfl
  refine ⟨hopen, by decide +kernel, by decide +kernel, by decide +kernel, by decide +kernel, ?_⟩
  intro hwrites
  exact absurd (bmp_of_writesUtf8 hopen hwrites _ List.mem_cons_self) (by decide)

end Path

end Wbox.Nt
