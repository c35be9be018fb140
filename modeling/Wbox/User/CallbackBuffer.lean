import Wbox.User.CallbackArgs

/-!
# The buffer behind the arguments

The strings are copied after the words have been written. A string in the part of the stack that
the buffer takes is read when the buffer is already there, so the copy is right if and only if the
bytes it has lost by then are those it had.
-/

namespace Wbox.User

open Wbox.Lib Wbox.Vm

section Copying

variable {m m₁ : GuestMem} {base src a : UInt32} {content : Nat → UInt8} {n len t : Nat}

/-- What is copied at a position. -/
def copyChar (m : GuestMem) (src : UInt32) (len i : Nat) : UInt16 :=
  if i < len then readmemwl m (src + UInt32.ofNat (i * 2)) else 0

/-- The first so many steps of the copy. -/
def copySteps (m : GuestMem) (dst src : UInt32) (len t : Nat) : GuestMem :=
  (List.range t).foldl
    (fun m i => writememwl m (dst + UInt32.ofNat (i * 2)) (copyChar m src len i)) m

theorem copyWstr_eq (m : GuestMem) (dst src : UInt32) (len : Nat) :
    copyWstr m dst src len = copySteps m dst src len (len + 1) := rfl

theorem copySteps_succ (m : GuestMem) (dst src : UInt32) (len t : Nat) :
    copySteps m dst src len (t + 1) =
      writememwl (copySteps m dst src len t) (dst + UInt32.ofNat (t * 2))
        (copyChar (copySteps m dst src len t) src len t) := by
  unfold copySteps
  rw [List.range_succ, List.foldl_append]
  rfl

/-- A half word of the buffer is not written outside its two bytes. -/
theorem writememwl_off (v : UInt16) (hn : n + 2 ≤ 2 ^ 32)
    (ha : (a - base).toNat < n ∨ n + 2 ≤ (a - base).toNat) :
    writememwl m (base + UInt32.ofNat n) v a = m a := by
  apply writememwl_of_ne
  · rintro rfl
    rw [toNat_add_sub base (by omega)] at ha
    omega
  · have hnext : base + UInt32.ofNat n + 1 = base + UInt32.ofNat (n + 1) :=
      add_ofNat_ofNat base n 1
    rw [hnext]
    rintro rfl
    rw [toNat_add_sub base (by omega)] at ha
    omega

/-- The copy stays inside its bytes. -/
theorem copySteps_off (hn : n + t * 2 ≤ 2 ^ 32)
    (ha : (a - base).toNat < n ∨ n + t * 2 ≤ (a - base).toNat) :
    copySteps m (base + UInt32.ofNat n) src len t a = m a := by
  induction t with
  | zero => rfl
  | succ t ih =>
    rw [copySteps_succ, add_ofNat_ofNat, writememwl_off _ (by omega) (by omega)]
    exact ih (by omega) (by omega)

/-- A character is copied from bytes that are still there, or have been written as they were. -/
theorem copyChar_congr (h : Filled m base content n m₁)
    (hsafe : t < len → ∀ j < 2, (src + UInt32.ofNat (t * 2 + j) - base).toNat < n →
      m (src + UInt32.ofNat (t * 2 + j)) = content (src + UInt32.ofNat (t * 2 + j) - base).toNat) :
    copyChar m₁ src len t = copyChar m src len t := by
  unfold copyChar
  split
  · next hlt =>
    apply readmemwl_congr
    intro j hj
    rw [add_ofNat_ofNat, h]
    split
    · next hoff => exact (hsafe hlt j hj hoff).symm
    · rfl
  · rfl

/-- Copied right, a character came from such bytes. -/
theorem copyChar_safe (h : Filled m base content n m₁) (ht : t < len)
    (hchar : copyChar m₁ src len t = copyChar m src len t) {j : Nat} (hj : j < 2)
    (hoff : (src + UInt32.ofNat (t * 2 + j) - base).toNat < n) :
    m (src + UInt32.ofNat (t * 2 + j)) =
      content (src + UInt32.ofNat (t * 2 + j) - base).toNat := by
  unfold copyChar at hchar
  rw [if_pos ht, if_pos ht] at hchar
  have hbyte := congrArg (halfByte · j) hchar
  simp only [halfByte_readmemwl hj, add_ofNat_ofNat] at hbyte
  rw [← hbyte, h, if_pos hoff]

/-- The bytes before the last step were right if the bytes after it are. -/
theorem copySteps_filled_pred (h : Filled m base content n m₁) (hn : n + (t + 1) * 2 ≤ 2 ^ 32)
    (hfilled : Filled m base content (n + (t + 1) * 2)
      (copySteps m₁ (base + UInt32.ofNat n) src len (t + 1))) :
    Filled m base content (n + t * 2) (copySteps m₁ (base + UInt32.ofNat n) src len t) := by
  intro a
  by_cases hlt : (a - base).toNat < n + t * 2
  · have hstep := hfilled a
    rw [copySteps_succ, add_ofNat_ofNat, writememwl_off _ (by omega) (.inl hlt),
      if_pos (by omega)] at hstep
    rw [hstep, if_pos hlt]
  · rw [if_neg hlt, copySteps_off (by omega) (by omega)]
    exact h.off (by omega)

/-- The copy is what it should be if and only if each character could still be read. -/
theorem copySteps_filled_iff (h : Filled m base content n m₁) (ht : t ≤ len + 1)
    (hn : n + (len + 1) * 2 ≤ 2 ^ 32)
    (hcontent : ∀ i ≤ len, ∀ j < 2,
      content (n + i * 2 + j) = halfByte (copyChar m src len i) j) :
    Filled m base content (n + t * 2) (copySteps m₁ (base + UInt32.ofNat n) src len t) ↔
      ∀ i < t, i < len → ∀ j < 2, (src + UInt32.ofNat (i * 2 + j) - base).toNat < n + i * 2 →
        m (src + UInt32.ofNat (i * 2 + j)) =
          content (src + UInt32.ofNat (i * 2 + j) - base).toNat := by
  induction t with
  | zero => exact ⟨fun _ i hi => absurd hi (Nat.not_lt_zero i), fun _ => h⟩
  | succ t ih =>
    have ih := ih (by omega)
    constructor
    · intro hfilled i hi hlen j hj hoff
      have hpred := copySteps_filled_pred h (by omega) hfilled
      by_cases hlast : i < t
      · exact ih.mp hpred i hlast hlen j hj hoff
      · have heq : i = t := by omega
        subst heq
        apply copyChar_safe hpred hlen _ hj hoff
        -- both are the half word that stands there at the end
        apply halfByte_ext
        intro j' hj'
        have hend := hfilled.at (k := n + i * 2 + j') (by omega) (by omega)
        rw [copySteps_succ, ← add_ofNat_ofNat, ← add_ofNat_ofNat, writememwl_bytes _ hj',
          hcontent i (by omega) j' hj'] at hend
        exact hend
    · intro hsafe
      have hpred := ih.mpr fun i hi => hsafe i (by omega)
      rw [copySteps_succ, add_ofNat_ofNat]
      have hchar : copyChar (copySteps m₁ (base + UInt32.ofNat n) src len t) src len t =
          copyChar m src len t := copyChar_congr hpred (hsafe t (Nat.lt_succ_self t))
      have hlast : n + (t + 1) * 2 = n + t * 2 + 2 := by omega
      rw [hlast, hchar]
      exact hpred.writewl (by omega) (hcontent t (by omega))

end Copying

section Names

variable {m m₁ : GuestMem} {base va a : UInt32} {content : Nat → UInt8} {n i j : Nat}
  {words : List UInt32} {name className : List UInt16}

/-- The length of a string is bounded. -/
theorem readGuestWstrLen_le (m : GuestMem) (va : UInt32) : readGuestWstrLen m va ≤ 512 := by
  unfold readGuestWstrLen
  split
  · exact Nat.zero_le _
  · split
    · exact Nat.zero_le _
    · have hle := (wstrLenLoop_spec m va 512 0).2.1
      rwa [Nat.zero_add] at hle

theorem nameUnits_length (hatom : isAtom va = false) :
    (nameUnits m va).length = readGuestWstrLen m va + 1 := by
  unfold nameUnits
  rw [if_neg (by rw [hatom]; exact Bool.false_ne_true), List.length_append, List.length_map,
    List.length_range]
  rfl

theorem nameBytes_eq (m : GuestMem) (va : UInt32) :
    nameBytes m va = (nameUnits m va).length * 2 := by
  unfold nameBytes
  split
  · next hatom =>
    unfold nameUnits
    rw [if_pos hatom]
    rfl
  · next hatom => rw [nameUnits_length (Bool.eq_false_iff.mpr hatom)]

theorem nameBytes_le (m : GuestMem) (va : UInt32) : nameBytes m va ≤ 1026 := by
  unfold nameBytes
  split
  · exact Nat.zero_le _
  · have hle := readGuestWstrLen_le m va
    omega

/-- The units of a string are what the copy writes. -/
theorem nameUnits_getD (hatom : isAtom va = false) (hi : i ≤ readGuestWstrLen m va) :
    (nameUnits m va).getD i 0 = copyChar m va (readGuestWstrLen m va) i := by
  unfold nameUnits copyChar
  rw [if_neg (by rw [hatom]; exact Bool.false_ne_true)]
  split
  · next hlt =>
    rw [List.getD_append _ _ _ _ (by rw [List.length_map, List.length_range]; exact hlt)]
    simp [List.getD, hlt]
  · next hlt =>
    have heq : i = readGuestWstrLen m va := by omega
    rw [List.getD_append_right _ _ _ _ (by rw [List.length_map, List.length_range]; omega),
      List.length_map, List.length_range, heq, Nat.sub_self]
    rfl

theorem bufferByte_word (hi : i < 20) (hj : j < 4) :
    bufferByte words name className (4 * i + j) = wordByte (words.getD i 0) j := by
  have hdiv : (4 * i + j) / 4 = i := by omega
  have hmod : (4 * i + j) % 4 = j := by omega
  unfold bufferByte
  rw [if_pos (by omega), hdiv, hmod]

theorem bufferByte_name (hi : i < name.length) (hj : j < 2) :
    bufferByte words name className (80 + i * 2 + j) = halfByte (name.getD i 0) j := by
  have hdiv : (80 + i * 2 + j - 80) / 2 = i := by omega
  have hmod : (80 + i * 2 + j) % 2 = j := by omega
  unfold bufferByte
  rw [if_neg (by omega), if_pos (by omega), hdiv, hmod]

theorem bufferByte_class (hj : j < 2) :
    bufferByte words name className (80 + name.length * 2 + i * 2 + j) =
      halfByte (className.getD i 0) j := by
  have hdiv : (80 + name.length * 2 + i * 2 + j - 80) / 2 - name.length = i := by omega
  have hmod : (80 + name.length * 2 + i * 2 + j) % 2 = j := by omega
  unfold bufferByte
  rw [if_neg (by omega), if_neg (by omega), hdiv, hmod]

/-- A string stays inside the bytes it takes. -/
theorem copyName_off (hn : n + nameBytes m va ≤ 2 ^ 32)
    (ha : (a - base).toNat < n ∨ n + nameBytes m va ≤ (a - base).toNat) :
    copyName m₁ (base + UInt32.ofNat n) va (if isAtom va then 0 else readGuestWstrLen m va) a =
      m₁ a := by
  unfold copyName
  cases hatom : isAtom va with
  | true => rfl
  | false =>
    have hbytes : nameBytes m va = (readGuestWstrLen m va + 1) * 2 :=
      if_neg (by rw [hatom]; exact Bool.false_ne_true)
    rw [hbytes] at hn ha
    rw [if_neg Bool.false_ne_true]
    split
    · rw [copyWstr_eq]
      exact copySteps_off hn ha
    · rfl

/-- A string is as it should be if and only if it is safe. -/
theorem copyName_filled_iff (h : Filled m base content n m₁) (hn : n + nameBytes m va ≤ 2 ^ 32)
    (hcontent : ∀ i < (nameUnits m va).length, ∀ j < 2,
      content (n + i * 2 + j) = halfByte ((nameUnits m va).getD i 0) j) :
    Filled m base content (n + nameBytes m va)
        (copyName m₁ (base + UInt32.ofNat n) va
          (if isAtom va then 0 else readGuestWstrLen m va)) ↔
      StringSafe m base content n va := by
  cases hatom : isAtom va with
  | true =>
    have hbytes : nameBytes m va = 0 := if_pos hatom
    have hcopy (len : Nat) : copyName m₁ (base + UInt32.ofNat n) va len = m₁ :=
      if_neg fun hand => Bool.false_ne_true (hand.1.symm.trans hatom)
    rw [hbytes, hcopy]
    refine ⟨fun _ => ⟨?_, ?_⟩, fun _ => h⟩
    · intro hnot
      exact absurd (hnot.symm.trans hatom) Bool.false_ne_true
    · intro hnot
      exact absurd (hnot.symm.trans hatom) Bool.false_ne_true
  | false =>
    have hneg : ¬ isAtom va = true := by
      rw [hatom]
      exact Bool.false_ne_true
    have hbytes : nameBytes m va = (readGuestWstrLen m va + 1) * 2 := if_neg hneg
    have hunits : ∀ i ≤ readGuestWstrLen m va, ∀ j < 2,
        content (n + i * 2 + j) = halfByte (copyChar m va (readGuestWstrLen m va) i) j := by
      intro i hi j hj
      rw [← nameUnits_getD hatom hi]
      exact hcontent i (by rw [nameUnits_length hatom]; omega) j hj
    rw [if_neg Bool.false_ne_true]
    by_cases hlen : readGuestWstrLen m va = 0
    · have hcopy : copyName m₁ (base + UInt32.ofNat n) va (readGuestWstrLen m va) = m₁ :=
        if_neg fun hand => absurd hlen (Nat.ne_of_gt hand.2)
      have hzero : ∀ j < 2, content (n + j) = 0 := by
        intro j hj
        have hunit := hunits 0 (Nat.zero_le _) j hj
        rw [hlen, Nat.zero_mul, Nat.add_zero] at hunit
        rw [hunit]
        exact halfByte_zero j
      rw [hcopy, hbytes, hlen]
      constructor
      · intro hfilled
        refine ⟨fun _ _ j hj => ?_, fun _ i hi => absurd hi (by omega)⟩
        have hend := hfilled.at (k := n + j) (by omega) (by omega)
        rw [hzero j hj, h.off (by rw [toNat_add_sub base (by omega)]; omega)] at hend
        exact hend
      · intro hsafe
        have hempty := hsafe.empty hatom hlen
        have hfirst := h.succ ((hempty 0 (by decide)).trans (hzero 0 (by decide)).symm)
        exact hfirst.succ ((hempty 1 (by decide)).trans (hzero 1 (by decide)).symm)
    · have hcopy : copyName m₁ (base + UInt32.ofNat n) va (readGuestWstrLen m va) =
          copyWstr m₁ (base + UInt32.ofNat n) va (readGuestWstrLen m va) :=
        if_pos ⟨hatom, by omega⟩
      rw [hbytes] at hn ⊢
      rw [hcopy, copyWstr_eq, copySteps_filled_iff h (Nat.le_refl _) hn hunits]
      constructor
      · intro hsafe
        exact ⟨fun _ hzero => absurd hzero hlen, fun _ i hi => hsafe i (by omega) hi⟩
      · intro hsafe i _ hi
        exact hsafe.copied hatom i hi

/-- The bytes of the first of two strings were right if those of both are. -/
theorem copyName_filled_before {va' : UInt32} (h : Filled m base content n m₁)
    (hn : n + nameBytes m va + nameBytes m va' ≤ 2 ^ 32)
    (hfilled : Filled m base content (n + nameBytes m va + nameBytes m va')
      (copyName
        (copyName m₁ (base + UInt32.ofNat n) va (if isAtom va then 0 else readGuestWstrLen m va))
        (base + UInt32.ofNat (n + nameBytes m va)) va'
        (if isAtom va' then 0 else readGuestWstrLen m va'))) :
    Filled m base content (n + nameBytes m va)
      (copyName m₁ (base + UInt32.ofNat n) va
        (if isAtom va then 0 else readGuestWstrLen m va)) := by
  intro a
  by_cases hlt : (a - base).toNat < n + nameBytes m va
  · have hlt' : (a - base).toNat < n + nameBytes m va + nameBytes m va' := by omega
    have hbyte := hfilled a
    rw [copyName_off hn (.inl hlt), if_pos hlt'] at hbyte
    rw [hbyte, if_pos hlt]
  · rw [if_neg hlt, copyName_off (by omega) (by omega)]
    exact h.off (by omega)

end Names

section Words

variable {m m' : GuestMem} {base : UInt32} {words words' : List UInt32} {i : Nat}
  {name className : List UInt16}

/-- The words are written from the first byte of the buffer on. -/
theorem writeWords_filled (m : GuestMem) (base : UInt32) (name className : List UInt16)
    (hwords : words.length = 8) (hwords' : words'.length = 12) :
    Filled m base (bufferByte (words ++ words') name className) 80
      (writeFields (writeFields m base (wordFields words)) (base + UInt32.ofNat wpcbSize)
        (wordFields words')) := by
  have hstart := filled_zero m base (bufferByte (words ++ words') name className)
  have hfirst := hstart.words (by omega) fun i (hi : i < words.length) j hj => by
    rw [Nat.zero_add, bufferByte_word (by omega) hj, List.getD_append _ _ _ _ hi]
  have hzero : base + UInt32.ofNat 0 = base := UInt32.add_zero base
  rw [hzero, hwords] at hfirst
  have hsecond := hfirst.words (by omega) fun i (hi : i < words'.length) j hj => by
    have hpos : 0 + 4 * 8 + 4 * i + j = 4 * (8 + i) + j := by omega
    rw [hpos, bufferByte_word (by omega) hj, List.getD_append_right _ _ _ _ (by omega), hwords,
      Nat.add_sub_cancel_left]
  rw [hwords'] at hsecond
  exact hsecond

/-- A word of the buffer is read back. -/
theorem readmemll_word
    (h : ∀ k < 80, m' (base + UInt32.ofNat k) = bufferByte words name className k) (hi : i < 20) :
    readmemll m' (base + UInt32.ofNat (4 * i)) = words.getD i 0 := by
  apply readmemll_of_bytes
  intro j hj
  rw [add_ofNat_ofNat, h _ (by omega), bufferByte_word hi hj]

/-- The structure of the buffer is read back. -/
theorem readCreateStruct_words {cs : CreateStruct} {nameOffset classOffset : UInt32}
    (hwords : words.length = 8)
    (h : ∀ k < 80, m' (base + UInt32.ofNat k) =
      bufferByte (words ++ createWords cs nameOffset classOffset) name className k) :
    readCreateStruct m' (base + UInt32.ofNat wpcbSize) =
      { cs with lpszName := nameOffset, lpszClass := classOffset } := by
  have hword : ∀ i < 12, readmemll m' (base + UInt32.ofNat wpcbSize + UInt32.ofNat (4 * i)) =
      (createWords cs nameOffset classOffset).getD i 0 := by
    intro i hi
    have hpos : wpcbSize + 4 * i = 4 * (8 + i) := by
      unfold wpcbSize
      omega
    rw [add_ofNat_ofNat, hpos, readmemll_word h (by omega),
      List.getD_append_right _ _ _ _ (by omega), hwords, Nat.add_sub_cancel_left]
  have hfirst : readmemll m' (base + UInt32.ofNat wpcbSize) = cs.lpCreateParams := by
    have hzero : base + UInt32.ofNat wpcbSize + UInt32.ofNat 0 = base + UInt32.ofNat wpcbSize :=
      UInt32.add_zero _
    have hat := hword 0 (by decide)
    rw [Nat.mul_zero, hzero] at hat
    exact hat
  unfold readCreateStruct
  congr 1
  · exact hword 1 (by decide)
  · exact hword 2 (by decide)
  · exact hword 3 (by decide)
  · exact hword 4 (by decide)
  · exact hword 5 (by decide)
  · exact hword 6 (by decide)
  · exact hword 7 (by decide)
  · exact hword 8 (by decide)
  · exact hword 9 (by decide)
  · exact hword 10 (by decide)
  · exact hword 11 (by decide)

end Words

section Kept

variable {m m' : GuestMem} {base va bufSize : UInt32} {content : Nat → UInt8} {offset : Nat}

/-- A string of the buffer is kept if and only if its bytes stand there. -/
theorem stringKept_iff (hstring : AtomOrString m va) (hoffset : createStructSize ≤ offset)
    (hsize : offset + nameBytes m va ≤ bufSize.toNat) (hlt : offset < 2 ^ 31)
    (hcontent : ∀ i < (nameUnits m va).length, ∀ j < 2,
      content (wpcbSize + offset + i * 2 + j) = halfByte ((nameUnits m va).getD i 0) j) :
    StringKept m m' (base + UInt32.ofNat wpcbSize) bufSize va (atomOr va offset) ↔
      ∀ k < nameBytes m va, m' (base + UInt32.ofNat (wpcbSize + offset + k)) =
        content (wpcbSize + offset + k) := by
  unfold StringKept atomOr
  cases hatom : isAtom va with
  | true =>
    have hbytes : nameBytes m va = 0 := if_pos hatom
    rw [hbytes, if_pos rfl, if_pos rfl]
    exact ⟨fun _ k hk => absurd hk (Nat.not_lt_zero k), fun _ => rfl⟩
  | false =>
    obtain ⟨hwide, hle⟩ := hstring.wide hatom
    have hbytes : nameBytes m va = (readGuestWstrLen m va + 1) * 2 :=
      if_neg (by rw [hatom]; exact Bool.false_ne_true)
    have hfield : (UInt32.ofNat offset).toNat = offset :=
      UInt32.toNat_ofNat_of_lt' (Nat.lt_trans hlt (by decide))
    have haddr (k : Nat) : base + UInt32.ofNat wpcbSize + UInt32.ofNat offset + UInt32.ofNat k =
        base + UInt32.ofNat (wpcbSize + offset + k) := by
      rw [add_ofNat_ofNat, add_ofNat_ofNat, Nat.add_assoc]
    rw [if_neg Bool.false_ne_true, if_neg Bool.false_ne_true]
    constructor
    · intro hkept k hk
      obtain ⟨-, -, hchars, hnul⟩ := hkept _ hwide
      have hunit : readmemwl m' (base + UInt32.ofNat (wpcbSize + offset + k / 2 * 2)) =
          copyChar m va (readGuestWstrLen m va) (k / 2) := by
        rw [← haddr]
        unfold copyChar
        split
        · next hi => exact hchars _ hi
        · next hi =>
          have heq : k / 2 = readGuestWstrLen m va := by omega
          rw [heq]
          exact hnul
      have hbyte := readmemwl_eq_iff.mp hunit (k % 2) (by omega)
      have hpos : wpcbSize + offset + k / 2 * 2 + k % 2 = wpcbSize + offset + k := by omega
      rw [add_ofNat_ofNat, hpos] at hbyte
      rw [hbyte, ← hpos, hcontent (k / 2) (by rw [nameUnits_length hatom]; omega) _ (by omega),
        nameUnits_getD hatom (by omega)]
    · intro hbytes' len hlen
      have hunit : ∀ i ≤ readGuestWstrLen m va,
          readmemwl m' (base + UInt32.ofNat wpcbSize + UInt32.ofNat offset +
            UInt32.ofNat (i * 2)) = copyChar m va (readGuestWstrLen m va) i := by
        intro i hi
        rw [haddr, readmemwl_eq_iff]
        intro j hj
        have hbyte := hbytes' (i * 2 + j) (by omega)
        rw [← Nat.add_assoc, hcontent i (by rw [nameUnits_length hatom]; omega) j hj,
          nameUnits_getD hatom hi] at hbyte
        rw [add_ofNat_ofNat]
        exact hbyte
      rw [hlen.unique hwide, hfield]
      refine ⟨hoffset, by omega, ?_, ?_⟩
      · intro i hi
        rw [hunit i (by omega)]
        exact if_pos hi
      · rw [hunit _ (Nat.le_refl _)]
        exact if_neg (Nat.lt_irrefl _)

end Kept

section Buffer

variable {m : GuestMem} {esp wndproc hwnd msg wParam lParam : UInt32}

/-- Where the strings end. -/
def bufferEnd (m : GuestMem) (lParam : UInt32) : Nat :=
  80 + nameBytes m (readCreateStruct m lParam).lpszName +
    nameBytes m (readCreateStruct m lParam).lpszClass

/-- The buffer before the strings are copied. -/
def bufferHeader (m : GuestMem) (esp wndproc hwnd msg wParam lParam : UInt32) : GuestMem :=
  let cs := readCreateStruct m lParam
  let nameSize := nameBytes m cs.lpszName
  let bufSize := createStructSize + nameSize + nameBytes m cs.lpszClass
  let va := esp - UInt32.ofNat (wpcbSize + bufSize)
  writeFields
    (writeFields m va
      (wordFields (callbackWords wndproc hwnd msg wParam lParam (UInt32.ofNat bufSize))))
    (va + UInt32.ofNat wpcbSize)
    (wordFields (createWords cs (atomOr cs.lpszName createStructSize)
      (atomOr cs.lpszClass (createStructSize + nameSize))))

/-- The strings are copied one after the other. -/
theorem createArguments_mem (m : GuestMem) (esp wndproc hwnd msg wParam lParam : UInt32) :
    (createArguments m esp wndproc hwnd msg wParam lParam).mem =
      copyName
        (copyName (bufferHeader m esp wndproc hwnd msg wParam lParam)
          ((createArguments m esp wndproc hwnd msg wParam lParam).va + UInt32.ofNat 80)
          (readCreateStruct m lParam).lpszName
          (if isAtom (readCreateStruct m lParam).lpszName then 0
            else readGuestWstrLen m (readCreateStruct m lParam).lpszName))
        ((createArguments m esp wndproc hwnd msg wParam lParam).va +
          UInt32.ofNat (80 + nameBytes m (readCreateStruct m lParam).lpszName))
        (readCreateStruct m lParam).lpszClass
        (if isAtom (readCreateStruct m lParam).lpszClass then 0
          else readGuestWstrLen m (readCreateStruct m lParam).lpszClass) := by
  have hname := add_ofNat_ofNat (createArguments m esp wndproc hwnd msg wParam lParam).va wpcbSize
    createStructSize
  have hclass := add_ofNat_ofNat (createArguments m esp wndproc hwnd msg wParam lParam).va
    (wpcbSize + createStructSize) (nameBytes m (readCreateStruct m lParam).lpszName)
  rw [← hname] at hclass
  have heighty : wpcbSize + createStructSize = 80 := rfl
  rw [heighty] at hname hclass
  rw [← hclass, ← hname]
  rfl

theorem bufferEnd_le (m : GuestMem) (lParam : UInt32) : bufferEnd m lParam ≤ 2132 := by
  have hname := nameBytes_le m (readCreateStruct m lParam).lpszName
  have hclass := nameBytes_le m (readCreateStruct m lParam).lpszClass
  unfold bufferEnd
  omega

theorem bufferHeader_filled (m : GuestMem) (esp wndproc hwnd msg wParam lParam : UInt32) :
    Filled m (createArguments m esp wndproc hwnd msg wParam lParam).va
      (bufferContent m wndproc hwnd msg wParam lParam) 80
      (bufferHeader m esp wndproc hwnd msg wParam lParam) :=
  writeWords_filled m _ _ _ rfl rfl

theorem bufferContent_name {i j : Nat}
    (hi : i < (nameUnits m (readCreateStruct m lParam).lpszName).length) (hj : j < 2) :
    bufferContent m wndproc hwnd msg wParam lParam (80 + i * 2 + j) =
      halfByte ((nameUnits m (readCreateStruct m lParam).lpszName).getD i 0) j :=
  bufferByte_name hi hj

theorem bufferContent_class {i j : Nat} (hj : j < 2) :
    bufferContent m wndproc hwnd msg wParam lParam
        (80 + nameBytes m (readCreateStruct m lParam).lpszName + i * 2 + j) =
      halfByte ((nameUnits m (readCreateStruct m lParam).lpszClass).getD i 0) j := by
  rw [nameBytes_eq]
  exact bufferByte_class hj

/-- Nothing behind the strings is written. -/
theorem createArguments_off {a : UInt32}
    (ha : bufferEnd m lParam ≤
      (a - (createArguments m esp wndproc hwnd msg wParam lParam).va).toNat) :
    (createArguments m esp wndproc hwnd msg wParam lParam).mem a = m a := by
  have hle := bufferEnd_le m lParam
  unfold bufferEnd at hle ha
  rw [createArguments_mem, copyName_off (by omega) (by omega), copyName_off (by omega) (by omega)]
  exact (bufferHeader_filled m esp wndproc hwnd msg wParam lParam).off (by omega)

/-- The strings leave the words before them. -/
theorem createArguments_words {k : Nat} (hk : k < 80) :
    (createArguments m esp wndproc hwnd msg wParam lParam).mem
        ((createArguments m esp wndproc hwnd msg wParam lParam).va + UInt32.ofNat k) =
      bufferContent m wndproc hwnd msg wParam lParam k := by
  have hle := bufferEnd_le m lParam
  have hoff := toNat_add_sub (createArguments m esp wndproc hwnd msg wParam lParam).va
    (k := k) (by omega)
  unfold bufferEnd at hle
  rw [createArguments_mem, copyName_off (by omega) (.inl (by omega)),
    copyName_off (by omega) (.inl (by omega))]
  exact (bufferHeader_filled m esp wndproc hwnd msg wParam lParam).at hk (by omega)

/-- The buffer is as it should be if and only if both strings are safe. -/
theorem createArguments_filled_iff :
    Filled m (createArguments m esp wndproc hwnd msg wParam lParam).va
        (bufferContent m wndproc hwnd msg wParam lParam) (bufferEnd m lParam)
        (createArguments m esp wndproc hwnd msg wParam lParam).mem ↔
      StringSafe m (createArguments m esp wndproc hwnd msg wParam lParam).va
          (bufferContent m wndproc hwnd msg wParam lParam) 80
          (readCreateStruct m lParam).lpszName ∧
        StringSafe m (createArguments m esp wndproc hwnd msg wParam lParam).va
          (bufferContent m wndproc hwnd msg wParam lParam)
          (80 + nameBytes m (readCreateStruct m lParam).lpszName)
          (readCreateStruct m lParam).lpszClass := by
  have hle := bufferEnd_le m lParam
  have hheader := bufferHeader_filled m esp wndproc hwnd msg wParam lParam
  unfold bufferEnd at hle ⊢
  have hname := copyName_filled_iff hheader (by omega) fun i
    (hi : i < (nameUnits m (readCreateStruct m lParam).lpszName).length) j hj =>
      bufferContent_name hi hj
  rw [createArguments_mem]
  constructor
  · intro hfilled
    -- the class name is copied behind the name, which stood there already
    have hbefore := copyName_filled_before hheader (by omega) hfilled
    exact ⟨hname.mp hbefore,
      (copyName_filled_iff hbefore (by omega) fun i _ j hj => bufferContent_class hj).mp hfilled⟩
  · rintro ⟨hsafe, hsafe'⟩
    have hfilled := hname.mpr hsafe
    exact (copyName_filled_iff hfilled (by omega) fun i _ j hj => bufferContent_class hj).mpr hsafe'

/-- A word pushed below the arguments does not reach them. -/
theorem push_off {m' : GuestMem} {va w : UInt32} {d k : Nat} (hd : d < 2 ^ 32)
    (hk : k < d) (hend : d + 4 ≤ 2 ^ 32) :
    writememll m' (va + UInt32.ofNat d) w (va + UInt32.ofNat k) = m' (va + UInt32.ofNat k) := by
  apply writememll_of_ne
  intro j hj heq
  have hsub := congrArg (fun a => (a - va).toNat) heq
  simp only [add_ofNat_ofNat] at hsub
  rw [toNat_add_sub va (by omega), toNat_add_sub va (by omega)] at hsub
  omega

/-- The arguments of `WM_NCCREATE` and `WM_CREATE` are there when the handler starts. -/
theorem userCallWndprocAddr_create {depth : Int32} {stub : UInt32} {start : CallbackStart}
    (hstart : userCallWndprocAddr m depth stub esp wndproc hwnd msg wParam lParam = some start)
    (hmsg : msg = wmNccreate ∨ msg = wmCreate) (hlParam : lParam ≠ 0) :
    start.args = createArguments m esp wndproc hwnd msg wParam lParam ∧
      ∀ k < 2 ^ 32 - 12, start.mem (start.args.va + UInt32.ofNat k) =
        start.args.mem (start.args.va + UInt32.ofNat k) := by
  unfold userCallWndprocAddr at hstart
  split at hstart
  · cases hstart
  · obtain ⟨handler, -, rfl⟩ := Option.map_eq_some_iff.mp hstart
    simp only [if_pos (⟨hmsg, hlParam⟩ : (msg = wmNccreate ∨ msg = wmCreate) ∧ lParam ≠ 0),
      true_and]
    intro k hk
    have h4 (va : UInt32) : va - 4 = va + UInt32.ofNat (2 ^ 32 - 4) := UInt32.sub_eq_add_neg va 4
    have h8 (va : UInt32) : va - 8 = va + UInt32.ofNat (2 ^ 32 - 8) := UInt32.sub_eq_add_neg va 8
    have h12 (va : UInt32) : va - 12 = va + UInt32.ofNat (2 ^ 32 - 12) :=
      UInt32.sub_eq_add_neg va 12
    rw [h4, h8, h12, push_off (by decide) hk (by decide),
      push_off (by decide) (by omega) (by decide), push_off (by decide) (by omega) (by decide)]

theorem bufferContent_eq (m : GuestMem) (wndproc hwnd msg wParam lParam : UInt32) :
    bufferContent m wndproc hwnd msg wParam lParam =
      bufferByte
        (callbackWords wndproc hwnd msg wParam lParam
            (UInt32.ofNat (createStructSize + nameBytes m (readCreateStruct m lParam).lpszName +
              nameBytes m (readCreateStruct m lParam).lpszClass)) ++
          createWords (readCreateStruct m lParam)
            (atomOr (readCreateStruct m lParam).lpszName createStructSize)
            (atomOr (readCreateStruct m lParam).lpszClass
              (createStructSize + nameBytes m (readCreateStruct m lParam).lpszName)))
        (nameUnits m (readCreateStruct m lParam).lpszName)
        (nameUnits m (readCreateStruct m lParam).lpszClass) := rfl

variable {m' : GuestMem} {va : UInt32}

/-- The size of the buffer is read back. -/
theorem readmemll_bufSize
    (hwords : ∀ k < 80, m' (va + UInt32.ofNat k) =
      bufferContent m wndproc hwnd msg wParam lParam k) :
    (readmemll m' (va + 24)).toNat = createStructSize +
      nameBytes m (readCreateStruct m lParam).lpszName +
        nameBytes m (readCreateStruct m lParam).lpszClass := by
  rw [bufferContent_eq] at hwords
  have hword := readmemll_word hwords (by decide : 6 < 20)
  have haddr : va + UInt32.ofNat (4 * 6) = va + 24 := rfl
  rw [haddr] at hword
  have hle := bufferEnd_le m lParam
  unfold bufferEnd at hle
  rw [hword]
  apply UInt32.toNat_ofNat_of_lt'
  unfold createStructSize UInt32.size
  omega

/-- The structure in the buffer. -/
theorem readCreateStruct_buffer
    (hwords : ∀ k < 80, m' (va + UInt32.ofNat k) =
      bufferContent m wndproc hwnd msg wParam lParam k) :
    readCreateStruct m' (va + UInt32.ofNat wpcbSize) =
      { readCreateStruct m lParam with
        lpszName := atomOr (readCreateStruct m lParam).lpszName createStructSize
        lpszClass := atomOr (readCreateStruct m lParam).lpszClass
          (createStructSize + nameBytes m (readCreateStruct m lParam).lpszName) } := by
  rw [bufferContent_eq] at hwords
  exact readCreateStruct_words rfl hwords

/-- The name is kept if and only if its bytes stand in the buffer. -/
theorem nameKept_iff
    (hwords : ∀ k < 80, m' (va + UInt32.ofNat k) =
      bufferContent m wndproc hwnd msg wParam lParam k)
    (hname : AtomOrString m (readCreateStruct m lParam).lpszName) :
    StringKept m m' (va + UInt32.ofNat wpcbSize) (readmemll m' (va + 24))
        (readCreateStruct m lParam).lpszName
        (readCreateStruct m' (va + UInt32.ofNat wpcbSize)).lpszName ↔
      ∀ k < nameBytes m (readCreateStruct m lParam).lpszName,
        m' (va + UInt32.ofNat (80 + k)) =
          bufferContent m wndproc hwnd msg wParam lParam (80 + k) := by
  have hsize := readmemll_bufSize hwords
  rw [readCreateStruct_buffer hwords]
  exact stringKept_iff hname (Nat.le_refl _) (by omega) (by decide)
    fun i hi j hj => bufferContent_name hi hj

/-- So is the name of the class. -/
theorem classKept_iff
    (hwords : ∀ k < 80, m' (va + UInt32.ofNat k) =
      bufferContent m wndproc hwnd msg wParam lParam k)
    (hclass : AtomOrString m (readCreateStruct m lParam).lpszClass) :
    StringKept m m' (va + UInt32.ofNat wpcbSize) (readmemll m' (va + 24))
        (readCreateStruct m lParam).lpszClass
        (readCreateStruct m' (va + UInt32.ofNat wpcbSize)).lpszClass ↔
      ∀ k < nameBytes m (readCreateStruct m lParam).lpszClass,
        m' (va + UInt32.ofNat (80 + nameBytes m (readCreateStruct m lParam).lpszName + k)) =
          bufferContent m wndproc hwnd msg wParam lParam
            (80 + nameBytes m (readCreateStruct m lParam).lpszName + k) := by
  have hsize := readmemll_bufSize hwords
  have hle := nameBytes_le m (readCreateStruct m lParam).lpszName
  have hstart : wpcbSize + (createStructSize +
      nameBytes m (readCreateStruct m lParam).lpszName) =
        80 + nameBytes m (readCreateStruct m lParam).lpszName := by
    unfold wpcbSize createStructSize
    omega
  rw [readCreateStruct_buffer hwords, ← hstart]
  exact stringKept_iff hclass (Nat.le_add_right _ _) (by omega)
    (by unfold createStructSize; omega) fun i _ j hj => by
      rw [hstart]
      exact bufferContent_class hj

/-- Where the words stand, the buffer decodes if and only if the strings stand there too. -/
theorem decodes_iff
    (hwords : ∀ k < 80, m' (va + UInt32.ofNat k) =
      bufferContent m wndproc hwnd msg wParam lParam k)
    (hname : AtomOrString m (readCreateStruct m lParam).lpszName)
    (hclass : AtomOrString m (readCreateStruct m lParam).lpszClass) :
    Decodes m m' lParam va ↔ ∀ k < bufferEnd m lParam,
      m' (va + UInt32.ofNat k) = bufferContent m wndproc hwnd msg wParam lParam k := by
  have hname' := nameKept_iff hwords hname
  have hclass' := classKept_iff hwords hclass
  have hstruct := readCreateStruct_buffer hwords
  unfold bufferEnd
  constructor
  · intro hdecodes k hk
    have hnameAt := hname'.mp hdecodes.name
    have hclassAt := hclass'.mp hdecodes.className
    by_cases hword : k < 80
    · exact hwords k hword
    · by_cases hlt : k < 80 + nameBytes m (readCreateStruct m lParam).lpszName
      · have hat := hnameAt (k - 80) (by omega)
        rwa [Nat.add_sub_cancel' (by omega)] at hat
      · have hat := hclassAt (k - (80 + nameBytes m (readCreateStruct m lParam).lpszName))
          (by omega)
        rwa [Nat.add_sub_cancel' (by omega)] at hat
  · intro hbytes
    refine ⟨?_, ?_, ?_, ?_⟩
    · rw [hstruct]
    · exact hname'.mpr fun k hk => hbytes (80 + k) (by omega)
    · exact hclass'.mpr fun k hk =>
        hbytes (80 + nameBytes m (readCreateStruct m lParam).lpszName + k) (by omega)
    · intro nameLen classLen hatom hatom' hwide hwide'
      -- the class name begins where the name ends
      obtain ⟨hfound, -⟩ := hname.wide hatom
      have hlen : nameBytes m (readCreateStruct m lParam).lpszName = (nameLen + 1) * 2 := by
        rw [hwide.unique hfound]
        exact if_neg (by rw [hatom]; exact Bool.false_ne_true)
      have hle := nameBytes_le m (readCreateStruct m lParam).lpszName
      rw [hstruct]
      unfold atomOr
      rw [if_neg (by rw [hatom]; exact Bool.false_ne_true),
        if_neg (by rw [hatom']; exact Bool.false_ne_true),
        UInt32.toNat_ofNat_of_lt' (by decide),
        UInt32.toNat_ofNat_of_lt' (by unfold createStructSize UInt32.size; omega)]
      exact .inl (by omega)

end Buffer

/-- The buffer decodes to the structure if and only if each string is safe: it is an atom, or its
characters are still there when they are copied, or it is empty and its NUL stood on the stack. -/
theorem userCallWndprocAddr_decodes_iff {m : GuestMem} {depth : Int32}
    {returnStub esp wndproc hwnd msg wParam lParam : UInt32} {start : CallbackStart}
    (hstart : userCallWndprocAddr m depth returnStub esp wndproc hwnd msg wParam lParam =
      some start)
    (hmsg : msg = wmNccreate ∨ msg = wmCreate) (hlParam : lParam ≠ 0)
    (hname : AtomOrString m (readCreateStruct m lParam).lpszName)
    (hclass : AtomOrString m (readCreateStruct m lParam).lpszClass) :
    Decodes m start.mem lParam start.args.va ↔
      StringSafe m start.args.va (bufferContent m wndproc hwnd msg wParam lParam) 80
          (readCreateStruct m lParam).lpszName ∧
        StringSafe m start.args.va (bufferContent m wndproc hwnd msg wParam lParam)
          (80 + nameBytes m (readCreateStruct m lParam).lpszName)
          (readCreateStruct m lParam).lpszClass := by
  obtain ⟨hargs, hmem⟩ := userCallWndprocAddr_create hstart hmsg hlParam
  have hle := bufferEnd_le m lParam
  rw [hargs] at hmem ⊢
  rw [← createArguments_filled_iff, decodes_iff (fun k hk => by
    rw [hmem k (by omega)]
    exact createArguments_words hk) hname hclass]
  constructor
  · intro hbytes a
    split
    · next hlt =>
      have haddr : a = (createArguments m esp wndproc hwnd msg wParam lParam).va +
          UInt32.ofNat (a - (createArguments m esp wndproc hwnd msg wParam lParam).va).toNat :=
        eq_add_of_toNat_sub rfl
      have hat := hbytes _ hlt
      rw [hmem _ (by omega), ← haddr] at hat
      exact hat
    · next hlt => exact createArguments_off (by omega)
  · intro hfilled k hk
    rw [hmem k (by omega)]
    exact hfilled.at hk (by omega)

/-- A handler, a structure at `0x40000` with a name at `0x50000` and an atom, and a stack that grows
down from `0x60000`. -/
def namedWindow (name stack : UInt8) : GuestMem := fun a =>
  if a = 0x7FFDF032 then 1 else if a = 0x1002E then 2 else if a = 0x20002 then 3
  else if a = 0x40026 then 5 else if a = 0x40029 then 0xC0
  else if a = 0x50000 then name else if a = 0x5FFFE then stack else 0

theorem readCreateStruct_namedWindow (name stack : UInt8) :
    (readCreateStruct (namedWindow name stack) 0x40000).lpszName = 0x50000 ∧
      (readCreateStruct (namedWindow name stack) 0x40000).lpszClass = 0xC000 := by
  simp [readCreateStruct, readmemll, namedWindow]
  decide

theorem callbackHandler_namedWindow (name stack : UInt8) :
    callbackHandler (namedWindow name stack) = some 0x30000 := by
  have hpeb : readmemll (namedWindow name stack) (0x7FFDF000 + 0x30) = 0x10000 := by
    simp [readmemll, namedWindow]
    decide
  have htable : readmemll (namedWindow name stack) (0x10000 + 0x2C) = 0x20000 := by
    simp [readmemll, namedWindow]
    decide
  have hhandler : readmemll (namedWindow name stack) 0x20000 = 0x30000 := by
    simp [readmemll, namedWindow]
    decide
  unfold callbackHandler
  simp only [hpeb, htable, hhandler]
  exact if_neg (by decide)

/-- The name of one letter is copied. -/
theorem userCallWndprocAddr_decodes_letter :
    ∃ start, userCallWndprocAddr (namedWindow 0x41 0x42) 0 0 0x60000 1 0 wmCreate 0 0x40000 =
        some start ∧
      (Decodes (namedWindow 0x41 0x42) start.mem 0x40000 start.args.va ↔
        StringSafe (namedWindow 0x41 0x42) start.args.va
            (bufferContent (namedWindow 0x41 0x42) 1 0 wmCreate 0 0x40000) 80
            (readCreateStruct (namedWindow 0x41 0x42) 0x40000).lpszName ∧
          StringSafe (namedWindow 0x41 0x42) start.args.va
            (bufferContent (namedWindow 0x41 0x42) 1 0 wmCreate 0 0x40000)
            (80 + nameBytes (namedWindow 0x41 0x42)
              (readCreateStruct (namedWindow 0x41 0x42) 0x40000).lpszName)
            (readCreateStruct (namedWindow 0x41 0x42) 0x40000).lpszClass) := by
  have hstart : (userCallWndprocAddr (namedWindow 0x41 0x42) 0 0 0x60000 1 0 wmCreate 0
      0x40000).isSome = true := by
    unfold userCallWndprocAddr
    rw [if_neg (by decide), callbackHandler_namedWindow]
    rfl
  obtain ⟨start, hsome⟩ := Option.isSome_iff_exists.mp hstart
  have hname : AtomOrString (namedWindow 0x41 0x42)
      (readCreateStruct (namedWindow 0x41 0x42) 0x40000).lpszName := by
    rw [(readCreateStruct_namedWindow _ _).1]
    exact .inr ⟨by decide, 1, by decide, fun i hi => by
      have hzero : i = 0 := by omega
      rw [hzero]
      decide, by decide⟩
  have hclass : AtomOrString (namedWindow 0x41 0x42)
      (readCreateStruct (namedWindow 0x41 0x42) 0x40000).lpszClass := by
    rw [(readCreateStruct_namedWindow _ _).2]
    exact .inl (by decide)
  exact ⟨start, hsome,
    userCallWndprocAddr_decodes_iff hsome (.inr rfl) (by decide) hname hclass⟩

/-- Where an empty name is to be, the stack keeps an old byte. -/
theorem userCallWndprocAddr_emptyName :
    ∃ start, userCallWndprocAddr (namedWindow 0 0x42) 0 0 0x60000 1 0 wmCreate 0 0x40000 =
        some start ∧
      AtomOrString (namedWindow 0 0x42)
        (readCreateStruct (namedWindow 0 0x42) 0x40000).lpszName ∧
      AtomOrString (namedWindow 0 0x42)
        (readCreateStruct (namedWindow 0 0x42) 0x40000).lpszClass ∧
      ¬ Decodes (namedWindow 0 0x42) start.mem 0x40000 start.args.va := by
  have hstart : (userCallWndprocAddr (namedWindow 0 0x42) 0 0 0x60000 1 0 wmCreate 0
      0x40000).isSome = true := by
    unfold userCallWndprocAddr
    rw [if_neg (by decide), callbackHandler_namedWindow]
    rfl
  obtain ⟨start, hsome⟩ := Option.isSome_iff_exists.mp hstart
  have hname : AtomOrString (namedWindow 0 0x42)
      (readCreateStruct (namedWindow 0 0x42) 0x40000).lpszName := by
    rw [(readCreateStruct_namedWindow _ _).1]
    exact .inr ⟨by decide, 0, by decide, fun i hi => absurd hi (Nat.not_lt_zero i), by decide⟩
  have hclass : AtomOrString (namedWindow 0 0x42)
      (readCreateStruct (namedWindow 0 0x42) 0x40000).lpszClass := by
    rw [(readCreateStruct_namedWindow _ _).2]
    exact .inl (by decide)
  refine ⟨start, hsome, hname, hclass, fun hdecodes => ?_⟩
  obtain ⟨hargs, hmem⟩ := userCallWndprocAddr_create hsome (.inr rfl) (by decide)
  have hbytes := (decodes_iff (fun k hk => by
    rw [hmem k (by omega), hargs]
    exact createArguments_words hk) hname hclass).mp hdecodes
  have hat := hbytes 80 (by decide)
  rw [hmem 80 (by decide), hargs] at hat
  revert hat
  decide

end Wbox.User
