import Wbox.Nt.VfsJail

/-!
# Translation, component by component

What the in-place conversion of `vfs_translate_path_ex` (`src/nt/vfs_jail.c:259–368`) does to
whole components. A "." removes one byte: the slash behind the last component, or, if that is
gone already, the last byte of the component itself.
-/

namespace Wbox.Nt

open Wbox.Lib Wbox.Host

/-- The text kept from the components read so far: the complete ones, the last first, and what
a "." has left of the component after them. -/
structure Kept where
  closed : List Name
  tail : Name
  depth : Int32
  deriving DecidableEq, Repr

/-- Nothing kept yet. -/
def Kept.start : Kept := ⟨[], [], 0⟩

/-- The bytes in the buffer. -/
def Kept.text (k : Kept) : List UInt8 := closedText slash k.closed.reverse ++ k.tail

/-- Remove the last byte, as "." does. -/
def Kept.dropByte (k : Kept) : Kept :=
  if k.tail = [] then
    match k.closed with
    | [] => k
    | c :: below => { k with closed := below, tail := c }
  else { k with tail := k.tail.dropLast }

/-- Remove the last component or what is left of it, as ".." does. -/
def Kept.dropName (k : Kept) : Kept :=
  if k.tail = [] then { k with closed := k.closed.tail } else { k with tail := [] }

/-- The next component. An ordinary one continues what a "." has left. -/
def Kept.add (k : Kept) (c : Name) : Option Kept :=
  if c = dotdotName then
    if k.depth - 1 < 0 then none else some { k.dropName with depth := k.depth - 1 }
  else if c = dotName then some k.dropByte
  else some { closed := (k.tail ++ c) :: k.closed, tail := [], depth := k.depth + 1 }

/-- The components of a path, one after the other. -/
def keepFrom (k : Kept) (cs : List Name) : Option Kept := cs.foldlM Kept.add k

/-- Components without slashes, none of them "." or "..". -/
structure Kept.Ok (k : Kept) : Prop where
  parts : ∀ c ∈ k.closed, IsComponent isSlash c
  dots : ∀ c ∈ k.closed, c ≠ dotName ∧ c ≠ dotdotName
  tail : ∀ b ∈ k.tail, isSlash b = false

variable {k k' : Kept} {c : Name}

theorem Kept.start_ok : Kept.start.Ok where
  parts := nofun
  dots := nofun
  tail := nofun

theorem keepFrom_append (k : Kept) (cs ds : List Name) :
    keepFrom k (cs ++ ds) = (keepFrom k cs).bind fun k' => keepFrom k' ds := by
  rw [keepFrom, List.foldlM_append]
  rfl

/-- An ordinary component behind a rest is not "." or "..", and neither is the sum. -/
private theorem append_ne_dots {tail : Name} (hne : c ≠ []) (hd : c ≠ dotName)
    (hdd : c ≠ dotdotName) : tail ++ c ≠ dotName ∧ tail ++ c ≠ dotdotName := by
  match tail, c with
  | [], c => exact ⟨hd, hdd⟩
  | [a], [x] =>
    refine ⟨by simp [dotName], ?_⟩
    intro h
    have hx : x = 0x2E := by simpa [dotdotName] using congrArg List.getLast? h
    exact hd (by rw [hx]; rfl)
  | a :: rest, c =>
    cases c with
    | nil => exact absurd rfl hne
    | cons x xs =>
      constructor
      · intro h
        have hlen := congrArg List.length h
        simp [dotName] at hlen
      · intro h
        have hlen := congrArg List.length h
        simp only [List.length_append, List.length_cons, dotdotName, List.length_nil] at hlen
        have hr : rest = [] := List.length_eq_zero_iff.mp (by omega)
        have hxs : xs = [] := List.length_eq_zero_iff.mp (by omega)
        subst hr hxs
        have hx : x = 0x2E := by simpa [dotdotName] using congrArg List.getLast? h
        exact hd (by rw [hx]; rfl)

/-- A component keeps what is known of the text. -/
theorem Kept.Ok.add (hk : k.Ok) (hc : IsComponent isSlash c) (h : k.add c = some k') : k'.Ok := by
  unfold Kept.add at h
  split at h
  · split at h
    · cases h
    · rw [← Option.some.inj h]
      unfold Kept.dropName
      split
      · exact ⟨fun c hc => hk.parts c (List.mem_of_mem_tail hc),
          fun c hc => hk.dots c (List.mem_of_mem_tail hc), hk.tail⟩
      · exact ⟨hk.parts, hk.dots, nofun⟩
  · next hdd =>
    split at h
    · rw [← Option.some.inj h]
      unfold Kept.dropByte
      split
      · split
        · exact hk
        · next c below heq =>
          have hmem : c ∈ k.closed := by simp [heq]
          have hsub : ∀ d ∈ below, d ∈ k.closed := by simp +contextual [heq]
          exact ⟨fun d hd => hk.parts d (hsub d hd), fun d hd => hk.dots d (hsub d hd),
            (hk.parts c hmem).2⟩
      · exact ⟨hk.parts, hk.dots, fun b hb => hk.tail b (List.dropLast_subset k.tail hb)⟩
    · next hd =>
      rw [← Option.some.inj h]
      refine ⟨?_, ?_, nofun⟩
      · intro d hmem
        rcases List.mem_cons.mp hmem with rfl | hmem
        · refine ⟨by simp [hc.1], ?_⟩
          intro b hb
          rcases List.mem_append.mp hb with hb | hb
          · exact hk.tail b hb
          · exact hc.2 b hb
        · exact hk.parts d hmem
      · intro d hmem
        rcases List.mem_cons.mp hmem with rfl | hmem
        · exact append_ne_dots hc.1 hd hdd
        · exact hk.dots d hmem

/-- A run of components keeps it. -/
theorem Kept.Ok.keepFrom {cs : List Name} (hk : k.Ok) (hcs : ∀ c ∈ cs, IsComponent isSlash c)
    (h : keepFrom k cs = some k') : k'.Ok := by
  induction cs generalizing k with
  | nil => exact Option.some.inj h ▸ hk
  | cons c cs ih =>
    rw [Nt.keepFrom, List.foldlM_cons] at h
    obtain ⟨k₁, hadd, hrest⟩ := Option.bind_eq_some_iff.mp h
    exact ih (hk.add (hcs c List.mem_cons_self) hadd)
      (fun d hd => hcs d (List.mem_cons_of_mem c hd)) hrest

/-- Closed text ends with a slash, where stripping a name stops. -/
private theorem rdropWhile_closedText (cs : List Name) :
    (closedText slash cs).rdropWhile (fun b => b != slash) = closedText slash cs := by
  rcases List.eq_nil_or_concat cs with rfl | ⟨ds, d, rfl⟩
  · rfl
  · rw [List.concat_eq_append, closedText_concat, ← List.append_assoc,
      List.rdropWhile_concat_neg _ _ _ (by simp)]

private theorem ne_slash_of_isSlash {b : UInt8} (h : isSlash b = false) : (b != slash) = true := by
  simpa [isSlash] using h

/-- Removing a name is removing the bytes back to the slash before it. -/
theorem Kept.Ok.text_dropName (hk : k.Ok) : k.dropName.text = removePrevious k.text := by
  unfold removePrevious Kept.dropName
  by_cases ht : k.tail = []
  · cases hcl : k.closed with
    | nil => simp [ht, Kept.text, hcl, closedText]
    | cons c below =>
      have hc := hk.parts c (by simp [hcl])
      have hnoslash : ∀ b ∈ c, (b != slash) = true := fun b hb => ne_slash_of_isSlash (hc.2 b hb)
      simp only [ht, if_true, Kept.text, hcl, List.tail_cons, List.append_nil, List.reverse_cons,
        closedText_concat]
      rw [← List.append_assoc, List.dropLast_concat, rdropWhile_append_of_all hnoslash,
        rdropWhile_closedText]
  · have hnoslash : ∀ b ∈ k.tail.dropLast, (b != slash) = true :=
      fun b hb => ne_slash_of_isSlash (hk.tail b (List.dropLast_subset _ hb))
    simp only [ht, if_false, Kept.text, List.append_nil]
    rw [List.dropLast_append_of_ne_nil ht, rdropWhile_append_of_all hnoslash,
      rdropWhile_closedText]

/-- Removing a byte. -/
theorem Kept.text_dropByte (k : Kept) : k.dropByte.text = k.text.dropLast := by
  unfold Kept.dropByte
  by_cases ht : k.tail = []
  · cases hcl : k.closed with
    | nil => simp [ht, Kept.text, hcl, closedText]
    | cons c below =>
      simp only [ht, if_true, Kept.text, hcl, List.append_nil, List.reverse_cons,
        closedText_concat]
      rw [← List.append_assoc, List.dropLast_concat]
  · simp only [ht, if_false, Kept.text]
    rw [List.dropLast_append_of_ne_nil ht]

/-- The bytes of a run of units. -/
def toUtf8 (units : List UInt16) : List UInt8 := units.flatMap utf8

theorem utf8_ne_nil (wc : UInt16) : utf8 wc ≠ [] := by
  unfold utf8
  split
  · simp
  · split
    · simp
    · simp

-- The bytes of a multi-byte character have their high bit set.
private theorem high_ne_slash {high : UInt8} (hh : 0x80 ≤ high.toNat) (x : UInt8) :
    isSlash (high ||| x) = false := by
  have hle : high.toNat ≤ (high ||| x).toNat := by
    rw [UInt8.toNat_or]
    exact Nat.left_le_or
  unfold isSlash
  apply beq_eq_false_iff_ne.mpr
  intro h
  rw [h] at hle
  simp only [slash, UInt8.reduceToNat] at hle
  omega

/-- Only separators become a slash. -/
theorem utf8_noSlash {wc : UInt16} (h : isSep wc = false) : ∀ b ∈ utf8 wc, isSlash b = false := by
  intro b hb
  unfold utf8 at hb
  split at hb
  · next hle =>
    have hbw : b = wc.toUInt8 := by simpa using hb
    subst hbw
    unfold isSlash
    apply beq_eq_false_iff_ne.mpr
    intro hs
    have hnat := congrArg UInt8.toNat hs
    have hlt := UInt16.le_iff_toNat_le.mp hle
    simp only [UInt16.toNat_toUInt8, slash, UInt8.reduceToNat, UInt16.reduceToNat] at hnat hlt
    have hwc : wc = unitSlash := UInt16.toNat_inj.mp (by
      simp only [unitSlash, UInt16.reduceToNat]
      omega)
    simp [isSep, hwc] at h
  · split at hb
    · rcases List.mem_cons.mp hb with rfl | hb
      · exact high_ne_slash (by decide) _
      · rcases List.mem_cons.mp hb with rfl | hb
        · exact high_ne_slash (by decide) _
        · cases hb
    · rcases List.mem_cons.mp hb with rfl | hb
      · exact high_ne_slash (by decide) _
      · rcases List.mem_cons.mp hb with rfl | hb
        · exact high_ne_slash (by decide) _
        · rcases List.mem_cons.mp hb with rfl | hb
          · exact high_ne_slash (by decide) _
          · cases hb

/-- The bytes of a component are a component. -/
theorem toUtf8_component {c : List UInt16} (h : IsComponent isSep c) :
    IsComponent isSlash (toUtf8 c) := by
  constructor
  · cases c with
    | nil => exact absurd rfl h.1
    | cons wc rest => simp [toUtf8, utf8_ne_nil wc]
  · intro b hb
    obtain ⟨wc, hwc, hb⟩ := List.mem_flatMap.mp hb
    exact utf8_noSlash (h.2 wc hwc) b hb

theorem toUtf8_append (xs ys : List UInt16) : toUtf8 (xs ++ ys) = toUtf8 xs ++ toUtf8 ys :=
  List.flatMap_append

/-- How the loop's variables stand to the text kept and the units of the unfinished component. -/
structure Reads (s : TranslateState) (k : Kept) (part : List UInt16) : Prop where
  ok : k.Ok
  noSep : ∀ wc ∈ part, isSep wc = false
  buf : s.buf = k.text ++ toUtf8 part
  depth : s.depth = k.depth
  inside : part ≠ [] → s.lastWasSep = false ∧ s.componentStart = k.text.length
  between : part = [] → s.lastWasSep = true ∨ s.componentStart = k.text.length

theorem Reads.start : Reads .start .start [] where
  ok := Kept.start_ok
  noSep := nofun
  buf := rfl
  depth := rfl
  inside := absurd rfl
  between := fun _ => Or.inl rfl

variable {s s' : TranslateState} {part : List UInt16}

/-- A non-empty unfinished component is one the source looks at. -/
private theorem Reads.unfinished (h : Reads s k part) :
    (s.lastWasSep = false ∧ s.componentStart < s.buf.length) ↔ part ≠ [] := by
  constructor
  · rintro ⟨hsep, hlt⟩ rfl
    have hlen : s.buf.length = k.text.length := by rw [h.buf]; simp [toUtf8]
    rcases h.between rfl with hs | hs
    · simp [hs] at hsep
    · omega
  · intro hne
    obtain ⟨hsep, hstart⟩ := h.inside hne
    have hpart : toUtf8 part ≠ [] := (toUtf8_component ⟨hne, h.noSep⟩).1
    have hpos := List.length_pos_iff.mpr hpart
    refine ⟨hsep, ?_⟩
    rw [h.buf, hstart, List.length_append]
    omega

/-- The bytes before and in the unfinished component. -/
private theorem Reads.split (h : Reads s k part) (hne : part ≠ []) :
    s.buf.take s.componentStart = k.text ∧ s.buf.drop s.componentStart = toUtf8 part := by
  rw [h.buf, (h.inside hne).2]
  exact ⟨List.take_left, List.drop_left⟩

/-- Closing a component adds it to the text. -/
theorem Reads.closeComponent (h : Reads s k part) (hne : part ≠ []) :
    (s.closeComponent = .error .pathEscape ∧ k.add (toUtf8 part) = none) ∨
      ∃ s' k', s.closeComponent = .ok s' ∧ k.add (toUtf8 part) = some k' ∧
        s'.buf = k'.text ∧ s'.depth = k'.depth := by
  obtain ⟨htake, hdrop⟩ := h.split hne
  unfold TranslateState.closeComponent Kept.add
  rw [hdrop, htake, h.depth]
  by_cases hdd : toUtf8 part = dotdotName
  · simp only [hdd, if_true]
    by_cases hneg : k.depth - 1 < 0
    · exact Or.inl ⟨if_pos hneg, if_pos hneg⟩
    · refine Or.inr ⟨_, _, if_neg hneg, if_neg hneg, h.ok.text_dropName.symm, rfl⟩
  · by_cases hd : toUtf8 part = dotName
    · rw [if_neg hdd, if_neg hdd, if_pos hd, if_pos hd]
      refine Or.inr ⟨_, _, rfl, rfl, k.text_dropByte.symm, ?_⟩
      unfold Kept.dropByte
      split
      · split
        · rfl
        · rfl
      · rfl
    · simp only [hdd, hd, if_false]
      refine Or.inr ⟨_, _, rfl, rfl, ?_, rfl⟩
      simp only [Kept.text, h.buf, List.reverse_cons, closedText_concat, List.append_nil,
        List.append_assoc]

/-- The components among the units, as bytes. -/
def names (units : List UInt16) : List Name := (components isSep units).map toUtf8

/-- The names of the unfinished component. -/
private theorem Reads.names_part (h : Reads s k part) :
    names part = if part = [] then [] else [toUtf8 part] := by
  unfold names
  rw [components_of_noSep h.noSep]
  split
  · rfl
  · rfl

private theorem keepFrom_singleton (k : Kept) (c : Name) : keepFrom k [c] = k.add c := by
  simp [keepFrom]

/-- A separator adds the unfinished component, if there is one. -/
theorem Reads.separator (h : Reads s k part) :
    (s.separator = .error .pathEscape ∧ keepFrom k (names part) = none) ∨
      ∃ s' k', s.separator = .ok s' ∧ keepFrom k (names part) = some k' ∧ Reads s' k' [] := by
  rw [h.names_part]
  unfold TranslateState.separator
  by_cases hne : part = []
  · have hno : ¬ (s.lastWasSep = false ∧ s.componentStart < s.buf.length) :=
      fun hun => h.unfinished.mp hun hne
    rw [if_neg hno, if_pos hne]
    refine Or.inr ⟨_, k, rfl, rfl, ?_⟩
    exact
      { ok := h.ok
        noSep := nofun
        buf := by simp [h.buf, hne, toUtf8]
        depth := h.depth
        inside := absurd rfl
        between := fun _ => Or.inl rfl }
  · rw [if_pos (h.unfinished.mpr hne), if_neg hne, keepFrom_singleton]
    rcases h.closeComponent hne with ⟨herr, hadd⟩ | ⟨s₁, k', hok, hadd, hbuf, hdepth⟩
    · rw [herr]
      exact Or.inl ⟨rfl, hadd⟩
    · rw [hok]
      refine Or.inr ⟨_, k', rfl, hadd, ?_⟩
      exact
        { ok := h.ok.add (toUtf8_component ⟨hne, h.noSep⟩) hadd
          noSep := nofun
          buf := by simp [hbuf, toUtf8]
          depth := hdepth
          inside := absurd rfl
          between := fun _ => Or.inl rfl }

/-- A unit of a component is added to the unfinished one. -/
theorem Reads.unit (h : Reads s k part) {wc : UInt16} (hsep : isSep wc = false) :
    Reads { s.beginComponent with buf := s.beginComponent.buf ++ utf8 wc } k (part ++ [wc]) := by
  have hbegin : s.beginComponent.buf = s.buf ∧ s.beginComponent.depth = s.depth := by
    unfold TranslateState.beginComponent
    split
    · exact ⟨rfl, rfl⟩
    · exact ⟨rfl, rfl⟩
  have hin : s.beginComponent.lastWasSep = false ∧
      s.beginComponent.componentStart = k.text.length := by
    unfold TranslateState.beginComponent
    by_cases hne : part = []
    · have hlen : s.buf.length = k.text.length := by simp [h.buf, hne, toUtf8]
      split
      · exact ⟨rfl, hlen⟩
      · next hs =>
        have hsep : s.lastWasSep = false := by simpa using hs
        rcases h.between hne with hb | hb
        · simp [hb] at hs
        · exact ⟨hsep, hb⟩
    · obtain ⟨hs, hstart⟩ := h.inside hne
      rw [if_neg (by simp [hs])]
      exact ⟨hs, hstart⟩
  exact
    { ok := h.ok
      noSep := by
        intro x hx
        rcases List.mem_append.mp hx with hx | hx
        · exact h.noSep x hx
        · exact List.mem_singleton.mp hx ▸ hsep
      buf := by
        rw [toUtf8_append, ← List.append_assoc, ← h.buf, hbegin.1]
        simp [toUtf8]
      depth := hbegin.2.trans h.depth
      inside := fun _ => hin
      between := fun hnil => absurd hnil (by simp) }

/-- Beginning a component that stays empty changes nothing. -/
theorem Reads.beginComponent (h : Reads s k part) : Reads s.beginComponent k part := by
  unfold TranslateState.beginComponent
  split
  · next hs =>
    have hne : part = [] := by
      by_contra hne
      simp [(h.inside hne).1] at hs
    subst hne
    exact
      { ok := h.ok
        noSep := nofun
        buf := h.buf
        depth := h.depth
        inside := absurd rfl
        between := fun _ => Or.inr (by simp [h.buf, toUtf8]) }
  · exact h

/-- What the loop has done when it ends: all components but the unfinished one are added. -/
theorem translateLoop_reads (units : List UInt16) (h : Reads s k part) :
    ∃ read rest,
      (∀ more, components isSep (part ++ unitsRead s units ++ more) =
        read ++ components isSep (rest ++ more)) ∧
      ((translateLoop s units = .error .pathEscape ∧ unitsRead s units = units ∧
          keepFrom k (read.map toUtf8) = none) ∨
        ∃ s' k', translateLoop s units = .ok s' ∧ keepFrom k (read.map toUtf8) = some k' ∧
          Reads s' k' rest) := by
  induction units generalizing s k part with
  | nil => exact ⟨[], part, by simp [unitsRead], Or.inr ⟨s, k, rfl, rfl, h⟩⟩
  | cons wc units ih =>
    by_cases hfull : s.buf.length < vfsMaxPath - 1
    · by_cases hsep : isSep wc = true
      · rcases h.separator with ⟨herr, hnone⟩ | ⟨s₁, k₁, hok, hsome, hreads⟩
        · have hread : unitsRead s (wc :: units) = wc :: units := by
            simp only [unitsRead, hfull, hsep, herr, if_true]
          refine ⟨components isSep part, units, ?_, Or.inl ⟨?_, hread, hnone⟩⟩
          · intro more
            rw [hread, List.append_assoc]
            exact components_append_cons hsep
          · simp only [translateLoop, hfull, hsep, herr, if_true]
        · obtain ⟨read, rest, hcomps, hrun⟩ := ih hreads
          have hread : unitsRead s (wc :: units) = wc :: unitsRead s₁ units := by
            simp only [unitsRead, hfull, hsep, hok, if_true]
          refine ⟨components isSep part ++ read, rest, ?_, ?_⟩
          · intro more
            rw [hread, List.append_assoc, List.cons_append, components_append_cons hsep,
              List.append_assoc, ← hcomps, List.nil_append]
          · simp only [translateLoop, hfull, hsep, hok, if_true]
            rw [List.map_append, keepFrom_append]
            have hpart : keepFrom k ((components isSep part).map toUtf8) = some k₁ := hsome
            rw [hpart, hread]
            simpa using hrun
      · have hsep' : isSep wc = false := by simpa using hsep
        by_cases hstop : s.beginComponent.stopsAt wc = true
        · refine ⟨[], part, ?_, Or.inr ⟨s.beginComponent, k, ?_, rfl, h.beginComponent⟩⟩
          · simp [unitsRead, hfull, hsep', hstop]
          · simp [translateLoop, hfull, hsep', hstop]
        · have hstop' : s.beginComponent.stopsAt wc = false := by simpa using hstop
          obtain ⟨read, rest, hcomps, hrun⟩ := ih (h.unit hsep')
          have hread : unitsRead s (wc :: units) = wc :: unitsRead
              { s.beginComponent with buf := s.beginComponent.buf ++ utf8 wc } units := by
            simp only [unitsRead, hfull, hsep', hstop', if_true, Bool.false_eq_true, if_false]
          refine ⟨read, rest, ?_, ?_⟩
          · intro more
            rw [hread, ← hcomps]
            simp
          · simp only [translateLoop, hfull, hsep', hstop', if_true, Bool.false_eq_true, if_false]
            rw [hread]
            simpa using hrun
    · refine ⟨[], part, ?_, Or.inr ⟨s, k, ?_, rfl, h⟩⟩
      · simp [unitsRead, hfull]
      · simp [translateLoop, hfull]

/-- A text that does not end with a slash is not trimmed. -/
theorem trimSlash_append {text c : List UInt8} (hc : IsComponent isSlash c) :
    trimSlash (text ++ c) = text ++ c := by
  unfold trimSlash
  apply if_neg
  rintro ⟨-, hlast⟩
  rw [List.getLast?_append_of_ne_nil _ hc.1] at hlast
  have hmem := List.mem_of_getLast? hlast
  exact absurd (hc.2 slash hmem) (by decide)

/-- The slash behind a component is trimmed. -/
theorem trimSlash_closed {text c : List UInt8} (hc : c ≠ []) :
    trimSlash (text ++ (c ++ [slash])) = text ++ c := by
  have hpos := List.length_pos_iff.mpr hc
  unfold trimSlash
  rw [← List.append_assoc, if_pos ⟨by simp only [List.length_append, List.length_singleton]; omega,
    by simp⟩, List.dropLast_concat]

/-- The final component is treated like the others, up to the slash that is trimmed. -/
theorem Reads.lastComponent (h : Reads s k part) :
    (s.lastComponent = .error .pathEscape ∧ keepFrom k (names part) = none) ∨
      ∃ buf k', s.lastComponent = .ok buf ∧ keepFrom k (names part) = some k' ∧
        trimSlash buf = trimSlash k'.text := by
  rw [h.names_part]
  unfold TranslateState.lastComponent
  by_cases hne : part = []
  · have hno : ¬ (s.lastWasSep = false ∧ s.componentStart < s.buf.length) :=
      fun hun => h.unfinished.mp hun hne
    rw [if_neg hno, if_pos hne]
    exact Or.inr ⟨_, k, rfl, rfl, by simp [h.buf, hne, toUtf8]⟩
  · obtain ⟨htake, hdrop⟩ := h.split hne
    rw [if_pos (h.unfinished.mpr hne), if_neg hne, keepFrom_singleton, htake, hdrop, h.depth]
    unfold Kept.add
    by_cases hdd : toUtf8 part = dotdotName
    · rw [if_pos hdd, if_pos hdd]
      by_cases hneg : k.depth - 1 < 0
      · exact Or.inl ⟨if_pos hneg, if_pos hneg⟩
      · refine Or.inr ⟨_, _, if_neg hneg, if_neg hneg, ?_⟩
        exact congrArg trimSlash h.ok.text_dropName.symm
    · rw [if_neg hdd, if_neg hdd]
      by_cases hd : toUtf8 part = dotName
      · rw [if_pos hd, if_pos hd]
        exact Or.inr ⟨_, _, rfl, rfl, congrArg trimSlash k.text_dropByte.symm⟩
      · rw [if_neg hd, if_neg hd]
        have hcomp := toUtf8_component ⟨hne, h.noSep⟩
        refine Or.inr ⟨_, _, rfl, rfl, ?_⟩
        simp only [Kept.text, List.reverse_cons, closedText_concat, List.append_nil]
        rw [trimSlash_closed (by simp [hcomp.1]), h.buf, trimSlash_append hcomp, Kept.text,
          List.append_assoc]

/-- The translation below the drive root, component by component. -/
theorem translateRest_eq (units : List UInt16) :
    translateRest units =
      match keepFrom .start (names (unitsRead .start units)) with
      | none => .error .pathEscape
      | some k => .ok (trimSlash k.text) := by
  obtain ⟨read, rest, hcomps, hrun⟩ := translateLoop_reads units Reads.start
  have hnames : names (unitsRead .start units) = read.map toUtf8 ++ names rest := by
    have hread := hcomps []
    simp only [List.nil_append, List.append_nil] at hread
    rw [names, hread, List.map_append]
    rfl
  rw [hnames, keepFrom_append]
  unfold translateRest
  rcases hrun with ⟨herr, -, hnone⟩ | ⟨s, k, hok, hsome, hreads⟩
  · rw [herr, hnone]
    rfl
  · rw [hok, hsome]
    rcases hreads.lastComponent with ⟨herr, hnone⟩ | ⟨buf, k', hlast, hkept, htrim⟩
    · simp only [Option.bind_some, hnone]
      simp [bind, Except.bind, herr]
    · simp only [Option.bind_some, hkept, ← htrim]
      simp [bind, Except.bind, hlast, pure, Except.pure]

/-- The components among some units. -/
theorem names_component {units : List UInt16} : ∀ c ∈ names units, IsComponent isSlash c := by
  intro c hc
  obtain ⟨part, hpart, rfl⟩ := List.mem_map.mp hc
  exact toUtf8_component (components_isComponent hpart)

/-- The text of the components is well formed. -/
theorem keepFrom_names_ok {units : List UInt16} (h : keepFrom .start (names units) = some k) :
    k.Ok :=
  Kept.start_ok.keepFrom names_component h

end Wbox.Nt
