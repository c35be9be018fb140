import Wbox.Nt.VfsContainment

/-!
# Where the translation stops

The loop of `vfs_translate_path_ex` (`src/nt/vfs_jail.c:264–335`) ends at the end of the path,
at a NUL, or where a unit finds no room in the buffer. In the last case the source translates the
units before it as if they were the path, and tests the length of what that leaves.
-/

namespace Wbox.Nt

open Wbox.Lib Wbox.Host

/-- The units of a path: those before the first NUL. -/
def pathUnits (units : List UInt16) : List UInt16 := units.takeWhile (· != 0)

/-- The result for units that are read to their end. -/
def translationOf (hostPath : List UInt8) (units : List UInt16) : Except VfsError (List UInt8) :=
  match keepFrom .start (names units) with
  | none => .error .pathEscape
  | some k => buildPath hostPath (trimSlash k.text)

/-- The units behind the last separator. -/
def unfinished (units : List UInt16) : List UInt16 := units.rtakeWhile fun wc => !isSep wc

/-- The units up to the last separator. -/
def finished (units : List UInt16) : List UInt16 := units.rdropWhile fun wc => !isSep wc

/-- The bytes in the buffer once some units are read, if none of their components is rejected. -/
def bytesAfter (units : List UInt16) : Option (List UInt8) :=
  (keepFrom .start (names (finished units))).map fun k => k.text ++ toUtf8 (unfinished units)

/-- The bytes of the units leave no room for the next one. -/
def FullBefore (read : List UInt16) (wc : UInt16) : Prop :=
  ∃ buf, bytesAfter read = some buf ∧
    (vfsMaxPath - 1 ≤ buf.length ∨ 0x7F < wc ∧ vfsMaxPath ≤ buf.length + (utf8 wc).length)

/-- The first unit of the path that finds no room stands behind `read`. -/
def CutAfter (units read : List UInt16) : Prop :=
  (∃ wc rest, pathUnits units = read ++ wc :: rest ∧ FullBefore read wc) ∧
    ∀ before wc after, read = before ++ wc :: after → ¬ FullBefore before wc

/-- A path is accepted only if all its units are read, and it is too long if its translation,
whatever the size of the buffer, does not fit. -/
def NoSilentTruncation (vfs : VfsJail) (winPath : List UInt16) (drive : VfsDrive)
    (units : List UInt16) : Prop :=
  (∀ out, vfsTranslatePathEx vfs winPath = .ok out →
      unitsRead .start units = pathUnits units) ∧
    (translationOf drive.hostPath (pathUnits units) = .error .pathTooLong →
      vfsTranslatePathEx vfs winPath = .error .pathTooLong)

variable {units read more rest : List UInt16} {wc : UInt16} {s : TranslateState} {k : Kept}

section Split

/-- A unit of several bytes is not a separator. -/
theorem isSep_of_wide (h : 0x7F < wc) : isSep wc = false := by
  have hlt := UInt16.lt_iff_toNat_lt.mp h
  unfold isSep
  apply Bool.or_eq_false_iff.mpr
  constructor
  · apply beq_eq_false_iff_ne.mpr
    rintro rfl
    simp [unitBackslash] at hlt
  · apply beq_eq_false_iff_ne.mpr
    rintro rfl
    simp [unitSlash] at hlt

/-- The finished part is empty or ends with a separator. -/
private theorem finished_eq (read : List UInt16) :
    finished read = [] ∨ ∃ before sep, finished read = before ++ [sep] ∧ isSep sep = true := by
  by_cases hnil : finished read = []
  · exact Or.inl hnil
  · right
    refine ⟨(finished read).dropLast, (finished read).getLast hnil, ?_, ?_⟩
    · exact (List.dropLast_concat_getLast hnil).symm
    · have hlast := List.rdropWhile_last_not (fun wc => !isSep wc) read hnil
      rw [Bool.not_eq_true, Bool.not_eq_false'] at hlast
      exact hlast

theorem finished_append_unfinished (read : List UInt16) :
    finished read ++ unfinished read = read :=
  List.rdropWhile_append_rtakeWhile

theorem unfinished_noSep : ∀ wc ∈ unfinished read, isSep wc = false := by
  intro wc hwc
  simpa using List.mem_rtakeWhile_imp hwc

/-- The components of a path, split behind the last separator of what is read. -/
theorem names_append (read more : List UInt16) :
    names (read ++ more) = names (finished read) ++ names (unfinished read ++ more) := by
  have hsplit : read ++ more = finished read ++ (unfinished read ++ more) := by
    rw [← List.append_assoc, finished_append_unfinished]
  rw [hsplit]
  rcases finished_eq read with hnil | ⟨before, sep, heq, hsep⟩
  · rw [hnil]
    rfl
  · have hbefore : components isSep (before ++ [sep]) = components isSep before := by
      rw [components_append_cons hsep, components_nil, List.append_nil]
    unfold names
    rw [heq, hbefore, List.append_assoc, List.singleton_append, components_append_cons hsep,
      List.map_append]

/-- A separator finishes what was unfinished. -/
theorem finished_sep (hsep : isSep wc = true) :
    finished (read ++ [wc]) = read ++ [wc] ∧ unfinished (read ++ [wc]) = [] := by
  unfold finished unfinished
  constructor
  · exact List.rdropWhile_concat_neg _ _ _ (by simp [hsep])
  · exact List.rtakeWhile_concat_neg _ _ _ (by simp [hsep])

/-- The units up to a separator are finished, whatever follows. -/
theorem finished_cons (hsep : isSep wc = true) :
    finished (read ++ wc :: more) = read ++ wc :: finished more := by
  induction more using List.reverseRecOn with
  | nil => exact (finished_sep hsep).1
  | append_singleton more w ih =>
    unfold finished at ih ⊢
    rw [← List.cons_append, ← List.append_assoc]
    by_cases hw : isSep w = true
    · rw [List.rdropWhile_concat_neg _ _ _ (by simp [hw]),
        List.rdropWhile_concat_neg _ _ _ (by simp [hw])]
      simp
    · rw [List.rdropWhile_concat_pos _ _ _ (by simp [hw]),
        List.rdropWhile_concat_pos _ _ _ (by simp [hw])]
      exact ih

/-- Any other unit is added to it. -/
theorem finished_unit (hsep : isSep wc = false) :
    finished (read ++ [wc]) = finished read ∧
      unfinished (read ++ [wc]) = unfinished read ++ [wc] := by
  unfold finished unfinished
  constructor
  · exact List.rdropWhile_concat_pos _ _ _ (by simp [hsep])
  · exact List.rtakeWhile_concat_pos _ _ _ (by simp [hsep])

/-- A separator adds no component. -/
theorem names_sep (hsep : isSep wc = true) : names (read ++ [wc]) = names read := by
  unfold names
  rw [components_append_cons hsep, components_nil, List.append_nil]

end Split

section Loop

/-- What the loop knows of the units it has read. -/
structure Scanned (read : List UInt16) (s : TranslateState) (k : Kept) : Prop where
  kept : keepFrom .start (names (finished read)) = some k
  reads : Reads s k (unfinished read)

theorem Scanned.start : Scanned [] .start .start := ⟨rfl, Reads.start⟩

theorem Scanned.bytesAfter (h : Scanned read s k) : bytesAfter read = some s.buf := by
  unfold Nt.bytesAfter
  rw [h.kept, h.reads.buf]
  rfl

/-- A unit finds no room exactly if the source's tests say so. -/
theorem Scanned.full_iff (h : Scanned read s k) :
    FullBefore read wc ↔ vfsMaxPath - 1 ≤ s.buf.length ∨
      0x7F < wc ∧ vfsMaxPath ≤ s.buf.length + (utf8 wc).length := by
  unfold FullBefore
  rw [h.bytesAfter]
  simp

/-- A separator is rejected exactly if the components up to it are. -/
theorem Scanned.separator (h : Scanned read s k) (hsep : isSep wc = true) :
    (s.separator = .error .pathEscape ∧ keepFrom .start (names (read ++ [wc])) = none) ∨
      ∃ s' k', s.separator = .ok s' ∧ Scanned (read ++ [wc]) s' k' := by
  have hnames : names (read ++ [wc]) = names (finished read) ++ names (unfinished read) := by
    have happ := names_append read []
    rw [List.append_nil, List.append_nil] at happ
    rw [names_sep hsep, happ]
  have hkeep : keepFrom .start (names (read ++ [wc])) = keepFrom k (names (unfinished read)) := by
    rw [hnames, keepFrom_append, h.kept]
    rfl
  obtain ⟨hfin, hunf⟩ := @finished_sep read wc hsep
  rcases h.reads.separator with ⟨herr, hnone⟩ | ⟨s', k', hok, hsome, hreads⟩
  · exact Or.inl ⟨herr, hkeep.trans hnone⟩
  · refine Or.inr ⟨s', k', hok, ?_, ?_⟩
    · rw [hfin]
      exact hkeep.trans hsome
    · rw [hunf]
      exact hreads

/-- Any other unit is written behind the buffer. -/
theorem Scanned.unit (h : Scanned read s k) (hsep : isSep wc = false) :
    Scanned (read ++ [wc])
      { s.beginComponent with buf := s.beginComponent.buf ++ utf8 wc } k := by
  obtain ⟨hfin, hunf⟩ := @finished_unit read wc hsep
  constructor
  · rw [hfin]
    exact h.kept
  · rw [hunf]
    exact h.reads.unit hsep

private theorem beginComponent_buf (s : TranslateState) : s.beginComponent.buf = s.buf := by
  unfold TranslateState.beginComponent
  split
  · rfl
  · rfl

/-- Rejected components stay rejected, whatever follows. -/
private theorem keepFrom_sep (hsep : isSep wc = true)
    (h : keepFrom .start (names (read ++ [wc])) = none) :
    keepFrom .start (names (read ++ wc :: more)) = none := by
  obtain ⟨hfin, -⟩ := @finished_sep read wc hsep
  rw [List.append_cons, names_append, hfin, keepFrom_append, h]
  rfl

private theorem bytesAfter_none (hsep : isSep wc = true)
    (h : keepFrom .start (names (read ++ [wc])) = none) :
    bytesAfter (read ++ wc :: more) = none := by
  unfold bytesAfter
  rw [finished_cons hsep, keepFrom_sep hsep h]
  rfl

/-- A unit of a component that finds room does not end the loop unless it is NUL. -/
private theorem stopsAt_eq (h : Scanned read s k) (hroom : ¬ FullBefore read wc) (hnul : wc ≠ 0) :
    s.beginComponent.stopsAt wc = false := by
  rw [h.full_iff] at hroom
  unfold TranslateState.stopsAt
  rw [beginComponent_buf]
  simp only [hnul, decide_false, Bool.false_or, Bool.and_eq_false_iff, decide_eq_false_iff_not]
  by_cases hwc : 0x7F < wc
  · right
    intro hlong
    exact hroom (Or.inr ⟨hwc, hlong⟩)
  · exact Or.inl hwc

/-- The loop ends before the first unit that finds no room. -/
theorem Scanned.unitsRead_cut (h : Scanned read s k) (hunits : pathUnits units = more ++ wc :: rest)
    (hfull : FullBefore (read ++ more) wc)
    (hroom : ∀ before w after, more = before ++ w :: after → ¬ FullBefore (read ++ before) w) :
    unitsRead s units = more := by
  induction more generalizing units read s k with
  | nil =>
    rw [List.append_nil] at hfull
    cases units with
    | nil => cases hunits
    | cons w units =>
      unfold pathUnits at hunits
      rw [List.takeWhile_cons] at hunits
      split at hunits
      · have hw : w = wc := (List.cons.inj hunits).1
        subst hw
        unfold unitsRead
        rcases h.full_iff.mp hfull with hlong | ⟨hwide, hlong⟩
        · rw [if_neg (by omega)]
        · have hsep : ¬ isSep w = true := by simp [isSep_of_wide hwide]
          have hstop : s.beginComponent.stopsAt w = true := by
            unfold TranslateState.stopsAt
            rw [beginComponent_buf]
            simp [hwide, hlong]
          rw [if_neg hsep]
          simp [hstop]
      · cases hunits
  | cons w more ih =>
    cases units with
    | nil => cases hunits
    | cons w' units =>
      unfold pathUnits at hunits
      rw [List.takeWhile_cons] at hunits
      split at hunits
      · next hnul =>
        obtain ⟨hw, hrest⟩ := List.cons.inj hunits
        subst hw
        have hfree := hroom [] w' more rfl
        rw [List.append_nil] at hfree
        have hshort : s.buf.length < vfsMaxPath - 1 := by
          by_contra hlong
          exact hfree (h.full_iff.mpr (Or.inl (by omega)))
        have hroom' : ∀ before x after, more = before ++ x :: after →
            ¬ FullBefore (read ++ [w'] ++ before) x := by
          intro before x after heq
          have hcons := hroom (w' :: before) x after (by rw [heq]; rfl)
          rwa [List.append_cons] at hcons
        rw [List.append_cons] at hfull
        unfold unitsRead
        rw [if_pos hshort]
        by_cases hsep : isSep w' = true
        · rw [if_pos hsep]
          rcases h.separator hsep with ⟨-, hnone⟩ | ⟨s', k', hok, hscan⟩
          · obtain ⟨buf, hbuf, -⟩ := hfull
            rw [← List.append_cons, bytesAfter_none hsep hnone] at hbuf
            cases hbuf
          · rw [hok]
            exact congrArg (w' :: ·) (ih hscan hrest hfull hroom')
        · have hsep' : isSep w' = false := by simpa using hsep
          have hgo := stopsAt_eq h hfree (by simpa using hnul)
          rw [if_neg hsep]
          simp only [hgo, Bool.false_eq_true, if_false]
          exact congrArg (w' :: ·) (ih (h.unit hsep') hrest hfull hroom')
      · cases hunits

/-- If every unit finds room, the loop reads the path to its end or rejects it. -/
theorem Scanned.unitsRead_all (h : Scanned read s k)
    (hroom : ∀ before w after, pathUnits units = before ++ w :: after →
      ¬ FullBefore (read ++ before) w) :
    unitsRead s units = pathUnits units ∨
      keepFrom .start (names (read ++ unitsRead s units)) = none ∧
        keepFrom .start (names (read ++ pathUnits units)) = none := by
  induction units generalizing read s k with
  | nil => exact Or.inl rfl
  | cons w units ih =>
    by_cases hnul : w = 0
    · subst hnul
      left
      have hstop : s.beginComponent.stopsAt 0 = true := by simp [TranslateState.stopsAt]
      have hsep : ¬ isSep 0 = true := by decide
      unfold unitsRead
      rw [if_neg hsep]
      simp [hstop, pathUnits]
    · have hpath : pathUnits (w :: units) = w :: pathUnits units := by
        simp [pathUnits, hnul]
      rw [hpath] at hroom ⊢
      have hfree := hroom [] w _ rfl
      rw [List.append_nil] at hfree
      have hshort : s.buf.length < vfsMaxPath - 1 := by
        by_contra hlong
        exact hfree (h.full_iff.mpr (Or.inl (by omega)))
      have hroom' : ∀ before x after, pathUnits units = before ++ x :: after →
          ¬ FullBefore (read ++ [w] ++ before) x := by
        intro before x after heq
        have hcons := hroom (w :: before) x after (by rw [heq]; rfl)
        rwa [List.append_cons] at hcons
      unfold unitsRead
      rw [if_pos hshort]
      by_cases hsep : isSep w = true
      · rw [if_pos hsep]
        rcases h.separator hsep with ⟨herr, hnone⟩ | ⟨s', k', hok, hscan⟩
        · right
          rw [herr]
          exact ⟨keepFrom_sep hsep hnone, keepFrom_sep hsep hnone⟩
        · rw [hok]
          dsimp only
          rcases ih hscan hroom' with heq | ⟨hread, hall⟩
          · exact Or.inl (by rw [heq])
          · right
            rw [List.append_cons read w (unitsRead _ units), List.append_cons read w (pathUnits units)]
            exact ⟨hread, hall⟩
      · have hsep' : isSep w = false := by simpa using hsep
        have hgo := stopsAt_eq h hfree hnul
        rw [if_neg hsep]
        simp only [hgo, Bool.false_eq_true, if_false]
        rcases ih (h.unit hsep') hroom' with heq | ⟨hread, hall⟩
        · exact Or.inl (by rw [heq])
        · right
          rw [List.append_cons read w (unitsRead _ units), List.append_cons read w (pathUnits units)]
          exact ⟨hread, hall⟩

end Loop

section Path

variable {vfs : VfsJail} {winPath : List UInt16} {drive : VfsDrive}

/-- A path that is cut is translated as if it ended there. -/
theorem vfsTranslatePathEx_cut (hopen : openDrive vfs winPath = .ok (drive, units))
    (hcut : CutAfter units read) :
    unitsRead .start units = read ∧
      vfsTranslatePathEx vfs winPath = translationOf drive.hostPath read := by
  obtain ⟨⟨wc, rest, hunits, hfull⟩, hroom⟩ := hcut
  have hread : unitsRead .start units = read := Scanned.start.unitsRead_cut hunits hfull hroom
  refine ⟨hread, ?_⟩
  rw [vfsTranslatePathEx_eq hopen, hread]
  rfl

/-- A path whose units all find room is translated as a whole. -/
theorem vfsTranslatePathEx_whole (hopen : openDrive vfs winPath = .ok (drive, units))
    (hroom : ∀ before w after, pathUnits units = before ++ w :: after → ¬ FullBefore before w) :
    vfsTranslatePathEx vfs winPath = translationOf drive.hostPath (pathUnits units) ∧
      ∀ out, vfsTranslatePathEx vfs winPath = .ok out →
        unitsRead .start units = pathUnits units := by
  have hcode := vfsTranslatePathEx_eq hopen
  rcases Scanned.start.unitsRead_all hroom with hread | ⟨hread, hall⟩
  · rw [hread] at hcode
    exact ⟨hcode, fun _ _ => hread⟩
  · rw [List.nil_append] at hread hall
    rw [hread] at hcode
    refine ⟨?_, ?_⟩
    · rw [hcode, translationOf, hall]
    · intro out hout
      rw [hcode] at hout
      cases hout

/-- Among the units that find no room there is a first one. -/
private theorem exists_cut (h : ∃ before w after, units = before ++ w :: after ∧
    FullBefore before w) :
    ∃ read, (∃ wc rest, units = read ++ wc :: rest ∧ FullBefore read wc) ∧
      ∀ before w after, read = before ++ w :: after → ¬ FullBefore before w := by
  obtain ⟨before, w, after, hunits, hfull⟩ := h
  induction hn : before.length using Nat.strong_induction_on generalizing before w after with
  | _ n ih =>
    by_cases hfirst : ∀ b x a, before = b ++ x :: a → ¬ FullBefore b x
    · exact ⟨before, ⟨w, after, hunits, hfull⟩, hfirst⟩
    · push Not at hfirst
      obtain ⟨b, x, a, hb, hfull'⟩ := hfirst
      refine ih b.length ?_ b x (a ++ w :: after) ?_ hfull' rfl
      · rw [← hn, hb, List.length_append, List.length_cons]
        omega
      · rw [hunits, hb]
        simp

/-- A path of a mapped drive is truncated silently exactly if some unit finds no room in the buffer
and the units before the first such one are not too long: they are accepted in place of the path,
or rejected as an escape, by a depth that has wrapped, where the whole path is too long. -/
theorem vfsTranslatePathEx_noTruncation_iff
    (hopen : openDrive vfs winPath = .ok (drive, units)) :
    NoSilentTruncation vfs winPath drive units ↔
      ∀ read, CutAfter units read →
        translationOf drive.hostPath read = .error .pathTooLong ∨
          translationOf drive.hostPath read = .error .pathEscape ∧
            translationOf drive.hostPath (pathUnits units) ≠ .error .pathTooLong := by
  constructor
  · rintro ⟨hall, hlong⟩ read hcut
    obtain ⟨hread, hcode⟩ := vfsTranslatePathEx_cut hopen hcut
    rw [hcode] at hall hlong
    rw [hread] at hall
    have hshort : read ≠ pathUnits units := by
      obtain ⟨⟨wc, rest, hunits, -⟩, -⟩ := hcut
      intro heq
      have hlen := congrArg List.length (heq.trans hunits)
      rw [List.length_append, List.length_cons] at hlen
      omega
    cases hres : translationOf drive.hostPath read with
    | ok out => exact absurd (hall out hres) hshort
    | error e =>
      by_cases he : translationOf drive.hostPath (pathUnits units) = .error .pathTooLong
      · exact Or.inl (hres ▸ hlong he)
      · unfold translationOf at hres
        split at hres
        · exact Or.inr ⟨by rw [← hres], he⟩
        · unfold buildPath at hres
          split at hres
          · exact Or.inl (by rw [← hres])
          · cases hres
  · intro hcuts
    by_cases hroom : ∃ before w after, pathUnits units = before ++ w :: after ∧ FullBefore before w
    · obtain ⟨read, hcut⟩ := exists_cut hroom
      obtain ⟨hread, hcode⟩ := vfsTranslatePathEx_cut hopen hcut
      rw [NoSilentTruncation, hcode]
      rcases hcuts read hcut with hres | ⟨hres, hwhole⟩
      · rw [hres]
        exact ⟨nofun, fun _ => rfl⟩
      · exact ⟨fun out hout => by simp [hres] at hout, fun hlong => absurd hlong hwhole⟩
    · have hroom' : ∀ before w after, pathUnits units = before ++ w :: after →
          ¬ FullBefore before w :=
        fun before w after heq hfull => hroom ⟨before, w, after, heq, hfull⟩
      obtain ⟨hcode, hread⟩ := vfsTranslatePathEx_whole hopen hroom'
      exact ⟨hread, fun hlong => hcode.trans hlong⟩

/-- The path `a`, whose only unit finds room. -/
theorem vfsTranslatePathEx_noTruncation_iff_letter :
    NoSilentTruncation jailC [0x61] (jailC.drives 2) [0x61] := by
  have hopen : openDrive jailC [0x61] = .ok (jailC.drives 2, [0x61]) := by rfl
  refine (vfsTranslatePathEx_noTruncation_iff hopen).mpr ?_
  rintro read ⟨⟨wc, rest, hunits, hfull⟩, -⟩
  have hpath : pathUnits [0x61] = [0x61] := by decide
  rw [hpath] at hunits
  have hread : read = [] := by
    have hlen := congrArg List.length hunits
    simp only [List.length_append, List.length_cons, List.length_nil] at hlen
    exact List.length_eq_zero_iff.mp (by omega)
  subst hread
  have hwc : wc = 0x61 := (List.cons.inj hunits).1.symm
  subst hwc
  have hno := Scanned.start.full_iff.mp hfull
  simp [TranslateState.start, vfsMaxPath] at hno

/-- Letters are read and written one by one while they fit. -/
private theorem unitsRead_letters (n : Nat) (hs : s.lastWasSep = false)
    (hn : s.buf.length + n ≤ vfsMaxPath - 1) :
    unitsRead s (List.replicate n 0x61 ++ rest) = List.replicate n 0x61 ++
      unitsRead { s with buf := s.buf ++ List.replicate n 0x61 } rest := by
  induction n generalizing s with
  | zero => simp
  | succ n ih =>
    have hbegin : s.beginComponent = s := by simp [TranslateState.beginComponent, hs]
    have hstop : s.stopsAt 0x61 = false := by simp [TranslateState.stopsAt]
    have hsep : ¬ isSep 0x61 = true := by decide
    have hbytes : utf8 0x61 = [0x61] := by decide
    have hnext := ih (s := { s with buf := s.buf ++ [0x61] }) hs (by
      rw [List.length_append, List.length_singleton]
      omega)
    rw [List.replicate_succ, List.cons_append, unitsRead, if_pos (by omega), if_neg hsep, hbegin]
    simp only [hstop, Bool.false_eq_true, if_false, hbytes, hnext, List.cons_append,
      List.append_assoc, List.nil_append, List.replicate_succ]

private theorem openDrive_letters (rest : List UInt16) :
    openDrive jailC (0x61 :: 0x61 :: rest) = .ok (jailC.drives 2, 0x61 :: 0x61 :: rest) := by
  have hunit : unitAt (0x61 :: 0x61 :: rest) 0 = 0x61 ∧ unitAt (0x61 :: 0x61 :: rest) 1 = 0x61 :=
    ⟨rfl, rfl⟩
  have hskip : prefixLen (0x61 :: 0x61 :: rest) = 0 := by
    simp [prefixLen, hunit, unitBackslash]
  have hdevice : isDevicePath (0x61 :: 0x61 :: rest) 0 = false := by
    simp [isDevicePath, isDeviceAt, hunit, unitBackslash, isLetter]
  have hunc : isUncPath (0x61 :: 0x61 :: rest) = false := by
    simp [isUncPath, hunit, unitBackslash]
  have hletter : driveLetter (0x61 :: 0x61 :: rest) 0 = (0x43, 0) := by
    simp [driveLetter, hasDriveAt, hunit, unitColon]
  have hindex : driveToIndex 0x43 = some 2 := by decide
  have hinit : jailC.initialized = true := rfl
  have hmapped : (jailC.drives 2).mapped = true := rfl
  unfold openDrive
  rw [hskip, hdevice, hunc, hletter, hinit]
  simp [hindex, hmapped]

/-- Behind 4092 letters the buffer has room for a slash and two dots. -/
private theorem unitsRead_dots {buf : List UInt8} (hlen : buf.length = 4092) :
    unitsRead ⟨buf, 0, 0, false⟩ [0x5C, 0x2E, 0x2E, 0x66, 0x6F, 0x6F] = [0x5C, 0x2E, 0x2E] := by
  have hplain : buf ≠ dotdotName ∧ buf ≠ dotName := by
    constructor
    · rintro rfl
      cases hlen
    · rintro rfl
      cases hlen
  have hclose : TranslateState.separator ⟨buf, 0, 0, false⟩ =
      .ok ⟨buf ++ [slash], (buf ++ [slash]).length, 1, true⟩ := by
    simp [TranslateState.separator, TranslateState.closeComponent, hplain, hlen]
  have hsep : isSep 0x5C = true ∧ isSep 0x2E = false := by decide
  have hbytes : utf8 0x2E = [0x2E] := by decide
  simp [unitsRead, hlen, hclose, hsep, vfsMaxPath, TranslateState.beginComponent,
    TranslateState.stopsAt, hbytes]

/-- `n` letters, a separator and `..foo`. -/
private def lettersPath (n : Nat) : List UInt16 :=
  List.replicate n 0x61 ++ [0x5C, 0x2E, 0x2E, 0x66, 0x6F, 0x6F]

private theorem lettersPath_read (n : Nat) (hn : n + 1 = 4092) :
    unitsRead .start (lettersPath (n + 1)) = List.replicate (n + 1) 0x61 ++ [0x5C, 0x2E, 0x2E] := by
  have hstart : unitsRead .start (lettersPath (n + 1)) =
      0x61 :: unitsRead ⟨[0x61], 0, 0, false⟩ (lettersPath n) := rfl
  have hroom : ([0x61] : List UInt8).length + n ≤ vfsMaxPath - 1 := by
    simp only [List.length_cons, List.length_nil, vfsMaxPath]
    omega
  have hfull : ([0x61] ++ List.replicate n 0x61 : List UInt8).length = 4092 := by
    rw [List.length_append, List.length_replicate, ← hn, Nat.add_comm]
    rfl
  rw [hstart, lettersPath, unitsRead_letters n rfl hroom]
  dsimp only
  rw [unitsRead_dots hfull]
  rfl

private theorem lettersPath_names (n : Nat) :
    names (List.replicate (n + 1) 0x61 ++ [0x5C, 0x2E, 0x2E]) =
      [toUtf8 (List.replicate (n + 1) 0x61), dotdotName] := by
  have hletters : IsComponent isSep (List.replicate (n + 1) 0x61) := by
    refine ⟨nofun, ?_⟩
    intro wc hwc
    rw [List.eq_of_mem_replicate hwc]
    decide
  unfold names
  rw [components_append_cons (by decide), components_singleton hletters]
  rfl

/-- The dots take the letters with them. -/
private theorem lettersPath_kept (n : Nat) :
    keepFrom .start [toUtf8 (List.replicate (n + 1) 0x61), dotdotName] = some .start := by
  have hfirst : toUtf8 (List.replicate (n + 1) 0x61) =
      0x61 :: toUtf8 (List.replicate n 0x61) := by
    rw [List.replicate_succ]
    rfl
  rw [hfirst]
  simp [keepFrom, Kept.add, Kept.dropName, Kept.start, dotName, dotdotName]

private theorem lettersPath_units (n : Nat) : pathUnits (lettersPath n) = lettersPath n := by
  unfold pathUnits
  rw [List.takeWhile_eq_self_iff]
  intro wc hwc
  rcases List.mem_append.mp hwc with hwc | hwc
  · rw [List.eq_of_mem_replicate hwc]
    decide
  · have hall : ([0x5C, 0x2E, 0x2E, 0x66, 0x6F, 0x6F] : List UInt16).all (· != 0) := by decide
    exact List.all_eq_true.mp hall wc hwc

/-- A directory with a name of 4092 letters, and `..foo` in it. The buffer is full behind the
dots, which then take the directory with them. -/
def cutPath : List UInt16 := List.replicate 4092 0x61 ++ [0x5C, 0x2E, 0x2E, 0x66, 0x6F, 0x6F]

theorem cutPath_truncated : openDrive jailC cutPath = .ok (jailC.drives 2, cutPath) ∧
    vfsTranslatePathEx jailC cutPath = .ok [0x2F, 0x6A, 0x2F] ∧
      ¬ NoSilentTruncation jailC cutPath (jailC.drives 2) cutPath := by
  have hopen : openDrive jailC cutPath = .ok (jailC.drives 2, cutPath) := openDrive_letters _
  have hread : unitsRead .start cutPath = List.replicate 4092 0x61 ++ [0x5C, 0x2E, 0x2E] :=
    lettersPath_read 4091 rfl
  have hcode : vfsTranslatePathEx jailC cutPath = .ok [0x2F, 0x6A, 0x2F] := by
    rw [vfsTranslatePathEx_eq hopen, hread, lettersPath_names 4091, lettersPath_kept 4091]
    decide
  refine ⟨hopen, hcode, ?_⟩
  rintro ⟨hall, -⟩
  have hpath : pathUnits cutPath = cutPath := lettersPath_units 4092
  have hlen := congrArg List.length (hread.symm.trans (hall _ hcode))
  rw [hpath, cutPath, List.length_append, List.length_append, List.length_replicate] at hlen
  exact absurd hlen (by decide)

end Path

end Wbox.Nt
