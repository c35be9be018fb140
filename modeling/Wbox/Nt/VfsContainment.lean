import Wbox.Nt.VfsComponents

/-!
# Containment of translated paths

Whether the text that `vfs_translate_path_ex` (`src/nt/vfs_jail.c:195–378`) puts behind a drive
root stays below it. No component that is followed by another can read ".."; the last one can,
once the "." components at the end of the path have eaten the rest of it.
-/

namespace Wbox.Nt

open Wbox.Lib Wbox.Host

/-- A translated path has no ".." and never leaves the drive root when resolved. -/
def StaysInDrive (vfs : VfsJail) (winPath : List UInt16) : Prop :=
  ∀ drive units text, openDrive vfs winPath = .ok (drive, units) →
    vfsTranslatePathEx vfs winPath = .ok (drive.hostPath ++ slash :: text) →
      dotdotName ∉ components isSlash text ∧
        resolve dotName dotdotName (components isSlash text) ≠ none

/-- As far as it is read, the path ends with "." components, and the text kept before them ends
with a component that is ".." and one byte less than there are dots. -/
def DotsLeaveParent (units : List UInt16) (hostPath : List UInt8) : Prop :=
  ∃ (before : List Name) (rest : Name) (below : List Name) (depth : Int32),
    names (unitsRead .start units) = before ++ List.replicate (rest.length + 1) dotName ∧
      keepFrom .start before = some ⟨(dotdotName ++ rest) :: below, [], depth⟩ ∧
      (hostPath ++ slash :: (closedText slash below.reverse ++ dotdotName)).length < vfsMaxPath

variable {k : Kept} {cs below : List Name} {c rest : Name}

/-- The components of the trimmed text. -/
theorem Kept.Ok.components_text (hk : k.Ok) :
    components isSlash (trimSlash k.text) =
      k.closed.reverse ++ if k.tail = [] then [] else [k.tail] := by
  have hparts : ∀ c ∈ k.closed.reverse, IsComponent isSlash c :=
    fun c hc => hk.parts c (List.mem_reverse.mp hc)
  by_cases ht : k.tail = []
  · rw [if_pos ht, Kept.text, ht, List.append_nil, List.append_nil]
    cases hcl : k.closed with
    | nil => rfl
    | cons c below =>
      have hc := hk.parts c (by simp [hcl])
      have hbelow : ∀ d ∈ below.reverse, IsComponent isSlash d :=
        fun d hd => hk.parts d (by simp [hcl, List.mem_reverse.mp hd])
      rw [List.reverse_cons, closedText_concat, trimSlash_closed hc.1,
        components_closedText (by decide) hbelow, components_singleton hc]
  · have htail : IsComponent isSlash k.tail := ⟨ht, hk.tail⟩
    rw [if_neg ht, Kept.text, trimSlash_append htail, components_closedText (by decide) hparts,
      components_singleton htail]

/-- Only what a "." has left can be "..". -/
theorem Kept.Ok.dotdot_mem (hk : k.Ok) :
    dotdotName ∈ components isSlash (trimSlash k.text) ↔ k.tail = dotdotName := by
  rw [hk.components_text]
  constructor
  · intro hmem
    rcases List.mem_append.mp hmem with hmem | hmem
    · exact absurd rfl (hk.dots dotdotName (List.mem_reverse.mp hmem)).2
    · split at hmem
      · cases hmem
      · exact (List.mem_singleton.mp hmem).symm
  · intro ht
    rw [ht]
    simp [dotdotName]

/-- Every "." after a component takes a byte from its end. -/
theorem keepFrom_dots (depth : Int32) (hc : c ≠ []) :
    keepFrom ⟨(c ++ rest) :: below, [], depth⟩ (List.replicate (rest.length + 1) dotName) =
      some ⟨below, c, depth⟩ := by
  have hslash : Kept.add ⟨(c ++ rest) :: below, [], depth⟩ dotName =
      some ⟨below, c ++ rest, depth⟩ := rfl
  rw [List.replicate_succ, keepFrom, List.foldlM_cons, hslash]
  clear hslash
  induction hn : rest.length generalizing rest with
  | zero => simp [List.length_eq_zero_iff.mp hn]
  | succ n ih =>
    have hrest : rest ≠ [] := by
      intro h
      simp [h] at hn
    have hlen : rest.dropLast.length = n := by rw [List.length_dropLast, hn]; rfl
    have hstep : Kept.add ⟨below, c ++ rest, depth⟩ dotName =
        some ⟨below, c ++ rest.dropLast, depth⟩ := by
      simp only [Kept.add, dotName, dotdotName, Kept.dropByte, List.append_eq_nil_iff, hc,
        false_and, if_false, List.dropLast_append_of_ne_nil hrest, List.cons.injEq, reduceCtorEq,
        and_false, if_true]
    have hrec := ih hlen
    simp only [Option.bind_eq_bind, Option.bind_some] at hrec ⊢
    rw [List.replicate_succ, List.foldlM_cons, hstep]
    exact hrec

/-- What is left of a component was left by the "." components at the end. -/
theorem keepFrom_tail (h : keepFrom .start cs = some k) (ht : k.tail ≠ []) :
    ∃ before rest, cs = before ++ List.replicate (rest.length + 1) dotName ∧
      keepFrom .start before = some ⟨(k.tail ++ rest) :: k.closed, [], k.depth⟩ := by
  induction cs using List.reverseRecOn generalizing k with
  | nil =>
    rw [← Option.some.inj h] at ht
    exact absurd rfl ht
  | append_singleton cs c ih =>
    rw [keepFrom_append] at h
    obtain ⟨k₁, hcs, hlast⟩ := Option.bind_eq_some_iff.mp h
    have hadd : k₁.add c = some k := by simpa [keepFrom] using hlast
    unfold Kept.add at hadd
    split at hadd
    · split at hadd
      · cases hadd
      · rw [← Option.some.inj hadd] at ht
        unfold Kept.dropName at ht
        split at ht
        · next hnil => exact absurd hnil ht
        · exact absurd rfl ht
    · split at hadd
      · next hdot =>
        rw [← Option.some.inj hadd] at ht ⊢
        unfold Kept.dropByte at ht ⊢
        split
        · next hnil =>
          cases hcl : k₁.closed with
          | nil => simp [hnil, hcl] at ht
          | cons d below =>
            have hk₁ : k₁ = ⟨d :: below, [], k₁.depth⟩ := by rw [← hcl, ← hnil]
            refine ⟨cs, [], by simp [hdot], ?_⟩
            rw [hcs, List.append_nil]
            exact congrArg some hk₁
        · next hnil =>
          obtain ⟨before, rest, hbefore, hkeep⟩ := ih hcs hnil
          have hsplit : k₁.tail.dropLast ++ k₁.tail.getLast hnil :: rest = k₁.tail ++ rest := by
            rw [List.append_cons, List.dropLast_concat_getLast hnil]
          refine ⟨before, k₁.tail.getLast hnil :: rest, ?_, ?_⟩
          · rw [hbefore, hdot, List.append_assoc, ← List.replicate_succ']
            rfl
          · rw [hsplit]
            exact hkeep
      · rw [← Option.some.inj hadd] at ht
        exact absurd rfl ht

/-- What the translation of an accepted path returns. -/
theorem vfsTranslatePathEx_eq {vfs : VfsJail} {winPath : List UInt16} {drive : VfsDrive}
    {units : List UInt16} (h : openDrive vfs winPath = .ok (drive, units)) :
    vfsTranslatePathEx vfs winPath =
      match keepFrom .start (names (unitsRead .start units)) with
      | none => .error .pathEscape
      | some k => buildPath drive.hostPath (trimSlash k.text) := by
  unfold vfsTranslatePathEx
  simp only [h, bind, Except.bind, translateRest_eq]
  cases keepFrom .start (names (unitsRead .start units)) with
  | none => rfl
  | some k => rfl

/-- `snprintf` returns the whole text or nothing. -/
theorem buildPath_ok {hostPath text out : List UInt8} :
    buildPath hostPath text = .ok out ↔
      (hostPath ++ slash :: text).length < vfsMaxPath ∧ out = hostPath ++ slash :: text := by
  unfold buildPath
  split
  · next h =>
    constructor
    · nofun
    · rintro ⟨hlt, -⟩
      omega
  · next h =>
    simp only [Except.ok.injEq]
    constructor
    · intro hout
      exact ⟨by omega, hout.symm⟩
    · intro hout
      exact hout.2.symm

/-- The translation of a path stays in its drive exactly if the "." components at its end do not
leave a "..". -/
theorem vfsTranslatePathEx_staysInDrive_iff (vfs : VfsJail) (winPath : List UInt16) :
    StaysInDrive vfs winPath ↔
      ∀ drive units, openDrive vfs winPath = .ok (drive, units) →
        ¬ DotsLeaveParent units drive.hostPath := by
  constructor
  · rintro hstays drive units hopen ⟨before, rest, below, depth, hread, hbefore, hfits⟩
    have hkeep : keepFrom .start (names (unitsRead .start units)) =
        some ⟨below, dotdotName, depth⟩ := by
      rw [hread, keepFrom_append, hbefore]
      exact keepFrom_dots depth (c := dotdotName) (by decide)
    have hok : Kept.Ok ⟨below, dotdotName, depth⟩ := keepFrom_names_ok hkeep
    have htext : trimSlash (Kept.text ⟨below, dotdotName, depth⟩) =
        closedText slash below.reverse ++ dotdotName :=
      trimSlash_append (c := dotdotName) ⟨by decide, hok.tail⟩
    have hresult : vfsTranslatePathEx vfs winPath =
        .ok (drive.hostPath ++ slash :: (closedText slash below.reverse ++ dotdotName)) := by
      rw [vfsTranslatePathEx_eq hopen, hkeep]
      exact buildPath_ok.mpr ⟨by rw [htext]; exact hfits, by rw [htext]⟩
    refine (hstays drive units _ hopen hresult).1 ?_
    rw [← htext]
    exact hok.dotdot_mem.mpr rfl
  · intro hdots drive units text hopen hresult
    rw [vfsTranslatePathEx_eq hopen] at hresult
    cases hkeep : keepFrom .start (names (unitsRead .start units)) with
    | none => simp [hkeep] at hresult
    | some k =>
      rw [hkeep] at hresult
      obtain ⟨hfits, heq⟩ := buildPath_ok.mp hresult
      have htext : text = trimSlash k.text :=
        List.tail_eq_of_cons_eq (List.append_cancel_left heq)
      have hok := keepFrom_names_ok hkeep
      have hno : dotdotName ∉ components isSlash text := by
        rw [htext, hok.dotdot_mem]
        intro ht
        obtain ⟨before, rest, hread, hbefore⟩ := keepFrom_tail hkeep (by rw [ht]; decide)
        have htrim : trimSlash k.text = closedText slash k.closed.reverse ++ dotdotName := by
          rw [Kept.text, ht]
          exact trimSlash_append ⟨by decide, ht ▸ hok.tail⟩
        refine hdots drive units hopen ⟨before, rest, k.closed, k.depth, hread, ?_, ?_⟩
        · rw [hbefore, ht]
        · rw [← htrim]
          exact hfits
      exact ⟨hno, resolve_plain fun c hc hdd => hno (hdd ▸ hc)⟩

private theorem jailRoot_names : ∀ n ∈ [[0x6A]], IsComponent isSlash n :=
  isComponent_of_mem_singleton (by decide)

/-- A jail in which C: is the directory "/j". -/
def jailC : VfsJail := vfsInit.mapDrive driveC [[0x6A]] jailRoot_names

/-- The path `..x\.\.`, which translates to `/j/..`. -/
def dotsPath : List UInt16 := [0x2E, 0x2E, 0x78, 0x5C, 0x2E, 0x5C, 0x2E]

theorem dotsPath_leaves_drive : ¬ StaysInDrive jailC dotsPath := by
  intro hstays
  have hopen : openDrive jailC dotsPath = .ok (jailC.drives 2, dotsPath) := by rfl
  have hresult : vfsTranslatePathEx jailC dotsPath =
      .ok ((jailC.drives 2).hostPath ++ slash :: dotdotName) := by decide +kernel
  exact (hstays _ _ dotdotName hopen hresult).1 (by decide)

end Wbox.Nt
