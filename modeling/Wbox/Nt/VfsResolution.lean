import Mathlib.Algebra.Ring.Int.Defs
import Mathlib.Algebra.Ring.Nat
import Wbox.Nt.VfsContainment

/-!
# Translation against its specification

The specification of `vfs_translate_path_ex` (`src/nt/vfs_jail.h:94–115`): split at the
separators, resolve "." and ".." on a stack, join with "/". The in-place conversion follows it
as long as no "." has eaten a byte that the text still needs.
-/

namespace Wbox.Nt

open Wbox.Lib Wbox.Host

/-- Units of non-NUL ASCII characters. -/
def IsAscii (units : List UInt16) : Prop := ∀ wc ∈ units, wc ≠ 0 ∧ wc ≤ 0x7F

/-- The components a path resolves to; `none` if a ".." meets an empty stack. -/
def specComponents (units : List UInt16) : Option (List (List UInt16)) :=
  resolve [unitDot] [unitDot, unitDot] (components isSep units)

/-- The host path of some components below a drive root. -/
def specPath (hostPath : List UInt8) (cs : List (List UInt16)) : List UInt8 :=
  hostPath ++ slash :: joinText slash (cs.map toUtf8)

/-- A path of a mapped drive that is not rejected and whose result fits is translated to its
specification, and it is rejected as an escape exactly if the specification escapes. -/
def TranslatesToSpec (vfs : VfsJail) (winPath : List UInt16) (drive : VfsDrive)
    (units : List UInt16) : Prop :=
  (vfsTranslatePathEx vfs winPath = .error .pathEscape ↔ specComponents units = none) ∧
    ∀ out cs, vfsTranslatePathEx vfs winPath = .ok out → specComponents units = some cs →
      (specPath drive.hostPath cs).length < vfsMaxPath → out = specPath drive.hostPath cs

/-- The stack of the specification, and how many bytes "." components have eaten of its last
component and the slash behind it; `none` once bytes are missing elsewhere. -/
structure DotScan where
  stack : List Name
  eaten : Option Nat
  deriving DecidableEq, Repr

/-- The next component. -/
def DotScan.add (d : DotScan) (c : Name) : DotScan :=
  if c = dotName then
    match d.stack with
    | [] => d
    | q :: _ => { d with eaten := d.eaten.bind fun n => if n < q.length then some (n + 1) else none }
  else if c = dotdotName then
    { stack := d.stack.tail
      eaten := if d.stack.tail = [] then some 0 else d.eaten.map fun _ => 0 }
  else { stack := c :: d.stack, eaten := if d.eaten = some 0 then some 0 else none }

/-- A "." comes before every other component, or is the last one, or a ".." removes what it has
damaged. -/
def DotsHarmless (cs : List Name) : Prop :=
  (cs.foldl DotScan.add ⟨[], some 0⟩).eaten = some 0 ∨
    (cs.foldl DotScan.add ⟨[], some 0⟩).eaten = some 1

/-- The 32-bit `depth` is not below 0 behind any ".." that finds a component. -/
def DepthFits (stack : List Name) : List Name → Prop
  | [] => True
  | c :: cs =>
      (c = dotdotName → (stack.length - 1) % 2 ^ 32 < 2 ^ 31) ∧
        ∀ stack', resolveStep dotName dotdotName stack c = some stack' → DepthFits stack' cs

/-- The buffer is full before the path ends, within a component that reads "." or "..". -/
def CutInDots (units : List UInt16) : Prop :=
  unitsRead .start units ≠ units ∧
    ∃ cs c, names (unitsRead .start units) = cs ++ [c] ∧ (c = dotName ∨ c = dotdotName)

/-- The path is read to its end and its dots are harmless, or it is cut and does not escape. -/
def TranslatesFaithfully (hostPath : List UInt8) (units : List UInt16) : Prop :=
  (unitsRead .start units = units ∧
    (specComponents units = none ∨
      DepthFits [] (names units) ∧
        ∀ cs, specComponents units = some cs → (specPath hostPath cs).length < vfsMaxPath →
          DotsHarmless (names units))) ∨
    unitsRead .start units ≠ units ∧ specComponents units ≠ none

variable {k k' : Kept} {d : DotScan} {stack stack' cs : List Name} {c : Name}

section Depth

/-- The depth is the length of the stack, modulo 2^32. -/
def DepthOf (k : Kept) (stack : List Name) : Prop := k.depth = Int32.ofNat stack.length

private theorem ofNat_neg_iff (n : Nat) : Int32.ofNat n < 0 ↔ 2 ^ 31 ≤ n % 2 ^ 32 := by
  have hzero : (0 : Int32).toInt = 0 := by decide
  rw [Int32.lt_iff_toInt_lt, hzero, Int32.toInt_ofNat', Int.bmod_def]
  simp only [Int32.size]
  omega

private theorem ofNat_pred (n : Nat) : Int32.ofNat (n + 1) - 1 = Int32.ofNat n := by
  rw [Int32.ofNat_add]
  simp

theorem Kept.dropByte_depth (k : Kept) : k.dropByte.depth = k.depth := by
  unfold Kept.dropByte
  split
  · split
    · rfl
    · rfl
  · rfl

/-- A component is rejected exactly if the stack is empty or the depth has wrapped. -/
theorem Kept.add_none_iff (hk : DepthOf k stack) :
    k.add c = none ↔ resolveStep dotName dotdotName stack c = none ∨
      c = dotdotName ∧ 2 ^ 31 ≤ (stack.length - 1) % 2 ^ 32 := by
  unfold Kept.add resolveStep
  by_cases hdd : c = dotdotName
  · subst hdd
    have hne : dotdotName ≠ dotName := by decide
    rw [if_pos rfl, if_neg hne, if_pos rfl, hk]
    cases stack with
    | nil => simp
    | cons top below =>
      have hneg := ofNat_neg_iff below.length
      simp only [List.length_cons, ofNat_pred, Nat.add_sub_cancel, true_and, reduceCtorEq,
        false_or, ← hneg]
      split
      · next h => simp [h]
      · next h => simp [h]
  · rw [if_neg hdd]
    by_cases hd : c = dotName
    · rw [if_pos hd, if_pos hd]
      simp [hdd]
    · rw [if_neg hd, if_neg hd, if_neg hdd]
      simp [hdd]

/-- An accepted component changes the depth with the stack. -/
theorem DepthOf.add (hk : DepthOf k stack) (h : k.add c = some k')
    (hs : resolveStep dotName dotdotName stack c = some stack') : DepthOf k' stack' := by
  unfold DepthOf at hk ⊢
  unfold Kept.add at h
  unfold resolveStep at hs
  by_cases hdd : c = dotdotName
  · subst hdd
    have hne : dotdotName ≠ dotName := by decide
    rw [if_pos rfl] at h
    rw [if_neg hne, if_pos rfl] at hs
    split at h
    · cases h
    · rw [← Option.some.inj h]
      cases stack with
      | nil => cases hs
      | cons top below =>
        rw [← Option.some.inj hs]
        simp only [hk, List.length_cons, ofNat_pred]
  · rw [if_neg hdd] at h
    by_cases hd : c = dotName
    · rw [if_pos hd] at h hs
      rw [← Option.some.inj h, ← Option.some.inj hs, k.dropByte_depth, hk]
    · rw [if_neg hd] at h
      rw [if_neg hd, if_neg hdd] at hs
      rw [← Option.some.inj h, ← Option.some.inj hs]
      simp only [hk, List.length_cons, Int32.ofNat_add]
      rfl

/-- The components are rejected exactly if they escape or the depth wraps. -/
theorem keepFrom_none_iff (hk : DepthOf k stack) :
    keepFrom k cs = none ↔
      resolveFrom dotName dotdotName stack cs = none ∨ ¬ DepthFits stack cs := by
  induction cs generalizing k stack with
  | nil => simp [keepFrom, resolveFrom, DepthFits]
  | cons c cs ih =>
    have hadd := Kept.add_none_iff (c := c) hk
    rw [keepFrom, resolveFrom, List.foldlM_cons, List.foldlM_cons, DepthFits]
    cases hstep : resolveStep dotName dotdotName stack c with
    | none =>
      rw [hadd.mpr (Or.inl hstep)]
      simp
    | some stack' =>
      cases hk' : k.add c with
      | none =>
        rcases hadd.mp hk' with hno | ⟨rfl, hdeep⟩
        · simp [hno] at hstep
        · simp only [Option.bind_eq_bind, Option.bind_none, true_iff]
          right
          rintro ⟨hfits, -⟩
          have hlt := hfits trivial
          omega
      | some k' =>
        have hrest := ih (hk.add hk' hstep)
        have hfits : c = dotdotName → (stack.length - 1) % 2 ^ 32 < 2 ^ 31 := by
          intro hc
          by_contra hge
          have hnone := hadd.mpr (Or.inr ⟨hc, Nat.le_of_not_lt hge⟩)
          simp [hk'] at hnone
        simp only [Option.bind_eq_bind, Option.bind_some]
        rw [keepFrom, resolveFrom] at hrest
        rw [hrest]
        constructor
        · rintro (hnone | hno)
          · exact Or.inl hnone
          · exact Or.inr fun hall => hno (hall.2 stack' rfl)
        · rintro (hnone | hno)
          · exact Or.inl hnone
          · right
            intro hall
            refine hno ⟨hfits, ?_⟩
            intro s hs
            rw [← Option.some.inj hs]
            exact hall

end Depth

section Text

/-- The number of components in the text, with what is left of the last one. -/
def Kept.count (k : Kept) : Nat := k.closed.length + if k.tail = [] then 0 else 1

/-- Where the bytes that "." components have eaten are missing. -/
def Aligned (k : Kept) (d : DotScan) : Prop :=
  match d.eaten with
  | some 0 => k.closed = d.stack ∧ k.tail = []
  | some (n + 1) => ∃ q, d.stack = q :: k.closed ∧ n < q.length ∧ k.tail = q.take (q.length - n)
  | none => k.count < d.stack.length

/-- The text against the stack of the specification. -/
structure Tracks (k : Kept) (d : DotScan) : Prop where
  parts : ∀ c ∈ d.stack, IsComponent isSlash c
  sub : k.text.Sublist (closedText slash d.stack.reverse)
  aligned : Aligned k d

private theorem Kept.count_dropByte (k : Kept) : k.dropByte.count ≤ k.count := by
  unfold Kept.dropByte Kept.count
  by_cases ht : k.tail = []
  · cases hcl : k.closed with
    | nil => simp [ht, hcl]
    | cons c below =>
      simp only [ht, if_true, List.length_cons]
      split
      · omega
      · omega
  · simp only [ht, if_false]
    split
    · omega
    · omega

private theorem Kept.count_dropName (k : Kept) : k.dropName.count ≤ k.count - 1 := by
  unfold Kept.dropName Kept.count
  by_cases ht : k.tail = []
  · simp [ht]
  · simp [ht]

private theorem Aligned.dot (hk : Aligned k d) (hparts : ∀ q ∈ d.stack, IsComponent isSlash q) :
    Aligned k.dropByte (d.add dotName) := by
  obtain ⟨stack, eaten⟩ := d
  cases stack with
  | nil =>
    cases eaten with
    | none => exact absurd hk (Nat.not_lt_zero _)
    | some n =>
      cases n with
      | zero =>
        obtain ⟨hcl, ht⟩ := hk
        dsimp only at hcl
        unfold Kept.dropByte
        rw [if_pos ht, hcl]
        exact ⟨hcl, ht⟩
      | succ n =>
        obtain ⟨q, hq, -, -⟩ := hk
        cases hq
  | cons q below =>
    have hadd : DotScan.add ⟨q :: below, eaten⟩ dotName =
        ⟨q :: below, eaten.bind fun n => if n < q.length then some (n + 1) else none⟩ := rfl
    have hq := List.length_pos_iff.mpr (hparts q List.mem_cons_self).1
    rw [hadd]
    cases eaten with
    | none => exact Nat.lt_of_le_of_lt k.count_dropByte hk
    | some n =>
      cases n with
      | zero =>
        obtain ⟨hcl, ht⟩ := hk
        dsimp only at hcl
        unfold Kept.dropByte
        rw [if_pos ht, hcl]
        simp only [Option.bind_some, hq, if_true]
        exact ⟨q, rfl, hq, by simp⟩
      | succ n =>
        obtain ⟨q', hqc, hn, ht⟩ := hk
        obtain ⟨rfl, hbelow⟩ := List.cons.inj hqc
        have htne : k.tail ≠ [] := by
          intro hnil
          have hlen := congrArg List.length (ht.symm.trans hnil)
          simp only [List.length_take, List.length_nil] at hlen
          omega
        have hdrop : k.tail.dropLast = q.take (q.length - (n + 1)) := by
          have hlen : min (min (q.length - n) q.length - 1) (q.length - n) =
              q.length - (n + 1) := by omega
          rw [List.dropLast_eq_take, ht, List.take_take, List.length_take, hlen]
        unfold Kept.dropByte
        simp only [Option.bind_some]
        rw [if_neg htne]
        by_cases hlt : n + 1 < q.length
        · rw [if_pos hlt]
          exact ⟨q, by rw [hbelow], hlt, hdrop⟩
        · rw [if_neg hlt]
          have hnil : k.tail.dropLast = [] := by
            rw [hdrop, Nat.sub_eq_zero_of_le (by omega), List.take_zero]
          unfold Aligned Kept.count
          simp only [hnil, if_true, hbelow, List.length_cons]
          omega

private theorem Aligned.dotdot {top : Name} {below : List Name} (hk : Aligned k d)
    (hstack : d.stack = top :: below) (depth : Int32) :
    Aligned { k.dropName with depth := depth } (d.add dotdotName) := by
  obtain ⟨stack, eaten⟩ := d
  dsimp only at hstack
  subst hstack
  have hadd : DotScan.add ⟨top :: below, eaten⟩ dotdotName =
      ⟨below, if below = [] then some 0 else eaten.map fun _ => 0⟩ := rfl
  rw [hadd]
  cases eaten with
  | none =>
    have hcount := k.count_dropName
    have hlt : k.count < below.length + 1 := hk
    by_cases hb : below = []
    · subst hb
      have hzero : k.count = 0 := by simpa using hlt
      have hcl : k.closed = [] := by
        unfold Kept.count at hzero
        exact List.length_eq_zero_iff.mp (by omega)
      have ht : k.tail = [] := by
        by_contra hne
        simp [Kept.count, hne] at hzero
      exact ⟨by simp [Kept.dropName, hcl, ht], by simp [Kept.dropName, ht]⟩
    · have hpos := List.length_pos_iff.mpr hb
      rw [if_neg hb]
      have hgoal : k.dropName.count < below.length := by omega
      exact hgoal
  | some n =>
    have hzero : (if below = [] then some 0 else (some n).map fun _ => 0) = some 0 := by
      split
      · rfl
      · rfl
    rw [hzero]
    cases n with
    | zero =>
      obtain ⟨hcl, ht⟩ := hk
      exact ⟨by simp [Kept.dropName, ht, hcl], by simp [Kept.dropName, ht]⟩
    | succ n =>
      obtain ⟨q, hq, hn, ht⟩ := hk
      obtain ⟨rfl, hbelow⟩ := List.cons.inj hq
      have htne : k.tail ≠ [] := by
        intro hnil
        have hlen := congrArg List.length (ht.symm.trans hnil)
        simp only [List.length_take, List.length_nil] at hlen
        omega
      exact ⟨by simp [Kept.dropName, htne, hbelow], by simp [Kept.dropName, htne]⟩

private theorem Aligned.plain (hk : Aligned k d) (hd : c ≠ dotName) (hdd : c ≠ dotdotName)
    (depth : Int32) :
    Aligned { closed := (k.tail ++ c) :: k.closed, tail := [], depth := depth } (d.add c) := by
  obtain ⟨stack, eaten⟩ := d
  have hadd : DotScan.add ⟨stack, eaten⟩ c =
      ⟨c :: stack, if eaten = some 0 then some 0 else none⟩ := by
    rw [DotScan.add, if_neg hd, if_neg hdd]
  rw [hadd]
  cases eaten with
  | none =>
    have hlt : k.count < stack.length := hk
    unfold Aligned Kept.count
    unfold Kept.count at hlt
    simp only [reduceCtorEq, if_false, List.length_cons, if_true]
    omega
  | some n =>
    cases n with
    | zero =>
      obtain ⟨hcl, ht⟩ := hk
      dsimp only at hcl
      rw [if_pos rfl]
      exact ⟨by simp [ht, hcl], rfl⟩
    | succ n =>
      obtain ⟨q, hq, -, -⟩ := hk
      dsimp only at hq
      unfold Aligned Kept.count
      simp only [Option.some.injEq, Nat.add_one_ne_zero, if_false, hq, List.length_cons, if_true]
      omega

/-- A component keeps the text and the stack together. -/
theorem Tracks.add (hk : Tracks k d) (hok : k.Ok) (hc : IsComponent isSlash c)
    (h : k.add c = some k')
    (hs : resolveStep dotName dotdotName d.stack c = some stack') :
    (d.add c).stack = stack' ∧ Tracks k' (d.add c) := by
  unfold Kept.add at h
  unfold resolveStep at hs
  by_cases hdd : c = dotdotName
  · subst hdd
    have hne : dotdotName ≠ dotName := by decide
    rw [if_pos rfl] at h
    rw [if_neg hne, if_pos rfl] at hs
    split at h
    · cases h
    · rw [← Option.some.inj h]
      cases hstack : d.stack with
      | nil => simp [hstack] at hs
      | cons top below =>
        rw [hstack] at hs
        have hbelow : below = stack' := Option.some.inj hs
        have hadd : (d.add dotdotName).stack = below := by
          simp [DotScan.add, hne, hstack]
        refine ⟨hadd.trans hbelow, ?_, ?_, hk.aligned.dotdot hstack _⟩
        · intro q hq
          rw [hadd] at hq
          exact hk.parts q (by simp [hstack, hq])
        · have hsub := hk.sub
          have htop := hk.parts top (by simp [hstack])
          rw [hadd]
          rw [hstack, List.reverse_cons, closedText_concat, ← List.append_assoc] at hsub
          have hdrop := dropLast_sublist_dropLast hsub
          rw [List.dropLast_concat] at hdrop
          have hname : Kept.text { k.dropName with depth := k.depth - 1 } =
              removePrevious k.text := hok.text_dropName
          rw [hname]
          refine rdropWhile_sublist hdrop ?_
          intro b hb
          simpa [isSlash] using htop.2 b hb
  · rw [if_neg hdd] at h
    by_cases hd : c = dotName
    · subst hd
      rw [if_pos rfl] at h hs
      rw [← Option.some.inj h]
      have hadd : (d.add dotName).stack = d.stack := by
        unfold DotScan.add
        rw [if_pos rfl]
        split
        · rfl
        · rfl
      refine ⟨hadd.trans (Option.some.inj hs), ?_, ?_, hk.aligned.dot hk.parts⟩
      · rw [hadd]
        exact hk.parts
      · rw [hadd, k.text_dropByte]
        exact (List.dropLast_sublist _).trans hk.sub
    · rw [if_neg hd] at h
      rw [if_neg hd, if_neg hdd] at hs
      rw [← Option.some.inj h]
      have hadd : (d.add c).stack = c :: d.stack := by
        simp [DotScan.add, hd, hdd]
      refine ⟨hadd.trans (Option.some.inj hs), ?_, ?_, hk.aligned.plain hd hdd _⟩
      · rw [hadd]
        intro q hq
        rcases List.mem_cons.mp hq with rfl | hq
        · exact hc
        · exact hk.parts q hq
      · have htext : Kept.text ⟨(k.tail ++ c) :: k.closed, [], k.depth + 1⟩ =
            k.text ++ (c ++ [slash]) := by
          simp only [Kept.text, List.reverse_cons, closedText_concat, List.append_nil,
            List.append_assoc]
        rw [hadd, htext, List.reverse_cons, closedText_concat]
        exact hk.sub.append (List.Sublist.refl _)

/-- A run of components keeps the text and the stack together. -/
theorem Tracks.keepFrom (hk : Tracks k d) (hok : k.Ok) (hcs : ∀ c ∈ cs, IsComponent isSlash c)
    (h : keepFrom k cs = some k')
    (hs : resolveFrom dotName dotdotName d.stack cs = some stack') :
    (cs.foldl DotScan.add d).stack = stack' ∧ Tracks k' (cs.foldl DotScan.add d) := by
  induction cs generalizing k d with
  | nil => exact ⟨Option.some.inj hs, Option.some.inj h ▸ hk⟩
  | cons c cs ih =>
    rw [Nt.keepFrom, List.foldlM_cons] at h
    rw [resolveFrom, List.foldlM_cons] at hs
    obtain ⟨k₁, hadd, hrest⟩ := Option.bind_eq_some_iff.mp h
    obtain ⟨s₁, hstep, hsrest⟩ := Option.bind_eq_some_iff.mp hs
    have hc := hcs c List.mem_cons_self
    obtain ⟨hstack, htracks⟩ := hk.add hok hc hadd hstep
    rw [← hstack] at hsrest
    exact ih htracks (hok.add hc hadd) (fun e he => hcs e (List.mem_cons_of_mem c he)) hrest hsrest

/-- Trimming closed text leaves the joined one. -/
theorem trimSlash_closedText (h : ∀ c ∈ cs, IsComponent isSlash c) :
    trimSlash (closedText slash cs) = joinText slash cs := by
  rcases List.eq_nil_or_concat cs with rfl | ⟨ds, c, rfl⟩
  · rfl
  · rw [List.concat_eq_append] at h ⊢
    have hc := h c (by simp)
    have hjoin := closedText_eq_joinText slash (List.append_ne_nil_of_right_ne_nil ds (List.cons_ne_nil c []))
    rw [closedText_concat, ← List.append_assoc] at hjoin
    rw [closedText_concat, trimSlash_closed hc.1]
    exact (List.append_left_inj [slash]).mp hjoin

/-- The text is the joined stack exactly if at most a slash at its end is missing. -/
theorem Tracks.text_eq_iff (hk : Tracks k d) (hok : k.Ok) :
    trimSlash k.text = joinText slash d.stack.reverse ↔ d.eaten = some 0 ∨ d.eaten = some 1 := by
  have hparts : ∀ c ∈ d.stack.reverse, IsComponent isSlash c :=
    fun c hc => hk.parts c (List.mem_reverse.mp hc)
  have hspec : components isSlash (joinText slash d.stack.reverse) = d.stack.reverse := by
    by_cases hnil : d.stack.reverse = []
    · rw [hnil]
      rfl
    · have hclosed : components isSlash (closedText slash d.stack.reverse ++ []) =
          d.stack.reverse ++ components isSlash [] := components_closedText (by decide) hparts
      rw [closedText_eq_joinText slash hnil, List.append_nil, components_append_cons (by decide)] at hclosed
      simpa using hclosed
  obtain ⟨stack, eaten⟩ := d
  have haligned := hk.aligned
  dsimp only at hparts hspec ⊢
  constructor
  · intro htext
    have hcomps := hok.components_text
    rw [htext, hspec] at hcomps
    cases eaten with
    | none =>
      have hlen := congrArg List.length hcomps
      have hlt : k.count < stack.length := haligned
      unfold Kept.count at hlt
      simp only [List.length_reverse, List.length_append] at hlen
      split at hlen
      · next ht => simp only [ht, if_true, List.length_nil] at hlen hlt; omega
      · next ht => simp only [ht, if_false, List.length_singleton] at hlen hlt; omega
    | some n =>
      match n, haligned with
      | 0, _ => exact Or.inl rfl
      | 1, _ => exact Or.inr rfl
      | n + 2, ⟨q, hq, hn, ht⟩ =>
        dsimp only at hq
        have hlen := congrArg List.length ht
        simp only [List.length_take] at hlen
        have htne : k.tail ≠ [] := by
          intro hnil
          rw [hnil, List.length_nil] at hlen
          omega
        rw [if_neg htne, hq, List.reverse_cons] at hcomps
        have hqt : q = k.tail := by simpa using List.append_cancel_left hcomps
        rw [← hqt] at hlen
        omega
  · rintro (rfl | rfl)
    · obtain ⟨hcl, ht⟩ := haligned
      dsimp only at hcl
      rw [Kept.text, ht, hcl, List.append_nil, trimSlash_closedText hparts]
    · obtain ⟨q, hq, -, ht⟩ := haligned
      dsimp only at hq
      have htail : k.tail = q := by simpa using ht
      have hqc := hk.parts q (by simp [hq])
      rw [Kept.text, htail, trimSlash_append hqc, ← trimSlash_closedText hparts, hq,
        List.reverse_cons, closedText_concat, trimSlash_closed hqc.1]

/-- The text is never longer than the joined stack. -/
theorem Tracks.length_le (hk : Tracks k d) :
    (trimSlash k.text).length ≤ (joinText slash d.stack.reverse).length := by
  have hparts : ∀ c ∈ d.stack.reverse, IsComponent isSlash c :=
    fun c hc => hk.parts c (List.mem_reverse.mp hc)
  have htrim : (trimSlash k.text).length ≤ k.text.length := by
    unfold trimSlash
    split
    · simp
    · exact Nat.le_refl _
  by_cases hnil : d.stack.reverse = []
  · have hsub := hk.sub.length_le
    rw [hnil] at hsub
    have hzero : k.text.length ≤ 0 := hsub
    omega
  · have hclosed := closedText_eq_joinText slash hnil
    have hsub := hk.sub.length_le
    rw [hclosed, List.length_append, List.length_singleton] at hsub
    by_cases hall : k.text.length = (joinText slash d.stack.reverse).length + 1
    · have htext : k.text = closedText slash d.stack.reverse := by
        apply hk.sub.eq_of_length
        rw [hall, hclosed, List.length_append, List.length_singleton]
      rw [htext, trimSlash_closedText hparts]
    · omega

end Text

section Spec

variable {units : List UInt16}

/-- A byte "." comes from the unit ".". -/
private theorem utf8_eq_dot {wc : UInt16} {xs ys : List UInt8}
    (h : utf8 wc ++ xs = 0x2E :: ys) : wc = unitDot ∧ xs = ys := by
  unfold utf8 at h
  split at h
  · next hle =>
    obtain ⟨hb, hxs⟩ := List.cons.inj h
    refine ⟨UInt16.toNat_inj.mp ?_, hxs⟩
    have hnat := congrArg UInt8.toNat hb
    have hlt := UInt16.le_iff_toNat_le.mp hle
    simp only [UInt16.toNat_toUInt8, UInt8.reduceToNat, UInt16.reduceToNat, unitDot] at hnat hlt ⊢
    omega
  · exfalso
    have hhigh : ∀ high x : UInt8, 0x80 ≤ high.toNat → high ||| x ≠ 0x2E := by
      intro high x hh heq
      have hle : high.toNat ≤ (high ||| x).toNat := by
        rw [UInt8.toNat_or]
        exact Nat.left_le_or
      rw [heq] at hle
      simp only [UInt8.reduceToNat] at hle
      omega
    split at h
    · exact hhigh _ _ (by decide) (List.cons.inj h).1
    · exact hhigh _ _ (by decide) (List.cons.inj h).1

/-- The bytes of a name are "." only for the name ".". -/
private theorem toUtf8_eq_dot {c : List UInt16} (h : toUtf8 c = dotName) : c = [unitDot] := by
  cases c with
  | nil => cases h
  | cons wc rest =>
    obtain ⟨hwc, hrest⟩ := utf8_eq_dot (show utf8 wc ++ toUtf8 rest = 0x2E :: [] from h)
    cases rest with
    | nil => rw [hwc]
    | cons w r => simp [toUtf8, utf8_ne_nil w] at hrest

/-- The bytes of a name are ".." only for the name "..". -/
private theorem toUtf8_eq_dotdot {c : List UInt16} (h : toUtf8 c = dotdotName) :
    c = [unitDot, unitDot] := by
  cases c with
  | nil => cases h
  | cons wc rest =>
    obtain ⟨hwc, hrest⟩ := utf8_eq_dot (show utf8 wc ++ toUtf8 rest = 0x2E :: dotName from h)
    rw [hwc, toUtf8_eq_dot hrest]

/-- The specification can be read off the bytes. -/
theorem resolveFrom_names (units : List UInt16) :
    (resolveFrom dotName dotdotName [] (names units)).map List.reverse =
      (specComponents units).map (List.map toUtf8) := by
  have hdots : toUtf8 [unitDot] = dotName ∧ toUtf8 [unitDot, unitDot] = dotdotName := by
    decide
  have hmap : resolveFrom (toUtf8 [unitDot]) (toUtf8 [unitDot, unitDot]) (List.map toUtf8 [])
      ((components isSep units).map toUtf8) = (resolveFrom [unitDot] [unitDot, unitDot] []
        (components isSep units)).map (List.map toUtf8) := resolveFrom_map toUtf8
    fun c _ => ⟨fun hc => toUtf8_eq_dot (hc.trans hdots.1),
      fun hc => toUtf8_eq_dotdot (hc.trans hdots.2)⟩
  rw [hdots.1, hdots.2, List.map_nil] at hmap
  rw [names, hmap, specComponents, resolve]
  cases resolveFrom [unitDot] [unitDot, unitDot] [] (components isSep units) with
  | none => rfl
  | some stack => simp

/-- Nothing kept, and an empty stack. -/
private theorem tracks_start : Tracks .start ⟨[], some 0⟩ where
  parts := nofun
  sub := List.Sublist.refl _
  aligned := ⟨rfl, rfl⟩

/-- The text of a path that is read to its end, and the components of its specification. -/
private theorem tracks_names {spec : List (List UInt16)}
    (hkeep : keepFrom .start (names units) = some k) (hspec : specComponents units = some spec) :
    ∃ d, Tracks k d ∧ d.stack.reverse = spec.map toUtf8 ∧
      (DotsHarmless (names units) ↔ d.eaten = some 0 ∨ d.eaten = some 1) := by
  have hres := resolveFrom_names units
  rw [hspec] at hres
  obtain ⟨stack, hstack, hrev⟩ := Option.map_eq_some_iff.mp hres
  obtain ⟨heq, htracks⟩ := tracks_start.keepFrom Kept.start_ok names_component hkeep hstack
  exact ⟨_, htracks, by rw [heq, hrev], Iff.rfl⟩

/-- The specification escapes exactly if the resolution of the bytes does. -/
private theorem spec_none_iff :
    specComponents units = none ↔ resolveFrom dotName dotdotName [] (names units) = none := by
  have hres := congrArg Option.isNone (resolveFrom_names units)
  simp only [Option.isNone_map] at hres
  rw [← Option.isNone_iff_eq_none, ← Option.isNone_iff_eq_none, hres]

/-- A path of a mapped drive: the units are a part of it. -/
theorem openDrive_ok {vfs : VfsJail} {winPath : List UInt16} {drive : VfsDrive}
    (h : openDrive vfs winPath = .ok (drive, units)) :
    drive.mapped = true ∧ ∀ wc ∈ units, wc ∈ winPath := by
  unfold openDrive at h
  split at h
  · cases h
  split at h
  · cases h
  split at h
  · cases h
  dsimp only at h
  split at h
  · cases h
  split at h
  · next hm =>
    obtain ⟨rfl, rfl⟩ := Prod.mk.inj (Except.ok.inj h)
    exact ⟨hm, fun wc hwc => List.mem_of_mem_drop hwc⟩
  · cases h

/-- A mapped drive has a path. -/
theorem VfsDrive.hostPath_ne_nil {drive : VfsDrive} (h : drive.mapped = true) :
    drive.hostPath ≠ [] := by
  obtain ⟨root, -, hroot⟩ := drive.resolved h
  rw [hroot, pathText]
  split
  · simp
  · next hne =>
    cases root with
    | nil => exact absurd rfl hne
    | cons n ns => simp

/-- An ASCII path is read until the buffer is full. -/
theorem translateLoop_full {s s' : TranslateState} (h : translateLoop s units = .ok s')
    (hascii : IsAscii units) :
    unitsRead s units = units ∨ vfsMaxPath - 1 ≤ s'.buf.length := by
  induction units generalizing s with
  | nil => exact Or.inl rfl
  | cons wc units ih =>
    have hrest : IsAscii units := fun w hw => hascii w (List.mem_cons_of_mem wc hw)
    unfold translateLoop at h
    unfold unitsRead
    split at h
    · next hroom =>
      rw [if_pos hroom]
      split at h
      · next hsep =>
        rw [if_pos hsep]
        cases hsp : s.separator with
        | error e => simp [hsp] at h
        | ok s₁ =>
          rw [hsp] at h
          rcases ih h hrest with hread | hfull
          · exact Or.inl (by rw [← hread]; simp [hread])
          · exact Or.inr hfull
      · next hsep =>
        obtain ⟨hnul, hle⟩ := hascii wc List.mem_cons_self
        have hstop : s.beginComponent.stopsAt wc = false := by
          have hlt : ¬ 0x7F < wc := UInt16.not_lt.mpr hle
          simp [TranslateState.stopsAt, hnul, hlt]
        rw [if_neg hsep]
        simp only [hstop, Bool.false_eq_true, if_false] at h ⊢
        rcases ih h hrest with hread | hfull
        · exact Or.inl (by rw [hread])
        · exact Or.inr hfull
    · next hroom =>
      right
      rw [← Except.ok.inj h]
      omega

/-- A path that is cut within an ordinary component is too long. -/
theorem translate_cut {hostPath : List UInt8} (hhost : hostPath ≠ []) (hascii : IsAscii units)
    (hcut : unitsRead .start units ≠ units) (hdots : ¬ CutInDots units) :
    ∃ k, keepFrom .start (names (unitsRead .start units)) = some k ∧
      buildPath hostPath (trimSlash k.text) = .error .pathTooLong := by
  obtain ⟨read, rest, hcomps, hrun⟩ := translateLoop_reads units Reads.start
  have hnames : names (unitsRead .start units) = read.map toUtf8 ++ names rest := by
    have hread := hcomps []
    simp only [List.nil_append, List.append_nil] at hread
    rw [names, hread, List.map_append]
    rfl
  have htooLong : ∀ text : List UInt8, vfsMaxPath - 2 ≤ text.length →
      buildPath hostPath text = .error .pathTooLong := by
    intro text hlen
    have hpos := List.length_pos_iff.mpr hhost
    unfold buildPath
    apply if_pos
    simp only [List.length_append, List.length_cons]
    omega
  have htrim : ∀ text : List UInt8, text.length ≤ (trimSlash text).length + 1 := by
    intro text
    unfold trimSlash
    split
    · rw [List.length_dropLast]
      omega
    · omega
  rcases hrun with ⟨-, hall, -⟩ | ⟨s, k, hok, hkeep, hreads⟩
  · exact absurd hall hcut
  · have hfull : vfsMaxPath - 1 ≤ s.buf.length :=
      (translateLoop_full hok hascii).resolve_left hcut
    have hbuf := congrArg List.length hreads.buf
    rw [List.length_append] at hbuf
    have hpart : names rest = if rest = [] then [] else [toUtf8 rest] := by
      rw [names, components_of_noSep hreads.noSep]
      split
      · rfl
      · rfl
    by_cases hrest : rest = []
    · refine ⟨k, ?_, htooLong _ ?_⟩
      · rw [hnames, hpart, if_pos hrest, List.append_nil]
        exact hkeep
      · have hlen := htrim k.text
        have hzero : (toUtf8 rest).length = 0 := by simp [hrest, toUtf8]
        omega
    · rw [if_neg hrest] at hpart
      have hplain : toUtf8 rest ≠ dotName ∧ toUtf8 rest ≠ dotdotName := by
        constructor
        · intro hd
          exact hdots ⟨hcut, read.map toUtf8, toUtf8 rest, by rw [hnames, hpart], Or.inl hd⟩
        · intro hdd
          exact hdots ⟨hcut, read.map toUtf8, toUtf8 rest, by rw [hnames, hpart], Or.inr hdd⟩
      refine ⟨⟨(k.tail ++ toUtf8 rest) :: k.closed, [], k.depth + 1⟩, ?_, htooLong _ ?_⟩
      · rw [hnames, hpart, keepFrom_append, hkeep]
        simp [keepFrom, Kept.add, hplain.1, hplain.2]
      · have hlen := htrim (Kept.text ⟨(k.tail ++ toUtf8 rest) :: k.closed, [], k.depth + 1⟩)
        have htext : (Kept.text ⟨(k.tail ++ toUtf8 rest) :: k.closed, [], k.depth + 1⟩).length =
            k.text.length + ((toUtf8 rest).length + 1) := by
          simp only [Kept.text, List.reverse_cons, closedText_concat, List.append_nil,
            List.length_append, List.length_singleton]
          omega
        omega

/-- An ASCII path of a mapped drive is translated to its specification if it is not cut within a
component of dots and its dots are harmless; otherwise it is only if it is cut so. -/
theorem vfsTranslatePathEx_spec_iff {vfs : VfsJail} {winPath : List UInt16} {drive : VfsDrive}
    (hascii : IsAscii winPath) (hopen : openDrive vfs winPath = .ok (drive, units)) :
    (¬ CutInDots units ∧ TranslatesFaithfully drive.hostPath units →
        TranslatesToSpec vfs winPath drive units) ∧
      (TranslatesToSpec vfs winPath drive units →
        CutInDots units ∨ TranslatesFaithfully drive.hostPath units) := by
  obtain ⟨hmapped, hmem⟩ := openDrive_ok hopen
  have hunits : IsAscii units := fun wc hwc => hascii wc (hmem wc hwc)
  have hcode := vfsTranslatePathEx_eq hopen
  by_cases hread : unitsRead .start units = units
  · rw [hread] at hcode
    have hnone : keepFrom .start (names units) = none ↔
        specComponents units = none ∨ ¬ DepthFits [] (names units) := by
      rw [spec_none_iff]
      exact keepFrom_none_iff rfl
    constructor
    · rintro ⟨-, ⟨-, hfaithful⟩ | ⟨hno, -⟩⟩
      · cases hkeep : keepFrom .start (names units) with
        | none =>
          rw [hkeep] at hcode
          have hescape : specComponents units = none := by
            rcases hnone.mp hkeep with hs | hd
            · exact hs
            · rcases hfaithful with hs | hf
              · exact hs
              · exact absurd hf.1 hd
          refine ⟨by simp [hcode, hescape], ?_⟩
          intro out cs hout
          simp [hcode] at hout
        | some k =>
          rw [hkeep] at hcode
          have hsome : specComponents units ≠ none := by
            intro hs
            simp [hnone.mpr (Or.inl hs)] at hkeep
          refine ⟨?_, ?_⟩
          · simp only [hcode, hsome, iff_false]
            intro herr
            unfold buildPath at herr
            split at herr
            · cases herr
            · cases herr
          · intro out spec hout hspec hfits
            obtain ⟨d, htracks, hstack, hdots⟩ := tracks_names hkeep hspec
            have hharmless := (hfaithful.resolve_left hsome).2 spec hspec hfits
            have htext := (htracks.text_eq_iff (keepFrom_names_ok hkeep)).mpr
              (hdots.mp hharmless)
            rw [hcode] at hout
            rw [(buildPath_ok.mp hout).2, htext, hstack, specPath]
      · exact absurd hread hno
    · rintro ⟨hescape, hresult⟩
      refine Or.inr (Or.inl ⟨hread, ?_⟩)
      by_cases hs : specComponents units = none
      · exact Or.inl hs
      · right
        have hdepth : DepthFits [] (names units) := by
          by_contra hd
          have hkeep := hnone.mpr (Or.inr hd)
          rw [hkeep] at hcode
          exact hs (hescape.mp hcode)
        refine ⟨hdepth, ?_⟩
        intro spec hspec hfits
        obtain ⟨k, hkeep⟩ : ∃ k, keepFrom .start (names units) = some k := by
          apply Option.ne_none_iff_exists'.mp
          intro hkeep
          rcases hnone.mp hkeep with hno | hno
          · exact hs hno
          · exact hno hdepth
        obtain ⟨d, htracks, hstack, hdots⟩ := tracks_names hkeep hspec
        have hlen := htracks.length_le
        rw [hstack] at hlen
        rw [hkeep] at hcode
        have hout : vfsTranslatePathEx vfs winPath =
            .ok (drive.hostPath ++ slash :: trimSlash k.text) := by
          rw [hcode]
          refine buildPath_ok.mpr ⟨?_, rfl⟩
          simp only [specPath, List.length_append, List.length_cons] at hfits ⊢
          omega
        have heq := hresult _ spec hout hspec hfits
        have htext : trimSlash k.text = joinText slash (spec.map toUtf8) :=
          List.tail_eq_of_cons_eq (List.append_cancel_left heq)
        rw [← hstack] at htext
        exact hdots.mpr ((htracks.text_eq_iff (keepFrom_names_ok hkeep)).mp htext)
  · have hlong : ¬ CutInDots units →
        vfsTranslatePathEx vfs winPath = .error .pathTooLong := by
      intro hdots
      obtain ⟨k, hkeep, hbuild⟩ :=
        translate_cut (VfsDrive.hostPath_ne_nil hmapped) hunits hread hdots
      rw [hcode, hkeep]
      exact hbuild
    constructor
    · rintro ⟨hdots, ⟨hall, -⟩ | ⟨-, hsome⟩⟩
      · exact absurd hall hread
      · refine ⟨by simp [hlong hdots, hsome], ?_⟩
        intro out cs hout
        simp [hlong hdots] at hout
    · rintro ⟨hescape, -⟩
      by_cases hdots : CutInDots units
      · exact Or.inl hdots
      · refine Or.inr (Or.inr ⟨hread, ?_⟩)
        intro hs
        have herr := hescape.mpr hs
        simp [hlong hdots] at herr

/-- The path `a\..\b`. -/
def parentPath : List UInt16 := [0x61, 0x5C, 0x2E, 0x2E, 0x5C, 0x62]

theorem vfsTranslatePathEx_spec_parentPath :
    TranslatesToSpec jailC parentPath (jailC.drives 2) parentPath := by
  have hopen : openDrive jailC parentPath = .ok (jailC.drives 2, parentPath) := by rfl
  have hread : unitsRead .start parentPath = parentPath := by decide +kernel
  have hnames : names parentPath = [[0x61], dotdotName, [0x62]] := by decide +kernel
  refine (vfsTranslatePathEx_spec_iff ?_ hopen).1 ⟨fun hcut => hcut.1 hread, Or.inl ⟨hread, ?_⟩⟩
  · intro wc hwc
    simp only [parentPath, List.mem_cons, List.not_mem_nil, or_false] at hwc
    rcases hwc with rfl | rfl | rfl | rfl | rfl | rfl
    all_goals decide
  · right
    rw [hnames]
    refine ⟨?_, fun _ _ _ => by unfold DotsHarmless; decide⟩
    simp [DepthFits, resolveStep, dotName, dotdotName]

/-- The path `a\.\b`, which translates to `/j/ab`. -/
def gluedPath : List UInt16 := [0x61, 0x5C, 0x2E, 0x5C, 0x62]

theorem gluedPath_not_spec : openDrive jailC gluedPath = .ok (jailC.drives 2, gluedPath) ∧
    ¬ TranslatesToSpec jailC gluedPath (jailC.drives 2) gluedPath := by
  refine ⟨by rfl, ?_⟩
  rintro ⟨-, hresult⟩
  have hout : vfsTranslatePathEx jailC gluedPath = .ok [0x2F, 0x6A, 0x2F, 0x61, 0x62] := by
    decide +kernel
  have hspec : specComponents gluedPath = some [[0x61], [0x62]] := by decide +kernel
  have heq := hresult _ _ hout hspec (by decide +kernel)
  exact absurd heq (by decide +kernel)

end Spec

end Wbox.Nt
