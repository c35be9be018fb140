import Mathlib.Algebra.Ring.Int.Defs
import Mathlib.Algebra.Ring.Nat
import Mathlib.Data.Finset.Card
import Mathlib.Data.List.Nodup
import Mathlib.Logic.Relation

/-!
# Forests of linked nodes

Nodes that are linked to their parents, their first children and their siblings; the null link is 0.
The links are those of a forest when the children of each node are a doubly linked list of exactly
the nodes that it is the parent of, and no node is above itself.
-/

namespace Wbox.Lib

variable {α : Type} [Zero α]

/-- The links of the nodes at their addresses. -/
@[ext] structure TreeLinks (α : Type) where
  parent : α → α
  child : α → α
  next : α → α
  prev : α → α

namespace TreeLinks

/-- The nodes of a list are linked to each other, and the first one back to `before`. -/
def Chained (t : TreeLinks α) : α → List α → Prop
  | _, [] => True
  | before, w :: ws => t.prev w = before ∧ t.next w = ws.headD 0 ∧ t.Chained w ws

/-- A live node and its parent. -/
def ChildOf (t : TreeLinks α) (live : Finset α) (v p : α) : Prop :=
  v ∈ live ∧ t.parent v = p ∧ p ≠ 0

/-- A node or one below it. -/
def Within (t : TreeLinks α) (live : Finset α) (v w : α) : Prop :=
  Relation.ReflTransGen (t.ChildOf live) v w

/-- The nodes from `v` on along the links to the next one, at most `n`. -/
def siblings [DecidableEq α] (t : TreeLinks α) : Nat → α → List α
  | 0, _ => []
  | n + 1, v => if v = 0 then [] else v :: t.siblings n (t.next v)

variable [DecidableEq α]

/-- Take a node out of the list it is in. -/
def unlink (t : TreeLinks α) (w : α) : TreeLinks α where
  parent v := if v = w then 0 else t.parent v
  child p := if p = t.parent w ∧ p ≠ 0 ∧ t.child p = w then t.next w else t.child p
  next v := if v = w then 0 else if v = t.prev w ∧ v ≠ 0 then t.next w else t.next v
  prev v := if v = w then 0 else if v = t.next w ∧ v ≠ 0 then t.prev w else t.prev v

/-- Put a node in front of the children of another one. -/
def linkFront (t : TreeLinks α) (p w : α) : TreeLinks α where
  parent v := if v = w then p else t.parent v
  child q := if q = p then w else t.child q
  next v := if v = w then t.child p else t.next v
  prev v := if v = w then 0 else if v = t.child p ∧ v ≠ 0 then w else t.prev v

end TreeLinks

/-- The nodes below a node, each after the nodes below it. -/
def postOrder (kids : α → List α) : Nat → α → List α
  | 0, _ => []
  | n + 1, w => (kids w).flatMap (postOrder kids n) ++ [w]

/-- The nodes below `c`, and `c`, are gone, and the other ones have kept their parents. -/
structure Pruned (t t' : TreeLinks α) (live live' : Finset α) (c : α) : Prop where
  live : ∀ v, v ∈ live' ↔ v ∈ live ∧ ¬ t.Within live v c
  parent : ∀ v ∈ live', t'.parent v = t.parent v

/-- The children of each live node are a list of the nodes that it is the parent of. -/
structure ChildLists (t : TreeLinks α) (live : Finset α) (kids : α → List α) : Prop where
  null : 0 ∉ live
  parent : ∀ w ∈ live, t.parent w = 0 ∨ t.parent w ∈ live
  root : ∀ w ∈ live, t.parent w = 0 → t.next w = 0 ∧ t.prev w = 0
  mem : ∀ p ∈ live, ∀ w, w ∈ kids p ↔ w ∈ live ∧ t.parent w = p
  nodup : ∀ p ∈ live, (kids p).Nodup
  first : ∀ p ∈ live, t.child p = (kids p).headD 0
  chained : ∀ p ∈ live, t.Chained 0 (kids p)

/-- The links of the live nodes are those of a forest with these children. -/
structure Forest (t : TreeLinks α) (live : Finset α) (kids : α → List α) : Prop
    extends ChildLists t live kids where
  acyclic : ∀ w, ¬ Relation.TransGen (t.ChildOf live) w w

section Chains

variable {t t' : TreeLinks α} {before w : α} {ws : List α}

/-- The next node is in the list. -/
theorem chained_next (h : t.Chained before ws) (hmem : w ∈ ws) :
    t.next w = 0 ∨ t.next w ∈ ws := by
  induction ws generalizing before with
  | nil => cases hmem
  | cons a ws ih =>
    obtain ⟨-, hnext, hrest⟩ := h
    rcases List.mem_cons.mp hmem with rfl | hmem
    · cases ws with
      | nil => exact .inl hnext
      | cons b ws => exact .inr (by simp [hnext])
    · exact (ih hrest hmem).imp id (List.mem_cons_of_mem a)

/-- The node before one is in the list, or it is the one before all. -/
theorem chained_prev (h : t.Chained before ws) (hmem : w ∈ ws) :
    t.prev w = before ∧ ws.head? = some w ∨ t.prev w ∈ ws := by
  induction ws generalizing before with
  | nil => cases hmem
  | cons a ws ih =>
    obtain ⟨hprev, -, hrest⟩ := h
    rcases List.mem_cons.mp hmem with rfl | hmem
    · exact .inl ⟨hprev, rfl⟩
    · rcases ih hrest hmem with ⟨hfirst, -⟩ | hin
      · exact .inr (by simp [hfirst])
      · exact .inr (List.mem_cons_of_mem a hin)

/-- No node of a list is linked to itself. -/
theorem chained_ne_self (h : t.Chained before ws) (hnodup : ws.Nodup) (hnull : 0 ∉ ws)
    (hbefore : before ∉ ws) (hmem : w ∈ ws) : t.next w ≠ w ∧ t.prev w ≠ w := by
  induction ws generalizing before with
  | nil => cases hmem
  | cons a ws ih =>
    obtain ⟨hprev, hnext, hrest⟩ := h
    rw [List.nodup_cons] at hnodup
    rw [List.mem_cons, not_or] at hnull hbefore
    rcases List.mem_cons.mp hmem with rfl | hmem
    · refine ⟨fun hself => ?_, fun hself => hbefore.1 (hprev.symm.trans hself)⟩
      cases ws with
      | nil => exact hnull.1 (hnext.symm.trans hself)
      | cons b ws =>
        have hb : b = w := hnext.symm.trans hself
        exact hnodup.1 (hb ▸ List.mem_cons_self)
    · exact ih hrest hnodup.2 hnull.2 hnodup.1 hmem

theorem chained_congr (h : t.Chained before ws)
    (hprev : ∀ v ∈ ws, t'.prev v = t.prev v) (hnext : ∀ v ∈ ws, t'.next v = t.next v) :
    t'.Chained before ws := by
  induction ws generalizing before with
  | nil => trivial
  | cons a ws ih =>
    obtain ⟨hp, hn, hrest⟩ := h
    have ha := List.mem_cons_self (a := a) (l := ws)
    exact ⟨(hprev a ha).trans hp, (hnext a ha).trans hn,
      ih hrest (fun v hv => hprev v (List.mem_cons_of_mem a hv))
        fun v hv => hnext v (List.mem_cons_of_mem a hv)⟩

/-- Walking the links of a list finds the list. -/
theorem siblings_chained [DecidableEq α] (h : t.Chained before ws) (hnull : 0 ∉ ws) {n : Nat}
    (hn : ws.length ≤ n) : t.siblings n (ws.headD 0) = ws := by
  induction ws generalizing before n with
  | nil =>
    cases n with
    | zero => rfl
    | succ n => exact if_pos rfl
  | cons a ws ih =>
    obtain ⟨-, hnext, hrest⟩ := h
    rw [List.mem_cons, not_or] at hnull
    cases n with
    | zero => simp at hn
    | succ n =>
      have hn' : ws.length ≤ n := by simpa using hn
      show (if a = 0 then [] else a :: t.siblings n (t.next a)) = _
      rw [if_neg fun ha => hnull.1 ha.symm, hnext, ih hrest hnull.2 hn']

variable [DecidableEq α] {v : α}

theorem unlink_prev_of_ne (hv : v ≠ w) (hnext : v ≠ t.next w) :
    (t.unlink w).prev v = t.prev v := by
  simp [TreeLinks.unlink, hv, hnext]

theorem unlink_next_of_ne (hv : v ≠ w) (hprev : v ≠ t.prev w) :
    (t.unlink w).next v = t.next v := by
  simp [TreeLinks.unlink, hv, hprev]

theorem unlink_prev_next (hv : t.next w ≠ w) (hzero : t.next w ≠ 0) :
    (t.unlink w).prev (t.next w) = t.prev w := by
  simp [TreeLinks.unlink, hv, hzero]

theorem unlink_next_prev (hv : t.prev w ≠ w) (hzero : t.prev w ≠ 0) :
    (t.unlink w).next (t.prev w) = t.next w := by
  simp [TreeLinks.unlink, hv, hzero]

/-- The links of a list without its first node. -/
theorem chained_tail (h : t.Chained before (w :: ws)) (hnodup : (w :: ws).Nodup)
    (hnull : 0 ∉ w :: ws) (hbefore : before ∉ w :: ws) : (t.unlink w).Chained before ws := by
  obtain ⟨hprev, hnext, hrest⟩ := h
  have hw := (List.nodup_cons.mp hnodup).1
  cases ws with
  | nil => trivial
  | cons b ws =>
    obtain ⟨-, hbnext, hbrest⟩ := hrest
    have hb := (List.nodup_cons.mp (List.nodup_cons.mp hnodup).2).1
    have hnextb : t.next w = b := hnext
    have hnew : ∀ v ∈ b :: ws, v ≠ w ∧ v ≠ t.prev w := by
      intro v hv
      constructor
      · exact fun hvw => hw (hvw ▸ hv)
      · exact fun hvp => hbefore (List.mem_cons_of_mem w (hprev ▸ hvp ▸ hv))
    refine ⟨?_, ?_, chained_congr hbrest ?_ ?_⟩
    · rw [← hprev, ← hnextb]
      apply unlink_prev_next
      · exact hnextb ▸ (hnew b List.mem_cons_self).1
      · exact fun hz => hnull (by simp [← hz, hnextb])
    · rw [unlink_next_of_ne (hnew b List.mem_cons_self).1 (hnew b List.mem_cons_self).2, hbnext]
    · intro v hv
      apply unlink_prev_of_ne (hnew v (List.mem_cons_of_mem b hv)).1
      exact fun hvn => hb (hnextb ▸ hvn ▸ hv)
    · intro v hv
      exact unlink_next_of_ne (hnew v (List.mem_cons_of_mem b hv)).1
        (hnew v (List.mem_cons_of_mem b hv)).2

/-- The links of a list without one of its nodes are those of the shorter list. -/
theorem chained_erase (h : t.Chained before ws) (hnodup : ws.Nodup) (hnull : 0 ∉ ws)
    (hbefore : before ∉ ws) (hmem : w ∈ ws) : (t.unlink w).Chained before (ws.erase w) := by
  induction ws generalizing before with
  | nil => cases hmem
  | cons a ws ih =>
    by_cases ha : a = w
    · subst ha
      rw [List.erase_cons_head]
      exact chained_tail h hnodup hnull hbefore
    · obtain ⟨hprev, hnext, hrest⟩ := h
      rw [List.nodup_cons] at hnodup
      rw [List.mem_cons, not_or] at hnull hbefore
      have hmem' : w ∈ ws := (List.mem_cons.mp hmem).resolve_left fun hw => ha hw.symm
      have hanext : a ≠ t.next w := by
        intro hn
        rcases chained_next hrest hmem' with hz | hin
        · exact hnull.1 (hz.symm.trans hn.symm)
        · exact hnodup.1 (hn ▸ hin)
      rw [List.erase_cons_tail (by simpa using ha)]
      refine ⟨?_, ?_, ih hrest hnodup.2 hnull.2 hnodup.1 hmem'⟩
      · rw [unlink_prev_of_ne ha hanext, hprev]
      · cases ws with
        | nil => cases hmem'
        | cons b ws =>
          by_cases hb : b = w
          · subst hb
            rw [List.erase_cons_head, ← hrest.1]
            rw [unlink_next_prev (hrest.1 ▸ ha) fun hz => hnull.1 (hz ▸ hrest.1)]
            exact hrest.2.1
          · rw [List.erase_cons_tail (by simpa using hb)]
            rw [unlink_next_of_ne ha ?_]
            · exact hnext
            · intro hp
              rcases chained_prev hrest hmem' with ⟨-, hhead⟩ | hin
              · exact hb (Option.some.inj hhead)
              · exact hnodup.1 (hp ▸ hin)

/-- The first node of a list without one of its nodes. -/
theorem headD_erase (h : t.Chained before ws) (hmem : w ∈ ws) :
    (ws.erase w).headD 0 = if ws.headD 0 = w then t.next w else ws.headD 0 := by
  cases ws with
  | nil => cases hmem
  | cons a ws =>
    by_cases ha : a = w
    · subst ha
      rw [List.erase_cons_head]
      exact h.2.1.symm.trans (if_pos rfl).symm
    · rw [List.erase_cons_tail (by simpa using ha)]
      exact (if_neg ha).symm

end Chains

namespace ChildLists

variable {t t' : TreeLinks α} {live : Finset α} {kids : α → List α} {v w p : α}

/-- No node has no children. -/
theorem empty (t : TreeLinks α) : ChildLists t ∅ fun _ => [] where
  null := Finset.notMem_empty 0
  parent w hw := absurd hw (Finset.notMem_empty w)
  root w hw := absurd hw (Finset.notMem_empty w)
  mem p hp := absurd hp (Finset.notMem_empty p)
  nodup p hp := absurd hp (Finset.notMem_empty p)
  first p hp := absurd hp (Finset.notMem_empty p)
  chained p hp := absurd hp (Finset.notMem_empty p)

theorem ne_zero (h : ChildLists t live kids) (hw : w ∈ live) : w ≠ 0 :=
  fun hz => h.null (hz ▸ hw)

theorem not_mem_kids_zero (h : ChildLists t live kids) (hp : p ∈ live) : 0 ∉ kids p :=
  fun hz => h.null ((h.mem p hp 0).mp hz).1

theorem mem_kids_parent (h : ChildLists t live kids) (hw : w ∈ live) (hp : t.parent w ≠ 0) :
    t.parent w ∈ live ∧ w ∈ kids (t.parent w) := by
  have hlive := (h.parent w hw).resolve_left hp
  exact ⟨hlive, (h.mem _ hlive w).mpr ⟨hw, rfl⟩⟩

/-- The first child of a node. -/
theorem child_cases (h : ChildLists t live kids) (hp : p ∈ live) :
    t.child p = 0 ∧ kids p = [] ∨ ∃ ws, kids p = t.child p :: ws := by
  have hfirst := h.first p hp
  cases hkids : kids p with
  | nil => exact .inl ⟨by rw [hfirst, hkids]; rfl, rfl⟩
  | cons a ws => exact .inr ⟨ws, by rw [hfirst, hkids]; rfl⟩

theorem child_sibling (h : ChildLists t live kids) (hp : p ∈ live) :
    t.child p = 0 ∨ t.child p ∈ live ∧ t.parent (t.child p) = p := by
  rcases h.child_cases hp with ⟨hz, -⟩ | ⟨ws, hkids⟩
  · exact .inl hz
  · exact .inr ((h.mem p hp _).mp (hkids ▸ List.mem_cons_self))

/-- The next node has the same parent. -/
theorem next_sibling (h : ChildLists t live kids) (hw : w ∈ live) :
    t.next w = 0 ∨ t.next w ∈ live ∧ t.parent (t.next w) = t.parent w := by
  by_cases hp : t.parent w = 0
  · exact .inl (h.root w hw hp).1
  · obtain ⟨hlive, hmem⟩ := h.mem_kids_parent hw hp
    exact (chained_next (h.chained _ hlive) hmem).imp id (h.mem _ hlive _).mp

theorem prev_sibling (h : ChildLists t live kids) (hw : w ∈ live) :
    t.prev w = 0 ∨ t.prev w ∈ live ∧ t.parent (t.prev w) = t.parent w := by
  by_cases hp : t.parent w = 0
  · exact .inl (h.root w hw hp).2
  · obtain ⟨hlive, hmem⟩ := h.mem_kids_parent hw hp
    exact (chained_prev (h.chained _ hlive) hmem).imp And.left (h.mem _ hlive _).mp

theorem next_prev_ne_self (h : ChildLists t live kids) (hw : w ∈ live) :
    t.next w ≠ w ∧ t.prev w ≠ w := by
  by_cases hp : t.parent w = 0
  · obtain ⟨hnext, hprev⟩ := h.root w hw hp
    rw [hnext, hprev]
    exact ⟨(h.ne_zero hw).symm, (h.ne_zero hw).symm⟩
  · obtain ⟨hlive, hmem⟩ := h.mem_kids_parent hw hp
    have hnull := h.not_mem_kids_zero hlive
    exact chained_ne_self (h.chained _ hlive) (h.nodup _ hlive) hnull hnull hmem

theorem prev_ne_next_of_parent (h : ChildLists t live kids) (hv : v ∈ live) (hw : w ∈ live)
    (hp : t.parent v ≠ t.parent w) : v ≠ t.next w ∧ v ≠ t.prev w := by
  constructor
  · rintro rfl
    rcases h.next_sibling hw with hz | ⟨-, hsame⟩
    · exact h.ne_zero hv hz
    · exact hp hsame
  · rintro rfl
    rcases h.prev_sibling hw with hz | ⟨-, hsame⟩
    · exact h.ne_zero hv hz
    · exact hp hsame

/-- The list of children is what the links to the next one go along. -/
theorem siblings_child [DecidableEq α] (h : ChildLists t live kids) (hp : p ∈ live) {n : Nat}
    (hn : live.card ≤ n) : t.siblings n (t.child p) = kids p := by
  rw [h.first p hp]
  apply siblings_chained (h.chained p hp) (h.not_mem_kids_zero hp)
  have hsub : (kids p).toFinset ⊆ live := by
    intro v hv
    exact ((h.mem p hp v).mp (List.mem_toFinset.mp hv)).1
  have hcard := Finset.card_le_card hsub
  rw [List.toFinset_card_of_nodup (h.nodup p hp)] at hcard
  omega

/-- The lists depend only on the links of the live nodes. -/
theorem congr (h : ChildLists t live kids) (hparent : ∀ v ∈ live, t'.parent v = t.parent v)
    (hchild : ∀ v ∈ live, t'.child v = t.child v) (hnext : ∀ v ∈ live, t'.next v = t.next v)
    (hprev : ∀ v ∈ live, t'.prev v = t.prev v) : ChildLists t' live kids where
  null := h.null
  parent w hw := by
    rw [hparent w hw]
    exact h.parent w hw
  root w hw hz := by
    rw [hparent w hw] at hz
    rw [hnext w hw, hprev w hw]
    exact h.root w hw hz
  mem p hp w := by
    rw [h.mem p hp w]
    exact and_congr_right fun hw => by rw [hparent w hw]
  nodup := h.nodup
  first p hp := by
    rw [hchild p hp]
    exact h.first p hp
  chained p hp := chained_congr (h.chained p hp)
    (fun v hv => hprev v ((h.mem p hp v).mp hv).1) fun v hv => hnext v ((h.mem p hp v).mp hv).1

/-- Only the children of the live nodes matter. -/
theorem congr_kids {kids' : α → List α} (h : ChildLists t live kids)
    (hkids : ∀ p ∈ live, kids' p = kids p) : ChildLists t live kids' where
  null := h.null
  parent := h.parent
  root := h.root
  mem p hp := hkids p hp ▸ h.mem p hp
  nodup p hp := hkids p hp ▸ h.nodup p hp
  first p hp := hkids p hp ▸ h.first p hp
  chained p hp := hkids p hp ▸ h.chained p hp

variable [DecidableEq α]

/-- Taking a node out of its list. -/
theorem unlink (h : ChildLists t live kids) (hw : w ∈ live) :
    ChildLists (t.unlink w) live fun p => (kids p).erase w where
  null := h.null
  parent v hv := by
    show (if v = w then 0 else t.parent v) = 0 ∨ (if v = w then 0 else t.parent v) ∈ live
    split
    · exact .inl rfl
    · exact h.parent v hv
  root v hv hz := by
    by_cases hvw : v = w
    · simp [TreeLinks.unlink, hvw]
    · have hpar : t.parent v = 0 := by simpa [TreeLinks.unlink, hvw] using hz
      obtain ⟨hnext, hprev⟩ := h.root v hv hpar
      have hvn : v ≠ t.next w ∧ v ≠ t.prev w := by
        by_cases hsame : t.parent v = t.parent w
        · obtain ⟨hn, hp⟩ := h.root w hw (hsame ▸ hpar)
          rw [hn, hp]
          exact ⟨h.ne_zero hv, h.ne_zero hv⟩
        · exact h.prev_ne_next_of_parent hv hw hsame
      rw [unlink_next_of_ne hvw hvn.2, unlink_prev_of_ne hvw hvn.1]
      exact ⟨hnext, hprev⟩
  mem p hp v := by
    rw [(h.nodup p hp).mem_erase_iff, h.mem p hp v]
    show _ ↔ v ∈ live ∧ (if v = w then 0 else t.parent v) = p
    by_cases hvw : v = w
    · simp [hvw, (h.ne_zero hp).symm]
    · simp [hvw]
  nodup p hp := (h.nodup p hp).erase w
  first p hp := by
    show (if p = t.parent w ∧ p ≠ 0 ∧ t.child p = w then t.next w else t.child p) = _
    by_cases hpar : p = t.parent w
    · have hmem : w ∈ kids p := (h.mem p hp w).mpr ⟨hw, hpar.symm⟩
      rw [headD_erase (h.chained p hp) hmem, ← h.first p hp]
      simp [hpar ▸ h.ne_zero hp, hpar]
    · have hmem : w ∉ kids p := fun hin => hpar ((h.mem p hp w).mp hin).2.symm
      rw [List.erase_of_not_mem hmem, if_neg fun hc => hpar hc.1]
      exact h.first p hp
  chained p hp := by
    by_cases hpar : p = t.parent w
    · have hmem : w ∈ kids p := (h.mem p hp w).mpr ⟨hw, hpar.symm⟩
      have hnull := h.not_mem_kids_zero hp
      exact chained_erase (h.chained p hp) (h.nodup p hp) hnull hnull hmem
    · have hmem : w ∉ kids p := fun hin => hpar ((h.mem p hp w).mp hin).2.symm
      have hapart : ∀ v ∈ kids p, v ≠ w ∧ v ≠ t.next w ∧ v ≠ t.prev w := by
        intro v hv
        obtain ⟨hvlive, hvp⟩ := (h.mem p hp v).mp hv
        exact ⟨fun hvw => hmem (hvw ▸ hv),
          h.prev_ne_next_of_parent hvlive hw fun hsame => hpar (hvp.symm.trans hsame)⟩
      rw [List.erase_of_not_mem hmem]
      apply chained_congr (h.chained p hp)
      · exact fun v hv => unlink_prev_of_ne (hapart v hv).1 (hapart v hv).2.1
      · exact fun v hv => unlink_next_of_ne (hapart v hv).1 (hapart v hv).2.2

/-- Putting a node without a parent in front of the children of a node. -/
theorem linkFront (h : ChildLists t live kids) (hp : p ∈ live) (hw : w ∈ live)
    (hroot : t.parent w = 0) :
    ChildLists (t.linkFront p w) live fun q => if q = p then w :: kids p else kids q where
  null := h.null
  parent v hv := by
    show (if v = w then p else t.parent v) = 0 ∨ (if v = w then p else t.parent v) ∈ live
    split
    · exact .inr hp
    · exact h.parent v hv
  root v hv hz := by
    by_cases hvw : v = w
    · simp [TreeLinks.linkFront, hvw, h.ne_zero hp] at hz
    · have hpar : t.parent v = 0 := by simpa [TreeLinks.linkFront, hvw] using hz
      have hfirst : v ≠ t.child p := by
        rintro rfl
        rcases h.child_sibling hp with hc | ⟨-, hc⟩
        · exact h.ne_zero hv hc
        · exact h.ne_zero hp (hc.symm.trans hpar)
      simpa [TreeLinks.linkFront, hvw, hfirst] using h.root v hv hpar
  mem q hq v := by
    have hw' : ∀ q ∈ live, w ∉ kids q := fun q hq hin => h.ne_zero hq
      (((h.mem q hq w).mp hin).2.symm.trans hroot)
    show _ ↔ v ∈ live ∧ (if v = w then p else t.parent v) = q
    by_cases hvw : v = w
    · subst hvw
      by_cases hqp : q = p
      · simp [hqp, hw]
      · simp [hqp, hw' q hq, Ne.symm hqp]
    · by_cases hqp : q = p
      · simp [hqp, hvw, h.mem p hp v]
      · simp [hqp, hvw, h.mem q hq v]
  nodup q hq := by
    split
    · apply List.nodup_cons.mpr
      refine ⟨fun hin => ?_, h.nodup p hp⟩
      exact h.ne_zero hp (((h.mem p hp w).mp hin).2.symm.trans hroot)
    · exact h.nodup q hq
  first q hq := by
    show (if q = p then w else t.child q) = _
    by_cases hqp : q = p
    · simp [hqp]
    · simp [hqp, h.first q hq]
  chained q hq := by
    have hother : ∀ q ∈ live, ∀ v ∈ kids q, v ≠ w := fun q hq v hv hvw => h.ne_zero hq
      (((h.mem q hq v).mp hv).2.symm.trans (hvw ▸ hroot))
    have hnext : ∀ q ∈ live, ∀ v ∈ kids q, (t.linkFront p w).next v = t.next v :=
      fun q hq v hv => if_neg (hother q hq v hv)
    have hprev : ∀ q ∈ live, ∀ v ∈ kids q, v ≠ t.child p →
        (t.linkFront p w).prev v = t.prev v := by
      intro q hq v hv hfirst
      simp [TreeLinks.linkFront, hother q hq v hv, hfirst]
    by_cases hqp : q = p
    · subst hqp
      rw [if_pos rfl]
      refine ⟨if_pos rfl, (if_pos rfl).trans (h.first q hq), ?_⟩
      have hchain := h.chained q hq
      have hnodup := h.nodup q hq
      have hwq := hother q hq
      have hnextq := hnext q hq
      have hprevq := hprev q hq
      rcases h.child_cases hq with ⟨-, hkids⟩ | ⟨ws, hkids⟩
      · rw [hkids]
        trivial
      · have hfirst : t.child q ∈ kids q := hkids ▸ List.mem_cons_self
        have hzero : t.child q ≠ 0 := fun hz => h.not_mem_kids_zero hq (hz ▸ hfirst)
        rw [hkids] at hchain hnodup hwq hnextq hprevq ⊢
        refine ⟨?_, (hnextq _ List.mem_cons_self).trans hchain.2.1,
          chained_congr hchain.2.2 ?_ ?_⟩
        · simp [TreeLinks.linkFront, hwq _ List.mem_cons_self, hzero]
        · intro v hv
          apply hprevq v (List.mem_cons_of_mem _ hv)
          exact fun hvc => (List.nodup_cons.mp hnodup).1 (hvc ▸ hv)
        · exact fun v hv => hnextq v (List.mem_cons_of_mem _ hv)
    · rw [if_neg hqp]
      apply chained_congr (h.chained q hq) _ (hnext q hq)
      intro v hv
      apply hprev q hq v hv
      rintro rfl
      rcases h.child_sibling hp with hz | ⟨-, hc⟩
      · exact h.not_mem_kids_zero hq (hz ▸ hv)
      · exact hqp (((h.mem q hq _).mp hv).2.symm.trans hc)

/-- A new node without links. -/
theorem insert (h : ChildLists t live kids) (hzero : w ≠ 0) (hw : w ∉ live) (hparent : t.parent w = 0)
    (hchild : t.child w = 0) (hnext : t.next w = 0) (hprev : t.prev w = 0) :
    ChildLists t (insert w live) fun p => if p = w then [] else kids p where
  null hz := (Finset.mem_insert.mp hz).elim (fun hz => hzero hz.symm) h.null
  parent v hv := by
    rcases Finset.mem_insert.mp hv with rfl | hv
    · exact .inl hparent
    · exact (h.parent v hv).imp id (Finset.mem_insert_of_mem)
  root v hv hz := by
    rcases Finset.mem_insert.mp hv with rfl | hv
    · exact ⟨hnext, hprev⟩
    · exact h.root v hv hz
  mem p hp v := by
    rw [Finset.mem_insert]
    by_cases hpw : p = w
    · rw [if_pos hpw]
      constructor
      · intro hv
        cases hv
      · rintro ⟨rfl | hv, hvp⟩
        · exact absurd (hpw ▸ hvp.symm.trans hparent) hzero
        · rcases h.parent v hv with hz | hlive
          · exact absurd (hpw ▸ hvp.symm.trans hz) hzero
          · exact absurd (hpw ▸ hvp ▸ hlive) hw
    · have hlive := (Finset.mem_insert.mp hp).resolve_left hpw
      rw [if_neg hpw, h.mem p hlive v]
      constructor
      · exact fun hv => ⟨.inr hv.1, hv.2⟩
      · rintro ⟨rfl | hv, hvp⟩
        · exact absurd (hvp.symm.trans hparent) (h.ne_zero hlive)
        · exact ⟨hv, hvp⟩
  nodup p hp := by
    split
    · exact List.nodup_nil
    · next hpw => exact h.nodup p ((Finset.mem_insert.mp hp).resolve_left hpw)
  first p hp := by
    split
    · next hpw => exact hpw ▸ hchild
    · next hpw => exact h.first p ((Finset.mem_insert.mp hp).resolve_left hpw)
  chained p hp := by
    split
    · trivial
    · next hpw => exact h.chained p ((Finset.mem_insert.mp hp).resolve_left hpw)

/-- Without a node that has no parent and no children. -/
theorem erase (h : ChildLists t live kids) (hw : w ∈ live) (hparent : t.parent w = 0)
    (hkids : kids w = []) : ChildLists t (live.erase w) kids where
  null hz := h.null (Finset.mem_of_mem_erase hz)
  parent v hv := by
    have hv := Finset.mem_of_mem_erase hv
    rcases h.parent v hv with hz | hlive
    · exact .inl hz
    · refine .inr (Finset.mem_erase.mpr ⟨fun hpw => ?_, hlive⟩)
      have hin : v ∈ kids w := (h.mem w hw v).mpr ⟨hv, hpw⟩
      rw [hkids] at hin
      cases hin
  root v hv := h.root v (Finset.mem_of_mem_erase hv)
  mem p hp v := by
    have hlive := Finset.mem_of_mem_erase hp
    rw [h.mem p hlive v, Finset.mem_erase]
    constructor
    · rintro ⟨hv, hvp⟩
      refine ⟨⟨?_, hv⟩, hvp⟩
      rintro rfl
      exact h.ne_zero hlive (hvp.symm.trans hparent)
    · exact fun hv => ⟨hv.1.2, hv.2⟩
  nodup p hp := h.nodup p (Finset.mem_of_mem_erase hp)
  first p hp := h.first p (Finset.mem_of_mem_erase hp)
  chained p hp := h.chained p (Finset.mem_of_mem_erase hp)

end ChildLists

namespace Forest

variable {t t' : TreeLinks α} {live : Finset α} {kids : α → List α} {v w p : α}

/-- No node is a forest. -/
theorem empty (t : TreeLinks α) : Forest t ∅ fun _ => [] where
  toChildLists := .empty t
  acyclic w hcycle := by
    rcases Relation.TransGen.head'_iff.mp hcycle with ⟨u, hwu, -⟩
    exact Finset.notMem_empty w hwu.1

theorem parent_ne_self (h : Forest t live kids) (hw : w ∈ live) : t.parent w ≠ w :=
  fun hp => h.acyclic w (.single ⟨hw, hp, h.ne_zero hw⟩)

/-- A forest depends only on the links of its live nodes. -/
theorem congr (h : Forest t live kids) (hparent : ∀ v ∈ live, t'.parent v = t.parent v)
    (hchild : ∀ v ∈ live, t'.child v = t.child v) (hnext : ∀ v ∈ live, t'.next v = t.next v)
    (hprev : ∀ v ∈ live, t'.prev v = t.prev v) : Forest t' live kids where
  toChildLists := h.toChildLists.congr hparent hchild hnext hprev
  acyclic w hcycle := by
    apply h.acyclic w
    apply Relation.TransGen.mono _ w w hcycle
    intro a b hab
    exact ⟨hab.1, (hparent a hab.1) ▸ hab.2.1, hab.2.2⟩

/-- Only the children of the live nodes matter. -/
theorem congr_kids {kids' : α → List α} (h : Forest t live kids)
    (hkids : ∀ p ∈ live, kids' p = kids p) : Forest t live kids' where
  toChildLists := h.toChildLists.congr_kids hkids
  acyclic := h.acyclic

variable [DecidableEq α] {live' : Finset α}

/-- Where no node gets a parent, no cycle is made. -/
theorem acyclic_of_parent (h : Forest t live kids) (hlive : live' ⊆ live)
    (hparent : ∀ v ∈ live', t'.parent v = 0 ∨ t'.parent v = t.parent v) (w : α) :
    ¬ Relation.TransGen (t'.ChildOf live') w w := by
  intro hcycle
  apply h.acyclic w
  apply Relation.TransGen.mono _ w w hcycle
  rintro a b ⟨ha, hb, hne⟩
  rcases hparent a ha with hz | hsame
  · exact absurd (hb.symm.trans hz) hne
  · exact ⟨hlive ha, hsame.symm.trans hb, hne⟩

/-- Below a node is nothing new when a node is taken out of its list. -/
theorem within_unlink (hv : (t.unlink w).Within live v p) : t.Within live v p := by
  refine Relation.ReflTransGen.mono ?_ v p hv
  rintro a b ⟨ha, hb, hne⟩
  by_cases haw : a = w
  · exact absurd (by simpa [TreeLinks.unlink, haw] using hb.symm) hne
  · exact ⟨ha, by simpa [TreeLinks.unlink, haw] using hb, hne⟩

/-- Taking a node out of its list leaves a forest. -/
theorem unlink (h : Forest t live kids) (hw : w ∈ live) :
    Forest (t.unlink w) live fun p => (kids p).erase w where
  toChildLists := h.toChildLists.unlink hw
  acyclic := by
    apply h.acyclic_of_parent (Finset.Subset.refl live)
    intro v _
    show (if v = w then 0 else t.parent v) = 0 ∨ (if v = w then 0 else t.parent v) = t.parent v
    split
    · exact .inl rfl
    · exact .inr rfl

/-- A new edge into a relation without cycles makes none where no path leads back. -/
theorem transGen_split {r r' : α → α → Prop} {x y : α}
    (hr : ∀ a b, r' a b → r a b ∨ a = w ∧ b = p) (h : Relation.TransGen r' x y) :
    Relation.TransGen r x y ∨ Relation.ReflTransGen r x w ∧ Relation.ReflTransGen r p y := by
  induction h with
  | single hab =>
    rcases hr _ _ hab with hab | ⟨rfl, rfl⟩
    · exact .inl (.single hab)
    · exact .inr ⟨.refl, .refl⟩
  | tail _ hbc ih =>
    rcases hr _ _ hbc with hbc | ⟨rfl, rfl⟩
    · exact ih.imp (fun h => h.tail hbc) fun h => ⟨h.1, h.2.tail hbc⟩
    · rcases ih with h | h
      · exact .inr ⟨h.to_reflTransGen, .refl⟩
      · exact .inr ⟨h.1, .refl⟩

/-- Putting a node without a parent in front of the children of a node that is not below it. -/
theorem linkFront (h : Forest t live kids) (hp : p ∈ live) (hw : w ∈ live)
    (hroot : t.parent w = 0) (hbelow : ¬ t.Within live p w) :
    Forest (t.linkFront p w) live fun q => if q = p then w :: kids p else kids q where
  toChildLists := h.toChildLists.linkFront hp hw hroot
  acyclic v hcycle := by
    have hsplit : ∀ a b, (t.linkFront p w).ChildOf live a b →
        t.ChildOf live a b ∨ a = w ∧ b = p := by
      rintro a b ⟨ha, hb, hne⟩
      by_cases haw : a = w
      · exact .inr ⟨haw, by simpa [TreeLinks.linkFront, haw] using hb.symm⟩
      · exact .inl ⟨ha, by simpa [TreeLinks.linkFront, haw] using hb, hne⟩
    rcases transGen_split hsplit hcycle with hold | ⟨hto, hfrom⟩
    · exact h.acyclic v hold
    · exact hbelow (hfrom.trans hto)

/-- A new node without links. -/
theorem insert (h : Forest t live kids) (hzero : w ≠ 0) (hw : w ∉ live) (hparent : t.parent w = 0)
    (hchild : t.child w = 0) (hnext : t.next w = 0) (hprev : t.prev w = 0) :
    Forest t (insert w live) fun p => if p = w then [] else kids p where
  toChildLists := h.toChildLists.insert hzero hw hparent hchild hnext hprev
  acyclic v hcycle := by
    apply h.acyclic v
    have hedge : ∀ a b, t.ChildOf (Insert.insert w live) a b → t.ChildOf live a b := by
      rintro a b ⟨ha, hb, hne⟩
      rcases Finset.mem_insert.mp ha with rfl | ha
      · exact absurd (hb.symm.trans hparent) hne
      · exact ⟨ha, hb, hne⟩
    exact Relation.TransGen.mono hedge v v hcycle

/-- Without a node that has no parent and no children. -/
theorem erase (h : Forest t live kids) (hw : w ∈ live) (hparent : t.parent w = 0)
    (hkids : kids w = []) : Forest t (live.erase w) kids where
  toChildLists := h.toChildLists.erase hw hparent hkids
  acyclic := h.acyclic_of_parent (Finset.erase_subset w live) fun _ _ => .inr rfl

end Forest

section Subtrees

variable {t : TreeLinks α} {live : Finset α} {kids kids' : α → List α} {v w c d : α}

/-- A node has one parent, so of two nodes above it one is above the other. -/
theorem within_total (hc : t.Within live v c) (hd : t.Within live v d) :
    t.Within live c d ∨ t.Within live d c := by
  refine Relation.ReflTransGen.total_of_right_unique ?_ hc hd
  intro a b b' hb hb'
  exact hb.2.1.symm.trans hb'.2.1

theorem within_live (h : t.Within live v w) (hw : w ∈ live) : v ∈ live := by
  rcases Relation.ReflTransGen.cases_head h with rfl | ⟨u, hvu, -⟩
  · exact hw
  · exact hvu.1

namespace Forest

/-- A node is below another one when it is below one of its children. -/
theorem within_iff (h : Forest t live kids) (hw : w ∈ live) :
    t.Within live v w ↔ v = w ∨ ∃ c ∈ kids w, t.Within live v c := by
  constructor
  · intro hv
    rcases Relation.ReflTransGen.cases_tail hv with rfl | ⟨c, hvc, hcw⟩
    · exact .inl rfl
    · exact .inr ⟨c, (h.mem w hw c).mpr ⟨hcw.1, hcw.2.1⟩, hvc⟩
  · rintro (rfl | ⟨c, hc, hvc⟩)
    · exact .refl
    · obtain ⟨hlive, hparent⟩ := (h.mem w hw c).mp hc
      exact hvc.tail ⟨hlive, hparent, h.ne_zero hw⟩

/-- A node is not below its children. -/
theorem not_within_child (h : Forest t live kids) (hw : w ∈ live) (hc : c ∈ kids w) :
    ¬ t.Within live w c := by
  intro hwc
  obtain ⟨hlive, hparent⟩ := (h.mem w hw c).mp hc
  exact h.acyclic w (.tail' hwc ⟨hlive, hparent, h.ne_zero hw⟩)

/-- A child is not below another child. -/
theorem not_within_sibling (h : Forest t live kids) (hw : w ∈ live) (hc : c ∈ kids w)
    (hd : d ∈ kids w) (hne : c ≠ d) : ¬ t.Within live c d := by
  intro hcd
  rcases Relation.ReflTransGen.cases_head hcd with heq | ⟨u, hcu, hud⟩
  · exact hne heq
  · have hu : u = w := hcu.2.1.symm.trans ((h.mem w hw c).mp hc).2
    exact h.not_within_child hw hd (hu ▸ hud)

/-- No node is below two children of a node. -/
theorem within_unique (h : Forest t live kids) (hw : w ∈ live) (hc : c ∈ kids w)
    (hd : d ∈ kids w) (hvc : t.Within live v c) (hvd : t.Within live v d) : c = d := by
  by_contra hne
  rcases within_total hvc hvd with hcd | hdc
  · exact h.not_within_sibling hw hc hd hne hcd
  · exact h.not_within_sibling hw hd hc (Ne.symm hne) hdc

open Classical in
/-- The live nodes below a node, and the node. -/
noncomputable def subtree (t : TreeLinks α) (live : Finset α) (w : α) : Finset α :=
  live.filter fun v => t.Within live v w

theorem mem_subtree : v ∈ subtree t live w ↔ v ∈ live ∧ t.Within live v w := by
  simp [subtree]

/-- There are fewer nodes below a child. -/
theorem subtree_card_lt (h : Forest t live kids) (hw : w ∈ live) (hc : c ∈ kids w) :
    (subtree t live c).card < (subtree t live w).card := by
  apply Finset.card_lt_card
  apply (Finset.ssubset_iff_of_subset ?_).mpr
  · refine ⟨w, mem_subtree.mpr ⟨hw, .refl⟩, fun hin => ?_⟩
    exact h.not_within_child hw hc (mem_subtree.mp hin).2
  · intro v hv
    obtain ⟨hlive, hvc⟩ := mem_subtree.mp hv
    exact mem_subtree.mpr ⟨hlive, (h.within_iff hw).mpr (.inr ⟨c, hc, hvc⟩)⟩

/-- The children of a node are below it. -/
theorem length_kids_lt [DecidableEq α] (h : Forest t live kids) (hw : w ∈ live) :
    (kids w).length < (subtree t live w).card := by
  have hsub : Insert.insert w (kids w).toFinset ⊆ subtree t live w := by
    intro v hv
    rcases Finset.mem_insert.mp hv with rfl | hv
    · exact mem_subtree.mpr ⟨hw, .refl⟩
    · have hin := List.mem_toFinset.mp hv
      exact mem_subtree.mpr ⟨((h.mem w hw v).mp hin).1,
        (h.within_iff hw).mpr (.inr ⟨v, hin, .refl⟩)⟩
  have hnot : w ∉ (kids w).toFinset := fun hin =>
    h.parent_ne_self hw ((h.mem w hw w).mp (List.mem_toFinset.mp hin)).2
  have hcard := Finset.card_le_card hsub
  rw [Finset.card_insert_of_notMem hnot, List.toFinset_card_of_nodup (h.nodup w hw)] at hcard
  omega

/-- The post-order has exactly the node and those below it. -/
theorem mem_postOrder (h : Forest t live kids) (hw : w ∈ live) {n : Nat}
    (hn : (subtree t live w).card ≤ n) : v ∈ postOrder kids n w ↔ t.Within live v w := by
  induction n generalizing w with
  | zero =>
    have hpos : 0 < (subtree t live w).card :=
      Finset.card_pos.mpr ⟨w, mem_subtree.mpr ⟨hw, .refl⟩⟩
    omega
  | succ n ih =>
    have hkids : ∀ c ∈ kids w, (v ∈ postOrder kids n c ↔ t.Within live v c) := by
      intro c hc
      have hlt := h.subtree_card_lt hw hc
      exact ih ((h.mem w hw c).mp hc).1 (by omega)
    rw [h.within_iff hw, postOrder, List.mem_append, List.mem_flatMap, List.mem_singleton, or_comm]
    apply or_congr_right
    exact exists_congr fun c => and_congr_right (hkids c)

/-- The post-order depends only on the children of the node and those below it. -/
theorem postOrder_congr (h : Forest t live kids) (hw : w ∈ live)
    (hkids : ∀ v, t.Within live v w → kids' v = kids v) (n : Nat) :
    postOrder kids' n w = postOrder kids n w := by
  induction n generalizing w with
  | zero => rfl
  | succ n ih =>
    show (kids' w).flatMap _ ++ [w] = (kids w).flatMap _ ++ [w]
    rw [hkids w .refl]
    congr 1
    apply List.flatMap_congr
    intro c hc
    apply ih ((h.mem w hw c).mp hc).1
    exact fun v hv => hkids v ((h.within_iff hw).mpr (.inr ⟨c, hc, hv⟩))

end Forest

variable {t' : TreeLinks α} {live' : Finset α}

/-- What is below a node that is left was below it before. -/
theorem Pruned.within (h : Pruned t t' live live' c) (hv : t'.Within live' v w) :
    t.Within live v w := by
  refine Relation.ReflTransGen.mono ?_ v w hv
  intro a b hab
  exact ⟨((h.live a).mp hab.1).1, h.parent a hab.1 ▸ hab.2.1, hab.2.2⟩

/-- What is left below a node is all that was not below the one that is gone. -/
theorem Pruned.within_iff (h : Pruned t t' live live' c) (hv : ¬ t.Within live v c) :
    t'.Within live' v w ↔ t.Within live v w := by
  refine ⟨h.within, fun hw => ?_⟩
  induction hw using Relation.ReflTransGen.head_induction_on with
  | refl => exact .refl
  | head hab _ ih =>
    have ha := (h.live _).mpr ⟨hab.1, hv⟩
    refine .head ⟨ha, (h.parent _ ha).trans hab.2.1, hab.2.2⟩ (ih fun hb => ?_)
    exact hv (.head hab hb)

theorem Pruned.subtree_card_le (h : Pruned t t' live live' c) :
    (Forest.subtree t' live' w).card ≤ (Forest.subtree t live w).card := by
  apply Finset.card_le_card
  intro v hv
  obtain ⟨hlive, hvw⟩ := Forest.mem_subtree.mp hv
  exact Forest.mem_subtree.mpr ⟨((h.live v).mp hlive).1, h.within hvw⟩

end Subtrees

end Wbox.Lib
