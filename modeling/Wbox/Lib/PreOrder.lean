import Wbox.Lib.Forest

/-!
# The pre-order of a forest and the walk along its links

The nodes below a node, each before the nodes below it; and the walk that needs no stack: down to
the first child, or on to the next sibling, or else up to the first parent that has one, no further
than below a node it stops at. The walk goes through the nodes in pre-order.
-/

namespace Wbox.Lib

variable {α : Type} [Zero α]

/-- The nodes below a node, and the node, each before the nodes below it. -/
def preOrder (kids : α → List α) : Nat → α → List α
  | 0, _ => []
  | n + 1, w => w :: (kids w).flatMap (preOrder kids n)

namespace TreeLinks

variable (t : TreeLinks α) (d : α)

/-- Where the walk goes when it leaves the nodes below `w`, 0 if it ends: to the next sibling, or
where it goes from the parent. -/
inductive LeavesTo : α → α → Prop where
  | sibling {w : α} (hnext : t.next w ≠ 0) : LeavesTo w (t.next w)
  | stop {w : α} (hnext : t.next w = 0) (hparent : t.parent w = 0 ∨ t.parent w = d) : LeavesTo w 0
  | up {w v : α} (hnext : t.next w = 0) (hparent : t.parent w ≠ 0) (hstop : t.parent w ≠ d)
      (hleaves : LeavesTo (t.parent w) v) : LeavesTo w v

/-- The nodes the walk goes through from a node on. -/
inductive Visits : α → List α → Prop where
  | done : Visits 0 []
  | down {w : α} {ws : List α} (hw : w ≠ 0) (hchild : t.child w ≠ 0)
      (hrest : Visits (t.child w) ws) : Visits w (w :: ws)
  | leave {w v : α} {ws : List α} (hw : w ≠ 0) (hchild : t.child w = 0)
      (hleaves : t.LeavesTo d w v) (hrest : Visits v ws) : Visits w (w :: ws)

end TreeLinks

variable {t : TreeLinks α} {live : Finset α} {kids : α → List α} {d v w p : α} {ws : List α}

/-- The walk leaves a node for one place. -/
theorem TreeLinks.LeavesTo.unique {u : α} (h : t.LeavesTo d w v) (h' : t.LeavesTo d w u) : v = u := by
  induction h with
  | sibling hnext =>
    cases h' with
    | sibling _ => rfl
    | stop hz _ => exact absurd hz hnext
    | up hz _ _ _ => exact absurd hz hnext
  | stop hnext hstop =>
    cases h' with
    | sibling hne => exact absurd hnext hne
    | stop _ _ => rfl
    | up _ hparent hd _ => exact absurd hstop (not_or.mpr ⟨hparent, hd⟩)
  | up hnext hparent hd _ ih =>
    cases h' with
    | sibling hne => exact absurd hnext hne
    | stop _ hstop => exact absurd hstop (not_or.mpr ⟨hparent, hd⟩)
    | up _ _ _ hleaves => exact ih hleaves

/-- It goes through the same nodes every time. -/
theorem TreeLinks.Visits.unique {us : List α} (h : t.Visits d w ws) (h' : t.Visits d w us) :
    ws = us := by
  induction h generalizing us with
  | done =>
    cases h' with
    | done => rfl
    | down hw _ _ => exact absurd rfl hw
    | leave hw _ _ _ => exact absurd rfl hw
  | down hw hchild _ ih =>
    cases h' with
    | done => exact absurd rfl hw
    | down _ _ hrest => rw [ih hrest]
    | leave _ hz _ _ => exact absurd hz hchild
  | leave hw hchild hleaves _ ih =>
    cases h' with
    | done => exact absurd rfl hw
    | down _ hne _ => exact absurd hchild hne
    | leave _ _ hleaves' hrest => rw [ih (hleaves.unique hleaves' ▸ hrest)]

/-- The rest of a list of children is a list. -/
theorem chained_suffix {before : α} {as bs : List α} (h : t.Chained before (as ++ w :: bs)) :
    t.next w = bs.headD 0 ∧ t.Chained w bs := by
  induction as generalizing before with
  | nil => exact h.2
  | cons a as ih => exact ih h.2.2

/-- The children of a node are gone through one after the other, each with what is below it. -/
theorem visits_children {order : α → List α} {cs : List α} {before : α}
    (hchained : t.Chained before cs) (hnull : 0 ∉ cs) (hne : cs ≠ [])
    (hend : ∀ c ∈ cs, t.next c = 0 → t.LeavesTo d c v) (hrest : t.Visits d v ws)
    (hvisit : ∀ c ∈ cs, ∀ u us, t.LeavesTo d c u → t.Visits d u us →
      t.Visits d c (order c ++ us)) :
    t.Visits d (cs.headD 0) (cs.flatMap order ++ ws) := by
  induction cs generalizing before with
  | nil => exact absurd rfl hne
  | cons c cs ih =>
    obtain ⟨-, hnext, hcs⟩ := hchained
    rw [List.mem_cons, not_or] at hnull
    have hc := List.mem_cons_self (a := c) (l := cs)
    rw [List.flatMap_cons, List.append_assoc]
    cases cs with
    | nil => exact hvisit c hc v ws (hend c hc hnext) hrest
    | cons e es =>
      have he : e ≠ 0 := fun hz => hnull.2 (hz ▸ List.mem_cons_self)
      have hsibling : t.next c ≠ 0 := hnext ▸ he
      have htail := ih hcs hnull.2 (by simp)
        (fun x hx => hend x (List.mem_cons_of_mem c hx))
        (fun x hx => hvisit x (List.mem_cons_of_mem c hx))
      apply hvisit c hc (t.next c) _ (.sibling hsibling)
      rw [hnext]
      exact htail

namespace Forest

/-- What is below a node is gone through in pre-order, and then the walk leaves it. -/
theorem visits_preOrder (h : Forest t live kids) (hw : w ∈ live) (hd : ¬ t.Within live d w) {n : Nat}
    (hn : (subtree t live w).card ≤ n) (hleaves : t.LeavesTo d w v) (hrest : t.Visits d v ws) :
    t.Visits d w (preOrder kids n w ++ ws) := by
  induction n generalizing w v ws with
  | zero =>
    have hpos : 0 < (subtree t live w).card :=
      Finset.card_pos.mpr ⟨w, mem_subtree.mpr ⟨hw, .refl⟩⟩
    omega
  | succ n ih =>
    have hzero := h.ne_zero hw
    show t.Visits d w (w :: ((kids w).flatMap (preOrder kids n) ++ ws))
    by_cases hkids : kids w = []
    · have hchild : t.child w = 0 := by rw [h.first w hw, hkids, List.headD_nil]
      rw [hkids]
      exact .leave hzero hchild hleaves hrest
    · have hwd : w ≠ d := fun heq => hd (heq ▸ .refl)
      have hnull : 0 ∉ kids w := h.not_mem_kids_zero hw
      have hchild : t.child w ≠ 0 := by
        rw [h.first w hw]
        intro hz
        cases hcs : kids w with
        | nil => exact hkids hcs
        | cons c cs =>
          rw [hcs] at hz hnull
          exact hnull (hz ▸ List.mem_cons_self)
      refine .down hzero hchild ?_
      rw [h.first w hw]
      apply visits_children (h.chained w hw) hnull hkids _ hrest
      · intro c hc u us hu hus
        have hlt := h.subtree_card_lt hw hc
        apply ih ((h.mem w hw c).mp hc).1 _ (by omega) hu hus
        exact fun hdc => hd ((h.within_iff hw).mpr (.inr ⟨c, hc, hdc⟩))
      · intro c hc hnext
        have hparent := ((h.mem w hw c).mp hc).2
        apply TreeLinks.LeavesTo.up hnext
        · rwa [hparent]
        · rwa [hparent]
        · rwa [hparent]

/-- The walk from the first child of a node goes through what is below the node, and ends. -/
theorem visits_below (h : Forest t live kids) (hd : d ∈ live) {n : Nat}
    (hn : (subtree t live d).card ≤ n + 1) :
    t.Visits d (t.child d) ((kids d).flatMap (preOrder kids n)) := by
  rw [h.first d hd]
  by_cases hkids : kids d = []
  · rw [hkids]
    exact .done
  · rw [← List.append_nil ((kids d).flatMap (preOrder kids n))]
    apply visits_children (h.chained d hd) (h.not_mem_kids_zero hd) hkids _ .done
    · intro c hc u us hu hus
      have hlt := h.subtree_card_lt hd hc
      exact h.visits_preOrder ((h.mem d hd c).mp hc).1 (h.not_within_child hd hc) (by omega) hu hus
    · intro c hc hnext
      exact .stop hnext (.inr ((h.mem d hd c).mp hc).2)

/-- The pre-order has exactly the node and those below it. -/
theorem mem_preOrder (h : Forest t live kids) (hw : w ∈ live) {n : Nat}
    (hn : (subtree t live w).card ≤ n) : v ∈ preOrder kids n w ↔ t.Within live v w := by
  induction n generalizing w with
  | zero =>
    have hpos : 0 < (subtree t live w).card :=
      Finset.card_pos.mpr ⟨w, mem_subtree.mpr ⟨hw, .refl⟩⟩
    omega
  | succ n ih =>
    have hkids : ∀ c ∈ kids w, (v ∈ preOrder kids n c ↔ t.Within live v c) := by
      intro c hc
      have hlt := h.subtree_card_lt hw hc
      exact ih ((h.mem w hw c).mp hc).1 (by omega)
    rw [h.within_iff hw, preOrder, List.mem_cons, List.mem_flatMap]
    apply or_congr_right
    exact exists_congr fun c => and_congr_right (hkids c)

/-- Below a node are the nodes at and below its children. -/
theorem mem_below (h : Forest t live kids) (hd : d ∈ live) {n : Nat}
    (hn : (subtree t live d).card ≤ n + 1) :
    v ∈ (kids d).flatMap (preOrder kids n) ↔ t.Within live v d ∧ v ≠ d := by
  rw [List.mem_flatMap]
  constructor
  · intro hv
    obtain ⟨c, hc, hvc⟩ := hv
    have hlt := h.subtree_card_lt hd hc
    rw [h.mem_preOrder ((h.mem d hd c).mp hc).1 (by omega)] at hvc
    refine ⟨(h.within_iff hd).mpr (.inr ⟨c, hc, hvc⟩), ?_⟩
    rintro rfl
    exact h.not_within_child hd hc hvc
  · intro hv
    obtain ⟨c, hc, hvc⟩ := ((h.within_iff hd).mp hv.1).resolve_left hv.2
    have hlt := h.subtree_card_lt hd hc
    exact ⟨c, hc, (h.mem_preOrder ((h.mem d hd c).mp hc).1 (by omega)).mpr hvc⟩

/-- There are no more nodes below one than there are. -/
theorem subtree_card_le (t : TreeLinks α) (live : Finset α) (w : α) :
    (subtree t live w).card ≤ live.card :=
  Finset.card_le_card fun _ hv => (mem_subtree.mp hv).1

open Classical in
/-- A parent has a smaller rank than its children: the number of nodes above. -/
theorem exists_rank (h : Forest t live kids) :
    ∃ rank : α → Nat, ∀ w ∈ live, t.parent w ≠ 0 → rank (t.parent w) < rank w := by
  refine ⟨fun w => (live.filter fun v => t.Within live w v).card, fun w hw hparent => ?_⟩
  have hedge : t.ChildOf live w (t.parent w) := ⟨hw, rfl, hparent⟩
  apply Finset.card_lt_card
  apply (Finset.ssubset_iff_of_subset ?_).mpr
  · refine ⟨w, Finset.mem_filter.mpr ⟨hw, .refl⟩, fun hin => ?_⟩
    exact h.acyclic w (.head' hedge (Finset.mem_filter.mp hin).2)
  · intro v hv
    obtain ⟨hlive, hwithin⟩ := Finset.mem_filter.mp hv
    exact Finset.mem_filter.mpr ⟨hlive, hwithin.head hedge⟩

/-- A walk that nothing stops ends from every node. -/
theorem exists_visits (h : Forest t live kids) (hw : w ∈ live) :
    ∃ v ws, t.LeavesTo 0 w v ∧ t.Visits 0 v ws := by
  obtain ⟨rank, hrank⟩ := h.exists_rank
  have hnull : ∀ c ∈ live, ¬ t.Within live 0 c := fun c hc h0 => h.null (within_live h0 hc)
  induction hn : rank w using Nat.strong_induction_on generalizing w with
  | _ n ih =>
    by_cases hparent : t.parent w = 0
    · exact ⟨0, [], .stop (h.root w hw hparent).1 (.inl hparent), .done⟩
    · have hp := (h.parent w hw).resolve_left hparent
      obtain ⟨v, ws, hleaves, hvisits⟩ := ih _ (hn ▸ hrank w hw hparent) hp rfl
      by_cases hnext : t.next w = 0
      · exact ⟨v, ws, .up hnext hparent hparent hleaves, hvisits⟩
      · -- the siblings that follow, and then where the walk goes from the parent
        obtain ⟨as, bs, hkids⟩ := List.append_of_mem (h.mem_kids_parent hw hparent).2
        have hchained := h.chained _ hp
        rw [hkids] at hchained
        obtain ⟨hhead, hbs⟩ := chained_suffix hchained
        have hin : ∀ c ∈ bs, c ∈ kids (t.parent w) := by
          intro c hc
          rw [hkids]
          simp [hc]
        have hne : bs ≠ [] := by
          rintro rfl
          exact hnext hhead
        have hzero : 0 ∉ bs := fun hz => h.not_mem_kids_zero hp (hin 0 hz)
        refine ⟨t.next w, bs.flatMap (preOrder kids live.card) ++ ws, .sibling hnext, ?_⟩
        rw [hhead]
        apply visits_children hbs hzero hne _ hvisits
        · intro c hc u us hu hus
          have hlive := ((h.mem _ hp c).mp (hin c hc)).1
          exact h.visits_preOrder hlive (hnull c hlive) (subtree_card_le t live c) hu hus
        · intro c hc hlast
          have hsame := ((h.mem _ hp c).mp (hin c hc)).2
          apply TreeLinks.LeavesTo.up hlast
          · rwa [hsame]
          · rwa [hsame]
          · rwa [hsame]

/-- The nodes it goes through can be counted: there are fewer left behind each. -/
theorem exists_place (h : Forest t live kids) : ∃ place : α → Nat,
    (∀ w ∈ live, t.child w ≠ 0 → place (t.child w) < place w) ∧
      ∀ w ∈ live, ∀ v, t.child w = 0 → t.LeavesTo 0 w v → place v < place w := by
  classical
  have hvisits : ∀ w ∈ live, ∃ ws, t.Visits 0 w ws := by
    intro w hw
    obtain ⟨v, ws, hleaves, hrest⟩ := h.exists_visits hw
    have hnull : ¬ t.Within live 0 w := fun h0 => h.null (within_live h0 hw)
    exact ⟨_, h.visits_preOrder hw hnull (subtree_card_le t live w) hleaves hrest⟩
  let place : α → Nat := fun w => if hw : ∃ ws, t.Visits 0 w ws then hw.choose.length else 0
  have hplace : ∀ {w ws}, t.Visits 0 w ws → place w = ws.length := by
    intro w ws hw
    have hex : ∃ ws, t.Visits 0 w ws := ⟨ws, hw⟩
    have hval : place w = hex.choose.length := dif_pos hex
    rw [hval, hex.choose_spec.unique hw]
  refine ⟨place, ?_, ?_⟩
  · intro w hw hchild
    obtain ⟨ws, hws⟩ := hvisits w hw
    rw [hplace hws]
    cases hws with
    | done => exact absurd rfl (h.ne_zero hw)
    | down _ _ hrest =>
      rw [hplace hrest]
      simp
    | leave _ hz _ _ => exact absurd hz hchild
  · intro w hw v hchild hleaves
    obtain ⟨ws, hws⟩ := hvisits w hw
    rw [hplace hws]
    cases hws with
    | done => exact absurd rfl (h.ne_zero hw)
    | down _ hne _ => exact absurd hchild hne
    | leave _ _ hleaves' hrest =>
      rw [hleaves.unique hleaves', hplace hrest]
      simp

end Forest

end Wbox.Lib
