import Mathlib
import Wbox.Codegen.DeadUops

/-!
# What a block does

The uOPs of a block work on the registers of the guest. A jump goes forward to a uOP of the block or
to its end (`src/cpu/codegen/codegen_ir_defs.h:418–424`), and some uOPs may leave the block. Seen
outside are the registers that are not temporary.

Dropping the uOPs whose results nothing needs does not change what a block does.
-/

namespace Wbox.Codegen

open Wbox.Lib

/-- Where the code goes on behind a uOP. -/
inductive Next where
  | on
  | jump
  | leave
  deriving DecidableEq, Repr

/-- What a uOP does: the value of its result, the new contents of the registers if it calls a
function that may change them, and the rest of the machine. -/
structure Effect (σ : Type) where
  world : σ
  value : Word
  cells : Option (Ireg → Word)
  next : Next

/-- The handlers of the uOPs, `uop_handlers`: a uOP that is no barrier computes its result, or else
changes the machine apart from the registers. Only barriers see the registers in memory, and only
those that invalidate the host registers may change them. -/
structure Backend (σ : Type) where
  compute : Uop → List Word → σ → Word
  store : Uop → List Word → σ → σ
  jumps : Uop → List Word → Bool
  order : Uop → List Word → (Ireg → Word) → σ → σ × Word × Bool
  call : Uop → List Word → (Ireg → Word) → σ → σ × (Ireg → Word) × Word × Bool

variable {σ : Type}

/-- What a uOP does with its operands. -/
def Backend.effect (B : Backend σ) (u : Uop) (xs : List Word) (cells : Ireg → Word) (w : σ) :
    Effect σ :=
  if u.type.barrier then
    let (w, cells, x, left) := B.call u xs cells w
    ⟨w, x, some cells, if left then .leave else .on⟩
  else if u.type.jump then ⟨w, 0, none, if B.jumps u xs then .jump else .on⟩
  else if u.type.orderBarrier then
    let (w, x, left) := B.order u xs cells w
    ⟨w, x, none, if left then .leave else .on⟩
  else if u.destRegA.isSome then ⟨w, B.compute u xs w, none, .on⟩
  else ⟨B.store u xs w, 0, none, .on⟩

/-- The registers in memory and the rest of the machine. -/
structure State (σ : Type) where
  cells : Ireg → Word
  world : σ

/-- The registers that are seen outside the block. -/
def visible (cells : Ireg → Word) : Ireg → Word :=
  fun c => if c.isVolatile then 0 else cells c.cell &&& c.mask

/-- The registers that a function may change. -/
def shown (cells : Ireg → Word) : Option (Ireg → Word) → Ireg → Word
  | none => cells
  | some f => fun c => if c.isVolatile then cells c else f c &&& c.mask

/-- A result is written to its register. -/
def writeDest (u : Uop) (x : Word) (cells : Ireg → Word) : Ireg → Word :=
  match u.destRegA with
  | none => cells
  | some o => Function.update cells o.reg.cell (merge o.part (cells o.reg.cell) x)

/-- The values of the operands that are read. -/
def readSources (u : Uop) (cells : Ireg → Word) : List Word :=
  u.sources.map fun o => cells o.reg.cell &&& o.part

/-- What is seen of a block. -/
structure Outcome (σ : Type) where
  world : σ
  cells : Ireg → Word
  left : Bool

/-- The uOPs from the number `i` on, of which some are jumped over. -/
def Backend.run (B : Backend σ) : Nat → Nat → List Uop → State σ → Outcome σ
  | _, _, [], s => ⟨s.world, visible s.cells, false⟩
  | skip + 1, i, _ :: us, s => B.run skip (i + 1) us s
  | 0, i, u :: us, s =>
      if u.type = uopInvalid then B.run 0 (i + 1) us s
      else
        let e := B.effect u (readSources u s.cells) (visible s.cells) s.world
        let cells := shown s.cells e.cells
        match e.next with
        | .on => B.run 0 (i + 1) us ⟨writeDest u e.value cells, e.world⟩
        | .jump => B.run (u.jumpDestUop.getD 0 - (i + 1)) (i + 1) us ⟨cells, e.world⟩
        | .leave => ⟨e.world, visible cells, true⟩

/-- A temporary is not used before it is written as a whole. -/
def Idle (r : Ireg) : List Uop → Prop
  | [] => True
  | u :: us => ¬ u.Uses r ∧ (u.Fills r ∨ Idle r us)

/-- The contents of a register are not used any more. -/
def Lazy (r : Ireg) (us : List Uop) : Prop := if r.isVolatile then Idle r us else Unneeded r us

/-- No temporary of the uOPs that a jump goes over is used where it ends. -/
def LandsWell : Nat → List Ireg → List Uop → Prop
  | 0, rs, us => ∀ r ∈ rs, r.isVolatile → Idle r us
  | _ + 1, _, [] => False
  | k + 1, rs, u :: us => LandsWell k (rs ++ u.operands.map (·.reg)) us

/-- A jump is a barrier without a result, and it goes forward. -/
structure JumpOk (i : Nat) (u : Uop) (us : List Uop) : Prop where
  order : u.type.orderBarrier
  noDest : u.destRegA = none
  forward : ∃ d ∈ u.jumpDestUop, i < d ∧ LandsWell (d - (i + 1)) [] us

/-- Every jump of a block comes to a good place. -/
def JumpsLand : Nat → List Uop → Prop
  | _, [] => True
  | i, u :: us => (u.type.jump → JumpOk i u us) ∧ JumpsLand (i + 1) us

/-- The conditions on jumps as computations. -/
instance decidableIdle (r : Ireg) : (us : List Uop) → Decidable (Idle r us)
  | [] => isTrue trivial
  | u :: us =>
      have := decidableIdle r us
      inferInstanceAs (Decidable (¬ u.Uses r ∧ (u.Fills r ∨ Idle r us)))

instance decidableLandsWell : (k : Nat) → (rs : List Ireg) → (us : List Uop) →
    Decidable (LandsWell k rs us)
  | 0, rs, us => inferInstanceAs (Decidable (∀ r ∈ rs, _ → Idle r us))
  | _ + 1, _, [] => isFalse id
  | k + 1, _, _ :: us => decidableLandsWell k _ us

instance (i : Nat) (u : Uop) (us : List Uop) : Decidable (JumpOk i u us) :=
  decidable_of_iff (u.type.orderBarrier ∧ u.destRegA = none ∧
      ∃ d ∈ u.jumpDestUop, i < d ∧ LandsWell (d - (i + 1)) [] us)
    ⟨fun ⟨h₁, h₂, h₃⟩ => ⟨h₁, h₂, h₃⟩, fun ⟨h₁, h₂, h₃⟩ => ⟨h₁, h₂, h₃⟩⟩

instance decidableJumpsLand : (i : Nat) → (us : List Uop) → Decidable (JumpsLand i us)
  | _, [] => isTrue trivial
  | i, u :: us =>
      have := decidableJumpsLand (i + 1) us
      inferInstanceAs (Decidable ((u.type.jump → JumpOk i u us) ∧ JumpsLand (i + 1) us))

section Lemmas

variable {B : Backend σ} {u : Uop} {us : List Uop} {r : Ireg} {xs : List Word}
  {vis vis' cells cells' : Ireg → Word} {w : σ}

/-- What is not a barrier does not see the registers in memory. -/
theorem effect_congr (h : u.type.anyBarrier → vis = vis') :
    B.effect u xs vis w = B.effect u xs vis' w := by
  unfold Backend.effect
  by_cases hb : u.type.barrier
  · rw [h (by simp [UopType.anyBarrier, hb])]
  · by_cases ho : u.type.orderBarrier
    · rw [h (by simp [UopType.anyBarrier, ho])]
    · simp [hb, ho]

/-- What a uOP with a result that is no barrier does. -/
theorem effect_plain (hb : ¬ u.type.anyBarrier) (hj : ¬ u.type.jump) (hd : u.destRegA.isSome) :
    B.effect u xs vis w = ⟨w, B.compute u xs w, none, .on⟩ := by
  simp only [UopType.anyBarrier, Bool.or_eq_true, not_or] at hb
  simp [Backend.effect, hb.1, hb.2, hj, hd]

/-- Only a jump jumps. -/
theorem effect_jump (h : (B.effect u xs vis w).next = .jump) : u.type.jump := by
  by_contra hj
  unfold Backend.effect at h
  rw [if_neg hj] at h
  dsimp only at h
  split_ifs at h

/-- Only a barrier leaves the block. -/
theorem effect_leave (h : (B.effect u xs vis w).next = .leave) : u.type.anyBarrier := by
  by_contra hb
  simp only [UopType.anyBarrier, Bool.or_eq_true, not_or] at hb
  unfold Backend.effect at h
  rw [if_neg hb.1, if_neg hb.2] at h
  split_ifs at h

theorem run_invalid {i : Nat} {s : State σ} (h : u.type = uopInvalid) :
    B.run 0 i (u :: us) s = B.run 0 (i + 1) us s := by
  rw [Backend.run, if_pos h]

/-- A uOP that is compiled. -/
theorem run_cons {i : Nat} {s : State σ} {e : Effect σ} (h : u.type ≠ uopInvalid)
    (he : B.effect u (readSources u s.cells) (visible s.cells) s.world = e) :
    B.run 0 i (u :: us) s = match e.next with
      | .on => B.run 0 (i + 1) us ⟨writeDest u e.value (shown s.cells e.cells), e.world⟩
      | .jump =>
        B.run (u.jumpDestUop.getD 0 - (i + 1)) (i + 1) us ⟨shown s.cells e.cells, e.world⟩
      | .leave => ⟨e.world, visible (shown s.cells e.cells), true⟩ := by
  rw [Backend.run, if_neg h, he]

theorem Unneeded.idle (h : Unneeded r us) : Idle r us := by
  induction us with
  | nil => exact h.elim
  | cons u us ih => exact ⟨h.1, h.2.2.imp_right ih⟩

theorem Unneeded.lazy (h : Unneeded r us) : Lazy r us := by
  unfold Lazy
  split
  · exact h.idle
  · exact h

theorem Lazy.of_volatile (hr : r.isVolatile) (h : Idle r us) : Lazy r us := by
  rwa [Lazy, if_pos hr]

theorem Lazy.idle (hr : r.isVolatile) (h : Lazy r us) : Idle r us := by
  rwa [Lazy, if_pos hr] at h

/-- A lazy register is not used by the next uOP. -/
theorem Lazy.not_uses (h : Lazy r (u :: us)) : ¬ u.Uses r := by
  unfold Lazy at h
  split at h
  · exact h.1
  · exact h.1

/-- And it stays lazy unless it is written as a whole. -/
theorem Lazy.next (h : Lazy r (u :: us)) (hfill : ¬ u.Fills r) : Lazy r us := by
  unfold Lazy at h ⊢
  split at h
  · next hr =>
    rw [if_pos hr]
    exact h.2.resolve_left hfill
  · next hr =>
    rw [if_neg hr]
    exact h.2.2.resolve_left hfill

/-- A barrier shows no lazy register. -/
theorem Lazy.isVolatile (h : Lazy r (u :: us)) (hb : u.type.anyBarrier) : r.isVolatile := by
  unfold Lazy at h
  split at h
  · assumption
  · exact h.2.1.resolve_right (not_not.mpr hb)

theorem Lazy.isVolatile_of_nil (h : Lazy r []) : r.isVolatile := by
  unfold Lazy at h
  split at h
  · assumption
  · exact h.elim

theorem touches_iff : u.Touches r ↔ u.Reads r ∨ u.Writes r := by
  simp [Uop.Touches, Uop.Reads, Uop.Writes, Uop.operands, or_and_right, exists_or]

theorem mem_operands_reg : r ∈ u.operands.map (·.reg) ↔ u.Touches r := List.mem_map

/-- Cells that agree are seen as the same. -/
theorem visible_congr
    (h : ∀ c : Ireg, ¬ c.isVolatile → Agree c.mask (cells c.cell) (cells' c.cell)) :
    visible cells = visible cells' := by
  funext c
  unfold visible
  split
  · rfl
  · next hc => exact h c hc

theorem writeDest_of_some {o : IrReg} {x : Word} (ho : u.destRegA = some o) :
    writeDest u x cells =
      Function.update cells o.reg.cell (merge o.part (cells o.reg.cell) x) := by
  simp [writeDest, ho]

theorem writeDest_of_none {x : Word} (ho : u.destRegA = none) : writeDest u x cells = cells := by
  simp [writeDest, ho]

end Lemmas

section Sweep

variable {B : Backend σ} {names : List Ireg} {us : List Uop} {u : Uop} {s s' : State σ}

/-- Every register has one name. -/
def OneName (names : List Ireg) : Prop :=
  ∀ r ∈ names, ∀ r' ∈ names, r.cell = r'.cell → r = r'

instance : Decidable (OneName names) := inferInstanceAs (Decidable (∀ r ∈ names, ∀ r' ∈ names, _))

/-- The states differ only where a register meets a condition. -/
def DiffersAt (names : List Ireg) (p : Ireg → Prop) (cells cells' : Ireg → Word) : Prop :=
  ∀ c : Ireg, ¬ Agree c.mask (cells c) (cells' c) → ∃ r ∈ names, r.cell = c ∧ p r

theorem DiffersAt.agree {p : Ireg → Prop} {cells cells' : Ireg → Word} {r : Ireg}
    (h : DiffersAt names p cells cells') (hone : OneName names) (hr : r ∈ names) (hp : ¬ p r) :
    Agree r.mask (cells r.cell) (cells' r.cell) := by
  by_contra hn
  rw [← mask_cell] at hn
  obtain ⟨r', hr', hcell, hp'⟩ := h r.cell hn
  exact hp (hone r' hr' r hr hcell ▸ hp')

/-- What is lazy where nothing sees it does not show. -/
theorem DiffersAt.visible_eq {p : Ireg → Prop} {cells cells' : Ireg → Word}
    (h : DiffersAt names p cells cells') (hp : ∀ r, p r → r.isVolatile) :
    visible cells = visible cells' := by
  apply visible_congr
  intro c hc
  by_contra hn
  rw [← mask_cell] at hn
  obtain ⟨r, -, hcell, hr⟩ := h c.cell hn
  rw [← isVolatile_cell, ← hcell, isVolatile_cell] at hc
  exact hc (hp r hr)

/-- The operands have the same values. -/
theorem DiffersAt.readSources_eq {cells cells' : Ireg → Word}
    (h : DiffersAt names (Lazy · (u :: us)) cells cells') (hone : OneName names)
    (hnames : ∀ o ∈ u.operands, o.reg ∈ names) : readSources u cells = readSources u cells' := by
  apply List.map_congr_left
  intro o ho
  have hagree := h.agree hone (hnames o (List.mem_append_left _ ho))
    fun hlazy => hlazy.not_uses (.inl ⟨o, ho, rfl⟩)
  exact hagree.and_eq (part_le_mask o)

/-- What a function changes is the same in both states. -/
theorem DiffersAt.shown {p : Ireg → Prop} {cells cells' : Ireg → Word}
    (f : Option (Ireg → Word)) (h : DiffersAt names p cells cells') :
    DiffersAt names p (shown cells f) (shown cells' f) := by
  intro c hc
  cases f with
  | none => exact h c hc
  | some f =>
    unfold Codegen.shown at hc
    dsimp only at hc
    split at hc
    · exact h c hc
    · exact absurd (Agree.refl _ _) hc

/-- A result is the same in both states. -/
theorem DiffersAt.writeDest {cells cells' : Ireg → Word} (x : Word)
    (h : DiffersAt names (Lazy · (u :: us)) cells cells') (hone : OneName names)
    (hnames : ∀ o ∈ u.operands, o.reg ∈ names) :
    DiffersAt names (Lazy · us) (writeDest u x cells) (writeDest u x cells') := by
  cases hd : u.destRegA with
  | none =>
    intro c hc
    rw [writeDest_of_none hd, writeDest_of_none hd] at hc
    obtain ⟨r, hr, hcell, hlazy⟩ := h c hc
    exact ⟨r, hr, hcell, hlazy.next (by simp [Uop.Fills, hd])⟩
  | some o =>
    have ho : o.reg ∈ names := hnames o (by simp [Uop.operands, hd])
    intro c hc
    rw [writeDest_of_some hd, writeDest_of_some hd] at hc
    by_cases heq : c = o.reg.cell
    · subst heq
      rw [Function.update_self, Function.update_self] at hc
      refine absurd ?_ hc
      by_cases hnative : o.isNativeSize
      · rw [mask_cell, ← part_of_isNativeSize hnative]
        exact (merge_agree _ _ _).trans (merge_agree _ _ _).symm
      · have hnot : ¬ Lazy o.reg (u :: us) := fun hlazy =>
          hlazy.not_uses (.inr ⟨⟨o, hd, rfl⟩, by simp [Uop.Fills, hd, hnative]⟩)
        apply Agree.merge
        by_contra hn
        obtain ⟨r, hr, hcell, hlazy⟩ := h _ hn
        exact hnot (hone r hr o.reg ho hcell ▸ hlazy)
    · rw [Function.update_of_ne heq, Function.update_of_ne heq] at hc
      obtain ⟨r, hr, hcell, hlazy⟩ := h c hc
      refine ⟨r, hr, hcell, hlazy.next ?_⟩
      rintro ⟨x, hx, rfl, -⟩
      rw [hd] at hx
      cases hx
      exact heq hcell.symm

/-- The result of a uOP that is dropped is lazy. -/
theorem DiffersAt.drop {cells cells' : Ireg → Word} (x : Word)
    (h : DiffersAt names (Lazy · (u :: us)) cells cells')
    (hnames : ∀ o ∈ u.operands, o.reg ∈ names) (hdrop : Droppable u us) :
    DiffersAt names (Lazy · us) (Codegen.writeDest u x cells) cells' := by
  obtain ⟨-, o, ho, -, hunneeded⟩ := hdrop
  have hmem : o.reg ∈ names := hnames o (by simp [Uop.operands, show u.destRegA = some o from ho])
  intro c hc
  rw [writeDest_of_some ho] at hc
  by_cases heq : c = o.reg.cell
  · exact ⟨o.reg, hmem, heq.symm, hunneeded.lazy⟩
  · rw [Function.update_of_ne heq] at hc
    obtain ⟨r, hr, hcell, hlazy⟩ := h c hc
    refine ⟨r, hr, hcell, ?_⟩
    by_cases hfill : u.Fills r
    · obtain ⟨y, hy, rfl, -⟩ := hfill
      rw [show u.destRegA = some o from ho] at hy
      cases hy
      exact hunneeded.lazy
    · exact hlazy.next hfill

/-- The states during a jump: what differs is temporary, and idle or jumped over. -/
def InFlight (rs : List Ireg) (us : List Uop) (r : Ireg) : Prop :=
  r.isVolatile ∧ (r ∈ rs ∨ Idle r us)

theorem InFlight.next {rs : List Ireg} {r : Ireg} (h : InFlight rs (u :: us) r) :
    InFlight (rs ++ u.operands.map (·.reg)) us r := by
  refine ⟨h.1, ?_⟩
  by_cases htouch : u.Touches r
  · exact .inl (List.mem_append_right _ (mem_operands_reg.mpr htouch))
  · rcases h.2 with hr | hidle
    · exact .inl (List.mem_append_left _ hr)
    · have hfill : ¬ u.Fills r := fun hn => htouch (touches_iff.mpr (.inr hn.writes))
      exact .inr (hidle.2.resolve_left hfill)

theorem InFlight.land {rs : List Ireg} {r : Ireg} (h : InFlight rs us r)
    (hland : ∀ r ∈ rs, r.isVolatile → Idle r us) : Lazy r us :=
  .of_volatile h.1 (h.2.elim (fun hr => hland r hr h.1) id)

/-- A block without the uOPs whose results nothing needs does the same, from states that differ only
where nothing uses them, or during a jump. -/
theorem run_sweepUops (hone : OneName names) :
    ∀ {us : List Uop} {i : Nat} (s s' : State σ), JumpsLand i us →
      (∀ u ∈ us, u.type ≠ uopInvalid) → (∀ u ∈ us, ∀ o ∈ u.operands, o.reg ∈ names) →
      s'.world = s.world →
      (DiffersAt names (Lazy · us) s.cells s'.cells →
        B.run 0 i (sweepUops us) s' = B.run 0 i us s) ∧
      ∀ (k : Nat) (rs : List Ireg), LandsWell k rs us →
        DiffersAt names (InFlight rs us) s.cells s'.cells →
        B.run k i (sweepUops us) s' = B.run k i us s := by
  intro us
  induction us with
  | nil =>
    intro i s s' _ _ _ hworld
    have hend : ∀ {p : Ireg → Prop} (k : Nat), (∀ r, p r → r.isVolatile) →
        DiffersAt names p s.cells s'.cells →
        B.run k i [] s' = B.run k i [] s := by
      intro p k hp h
      rw [Backend.run, Backend.run, hworld, h.visible_eq hp]
    exact ⟨fun h => hend 0 (fun r hr => hr.isVolatile_of_nil) h,
      fun k _ _ h => hend k (fun r hr => hr.1) h⟩
  | cons u us ih =>
    intro i s s' hjumps hvalid hnames hworld
    have hrest : ∀ x ∈ us, ∀ o ∈ x.operands, o.reg ∈ names :=
      fun x hx => hnames x (List.mem_cons_of_mem _ hx)
    have hvalids : ∀ x ∈ us, x.type ≠ uopInvalid :=
      fun x hx => hvalid x (List.mem_cons_of_mem _ hx)
    have hu := hnames u List.mem_cons_self
    have honward : DiffersAt names (Lazy · (u :: us)) s.cells s'.cells →
        B.run 0 i (sweepUops (u :: us)) s' = B.run 0 i (u :: us) s := by
      intro h
      by_cases hdrop : Droppable u us
      · have hjump : ¬ u.type.jump := by
          intro hj
          have := (hjumps.1 hj).order
          exact hdrop.1 (by simp [UopType.anyBarrier, this])
        have hsome : u.destRegA.isSome := by
          obtain ⟨-, o, ho, -⟩ := hdrop
          exact Option.isSome_iff_exists.mpr ⟨o, ho⟩
        rw [sweepUops, if_pos hdrop, run_invalid rfl, run_cons (hvalid u List.mem_cons_self)
          (effect_plain hdrop.1 hjump hsome)]
        exact (ih ⟨writeDest u (B.compute u (readSources u s.cells) s.world) s.cells, s.world⟩ s'
          hjumps.2 hvalids hrest hworld).1 (h.drop _ hu hdrop)
      · have hvis : u.type.anyBarrier → visible s'.cells = visible s.cells := by
          intro hb
          exact (h.visible_eq fun r hr => hr.isVolatile hb).symm
        have hsources := h.readSources_eq hone hu
        generalize he : B.effect u (readSources u s.cells) (visible s.cells) s.world = e
        have he' : B.effect u (readSources u s'.cells) (visible s'.cells) s'.world = e := by
          rw [← hsources, hworld, effect_congr hvis, he]
        have huvalid := hvalid u List.mem_cons_self
        have hshown := h.shown e.cells
        rw [sweepUops, if_neg hdrop, run_cons huvalid he, run_cons huvalid he']
        cases hnext : e.next with
        | on =>
          exact (ih ⟨writeDest u e.value (shown s.cells e.cells), e.world⟩
            ⟨writeDest u e.value (shown s'.cells e.cells), e.world⟩ hjumps.2 hvalids hrest
            rfl).1 (hshown.writeDest e.value hone hu)
        | jump =>
          have hjump := hjumps.1 (effect_jump (he ▸ hnext))
          obtain ⟨d, hd, -, hland⟩ := hjump.forward
          rw [show u.jumpDestUop = some d from hd]
          refine (ih ⟨shown s.cells e.cells, e.world⟩ ⟨shown s'.cells e.cells, e.world⟩ hjumps.2
            hvalids hrest rfl).2 _ [] hland ?_
          intro c hc
          obtain ⟨r, hr, hcell, hlazy⟩ := hshown c hc
          have hvol := hlazy.isVolatile (by simp [UopType.anyBarrier, hjump.order])
          have hnext := hlazy.next (by simp [Uop.Fills, hjump.noDest])
          exact ⟨r, hr, hcell, hvol, .inr (hnext.idle hvol)⟩
        | leave =>
          have hb := effect_leave (he ▸ hnext)
          dsimp only
          rw [hshown.visible_eq fun r hr => hr.isVolatile hb]
    refine ⟨honward, ?_⟩
    intro k rs hland h
    cases k with
    | zero =>
      apply honward
      intro c hc
      obtain ⟨r, hr, hcell, hflight⟩ := h c hc
      exact ⟨r, hr, hcell, hflight.land hland⟩
    | succ k =>
      rw [sweepUops, Backend.run, Backend.run]
      apply (ih s s' hjumps.2 hvalids hrest hworld).2 k _ hland
      intro c hc
      obtain ⟨r, hr, hcell, hflight⟩ := h c hc
      exact ⟨r, hr, hcell, hflight.next⟩

/-- A block without the uOPs whose results nothing needs does what the block does. -/
theorem run_sweepUops_eq (B : Backend σ) (hjumps : JumpsLand 0 us)
    (hone : OneName (us.flatMap fun u => u.operands.map (·.reg)))
    (hvalid : ∀ u ∈ us, u.type ≠ uopInvalid) (s : State σ) :
    B.run 0 0 (sweepUops us) s = B.run 0 0 us s := by
  refine (run_sweepUops hone s s hjumps hvalid ?_ rfl).1 fun c hc => absurd (Agree.refl _ _) hc
  intro u hu o ho
  exact List.mem_flatMap.mpr ⟨u, hu, List.mem_map_of_mem ho⟩

end Sweep

end Wbox.Codegen
