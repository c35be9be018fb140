import Wbox.Gdi.Creation

/-!
# Giving everything back

`gdi_handle_table_shutdown` (`src/gdi/gdi_handle_table.c:279–304`) at the end of a run of creations
and deletions. The pools are freed first; the loop that frees the pixels reads them from the bitmaps
of the table, those of the pool among them.
-/

namespace Wbox.Gdi

open Wbox.Lib

/-- One iteration of the loop. A bitmap of the pool has been freed with it. -/
def shutdownEntry (s : GdiState) (i : Nat) : Option GdiState :=
  if (s.table.entries i).inUse = true ∧ (s.table.entries i).type = gdiObjBitmap then
    match (s.table.entries i).object with
    | some (.object b) => do
        if b < s.bitmaps.size then none
        let bmp ← s.bitmaps.read b
        freePixels s bmp.pixels
    | _ => some s
  else some s

/-- `gdi_handle_table_shutdown`: the pixels are freed, and the table is cleared. -/
def gdiHandleTableShutdown (s : GdiState) : Option GdiState :=
  ((List.range gdiMaxHandles).foldlM shutdownEntry s).map fun s =>
    { s with
      table := { entries := fun _ => {}, nextFree := 0, handleCount := 0 }
      dcs := Pool.init 0
      objects := fun _ => Pool.init 0
      bitmaps := Pool.init 0 }

/-- The entry is that of a bitmap at an address. -/
structure BitmapEntry (s : GdiState) (i b : Nat) : Prop where
  inUse : (s.table.entries i).inUse = true
  type : (s.table.entries i).type = gdiObjBitmap
  object : (s.table.entries i).object = some (.object b)

/-- No bitmap of the pool has a handle. -/
def NoPoolBitmap (s : GdiState) : Prop := ∀ i b, BitmapEntry s i b → s.bitmaps.size ≤ b

/-- A creation that returns 0 leaves the table and the marks, and what the run and the shutdown do
is defined and frees every buffer; no buffer is freed twice, and nothing is read that has been
freed. -/
structure AllOrNothing (fuel : Nat) (ops : List CreationOp) : Prop where
  creations : ∀ before op after s s', ops = before ++ op :: after →
    before.foldlM (creationStep fuel) gdiInit = some s → op.Creates →
    creationCall fuel s op = some (s', 0) → SameMarks s s'
  shutdown : ∃ s t, ops.foldlM (creationStep fuel) gdiInit = some s ∧
    gdiHandleTableShutdown s = some t ∧ ∀ id, id < t.buffers → t.freed id = true

variable {s s' t : GdiState} {i j b n id fuel : Nat}

/-- The buffer belongs to the bitmap of an entry. -/
def OwnedAt (s : GdiState) (i id : Nat) : Prop :=
  ∃ b, BitmapEntry s i b ∧ (s.bitmaps.object b).pixels = some id

theorem BitmapEntry.used (h : BitmapEntry s i b) (hbacked : Backed s) :
    s.bitmaps.inUse b = true := by
  obtain ⟨b', hobject, hused⟩ := hbacked.bitmap i h.inUse h.type
  cases h.object.symm.trans hobject
  exact hused

/-- A buffer belongs to the bitmap of one entry. -/
theorem OwnedAt.unique (hbacked : Backed s) (hi : OwnedAt s i id) (hj : OwnedAt s j id) :
    i = j := by
  obtain ⟨b, hb, hid⟩ := hi
  obtain ⟨b', hb', hid'⟩ := hj
  obtain rfl := hbacked.owner b b' id (hb.used hbacked) (hb'.used hbacked) hid hid'
  apply hbacked.distinct i j hb.inUse hb'.inUse (hb.type.trans hb'.type.symm)
  · rw [hb.type]
    decide
  · rw [hb.object, hb'.object]

/-- The buffers that are freed after the first iterations. -/
def FreedUpTo (s : GdiState) (n : Nat) (freed : Nat → Bool) : Prop :=
  ∀ id, freed id = true ↔ s.freed id = true ∨ ∃ i, i < n ∧ OwnedAt s i id

/-- Entries of anything but bitmaps are passed over. -/
theorem shutdownEntry_other (hbacked : Backed s) (hother : ∀ b, ¬ BitmapEntry s n b)
    (freed : Nat → Bool) : shutdownEntry { s with freed } n = some { s with freed } := by
  unfold shutdownEntry
  split
  · next hbitmap =>
    obtain ⟨b, hobject, -⟩ := hbacked.bitmap n hbitmap.1 hbitmap.2
    exact absurd ⟨hbitmap.1, hbitmap.2, hobject⟩ (hother b)
  · rfl

/-- The pixels of a bitmap outside the pool are freed; one of the pool cannot be read. -/
theorem shutdownEntry_bitmap (hbacked : Backed s) (hb : BitmapEntry s n b) (freed : Nat → Bool) :
    shutdownEntry { s with freed } n = if b < s.bitmaps.size then none
      else freePixels { s with freed } (s.bitmaps.object b).pixels := by
  unfold shutdownEntry
  rw [if_pos ⟨hb.inUse, hb.type⟩]
  simp only [hb.object, Pool.read_inUse (hb.used hbacked)]
  split
  · rfl
  · rfl

/-- After one more entry without a buffer. -/
theorem FreedUpTo.pass {freed : Nat → Bool} (h : FreedUpTo s n freed)
    (hnone : ∀ id, ¬ OwnedAt s n id) : FreedUpTo s (n + 1) freed := by
  intro id
  rw [h id]
  constructor
  · rintro (hfreed | ⟨i, hi, hown⟩)
    · exact .inl hfreed
    · exact .inr ⟨i, by omega, hown⟩
  · rintro (hfreed | ⟨i, hi, hown⟩)
    · exact .inl hfreed
    · have hne : i ≠ n := by
        rintro rfl
        exact hnone id hown
      exact .inr ⟨i, by omega, hown⟩

/-- After one more entry with one. -/
theorem FreedUpTo.update {freed : Nat → Bool} (h : FreedUpTo s n freed) (hown : OwnedAt s n id)
    (honly : ∀ id', OwnedAt s n id' → id' = id) :
    FreedUpTo s (n + 1) (Function.update freed id true) := by
  intro id'
  by_cases hid : id' = id
  · rw [hid, Function.update_self]
    exact iff_of_true rfl (.inr ⟨n, by omega, hown⟩)
  · rw [Function.update_of_ne hid, h id']
    constructor
    · rintro (hfreed | ⟨i, hi, hown'⟩)
      · exact .inl hfreed
      · exact .inr ⟨i, by omega, hown'⟩
    · rintro (hfreed | ⟨i, hi, hown'⟩)
      · exact .inl hfreed
      · have hne : i ≠ n := by
          rintro rfl
          exact hid (honly id' hown')
        exact .inr ⟨i, by omega, hown'⟩

/-- One iteration. -/
theorem shutdownEntry_cases (hbacked : Backed s) {freed : Nat → Bool}
    (hfreed : FreedUpTo s n freed) :
    (∃ freed', shutdownEntry { s with freed } n = some { s with freed := freed' } ∧
        FreedUpTo s (n + 1) freed' ∧ ∀ b, BitmapEntry s n b → s.bitmaps.size ≤ b) ∨
      shutdownEntry { s with freed } n = none ∧ ∃ b, BitmapEntry s n b ∧ b < s.bitmaps.size := by
  by_cases hother : ∀ b, ¬ BitmapEntry s n b
  · refine .inl ⟨freed, shutdownEntry_other hbacked hother freed, ?_, ?_⟩
    · exact hfreed.pass fun id ⟨b, hb, _⟩ => hother b hb
    · exact fun b hb => absurd hb (hother b)
  · obtain ⟨b, hb⟩ := not_forall_not.mp hother
    have hsame : ∀ b', BitmapEntry s n b' → b' = b := by
      intro b' hb'
      cases hb'.object.symm.trans hb.object
      rfl
    rw [shutdownEntry_bitmap hbacked hb]
    by_cases hlt : b < s.bitmaps.size
    · rw [if_pos hlt]
      exact .inr ⟨rfl, b, hb, hlt⟩
    · rw [if_neg hlt]
      have hout : ∀ b', BitmapEntry s n b' → s.bitmaps.size ≤ b' := by
        intro b' hb'
        rw [hsame b' hb']
        exact Nat.not_lt.mp hlt
      refine .inl ?_
      cases hpixels : (s.bitmaps.object b).pixels with
      | none =>
        refine ⟨freed, rfl, hfreed.pass ?_, hout⟩
        rintro id ⟨b', hb', hid⟩
        rw [hsame b' hb', hpixels] at hid
        cases hid
      | some id =>
        have hown : OwnedAt s n id := ⟨b, hb, hpixels⟩
        have hlive : freed id = false := by
          rw [← Bool.not_eq_true, hfreed id]
          rintro (hold | ⟨i, hi, hown'⟩)
          · rw [(hbacked.pixels b id (hb.used hbacked) hpixels).2] at hold
            cases hold
          · have hin := hown'.unique hbacked hown
            omega
        refine ⟨Function.update freed id true, ?_, hfreed.update hown ?_, hout⟩
        · unfold freePixels
          simp [hlive]
        · rintro id' ⟨b', hb', hid⟩
          rw [hsame b' hb', hpixels] at hid
          exact (Option.some.inj hid).symm

/-- The first iterations free the buffers of their bitmaps, or one of them comes to a bitmap of the
pool. -/
theorem shutdown_loop (hbacked : Backed s) (n : Nat) :
    (∃ freed, (List.range n).foldlM shutdownEntry s = some { s with freed } ∧
        FreedUpTo s n freed ∧ ∀ i b, i < n → BitmapEntry s i b → s.bitmaps.size ≤ b) ∨
      (List.range n).foldlM shutdownEntry s = none ∧
        ∃ i b, i < n ∧ BitmapEntry s i b ∧ b < s.bitmaps.size := by
  induction n with
  | zero =>
    refine .inl ⟨s.freed, rfl, ?_, fun i b hi => absurd hi (Nat.not_lt_zero i)⟩
    intro id
    constructor
    · exact .inl
    · rintro (hfreed | ⟨i, hi, -⟩)
      · exact hfreed
      · exact absurd hi (Nat.not_lt_zero i)
  | succ n ih =>
    have hlast : ∀ s', (List.range n).foldlM shutdownEntry s = some s' →
        (List.range (n + 1)).foldlM shutdownEntry s = shutdownEntry s' n := by
      intro s' hloop
      rw [List.range_succ, List.foldlM_append, hloop]
      simp
    rcases ih with ⟨freed, hloop, hfreed, hout⟩ | ⟨hnone, i, b, hi, hb, hlt⟩
    · rw [hlast _ hloop]
      rcases shutdownEntry_cases hbacked hfreed with ⟨freed', hstep, hfreed', hn⟩ | ⟨hstep, b, hb, hlt⟩
      · refine .inl ⟨freed', hstep, hfreed', ?_⟩
        intro i b hi hb
        by_cases hin : i = n
        · subst hin
          exact hn b hb
        · exact hout i b (by omega) hb
      · exact .inr ⟨hstep, n, b, by omega, hb, hlt⟩
    · refine .inr ⟨?_, i, b, by omega, hb, hlt⟩
      rw [List.range_succ, List.foldlM_append, hnone]
      rfl

/-- The shutdown returns exactly if no bitmap of the pool has a handle; every buffer is freed. -/
theorem shutdown_iff (h : CreationInv s) :
    (∃ t, gdiHandleTableShutdown s = some t ∧ ∀ id, id < t.buffers → t.freed id = true) ↔
      NoPoolBitmap s := by
  unfold gdiHandleTableShutdown
  rcases shutdown_loop h.alive.backed gdiMaxHandles with
    ⟨freed, hloop, hfreed, hout⟩ | ⟨hnone, i, b, -, hb, hlt⟩
  · rw [hloop]
    refine iff_of_true ⟨_, rfl, ?_⟩ ?_
    · intro id hid
      apply (hfreed id).mpr
      cases hdone : s.freed id with
      | true => exact .inl rfl
      | false =>
        obtain ⟨i, b, huse, htype, hobject, hpixels⟩ := h.owned id hid hdone
        have hi : i < gdiMaxHandles := by
          by_contra hge
          rw [h.beyond i (Nat.not_lt.mp hge)] at huse
          cases huse
        exact .inr ⟨i, hi, b, ⟨huse, htype, hobject⟩, hpixels⟩
    · intro i b hb
      have hi : i < gdiMaxHandles := by
        by_contra hge
        have huse := hb.inUse
        rw [h.beyond i (Nat.not_lt.mp hge)] at huse
        cases huse
      exact hout i b hi hb
  · rw [hnone]
    refine iff_of_false ?_ ?_
    · rintro ⟨t, ht, -⟩
      cases ht
    · intro hpool
      have hge := hpool i b hb
      omega

/-- Creation is all or nothing and the buffers are freed once exactly if the calls are guarded and
no bitmap of the pool has a handle at the end. -/
theorem allOrNothing_iff (fuel : Nat) (ops : List CreationOp) :
    AllOrNothing fuel ops ↔ Guarded (creationStep fuel) CreationOk gdiInit ops ∧
      ∀ s, ops.foldlM (creationStep fuel) gdiInit = some s → NoPoolBitmap s := by
  have hinv : ∀ {ops : List CreationOp} {s}, ops.foldlM (creationStep fuel) gdiInit = some s →
      CreationInv s := fun h =>
    foldlM_invariant (fun _ _ _ _ hi hstep => hi.step hstep) creationInv_init h
  have hreturns : (ops.foldlM (creationStep fuel) gdiInit).isSome = true ↔
      Guarded (creationStep fuel) CreationOk gdiInit ops :=
    foldlM_isSome_iff_guarded (fun _ op h => creationStep_isSome_iff h op)
      (fun _ _ _ hi hstep => hi.step hstep) creationInv_init ops
  constructor
  · rintro ⟨-, s, t, hrun, hshutdown, hall⟩
    refine ⟨hreturns.mp (by rw [hrun]; rfl), ?_⟩
    intro s' hrun'
    obtain rfl := Option.some.inj (hrun.symm.trans hrun')
    exact (shutdown_iff (hinv hrun)).mp ⟨t, hshutdown, hall⟩
  · rintro ⟨hguarded, hpool⟩
    obtain ⟨s, hrun⟩ := Option.isSome_iff_exists.mp (hreturns.mpr hguarded)
    obtain ⟨t, ht⟩ := (shutdown_iff (hinv hrun)).mpr (hpool s hrun)
    refine ⟨?_, s, t, hrun, ht⟩
    intro before op after s₁ s₂ _ hbefore hop hcall
    exact creationCall_zero (hinv hbefore).alive.backed.nextFree hop hcall

/-- A bitmap that is not deleted before the shutdown. -/
theorem bitmap_shutdown :
    ¬ AllOrNothing 0 [.createBitmap roomyHeap none 1 1 1 32] := by
  rintro ⟨-, s, t, hrun, hshutdown, hall⟩
  have hinv : CreationInv s :=
    foldlM_invariant (fun _ _ _ _ hi hstep => hi.step hstep) creationInv_init hrun
  have hentry : (([.createBitmap roomyHeap none 1 1 1 32] : List CreationOp).foldlM
      (creationStep 0) gdiInit).map (fun s => (s.table.entries 1, s.bitmaps.size)) =
        some ({ object := some (.object 0), type := gdiObjBitmap, reuseCount := 1, inUse := true },
          128) := rfl
  rw [hrun] at hentry
  obtain ⟨hbitmap, hsize⟩ := Prod.mk.inj (Option.some.inj hentry)
  have hpool := (shutdown_iff hinv).mp ⟨t, hshutdown, hall⟩ 1 0
    ⟨by rw [hbitmap], by rw [hbitmap], by rw [hbitmap]⟩
  rw [hsize] at hpool
  omega

end Wbox.Gdi
