import Wbox.Loader.LdrEntries
import Wbox.Vm.Areas

/-!
# List entries in mapped memory

The loader's heap, the hash table and the PEB lie in physical memory in one piece each. A list
entry is then a pair of words of the array, and `list_insert_tail` inserts at the tail of a
circular list, whatever else is linked there.
-/

namespace Wbox.Loader

open Wbox.Lib Wbox.Vm

section Writes

variable {m : PhysMem} {ctx : PagingContext} {written : Set Nat} {a : Area} {o : Nat}
  (h : a.Ready m ctx written) (hram : m.ramSize ≤ 2 ^ 32)
include h hram

theorem writeVirtL_eq (hok : o + 4 ≤ a.len.toNat) (val : UInt32) :
    writeVirtL m ctx (a.va + UInt32.ofNat o) val = m.storeAt (a.phys.toNat + o) val := by
  have hwrite := h.writel hram (k := 0) hok val
  rw [show UInt32.ofNat 0 = 0 from rfl, UInt32.add_zero] at hwrite
  unfold writeVirtL
  dsimp only
  rw [if_pos (h.getPhys_ne_zero hram (by omega)), hwrite]
  rfl

theorem sameOn_writeVirtL (hok : o + 4 ≤ a.len.toNat) (val : UInt32) :
    SameOn (a.Except o 4) m (writeVirtL m ctx (a.va + UInt32.ofNat o) val) := by
  rw [writeVirtL_eq h hram hok]
  exact m.sameOn_storeAt _ val

theorem sameOn_writeVirtW (hok : o + 2 ≤ a.len.toNat) (val : UInt16) :
    SameOn (a.Except o 2) m (writeVirtW m ctx (a.va + UInt32.ofNat o) val) := by
  unfold writeVirtW
  dsimp only
  split
  · exact (sameOn_writew m _ val).mono (h.except_outside hram hok (by decide))
  · exact .refl _ m

theorem sameOn_writeVirtB (hok : o + 1 ≤ a.len.toNat) (val : UInt8) :
    SameOn (a.Except o 1) m (writeVirtB m ctx (a.va + UInt32.ofNat o) val) := by
  unfold writeVirtB
  dsimp only
  split
  · exact (sameOn_writeb m _ val).mono (h.except_outside hram hok (by decide))
  · exact .refl _ m

end Writes

/-- Where a field lies in its structure, and how many bytes it has. -/
def FieldWrite.start : FieldWrite → Nat
  | .long offset _ | .half offset _ | .byte offset _ => offset.toNat

def FieldWrite.width : FieldWrite → Nat
  | .long _ _ => 4
  | .half _ _ => 2
  | .byte _ _ => 1

section Structs

variable {m : PhysMem} {ctx : PagingContext} {written : Set Nat} {a : Area} {o lo hi : Nat}
  {fields : List FieldWrite}

theorem sameOn_writeField (h : a.Ready m ctx written) (hram : m.ramSize ≤ 2 ^ 32) (f : FieldWrite)
    (hok : o + f.start + f.width ≤ a.len.toNat) :
    SameOn (a.Except (o + f.start) f.width) m (writeField ctx (a.va + UInt32.ofNat o) m f) := by
  have hva : ∀ offset : UInt32, a.va + UInt32.ofNat o + offset =
      a.va + UInt32.ofNat (o + offset.toNat) := by
    intro offset
    rw [← add_ofNat_ofNat, UInt32.ofNat_toNat]
  cases f with
  | long offset val =>
    show SameOn _ m (writeVirtL m ctx (a.va + UInt32.ofNat o + offset) val)
    rw [hva]
    exact sameOn_writeVirtL h hram hok val
  | half offset val =>
    show SameOn _ m (writeVirtW m ctx (a.va + UInt32.ofNat o + offset) val)
    rw [hva]
    exact sameOn_writeVirtW h hram hok val
  | byte offset val =>
    show SameOn _ m (writeVirtB m ctx (a.va + UInt32.ofNat o + offset) val)
    rw [hva]
    exact sameOn_writeVirtB h hram hok val

/-- Fields within some bytes of a structure. -/
def FieldsWithin (lo hi : Nat) (fields : List FieldWrite) : Prop :=
  ∀ f ∈ fields, lo ≤ f.start ∧ f.start + f.width ≤ hi

/-- Fields that do not reach into each other. -/
def FieldsApart (fields : List FieldWrite) : Prop :=
  fields.Pairwise fun f g => f.start + f.width ≤ g.start ∨ g.start + g.width ≤ f.start

/-- Writing fields leaves all other bytes as they are. -/
theorem sameOn_writeStruct (h : a.Ready m ctx written) (hram : m.ramSize ≤ 2 ^ 32)
    (hsub : a.range ⊆ written) (hok : o + hi ≤ a.len.toNat) (hf : FieldsWithin lo hi fields) :
    SameOn (a.Except (o + lo) (hi - lo)) m
      (writeStruct m ctx (a.va + UInt32.ofNat o) fields) := by
  by_cases hnil : fields = []
  · rw [hnil]
    exact .refl _ m
  have hlohi : lo ≤ hi := by
    obtain ⟨f, hmem⟩ := List.exists_mem_of_ne_nil fields hnil
    have hbounds := hf f hmem
    omega
  apply h.foldl hram hsub (by omega)
  intro m h hram f hmem
  obtain ⟨hlo, hhi⟩ := hf f hmem
  apply (sameOn_writeField h hram f (o := o) (by omega)).mono
  intro x hx
  have hout : x < a.phys.toNat + (o + lo) ∨ a.phys.toNat + (o + lo) + (hi - lo) ≤ x := hx
  show x < a.phys.toNat + (o + f.start) ∨ a.phys.toNat + (o + f.start) + f.width ≤ x
  omega

/-- The characters of a name and its end. -/
theorem sameOn_writeWideString (h : a.Ready m ctx written) (hram : m.ramSize ≤ 2 ^ 32)
    (hsub : a.range ⊆ written) (str : List UInt8)
    (hok : o + 2 * (str.length + 1) ≤ a.len.toNat) :
    SameOn (a.Except o (2 * (str.length + 1))) m
      (writeWideString m ctx (a.va + UInt32.ofNat o) str) := by
  apply h.foldl hram hsub hok
  intro m h hram c hc
  have hlt : c.2 < str.length + 1 := by
    have hidx := List.snd_lt_of_mem_zipIdx hc
    rwa [List.length_append] at hidx
  have hva : a.va + UInt32.ofNat o + UInt32.ofNat c.2 * 2 = a.va + UInt32.ofNat (o + c.2 * 2) := by
    rw [← add_ofNat_ofNat, UInt32.ofNat_mul]
    rfl
  rw [hva]
  apply (sameOn_writeVirtW h hram (by omega) _).mono
  intro x hx
  have hout : x < a.phys.toNat + o ∨ a.phys.toNat + o + 2 * (str.length + 1) ≤ x := hx
  show x < a.phys.toNat + (o + c.2 * 2) ∨ a.phys.toNat + (o + c.2 * 2) + 2 ≤ x
  omega

/-- Fields that lie apart can be read back. -/
theorem loadWord_writeStruct (h : a.Ready m ctx written) (hram : m.ramSize ≤ 2 ^ 32)
    (hsub : a.range ⊆ written) (hok : o + hi ≤ a.len.toNat) (hf : FieldsWithin lo hi fields)
    (hapart : FieldsApart fields)
    {offset val : UInt32} (hmem : .long offset val ∈ fields) :
    loadWord (writeStruct m ctx (a.va + UInt32.ofNat o) fields).ram
      (a.phys.toNat + o + offset.toNat) = val := by
  induction fields generalizing m with
  | nil => cases hmem
  | cons f fields ih =>
    obtain ⟨hlo, hhi⟩ := hf f List.mem_cons_self
    have hone := sameOn_writeField h hram f (o := o) (by omega)
    have hready := h.keep hsub (by omega) hone
    have hram' : (writeField ctx (a.va + UInt32.ofNat o) m f).ramSize ≤ 2 ^ 32 := by
      rw [hone.size]
      exact hram
    have hrest : FieldsWithin lo hi fields := fun g hg => hf g (List.mem_cons_of_mem f hg)
    obtain ⟨hfirst, hothers⟩ := List.pairwise_cons.mp hapart
    rcases List.mem_cons.mp hmem with rfl | hmem
    · -- the fields written later do not reach this one
      have hlater : ∀ (gs : List FieldWrite) (m : PhysMem), a.Ready m ctx written →
          m.ramSize ≤ 2 ^ 32 → FieldsWithin lo hi gs →
          (∀ g ∈ gs, offset.toNat + 4 ≤ g.start ∨ g.start + g.width ≤ offset.toNat) →
          loadWord (writeStruct m ctx (a.va + UInt32.ofNat o) gs).ram
            (a.phys.toNat + o + offset.toNat) =
              loadWord m.ram (a.phys.toNat + o + offset.toNat) := by
        intro gs
        induction gs with
        | nil => exact fun _ _ _ _ _ => rfl
        | cons g gs ih =>
          intro m h hram hf happ
          obtain ⟨hlo, hhi⟩ := hf g List.mem_cons_self
          have hone := sameOn_writeField h hram g (o := o) (by omega)
          have hram' : (writeField ctx (a.va + UInt32.ofNat o) m g).ramSize ≤ 2 ^ 32 := by
            rw [hone.size]
            exact hram
          have hnext := ih _ (h.keep hsub (by omega) hone) hram'
            (fun g' hg' => hf g' (List.mem_cons_of_mem g hg'))
            fun g' hg' => happ g' (List.mem_cons_of_mem g hg')
          refine Eq.trans hnext ?_
          apply loadWord_congr
          intro j hj
          apply hone.ram
          have hg := happ g List.mem_cons_self
          show _ < a.phys.toNat + (o + g.start) ∨ a.phys.toNat + (o + g.start) + g.width ≤ _
          omega
      refine Eq.trans (hlater fields _ hready hram' hrest hfirst) ?_
      have hva : a.va + UInt32.ofNat o + offset = a.va + UInt32.ofNat (o + offset.toNat) := by
        rw [← add_ofNat_ofNat, UInt32.ofNat_toNat]
      have hwidth : offset.toNat + 4 ≤ hi := hhi
      show loadWord (writeVirtL m ctx (a.va + UInt32.ofNat o + offset) val).ram _ = val
      rw [hva, writeVirtL_eq h hram (by omega), Nat.add_assoc]
      exact loadWord_storeWord _ _ _
    · exact ih hready hram' hrest hothers hmem

end Structs

/-- Where the loader's structures lie. -/
structure LdrLayout where
  heap : Area
  table : Area
  peb : Area

/-- A place in the loader's heap or in the hash table. -/
inductive Spot where
  | heap (offset : Nat)
  | table (offset : Nat)
  deriving DecidableEq

def Spot.offset : Spot → Nat
  | .heap offset | .table offset => offset

namespace LdrLayout

/-- The bytes that are written to. -/
def written (L : LdrLayout) : Set Nat := L.heap.range ∪ L.table.range ∪ L.peb.range

def area (L : LdrLayout) : Spot → Area
  | .heap _ => L.heap
  | .table _ => L.table

/-- The address of a place, and its index in the array. -/
def va (L : LdrLayout) (s : Spot) : UInt32 := (L.area s).va + UInt32.ofNat s.offset

def index (L : LdrLayout) (s : Spot) : Nat := (L.area s).phys.toNat + s.offset

/-- There is room for a list entry. -/
def Inside (L : LdrLayout) (s : Spot) : Prop := s.offset + 8 ≤ (L.area s).len.toNat

/-- All of it is mapped, and apart. -/
structure Ready (L : LdrLayout) (ctx : PagingContext) (m : PhysMem) : Prop where
  ram : m.ramSize ≤ 2 ^ 32
  heap : L.heap.Ready m ctx L.written
  table : L.table.Ready m ctx L.written
  peb : L.peb.Ready m ctx L.written
  heapTable : Disjoint L.heap.range L.table.range
  heapPeb : Disjoint L.heap.range L.peb.range
  tablePeb : Disjoint L.table.range L.peb.range

/-- List entries that do not overlap. -/
structure Nodes (L : LdrLayout) (N : Set Spot) : Prop where
  inside : ∀ s ∈ N, L.Inside s
  apart : ∀ s ∈ N, ∀ t ∈ N, s ≠ t → L.index s + 8 ≤ L.index t ∨ L.index t + 8 ≤ L.index s

variable {L : LdrLayout} {ctx : PagingContext} {m m' : PhysMem} {s t : Spot} {N : Set Spot}

theorem heap_subset : L.heap.range ⊆ L.written := fun _ hx => Or.inl (Or.inl hx)

theorem table_subset : L.table.range ⊆ L.written := fun _ hx => Or.inl (Or.inr hx)

theorem peb_subset : L.peb.range ⊆ L.written := fun _ hx => Or.inr hx

theorem area_subset (s : Spot) : (L.area s).range ⊆ L.written := by
  cases s with
  | heap offset => exact heap_subset
  | table offset => exact table_subset

namespace Ready

theorem area (h : L.Ready ctx m) (s : Spot) : (L.area s).Ready m ctx L.written := by
  cases s with
  | heap offset => exact h.heap
  | table offset => exact h.table

/-- It stays ready while only its own bytes are written. -/
theorem after (h : L.Ready ctx m) (hsame : SameOn {x | x ∉ L.written} m m') : L.Ready ctx m' where
  ram := by rw [hsame.size]; exact h.ram
  heap := h.heap.after hsame
  table := h.table.after hsame
  peb := h.peb.after hsame
  heapTable := h.heapTable
  heapPeb := h.heapPeb
  tablePeb := h.tablePeb

/-- A word of a list entry is stored. -/
theorem storeAt (h : L.Ready ctx m) (hs : L.Inside s) {k : Nat} (hk : k + 4 ≤ 8) (val : UInt32) :
    L.Ready ctx (m.storeAt (L.index s + k) val) := by
  apply h.after
  apply (m.sameOn_storeAt _ val).mono
  intro x hx
  by_contra hin
  have hout : ¬ (x < L.index s + k ∨ L.index s + k + 4 ≤ x) := hin
  have hroom : s.offset + 8 ≤ (L.area s).len.toNat := hs
  refine hx (area_subset s ⟨?_, ?_⟩)
  all_goals
    unfold index at hout
    omega

/-- Translations do not change while it stays ready. -/
theorem getPhys (h : L.Ready ctx m) (hs : L.Inside s) :
    pagingGetPhys m ctx (L.va s) = (L.area s).phys + UInt32.ofNat s.offset := by
  have hroom : s.offset + 8 ≤ (L.area s).len.toNat := hs
  exact (h.area s).translated m (.refl _ m) s.offset (by omega)

theorem readl (h : L.Ready ctx m) (hs : L.Inside s) {k : Nat} (hk : k + 4 ≤ 8) :
    memReadlPhys m ((L.area s).phys + UInt32.ofNat s.offset + UInt32.ofNat k) =
      loadWord m.ram (L.index s + k) := by
  have hroom : s.offset + 8 ≤ (L.area s).len.toNat := hs
  rw [← h.getPhys hs]
  exact (h.area s).readl h.ram (by omega)

theorem writel (h : L.Ready ctx m) (hs : L.Inside s) {k : Nat} (hk : k + 4 ≤ 8) (val : UInt32) :
    memWritelPhys m ((L.area s).phys + UInt32.ofNat s.offset + UInt32.ofNat k) val =
      m.storeAt (L.index s + k) val := by
  have hroom : s.offset + 8 ≤ (L.area s).len.toNat := hs
  rw [← h.getPhys hs]
  exact (h.area s).writel h.ram (by omega) val

/-- The links of an entry as the guest sees them. -/
theorem guestLinks_next (h : L.Ready ctx m) (hs : L.Inside s) :
    (guestLinks m ctx).next (L.va s) = loadWord m.ram (L.index s) := by
  have hroom : s.offset + 8 ≤ (L.area s).len.toNat := hs
  exact (h.area s).guestWord_eq h.ram (by omega)

theorem guestLinks_prev (h : L.Ready ctx m) (hs : L.Inside s) :
    (guestLinks m ctx).prev (L.va s) = loadWord m.ram (L.index s + 4) := by
  have hroom : s.offset + 8 ≤ (L.area s).len.toNat := hs
  have hword := (h.area s).guestWord_eq h.ram (o := s.offset + 4) (by omega)
  rw [← add_ofNat_ofNat] at hword
  exact hword

/-- Entries at one address are one entry. -/
theorem va_inj (h : L.Ready ctx m) (hN : L.Nodes N) (hs : s ∈ N) (ht : t ∈ N)
    (heq : L.va s = L.va t) : s = t := by
  by_contra hne
  have hindex : L.index s = L.index t := by
    have hsroom : s.offset + 8 ≤ (L.area s).len.toNat := hN.inside s hs
    have htroom : t.offset + 8 ≤ (L.area t).len.toNat := hN.inside t ht
    unfold index
    rw [← (h.area s).toNat_getPhys h.ram (by omega), ← (h.area t).toNat_getPhys h.ram (by omega)]
    exact congrArg (fun va => (pagingGetPhys m ctx va).toNat) heq
  have hapart := hN.apart s hs t ht hne
  omega

end Ready

theorem Nodes.mono (hN : L.Nodes N) {N' : Set Spot} (hsub : N' ⊆ N) : L.Nodes N' where
  inside s hs := hN.inside s (hsub hs)
  apart s hs t ht := hN.apart s (hsub hs) t (hsub ht)

/-- A word of an entry changes exactly if it is the word that is stored. -/
theorem Nodes.load_storeAt (hN : L.Nodes N) (hs : s ∈ N) (ht : t ∈ N) {j k : Nat}
    (hj : j = 0 ∨ j = 4) (hk : k = 0 ∨ k = 4) (val : UInt32) :
    loadWord (m.storeAt (L.index s + k) val).ram (L.index t + j) =
      if t = s ∧ j = k then val else loadWord m.ram (L.index t + j) := by
  split
  next heq =>
    obtain ⟨rfl, rfl⟩ := heq
    exact loadWord_storeWord _ _ _
  next hne =>
    apply loadWord_storeWord_of_ne
    by_cases hts : t = s
    · subst hts
      have hjk : j ≠ k := fun heq => hne ⟨rfl, heq⟩
      omega
    · have hapart := hN.apart t ht s hs hts
      omega

theorem Nodes.load_next (hN : L.Nodes N) (hs : s ∈ N) (ht : t ∈ N) {k : Nat} (hk : k = 0 ∨ k = 4)
    (val : UInt32) : loadWord (m.storeAt (L.index s + k) val).ram (L.index t) =
      if t = s ∧ 0 = k then val else loadWord m.ram (L.index t) :=
  hN.load_storeAt hs ht (j := 0) (Or.inl rfl) hk val

theorem Nodes.load_prev (hN : L.Nodes N) (hs : s ∈ N) (ht : t ∈ N) {k : Nat} (hk : k = 0 ∨ k = 4)
    (val : UInt32) : loadWord (m.storeAt (L.index s + k) val).ram (L.index t + 4) =
      if t = s ∧ 4 = k then val else loadWord m.ram (L.index t + 4) :=
  hN.load_storeAt hs ht (Or.inr rfl) hk val

/-- A word is stored in an entry: its address is translated, the memory is another one. -/
theorem Ready.store_entry (h : L.Ready ctx m) (hs : L.Inside s) (val : UInt32) :
    memWritelPhys m ((L.area s).phys + UInt32.ofNat s.offset + 0) val =
        m.storeAt (L.index s + 0) val ∧
      memWritelPhys m ((L.area s).phys + UInt32.ofNat s.offset + 4) val =
        m.storeAt (L.index s + 4) val :=
  ⟨h.writel hs (k := 0) (by decide) val, h.writel hs (k := 4) (by decide) val⟩

/-- `list_insert_tail` stores four words, two in the new entry and one each in its neighbours. -/
theorem Ready.listInsertTail (h : L.Ready ctx m) (hN : L.Nodes N) {head e last : Spot}
    (hhead : head ∈ N) (he : e ∈ N) (hlast : last ∈ N) (hne : e ≠ head) (hne' : e ≠ last)
    (hprev : loadWord m.ram (L.index head + 4) = L.va last)
    (hnull : L.va last = 0 → last = head) :
    L.Ready ctx (listInsertTail m ctx (L.va head) (L.va e)) ∧
    ∀ t ∈ N,
      loadWord (Loader.listInsertTail m ctx (L.va head) (L.va e)).ram (L.index t) =
        (if t = last then L.va e else if t = e then L.va head else loadWord m.ram (L.index t)) ∧
      loadWord (Loader.listInsertTail m ctx (L.va head) (L.va e)).ram (L.index t + 4) =
        (if t = head then L.va e else if t = e then L.va last
          else loadWord m.ram (L.index t + 4)) := by
  have hih := hN.inside head hhead
  have hie := hN.inside e he
  have hil := hN.inside last hlast
  have hread : memReadlPhys m (pagingGetPhys m ctx (L.va head) + 4) = L.va last := by
    rw [h.getPhys hih, ← hprev]
    exact h.readl hih (k := 4) (by decide)
  unfold Loader.listInsertTail
  dsimp only
  rw [hread, h.getPhys hih]
  by_cases hempty : L.va last = 0 ∨ L.va last = L.va head
  · -- the list is empty: the head is its own neighbour
    have hself : last = head := hempty.elim hnull (h.va_inj hN hlast hhead)
    subst hself
    rw [if_pos hempty]
    have h1 := h.storeAt hih (k := 0) (by decide) (L.va e)
    have h2 := h1.storeAt hih (k := 4) (by decide) (L.va e)
    have h3 := h2.storeAt hie (k := 0) (by decide) (L.va last)
    have h4 := h3.storeAt hie (k := 4) (by decide) (L.va last)
    rw [(h.store_entry hih _).1, (h1.store_entry hih _).2, h2.getPhys hie,
      (h2.store_entry hie _).1, (h3.store_entry hie _).2]
    refine ⟨h4, fun t ht => ⟨?_, ?_⟩⟩
    · rw [hN.load_next he ht (Or.inr rfl), hN.load_next he ht (Or.inl rfl),
        hN.load_next hhead ht (Or.inr rfl), hN.load_next hhead ht (Or.inl rfl)]
      by_cases hte : t = e
      · subst hte
        simp [hne]
      · simp [hte]
    · rw [hN.load_prev he ht (Or.inr rfl), hN.load_prev he ht (Or.inl rfl),
        hN.load_prev hhead ht (Or.inr rfl), hN.load_prev hhead ht (Or.inl rfl)]
      by_cases hte : t = e
      · subst hte
        simp [hne]
      · simp [hte]
  · obtain ⟨hnonzero, hother⟩ := not_or.mp hempty
    rw [if_neg hempty]
    have h1 := h.storeAt hie (k := 0) (by decide) (L.va head)
    have h2 := h1.storeAt hie (k := 4) (by decide) (L.va last)
    have h3 := h2.storeAt hil (k := 0) (by decide) (L.va e)
    have h4 := h3.storeAt hih (k := 4) (by decide) (L.va e)
    rw [h.getPhys hie, h.getPhys hil, (h.store_entry hie _).1, (h1.store_entry hie _).2,
      (h2.store_entry hil _).1, (h3.store_entry hih _).2]
    refine ⟨h4, fun t ht => ⟨?_, ?_⟩⟩
    · rw [hN.load_next hhead ht (Or.inr rfl), hN.load_next hlast ht (Or.inl rfl),
        hN.load_next he ht (Or.inr rfl), hN.load_next he ht (Or.inl rfl)]
      simp
    · rw [hN.load_prev hhead ht (Or.inr rfl), hN.load_prev hlast ht (Or.inl rfl),
        hN.load_prev he ht (Or.inr rfl), hN.load_prev he ht (Or.inl rfl)]
      simp

/-- The lists that live in some nodes: circles apart from each other. -/
structure Lists (L : LdrLayout) (ctx : PagingContext) (N : Set Spot) (heads : List UInt32)
    (m : PhysMem) (inserted : UInt32 → List UInt32) : Prop where
  ready : L.Ready ctx m
  nodes : L.Nodes N
  head : ∀ h ∈ heads, ∃ s ∈ N, L.va s = h
  member : ∀ h ∈ heads, ∀ x ∈ inserted h, ∃ s ∈ N, L.va s = x ∧ x ≠ 0
  apart : ∀ h ∈ heads, ∀ h' ∈ heads, h ≠ h' → (h :: inserted h).Disjoint (h' :: inserted h')
  circle : ∀ h ∈ heads, (guestLinks m ctx).Circle h (inserted h)

namespace Lists

variable {heads : List UInt32} {inserted : UInt32 → List UInt32} {N' : Set Spot}

/-- Every node of a list has a place. -/
theorem spot (h : L.Lists ctx N heads m inserted) {head x : UInt32} (hhead : head ∈ heads)
    (hx : x ∈ head :: inserted head) : ∃ s ∈ N, L.va s = x := by
  rcases List.mem_cons.mp hx with rfl | hx
  · exact h.head _ hhead
  · obtain ⟨s, hs, hva, -⟩ := h.member head hhead x hx
    exact ⟨s, hs, hva⟩

/-- Links that are as they should be at all places keep the lists circular. -/
theorem of_links (h : L.Lists ctx N heads m inserted) (hready : L.Ready ctx m')
    (hnext : ∀ t ∈ N, loadWord m'.ram (L.index t) = loadWord m.ram (L.index t))
    (hprev : ∀ t ∈ N, loadWord m'.ram (L.index t + 4) = loadWord m.ram (L.index t + 4)) :
    L.Lists ctx N heads m' inserted where
  ready := hready
  nodes := h.nodes
  head := h.head
  member := h.member
  apart := h.apart
  circle head hhead := by
    apply (h.circle head hhead).congr
    · intro x hx
      obtain ⟨t, ht, rfl⟩ := h.spot hhead hx
      rw [hready.guestLinks_next (h.nodes.inside t ht), hnext t ht,
        h.ready.guestLinks_next (h.nodes.inside t ht)]
    · intro x hx
      obtain ⟨t, ht, rfl⟩ := h.spot hhead hx
      rw [hready.guestLinks_prev (h.nodes.inside t ht), hprev t ht,
        h.ready.guestLinks_prev (h.nodes.inside t ht)]

/-- Writes that miss all entries change no list. -/
theorem keep (h : L.Lists ctx N heads m inserted) (hready : L.Ready ctx m') {S : Set Nat}
    (hsame : SameOn S m m') (hS : ∀ t ∈ N, ∀ k < 8, L.index t + k ∈ S) :
    L.Lists ctx N heads m' inserted := by
  apply h.of_links hready
  · intro t ht
    exact loadWord_congr fun k hk => hsame.ram _ (hS t ht k (by omega))
  · intro t ht
    apply loadWord_congr
    intro k hk
    rw [Nat.add_assoc]
    exact hsame.ram _ (hS t ht (4 + k) (by omega))

/-- There may be more nodes than the lists use. -/
theorem mono (h : L.Lists ctx N heads m inserted) (hN : L.Nodes N') (hsub : N ⊆ N') :
    L.Lists ctx N' heads m inserted where
  ready := h.ready
  nodes := hN
  head head hhead := by
    obtain ⟨s, hs, hva⟩ := h.head head hhead
    exact ⟨s, hsub hs, hva⟩
  member head hhead x hx := by
    obtain ⟨s, hs, hva⟩ := h.member head hhead x hx
    exact ⟨s, hsub hs, hva⟩
  apart := h.apart
  circle := h.circle

/-- An entry that is not among the nodes is on no list. -/
theorem fresh (h : L.Lists ctx N heads m inserted) {e : Spot} (hN : L.Nodes (Insert.insert e N))
    (he : e ∉ N) : ∀ head ∈ heads, L.va e ∉ head :: inserted head := by
  intro head hhead hmem
  obtain ⟨t, ht, hva⟩ := h.spot hhead hmem
  have heq := h.ready.va_inj hN (Set.mem_insert_of_mem e ht) (Set.mem_insert e N) hva
  exact he (heq ▸ ht)

/-- `list_insert_tail` puts an entry that is on no list behind the others of one list. -/
theorem insert (h : L.Lists ctx N heads m inserted) {head : UInt32} (hhead : head ∈ heads)
    {e : Spot} (he : e ∈ N) (hnull : L.va e ≠ 0) (hfresh : ∀ h ∈ heads, L.va e ∉ h :: inserted h) :
    L.Lists ctx N heads (Loader.listInsertTail m ctx head (L.va e))
      (Function.update inserted head (inserted head ++ [L.va e])) := by
  obtain ⟨shead, hshead, rfl⟩ := h.head head hhead
  have hcircle := h.circle _ hhead
  obtain ⟨last, hlast, hva⟩ := h.spot hhead hcircle.prev_head_mem
  have hne : ∀ t ∈ N, L.va t ∈ L.va shead :: inserted (L.va shead) → e ≠ t := by
    rintro t ht hmem rfl
    exact hfresh _ hhead hmem
  have hlastmem : L.va last ∈ L.va shead :: inserted (L.va shead) := by
    rw [hva]
    exact hcircle.prev_head_mem
  have hprev : loadWord m.ram (L.index shead + 4) = L.va last := by
    rw [hva, h.ready.guestLinks_prev (h.nodes.inside _ hshead)]
  have hzero : L.va last = 0 → last = shead := by
    intro hzero
    rcases List.mem_cons.mp hlastmem with heq | hmem
    · exact h.ready.va_inj h.nodes hlast hshead heq
    · obtain ⟨-, -, -, hne0⟩ := h.member _ hhead _ hmem
      exact absurd hzero hne0
  obtain ⟨hready, hload⟩ := h.ready.listInsertTail h.nodes hshead he hlast
    (hne shead hshead List.mem_cons_self) (hne last hlast hlastmem) hprev hzero
  -- at all places the links are those of an insertion
  have hva_iff : ∀ t ∈ N, ∀ s ∈ N, (L.va t = L.va s ↔ t = s) := fun t ht s hs =>
    ⟨h.ready.va_inj h.nodes ht hs, congrArg L.va⟩
  have hnext : ∀ t ∈ N, (guestLinks (Loader.listInsertTail m ctx (L.va shead) (L.va e)) ctx).next
      (L.va t) = ((guestLinks m ctx).insertTail (L.va shead) (L.va e)).next (L.va t) := by
    intro t ht
    rw [hready.guestLinks_next (h.nodes.inside t ht), (hload t ht).1]
    unfold Links.insertTail
    dsimp only
    rw [← hva, Function.update_apply, Function.update_apply,
      h.ready.guestLinks_next (h.nodes.inside t ht)]
    simp only [hva_iff t ht last hlast, hva_iff t ht e he]
  have hprev' : ∀ t ∈ N, (guestLinks (Loader.listInsertTail m ctx (L.va shead) (L.va e)) ctx).prev
      (L.va t) = ((guestLinks m ctx).insertTail (L.va shead) (L.va e)).prev (L.va t) := by
    intro t ht
    rw [hready.guestLinks_prev (h.nodes.inside t ht), (hload t ht).2]
    unfold Links.insertTail
    dsimp only
    rw [← hva, Function.update_apply, Function.update_apply,
      h.ready.guestLinks_prev (h.nodes.inside t ht)]
    simp only [hva_iff t ht shead hshead, hva_iff t ht e he]
  have hself : Function.update inserted (L.va shead) (inserted (L.va shead) ++ [L.va e])
      (L.va shead) = inserted (L.va shead) ++ [L.va e] := Function.update_self _ _ _
  have hothers : ∀ h', h' ≠ L.va shead → Function.update inserted (L.va shead)
      (inserted (L.va shead) ++ [L.va e]) h' = inserted h' := fun _ hh' =>
    Function.update_of_ne hh' _ _
  have hmem : ∀ h' ∈ heads, ∀ x ∈ h' :: Function.update inserted (L.va shead)
      (inserted (L.va shead) ++ [L.va e]) h',
        x ∈ h' :: inserted h' ∨ h' = L.va shead ∧ x = L.va e := by
    intro h' hh' x hx
    by_cases heq : h' = L.va shead
    · subst heq
      rw [hself, ← List.cons_append] at hx
      exact (List.mem_append.mp hx).imp id fun hx => ⟨rfl, List.mem_singleton.mp hx⟩
    · rw [hothers h' heq] at hx
      exact Or.inl hx
  refine ⟨hready, h.nodes, h.head, ?member, ?apart, ?circle⟩
  case member =>
    intro h' hh' x hx
    by_cases heq : h' = L.va shead
    · subst heq
      rw [hself] at hx
      rcases List.mem_append.mp hx with hx | hx
      · exact h.member _ hh' x hx
      · obtain rfl := List.mem_singleton.mp hx
        exact ⟨e, he, rfl, hnull⟩
    · rw [hothers h' heq] at hx
      exact h.member h' hh' x hx
  case apart =>
    intro h₁ hh₁ h₂ hh₂ hne₁₂ x hx₁ hx₂
    rcases hmem h₁ hh₁ x hx₁ with hold₁ | ⟨rfl, rfl⟩
    · rcases hmem h₂ hh₂ x hx₂ with hold₂ | ⟨rfl, rfl⟩
      · exact h.apart h₁ hh₁ h₂ hh₂ hne₁₂ hold₁ hold₂
      · exact hfresh h₁ hh₁ hold₁
    · rcases hmem h₂ hh₂ _ hx₂ with hold₂ | ⟨rfl, -⟩
      · exact hfresh h₂ hh₂ hold₂
      · exact hne₁₂ rfl
  case circle =>
    intro h' hh'
    have hspot : ∀ x ∈ h' :: Function.update inserted (L.va shead)
        (inserted (L.va shead) ++ [L.va e]) h', ∃ t ∈ N, L.va t = x := by
      intro x hx
      rcases hmem h' hh' x hx with hold | ⟨-, rfl⟩
      · exact h.spot hh' hold
      · exact ⟨e, he, rfl⟩
    have hcircle' : ((guestLinks m ctx).insertTail (L.va shead) (L.va e)).Circle h'
        (Function.update inserted (L.va shead) (inserted (L.va shead) ++ [L.va e]) h') := by
      by_cases heq : h' = L.va shead
      · subst heq
        rw [hself]
        exact hcircle.insertTail (hfresh _ hhead)
      · rw [hothers h' heq]
        exact hcircle.insertTail_of_disjoint (h.circle h' hh')
          (h.apart _ hhead h' hh' fun hsame => heq hsame.symm) (hfresh h' hh')
    apply hcircle'.congr
    · intro x hx
      obtain ⟨t, ht, rfl⟩ := hspot x hx
      exact hnext t ht
    · intro x hx
      obtain ⟨t, ht, rfl⟩ := hspot x hx
      exact hprev' t ht

/-- It puts a new entry there. -/
theorem insert_new (h : L.Lists ctx N heads m inserted) {head : UInt32} (hhead : head ∈ heads)
    {e : Spot} (hN : L.Nodes (Insert.insert e N)) (he : e ∉ N) (hnull : L.va e ≠ 0) :
    L.Lists ctx (Insert.insert e N) heads (Loader.listInsertTail m ctx head (L.va e))
      (Function.update inserted head (inserted head ++ [L.va e])) :=
  (h.mono hN (Set.subset_insert e N)).insert hhead (Set.mem_insert e N) hnull (h.fresh hN he)

end Lists

end LdrLayout

end Wbox.Loader
