import Wbox.Loader.LdrMemory

/-!
# The module lists of a run

Where the entries of the lists lie: in `PEB_LDR_DATA`, in each `LDR_DATA_TABLE_ENTRY`, and in the
buckets of the hash table. The calls of a run keep all lists circular as long as every name is
hashed into the table.
-/

namespace Wbox.Loader

open Wbox.Lib Wbox.Vm

/-- The loader's heap, the hash table and the pointer in the PEB are mapped. -/
structure Maps (L : LdrLayout) (ctx : PagingContext) (pebAddr hashTableVa : UInt32)
    (mem : PhysMem) : Prop where
  heapVa : L.heap.va = loaderHeapVa
  heapLen : L.heap.len = loaderHeapSize
  tableVa : L.table.va = hashTableVa
  tableLen : L.table.len = 256
  pebVa : L.peb.va = pebAddr + pebLdr
  pebLen : L.peb.len = 4
  ready : L.Ready ctx mem

/-- The list entries: two heads in `PEB_LDR_DATA`, three links in each module's entry, and the
buckets. -/
def entryNodes (entries : List Nat) : Set Spot :=
  {s | s = .heap 0x0C ∨ s = .heap 0x14 ∨ (∃ k < 32, s = .table (8 * k)) ∨
    ∃ e ∈ entries, s = .heap e ∨ s = .heap (e + 0x08) ∨ s = .heap (e + 0x3C)}

theorem heap_mem_iff {entries : List Nat} {o : Nat} : Spot.heap o ∈ entryNodes entries ↔
    o = 0x0C ∨ o = 0x14 ∨ ∃ e ∈ entries, o = e ∨ o = e + 0x08 ∨ o = e + 0x3C := by
  simp [entryNodes]

theorem table_mem_iff {entries : List Nat} {o : Nat} :
    Spot.table o ∈ entryNodes entries ↔ ∃ k < 32, o = 8 * k := by
  simp [entryNodes]

/-- The modules' entries lie apart, behind `PEB_LDR_DATA` and below the end of what has been
allocated. -/
structure Allocated (entries : List Nat) (top : Nat) : Prop where
  above : ∀ e ∈ entries, 0x28 ≤ e ∧ e + 0x50 ≤ top
  apart : ∀ e ∈ entries, ∀ e' ∈ entries, e ≠ e' → e + 0x50 ≤ e' ∨ e' + 0x50 ≤ e

namespace Allocated

variable {entries : List Nat} {top top' : Nat}

theorem mono (h : Allocated entries top) (htop : top ≤ top') : Allocated entries top' where
  above e he := ⟨(h.above e he).1, (h.above e he).2.trans htop⟩
  apart := h.apart

/-- A new entry is taken from the end. -/
theorem cons (h : Allocated entries top) (hlow : 0x28 ≤ top) (htop : top + 0x50 ≤ top') :
    Allocated (top :: entries) top' where
  above e he := by
    rcases List.mem_cons.mp he with rfl | he
    · exact ⟨hlow, htop⟩
    · have hold := h.above e he
      omega
  apart e he e' he' hne := by
    rcases List.mem_cons.mp he with heq | he
    · rcases List.mem_cons.mp he' with heq' | he'
      · exact absurd (heq.trans heq'.symm) hne
      · have hold := h.above e' he'
        omega
    · have hold := h.above e he
      rcases List.mem_cons.mp he' with heq' | he'
      · omega
      · exact h.apart e he e' he' hne

/-- The heap's list entries do not reach into each other. -/
theorem offsets_apart (h : Allocated entries top) {o o' : Nat}
    (ho : Spot.heap o ∈ entryNodes entries) (ho' : Spot.heap o' ∈ entryNodes entries)
    (hne : o ≠ o') : o + 8 ≤ o' ∨ o' + 8 ≤ o := by
  rcases heap_mem_iff.mp ho with rfl | rfl | ⟨e, he, hoe⟩
  · rcases heap_mem_iff.mp ho' with rfl | rfl | ⟨e', he', hoe'⟩
    · omega
    · omega
    · have habove := h.above e' he'
      omega
  · rcases heap_mem_iff.mp ho' with rfl | rfl | ⟨e', he', hoe'⟩
    · omega
    · omega
    · have habove := h.above e' he'
      omega
  · have habove := h.above e he
    rcases heap_mem_iff.mp ho' with rfl | rfl | ⟨e', he', hoe'⟩
    · omega
    · omega
    · by_cases heq : e = e'
      · omega
      · have hapart := h.apart e he e' he' heq
        omega

/-- Every list entry of the heap lies in what has been allocated. -/
theorem offset_le (h : Allocated entries top) {o : Nat} (ho : Spot.heap o ∈ entryNodes entries)
    (htop : 0x28 ≤ top) : o + 8 ≤ top := by
  rcases heap_mem_iff.mp ho with rfl | rfl | ⟨e, he, hoe⟩
  · omega
  · omega
  · have habove := h.above e he
    omega

end Allocated

/-- Ranges without a common byte lie one behind the other. -/
theorem apart_of_disjoint {a b : Area} (h : Disjoint a.range b.range) {o o' n : Nat}
    (ho : o + n ≤ a.len.toNat) (ho' : o' + n ≤ b.len.toNat) :
    a.phys.toNat + o + n ≤ b.phys.toNat + o' ∨ b.phys.toNat + o' + n ≤ a.phys.toNat + o := by
  by_contra hover
  obtain ⟨hover, hover'⟩ := not_or.mp hover
  have ha : max (a.phys.toNat + o) (b.phys.toNat + o') ∈ a.range := by
    constructor <;> omega
  have hb : max (a.phys.toNat + o) (b.phys.toNat + o') ∈ b.range := by
    constructor <;> omega
  exact Set.disjoint_left.mp h ha hb

namespace Maps

variable {L : LdrLayout} {ctx : PagingContext} {pebAddr hashTableVa : UInt32} {mem mem' : PhysMem}
  {entries : List Nat} {top : Nat}

theorem heap_len (h : Maps L ctx pebAddr hashTableVa mem) : L.heap.len.toNat = 0x10000 := by
  rw [h.heapLen]
  rfl

theorem table_len (h : Maps L ctx pebAddr hashTableVa mem) : L.table.len.toNat = 256 := by
  rw [h.tableLen]
  rfl

/-- They stay mapped while only their own bytes are written. -/
theorem after (h : Maps L ctx pebAddr hashTableVa mem) (hready : L.Ready ctx mem') :
    Maps L ctx pebAddr hashTableVa mem' :=
  { h with ready := hready }

/-- There is room for every list entry. -/
theorem heap_room (h : Maps L ctx pebAddr hashTableVa mem) (hentries : Allocated entries top)
    (hlow : 0x28 ≤ top) (htop : top ≤ 0x10000) {o : Nat} (ho : Spot.heap o ∈ entryNodes entries) :
    o + 8 ≤ L.heap.len.toNat := by
  have hle := hentries.offset_le ho hlow
  rw [h.heap_len]
  omega

theorem table_room (h : Maps L ctx pebAddr hashTableVa mem) {o : Nat}
    (ho : Spot.table o ∈ entryNodes entries) : o + 8 ≤ L.table.len.toNat := by
  obtain ⟨k, hk, rfl⟩ := table_mem_iff.mp ho
  rw [h.table_len]
  omega

/-- The list entries are in mapped memory and do not overlap. -/
theorem nodes (h : Maps L ctx pebAddr hashTableVa mem) (hentries : Allocated entries top)
    (hlow : 0x28 ≤ top) (htop : top ≤ 0x10000) : L.Nodes (entryNodes entries) where
  inside s hs := by
    cases s with
    | heap o => exact h.heap_room hentries hlow htop hs
    | table o => exact h.table_room hs
  apart s hs t ht hne := by
    -- within an area by the offsets, otherwise by the areas
    cases s with
    | heap o =>
      cases t with
      | heap o' =>
        have hoff := hentries.offsets_apart hs ht fun heq => hne (congrArg Spot.heap heq)
        show L.heap.phys.toNat + o + 8 ≤ L.heap.phys.toNat + o' ∨
          L.heap.phys.toNat + o' + 8 ≤ L.heap.phys.toNat + o
        omega
      | table o' =>
        exact apart_of_disjoint h.ready.heapTable (h.heap_room hentries hlow htop hs)
          (h.table_room ht)
    | table o =>
      cases t with
      | heap o' =>
        exact apart_of_disjoint h.ready.heapTable.symm (h.table_room hs)
          (h.heap_room hentries hlow htop ht)
      | table o' =>
        obtain ⟨k, hk, rfl⟩ := table_mem_iff.mp hs
        obtain ⟨k', hk', rfl⟩ := table_mem_iff.mp ht
        have hkk : k ≠ k' := fun heq => hne (congrArg (fun k => Spot.table (8 * k)) heq)
        show L.table.phys.toNat + 8 * k + 8 ≤ L.table.phys.toNat + 8 * k' ∨
          L.table.phys.toNat + 8 * k' + 8 ≤ L.table.phys.toNat + 8 * k
        omega

/-- Bytes of the heap that no list entry reaches. -/
theorem outside_entries (h : Maps L ctx pebAddr hashTableVa mem) {N : Set Spot} (hN : L.Nodes N)
    {o n : Nat} (hn : o + n ≤ 0x10000)
    (hheap : ∀ o', Spot.heap o' ∈ N → o' + 8 ≤ o ∨ o + n ≤ o') :
    ∀ t ∈ N, ∀ k < 8, L.index t + k ∈ L.heap.Except o n := by
  intro t ht k hk
  have hroom : t.offset + 8 ≤ (L.area t).len.toNat := hN.inside t ht
  cases t with
  | heap o' =>
    have happ := hheap o' ht
    show L.heap.phys.toNat + o' + k < L.heap.phys.toNat + o ∨
      L.heap.phys.toNat + o + n ≤ L.heap.phys.toNat + o' + k
    omega
  | table o' =>
    have hroom' : o' + 8 ≤ L.table.len.toNat := hroom
    apply Area.mem_except_of_disjoint h.ready.heapTable.symm _ (by rw [h.heap_len]; omega)
    show L.table.phys.toNat ≤ L.table.phys.toNat + o' + k ∧
      L.table.phys.toNat + o' + k < L.table.phys.toNat + L.table.len.toNat
    omega

/-- No entry of the heap is at address 0. -/
theorem va_heap_ne_zero (h : Maps L ctx pebAddr hashTableVa mem) {o : Nat} (ho : o < 0x10000) :
    L.va (.heap o) ≠ 0 := by
  intro hzero
  have hnat : (L.heap.va + UInt32.ofNat o).toNat = 0 := congrArg UInt32.toNat hzero
  have hbase : loaderHeapVa.toNat = 0x7F010000 := rfl
  have hoff : (UInt32.ofNat o).toNat = o := Nat.mod_eq_of_lt (by omega)
  rw [h.heapVa, UInt32.toNat_add, hbase, hoff, Nat.mod_eq_of_lt (by omega)] at hnat
  omega

theorem va_heap (h : Maps L ctx pebAddr hashTableVa mem) (o : Nat) :
    L.va (.heap o) = loaderHeapVa + UInt32.ofNat o := by
  rw [← h.heapVa]
  rfl

theorem va_table (h : Maps L ctx pebAddr hashTableVa mem) (i : Nat) :
    L.va (.table (8 * i)) = hashTableVa + UInt32.ofNat i * 8 := by
  show L.table.va + UInt32.ofNat (8 * i) = _
  rw [h.tableVa, Nat.mul_comm, UInt32.ofNat_mul]
  rfl

/-- The heads of the lists are entries of their own. -/
theorem head_spot (h : Maps L ctx pebAddr hashTableVa mem) {head : UInt32}
    (hhead : head ∈ listHeads hashTableVa) :
    ∃ s, (s = .heap 0x0C ∨ s = .heap 0x14 ∨ ∃ k < 32, s = .table (8 * k)) ∧ L.va s = head := by
  rcases List.mem_append.mp hhead with hmem | hmem
  · rcases List.mem_cons.mp hmem with rfl | hmem
    · exact ⟨.heap 0x0C, Or.inl rfl, h.va_heap 0x0C⟩
    · obtain rfl := List.mem_singleton.mp hmem
      exact ⟨.heap 0x14, Or.inr (Or.inl rfl), h.va_heap 0x14⟩
  · obtain ⟨i, hi, rfl⟩ := List.mem_map.mp hmem
    exact ⟨.table (8 * i), Or.inr (Or.inr ⟨i, List.mem_range.mp hi, rfl⟩), h.va_table i⟩

end Maps

/-- What `module_heap_alloc` does: nothing, or it takes the rounded size from the end. -/
theorem moduleHeapAlloc_cases (mgr : ModuleManager) (size : UInt32) (hsize : size.toNat ≤ 0x10000)
    (hptr : mgr.loaderHeapPtr.toNat ≤ 0x10000) (hva : mgr.loaderHeapVa = loaderHeapVa)
    (hlen : mgr.loaderHeapSize = loaderHeapSize) :
    moduleHeapAlloc mgr size = (0, mgr) ∨
      ∃ ptr, moduleHeapAlloc mgr size =
          (loaderHeapVa + UInt32.ofNat mgr.loaderHeapPtr.toNat, { mgr with loaderHeapPtr := ptr }) ∧
        loaderHeapVa + UInt32.ofNat mgr.loaderHeapPtr.toNat ≠ 0 ∧
        mgr.loaderHeapPtr.toNat + size.toNat ≤ ptr.toNat ∧ ptr.toNat ≤ 0x10000 := by
  have hround : ((size + 3) &&& ~~~3).toNat = (size.toNat + 3) / 4 * 4 := toNat_roundUp4 (by omega)
  have hend : (mgr.loaderHeapPtr + ((size + 3) &&& ~~~3)).toNat =
      mgr.loaderHeapPtr.toNat + (size.toNat + 3) / 4 * 4 := by
    rw [UInt32.toNat_add, hround, Nat.mod_eq_of_lt (by omega)]
  have hheap : loaderHeapSize.toNat = 0x10000 := rfl
  unfold moduleHeapAlloc
  dsimp only
  by_cases hfull : mgr.loaderHeapPtr + ((size + 3) &&& ~~~3) > mgr.loaderHeapSize
  · exact Or.inl (if_pos hfull)
  · rw [if_neg hfull]
    rw [hlen, gt_iff_lt, UInt32.lt_iff_toNat_lt, hend, hheap] at hfull
    refine Or.inr ⟨mgr.loaderHeapPtr + ((size + 3) &&& ~~~3), ?_, ?_, ?_, ?_⟩
    · rw [hva, UInt32.ofNat_toNat]
    · rw [UInt32.ofNat_toNat]
      intro hzero
      have hnat := congrArg UInt32.toNat hzero
      have hbase : loaderHeapVa.toNat = 0x7F010000 := rfl
      rw [UInt32.toNat_add, hbase, Nat.mod_eq_of_lt (by omega)] at hnat
      have hnil : (0 : UInt32).toNat = 0 := rfl
      omega
    · rw [hend]
      omega
    · rw [hend]
      omega

theorem ldrEntryFields_within (mod : LdrModule) (entryVa nameVa : UInt32) :
    FieldsWithin 0 0x50 (ldrEntryFields mod entryVa nameVa) := by
  simp [FieldsWithin, ldrEntryFields, FieldWrite.start, FieldWrite.width]

theorem pebLdrFields_within (ldrVa : UInt32) : FieldsWithin 0 0x28 (pebLdrFields ldrVa) := by
  simp [FieldsWithin, pebLdrFields, FieldWrite.start, FieldWrite.width]

theorem thirdLink_within (entryVa : UInt32) :
    FieldsWithin 0x10 0x18 [.long 0x10 (entryVa + 0x10), .long 0x14 (entryVa + 0x10)] := by
  simp [FieldsWithin, FieldWrite.start, FieldWrite.width]

theorem loadOrder_mem (hashTableVa : UInt32) : loaderHeapVa + 0x0C ∈ listHeads hashTableVa :=
  List.mem_append_left _ List.mem_cons_self

theorem memoryOrder_mem (hashTableVa : UInt32) : loaderHeapVa + 0x14 ∈ listHeads hashTableVa :=
  List.mem_append_left _ (List.mem_cons_of_mem _ List.mem_cons_self)

/-- Other lists are as they were. -/
theorem LdrRun.insert_of_ne {r : LdrRun} {head head' entry : UInt32} (h : head' ≠ head) :
    (r.insert head entry).inserted head' = r.inserted head' :=
  Function.update_of_ne h _ _

theorem bucketFields_within (bucketVa : UInt32) : FieldsWithin 0 8 (bucketFields bucketVa) := by
  simp [FieldsWithin, bucketFields, FieldWrite.start, FieldWrite.width]

theorem bucketFields_apart (bucketVa : UInt32) : FieldsApart (bucketFields bucketVa) := by
  simp [FieldsApart, bucketFields, FieldWrite.start, FieldWrite.width]

theorem pebLdrFields_apart (ldrVa : UInt32) : FieldsApart (pebLdrFields ldrVa) := by
  simp [FieldsApart, pebLdrFields, FieldWrite.start, FieldWrite.width]

section Start

variable {L : LdrLayout} {ctx : PagingContext} {pebAddr hashTableVa : UInt32} {mem m : PhysMem}

/-- A place whose two links point to itself. -/
def SelfLinked (L : LdrLayout) (m : PhysMem) (s : Spot) : Prop :=
  loadWord m.ram (L.index s) = L.va s ∧ loadWord m.ram (L.index s + 4) = L.va s

/-- The first buckets are initialised, and nothing else is written. -/
theorem buckets_selfLinked (hmaps : Maps L ctx pebAddr hashTableVa mem) (hready : L.Ready ctx m)
    {n : Nat} (hn : n ≤ 32) :
    SameOn (L.table.Except 0 (8 * n)) m ((List.range n).foldl (initBucket ctx hashTableVa) m) ∧
      ∀ k < n, SelfLinked L ((List.range n).foldl (initBucket ctx hashTableVa) m)
        (.table (8 * k)) := by
  induction n with
  | zero => exact ⟨.refl _ m, fun k hk => absurd hk (Nat.not_lt_zero k)⟩
  | succ n ih =>
    obtain ⟨hsame, hself⟩ := ih (by omega)
    have hlen := hmaps.table_len
    rw [List.range_succ, List.foldl_append, List.foldl_cons, List.foldl_nil]
    generalize (List.range n).foldl (initBucket ctx hashTableVa) m = mn at hsame hself ⊢
    have hreadyn := hready.after (hsame.mono
      (Area.except_subset LdrLayout.table_subset (by omega)))
    have hbucket : initBucket ctx hashTableVa mn n = writeStruct mn ctx
        (L.table.va + UInt32.ofNat (8 * n)) (bucketFields (L.va (.table (8 * n)))) := by
      rw [show L.table.va + UInt32.ofNat (8 * n) = hashTableVa + UInt32.ofNat n * 8 from
        hmaps.va_table n, hmaps.va_table n]
      rfl
    have hwithin := bucketFields_within (L.va (.table (8 * n)))
    have hone := sameOn_writeStruct hreadyn.table hreadyn.ram LdrLayout.table_subset (o := 8 * n)
      (by omega) hwithin
    rw [hbucket]
    constructor
    · have hfirst : L.table.Except 0 (8 * (n + 1)) ⊆ L.table.Except 0 (8 * n) := by
        rintro x (hx | hx)
        · exact Or.inl hx
        · exact Or.inr (by omega)
      apply (hsame.mono hfirst).trans (hone.mono _)
      rintro x (hx | hx)
      · exact Or.inl (by omega)
      · exact Or.inr (by omega)
    · intro k hk
      rcases Nat.lt_succ_iff_lt_or_eq.mp hk with hk | rfl
      · -- the buckets before this one
        have hkeep : ∀ j, j + 4 ≤ 8 → loadWord (writeStruct mn ctx
            (L.table.va + UInt32.ofNat (8 * n)) (bucketFields (L.va (.table (8 * n))))).ram
              (L.index (.table (8 * k)) + j) =
            loadWord mn.ram (L.index (.table (8 * k)) + j) := by
          intro j hj
          apply loadWord_congr
          intro i hi
          apply hone.ram
          refine Or.inl ?_
          show L.table.phys.toNat + 8 * k + j + i < _
          omega
        exact ⟨(hkeep 0 (by decide)).trans (hself k hk).1,
          (hkeep 4 (by decide)).trans (hself k hk).2⟩
      · have hlink : ∀ offset : UInt32,
            .long offset (L.va (.table (8 * k))) ∈ bucketFields (L.va (.table (8 * k))) →
            loadWord (writeStruct mn ctx (L.table.va + UInt32.ofNat (8 * k))
              (bucketFields (L.va (.table (8 * k))))).ram
                (L.table.phys.toNat + 8 * k + offset.toNat) = L.va (.table (8 * k)) :=
          fun offset hmem => loadWord_writeStruct hreadyn.table hreadyn.ram
            LdrLayout.table_subset (by omega) hwithin (bucketFields_apart _) hmem
        exact ⟨hlink 0 List.mem_cons_self,
          hlink 4 (List.mem_cons_of_mem _ List.mem_cons_self)⟩

/-- Both tables after their initialisation. -/
def initTables (ctx : PagingContext) (pebAddr hashTableVa : UInt32) (mem : PhysMem) : PhysMem :=
  moduleInitLdrpHashTable
    (writeVirtL (writeStruct mem ctx loaderHeapVa (pebLdrFields loaderHeapVa)) ctx
      (pebAddr + pebLdr) loaderHeapVa) ctx hashTableVa

/-- All heads are linked to themselves. -/
theorem tables_selfLinked (hmaps : Maps L ctx pebAddr hashTableVa mem) :
    L.Ready ctx (initTables ctx pebAddr hashTableVa mem) ∧
      ∀ s ∈ entryNodes [], SelfLinked L (initTables ctx pebAddr hashTableVa mem) s := by
  have hlen := hmaps.heap_len
  have hpeb : L.peb.len.toNat = 4 := congrArg UInt32.toNat hmaps.pebLen
  have hva : ∀ va : UInt32, va + UInt32.ofNat 0 = va := fun va => UInt32.add_zero va
  -- the three steps and what each leaves alone
  have hfields := sameOn_writeStruct hmaps.ready.heap hmaps.ready.ram LdrLayout.heap_subset
    (o := 0) (by omega) (pebLdrFields_within loaderHeapVa)
  have hread : ∀ {offset val : UInt32}, .long offset val ∈ pebLdrFields loaderHeapVa →
      loadWord (writeStruct mem ctx (L.heap.va + UInt32.ofNat 0) (pebLdrFields loaderHeapVa)).ram
        (L.heap.phys.toNat + 0 + offset.toNat) = val := fun hmem =>
    loadWord_writeStruct hmaps.ready.heap hmaps.ready.ram LdrLayout.heap_subset (by omega)
      (pebLdrFields_within loaderHeapVa) (pebLdrFields_apart loaderHeapVa) hmem
  rw [hva, hmaps.heapVa] at hfields hread
  have hready₁ := hmaps.ready.after (hfields.mono (Area.except_subset LdrLayout.heap_subset
    (by omega)))
  have hpointer := sameOn_writeVirtL hready₁.peb hready₁.ram (o := 0) (by omega) loaderHeapVa
  rw [hva, hmaps.pebVa] at hpointer
  have hready₂ := hready₁.after (hpointer.mono (Area.except_subset LdrLayout.peb_subset
    (by omega)))
  obtain ⟨hbuckets, hself⟩ := buckets_selfLinked hmaps hready₂ (n := 32) le_rfl
  have hready₃ := hready₂.after (hbuckets.mono (Area.except_subset LdrLayout.table_subset
    hmaps.table_len.ge))
  refine ⟨hready₃, ?_⟩
  -- a word of the heap is still there
  have hkeep : ∀ offset val : UInt32, .long offset val ∈ pebLdrFields loaderHeapVa →
      offset.toNat + 4 ≤ 0x28 →
      loadWord (initTables ctx pebAddr hashTableVa mem).ram (L.heap.phys.toNat + offset.toNat) =
        val := by
    intro offset val hmem hoff
    have hin : ∀ i < 4, L.heap.phys.toNat + offset.toNat + i ∈ L.heap.range := by
      intro i hi
      constructor <;> omega
    refine Eq.trans (loadWord_congr fun i hi => ?_) (hread hmem)
    refine Eq.trans (hbuckets.ram _ ?_) (hpointer.ram _ ?_)
    · exact Area.mem_except_of_disjoint hmaps.ready.heapTable (hin i hi)
        hmaps.table_len.ge
    · exact Area.mem_except_of_disjoint hmaps.ready.heapPeb (hin i hi) (by omega)
  rintro s (rfl | rfl | ⟨k, hk, rfl⟩ | ⟨e, he, -⟩)
  · unfold SelfLinked
    rw [hmaps.va_heap]
    exact ⟨hkeep 0x0C _ (by simp [pebLdrFields]) (by decide),
      hkeep 0x10 _ (by simp [pebLdrFields]) (by decide)⟩
  · unfold SelfLinked
    rw [hmaps.va_heap]
    exact ⟨hkeep 0x14 _ (by simp [pebLdrFields]) (by decide),
      hkeep 0x18 _ (by simp [pebLdrFields]) (by decide)⟩
  · exact hself k hk
  · cases he

end Start

/-- What the calls keep. -/
structure LdrInv (L : LdrLayout) (ctx : PagingContext) (hashTableVa : UInt32)
    (modules : Nat → LdrModule) (entries : List Nat) (r : LdrRun) : Prop where
  lists : L.Lists ctx (entryNodes entries) (listHeads hashTableVa) r.vm.mem r.inserted
  heapVa : r.vm.mgr.loaderHeapVa = loaderHeapVa
  heapSize : r.vm.mgr.loaderHeapSize = loaderHeapSize
  ldrData : r.vm.mgr.ldrDataVa = loaderHeapVa
  allocated : Allocated entries r.vm.mgr.loaderHeapPtr.toNat
  low : 0x28 ≤ r.vm.mgr.loaderHeapPtr.toNat
  top : r.vm.mgr.loaderHeapPtr.toNat ≤ 0x10000
  name : ∀ mod, (r.modules mod).name = (modules mod).name
  entry : ∀ mod, (r.modules mod).ldrEntryVa = 0 ∨
    ∃ e ∈ entries, (r.modules mod).ldrEntryVa = loaderHeapVa + UInt32.ofNat e
  others : ∀ head, head ∉ listHeads hashTableVa → r.inserted head = []

namespace LdrInv

variable {L : LdrLayout} {ctx : PagingContext} {pebAddr hashTableVa : UInt32} {mem : PhysMem}
  {modules : Nat → LdrModule} {entries : List Nat} {r : LdrRun}

/-- After the initialisation all lists are empty. -/
theorem start (hmaps : Maps L ctx pebAddr hashTableVa mem) :
    LdrInv L ctx hashTableVa modules [] (ldrStart ctx pebAddr hashTableVa mem modules) := by
  obtain ⟨hready, hself⟩ := tables_selfLinked hmaps
  have halloc : moduleHeapAlloc moduleManagerInit 0x28 =
      (loaderHeapVa, { moduleManagerInit with loaderHeapPtr := 0x28 }) := by decide
  have hnonzero : loaderHeapVa ≠ 0 := by decide
  have hentries : Allocated [] 0x28 :=
    ⟨fun e he => absurd he List.not_mem_nil, fun e he => absurd he List.not_mem_nil⟩
  have hnodes : L.Nodes (entryNodes []) := hmaps.nodes hentries le_rfl (by decide)
  have hhead : ∀ {head}, head ∈ listHeads hashTableVa → ∃ s ∈ entryNodes [], L.va s = head := by
    intro head hmem
    obtain ⟨s, hs, hva⟩ := hmaps.head_spot hmem
    exact ⟨s, hs.imp_right fun hs => hs.imp_right Or.inl, hva⟩
  unfold ldrStart moduleInitPebLdr
  dsimp only
  rw [halloc]
  dsimp only
  rw [if_neg hnonzero]
  exact
    { lists :=
        { ready := hready
          nodes := hnodes
          head := fun head hmem => hhead hmem
          member := fun _ _ x hx => absurd hx List.not_mem_nil
          apart := fun head _ head' _ hne =>
            List.singleton_disjoint.mpr fun hmem => hne (List.mem_singleton.mp hmem)
          circle := by
            intro head hmem
            obtain ⟨s, hs, rfl⟩ := hhead hmem
            apply Links.Circle.nil
            · exact (hready.guestLinks_next (hnodes.inside s hs)).trans (hself s hs).1
            · exact (hready.guestLinks_prev (hnodes.inside s hs)).trans (hself s hs).2 }
      heapVa := rfl
      heapSize := rfl
      ldrData := rfl
      allocated := hentries
      low := le_rfl
      top := show 0x28 ≤ 0x10000 by decide
      name := fun _ => rfl
      entry := fun _ => Or.inl rfl
      others := fun _ _ => rfl }

theorem circular (h : LdrInv L ctx hashTableVa modules entries r) :
    ListsCircular ctx hashTableVa r := by
  intro head hhead
  have hmem : head ∈ listHeads hashTableVa := by
    rcases hhead with hmem | hne
    · exact hmem
    · exact Classical.byContradiction fun hnot => hne (h.others head hnot)
  exact (h.lists.circle head hmem).circular

/-- `module_link_to_hash_table` puts the third link of an entry into its bucket. -/
theorem link (h : LdrInv L ctx hashTableVa modules entries r)
    (hmaps : Maps L ctx pebAddr hashTableVa mem) {mod : Nat}
    (hbucket : bucketVa hashTableVa (modules mod).name ∈ listHeads hashTableVa)
    (honce : ∀ head, (r.modules mod).ldrEntryVa + 0x3C ∉ r.inserted head) :
    LdrInv L ctx hashTableVa modules entries (ldrStep ctx hashTableVa r (.link mod)) := by
  have hmaps' := hmaps.after h.lists.ready
  unfold ldrStep moduleLinkToHashTable
  dsimp only
  by_cases hnone : (r.modules mod).ldrEntryVa = 0
  · rw [if_pos hnone]
    exact h
  · rw [if_neg hnone]
    dsimp only
    obtain ⟨e, he, heq⟩ := (h.entry mod).resolve_left hnone
    have habove := h.allocated.above e he
    have htop := h.top
    have hva : L.va (.heap (e + 0x3C)) = (r.modules mod).ldrEntryVa + 0x3C := by
      rw [hmaps.va_heap, heq]
      exact (add_ofNat_ofNat _ e 0x3C).symm
    have hmem : Spot.heap (e + 0x3C) ∈ entryNodes entries :=
      heap_mem_iff.mpr (Or.inr (Or.inr ⟨e, he, Or.inr (Or.inr rfl)⟩))
    rw [h.name mod, ← hva]
    rw [← hva] at honce
    refine { h with lists := ?_, others := ?_ }
    · apply h.lists.insert hbucket hmem (hmaps.va_heap_ne_zero (by omega))
      intro head hhead hmem'
      rcases List.mem_cons.mp hmem' with hself | hmem'
      · -- a head is no entry
        obtain ⟨s, hs, hva'⟩ := hmaps.head_spot hhead
        have hsmem : s ∈ entryNodes entries := by
          rcases hs with rfl | rfl | hk
          · exact Or.inl rfl
          · exact Or.inr (Or.inl rfl)
          · exact Or.inr (Or.inr (Or.inl hk))
        have hspot := h.lists.ready.va_inj h.lists.nodes hmem hsmem (hself.trans hva'.symm)
        rcases hs with rfl | rfl | ⟨k, -, rfl⟩
        · have hoff := Spot.heap.inj hspot
          omega
        · have hoff := Spot.heap.inj hspot
          omega
        · cases hspot
      · exact honce head hmem'
    · intro head hhead
      have hne : head ≠ bucketVa hashTableVa (modules mod).name := fun heq => hhead (heq ▸ hbucket)
      rw [LdrRun.insert_of_ne hne]
      exact h.others head hhead

/-- What `module_create_ldr_entry` writes before it links the entry. -/
theorem filled (h : LdrInv L ctx hashTableVa modules entries r)
    (hmaps : Maps L ctx pebAddr hashTableVa mem) (mod : LdrModule) {o : Nat}
    (ho : r.vm.mgr.loaderHeapPtr.toNat + 0x50 ≤ o)
    (hroom : o + 2 * (mod.name.length + 1) ≤ 0x10000) :
    L.Lists ctx (entryNodes entries) (listHeads hashTableVa)
      (writeStruct (writeWideString r.vm.mem ctx (loaderHeapVa + UInt32.ofNat o) mod.name) ctx
        (loaderHeapVa + UInt32.ofNat r.vm.mgr.loaderHeapPtr.toNat)
        (ldrEntryFields mod (loaderHeapVa + UInt32.ofNat r.vm.mgr.loaderHeapPtr.toNat)
          (loaderHeapVa + UInt32.ofNat o))) r.inserted := by
  have hlen := hmaps.heap_len
  have hready := h.lists.ready
  have hbelow : ∀ {o'}, Spot.heap o' ∈ entryNodes entries →
      o' + 8 ≤ r.vm.mgr.loaderHeapPtr.toNat := fun ho' => h.allocated.offset_le ho' h.low
  have hname := sameOn_writeWideString hready.heap hready.ram LdrLayout.heap_subset mod.name
    (o := o) (by omega)
  rw [hmaps.heapVa] at hname
  have hready' := hready.after (hname.mono (Area.except_subset LdrLayout.heap_subset (by omega)))
  have hlists := h.lists.keep hready' hname
    (hmaps.outside_entries h.lists.nodes hroom fun o' ho' => by
      have hle := hbelow ho'
      omega)
  have hfields := sameOn_writeStruct hready'.heap hready'.ram LdrLayout.heap_subset
    (o := r.vm.mgr.loaderHeapPtr.toNat) (by omega)
    (ldrEntryFields_within mod (loaderHeapVa + UInt32.ofNat r.vm.mgr.loaderHeapPtr.toNat)
      (loaderHeapVa + UInt32.ofNat o))
  rw [hmaps.heapVa] at hfields
  have hready'' := hready'.after
    (hfields.mono (Area.except_subset LdrLayout.heap_subset (by omega)))
  exact hlists.keep hready'' hfields
    (hmaps.outside_entries h.lists.nodes (by omega) fun o' ho' => by
      have hle := hbelow ho'
      omega)

/-- The links of a new entry. -/
theorem linked {m : PhysMem} {inserted : UInt32 → List UInt32} {top : Nat}
    (h : L.Lists ctx (entryNodes entries) (listHeads hashTableVa) m inserted)
    (hmaps : Maps L ctx pebAddr hashTableVa mem) (hentries : Allocated entries top)
    (hlow : 0x28 ≤ top) (hroom : top + 0x50 ≤ 0x10000) :
    L.Lists ctx (entryNodes (top :: entries)) (listHeads hashTableVa)
      (linkLdrEntry m ctx loaderHeapVa (loaderHeapVa + UInt32.ofNat top))
      (Function.update
        (Function.update inserted (loaderHeapVa + 0x0C)
          (inserted (loaderHeapVa + 0x0C) ++ [loaderHeapVa + UInt32.ofNat top]))
        (loaderHeapVa + 0x14) (inserted (loaderHeapVa + 0x14) ++
          [loaderHeapVa + UInt32.ofNat top + 0x08])) := by
  have hnodes : L.Nodes (entryNodes (top :: entries)) :=
    hmaps.nodes (hentries.cons hlow le_rfl) (by omega) hroom
  have hold : ∀ {o}, Spot.heap o ∈ entryNodes entries → o + 8 ≤ top :=
    fun ho => hentries.offset_le ho hlow
  have hsub : entryNodes entries ⊆ entryNodes (top :: entries) := by
    rintro s (hs | hs | hs | ⟨e, he, hs⟩)
    · exact Or.inl hs
    · exact Or.inr (Or.inl hs)
    · exact Or.inr (Or.inr (Or.inl hs))
    · exact Or.inr (Or.inr (Or.inr ⟨e, List.mem_cons_of_mem top he, hs⟩))
  have hnew : ∀ o, o = top ∨ o = top + 0x08 ∨ o = top + 0x3C →
      Spot.heap o ∈ entryNodes (top :: entries) := fun o ho =>
    heap_mem_iff.mpr (Or.inr (Or.inr ⟨top, List.mem_cons_self, ho⟩))
  have hva : L.va (.heap top) = loaderHeapVa + UInt32.ofNat top := hmaps.va_heap top
  have hva' : L.va (.heap (top + 0x08)) = loaderHeapVa + UInt32.ofNat top + 0x08 := by
    rw [hmaps.va_heap]
    exact (add_ofNat_ofNat _ top 0x08).symm
  have hheads : loaderHeapVa + 0x14 ≠ loaderHeapVa + 0x0C := by decide
  -- the first list
  have hfirstSub : insert (Spot.heap top) (entryNodes entries) ⊆ entryNodes (top :: entries) :=
    Set.insert_subset (hnew _ (Or.inl rfl)) hsub
  have hfirst := h.insert_new (loadOrder_mem hashTableVa) (hnodes.mono hfirstSub)
    (fun hmem => absurd (hold hmem) (by omega)) (hmaps.va_heap_ne_zero (by omega))
  -- the second one
  have hsecondSub := Set.insert_subset (hnew _ (Or.inr (Or.inl rfl))) hfirstSub
  have hsecond := hfirst.insert_new (memoryOrder_mem hashTableVa) (hnodes.mono hsecondSub)
    (by
      intro hmem
      rcases Set.mem_insert_iff.mp hmem with heq | hmem
      · have hoff := Spot.heap.inj heq
        omega
      · have hle := hold hmem
        omega)
    (hmaps.va_heap_ne_zero (by omega))
  have hall := hsecond.mono hnodes hsecondSub
  rw [hva, hva', Function.update_of_ne hheads] at hall
  -- the third link lies between the others
  have hready := hall.ready
  have hself := sameOn_writeStruct hready.heap hready.ram LdrLayout.heap_subset (o := top)
    (by rw [hmaps.heap_len]; omega) (thirdLink_within (loaderHeapVa + UInt32.ofNat top))
  rw [hmaps.heapVa] at hself
  have hready' := hready.after (hself.mono (Area.except_subset LdrLayout.heap_subset
    (by rw [hmaps.heap_len]; omega)))
  unfold linkLdrEntry
  dsimp only
  rw [UInt32.add_zero]
  apply hall.keep hready' hself
  apply hmaps.outside_entries hnodes (by omega)
  intro o ho
  rcases heap_mem_iff.mp ho with rfl | rfl | ⟨e, he, hoe⟩
  · omega
  · omega
  · rcases List.mem_cons.mp he with rfl | he
    · omega
    · have habove := hentries.above e he
      omega

/-- Memory that is taken from the heap for something else. -/
theorem alloc (h : LdrInv L ctx hashTableVa modules entries r) {ptr : UInt32}
    (hle : r.vm.mgr.loaderHeapPtr.toNat ≤ ptr.toNat) (htop : ptr.toNat ≤ 0x10000) :
    LdrInv L ctx hashTableVa modules entries
      { r with vm := { r.vm with mgr := { r.vm.mgr with loaderHeapPtr := ptr } } } :=
  { h with
    allocated := h.allocated.mono hle
    low := h.low.trans hle
    top := htop }

/-- `module_create_ldr_entry` puts a new entry at the ends of two lists. -/
theorem create (h : LdrInv L ctx hashTableVa modules entries r)
    (hmaps : Maps L ctx pebAddr hashTableVa mem) (mod : Nat) :
    ∃ entries', LdrInv L ctx hashTableVa modules entries'
      (ldrStep ctx hashTableVa r (.create mod)) := by
  have hname : (UInt32.ofNat (2 * ((r.modules mod).name.length + 1))).toNat =
      2 * ((r.modules mod).name.length + 1) := by
    have hfits : (r.modules mod).name.length < 260 := (r.modules mod).nameFits
    exact Nat.mod_eq_of_lt (by omega)
  have hfits : (r.modules mod).name.length < 260 := (r.modules mod).nameFits
  unfold ldrStep moduleCreateLdrEntry
  dsimp only
  rcases moduleHeapAlloc_cases r.vm.mgr 0x50 (by decide) h.top h.heapVa
    h.heapSize with hfull | ⟨ptr, halloc, hnonzero, hend, htop⟩
  · rw [hfull]
    exact ⟨entries, h⟩
  · have hend' : r.vm.mgr.loaderHeapPtr.toNat + 0x50 ≤ ptr.toNat := hend
    rw [halloc]
    dsimp only
    rw [if_neg hnonzero]
    rcases moduleHeapAlloc_cases { r.vm.mgr with loaderHeapPtr := ptr }
      (UInt32.ofNat (2 * ((r.modules mod).name.length + 1))) (by omega) htop h.heapVa
      h.heapSize with hfull | ⟨ptr', halloc', hnonzero', hend'', htop'⟩
    · rw [hfull]
      exact ⟨entries, h.alloc (by omega) htop⟩
    · rw [hname] at hend''
      rw [halloc']
      dsimp only at hnonzero' hend'' ⊢
      rw [if_neg hnonzero', h.ldrData]
      have hfilled := h.filled hmaps (r.modules mod) hend' (by omega)
      have hlinked := linked hfilled hmaps h.allocated h.low (by omega)
      have hheads : loaderHeapVa + 0x14 ≠ loaderHeapVa + 0x0C := by decide
      refine ⟨r.vm.mgr.loaderHeapPtr.toNat :: entries,
        { lists := ?_
          heapVa := h.heapVa
          heapSize := h.heapSize
          ldrData := rfl
          allocated := h.allocated.cons h.low (show _ ≤ ptr'.toNat by omega)
          low := show 0x28 ≤ ptr'.toNat by omega
          top := htop'
          name := ?_
          entry := ?_
          others := ?_ }⟩
      · unfold LdrRun.insert
        dsimp only
        rw [Function.update_of_ne hheads]
        exact hlinked
      · intro mod'
        show (Function.update r.modules mod _ mod').name = _
        rcases eq_or_ne mod' mod with rfl | hne
        · rw [Function.update_self]
          exact h.name mod'
        · rw [Function.update_of_ne hne]
          exact h.name mod'
      · intro mod'
        show (Function.update r.modules mod _ mod').ldrEntryVa = 0 ∨ ∃ e ∈ _,
          (Function.update r.modules mod _ mod').ldrEntryVa = _
        rcases eq_or_ne mod' mod with rfl | hne
        · rw [Function.update_self]
          exact Or.inr ⟨_, List.mem_cons_self, rfl⟩
        · rw [Function.update_of_ne hne]
          rcases h.entry mod' with hzero | ⟨e, he, heq⟩
          · exact Or.inl hzero
          · exact Or.inr ⟨e, List.mem_cons_of_mem _ he, heq⟩
      · intro head hhead
        obtain ⟨hload, hmemory⟩ : head ≠ loaderHeapVa + 0x0C ∧ head ≠ loaderHeapVa + 0x14 := by
          constructor
          · exact fun heq => hhead (heq ▸ loadOrder_mem hashTableVa)
          · exact fun heq => hhead (heq ▸ memoryOrder_mem hashTableVa)
        rw [LdrRun.insert_of_ne hmemory, LdrRun.insert_of_ne hload]
        exact h.others head hhead

end LdrInv

/-- A name that is empty, or begins with an ASCII character or with a byte that 32 divides. -/
def HashesIntoTable (name : List UInt8) : Prop :=
  ∀ first ∈ name.head?, first < 0x80 ∨ first % 32 = 0

/-- It is hashed to one of the 32 buckets. -/
theorem bucketVa_mem (hashTableVa : UInt32) {name : List UInt8} (h : HashesIntoTable name) :
    bucketVa hashTableVa name ∈ listHeads hashTableVa := by
  have hbytes : ∀ n < 256, (UInt8.ofNat n < 0x80 ∨ UInt8.ofNat n % 32 = 0) →
      ∃ k < 32, (ldrpHashModuleName [UInt8.ofNat n] * 8).toUInt32 = UInt32.ofNat k * 8 := by
    decide +kernel
  have hbucket : ∃ k < 32, (ldrpHashModuleName name * 8).toUInt32 = UInt32.ofNat k * 8 := by
    cases name with
    | nil => exact ⟨0, by decide, rfl⟩
    | cons first rest =>
      have hfirst := hbytes first.toNat first.toNat_lt
      rw [UInt8.ofNat_toNat] at hfirst
      exact hfirst (h first rfl)
  obtain ⟨k, hk, heq⟩ := hbucket
  refine List.mem_append_right _ (List.mem_map.mpr ⟨k, List.mem_range.mpr hk, ?_⟩)
  unfold bucketVa
  rw [heq]

/-- A call links an entry that is on no list yet. -/
def LinkedOnce (r : LdrRun) : LdrCall → Prop
  | .create _ => True
  | .link mod => ∀ head, (r.modules mod).ldrEntryVa + 0x3C ∉ r.inserted head

/-- In every run that links names only that are hashed into the table all lists are circular. -/
theorem listsCircular_of_hashesIntoTable (L : LdrLayout) (ctx : PagingContext)
    (pebAddr hashTableVa : UInt32) (mem : PhysMem) (modules : Nat → LdrModule)
    (calls : List LdrCall) (hmaps : Maps L ctx pebAddr hashTableVa mem)
    (honce : Guarded (fun r call => some (ldrStep ctx hashTableVa r call)) LinkedOnce
      (ldrStart ctx pebAddr hashTableVa mem modules) calls)
    (hnames : ∀ mod, .link mod ∈ calls → HashesIntoTable (modules mod).name) :
    ListsCircular ctx hashTableVa
      (calls.foldl (ldrStep ctx hashTableVa) (ldrStart ctx pebAddr hashTableVa mem modules)) := by
  have hnames' : ∀ call ∈ calls, ∀ mod, call = .link mod → HashesIntoTable (modules mod).name :=
    fun call hcall mod heq => hnames mod (heq ▸ hcall)
  obtain ⟨entries, hinv⟩ := foldl_of_guarded
    (I := fun r => ∃ entries, LdrInv L ctx hashTableVa modules entries r)
    (f := ldrStep ctx hashTableVa)
    (by
      rintro r call ⟨entries, hinv⟩ ⟨honce, hname⟩
      cases call with
      | create mod => exact hinv.create hmaps mod
      | link mod =>
        exact ⟨entries, hinv.link hmaps (bucketVa_mem hashTableVa (hname mod rfl)) honce⟩)
    ⟨[], .start hmaps⟩ (honce.and_mem hnames')
  exact hinv.circular

section Example

/-- Page 0x7F000 + k is in frame k, and below the hash table there is a word that is not 0. -/
def loaderPages : PhysMem where
  ram := fun n =>
    if n < 0x1000 then 0
    else if n < 0x2000 then
      if n = 0x17F0 then 1 else if n = 0x17F1 then 0x20 else 0
    else if n < 0x2140 then
      UInt8.ofNat (((n - 0x2000) / 4 * 0x1000 + 1) >>> (8 * (n % 4)))
    else if n = 0x300FC then 1 else 0
  ramSize := 0x50000

def loaderLayout : LdrLayout where
  heap := ⟨0x7F010000, 0x10000, 0x10000⟩
  table := ⟨0x7F0301E0, 0x301E0, 256⟩
  peb := ⟨0x7F04000C, 0x4000C, 4⟩

theorem loaderPages_toNat {x : Nat} (hx : x < 0x50000) :
    (0x7F000000 + UInt32.ofNat x).toNat = 0x7F000000 + x := by
  have hoff : (UInt32.ofNat x).toNat = x := Nat.mod_eq_of_lt (by omega)
  have hbase : (0x7F000000 : UInt32).toNat = 0x7F000000 := rfl
  rw [UInt32.toNat_add, hbase, hoff, Nat.mod_eq_of_lt (by omega)]

/-- The indices of a page in the directory and in its table. -/
theorem loaderPages_indices {x : Nat} (hx : x < 0x50000) :
    vaPdeIndex (0x7F000000 + UInt32.ofNat x &&& pageMask) = 0x1FC ∧
      vaPteIndex (0x7F000000 + UInt32.ofNat x &&& pageMask) = UInt32.ofNat (x / 4096) := by
  constructor
  · apply UInt32.toNat_inj.mp
    have hidx : (0x1FC : UInt32).toNat = 0x1FC := rfl
    rw [vaPdeIndex_toNat, pageMask_toNat, loaderPages_toNat hx, hidx]
    omega
  · apply UInt32.toNat_inj.mp
    have hidx : (UInt32.ofNat (x / 4096)).toNat = x / 4096 := Nat.mod_eq_of_lt (by omega)
    rw [vaPteIndex_toNat, pageMask_toNat, loaderPages_toNat hx, hidx]
    omega

theorem loaderPages_tables :
    memReadlPhys loaderPages (0x1000 + 0x1FC * 4) = 0x2001 ∧
      ∀ k < 0x50, memReadlPhys loaderPages (0x2000 + UInt32.ofNat k * 4) =
        UInt32.ofNat (k * 4096 + 1) ∧ (0x2000 + UInt32.ofNat k * 4).toNat + 4 ≤ 0x10000 ∧
        UInt32.ofNat (k * 4096 + 1) &&& ptePresent ≠ 0 := by
  decide +kernel

/-- Where the pages lead to. -/
theorem loaderPages_getPhys {x : Nat} (hx : x < 0x50000) :
    pagingGetPhys loaderPages ⟨0x1000⟩ (0x7F000000 + UInt32.ofNat x) = UInt32.ofNat x := by
  obtain ⟨hdir, htable⟩ := loaderPages_indices hx
  obtain ⟨hpde, hptes⟩ := loaderPages_tables
  obtain ⟨hpte, -, hpresent⟩ := hptes (x / 4096) (by omega)
  unfold vaPdeIndex at hdir
  unfold vaPteIndex at htable
  unfold pagingGetPhys
  dsimp only
  rw [hdir, htable, hpde, if_neg (by decide), show (0x2001 : UInt32) &&& pageMask = 0x2000 from rfl,
    hpte, if_neg hpresent]
  apply UInt32.toNat_inj.mp
  have hframe : (UInt32.ofNat (x / 4096 * 4096 + 1)).toNat = x / 4096 * 4096 + 1 :=
    Nat.mod_eq_of_lt (by omega)
  have hoff : (UInt32.ofNat x).toNat = x := Nat.mod_eq_of_lt (by omega)
  rw [frame_or_offset_toNat, pageMask_toNat, hframe, loaderPages_toNat hx, hoff]
  omega

/-- Every area of these pages is ready. -/
theorem loaderPages_ready {a : Area} {written : Set Nat} (hlow : ∀ x ∈ written, 0x10000 ≤ x)
    {o : Nat} (hva : a.va = 0x7F000000 + UInt32.ofNat o) (hphys : a.phys = UInt32.ofNat o)
    (ho : 0x10000 ≤ o) (hpos : 0 < a.len.toNat) (hlen : o + a.len.toNat ≤ 0x50000) :
    a.Ready loaderPages ⟨0x1000⟩ written := by
  have hoff : (UInt32.ofNat o).toNat = o := Nat.mod_eq_of_lt (by omega)
  obtain ⟨hpde, hptes⟩ := loaderPages_tables
  apply Area.ready_of_tables_below hlow
  · rw [hva]
    intro hzero
    have hnat := congrArg UInt32.toNat hzero
    rw [loaderPages_toNat (by omega)] at hnat
    have hnil : (0 : UInt32).toNat = 0 := rfl
    omega
  · rw [hphys]
    intro hzero
    have hnat := congrArg UInt32.toNat hzero
    have hnil : (0 : UInt32).toNat = 0 := rfl
    omega
  · rw [hphys, hoff]
    exact hlen
  · intro i hi
    have hdir := (loaderPages_indices (x := o + i) (by omega)).1
    unfold vaPdeIndex at hdir
    rw [hva, add_ofNat_ofNat, hdir]
    decide
  · intro i hi
    obtain ⟨hdir, htable⟩ := loaderPages_indices (x := o + i) (by omega)
    unfold vaPdeIndex at hdir
    unfold vaPteIndex at htable
    rw [hva, add_ofNat_ofNat, hdir, htable, hpde]
    exact (hptes ((o + i) / 4096) (by omega)).2.1
  · intro i hi
    rw [hva, hphys, add_ofNat_ofNat, loaderPages_getPhys (by omega), ← UInt32.ofNat_add]

theorem loaderPages_maps : Maps loaderLayout ⟨0x1000⟩ 0x7F040000 0x7F0301E0 loaderPages := by
  have hlow : ∀ x ∈ loaderLayout.written, 0x10000 ≤ x := by
    rintro x ((hx | hx) | hx)
    · exact hx.1
    · exact (by decide : 0x10000 ≤ (0x301E0 : UInt32).toNat).trans hx.1
    · exact (by decide : 0x10000 ≤ (0x4000C : UInt32).toNat).trans hx.1
  refine ⟨rfl, rfl, rfl, rfl, rfl, rfl, by decide, ?heap, ?table, ?peb, ?heapTable, ?heapPeb,
    ?tablePeb⟩
  case heap => exact loaderPages_ready hlow (o := 0x10000) rfl rfl le_rfl (by decide) (by decide)
  case table =>
    exact loaderPages_ready hlow (o := 0x301E0) rfl rfl (by decide) (by decide) (by decide)
  case peb =>
    exact loaderPages_ready hlow (o := 0x4000C) rfl rfl (by decide) (by decide) (by decide)
  case heapTable =>
    refine Set.disjoint_left.mpr ?_
    rintro x ⟨-, hx⟩ ⟨hx', -⟩
    have hlow : x < 0x20000 := hx
    have hhigh : 0x301E0 ≤ x := hx'
    omega
  case heapPeb =>
    refine Set.disjoint_left.mpr ?_
    rintro x ⟨-, hx⟩ ⟨hx', -⟩
    have hlow : x < 0x20000 := hx
    have hhigh : 0x4000C ≤ x := hx'
    omega
  case tablePeb =>
    refine Set.disjoint_left.mpr ?_
    rintro x ⟨-, hx⟩ ⟨hx', -⟩
    have hlow : x < 0x302E0 := hx
    have hhigh : 0x4000C ≤ x := hx'
    omega

/-- A module with the name `ntdll`. -/
def asciiModule : LdrModule where
  name := [0x6E, 0x74, 0x64, 0x6C, 0x6C]
  nameFits := by decide
  baseVa := 0x7F030000
  size := 0x1000
  entryPoint := 0
  ldrEntryVa := 0

/-- A module whose name begins with an umlaut in UTF-8. -/
def umlautModule : LdrModule where
  name := [0xC3, 0x84, 0x2E, 0x64, 0x6C, 0x6C]
  nameFits := by decide
  baseVa := 0x10000000
  size := 0x1000
  entryPoint := 0
  ldrEntryVa := 0

/-- The module has an entry, and the entry is linked. -/
theorem createLink_linkedOnce {m : LdrModule} (hm : m ∈ [asciiModule, umlautModule]) :
    Guarded (fun r call => some (ldrStep ⟨0x1000⟩ 0x7F0301E0 r call)) LinkedOnce
      (ldrStart ⟨0x1000⟩ 0x7F040000 0x7F0301E0 loaderPages fun _ => m) [.create 0, .link 0] := by
  refine ⟨trivial, ?_⟩
  rintro r ⟨⟩
  refine ⟨?_, fun _ _ => trivial⟩
  have hstart : LdrInv loaderLayout ⟨0x1000⟩ 0x7F0301E0 (fun _ => m) [] _ :=
    .start loaderPages_maps
  obtain ⟨entries, hinv⟩ := hstart.create loaderPages_maps 0
  -- the heads are gone through as a list: there are too many words to try
  have hheads : ∀ m, m = asciiModule ∨ m = umlautModule →
      ((listHeads 0x7F0301E0).all fun head => decide
        (((ldrStep ⟨0x1000⟩ 0x7F0301E0 (ldrStart ⟨0x1000⟩ 0x7F040000 0x7F0301E0 loaderPages
          fun _ => m) (.create 0)).modules 0).ldrEntryVa + 0x3C ∉
        (ldrStep ⟨0x1000⟩ 0x7F0301E0 (ldrStart ⟨0x1000⟩ 0x7F040000 0x7F0301E0 loaderPages
          fun _ => m) (.create 0)).inserted head)) = true := by
    rintro m (rfl | rfl)
    · decide +kernel
    · decide +kernel
  have hname : m = asciiModule ∨ m = umlautModule := by
    rcases List.mem_cons.mp hm with hm | hm
    · exact Or.inl hm
    · exact Or.inr (List.mem_singleton.mp hm)
  intro head
  by_cases hhead : head ∈ listHeads 0x7F0301E0
  · exact of_decide_eq_true (List.all_eq_true.mp (hheads m hname) head hhead)
  · rw [hinv.others head hhead]
    exact List.not_mem_nil

/-- A run with `ntdll`. -/
theorem listsCircular_ntdll : ListsCircular ⟨0x1000⟩ 0x7F0301E0
    ([.create 0, .link 0].foldl (ldrStep ⟨0x1000⟩ 0x7F0301E0)
      (ldrStart ⟨0x1000⟩ 0x7F040000 0x7F0301E0 loaderPages fun _ => asciiModule)) :=
  listsCircular_of_hashesIntoTable loaderLayout ⟨0x1000⟩ 0x7F040000 0x7F0301E0 loaderPages
    (fun _ => asciiModule) [.create 0, .link 0] loaderPages_maps
    (createLink_linkedOnce List.mem_cons_self) fun _ _ first hfirst => by
      obtain rfl : 0x6E = first := Option.some.inj hfirst
      exact Or.inl (by decide)

/-- The umlaut's bucket is below the table. The word there is taken for an entry, and the new entry
is not behind the head. -/
theorem umlautModule_run :
    ([.create 0, .link 0].foldl (ldrStep ⟨0x1000⟩ 0x7F0301E0)
      (ldrStart ⟨0x1000⟩ 0x7F040000 0x7F0301E0 loaderPages fun _ => umlautModule)).inserted
        0x7F0300F8 = [0x7F010064] ∧
    guestWord ([.create 0, .link 0].foldl (ldrStep ⟨0x1000⟩ 0x7F0301E0)
      (ldrStart ⟨0x1000⟩ 0x7F040000 0x7F0301E0 loaderPages fun _ => umlautModule)).vm.mem
        ⟨0x1000⟩ 0x7F0300F8 = 0 := by
  decide +kernel

/-- An umlaut is hashed to a place below the table. -/
theorem listsCircular_fails :
    ¬ ∀ (L : LdrLayout) ctx pebAddr hashTableVa mem modules calls,
      Maps L ctx pebAddr hashTableVa mem →
      Guarded (fun r call => some (ldrStep ctx hashTableVa r call)) LinkedOnce
        (ldrStart ctx pebAddr hashTableVa mem modules) calls →
      ListsCircular ctx hashTableVa
        (calls.foldl (ldrStep ctx hashTableVa) (ldrStart ctx pebAddr hashTableVa mem modules)) := by
  intro h
  have hcircular := h loaderLayout ⟨0x1000⟩ 0x7F040000 0x7F0301E0 loaderPages
    (fun _ => umlautModule) [.create 0, .link 0] loaderPages_maps
    (createLink_linkedOnce (List.mem_cons_of_mem _ List.mem_cons_self))
  obtain ⟨hinserted, hnext⟩ := umlautModule_run
  generalize [LdrCall.create 0, .link 0].foldl _ _ = r at hcircular hinserted hnext
  have hlist := hcircular 0x7F0300F8 (Or.inr (by rw [hinserted]; exact List.cons_ne_nil _ _))
  have hfirst := hlist.visits 0 0x7F010064 (by rw [hinserted]; rfl)
  exact absurd (hnext.symm.trans hfirst) (by decide)

end Example

end Wbox.Loader
