import Hafnium.Mm.Pages

/-! # Paying for tables

An update takes a page for every table it has to add. This is the account of those pages for a list
of ranges: `tablesFor` counts the places where some range of the list needs a table, `missing` those
of them that hold none yet. As long as the own pages of a local pool cover what is missing, updates
of the ranges succeed in any mode and in any order, and so they do after defragmentation: whatever
removes a table puts its page into the pool.
-/

namespace Hafnium.Mm

open Custody Function

/-! ## Local pools -/

/-- A local pool in front of the given pools. -/
def InFront (shared pool : Mpool) : Prop := ∃ own : MpoolLevel, pool = own :: shared

/-- The free pages that a pool has without its fallbacks. -/
def Mpool.ownCount : Mpool → Nat
  | [] => 0
  | own :: _ => own.freeCount

variable {shared pool : Mpool} {ranges : List (Nat × Nat)} {level base begin_ end_ : Nat}
  {unmap : Bool} {attrs : PteBits} {flags : MmFlags} {e : Pte level} {c : StageConfig}

section Pool

/-- A local pool that has pages of its own does not touch its fallbacks. -/
theorem InFront.alloc (front : InFront shared pool) (some_ : 0 < pool.ownCount) :
    ∃ page pool', mpoolAlloc pool = some (page, pool') ∧ InFront shared pool' ∧
    pool.ownCount ≤ pool'.ownCount + 1 := by
  obtain ⟨own, rfl⟩ := front
  cases taken : mpoolAllocNoFallback own with
  | none =>
    have := mpoolAllocNoFallback_none taken
    simp only [Mpool.ownCount] at some_
    omega
  | some result =>
    obtain ⟨page, own'⟩ := result
    exact ⟨page, own' :: shared, by simp only [mpoolAlloc, taken], ⟨own', rfl⟩,
      mpoolAllocNoFallback_some taken⟩

/-- The free pages that a pool has without its fallbacks. -/
def Mpool.ownPages : Mpool → Multiset PageNumber
  | [] => 0
  | own :: _ => own.pages

theorem card_ownPages (pool : Mpool) : pool.ownPages.card = pool.ownCount := by
  cases pool with
  | nil => rfl
  | cons own shared => exact own.card_pages

/-- Pages that are freed go to the pool itself. -/
theorem mpoolFree_own (pool : Mpool) (page : PageNumber) :
    Balanced InFront Mpool.ownPages pool (mpoolFree pool page) {page} 0 := by
  rintro shared ⟨own, rfl⟩
  refine ⟨⟨_, rfl⟩, ?_⟩
  simp only [mpoolFree, Mpool.ownPages, MpoolLevel.pages, ← Multiset.cons_coe, ← Multiset.singleton_add]
  abel

theorem Balanced.own {pool' : Mpool} {x y : Multiset PageNumber}
    (moves : Balanced InFront Mpool.ownPages pool pool' x y) (front : InFront shared pool) :
    InFront shared pool' ∧ pool.ownCount + x.card = pool'.ownCount + y.card := by
  obtain ⟨front', pages⟩ := moves shared front
  have cards := congrArg Multiset.card pages
  rw [Multiset.card_add, Multiset.card_add, card_ownPages, card_ownPages] at cards
  exact ⟨front', cards⟩

theorem mpoolAddChunk_own (pool : Mpool) (chunk : PageNumber × Nat) :
    Balanced InFront Mpool.ownPages pool (mpoolAddChunk pool chunk.1 chunk.2) (chunkPages chunk) 0 := by
  rintro shared ⟨own, rfl⟩
  rw [mpoolAddChunk]
  split
  · next empty => exact ⟨⟨own, rfl⟩, by rw [chunkPages, empty]; rfl⟩
  · refine ⟨⟨_, rfl⟩, ?_⟩
    simp only [Mpool.ownPages, MpoolLevel.pages, List.map_cons, List.sum_cons]
    abel

/-- A local pool that is given back adds its pages to those of the next pool. -/
theorem mpoolFini_own (own next : MpoolLevel) (rest : Mpool) :
    InFront rest (mpoolFini (own :: next :: rest)) ∧
      (mpoolFini (own :: next :: rest)).ownCount = own.freeCount + next.freeCount := by
  obtain ⟨front, count⟩ := Balanced.own
    (mpoolFini_balanced own next rest mpoolFree_own fun chunk _ pool => mpoolAddChunk_own pool chunk)
    ⟨next, rfl⟩
  rw [show own.pages.card = own.freeCount from card_ownPages [own], Multiset.card_zero,
    Mpool.ownCount] at count
  exact ⟨front, by omega⟩

end Pool

/-! ## Tables that are missing -/

/-- Some range meets the entry at `base` and cannot be mapped by replacing the entry as a whole. -/
def NeedsTable (ranges : List (Nat × Nat)) (level base : Nat) : Prop :=
  ∃ r ∈ ranges, ¬OutsideEntry level base r.1 r.2 ∧ ¬CoveredEntry false level base r.1 r.2

instance (ranges : List (Nat × Nat)) (level base : Nat) : Decidable (NeedsTable ranges level base) :=
  inferInstanceAs (Decidable (∃ r ∈ ranges, _))

/-- The number of tables that the ranges need at and below the entry at `base`. -/
def tablesFor (ranges : List (Nat × Nat)) : (level base : Nat) → Nat
  | 0, _ => 0
  | level + 1, base =>
    if NeedsTable ranges (level + 1) base then
      1 + ∑ j ∈ Finset.range mmPtePerPage, tablesFor ranges level (base + j * mmEntrySize level)
    else 0

/-- The number of those that are not there yet. -/
def Pte.missing (ranges : List (Nat × Nat)) : {level : Nat} → Pte level → (base : Nat) → Nat
  | level, .leaf _, base => tablesFor ranges level base
  | level + 1, .table _ entries, base =>
    ∑ j ∈ Finset.range mmPtePerPage, (entries j).missing ranges (base + j * mmEntrySize level)

def PageTable.missing (ranges : List (Nat × Nat)) {level : Nat} (t : PageTable level) (base : Nat) : Nat :=
  ∑ j ∈ Finset.range mmPtePerPage, (t j).missing ranges (base + j * mmEntrySize level)

def MmPtable.missing (ranges : List (Nat × Nat)) {c : StageConfig} (t : MmPtable c) : Nat :=
  ∑ i ∈ Finset.range c.rootTableCount, (t.tables i).missing ranges (i * mmEntrySize (c.maxLevel + 1))

section Missing

theorem Pte.missing_leaf (bits : PteBits) (base : Nat) :
    (Pte.leaf bits : Pte level).missing ranges base = tablesFor ranges level base := by
  cases level <;> rfl

theorem Pte.missing_table (page : PageNumber) (entries : PageTable level) (base : Nat) :
    (Pte.table page entries).missing ranges base = entries.missing ranges base := rfl

theorem mmPopulateEntries_missing (bits : PteBits) :
    (mmPopulateEntries bits : PageTable level).missing ranges base =
      ∑ j ∈ Finset.range mmPtePerPage, tablesFor ranges level (base + j * mmEntrySize level) := rfl

/-- A place that needs a table has one or misses it. -/
theorem Pte.tablesFor_le (ranges : List (Nat × Nat)) (e : Pte level) (base : Nat) :
    tablesFor ranges level base ≤ e.missing ranges base + e.pages.card := by
  induction e generalizing base with
  | leaf bits => rw [Pte.missing_leaf]; exact Nat.le_add_right ..
  | @table level page entries ih =>
    have below := Finset.sum_le_sum fun j (_ : j ∈ Finset.range mmPtePerPage) =>
      ih j (base + j * mmEntrySize level)
    rw [Finset.sum_add_distrib] at below
    rw [tablesFor, Pte.missing, Pte.pages, Multiset.card_add, Multiset.card_singleton, Multiset.card_sum]
    split <;> omega

/-- Freeing the tables below an entry pays for having them again. -/
theorem mmFreePagePte_funded (ranges : List (Nat × Nat)) (e : Pte level) (base : Nat)
    (front : InFront shared pool) :
    InFront shared (mmFreePagePte e pool) ∧
      tablesFor ranges level base + pool.ownCount ≤ e.missing ranges base +
        (mmFreePagePte e pool).ownCount := by
  obtain ⟨front', cards⟩ := Balanced.own (mmFreePagePte_balanced mpoolFree_own e pool) front
  have paid := e.tablesFor_le ranges base
  rw [Multiset.card_zero] at cards
  exact ⟨front', by omega⟩

/-- The range from `begin_` to `end_` is what a range of the list covers of the entry at `base`. -/
def PartOf (ranges : List (Nat × Nat)) (level base begin_ end_ : Nat) : Prop :=
  ∃ r ∈ ranges, max r.1 base = max begin_ base ∧
    min r.2 (base + mmEntrySize level) = min end_ (base + mmEntrySize level)

theorem PartOf.sub {j b : Nat} (part : PartOf ranges (level + 1) base begin_ end_) (jBound : j < mmPtePerPage)
    (from_ : b = max begin_ (base + j * mmEntrySize level)) :
    PartOf ranges level (base + j * mmEntrySize level) b (min end_ (base + mmEntrySize (level + 1))) := by
  obtain ⟨r, member, first, last⟩ := part
  have fits := entry_end_le level base jBound
  exact ⟨r, member, by omega, by omega⟩

/-- An entry that is updated in part needs a table. -/
theorem PartOf.needsTable (part : PartOf ranges level base begin_ end_)
    (range : EntryRange level base begin_ end_) (partly : ¬WholeEntry unmap level base begin_ end_) :
    NeedsTable ranges level base := by
  obtain ⟨r, member, first, last⟩ := part
  have lower := range.lower
  have upper := range.upper
  have nonempty := range.nonempty
  refine ⟨r, member, ?_, ?_⟩
  · simp only [OutsideEntry]
    omega
  · rintro ⟨before, after, allowed⟩
    refine partly ⟨by omega, by omega, .inr (allowed.resolve_left Bool.false_ne_true)⟩

end Missing

/-! ## Updates that are paid for -/

section Map

theorem mmMapLevel_funded (range : EntryRange (level + 1) base begin_ end_)
    (part : PartOf ranges (level + 1) base begin_ end_)
    (entries : ∀ {base begin_ end_}, EntryRange level base begin_ end_ →
      PartOf ranges level base begin_ end_ →
      ∀ (e : Pte level) (pool : Mpool), InFront shared pool → e.missing ranges base ≤ pool.ownCount →
        let r := mmMapPte attrs flags level begin_ end_ begin_ e pool
        r.ok = true ∧ InFront shared r.state ∧
          r.value.missing ranges base + pool.ownCount ≤ e.missing ranges base + r.state.ownCount)
    (t : PageTable level) (front : InFront shared pool)
    (funded : t.missing ranges base ≤ pool.ownCount) :
    let r := mmMapLevel attrs flags level begin_ end_ begin_ t pool
    r.ok = true ∧ InFront shared r.state ∧
      r.value.missing ranges base + pool.ownCount ≤ t.missing ranges base + r.state.ownCount := by
  refine (mmMapLevel_walk attrs flags range (Q := fun _ ok t' pool' => ok = true ∧ InFront shared pool' ∧
    t'.missing ranges base + pool.ownCount ≤ t.missing ranges base + pool'.ownCount) t pool ?_
    ⟨rfl, front, Nat.le_refl _⟩).elim fun _ result => result
  rintro j b t' pool' jBound subRange from_ same ⟨-, front', so_far⟩
  obtain ⟨others, before, after⟩ := sum_update
    (fun j (e : Pte level) => e.missing ranges (base + j * mmEntrySize level)) t'
    (Finset.mem_range.mpr jBound)
  rw [same] at before
  simp only [PageTable.missing, before, after] at so_far funded ⊢
  obtain ⟨ok, front'', paid⟩ := entries subRange (part.sub jBound from_) (t j) pool' front' (by omega)
  exact ⟨ok, front'', by omega⟩

/-- An entry that is replaced as a whole gives its tables to the pool. -/
theorem whole_funded {r : Updated (Pte level)} {commit : Bool} {bits : PteBits}
    (base : Nat) (front : InFront shared pool) (value : r.value = if commit then .leaf bits else e)
    (state : r.state = if commit then mmFreePagePte e pool else pool) :
    InFront shared r.state ∧ r.value.missing ranges base + pool.ownCount ≤ e.missing ranges base +
      r.state.ownCount := by
  rw [value, state]
  cases commit
  · exact ⟨front, Nat.le_refl _⟩
  · exact mmFreePagePte_funded ranges e base front

/-- Populating the table below an entry that needs one. -/
theorem mmPopulateTablePte_funded {e : Pte (level + 1)} (front : InFront shared pool)
    (needs : NeedsTable ranges (level + 1) base) (funded : e.missing ranges base ≤ pool.ownCount) :
    ∃ page nt pool', mmPopulateTablePte e pool = some (page, nt, pool') ∧ InFront shared pool' ∧
      nt.missing ranges base + pool.ownCount ≤ e.missing ranges base + pool'.ownCount := by
  cases e with
  | table page entries =>
    exact ⟨page, entries, pool, rfl, front, Nat.le_refl _⟩
  | leaf bits =>
    rw [Pte.missing, tablesFor, if_pos needs] at funded ⊢
    obtain ⟨page, pool', taken, front', count⟩ := front.alloc (by omega)
    refine ⟨page, mmPopulateEntries bits, pool', by simp [mmPopulateTablePte, taken], front', ?_⟩
    rw [mmPopulateEntries_missing]
    omega

/-- The update of an entry whose missing tables are paid for. -/
theorem mmMapPte_funded (range : EntryRange level base begin_ end_)
    (part : PartOf ranges level base begin_ end_) (e : Pte level) (pool : Mpool) (front : InFront shared pool)
    (funded : e.missing ranges base ≤ pool.ownCount) :
    let r := mmMapPte attrs flags level begin_ end_ begin_ e pool
    r.ok = true ∧ InFront shared r.state ∧
      r.value.missing ranges base + pool.ownCount ≤ e.missing ranges base + r.state.ownCount := by
  induction level generalizing base begin_ end_ pool with
  | zero =>
    rcases mmMapPte_cases attrs flags range e pool with ⟨-, result⟩ | ⟨-, -, ok, value, state⟩ | ⟨-,
        partly, -⟩
    · rw [result]
      exact ⟨rfl, front, Nat.le_refl _⟩
    · exact ⟨ok, whole_funded base front value state⟩
    · exact absurd (range.wholePage flags.unmap) partly
  | succ level ih =>
    rcases mmMapPte_cases attrs flags range e pool with ⟨-, result⟩ | ⟨-, -, ok, value, state⟩ | ⟨-,
        partly, result⟩
    · rw [result]
      exact ⟨rfl, front, Nat.le_refl _⟩
    · exact ⟨ok, whole_funded base front value state⟩
    · have needs := part.needsTable range partly
      obtain ⟨page, nt, pool', populate, front', populated⟩ := mmPopulateTablePte_funded front needs funded
      obtain ⟨ok, front'', paid⟩ := mmMapLevel_funded range part
        (fun range part e pool => ih range part e pool) nt front' (by omega)
      rw [result]
      simp only [mmDescend, mmMapBelow, populate, Pte.missing_table]
      exact ⟨ok, front'', by omega⟩

theorem mmMapRoot_funded (attrs : PteBits) (flags : MmFlags) (range : RootRange c begin_ end_)
    (member : (begin_, end_) ∈ ranges) (t : MmPtable c) (front : InFront shared pool)
    (funded : t.missing ranges ≤ pool.ownCount) :
    let r := mmMapRoot t begin_ end_ attrs flags pool
    r.ok = true ∧ InFront shared r.state ∧ r.value.missing ranges + pool.ownCount ≤
      t.missing ranges + r.state.ownCount := by
  refine (mmMapRoot_walk flags range (Q := fun _ ok tables pool' => ok = true ∧ InFront shared pool' ∧
    MmPtable.missing ranges { t with tables } + pool.ownCount ≤ t.missing ranges + pool'.ownCount) t pool ?_
    ⟨rfl, front, Nat.le_refl _⟩).elim fun _ result => result
  rintro i b tables pool' bound tableRange from_ same ⟨-, front', so_far⟩
  obtain ⟨others, before, after⟩ := sum_update
    (fun i (table : PageTable c.maxLevel) => table.missing ranges
      (i * mmEntrySize (c.maxLevel + 1))) tables (Finset.mem_range.mpr bound)
  rw [same] at before
  simp only [MmPtable.missing, before, after] at so_far funded ⊢
  have part : PartOf ranges (c.maxLevel + 1) (i * mmEntrySize (c.maxLevel + 1)) b end_ :=
    ⟨(begin_, end_), member, by simp only; omega, rfl⟩
  obtain ⟨ok, front'', paid⟩ := mmMapLevel_funded tableRange part
    (fun range part e pool => mmMapPte_funded range part e pool) (t.tables i) front' (by omega)
  exact ⟨ok, front'', by omega⟩

end Map

/-! ## Defragmentation pays for what it takes away -/

section Defrag

variable (ranges : List (Nat × Nat)) (features : ArchFeatures)

theorem PageTable.missing_le (t t' : PageTable level) (base : Nat)
    (each : ∀ j < mmPtePerPage, (t' j).missing ranges (base + j * mmEntrySize level) + (t' j).pages.card ≤
      (t j).missing ranges (base + j * mmEntrySize level) + (t j).pages.card) :
    t'.missing ranges base + t'.pages.card ≤ t.missing ranges base + t.pages.card := by
  have sums := Finset.sum_le_sum fun j member => each j (Finset.mem_range.mp member)
  rw [Finset.sum_add_distrib, Finset.sum_add_distrib, ← Multiset.card_sum, ← Multiset.card_sum] at sums
  rw [PageTable.missing, PageTable.missing, PageTable.pages, PageTable.pages]
  exact sums

/-- What a defragmented entry misses more than before, it has given up. -/
theorem Pte.defragged_missing (e : Pte level) (base : Nat) :
    (e.defragged features).missing ranges base + (e.defragged features).pages.card ≤
      e.missing ranges base + e.pages.card := by
  induction e generalizing base with
  | leaf bits => exact Nat.le_refl _
  | @table level page entries ih =>
    have below : PageTable.missing ranges (PageTable.defragged features entries)
        base + (PageTable.defragged features entries).pages.card ≤
        PageTable.missing ranges entries base + (PageTable.pages entries).card :=
      PageTable.missing_le ranges _ _ _ fun j jBound => by
        rw [PageTable.defragged, PageTable.mapEntries_of_lt _ _ jBound]
        exact ih j _
    have kept : Pte.missing ranges (.table page (PageTable.defragged features entries)) base +
        (Pte.table page (PageTable.defragged features entries)).pages.card ≤
          Pte.missing ranges (.table page entries) base + (Pte.table page entries).pages.card := by
      simp only [Pte.missing_table, Pte.pages_table, Multiset.card_add]
      omega
    rw [Pte.defragged]
    split
    · next merged =>
      -- Only a leaf differs from the table it replaces.
      obtain ⟨bits, leaf⟩ := mmMergeTablePte_leaf features merged.2
      rw [leaf, Pte.missing_leaf]
      exact (Pte.tablesFor_le ranges _ base).trans kept
    · exact kept

theorem mmPtableDefrag_funded (t : MmPtable c) (front : InFront shared pool) :
    InFront shared (mmPtableDefrag features t pool).2 ∧
      (mmPtableDefrag features t pool).1.missing ranges + pool.ownCount ≤
        t.missing ranges + (mmPtableDefrag features t pool).2.ownCount := by
  obtain ⟨front', cards⟩ := Balanced.own (mmPtableDefrag_balanced mpoolFree_own features t pool) front
  have tables := Finset.sum_le_sum fun i (member : i ∈ Finset.range c.rootTableCount) =>
    PageTable.missing_le ranges (t.tables i) ((t.defragged features).tables i)
      (i * mmEntrySize (c.maxLevel + 1)) fun j jBound => by
        rw [show (t.defragged features).tables i = (t.tables i).defragged features from if_pos
          (Finset.mem_range.mp member), PageTable.defragged, PageTable.mapEntries_of_lt _ _ jBound]
        exact (t.tables i j).defragged_missing ranges features _
  rw [Finset.sum_add_distrib, Finset.sum_add_distrib, ← Multiset.card_sum, ← Multiset.card_sum] at tables
  rw [mmPtableDefrag_fst] at cards ⊢
  rw [MmPtable.pages, MmPtable.pages] at cards
  rw [MmPtable.missing, MmPtable.missing]
  exact ⟨front', by omega⟩

end Defrag

/-! ## Prepared ranges miss nothing -/

/-- Every leaf that a range meets can be replaced as a whole by a mapping. -/
def Pte.Tabled (begin_ end_ : Nat) : {level : Nat} → Pte level → (base : Nat) → Prop
  | level, .leaf _, base => OutsideEntry level base begin_ end_ ∨ CoveredEntry false level base begin_ end_
  | level + 1, .table _ entries, base =>
    ∀ j < mmPtePerPage, (entries j).Tabled begin_ end_ (base + j * mmEntrySize level)

theorem Pte.missing_eq_zero (tabled : ∀ r ∈ ranges, e.Tabled r.1 r.2 base) : e.missing ranges base = 0 := by
  induction e generalizing base with
  | @leaf level bits =>
    cases level with
    | zero => rfl
    | succ level =>
      refine if_neg ?_
      rintro ⟨r, member, meets, partly⟩
      rcases tabled r member with outside | covered
      · exact meets outside
      · exact partly covered
  | table page entries ih =>
    exact Finset.sum_eq_zero fun j member => ih j fun r inRanges =>
      tabled r inRanges j (Finset.mem_range.mp member)

/-- A range that is prepared and has nothing done yet. -/
theorem Pte.Prepared.tabled (attrsOk : AttrsFor attrs unmap)
    (nonempty : begin_ < end_) (wf : e.WellFormed base) (aligned : base % mmEntrySize level = 0)
    (bound : base + mmEntrySize level ≤ 2 ^ 48) (prepared : e.Prepared attrs unmap begin_ end_ base)
    (other : ∀ addr, base ≤ addr → addr < base + mmEntrySize level → begin_ ≤ addr → addr < end_ →
      e.attrsAt addr ≠ targetAttrs attrs unmap) : e.Tabled begin_ end_ base := by
  induction e generalizing base with
  | @leaf level bits =>
    by_cases outside : OutsideEntry level base begin_ end_
    · exact .inl outside
    · -- A leaf in the range does not have the wanted attributes yet.
      have differs : archMmPteAttrs bits ≠ targetAttrs attrs unmap := by
        have positive := mmEntrySize_pos level
        simp only [OutsideEntry] at outside
        exact other (max base begin_) (by omega) (by omega) (by omega) (by omega)
      rcases prepared with isOutside | ⟨first, last, allowed⟩ | isDone
      · exact .inl isOutside
      · refine .inr ⟨first, last, .inr ?_⟩
        rcases allowed with unmapping | low
        · rcases LeafFor.attrs wf aligned bound with ⟨-, zero⟩ | ⟨low, -, -⟩
          · rw [zero, targetAttrs, if_pos unmapping] at differs
            exact absurd rfl differs
          · exact low
        · exact low
      · exact absurd ((mmEntryDone_iff attrsOk wf aligned bound).mp isDone) differs
  | @table level page entries ih =>
    intro j jBound
    have fits := entry_end_le level base jBound
    have index {addr : Nat} (lower : base + j * mmEntrySize level ≤ addr)
        (upper : addr < base + j * mmEntrySize level + mmEntrySize level) : mmIndex addr level = j :=
      mmIndex_eq aligned jBound lower upper
    refine ih j (wf j jBound) (entry_aligned aligned j) (by omega)
      (Pte.Prepared.entry prepared jBound) fun addr lower upper from_ until_ => ?_
    have attrs := other addr (by omega) (by omega) from_ until_
    rw [Pte.attrsAt, index lower upper] at attrs
    exact attrs

theorem MmPtable.missing_eq_zero (attrsOk : AttrsFor attrs unmap) {t : MmPtable c} (wf : t.WellFormed)
    (prepared : ∀ r ∈ ranges, r.1 < r.2 ∧ t.Prepared attrs unmap r.1 r.2)
    (other : ∀ r ∈ ranges, ∀ addr < mmPtableAddrSpaceEnd c, r.1 ≤ addr → addr < r.2 →
      t.attrsAt addr ≠ targetAttrs attrs unmap) :
    t.missing ranges = 0 := by
  refine Finset.sum_eq_zero fun i iMember => Finset.sum_eq_zero fun j jMember => ?_
  have iBound := Finset.mem_range.mp iMember
  have jBound := Finset.mem_range.mp jMember
  have fits := root_entry_end_le iBound jBound
  refine Pte.missing_eq_zero fun r member => ?_
  obtain ⟨nonempty, ready⟩ := prepared r member
  refine (ready nonempty i iBound j jBound).tabled attrsOk nonempty (wf i iBound j jBound)
    (entry_aligned (Nat.mul_mod_left ..) j)
    (fits.trans c.space_le) fun addr lower upper from_ until_ => ?_
  rw [← MmPtable.attrsAt_entry t iBound jBound lower upper]
  exact other r member addr (upper.trans_le fits) from_ until_

/-! ## The interface -/

/-- A commit that is paid for passes its `CHECK` and leaves the fallbacks alone. -/
theorem mmPtableIdentityCommit_funded {paBegin paEnd : Nat}
    (member : (mmMapBegin paBegin, mmMapEnd c paEnd) ∈ ranges) (attrs : PteBits) (unmap : Bool)
    (t : MmPtable c) (front : InFront shared pool) (funded : t.missing ranges ≤ pool.ownCount) :
    ∃ t' pool', mmPtableIdentityCommit t paBegin paEnd attrs unmap pool = some (t', pool') ∧
      InFront shared pool' ∧ t'.missing ranges ≤ pool'.ownCount := by
  obtain ⟨ok, front', paid⟩ := mmMapRoot_funded attrs ⟨true, unmap⟩ (rootRange_map c paBegin paEnd)
    member t front funded
  rw [← mmPtableIdentityMap] at ok front' paid
  exact ⟨_, _, if_pos ok, front', by omega⟩

section Ranges

variable {m : MmConfig} {stage : Stage}

/-- Prepares the ranges of a list in order, up to the first failure. -/
def identityPrepareAll (mode : Mode) :
    List (Nat × Nat) → MmPtable (m.levels stage) → Mpool → Updated (MmPtable (m.levels stage))
  | [], t, pool => ⟨true, t, pool⟩
  | (begin_, end_) :: rest, t, pool =>
    let r := stageIdentityPrepare t begin_ end_ mode pool
    if r.ok then identityPrepareAll mode rest r.value r.state else r

/-- Commits the ranges of a list in order; `none` is a failed `CHECK`. -/
def identityCommitAll (mode : Mode) :
    List (Nat × Nat) → MmPtable (m.levels stage) → Mpool → Option (MmPtable (m.levels stage) × Mpool)
  | [], t, pool => some (t, pool)
  | (begin_, end_) :: rest, t, pool =>
    (stageIdentityCommit t begin_ end_ mode pool).bind fun (t, pool) => identityCommitAll mode rest t pool

/-- The tables are fine enough for a commit of this range. -/
def MmPtable.ReadyFor (t : MmPtable (m.levels stage)) (mode : Mode) (range : Nat × Nat) : Prop :=
  t.Prepared (m.modeToAttrs stage mode) (mmModeToFlags mode) (mmMapBegin range.1)
    (mmMapEnd (m.levels stage) range.2)

variable {mode : Mode} {t : MmPtable (m.levels stage)}

/-- Preparing a list of ranges leaves them all prepared, and those that were so before. -/
theorem identityPrepareAll_ready (wf : t.WellFormed)
    (pool : Mpool) (success : (identityPrepareAll mode ranges t pool).ok = true) :
    (identityPrepareAll mode ranges t pool).value.WellFormed ∧
      ∀ range, range ∈ ranges ∨ t.ReadyFor mode range →
        (identityPrepareAll mode ranges t pool).value.ReadyFor mode range := by
  induction ranges generalizing t pool with
  | nil => exact ⟨wf, fun range ready => ready.resolve_left (List.not_mem_nil)⟩
  | cons first rest ih =>
    obtain ⟨begin_, end_⟩ := first
    simp only [identityPrepareAll] at success ⊢
    split at success
    · next ok =>
      rw [if_pos ok]
      obtain ⟨restWf, ready⟩ := ih (stageIdentityPrepare_wellFormed wf begin_ end_ mode pool) _ success
      refine ⟨restWf, fun range known => ready range ?_⟩
      rcases known with member | before
      · rcases List.mem_cons.mp member with rfl | later
        · exact .inr (mmPtableIdentityPrepare_prepares ok)
        · exact .inl later
      · exact .inr (mmPtableIdentityPrepare_keeps_prepared (attrsFor_modeToAttrs m stage mode) wf before)
    · next failed => exact absurd success failed

/-- Prepared ranges are committed with frees only. -/
theorem identityCommitAll_freed (wf : t.WellFormed)
    (ready : ∀ range ∈ ranges, t.ReadyFor mode range) (pool : Mpool) :
    ∃ t' pool', identityCommitAll mode ranges t pool = some (t', pool') ∧ pool.Freed pool' := by
  induction ranges generalizing t pool with
  | nil => exact ⟨t, pool, rfl, .refl pool⟩
  | cons first rest ih =>
    obtain ⟨begin_, end_⟩ := first
    rw [List.forall_mem_cons] at ready
    obtain ⟨ok, freed⟩ := mmMapRoot_freed ⟨true, mmModeToFlags mode⟩
      (rootRange_map (m.levels stage) begin_ end_) t pool ready.1
    have committed : stageIdentityCommit t begin_ end_ mode pool = some (_, _) := if_pos ok
    obtain ⟨t', pool', ran, more⟩ := ih (stageIdentityCommit_wellFormed wf begin_ end_ mode pool committed)
      (fun range member => mmPtableIdentityCommit_keeps_prepared (attrsFor_modeToAttrs m stage mode)
        wf committed (ready.2 range member)) _
    exact ⟨t', pool', by rw [identityCommitAll, committed]; exact ran, freed.trans more⟩

/-- Once all ranges of a list were prepared, all of them are committed with any pool, also an empty
one, and no page is taken from it: it is only given the pages of tables that are replaced. The
ranges may overlap in any way. -/
theorem prepareAll_commitAll {t : MmPtable (m.levels stage)} (wf : t.WellFormed) (mode : Mode)
    (ranges : List (Nat × Nat)) (pool : Mpool)
    (success : (identityPrepareAll mode ranges t pool).ok = true) (other : Mpool) :
    ∃ t', ∃ pages : List PageNumber, identityCommitAll mode ranges
      (identityPrepareAll mode ranges t pool).value other =
      some (t', pages.foldl mpoolFree other) := by
  obtain ⟨wf', ready⟩ := identityPrepareAll_ready wf pool success
  obtain ⟨t', pool', returned, pages, rfl⟩ :=
    identityCommitAll_freed wf' (fun range member => ready range (.inl member)) other
  exact ⟨t', pages, returned⟩

/-- A page inside a block that is mapped as a whole before and after it. -/
theorem prepareAll_commitAll_nested :
    let m := smallConfig
    let t : VmPtable m := ⟨0, fun _ _ => .leaf archMmAbsentPte⟩
    let ranges := [(0x1000, 0x2000), (0, 0x200000), (0x1000, 0x2000)]
    ∃ t', ∃ pages : List PageNumber,
      identityCommitAll mmModeR ranges (identityPrepareAll mmModeR ranges t [⟨[5], []⟩]).value [{}] =
        some (t', pages.foldl mpoolFree [{}]) := by
  intro m t ranges
  have wf : t.WellFormed := fun i _ j _ => LeafFor.absent
  exact prepareAll_commitAll wf mmModeR ranges [⟨[5], []⟩] (by decide +kernel) [{}]

end Ranges

end Hafnium.Mm
