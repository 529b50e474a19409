import Hafnium.Mm.OnePage
import Hafnium.Mm.Pages

/-! # Tables that share a pool

Any number of page tables are made, updated and given back while they take their pages from one pool.
Every call is balanced, so each page is free or held at one place, in one table.
-/

namespace Hafnium.Mm

open BlockWalk Custody

/-! ## Whole tables -/

variable {c : StageConfig} {m : MmConfig} {stage : Stage} {first p : PageNumber} {level : Nat}
  {t : MmPtable c} {e : Pte level}

section Whole

/-- The pages of all tables, the root tables included. -/
def MmPtable.allPages (t : MmPtable c) : Multiset PageNumber :=
  chunkPages (t.root, c.rootTableCount) + t.pages

/-- Frees the tables below the root tables, and then the root tables. -/
def mmPtableFini (t : MmPtable c) (pool : Mpool) : Mpool :=
  let pool := (List.range c.rootTableCount).foldl (fun pool i =>
    (List.range mmPtePerPage).foldl (fun pool j => mmFreePagePte (t.tables i j) pool) pool) pool
  mpoolAddChunk pool t.root c.rootTableCount

/-- A chunk in two parts. -/
theorem chunkPages_add (first : PageNumber) (left right : Nat) :
    chunkPages (first, left + right) = chunkPages (first, left) +
      chunkPages (first + BitVec.ofNat 36 left, right) := by
  simp only [chunkPages, List.range_add, List.map_append, ← Multiset.coe_add, List.map_map,
    Function.comp_def, BitVec.ofNat_add, ← BitVec.add_assoc]

/-- The page reached from the start of a chunk. -/
theorem page_offset {start : Nat} (after : first.toNat ≤ start) :
    BitVec.ofNat 36 start = first + BitVec.ofNat 36 (start - first.toNat) := by
  conv_lhs => rw [← Nat.add_sub_cancel' after]
  rw [BitVec.ofNat_add, BitVec.ofNat_toNat, BitVec.setWidth_eq]

variable {page : PageNumber} {pool : Mpool}

/-- Pages are taken from the middle of a chunk. -/
theorem mpoolTakeContiguous_pages {count align : Nat} (aligned : 0 < align)
    {chunks chunks' : List (PageNumber × Nat)} (positive : ∀ chunk ∈ chunks, 0 < chunk.2)
    (taken : mpoolTakeContiguous count align chunks = some (page, chunks')) :
    (chunks.map chunkPages).sum = (chunks'.map chunkPages).sum + chunkPages (page, count) ∧
    ∀ chunk ∈ chunks', 0 < chunk.2 := by
  induction chunks generalizing chunks' with
  | nil => cases taken
  | cons chunk next ih =>
    obtain ⟨first, size⟩ := chunk
    rw [List.forall_mem_cons] at positive
    have after : first.toNat ≤ (first.toNat + align - 1) / align * align := by
      have := Nat.lt_div_mul_add (a := first.toNat + align - 1) aligned
      omega
    simp only [mpoolTakeContiguous] at taken
    generalize (first.toNat + align - 1) / align * align = start at after taken
    split at taken
    · next room =>
      obtain ⟨rfl, rfl⟩ := taken
      obtain ⟨left, whole⟩ := Nat.exists_eq_add_of_le room
      have remainder : BitVec.ofNat 36 (start + count) = first +
          BitVec.ofNat 36 (start - first.toNat + count) := by
        rw [page_offset (by omega : first.toNat ≤ start + count)]
        congr 2
        omega
      have parts : chunkPages (first, size) = chunkPages (first, start - first.toNat) +
          chunkPages (BitVec.ofNat 36 start, count) + chunkPages (BitVec.ofNat 36 (start + count), left) := by
        rw [whole, chunkPages_add, chunkPages_add, page_offset after, remainder]
      -- What is left behind the allocation, if anything is.
      have behind : ∀ rest, rest = (if start - first.toNat + count = size then next
            else (BitVec.ofNat 36 (start + count), size - (start - first.toNat + count)) :: next) →
          (rest.map chunkPages).sum = chunkPages (BitVec.ofNat 36 (start + count), left) +
            (next.map chunkPages).sum ∧ ∀ chunk ∈ rest, 0 < chunk.2 := by
        rintro rest rfl
        split
        · obtain rfl : left = 0 := by omega
          exact ⟨(zero_add _).symm, positive.2⟩
        · rw [show size - (start - first.toNat + count) = left by omega]
          exact ⟨List.sum_cons, List.forall_mem_cons.mpr ⟨by dsimp only; omega, positive.2⟩⟩
      generalize tail : (if start - first.toNat + count = size then next else _) = rest
      obtain ⟨pages, positive'⟩ := behind rest tail.symm
      rw [List.map_cons, List.sum_cons, parts]
      split
      · next skipped =>
        refine ⟨?_, List.forall_mem_cons.mpr ⟨skipped, positive'⟩⟩
        rw [List.map_cons, List.sum_cons, pages]
        abel
      · next none =>
        refine ⟨?_, positive'⟩
        rw [Nat.eq_zero_of_not_pos none, pages, show chunkPages (first, 0) = 0 from rfl]
        abel
    · simp only [Option.map_eq_some_iff, Prod.mk.injEq, Prod.exists] at taken
      obtain ⟨_, rest, found, rfl, rfl⟩ := taken
      obtain ⟨pages, positive'⟩ := ih positive.2 found
      refine ⟨?_, List.forall_mem_cons.mpr ⟨positive.1, positive'⟩⟩
      rw [List.map_cons, List.map_cons, List.sum_cons, List.sum_cons, pages, add_assoc]

theorem mpoolAllocContiguous_moves {count align : Nat} (aligned : 0 < align) {pool' : Mpool}
    (taken : mpoolAllocContiguous count align pool = some (page, pool')) :
    pool.Moves pool' 0 (chunkPages (page, count)) := by
  suffices general : (∀ p ∈ pool, ∀ chunk ∈ p.chunkList, 0 < chunk.2) → pool'.length = pool.length ∧
      (∀ p ∈ pool', ∀ chunk ∈ p.chunkList, 0 < chunk.2) ∧
        pool.pages = pool'.pages + chunkPages (page, count) by
    rintro n ⟨fallbacks, chunks⟩
    obtain ⟨length, chunks', pages⟩ := general chunks
    exact ⟨⟨length.trans fallbacks, chunks'⟩, by rw [add_zero, pages]⟩
  induction pool generalizing pool' with
  | nil => cases taken
  | cons p fallback ih =>
    intro chunks
    rw [List.forall_mem_cons] at chunks
    simp only [mpoolAllocContiguous] at taken
    cases own : mpoolTakeContiguous count align p.chunkList with
    | some result =>
      simp only [own, Option.some.injEq, Prod.mk.injEq] at taken
      obtain ⟨rfl, rfl⟩ := taken
      obtain ⟨pages, chunks'⟩ := mpoolTakeContiguous_pages aligned chunks.1 own
      refine ⟨rfl, List.forall_mem_cons.mpr ⟨chunks', chunks.2⟩, ?_⟩
      simp only [Mpool.pages_cons, MpoolLevel.pages, pages]
      abel
    | none =>
      simp only [own, Option.map_eq_some_iff, Prod.mk.injEq, Prod.exists] at taken
      obtain ⟨_, fallback', found, rfl, rfl⟩ := taken
      obtain ⟨length, chunks', pages⟩ := ih found chunks.2
      refine ⟨congrArg Nat.succ length, List.forall_mem_cons.mpr ⟨chunks.1, chunks'⟩, ?_⟩
      rw [Mpool.pages_cons, Mpool.pages_cons, pages, add_assoc]

/-- A new table takes its root tables. -/
theorem mmPtableInit_moves {pool' : Mpool} {t : MmPtable (m.levels stage)}
    (made : mmPtableInit m stage pool = some (t, pool')) : pool.Moves pool' 0 t.allPages := by
  simp only [mmPtableInit, mmAllocPageTables, Option.map_eq_some_iff, Prod.exists, Prod.mk.injEq] at made
  obtain ⟨root, _, taken, rfl, rfl⟩ := made
  have empty : MmPtable.pages (⟨root, fun _ _ => .leaf archMmAbsentPte⟩ : MmPtable (m.levels stage)) = 0 :=
    MmPtable.pages_of_leaves fun _ _ => rfl
  rw [MmPtable.allPages, empty, add_zero]
  split at taken
  · next single =>
    rw [single]
    exact (mpoolAlloc_moves taken).cast rfl (by simp [chunkPages])
  · exact mpoolAllocContiguous_moves (m.levels stage).rootTableCount_pos taken

/-- A table gives back all its pages. -/
theorem mmPtableFini_moves (t : MmPtable c) (pool : Mpool) :
    pool.Moves (mmPtableFini t pool) t.allPages 0 := by
  have below : pool.Moves ((List.range c.rootTableCount).foldl (fun pool i =>
      (List.range mmPtePerPage).foldl (fun pool j => mmFreePagePte (t.tables i j) pool) pool) pool)
        t.pages 0 := by
    rw [MmPtable.pages]
    refine (Balanced.foldl (fun i _ pool => ?_) pool).cast rfl rfl
    rw [PageTable.pages]
    exact (Balanced.foldl (fun j _ pool => mmFreePagePte_moves (t.tables i j) pool) pool).cast rfl rfl
  have roots : 0 < (t.root, c.rootTableCount).2 := c.rootTableCount_pos
  exact ((below.frame _).cast (add_comm _ _) (zero_add _).symm).trans (mpoolAddChunk_moves _ roots)

/-! ## One page -/

section OnePage

variable {attrs : PteBits} {flags : MmFlags} {va : Nat}

theorem mmMapTableOnePage_moves {mapEntry : Pte level → Mpool → Option (Updated (Pte level))}
    (entry : ∀ e (pool : Mpool) r, mapEntry e pool = some r → pool.Moves r.state e.pages r.value.pages)
    {t : PageTable level} {r : Updated (PageTable level)}
    (mapped : mmMapTableOnePage mapEntry va t pool = some r) :
    pool.Moves r.state t.pages r.value.pages := by
  rw [mmMapTableOnePage] at mapped
  split at mapped
  · rw [Option.map_eq_some_iff] at mapped
    obtain ⟨r, mapped, rfl⟩ := mapped
    have index : mmIndex va level < mmPtePerPage := Nat.mod_lt _ (by decide)
    rw [PageTable.pages, PageTable.pages]
    exact Balanced.update Pte.pages t (Finset.mem_range.mpr index) (entry _ pool r mapped)
  · cases mapped

theorem mmMapEntryOnePage_moves {pa : Nat} {descend : Pte level → Mpool → Option (Updated (Pte level))}
    (below : ∀ r, descend e pool = some r → pool.Moves r.state e.pages r.value.pages)
    {r : Updated (Pte level)}
    (mapped : mmMapEntryOnePage descend attrs flags va pa e pool = some r) :
    pool.Moves r.state e.pages r.value.pages := by
  rw [mmMapEntryOnePage] at mapped
  split at mapped
  · cases mapped
    exact .refl pool _
  · split at mapped
    · split at mapped
      · cases mapped
        exact mmFreePagePte_moves e pool
      · cases mapped
        exact .refl pool _
    · exact below r mapped

theorem mmMapPteOnePage_moves {pa : Nat} (e : Pte level) (pool : Mpool) (r : Updated (Pte level))
    (mapped : mmMapPteOnePage attrs flags level va pa e pool = some r) :
    pool.Moves r.state e.pages r.value.pages := by
  induction level generalizing pool with
  | zero =>
    refine mmMapEntryOnePage_moves (fun r same => ?_) mapped
    cases same
    exact .refl pool _
  | succ level ih =>
    refine mmMapEntryOnePage_moves (fun r mapped => ?_) mapped
    rw [mmDescendOnePage, mmMapBelowOnePage] at mapped
    cases populate : mmPopulateTablePte e pool with
    | none =>
      rw [populate] at mapped
      cases mapped
      exact .refl pool _
    | some populated =>
      obtain ⟨page, nt, pool'⟩ := populated
      simp only [populate, Option.map_eq_some_iff, mmMapLevelOnePage_eq] at mapped
      obtain ⟨r, mapped, rfl⟩ := mapped
      have below := mmMapTableOnePage_moves (fun e pool r => ih e pool r) mapped
      rw [Pte.pages_table]
      exact (mmPopulateTablePte_moves populate).trans ((below.frame {page}).cast (add_comm _ _)
        (add_comm _ _))

theorem mmPtableMapOnePage_moves {pa : Nat} {r : Updated (MmPtable c)}
    (mapped : mmPtableMapOnePage t va pa attrs flags pool = some r) :
    pool.Moves r.state t.pages r.value.pages := by
  rw [mmPtableMapOnePage] at mapped
  split at mapped
  · cases mapped
    exact .refl pool _
  · next inside =>
    simp only [mmMapRootOnePage, Option.map_eq_some_iff, mmMapLevelOnePage_eq] at mapped
    obtain ⟨r, mapped, rfl⟩ := mapped
    have positive : 0 < pageSize := by decide
    obtain ⟨root, -, -⟩ := root_bounds (c := c) (show archMmClearPa va < mmPtableAddrSpaceEnd c by omega)
    rw [MmPtable.pages, MmPtable.pages]
    exact Balanced.update PageTable.pages t.tables (Finset.mem_range.mpr root)
      (mmMapTableOnePage_moves (fun e pool r => mmMapPteOnePage_moves e pool r) mapped)

end OnePage

end Whole

/-! ## Places of pages -/

/-- The table that the entries on a path lead to is held on a page. -/
def Pte.Holds : {level : Nat} → Pte level → List Nat → PageNumber → Prop
  | _, .leaf _, _, _ => False
  | _, .table page _, [], p => p = page
  | _, .table _ entries, i :: path, p => i < mmPtePerPage ∧ (entries i).Holds path p

/-- A path starts with a root table. -/
def MmPtable.Holds {c : StageConfig} (t : MmPtable c) : List Nat → PageNumber → Prop
  | [], _ => False
  | [i], p => i < c.rootTableCount ∧ p = t.root + BitVec.ofNat 36 i
  | i :: j :: path, p => i < c.rootTableCount ∧ j < mmPtePerPage ∧ (t.tables i j).Holds path p

section Places

variable {i j : Nat} {path path' : List Nat}

theorem PageTable.entry_le (t : PageTable level) (bound : i < mmPtePerPage) : (t i).pages ≤ t.pages := by
  rw [PageTable.pages]
  exact le_sum (fun i => (t i).pages) (Finset.mem_range.mpr bound)

theorem PageTable.entry_eq {t : PageTable level} (distinct : Distinct t.pages) (left : i < mmPtePerPage)
    (right : j < mmPtePerPage) (mem : p ∈ (t i).pages) (mem' : p ∈ (t j).pages) : i = j := by
  rw [PageTable.pages] at distinct
  exact eq_of_mem_sum (fun i => (t i).pages) distinct (Finset.mem_range.mpr left)
    (Finset.mem_range.mpr right) mem mem'

theorem MmPtable.table_le (t : MmPtable c) (bound : i < c.rootTableCount) : (t.tables i).pages ≤ t.pages := by
  rw [MmPtable.pages]
  exact le_sum (fun i => (t.tables i).pages) (Finset.mem_range.mpr bound)

theorem MmPtable.table_eq (distinct : Distinct t.pages) (left : i < c.rootTableCount)
    (right : j < c.rootTableCount) (mem : p ∈ (t.tables i).pages) (mem' : p ∈ (t.tables j).pages) :
    i = j := by
  rw [MmPtable.pages] at distinct
  exact eq_of_mem_sum (fun i => (t.tables i).pages) distinct (Finset.mem_range.mpr left)
    (Finset.mem_range.mpr right) mem mem'

theorem Pte.Holds.mem (holds : e.Holds path p) : p ∈ e.pages := by
  induction e generalizing path with
  | leaf bits => exact holds.elim
  | table page entries ih =>
    rw [Pte.pages_table, Multiset.mem_add]
    cases path with
    | nil => exact .inl (Multiset.mem_singleton.mpr holds)
    | cons i path => exact .inr (Multiset.mem_of_le (PageTable.entry_le entries holds.1) (ih i holds.2))

theorem Pte.exists_holds (mem : p ∈ e.pages) : ∃ path, e.Holds path p := by
  induction e with
  | leaf bits => exact absurd mem (Multiset.notMem_zero p)
  | table page entries ih =>
    rw [Pte.pages_table, Multiset.mem_add, PageTable.pages, Multiset.mem_sum] at mem
    rcases mem with here | ⟨i, bound, below⟩
    · exact ⟨[], Multiset.mem_singleton.mp here⟩
    · obtain ⟨path, holds⟩ := ih i below
      exact ⟨i :: path, Finset.mem_range.mp bound, holds⟩

theorem Pte.Holds.unique (distinct : Distinct e.pages) (holds : e.Holds path p)
    (holds' : e.Holds path' p) : path = path' := by
  induction e generalizing path path' with
  | leaf bits => exact holds.elim
  | table page entries ih =>
    rw [Pte.pages_table] at distinct
    have below {i : Nat} {rest : List Nat} (bound : i < mmPtePerPage)
        (holds : (entries i).Holds rest page) : False := by
      refine distinct.apart (Multiset.mem_singleton_self page) ?_
      exact Multiset.mem_of_le (PageTable.entry_le entries bound) holds.mem
    cases path with
    | nil =>
      cases path' with
      | nil => rfl
      | cons j rest =>
        obtain rfl : p = page := holds
        exact (below holds'.1 holds'.2).elim
    | cons i path =>
      cases path' with
      | nil =>
        obtain rfl : p = page := holds'
        exact (below holds.1 holds.2).elim
      | cons j path' =>
        obtain rfl := PageTable.entry_eq distinct.right holds.1 holds'.1 holds.2.mem holds'.2.mem
        rw [ih i (distinct.right.mono (PageTable.entry_le entries holds.1)) holds.2 holds'.2]

theorem mem_chunkPages {size : Nat} :
    p ∈ chunkPages (first, size) ↔ ∃ k < size, p = first + BitVec.ofNat 36 k := by
  simp only [chunkPages, Multiset.mem_coe, List.mem_map, List.mem_range]
  exact exists_congr fun k => and_congr_right fun _ => eq_comm

theorem MmPtable.mem_pages (root : i < c.rootTableCount) (entry : j < mmPtePerPage)
    (holds : (t.tables i j).Holds path p) : p ∈ (t.tables i).pages ∧ p ∈ t.pages := by
  have inTable := Multiset.mem_of_le ((t.tables i).entry_le entry) holds.mem
  exact ⟨inTable, Multiset.mem_of_le (t.table_le root) inTable⟩

theorem MmPtable.Holds.mem (holds : t.Holds path p) : p ∈ t.allPages := by
  rw [MmPtable.allPages, Multiset.mem_add]
  match path, holds with
  | [i], holds => exact .inl (mem_chunkPages.mpr ⟨i, holds.1, holds.2⟩)
  | i :: j :: path, holds => exact .inr (MmPtable.mem_pages holds.1 holds.2.1 holds.2.2).2

theorem MmPtable.exists_holds (mem : p ∈ t.allPages) : ∃ path, t.Holds path p := by
  rw [MmPtable.allPages, Multiset.mem_add, mem_chunkPages, MmPtable.pages, Multiset.mem_sum] at mem
  rcases mem with ⟨i, bound, here⟩ | ⟨i, bound, below⟩
  · exact ⟨[i], bound, here⟩
  · rw [PageTable.pages, Multiset.mem_sum] at below
    obtain ⟨j, entry, below⟩ := below
    obtain ⟨path, holds⟩ := Pte.exists_holds below
    exact ⟨i :: j :: path, Finset.mem_range.mp bound, Finset.mem_range.mp entry, holds⟩

theorem MmPtable.Holds.unique (distinct : Distinct t.allPages)
    (holds : t.Holds path p) (holds' : t.Holds path' p) : path = path' := by
  have apart {k : Nat} (root : k < c.rootTableCount) (here : p = t.root + BitVec.ofNat 36 k) : p ∉ t.pages :=
    distinct.apart (mem_chunkPages.mpr ⟨k, root, here⟩)
  match path, path', holds, holds' with
  | [i], [j], holds, holds' =>
    have nodup := distinct.left.nodup
    rw [List.inj_on_of_nodup_map nodup (List.mem_range.mpr holds.1) (List.mem_range.mpr holds'.1)
      (holds.2.symm.trans holds'.2)]
  | [i], j :: k :: rest, holds, holds' =>
    exact absurd (MmPtable.mem_pages holds'.1 holds'.2.1 holds'.2.2).2 (apart holds.1 holds.2)
  | i :: j :: rest, [k], holds, holds' =>
    exact absurd (MmPtable.mem_pages holds.1 holds.2.1 holds.2.2).2 (apart holds'.1 holds'.2)
  | i :: j :: rest, i' :: j' :: rest', holds, holds' =>
    obtain rfl := MmPtable.table_eq distinct.right holds.1 holds'.1
      (MmPtable.mem_pages holds.1 holds.2.1 holds.2.2).1
      (MmPtable.mem_pages holds'.1 holds'.2.1 holds'.2.2).1
    have table := distinct.right.mono (t.table_le holds.1)
    obtain rfl := PageTable.entry_eq table holds.2.1 holds'.2.1 holds.2.2.mem holds'.2.2.mem
    rw [holds.2.2.unique (table.mono ((t.tables i).entry_le holds.2.1)) holds'.2.2]

end Places

/-! ## The tables of a pool -/

/-- Tables that share a pool. -/
structure PtableStore (m : MmConfig) where
  tables : List ((stage : Stage) × MmPtable (m.levels stage))
  pool : Mpool

/-- The calls of the interface; tables are given by their position. -/
inductive PtableCall
  | init (stage : Stage)
  | identityPrepare (k begin_ end_ : Nat) (mode : Mode)
  | identityCommit (k begin_ end_ : Nat) (mode : Mode)
  | identityMap (k begin_ end_ : Nat) (mode : Mode)
  | unmap (k begin_ end_ : Nat)
  | mapOnePage (k va pa : Nat) (attrs : PteBits) (flags : MmFlags)
  | defrag (k : Nat)
  | fini (k : Nat)

namespace PtableStore

/-- Updates one table; `none` stands for a failed `CHECK`. -/
def update (s : PtableStore m) (k : Nat)
    (f : (stage : Stage) → MmPtable (m.levels stage) → Mpool →
      Option (Updated (MmPtable (m.levels stage)))) : Option (PtableStore m) :=
  s.tables[k]?.bind fun ⟨stage, t⟩ => (f stage t s.pool).map fun r =>
    ⟨s.tables.set k ⟨stage, r.value⟩, r.state⟩

/-- A call, whether it succeeds or fails for lack of memory. -/
def run (s : PtableStore m) : PtableCall → Option (PtableStore m)
  | .init stage =>
    match mmPtableInit m stage s.pool with
    | none => some s
    | some (t, pool) => some ⟨s.tables ++ [⟨stage, t⟩], pool⟩
  | .identityPrepare k begin_ end_ mode =>
    s.update k fun _ t pool => some (stageIdentityPrepare t begin_ end_ mode pool)
  | .identityCommit k begin_ end_ mode => s.update k fun _ t pool =>
    (stageIdentityCommit t begin_ end_ mode pool).map fun (t, pool) => ⟨true, t, pool⟩
  | .identityMap k begin_ end_ mode => s.update k fun _ t pool => stageIdentityMap t begin_ end_ mode pool
  | .unmap k begin_ end_ => s.update k fun _ t pool => stageIdentityMap t begin_ end_ mmModeUnmappedMask pool
  | .mapOnePage k va pa attrs flags => s.update k fun _ t pool => mmPtableMapOnePage t va pa attrs flags pool
  | .defrag k => s.update k fun _ t pool =>
    let (t, pool) := mmPtableDefrag m.features t pool
    some ⟨true, t, pool⟩
  | .fini k => s.tables[k]?.map fun ⟨_, t⟩ => ⟨s.tables.eraseIdx k, mmPtableFini t s.pool⟩

/-- The pages of one of the tables. -/
def pagesOf (t : (stage : Stage) × MmPtable (m.levels stage)) : Multiset PageNumber := t.2.allPages

/-- The pages of all tables. -/
def tablePages (s : PtableStore m) : Multiset PageNumber := (s.tables.map pagesOf).sum

/-- A page at some place of a table. -/
def Holds (s : PtableStore m) (k : Nat) (path : List Nat) (p : PageNumber) : Prop :=
  ∃ t, s.tables[k]? = some t ∧ t.2.Holds path p

variable {s s' : PtableStore m}

theorem update_moves {k : Nat}
    {f : (stage : Stage) → MmPtable (m.levels stage) → Mpool → Option (Updated (MmPtable (m.levels stage)))}
    (moves : ∀ stage t (pool : Mpool) r, f stage t pool = some r →
      pool.Moves r.state t.pages r.value.pages ∧ r.value.root = t.root)
    (updated : s.update k f = some s') : s.pool.Moves s'.pool s.tablePages s'.tablePages := by
  simp only [update, Option.bind_eq_some_iff, Option.map_eq_some_iff] at updated
  obtain ⟨⟨stage, t⟩, here, r, result, rfl⟩ := updated
  obtain ⟨rest, before, after, -⟩ := sum_set PtableStore.pagesOf here
  obtain ⟨moved, root⟩ := moves stage t s.pool r result
  have whole : s.pool.Moves r.state t.allPages r.value.allPages := by
    rw [MmPtable.allPages, MmPtable.allPages, root]
    exact (moved.frame _).cast (add_comm _ _) (add_comm _ _)
  rw [tablePages, tablePages, before, after]
  exact whole.frame rest

/-- The pages of the tables are those at some place. -/
theorem mem_tablePages_iff : p ∈ s.tablePages ↔ ∃ k path, s.Holds k path p := by
  constructor
  · intro mem
    obtain ⟨k, t, here, mem⟩ := exists_of_mem_list_sum PtableStore.pagesOf mem
    obtain ⟨path, holds⟩ := MmPtable.exists_holds mem
    exact ⟨k, path, t, here, holds⟩
  · rintro ⟨k, path, t, here, holds⟩
    exact mem_list_sum PtableStore.pagesOf here holds.mem

/-- An update keeps the root tables where they are. -/
theorem mapsInPlace (t : MmPtable (m.levels stage)) (begin_ end_ : Nat) (mode : Mode) (pool : Mpool)
    (r : Updated (MmPtable (m.levels stage))) (mapped : stageIdentityMap t begin_ end_ mode pool = some r) :
    pool.Moves r.state t.pages r.value.pages ∧ r.value.root = t.root := by
  refine ⟨stageIdentityMap_moves mapped, ?_⟩
  simp only [stageIdentityMap, mmPtableIdentityUpdate, mmPtableIdentityCommit] at mapped
  split at mapped
  · split at mapped
    · cases mapped
      rfl
    · cases mapped
  · cases mapped
    rfl

/-- Every call is balanced. -/
theorem run_moves {call : PtableCall} (ran : s.run call = some s') :
    s.pool.Moves s'.pool s.tablePages s'.tablePages := by
  cases call with
  | init stage =>
    simp only [run] at ran
    split at ran
    · cases ran
      exact .refl _ _
    · next made =>
      cases ran
      rw [tablePages, tablePages, List.map_append, List.sum_append, List.map_singleton, List.sum_singleton]
      exact ((mmPtableInit_moves made).frame _).cast (zero_add _).symm (add_comm _ _)
  | identityPrepare k begin_ end_ mode =>
    rw [run] at ran
    refine update_moves (fun stage t pool r prepared => ?_) ran
    cases prepared
    exact ⟨stageIdentityPrepare_moves t begin_ end_ mode pool, rfl⟩
  | identityCommit k begin_ end_ mode =>
    rw [run] at ran
    refine update_moves (fun stage t pool r committed => ?_) ran
    rw [Option.map_eq_some_iff] at committed
    obtain ⟨⟨t', pool'⟩, committed, rfl⟩ := committed
    refine ⟨stageIdentityCommit_moves committed, ?_⟩
    simp only [stageIdentityCommit, mmPtableIdentityCommit] at committed
    split at committed
    · cases committed
      rfl
    · cases committed
  | identityMap k begin_ end_ mode =>
    exact update_moves (fun _ t pool r => mapsInPlace t begin_ end_ mode pool r) ran
  | unmap k begin_ end_ =>
    exact update_moves (fun _ t pool r => mapsInPlace t begin_ end_ mmModeUnmappedMask pool r) ran
  | mapOnePage k va pa attrs flags =>
    refine update_moves (fun stage t pool r mapped => ⟨mmPtableMapOnePage_moves mapped, ?_⟩) ran
    simp only [mmPtableMapOnePage, mmMapRootOnePage] at mapped
    split at mapped
    · cases mapped
      rfl
    · rw [Option.map_eq_some_iff] at mapped
      obtain ⟨_, -, rfl⟩ := mapped
      rfl
  | defrag k =>
    rw [run] at ran
    refine update_moves (fun stage t pool r defragged => ?_) ran
    cases defragged
    exact ⟨mmPtableDefrag_moves m.features t pool, rfl⟩
  | fini k =>
    simp only [run, Option.map_eq_some_iff] at ran
    obtain ⟨⟨stage, t⟩, here, rfl⟩ := ran
    obtain ⟨rest, before, -, after⟩ := sum_set PtableStore.pagesOf here
    rw [tablePages, tablePages, before, after]
    exact ((mmPtableFini_moves t s.pool).frame rest).cast rfl (zero_add _).symm

/-- The calls of a run, one after the other. -/
theorem runs_moves {calls : List PtableCall} (ran : calls.foldlM run s = some s') :
    s.pool.Moves s'.pool s.tablePages s'.tablePages := by
  induction calls generalizing s with
  | nil =>
    cases ran
    exact .refl _ _
  | cons call rest ih =>
    simp only [List.foldlM_cons, Option.bind_eq_bind, Option.bind_eq_some_iff] at ran
    obtain ⟨s₁, first, others⟩ := ran
    exact (run_moves first).trans (ih others)

end PtableStore

/-- In every run over the tables of a pool whose pages are distinct, no page is at two places, no page of
a table is free, no page is lost, and a table that is given back gives back all its pages. -/
theorem ptable_pages_conserved {m : MmConfig} {n : Nat} {pool : Mpool} (sound : pool.Sound n)
    (distinct : pool.pages.Nodup) {calls : List PtableCall} {s : PtableStore m}
    (ran : calls.foldlM PtableStore.run ⟨[], pool⟩ = some s) :
    (∀ {k k' : Nat} {path path' : List Nat} {page : PageNumber}, s.Holds k path page → s.Holds k' path' page →
      k = k' ∧ path = path') ∧
    (∀ {k : Nat} {path : List Nat} {page : PageNumber}, s.Holds k path page → page ∉ s.pool.pages) ∧
    (∀ {page : PageNumber}, page ∈ s.tablePages ↔ ∃ k path, s.Holds k path page) ∧
    s.pool.pages.card + s.tablePages.card = pool.pages.card ∧
    ∀ {k : Nat} {s' : PtableStore m}, s.run (.fini k) = some s' →
      ∃ t, s.tables[k]? = some t ∧ s'.tables = s.tables.eraseIdx k ∧
      s'.pool.pages = s.pool.pages + t.2.allPages := by
  have balanced := PtableStore.runs_moves ran n sound
  have all : pool.pages = s.pool.pages + s.tablePages := (add_zero _).symm.trans balanced.2
  have once : Distinct (s.pool.pages + s.tablePages) := ⟨all ▸ distinct⟩
  refine ⟨?_, ?_, PtableStore.mem_tablePages_iff, ?_, ?_⟩
  · rintro k k' path path' page ⟨t, here, holds⟩ ⟨t', there, holds'⟩
    obtain rfl := index_eq_of_mem_sum PtableStore.pagesOf once.right here there
      holds.mem holds'.mem
    obtain rfl := Option.some.inj (here.symm.trans there)
    obtain ⟨rest, sum, -⟩ := sum_set PtableStore.pagesOf here
    have table : Distinct t.2.allPages := (sum ▸ once.right : Distinct (t.2.allPages + rest)).left
    exact ⟨rfl, holds.unique table holds'⟩
  · rintro k path page ⟨t, here, holds⟩ free
    exact once.apart free (mem_list_sum PtableStore.pagesOf here holds.mem)
  · rw [all, Multiset.card_add]
  · intro k s' ended
    simp only [PtableStore.run, Option.map_eq_some_iff] at ended
    obtain ⟨t, here, rfl⟩ := ended
    refine ⟨t, here, rfl, ?_⟩
    have back := (mmPtableFini_moves t.2 s.pool n balanced.1).2
    exact (back.trans (add_zero _)).symm

/-- A table is made, a page is mapped in it and the table is given back. -/
theorem ptable_pages_conserved_one_table :
    ∃ s : PtableStore smallConfig,
      [.init .stage2, .identityMap 0 0x1000 0x2000 mmModeR].foldlM PtableStore.run ⟨[],
        [⟨[9], [(0, 5)]⟩]⟩ = some s ∧
      s.pool.pages.card + s.tablePages.card = 6 ∧
      ∀ s', s.run (.fini 0) = some s' → ∃ t, s.tables[0]? = some t ∧
      s'.pool.pages = s.pool.pages + t.2.allPages := by
  have returns : (([.init .stage2, .identityMap 0 0x1000 0x2000 mmModeR].foldlM PtableStore.run
      (⟨[], [⟨[9], [(0, 5)]⟩]⟩ : PtableStore smallConfig)).isSome) = true := by decide +kernel
  obtain ⟨s, ran⟩ := Option.isSome_iff_exists.mp returns
  have sound : Mpool.Sound 0 [⟨[9], [(0, 5)]⟩] := ⟨rfl, by decide⟩
  have distinct : (Mpool.pages [⟨[9], [(0, 5)]⟩]).Nodup := by decide
  obtain ⟨-, -, -, count, back⟩ := ptable_pages_conserved sound distinct ran
  refine ⟨s, ran, count.trans (by decide), fun s' ended => ?_⟩
  obtain ⟨t, here, -, pages⟩ := back ended
  exact ⟨t, here, pages⟩

end Hafnium.Mm
