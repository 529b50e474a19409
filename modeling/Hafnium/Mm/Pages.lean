import Hafnium.Mm.Stage
import Mathlib.Tactic.Abel

/-! # Where pages are kept

A page of a pool is free or holds a table. Updates of page tables take pages from the pool and give
them back; every one of them is balanced, also when it fails half way.
-/

namespace Hafnium.Mm

open BlockWalk Custody Function

/-! ## Pools -/

/-- The pages of a chunk. -/
def chunkPages (chunk : PageNumber × Nat) : Multiset PageNumber :=
  (List.range chunk.2).map fun k => chunk.1 + BitVec.ofNat 36 k

def MpoolLevel.pages (p : MpoolLevel) : Multiset PageNumber := p.entryList + (p.chunkList.map chunkPages).sum

/-- The free pages of a pool and its fallbacks. -/
def Mpool.pages (pool : Mpool) : Multiset PageNumber := (pool.map MpoolLevel.pages).sum

/-- A pool with `n` fallbacks, in which no chunk is empty. -/
structure Mpool.Sound (n : Nat) (pool : Mpool) : Prop where
  fallbacks : pool.length = n + 1
  chunks : ∀ p ∈ pool, ∀ chunk ∈ p.chunkList, 0 < chunk.2

/-- A step of a pool during which the pages in use go from `x` to `y`. -/
def Mpool.Moves (pool pool' : Mpool) (x y : Multiset PageNumber) : Prop :=
  Balanced Mpool.Sound Mpool.pages pool pool' x y

theorem Mpool.pages_cons (p : MpoolLevel) (fallback : Mpool) :
    Mpool.pages (p :: fallback) = p.pages + Mpool.pages fallback := rfl

theorem MpoolLevel.card_pages (p : MpoolLevel) : Multiset.card p.pages = p.freeCount := by
  have chunks (l : List (PageNumber × Nat)) :
      Multiset.card (l.map chunkPages).sum = (l.map Prod.snd).sum := by
    induction l with
    | nil => rfl
    | cons chunk rest ih =>
      rw [List.map_cons, List.sum_cons, Multiset.card_add, ih, List.map_cons, List.sum_cons,
        chunkPages, Multiset.coe_card, List.length_map, List.length_range]
  rw [MpoolLevel.pages, Multiset.card_add, Multiset.coe_card, chunks, MpoolLevel.freeCount]

theorem Mpool.card_pages (pool : Mpool) : Multiset.card pool.pages = pool.freeCount := by
  induction pool with
  | nil => rfl
  | cons p fallback ih => rw [Mpool.pages_cons, Multiset.card_add, p.card_pages, ih, Mpool.freeCount_cons]

theorem chunkPages_succ (first : PageNumber) (size : Nat) :
    chunkPages (first, size + 1) = {first} + chunkPages (first + 1, size) := by
  have rest (k : Nat) : first + BitVec.ofNat 36 (k + 1) = first + 1 + BitVec.ofNat 36 k := by
    rw [Nat.add_comm k, BitVec.ofNat_add, ← BitVec.add_assoc]
    rfl
  simp only [chunkPages, List.range_succ_eq_map, List.map_cons, List.map_map, comp_def, rest,
    ← Multiset.cons_coe, Multiset.singleton_add]
  simp

variable {page : PageNumber} {pool pool' : Mpool} {n level begin_ end_ : Nat} {c : StageConfig}

/-- One level hands out a page. -/
theorem mpoolAllocNoFallback_pages {p p' : MpoolLevel} (chunks : ∀ chunk ∈ p.chunkList, 0 < chunk.2)
    (taken : mpoolAllocNoFallback p = some (page, p')) :
    p.pages = p'.pages + {page} ∧ ∀ chunk ∈ p'.chunkList, 0 < chunk.2 := by
  rcases p with ⟨_ | ⟨entry, next⟩, chunkList⟩
  · cases chunkList with
    | nil => cases taken
    | cons chunk nextChunk =>
      obtain ⟨first, size⟩ := chunk
      rw [List.forall_mem_cons] at chunks
      obtain ⟨positive, rest⟩ := chunks
      obtain ⟨size, rfl⟩ := Nat.exists_eq_succ_of_ne_zero positive.ne'
      simp only [mpoolAllocNoFallback] at taken
      split at taken
      · next last =>
        cases taken
        obtain rfl : size = 0 := by omega
        refine ⟨?_, rest⟩
        simp only [MpoolLevel.pages, List.map_cons, List.sum_cons, chunkPages_succ]
        simp [chunkPages, add_comm]
      · next more =>
        cases taken
        refine ⟨?_, List.forall_mem_cons.mpr ⟨by simp only; omega, rest⟩⟩
        simp only [MpoolLevel.pages, List.map_cons, List.sum_cons, chunkPages_succ, Nat.succ_sub_one]
        abel
  · cases taken
    refine ⟨?_, chunks⟩
    simp only [MpoolLevel.pages, ← Multiset.cons_coe, ← Multiset.singleton_add]
    abel

/-- A page is handed out. -/
theorem mpoolAlloc_moves (taken : mpoolAlloc pool = some (page, pool')) : pool.Moves pool' 0 {page} := by
  suffices general : (∀ p ∈ pool, ∀ chunk ∈ p.chunkList, 0 < chunk.2) → pool'.length = pool.length ∧
      (∀ p ∈ pool', ∀ chunk ∈ p.chunkList, 0 < chunk.2) ∧ pool.pages = pool'.pages + {page} by
    rintro n ⟨fallbacks, chunks⟩
    obtain ⟨length, chunks', pages⟩ := general chunks
    exact ⟨⟨length.trans fallbacks, chunks'⟩, by rw [add_zero, pages]⟩
  induction pool generalizing pool' with
  | nil => cases taken
  | cons p fallback ih =>
    intro chunks
    rw [List.forall_mem_cons] at chunks
    simp only [mpoolAlloc] at taken
    cases own : mpoolAllocNoFallback p with
    | some result =>
      simp only [own, Option.some.injEq, Prod.mk.injEq] at taken
      obtain ⟨rfl, rfl⟩ := taken
      obtain ⟨pages, chunks'⟩ := mpoolAllocNoFallback_pages chunks.1 own
      refine ⟨rfl, List.forall_mem_cons.mpr ⟨chunks', chunks.2⟩, ?_⟩
      rw [Mpool.pages_cons, Mpool.pages_cons, pages]
      abel
    | none =>
      simp only [own, Option.map_eq_some_iff, Prod.mk.injEq, Prod.exists] at taken
      obtain ⟨_, fallback', found, rfl, rfl⟩ := taken
      obtain ⟨length, chunks', pages⟩ := ih found chunks.2
      refine ⟨congrArg Nat.succ length, List.forall_mem_cons.mpr ⟨chunks.1, chunks'⟩, ?_⟩
      rw [Mpool.pages_cons, Mpool.pages_cons, pages, add_assoc]

/-- A page comes back. -/
theorem mpoolFree_moves (pool : Mpool) (page : PageNumber) : pool.Moves (mpoolFree pool page) {page} 0 := by
  rintro n ⟨fallbacks, chunks⟩
  cases pool with
  | nil => cases fallbacks
  | cons p fallback =>
    rw [List.forall_mem_cons] at chunks
    refine ⟨⟨fallbacks, List.forall_mem_cons.mpr chunks⟩, ?_⟩
    simp only [mpoolFree, Mpool.pages_cons, MpoolLevel.pages, ← Multiset.cons_coe, ← Multiset.singleton_add]
    abel

theorem mpoolAddChunk_moves (pool : Mpool) {chunk : PageNumber × Nat} (positive : 0 < chunk.2) :
    pool.Moves (mpoolAddChunk pool chunk.1 chunk.2) (chunkPages chunk) 0 := by
  rintro n ⟨fallbacks, chunks⟩
  cases pool with
  | nil => cases fallbacks
  | cons p fallback =>
    rw [List.forall_mem_cons] at chunks
    rw [mpoolAddChunk, if_neg positive.ne']
    refine ⟨⟨fallbacks, List.forall_mem_cons.mpr ⟨List.forall_mem_cons.mpr ⟨positive, chunks.1⟩,
      chunks.2⟩⟩, ?_⟩
    simp only [Mpool.pages_cons, MpoolLevel.pages, List.map_cons, List.sum_cons]
    abel

theorem sum_singletons (l : List PageNumber) :
    (l.map fun page => ({page} : Multiset PageNumber)).sum = l := by
  induction l with
  | nil => rfl
  | cons page rest ih => rw [List.map_cons, List.sum_cons, ih, Multiset.singleton_add, Multiset.cons_coe]

/-- A local pool in front of another one starts empty. -/
theorem mpoolInitWithFallback_sound (sound : pool.Sound n) :
    (mpoolInitWithFallback pool).Sound (n + 1) ∧ (mpoolInitWithFallback pool).pages = pool.pages := by
  refine ⟨⟨congrArg Nat.succ sound.fallbacks, List.forall_mem_cons.mpr ⟨fun chunk member => ?_,
    sound.chunks⟩⟩, ?_⟩
  · cases member
  · rw [mpoolInitWithFallback, Mpool.pages_cons]
    simp [MpoolLevel.pages]

/-- All that a local pool holds goes to its fallback, in every account that frees and new chunks keep. -/
theorem mpoolFini_balanced {ι : Type} {valid : ι → Mpool → Prop}
    {free : Mpool → Multiset PageNumber} (p q : MpoolLevel) (rest : Mpool)
    (frees : ∀ pool page, Balanced valid free pool (mpoolFree pool page) {page} 0)
    (adds : ∀ chunk ∈ p.chunkList, ∀ pool,
      Balanced valid free pool (mpoolAddChunk pool chunk.1 chunk.2) (chunkPages chunk) 0) :
    Balanced valid free (q :: rest) (mpoolFini (p :: q :: rest)) p.pages 0 := by
  have entries : Balanced valid free (q :: rest) (p.entryList.foldl mpoolFree (q :: rest)) p.entryList 0 :=
    (Balanced.foldl (fun page _ pool => frees pool page) _).cast (sum_singletons _).symm rfl
  have chunks : Balanced valid free _ (mpoolFini (p :: q :: rest))
      (p.chunkList.map chunkPages).sum 0 := Balanced.foldl adds _
  exact (entries.frame (p.chunkList.map chunkPages).sum).trans (chunks.cast (zero_add _) rfl)

theorem mpoolFini_sound (sound : pool.Sound (n + 1)) :
    (mpoolFini pool).Sound n ∧ (mpoolFini pool).pages = pool.pages := by
  obtain ⟨fallbacks, chunks⟩ := sound
  match pool, fallbacks with
  | p :: q :: rest, fallbacks =>
    rw [List.forall_mem_cons] at chunks
    obtain ⟨sound', pages⟩ := mpoolFini_balanced p q rest mpoolFree_moves
      (fun chunk member pool => mpoolAddChunk_moves pool (chunks.1 chunk member))
        n ⟨Nat.succ.inj fallbacks, chunks.2⟩
    refine ⟨sound', ?_⟩
    rw [add_zero] at pages
    rw [← pages, Mpool.pages_cons p, add_comm]

/-! ## Local pools -/

/-- A step of a pool that has a fallback. -/
def Mpool.LocalMoves (pool pool' : Mpool) (x y : Multiset PageNumber) : Prop :=
  Balanced (fun n => Mpool.Sound (n + 1)) Mpool.pages pool pool' x y

section Local

variable {x y : Multiset PageNumber}

theorem Mpool.Moves.toLocal (moves : pool.Moves pool' x y) : pool.LocalMoves pool' x y :=
  fun n => moves (n + 1)

/-- The steps between setting up a local pool and giving it back. -/
theorem Mpool.LocalMoves.scope (moves : (mpoolInitWithFallback pool).LocalMoves pool' x y) :
    pool.Moves (mpoolFini pool') x y := by
  intro n sound
  obtain ⟨sound₁, pages₁⟩ := mpoolInitWithFallback_sound sound
  obtain ⟨sound₂, same⟩ := moves n sound₁
  obtain ⟨sound₃, pages₃⟩ := mpoolFini_sound sound₂
  refine ⟨sound₃, ?_⟩
  rw [pages₃, ← pages₁, same]

/-- What is given back to a local pool goes to its fallback as well. -/
theorem Mpool.scope_givesBack {z : Multiset PageNumber}
    (moves : GivesBack (fun n => Mpool.Sound (n + 1)) Mpool.pages (mpoolInitWithFallback pool) pool' x y z) :
    GivesBack Mpool.Sound Mpool.pages pool (mpoolFini pool') x y z := by
  refine ⟨Mpool.LocalMoves.scope moves.balanced, fun n sound => ?_⟩
  have inner := (mpoolInitWithFallback_sound sound).1
  rw [(mpoolFini_sound (moves.balanced n inner).1).2]
  exact moves.back n inner

/-- A step of the fallback behind a local pool. -/
theorem Mpool.Moves.behind (moves : Mpool.Moves pool.tail pool' x y) :
    pool.LocalMoves (pool.take 1 ++ pool') x y := by
  rintro n ⟨fallbacks, chunks⟩
  match pool, fallbacks with
  | p :: rest, fallbacks =>
    rw [List.forall_mem_cons] at chunks
    obtain ⟨sound, same⟩ := moves n ⟨Nat.succ.inj fallbacks, chunks.2⟩
    refine ⟨⟨congrArg Nat.succ sound.fallbacks, List.forall_mem_cons.mpr ⟨chunks.1, sound.chunks⟩⟩, ?_⟩
    have same : Mpool.pages rest + x = pool'.pages + y := same
    change Mpool.pages (p :: rest) + x = Mpool.pages (p :: pool') + y
    rw [Mpool.pages_cons, Mpool.pages_cons, add_assoc, add_assoc, same]

end Local

/-! ## Tables -/

/-- The pages of the tables below an entry. -/
def Pte.pages : {level : Nat} → Pte level → Multiset PageNumber
  | _, .leaf _ => 0
  | _, .table page entries => {page} + ∑ i ∈ Finset.range mmPtePerPage, (entries i).pages

/-- The pages of the tables below a table. -/
def PageTable.pages {level : Nat} (t : PageTable level) : Multiset PageNumber :=
  ∑ i ∈ Finset.range mmPtePerPage, (t i).pages

/-- The pages of all tables but the root tables. -/
def MmPtable.pages {c : StageConfig} (t : MmPtable c) : Multiset PageNumber :=
  ∑ i ∈ Finset.range c.rootTableCount, (t.tables i).pages

theorem Pte.pages_table (page : PageNumber) (entries : PageTable level) :
    (Pte.table page entries).pages = {page} + entries.pages := rfl

theorem mmPopulateEntries_pages (bits : PteBits) : (mmPopulateEntries bits : PageTable level).pages = 0 :=
  Finset.sum_eq_zero fun _ _ => rfl

/-- Root tables without tables below. -/
theorem MmPtable.pages_of_leaves {t : MmPtable c} (leaves : ∀ i j, (t.tables i j).pages = 0) :
    t.pages = 0 := by
  refine Finset.sum_eq_zero fun i _ => ?_
  rw [PageTable.pages]
  exact Finset.sum_eq_zero fun j _ => leaves i j

section Frees

variable {ι : Type} {valid : ι → Mpool → Prop} {free : Mpool → Multiset PageNumber}

/-- Freeing the tables below an entry, for every account that freeing a page keeps. -/
theorem mmFreePagePte_balanced
    (frees : ∀ pool page, Balanced valid free pool (mpoolFree pool page) {page} 0) (e : Pte level)
    (pool : Mpool) : Balanced valid free pool (mmFreePagePte e pool) e.pages 0 := by
  induction e generalizing pool with
  | leaf bits => exact .refl pool 0
  | table page entries ih =>
    have below : Balanced valid free pool
        ((List.range mmPtePerPage).foldl (fun pool i => mmFreePagePte (entries i) pool) pool)
        (PageTable.pages entries) 0 := (Balanced.foldl (fun i _ pool => ih i pool) pool).cast rfl rfl
    exact ((below.frame {page}).cast (add_comm _ _) (zero_add _).symm).trans (frees _ page)

end Frees

theorem mmFreePagePte_moves (e : Pte level) (pool : Mpool) : pool.Moves (mmFreePagePte e pool) e.pages 0 :=
  mmFreePagePte_balanced mpoolFree_moves e pool

/-- Populating the table below an entry takes a page if there is no table yet. -/
theorem mmPopulateTablePte_moves {e : Pte (level + 1)}
    {nt : PageTable level} (populated : mmPopulateTablePte e pool = some (page, nt, pool')) :
    pool.Moves pool' e.pages ({page} + nt.pages) := by
  cases e with
  | leaf bits =>
    simp only [mmPopulateTablePte, Option.map_eq_some_iff, Prod.mk.injEq, Prod.exists] at populated
    obtain ⟨_, _, taken, rfl, rfl, rfl⟩ := populated
    rw [mmPopulateEntries_pages, add_zero]
    exact mpoolAlloc_moves taken
  | table page entries =>
    cases populated
    exact .refl pool _

section Map

variable {attrs : PteBits} {flags : MmFlags} {base : Nat}

theorem mmMapLevel_moves (range : EntryRange (level + 1) base begin_ end_)
    (entries : ∀ {base begin_ end_}, EntryRange level base begin_ end_ → ∀ e (pool : Mpool),
      pool.Moves (mmMapPte attrs flags level begin_ end_ begin_ e pool).state e.pages
        (mmMapPte attrs flags level begin_ end_ begin_ e pool).value.pages)
    (t : PageTable level) (pool : Mpool) :
    pool.Moves (mmMapLevel attrs flags level begin_ end_ begin_ t pool).state t.pages
      (mmMapLevel attrs flags level begin_ end_ begin_ t pool).value.pages := by
  refine (mmMapLevel_walk attrs flags range (Q := fun _ _ t' pool' => pool.Moves pool' t.pages
    t'.pages) t pool ?_ (.refl pool _)).elim fun _ moves => moves
  intro j b t' pool' jBound subRange _ same so_far
  exact so_far.trans (Balanced.update _ t' (Finset.mem_range.mpr jBound)
    (same ▸ entries subRange (t j) pool'))

/-- An entry that is replaced as a whole gives back the tables below it. -/
theorem whole_moves {e : Pte level} {r : Updated (Pte level)} {commit : Bool} {bits : PteBits}
    (value : r.value = if commit then .leaf bits else e)
    (state : r.state = if commit then mmFreePagePte e pool else pool) :
    pool.Moves r.state e.pages r.value.pages := by
  rw [value, state]
  cases commit
  · exact .refl pool _
  · exact mmFreePagePte_moves e pool

/-- The update of an entry. -/
theorem mmMapPte_moves (range : EntryRange level base begin_ end_) (e : Pte level) (pool : Mpool) :
    pool.Moves (mmMapPte attrs flags level begin_ end_ begin_ e pool).state e.pages
      (mmMapPte attrs flags level begin_ end_ begin_ e pool).value.pages := by
  induction level generalizing base begin_ end_ pool with
  | zero =>
    rcases mmMapPte_cases attrs flags range e pool with ⟨-, result⟩ | ⟨-, -, -, value, state⟩ | ⟨-, partly, -⟩
    · rw [result]
      exact .refl pool _
    · exact whole_moves value state
    · exact absurd (range.wholePage flags.unmap) partly
  | succ level ih =>
    rcases mmMapPte_cases attrs flags range e pool with ⟨-, result⟩ | ⟨-, -, -, value, state⟩ | ⟨-, -, result⟩
    · rw [result]
      exact .refl pool _
    · exact whole_moves value state
    · rw [result]
      simp only [mmDescend, mmMapBelow]
      cases populate : mmPopulateTablePte e pool with
      | none => exact .refl pool _
      | some populated =>
        obtain ⟨page, nt, pool'⟩ := populated
        have below := mmMapLevel_moves range (fun range e pool => ih range e pool) nt pool'
        exact (mmPopulateTablePte_moves populate).trans ((below.frame {page}).cast (add_comm _ _)
          (add_comm _ _))

theorem mmMapRoot_moves (range : RootRange c begin_ end_) (t : MmPtable c) (pool : Mpool) :
    pool.Moves (mmMapRoot t begin_ end_ attrs flags pool).state t.pages
      (mmMapRoot t begin_ end_ attrs flags pool).value.pages := by
  refine (mmMapRoot_walk flags range (Q := fun _ _ tables pool' => pool.Moves pool' t.pages
    ({ t with tables } : MmPtable c).pages) t pool ?_ (.refl pool _)).elim fun _ moves => moves
  intro i b tables pool' bound tableRange _ same so_far
  refine so_far.trans (Balanced.update _ tables (Finset.mem_range.mpr bound) ?_)
  rw [same]
  exact mmMapLevel_moves tableRange (fun range e pool => mmMapPte_moves range e pool) (t.tables i) pool'

end Map

/-! ## Defragmentation -/

section Defrag

variable {ι : Type} {valid : ι → Mpool → Prop} {free : Mpool → Multiset PageNumber}

/-- The rounds of the loop over the entries of a table. -/
theorem mmDefragStep_balanced {entries : PageTable level} {defrag : Nat → Mpool → Pte level × Mpool}
    (mergeable : Pte level → Bool)
    (each : ∀ j (pool : Mpool), Balanced valid free pool (defrag j pool).2 (entries j).pages
      (defrag j pool).1.pages)
    {indices : List Nat} (distinct : indices.Nodup) (bound : ∀ j ∈ indices, j < mmPtePerPage)
    (s : Updated (PageTable level)) (same : ∀ j ∈ indices, s.value j = entries j) :
    Balanced valid free s.state (indices.foldl (mmDefragStep defrag mergeable) s).state s.value.pages
      (indices.foldl (mmDefragStep defrag mergeable) s).value.pages := by
  induction indices generalizing s with
  | nil => exact .refl _ _
  | cons j rest ih =>
    rw [List.nodup_cons] at distinct
    rw [List.forall_mem_cons] at bound same
    have one : Balanced valid free s.state (mmDefragStep defrag mergeable s j).state s.value.pages
        (mmDefragStep defrag mergeable s j).value.pages :=
      Balanced.update Pte.pages s.value (Finset.mem_range.mpr bound.1)
        ((each j s.state).cast (congrArg Pte.pages same.1) rfl)
    refine one.trans (ih distinct.2 bound.2 _ fun i member => ?_)
    have other : i ≠ j := fun here => distinct.1 (here ▸ member)
    rw [mmDefragStep_of_ne _ _ _ other]
    exact same.2 i member

variable (frees : ∀ pool page, Balanced valid free pool (mpoolFree pool page) {page} 0)
  (features : ArchFeatures)
include frees

theorem mmPtableDefragEntry_balanced (e : Pte level) (pool : Mpool) :
    Balanced valid free pool (mmPtableDefragEntry features e pool).2 e.pages
      (mmPtableDefragEntry features e pool).1.pages := by
  induction e generalizing pool with
  | leaf bits => exact .refl pool _
  | table page entries ih =>
    -- The base entry is defragmented before the others.
    have base : Balanced valid free pool (mmPtableDefragEntry features (entries 0) pool).2
        (PageTable.pages entries)
        (PageTable.pages (update entries 0 (mmPtableDefragEntry features (entries 0) pool).1)) :=
      Balanced.update Pte.pages entries (Finset.mem_range.mpr (by decide)) (ih 0 pool)
    have others := mmDefragStep_balanced
      (mmEntryMergeable (archMmPteIsPresent (mmPtableDefragEntry features (entries 0) pool).1.bits)
        (archMmPteAttrs (mmPtableDefragEntry features (entries 0) pool).1.bits))
      (fun j pool => ih j pool) (List.nodup_range' (s := 1) (n := mmPtePerPage - 1))
      (fun j member => by
        have bounds := List.mem_range'_1.mp member
        omega)
      ⟨true, update entries 0 (mmPtableDefragEntry features (entries 0) pool).1,
        (mmPtableDefragEntry features (entries 0) pool).2⟩
      (fun j member => update_of_ne (Nat.one_le_iff_ne_zero.mp (List.mem_range'_1.mp member).1) _ _)
    have all : Balanced valid free pool (mmDefragEntries features entries pool).state
        ({page} + PageTable.pages entries)
        ({page} + (mmDefragEntries features entries pool).value.pages) :=
      ((base.trans others).frame {page}).cast (add_comm _ _) (add_comm _ _)
    rw [mmPtableDefragEntry_table, Pte.pages_table]
    generalize mmDefragEntries features entries pool = r at all ⊢
    dsimp only
    split
    · next merged =>
      obtain ⟨bits, leaf⟩ := mmMergeTablePte_leaf features merged.2
      have freed := mmFreePagePte_balanced frees (.table page r.value) r.state
      dsimp only
      rw [leaf]
      exact all.trans freed
    · exact all

/-- Defragmenting a root table. -/
theorem mmDefragTable_balanced (t : PageTable level) (pool : Mpool) :
    Balanced valid free pool (mmDefragTable features t pool).state t.pages
      (mmDefragTable features t pool).value.pages :=
  mmDefragStep_balanced _ (fun j pool => mmPtableDefragEntry_balanced frees features (t j) pool)
    List.nodup_range (fun _ member => List.mem_range.mp member) ⟨true, t, pool⟩ fun _ _ => rfl

theorem mmPtableDefrag_balanced (t : MmPtable c) (pool : Mpool) :
    Balanced valid free pool (mmPtableDefrag features t pool).2 t.pages
      (mmPtableDefrag features t pool).1.pages := by
  refine Balanced.rounds Step.state (fun s : Updated _ =>
    ∑ i ∈ Finset.range c.rootTableCount, (s.value i).pages) (fun i member s => ?_) ⟨true, t.tables, pool⟩
  have one := mmDefragTable_balanced frees features (s.value i) s.state
  dsimp only
  exact Balanced.update PageTable.pages s.value (Finset.mem_range.mpr (List.mem_range.mp member)) one

end Defrag

theorem mmPtableDefrag_moves (features : ArchFeatures) (t : MmPtable c) (pool : Mpool) :
    pool.Moves (mmPtableDefrag features t pool).2 t.pages (mmPtableDefrag features t pool).1.pages :=
  mmPtableDefrag_balanced mpoolFree_moves features t pool

/-! ## The interface -/

section Interface

variable {m : MmConfig} {stage : Stage}

theorem mmPtableIdentityMap_moves (t : MmPtable c) (paBegin paEnd : Nat) (attrs : PteBits)
    (flags : MmFlags) (pool : Mpool) :
    pool.Moves (mmPtableIdentityMap t paBegin paEnd attrs flags pool).state t.pages
      (mmPtableIdentityMap t paBegin paEnd attrs flags pool).value.pages :=
  mmMapRoot_moves (rootRange_map c paBegin paEnd) t pool

theorem stageIdentityPrepare_moves (t : MmPtable (m.levels stage)) (begin_ end_ : Nat) (mode : Mode)
    (pool : Mpool) :
    pool.Moves (stageIdentityPrepare t begin_ end_ mode pool).state t.pages
      (stageIdentityPrepare t begin_ end_ mode pool).value.pages :=
  mmPtableIdentityMap_moves t begin_ end_ _ _ pool

variable {t : MmPtable (m.levels stage)} {mode : Mode}

theorem stageIdentityCommit_moves {t' : MmPtable (m.levels stage)}
    (success : stageIdentityCommit t begin_ end_ mode pool = some (t', pool')) :
    pool.Moves pool' t.pages t'.pages := by
  have moves := mmPtableIdentityMap_moves t begin_ end_ (m.modeToAttrs stage mode)
    ⟨true, mmModeToFlags mode⟩ pool
  rw [mmPtableIdentityCommit_some success] at moves
  exact moves

theorem stageIdentityMap_moves
    {r : Updated (MmPtable (m.levels stage))} (ran : stageIdentityMap t begin_ end_ mode pool = some r) :
    pool.Moves r.state t.pages r.value.pages := by
  have prepare := stageIdentityPrepare_moves t begin_ end_ mode pool
  simp only [stageIdentityMap, mmPtableIdentityUpdate] at ran
  split at ran
  · rw [Option.map_eq_some_iff] at ran
    obtain ⟨⟨t', pool'⟩, commit, rfl⟩ := ran
    exact prepare.trans (stageIdentityCommit_moves commit)
  · cases ran
    exact prepare

end Interface

-- Nothing outside needs to look into the tables, and unfolding their 512 entries is expensive.
attribute [irreducible] PageTable.pages MmPtable.pages

end Hafnium.Mm
