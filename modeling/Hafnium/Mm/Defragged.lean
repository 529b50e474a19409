import Hafnium.Mm.Pages

/-! # What defragmentation leaves

A defragmented table is compact, which means that no table below the root could be replaced by a
single entry, and defragmenting it again changes neither the table nor the pool.
-/

namespace Hafnium.Mm

open Function

variable {level j : Nat} {defrag : Nat → Mpool → Pte level × Mpool} {c : StageConfig} {t : PageTable level}

/-! ## Defragmenting again -/

section Again

variable {features : ArchFeatures}

theorem mmDefragStep_foldl_fixed {indices : List Nat}
    (fixed : ∀ j ∈ indices, ∀ pool, defrag j pool = (t j, pool)) (mergeable : Pte level → Bool)
    (ok : Bool) (pool : Mpool) :
    indices.foldl (mmDefragStep defrag mergeable) ⟨ok, t, pool⟩ =
      ⟨ok && indices.all fun j => mergeable (t j), t, pool⟩ := by
  induction indices generalizing ok with
  | nil => simp
  | cons i rest ih =>
    rw [List.forall_mem_cons] at fixed
    have step : mmDefragStep defrag mergeable ⟨ok, t, pool⟩ i = ⟨ok && mergeable (t i), t, pool⟩ := by
      simp only [mmDefragStep, fixed.1, update_eq_self]
    rw [List.foldl_cons, step, ih fixed.2, List.all_cons, Bool.and_assoc]

theorem mmDefragEntries_fixed (t : PageTable level)
    (fixed : ∀ j < mmPtePerPage, ∀ pool, mmPtableDefragEntry features (t j) pool = (t j, pool))
    (pool : Mpool) : mmDefragEntries features t pool = ⟨t.mergeable, t, pool⟩ := by
  rw [mmDefragEntries, fixed 0 (by decide)]
  rw [update_eq_self, mmDefragStep_foldl_fixed
    (fun j member => fixed j (mem_entries_iff.mp member).2), Bool.true_and, PageTable.mergeable]

/-- A defragmented entry is left alone, and so is the pool. -/
theorem mmPtableDefragEntry_defragged (e : Pte level) (pool : Mpool) :
    mmPtableDefragEntry features (e.defragged features) pool = (e.defragged features, pool) := by
  induction e generalizing pool with
  | leaf bits => rfl
  | table page entries ih =>
    rw [Pte.defragged]
    split
    · next merged =>
      obtain ⟨bits, leaf⟩ := mmMergeTablePte_leaf features merged.2
      rw [leaf]
      rfl
    · next kept =>
      have again := mmDefragEntries_fixed
        (PageTable.mapEntries (fun j => (entries j).defragged features) entries)
        (fun j bound pool => by
          rw [PageTable.mapEntries_of_lt _ _ bound]
          exact ih j pool) pool
      rw [mmPtableDefragEntry_table, again]
      rw [if_neg kept]

theorem mmPtableDefrag_defragged (t : MmPtable c) (pool : Mpool) :
    mmPtableDefrag features (t.defragged features) pool = (t.defragged features, pool) := by
  have table (i : Nat) (bound : i < c.rootTableCount) (pool : Mpool) :
      mmDefragTable features ((t.defragged features).tables i)
        pool = ⟨true, (t.defragged features).tables i, pool⟩ := by
    have here : (t.defragged features).tables i = (t.tables i).defragged features := if_pos bound
    rw [here, mmDefragTable, mmDefragStep_foldl_fixed (fun j member pool => by
      rw [PageTable.defragged, PageTable.mapEntries_of_lt _ _ (List.mem_range.mp member)]
      exact mmPtableDefragEntry_defragged (t.tables i j) pool)]
    simp
  have rounds (indices : List Nat) (bound : ∀ i ∈ indices, i < c.rootTableCount) :
      (indices.foldl (fun (s : Updated (Nat → PageTable c.maxLevel)) i =>
        let d := mmDefragTable features (s.value i) s.state
        ⟨true, update s.value i d.value, d.state⟩) ⟨true, (t.defragged features).tables, pool⟩) =
      ⟨true, (t.defragged features).tables, pool⟩ := by
    induction indices with
    | nil => rfl
    | cons i rest ih =>
      rw [List.forall_mem_cons] at bound
      rw [List.foldl_cons, table i bound.1]
      dsimp only
      rw [update_eq_self]
      exact ih bound.2
  rw [mmPtableDefrag]
  rw [rounds _ fun _ member => List.mem_range.mp member]

end Again

/-! ## No table is left to merge -/

def PageTable.AllAbsent {level : Nat} (t : PageTable level) : Prop :=
  ∀ j < mmPtePerPage, archMmPteIsPresent (t j).bits = false

def PageTable.AllBlocks {level : Nat} (t : PageTable level) (attrs : PteBits) : Prop :=
  ∀ j < mmPtePerPage, archMmPteIsBlock (t j).bits level = true ∧ archMmPteAttrs (t j).bits = attrs

/-- No table from this entry down has only absent entries, nor only blocks of the same attributes
where a single block could stand for them. -/
def Pte.Compact : {level : Nat} → Pte level → Prop
  | _, .leaf _ => True
  | level + 1, .table _ entries =>
    (∀ j < mmPtePerPage, (entries j).Compact) ∧ ¬PageTable.AllAbsent entries ∧
      (archMmIsBlockAllowed (level + 1) = true → ∀ attrs, ¬PageTable.AllBlocks entries attrs)

section Compact

variable (features : ArchFeatures) {base : Nat}

theorem PageTable.AllAbsent.merges (absent : t.AllAbsent) (page : PageNumber) :
    t.mergeable = true ∧ (mmMergeTablePte features page t).bits ≠ (Pte.table page t).bits := by
  have first := absent 0 (by decide)
  refine ⟨?_, ?_⟩
  · rw [PageTable.mergeable, List.all_eq_true]
    intro j member
    rw [first, mmEntryMergeable, absent j (mem_entries_iff.mp member).2]
    rfl
  · rw [mmMergeTablePte, first]
    intro same
    have present := congrArg archMmPteIsPresent same
    simp [Pte.bits] at present

theorem PageTable.AllBlocks.merges {attrs : PteBits} (blocks : t.AllBlocks attrs)
    (allowed : archMmIsBlockAllowed (level + 1) = true) (wf : t.WellFormed base)
    (aligned : base % mmEntrySize (level + 1) = 0) (bound : base + mmEntrySize (level + 1) ≤ 2 ^ 48)
    (page : PageNumber) :
    t.mergeable = true ∧ (mmMergeTablePte features page t).bits ≠ (Pte.table page t).bits := by
  -- In a well-formed table a block is present and has the attributes of a block.
  have entry (j : Nat) (jBound : j < mmPtePerPage) :
      BlockAttrs attrs ∧ archMmPteIsPresent (t j).bits = true ∧
        archMmBlockFromPte (t j).bits = base + j * mmEntrySize level := by
    have fits := entry_end_le level base jBound
    obtain ⟨isBlock, read⟩ := blocks j jBound
    rcases entry_cases (wf j jBound) (entry_aligned aligned j) (by omega) with
      absent | ⟨attrs', attrsOk, -, read', present, start⟩ | ⟨-, -, notBlock⟩
    · rw [absent, Pte.bits, archMmPteIsBlock_absent] at isBlock
      cases isBlock
    · rw [← read, read']
      exact ⟨attrsOk, present, start⟩
    · rw [notBlock] at isBlock
      cases isBlock
  obtain ⟨attrsOk, present, start⟩ := entry 0 (by decide)
  rw [Nat.zero_mul, Nat.add_zero] at start
  have positive := mmEntrySize_pos (level + 1)
  refine ⟨?_, ?_⟩
  · rw [PageTable.mergeable, List.all_eq_true]
    intro j member
    have jBound := (mem_entries_iff.mp member).2
    rw [present, (blocks 0 (by decide)).2, mmEntryMergeable, (entry j jBound).2.1,
      (blocks j jBound).1, (blocks j jBound).2]
    simp
  · have tableAttrs : archMmPteAttrs (Pte.table page t).bits = pteValid :=
      archMmPteAttrs_archMmTablePte (Nat.mul_mod_left ..) (by simp only [pageSize]; omega)
    rw [mmMergeTablePte, present, allowed]
    simp only [Bool.not_true, Bool.false_eq_true, if_false]
    rw [tableAttrs, archMmCombineTableEntryAttrs_pteValid, (blocks 0 (by decide)).2, start]
    intro same
    have isBlock := congrArg (archMmPteIsBlock · (level + 1)) same
    simp only [Pte.bits, archMmPteIsBlock_archMmTablePte,
      archMmPteIsBlock_archMmBlockPte (page_of_aligned aligned) (by omega) attrsOk, allowed] at isBlock
    cases isBlock

theorem Pte.defragged_compact (e : Pte level) (wf : e.WellFormed base)
    (aligned : base % mmEntrySize level = 0) (bound : base + mmEntrySize level ≤ 2 ^ 48) :
    (e.defragged features).Compact := by
  induction e generalizing base with
  | leaf bits => exact trivial
  | @table level page entries ih =>
    have fits (j : Nat) (jBound : j < mmPtePerPage) := entry_end_le level base jBound
    have newWf : PageTable.WellFormed (PageTable.mapEntries
        (fun j => (entries j).defragged features) entries) base := by
      intro j jBound
      have below := fits j jBound
      rw [PageTable.mapEntries_of_lt _ _ jBound]
      exact ((entries j).defragged_same features (wf j jBound) (entry_aligned aligned j)
        (by omega)).wellFormed
    rw [Pte.defragged]
    split
    · next merged =>
      obtain ⟨bits, leaf⟩ := mmMergeTablePte_leaf features merged.2
      rw [leaf]
      exact trivial
    · next kept =>
      refine ⟨fun j jBound => ?_, fun absent => kept (absent.merges features page),
        fun allowed attrs blocks => kept (blocks.merges features allowed newWf aligned bound page)⟩
      have below := fits j jBound
      rw [PageTable.mapEntries_of_lt _ _ jBound]
      exact ih j (wf j jBound) (entry_aligned aligned j) (by omega)

end Compact

/-- The tables that defragmentation leaves are some of those that were there. -/
theorem MmPtable.defragged_pages (features : ArchFeatures) (t : MmPtable c) :
    ∃ freed, t.pages = (t.defragged features).pages + freed := by
  obtain ⟨-, balance⟩ := mmPtableDefrag_moves features t [{}] 0 ⟨rfl, by simp⟩
  rw [mmPtableDefrag_fst, add_comm _ (MmPtable.pages (t.defragged _))] at balance
  exact ⟨_, (zero_add _).symm.trans balance⟩

/-! ## Tables built by identity mappings -/

/-- The tables of any shape that preparing, committing and defragmenting make of empty ones, with any
pool at any step. Mapping and unmapping a range prepare it and commit it if that succeeded. -/
inductive MmPtable.Built (m : MmConfig) (stage : Stage) {c : StageConfig} : MmPtable c → Prop
  | init (root : PageNumber) : MmPtable.Built m stage ⟨root, fun _ _ => .leaf archMmAbsentPte⟩
  | prepare {t : MmPtable c} (begin_ end_ : Nat) (mode : Mode) (pool : Mpool)
      (before : MmPtable.Built m stage t) :
      MmPtable.Built m stage
        (mmPtableIdentityPrepare t begin_ end_ (m.modeToAttrs stage mode) (mmModeToFlags mode) pool).value
  | commit {t t' : MmPtable c} {begin_ end_ : Nat} {mode : Mode} {pool pool' : Mpool}
      (before : MmPtable.Built m stage t)
      (returned : mmPtableIdentityCommit t begin_ end_ (m.modeToAttrs stage mode)
        (mmModeToFlags mode) pool = some (t', pool')) :
      MmPtable.Built m stage t'
  | defrag {t : MmPtable c} (pool : Mpool) (before : MmPtable.Built m stage t) :
      MmPtable.Built m stage (mmPtableDefrag m.features t pool).1

section Built

variable {m : MmConfig} {stage : Stage}

theorem MmPtable.Built.wellFormed {t : MmPtable c} (built : t.Built m stage) : t.WellFormed := by
  induction built with
  | init root => exact fun _ _ _ _ => LeafFor.absent
  | prepare begin_ end_ mode pool before ih =>
    exact mmPtableIdentityPrepare_wellFormed (attrsFor_modeToAttrs m stage mode) ih
  | commit before ran ih => exact mmPtableIdentityCommit_wellFormed (attrsFor_modeToAttrs m stage _) ih ran
  | defrag pool before ih => exact mmPtableDefrag_wellFormed m.features _ pool ih

/-- Mapping a range in any mode, unmapped ones included. -/
theorem MmPtable.Built.update {t : MmPtable c} (built : t.Built m stage) {begin_ end_ : Nat}
    {mode : Mode} {pool : Mpool} {r : Updated (MmPtable c)}
    (ran : mmPtableIdentityUpdate t begin_ end_ (m.modeToAttrs stage mode) (mmModeToFlags mode)
      pool = some r) :
    r.value.Built m stage := by
  simp only [mmPtableIdentityUpdate] at ran
  split at ran
  · rw [Option.map_eq_some_iff] at ran
    obtain ⟨⟨t', pool'⟩, commit, rfl⟩ := ran
    exact .commit (.prepare begin_ end_ mode pool built) commit
  · cases ran
    exact .prepare begin_ end_ mode pool built

/-- What defragmenting `t` with `pool` promises of the table and the pool it returns. -/
structure Defragments (m : MmConfig) (t : MmPtable c) (pool : Mpool) (t' : MmPtable c)
    (pool' : Mpool) : Prop where
  translation : ∀ addr < mmPtableAddrSpaceEnd c, t'.lookup addr = t.lookup addr
  attributes : ∀ addr < mmPtableAddrSpaceEnd c, t'.attrsAt addr = t.attrsAt addr
  /-- The tables that are left were there before, and the pool gets exactly the other ones. -/
  pages : ∃ freed, t.pages = t'.pages + freed ∧ pool'.pages = pool.pages + freed
  idempotent : ∀ pool : Mpool, mmPtableDefrag m.features t' pool = (t', pool)
  compact : ∀ i < c.rootTableCount, ∀ j < mmPtePerPage, (t'.tables i j).Compact

theorem mmPtableDefrag_defragments {t : MmPtable c} (built : t.Built m stage) {n : Nat}
    {pool : Mpool} (sound : pool.Sound n) :
    Defragments m t pool (mmPtableDefrag m.features t pool).1 (mmPtableDefrag m.features t pool).2 := by
  have wf := built.wellFormed
  have wf' := mmPtableDefrag_wellFormed m.features t pool wf
  have same := mmPtableDefrag_sameAttrs m.features t pool wf
  obtain ⟨-, balance⟩ := mmPtableDefrag_moves m.features t pool n sound
  have value := mmPtableDefrag_fst m.features t pool
  obtain ⟨freed, parts⟩ := t.defragged_pages m.features
  rw [← value] at parts
  refine ⟨fun addr inside => ?_, same, ⟨freed, parts, ?_⟩, fun pool' => ?_, fun i iBound j jBound => ?_⟩
  · rw [MmPtable.lookup_eq wf' inside, MmPtable.lookup_eq wf inside, same addr inside]
  · rw [parts, add_left_comm, add_comm] at balance
    exact (add_right_cancel balance).symm
  · rw [value]
    exact mmPtableDefrag_defragged t pool'
  · have here : (t.defragged m.features).tables i = (t.tables i).defragged m.features := if_pos iBound
    rw [value, here, PageTable.defragged, PageTable.mapEntries_of_lt _ _ jBound]
    exact Pte.defragged_compact m.features _ (wf i iBound j jBound) (entry_aligned (Nat.mul_mod_left ..) j)
      ((root_entry_end_le iBound jBound).trans c.space_le)

/-- A range that was prepared and never committed leaves a table of absent entries, whose page goes
back to the pool. -/
theorem mmPtableDefrag_defragments_prepared :
    let m := smallConfig
    let t : VmPtable m := (stageIdentityPrepare ⟨0, fun _ _ => .leaf archMmAbsentPte⟩
      0x1000 0x2000 mmModeR [⟨[5, 6], []⟩]).value
    (mmPtableDefrag m.features t [{}]).2 = [⟨[5], []⟩] ∧
      Defragments m t [{}] (mmPtableDefrag m.features t [{}]).1 (mmPtableDefrag m.features t [{}]).2 := by
  intro m t
  have built : t.Built m .stage2 := .prepare 0x1000 0x2000 mmModeR [⟨[5, 6], []⟩] (.init 0)
  have sound : Mpool.Sound 0 [{}] := ⟨rfl, by simp⟩
  exact ⟨by decide +kernel, mmPtableDefrag_defragments built sound⟩

end Built

end Hafnium.Mm
