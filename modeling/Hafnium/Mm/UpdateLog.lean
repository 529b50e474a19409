import Hafnium.Mm.ModeQuery

/-! # Updates with a log

What other processors see of an update: the descriptors stored by `mm_replace_entry` and the TLB
invalidations it asks for. The functions of this module are those of `Map`, `OnePage` and `Defrag` with
a log of the replacements; forgetting the log gives them back.
-/

namespace Hafnium.Mm

open BlockWalk Function

/-- A store into an entry, or a call of `mm_invalidate_tlb`. -/
inductive MmuEvent
  | write (bits : PteBits)
  | invalidate (stage : Stage) (id : BitVec 16) (begin_ end_ : Nat)
deriving DecidableEq

/-- The replacement of an entry, with the address that the entry starts at. -/
structure Replacement where
  level : Nat
  base : Nat
  old : PteBits
  new : PteBits
  events : List MmuEvent

/-- The stage and identifier of a table, and whether stage-2 tables are invalidated yet. -/
structure TlbContext where
  stage : Stage
  stage2Invalidate : Bool
  id : BitVec 16

def TlbContext.enabled (x : TlbContext) : Bool := decide (x.stage = .stage1) || x.stage2Invalidate

/-- A pool, and the replacements done so far. -/
structure Logged where
  pool : Mpool
  log : List Replacement

namespace Logged

def replacement (x : TlbContext) {level : Nat} (base begin_ : Nat) (pte newPte : Pte level) :
    Replacement where
  level := level
  base := base
  old := pte.bits
  new := newPte.bits
  events :=
    (if x.enabled && archMmPteIsValid pte.bits then
      [.write archMmAbsentPte, .invalidate x.stage x.id begin_ (begin_ + mmEntrySize level)] else
        []) ++ [.write newPte.bits]

def mmReplaceEntry (x : TlbContext) {level : Nat} (base begin_ : Nat) (pte newPte : Pte level)
    (s : Logged) : Pte level × Logged :=
  (newPte, ⟨mmFreePagePte pte s.pool, s.log ++ [replacement x base begin_ pte newPte]⟩)

/-- Where the entry that `mm_index` selects for an address starts. -/
def entryBase (level addr : Nat) : Nat := addr / mmEntrySize level * mmEntrySize level

def mmPopulateTablePte (x : TlbContext) {level : Nat} (begin_ : Nat) (pte : Pte (level + 1)) (s : Logged) :
    Option (PageNumber × PageTable level × Logged) :=
  match pte with
  | .table page entries => some (page, entries, s)
  | .leaf bits => (mpoolAlloc s.pool).map fun (page, pool) =>
    let ntable : PageTable level := mmPopulateEntries bits
    (page, ntable, (mmReplaceEntry x (entryBase (level + 1) begin_) begin_ (.leaf bits)
      (.table page ntable) ⟨pool, s.log⟩).2)

section Range

variable (x : TlbContext) (attrs : PteBits) (flags : MmFlags)

def mmMapEntry {level : Nat} (descend : Pte level → Logged → Step Logged (Pte level))
    (begin_ end_ pa : Nat) (pte : Pte level) (s : Logged) : Step Logged (Pte level) :=
  if mmEntryDone attrs flags.unmap pte then ⟨true, pte, s⟩
  else if end_ - begin_ ≥ mmEntrySize level ∧ (flags.unmap ∨ archMmIsBlockAllowed level) ∧
      begin_ % mmEntrySize level = 0 then
    if flags.commit then
      let (pte, s) := mmReplaceEntry x (entryBase level begin_)
        begin_ pte (.leaf (mmNewPte level attrs flags.unmap pa)) s
      ⟨true, pte, s⟩
    else ⟨true, pte, s⟩
  else descend pte s

def mmMapBelow {level : Nat} (mapBelow : PageTable level → Logged → Step Logged (PageTable level))
    (begin_ : Nat) (pte : Pte (level + 1)) (s : Logged) : Step Logged (Pte (level + 1)) :=
  match mmPopulateTablePte x begin_ pte s with
  | none => ⟨false, pte, s⟩
  | some (page, nt, s) =>
    let r := mapBelow nt s
    ⟨r.ok, .table page r.value, r.state⟩

def mmMapEntries {level : Nat}
    (mapPte : Nat → Nat → Nat → Pte level → Logged → Step Logged (Pte level)) (begin_ end_ pa : Nat)
    (t : PageTable level) (s : Logged) : Step Logged (PageTable level) :=
  let end_ := min end_ (mmLevelEnd begin_ level)
  walk (mmEntrySize level) (fun begin_ pa => mapPte begin_ end_ pa)
    end_ mmPtePerPage begin_ pa (mmIndex begin_ level) t s

/-- The loop body of `mm_map_level`. -/
def mmMapPte : (level begin_ end_ pa : Nat) → Pte level → Logged → Step Logged (Pte level)
  | 0, begin_, end_, pa, pte, s =>
    mmMapEntry x attrs flags (fun pte s => ⟨false, pte, s⟩) begin_ end_ pa pte s
  | level + 1, begin_, end_, pa, pte, s =>
    mmMapEntry x attrs flags (mmMapBelow x (mmMapEntries (mmMapPte level) begin_ end_ pa) begin_)
      begin_ end_ pa pte s

def mmMapLevel (level begin_ end_ pa : Nat) (t : PageTable level) (s : Logged) :
    Step Logged (PageTable level) :=
  mmMapEntries (mmMapPte x attrs flags level) begin_ end_ pa t s

def mmPtableIdentityMap {c : StageConfig} (t : MmPtable c) (paBegin paEnd : Nat) (s : Logged) :
    Step Logged (MmPtable c) :=
  let begin_ := mmMapBegin paBegin
  let end_ := mmMapEnd c paEnd
  let r := walk (mmEntrySize (c.maxLevel + 1))
    (fun begin_ _ => mmMapLevel x attrs flags c.maxLevel begin_ end_ begin_) end_
    c.rootTableCount begin_ begin_ (mmIndex begin_ (c.maxLevel + 1)) t.tables s
  ⟨r.ok, { t with tables := r.value }, r.state⟩

end Range

/-- The preparation, and if it succeeds the commitment, of which the failed `CHECK` is `none`. -/
def mmPtableIdentityUpdate (x : TlbContext) (attrs : PteBits) (unmap : Bool) {c : StageConfig}
    (t : MmPtable c) (paBegin paEnd : Nat) (s : Logged) : Option (Step Logged (MmPtable c)) :=
  let r := mmPtableIdentityMap x attrs ⟨false, unmap⟩ t paBegin paEnd s
  if r.ok then
    let r := mmPtableIdentityMap x attrs ⟨true, unmap⟩ r.value paBegin paEnd r.state
    if r.ok then some r else none
  else some r

section OnePage

variable (x : TlbContext) (attrs : PteBits) (flags : MmFlags)

def mmMapEntryOnePage {level : Nat}
    (descend : Pte level → Logged → Option (Step Logged (Pte level))) (va pa : Nat)
    (pte : Pte level) (s : Logged) : Option (Step Logged (Pte level)) :=
  if mmOnePageDone attrs flags.unmap pa pte then some ⟨true, pte, s⟩
  else if pageSize ≥ mmEntrySize level ∧ (flags.unmap ∨ archMmIsBlockAllowed level) ∧
    va % mmEntrySize level = 0 then
    if flags.commit then
      let (pte, s) := mmReplaceEntry x (entryBase level va)
        va pte (.leaf (mmNewPte level attrs flags.unmap pa)) s
      some ⟨true, pte, s⟩
    else some ⟨true, pte, s⟩
  else descend pte s

def mmMapTableOnePage {level : Nat}
    (mapEntry : Pte level → Logged → Option (Step Logged (Pte level))) (va : Nat)
    (t : PageTable level) (s : Logged) : Option (Step Logged (PageTable level)) :=
  if va + pageSize ≤ mmLevelEnd va level then
    (mapEntry (t (mmIndex va level)) s).map fun r => ⟨r.ok, update t (mmIndex va level) r.value, r.state⟩
  else none

def mmMapBelowOnePage {level : Nat}
    (mapBelow : PageTable level → Logged → Option (Step Logged (PageTable level))) (va : Nat)
    (pte : Pte (level + 1)) (s : Logged) : Option (Step Logged (Pte (level + 1))) :=
  match mmPopulateTablePte x va pte s with
  | none => some ⟨false, pte, s⟩
  | some (page, nt, s) => (mapBelow nt s).map fun r => ⟨r.ok, .table page r.value, r.state⟩

def mmMapPteOnePage : (level va pa : Nat) → Pte level → Logged → Option (Step Logged (Pte level))
  | 0, va, pa, pte, s => mmMapEntryOnePage x attrs flags (fun pte s => some ⟨false, pte, s⟩) va pa pte s
  | level + 1, va, pa, pte, s =>
    mmMapEntryOnePage x attrs flags (mmMapBelowOnePage x
      (mmMapTableOnePage (mmMapPteOnePage level va pa) va) va) va pa pte s

def mmMapRootOnePage {c : StageConfig} (t : MmPtable c) (va pa : Nat) (s : Logged) :
    Option (Step Logged (MmPtable c)) :=
  (mmMapTableOnePage (mmMapPteOnePage x attrs flags c.maxLevel va pa)
    va (t.tables (mmIndex va (c.maxLevel + 1))) s).map fun r =>
    ⟨r.ok, { t with tables := update t.tables (mmIndex va (c.maxLevel + 1)) r.value }, r.state⟩

def mmPtableMapOnePage {c : StageConfig} (t : MmPtable c) (va pa : Nat) (s : Logged) :
    Option (Step Logged (MmPtable c)) :=
  if archMmClearPa va + pageSize > mmPtableAddrSpaceEnd c then some ⟨false, t, s⟩
  else mmMapRootOnePage x attrs flags t (archMmClearPa va) (archMmClearPa pa) s

end OnePage

section Defrag

variable (x : TlbContext) (features : ArchFeatures)

def mmDefragStep {level : Nat} (defrag : Nat → Logged → Pte level × Logged) (mergeable : Pte level → Bool)
    (s : Step Logged (PageTable level)) (j : Nat) : Step Logged (PageTable level) :=
  let d := defrag j s.state
  ⟨s.ok && mergeable d.1, update s.value j d.1, d.2⟩

/-- The entry starts at `base`, `mm_ptable_defrag_entry` is told that it starts at `baseAddr`. -/
def mmPtableDefragEntry : {level : Nat} → (base baseAddr : Nat) → Pte level → Logged → Pte level × Logged
  | _, _, _, .leaf bits, s => (.leaf bits, s)
  | level + 1, base, baseAddr, .table page entries, s =>
    let first := mmPtableDefragEntry base baseAddr (entries 0) s
    let r := (List.range' 1 (mmPtePerPage - 1)).foldl
      (mmDefragStep (fun j => mmPtableDefragEntry (base + j * mmEntrySize level)
        (baseAddr + j * mmEntrySize level) (entries j))
        (mmEntryMergeable (archMmPteIsPresent first.1.bits) (archMmPteAttrs first.1.bits)))
      ⟨true, update entries 0 first.1, first.2⟩
    if r.ok then
      let newEntry := mmMergeTablePte features page r.value
      if newEntry.bits ≠ (Pte.table page r.value).bits then
        mmReplaceEntry x base baseAddr (.table page r.value) newEntry r.state
      else (.table page r.value, r.state)
    else (.table page r.value, r.state)

/-- The address that `mm_ptable_defrag` counts up to for the entry with the given number. -/
def defragBlockAddr (level n : Nat) : Nat := (nextBlock · (mmEntrySize level))^[n] 0

/-- Defragments root table `i`. -/
def mmDefragTable {level : Nat} (i : Nat) (t : PageTable level) (s : Logged) :
    Step Logged (PageTable level) :=
  (List.range mmPtePerPage).foldl
    (mmDefragStep (fun j => mmPtableDefragEntry x features (i * mmEntrySize (level + 1) +
      j * mmEntrySize level)
      (defragBlockAddr level (i * mmPtePerPage + j)) (t j)) (fun _ => true)) ⟨true, t, s⟩

def mmPtableDefrag {c : StageConfig} (t : MmPtable c) (s : Logged) : MmPtable c × Logged :=
  let r := (List.range c.rootTableCount).foldl (fun (s : Step Logged (Nat → PageTable c.maxLevel)) i =>
    let d := mmDefragTable x features i (s.value i) s.state
    ⟨true, update s.value i d.value, d.state⟩) ⟨true, t.tables, s⟩
  ({ t with tables := r.value }, r.state)

end Defrag

/-! ## Forgetting the log -/

section Erasure

variable (x : TlbContext) (attrs : PteBits) (flags : MmFlags) {level : Nat} {c : StageConfig}
  (begin_ : Nat) (t : MmPtable c) (features : ArchFeatures)

theorem mmPopulateTablePte_pool (pte : Pte (level + 1)) (s : Logged) :
    (mmPopulateTablePte x begin_ pte s).map (fun (page, nt, s) => (page, nt, s.pool)) =
      Mm.mmPopulateTablePte pte s.pool := by
  cases pte with
  | leaf bits =>
    rw [mmPopulateTablePte, Mm.mmPopulateTablePte, Option.map_map]
    rfl
  | table page entries => rfl

theorem mmMapEntry_pool {descend : Pte level → Logged → Step Logged (Pte level)}
    {descend' : Pte level → Mpool → Updated (Pte level)}
    (same : ∀ pte s, (descend pte s).map Logged.pool = descend' pte s.pool) (begin_ end_ pa : Nat)
    (pte : Pte level) (s : Logged) :
    (mmMapEntry x attrs flags descend begin_ end_ pa pte s).map Logged.pool =
      Mm.mmMapEntry descend' attrs flags begin_ end_ pa pte s.pool := by
  rw [mmMapEntry, Mm.mmMapEntry]
  split
  · rfl
  · split
    · split <;> rfl
    · exact same pte s

theorem mmMapBelow_pool {mapBelow : PageTable level → Logged → Step Logged (PageTable level)}
    {mapBelow' : PageTable level → Mpool → Updated (PageTable level)}
    (same : ∀ t s, (mapBelow t s).map Logged.pool = mapBelow' t s.pool) (begin_ : Nat)
    (pte : Pte (level + 1)) (s : Logged) :
    (mmMapBelow x mapBelow begin_ pte s).map Logged.pool = Mm.mmMapBelow mapBelow' pte s.pool := by
  rw [mmMapBelow, Mm.mmMapBelow, ← mmPopulateTablePte_pool x begin_ pte s]
  cases mmPopulateTablePte x begin_ pte s with
  | none => rfl
  | some populated =>
    obtain ⟨page, nt, s⟩ := populated
    simp only [Option.map_some, ← same nt s]
    rfl

theorem mmMapEntries_pool {mapPte : Nat → Nat → Nat → Pte level → Logged → Step Logged (Pte level)}
    (same : ∀ begin_ end_ pa pte s, (mapPte begin_ end_ pa pte s).map Logged.pool =
      Mm.mmMapPte attrs flags level begin_ end_ pa pte s.pool) (begin_ end_ pa : Nat)
    (t : PageTable level) (s : Logged) :
    (mmMapEntries mapPte begin_ end_ pa t s).map Logged.pool = Mm.mmMapLevel attrs flags level
      begin_ end_ pa t s.pool := by
  rw [Mm.mmMapLevel_eq, mmMapEntries]
  exact walk_map Logged.pool (fun begin_ pa pte s => same begin_ _ pa pte s) ..

theorem mmMapPte_pool (end_ pa : Nat) (pte : Pte level) (s : Logged) :
    (mmMapPte x attrs flags level begin_ end_ pa pte s).map Logged.pool =
      Mm.mmMapPte attrs flags level begin_ end_ pa pte s.pool := by
  induction level generalizing begin_ end_ pa s with
  | zero => exact mmMapEntry_pool x attrs flags (fun _ _ => rfl) ..
  | succ level ih =>
    refine mmMapEntry_pool x attrs flags (fun pte s => ?_) ..
    refine mmMapBelow_pool x (fun t s => ?_) ..
    exact mmMapEntries_pool attrs flags (fun begin_ end_ pa pte s => ih begin_ end_ pa pte s) ..

theorem mmMapLevel_pool (end_ pa : Nat) (t : PageTable level) (s : Logged) :
    (mmMapLevel x attrs flags level begin_ end_ pa t s).map Logged.pool =
      Mm.mmMapLevel attrs flags level begin_ end_ pa t s.pool :=
  mmMapEntries_pool attrs flags (mmMapPte_pool x attrs flags) ..

theorem mmPtableIdentityMap_pool (paBegin paEnd : Nat) (s : Logged) :
    (mmPtableIdentityMap x attrs flags t paBegin paEnd s).map Logged.pool =
      Mm.mmPtableIdentityMap t paBegin paEnd attrs flags s.pool := by
  rw [mmPtableIdentityMap, Mm.mmPtableIdentityMap, Mm.mmMapRoot,
    ← walk_map Logged.pool (fun begin_ _ t s => mmMapLevel_pool x attrs flags begin_ _ begin_ t s)]
  rfl

theorem mmPtableIdentityUpdate_pool (unmap : Bool) (t : MmPtable c) (paBegin paEnd : Nat) (s : Logged) :
    (mmPtableIdentityUpdate x attrs unmap t paBegin paEnd s).map (Step.map Logged.pool) =
      Mm.mmPtableIdentityUpdate t paBegin paEnd attrs unmap s.pool := by
  have prepared := mmPtableIdentityMap_pool x attrs ⟨false, unmap⟩ t paBegin paEnd s
  rw [mmPtableIdentityUpdate, Mm.mmPtableIdentityUpdate, Mm.mmPtableIdentityPrepare, ← prepared]
  generalize mmPtableIdentityMap x attrs ⟨false, unmap⟩ t paBegin paEnd s = r
  obtain ⟨_ | _, t', s'⟩ := r
  · rfl
  · have committed := mmPtableIdentityMap_pool x attrs ⟨true, unmap⟩ t' paBegin paEnd s'
    simp only [Step.map, if_true, Mm.mmPtableIdentityCommit, ← committed]
    generalize mmPtableIdentityMap x attrs ⟨true, unmap⟩ t' paBegin paEnd s' = r
    obtain ⟨_ | _, t'', s''⟩ := r <;> rfl

theorem mmMapEntryOnePage_pool {descend : Pte level → Logged → Option (Step Logged (Pte level))}
    {descend' : Pte level → Mpool → Option (Updated (Pte level))}
    (same : ∀ pte s, (descend pte s).map (Step.map Logged.pool) = descend' pte s.pool) (va pa : Nat)
    (pte : Pte level) (s : Logged) :
    (mmMapEntryOnePage x attrs flags descend va pa pte s).map (Step.map Logged.pool) =
      Mm.mmMapEntryOnePage descend' attrs flags va pa pte s.pool := by
  rw [mmMapEntryOnePage, Mm.mmMapEntryOnePage]
  split
  · rfl
  · split
    · split <;> rfl
    · exact same pte s

theorem mmMapTableOnePage_pool {mapEntry : Pte level → Logged → Option (Step Logged (Pte level))}
    {mapEntry' : Pte level → Mpool → Option (Updated (Pte level))}
    (same : ∀ pte s, (mapEntry pte s).map (Step.map Logged.pool) = mapEntry' pte s.pool) (va : Nat)
    (t : PageTable level) (s : Logged) :
    (mmMapTableOnePage mapEntry va t s).map (Step.map Logged.pool) =
      Mm.mmMapTableOnePage mapEntry' va t s.pool := by
  rw [mmMapTableOnePage, Mm.mmMapTableOnePage]
  split
  · rw [← same, Option.map_map, Option.map_map]
    rfl
  · rfl

theorem mmMapPteOnePage_pool (va pa : Nat) (pte : Pte level) (s : Logged) :
    (mmMapPteOnePage x attrs flags level va pa pte s).map (Step.map Logged.pool) =
      Mm.mmMapPteOnePage attrs flags level va pa pte s.pool := by
  induction level generalizing s with
  | zero => exact mmMapEntryOnePage_pool x attrs flags (fun _ _ => rfl) ..
  | succ level ih =>
    refine mmMapEntryOnePage_pool x attrs flags (fun pte s => ?_) ..
    rw [mmMapBelowOnePage, Mm.mmDescendOnePage, Mm.mmMapBelowOnePage, ← mmPopulateTablePte_pool x va pte s]
    cases mmPopulateTablePte x va pte s with
    | none => rfl
    | some populated =>
      simp only [Option.map_some, Mm.mmMapLevelOnePage_eq,
        ← mmMapTableOnePage_pool (fun pte s => ih pte s), Option.map_map]
      rfl

theorem mmPtableMapOnePage_pool (va pa : Nat) (s : Logged) :
    (mmPtableMapOnePage x attrs flags t va pa s).map (Step.map Logged.pool) =
      Mm.mmPtableMapOnePage t va pa attrs flags s.pool := by
  rw [mmPtableMapOnePage, Mm.mmPtableMapOnePage]
  split
  · rfl
  · rw [mmMapRootOnePage, Mm.mmMapRootOnePage, Mm.mmMapLevelOnePage_eq,
      ← mmMapTableOnePage_pool (fun pte s => mmMapPteOnePage_pool x attrs flags _ _ pte s),
      Option.map_map, Option.map_map]
    rfl

theorem mmDefragStep_pool {defrag : Nat → Logged → Pte level × Logged}
    {defrag' : Nat → Mpool → Pte level × Mpool} (mergeable : Pte level → Bool)
    (same : ∀ j s, ((defrag j s).1, (defrag j s).2.pool) = defrag' j s.pool) (indices : List Nat)
    (s : Step Logged (PageTable level)) :
    (indices.foldl (mmDefragStep defrag mergeable) s).map Logged.pool =
      indices.foldl (Mm.mmDefragStep defrag' mergeable) (s.map Logged.pool) := by
  refine (List.foldl_hom _ fun s j => ?_).symm
  simp only [Mm.mmDefragStep, mmDefragStep, Step.map, ← same j s.state]

theorem mmPtableDefragEntry_pool (base baseAddr : Nat) (pte : Pte level) (s : Logged) :
    ((mmPtableDefragEntry x features base baseAddr pte s).1,
      (mmPtableDefragEntry x features base baseAddr pte s).2.pool) =
      Mm.mmPtableDefragEntry features pte s.pool := by
  induction pte generalizing base baseAddr s with
  | leaf bits => simp only [mmPtableDefragEntry, Mm.mmPtableDefragEntry]
  | @table level page entries ih =>
    simp only [mmPtableDefragEntry, Mm.mmPtableDefragEntry, ← ih 0 base baseAddr s]
    generalize mmPtableDefragEntry x features base baseAddr (entries 0) s = first
    have loop := mmDefragStep_pool (mmEntryMergeable (archMmPteIsPresent first.1.bits)
      (archMmPteAttrs first.1.bits))
      (fun j s => ih j (base + j * mmEntrySize level) (baseAddr + j * mmEntrySize level) s)
        (List.range' 1 (mmPtePerPage - 1)) ⟨true, update entries 0 first.1, first.2⟩
    generalize (List.range' 1 (mmPtePerPage - 1)).foldl _ _ = r at loop ⊢
    simp only [Step.map] at loop
    rw [← loop]
    split
    · split
      · simp only [mmReplaceEntry, Mm.mmReplaceEntry]
      · rfl
    · rfl

theorem mmDefragTable_pool (i : Nat) (t : PageTable level) (s : Logged) :
    (mmDefragTable x features i t s).map Logged.pool = Mm.mmDefragTable features t s.pool :=
  mmDefragStep_pool _ (fun j s => mmPtableDefragEntry_pool x features _ _ (t j) s) ..

theorem mmPtableDefrag_pool (t : MmPtable c) (s : Logged) :
    ((mmPtableDefrag x features t s).1, (mmPtableDefrag x features t s).2.pool) =
      Mm.mmPtableDefrag features t s.pool := by
  have loop (indices : List Nat) (s : Step Logged (Nat → PageTable c.maxLevel)) :
      Step.map Logged.pool (indices.foldl (fun (s : Step Logged (Nat → PageTable c.maxLevel)) i =>
        let d := mmDefragTable x features i (s.value i) s.state
        ⟨true, update s.value i d.value, d.state⟩) s) =
      indices.foldl (fun (s : Updated (Nat → PageTable c.maxLevel)) i =>
        let d := Mm.mmDefragTable features (s.value i) s.state
        ⟨true, update s.value i d.value, d.state⟩) (s.map Logged.pool) := by
    refine (List.foldl_hom _ fun s i => ?_).symm
    simp only [Step.map, ← mmDefragTable_pool x features i]
  have tables := loop (List.range c.rootTableCount) ⟨true, t.tables, s⟩
  simp only [mmPtableDefrag, Mm.mmPtableDefrag]
  simp only [Step.map] at tables
  rw [← tables]

end Erasure

end Logged

end Hafnium.Mm
