import Hafnium.Mm.Ptable

/-! # Defragmentation

`mmPtableDefragEntry` replaces tables whose entries agree by a single block or absent entry, from
the leaves up. The entries it writes do not depend on the pool: `Pte.defragged` is the table it
makes of another one. No address changes its attributes, and well-formed tables stay well formed.
-/

namespace Hafnium.Mm

open BlockWalk Function

/-- Given that the entries of a table agree, the single entry that can replace it. -/
def mmMergeTablePte (features : ArchFeatures) {level : Nat} (page : PageNumber) (entries : PageTable level) :
    Pte (level + 1) :=
  if !archMmPteIsPresent (entries 0).bits then .leaf archMmAbsentPte
  else if !archMmIsBlockAllowed (level + 1) then .table page entries
  else
    let blockAttrs := archMmPteAttrs (entries 0).bits
    let tableAttrs := archMmPteAttrs (Pte.table page entries).bits
    .leaf (archMmBlockPte (level + 1) (archMmBlockFromPte (entries 0).bits)
      (archMmCombineTableEntryAttrs features tableAttrs blockAttrs))

/-- The entry is compatible with the base entry of its table. -/
def mmEntryMergeable {level : Nat} (basePresent : Bool) (baseAttrs : PteBits) (e : Pte level) : Bool :=
  let present := archMmPteIsPresent e.bits
  if present ≠ basePresent then false
  else if !present then true
  else archMmPteIsBlock e.bits level && decide (archMmPteAttrs e.bits = baseAttrs)

/-- One round of the loop over the entries of a table: entry `j` is defragmented in place and
checked against the base entry. -/
def mmDefragStep {level : Nat} (defrag : Nat → Mpool → Pte level × Mpool) (mergeable : Pte level → Bool)
    (s : Updated (PageTable level)) (j : Nat) : Updated (PageTable level) :=
  let d := defrag j s.state
  ⟨s.ok && mergeable d.1, update s.value j d.1, d.2⟩

variable {level base : Nat} {entries : PageTable level} {e : Pte level}
  (defrag : Nat → Mpool → Pte level × Mpool) (features : ArchFeatures)

theorem mmDefragStep_self (mergeable : Pte level → Bool) (s : Updated (PageTable level)) (j : Nat) :
    (mmDefragStep defrag mergeable s j).value j = (defrag j s.state).1 :=
  update_self ..

theorem mmDefragStep_of_ne (mergeable : Pte level → Bool) (s : Updated (PageTable level))
    {i j : Nat} (other : i ≠ j) : (mmDefragStep defrag mergeable s j).value i = s.value i :=
  update_of_ne other ..

/-- Replaces tables below an entry by blocks or absent entries where possible. -/
def mmPtableDefragEntry (features : ArchFeatures) : {level : Nat} → Pte level → Mpool → Pte level × Mpool
  | _, .leaf bits, pool => (.leaf bits, pool)
  | _, .table page entries, pool =>
    let base := mmPtableDefragEntry features (entries 0) pool
    let r := (List.range' 1 (mmPtePerPage - 1)).foldl
      (mmDefragStep (fun j => mmPtableDefragEntry features (entries j))
        (mmEntryMergeable (archMmPteIsPresent base.1.bits) (archMmPteAttrs base.1.bits)))
      ⟨true, update entries 0 base.1, base.2⟩
    if r.ok then
      let newEntry := mmMergeTablePte features page r.value
      if newEntry.bits ≠ (Pte.table page r.value).bits then
        mmReplaceEntry (.table page r.value) newEntry r.state
      else (.table page r.value, r.state)
    else (.table page r.value, r.state)

/-- The loop over the entries of a table, with the base entry in front. -/
def mmDefragEntries (features : ArchFeatures) {level : Nat} (entries : PageTable level) (pool : Mpool) :
    Updated (PageTable level) :=
  let base := mmPtableDefragEntry features (entries 0) pool
  (List.range' 1 (mmPtePerPage - 1)).foldl
    (mmDefragStep (fun j => mmPtableDefragEntry features (entries j))
      (mmEntryMergeable (archMmPteIsPresent base.1.bits) (archMmPteAttrs base.1.bits)))
    ⟨true, update entries 0 base.1, base.2⟩

/-- A table whose entries agree after the loop is replaced, unless it stands for itself. -/
theorem mmPtableDefragEntry_table (page : PageNumber) (entries : PageTable level) (pool : Mpool) :
    mmPtableDefragEntry features (.table page entries) pool =
      let r := mmDefragEntries features entries pool
      if r.ok = true ∧ (mmMergeTablePte features page r.value).bits ≠ (Pte.table page r.value).bits then
        (mmMergeTablePte features page r.value, mmFreePagePte (.table page r.value) r.state)
      else (.table page r.value, r.state) := by
  rw [mmPtableDefragEntry, mmDefragEntries]
  generalize (List.range' 1 (mmPtePerPage - 1)).foldl _ _ = r
  obtain ⟨ok, value, state⟩ := r
  cases ok <;> simp [mmReplaceEntry]

/-- Only a leaf takes the place of a table. -/
theorem mmMergeTablePte_leaf {page : PageNumber}
    (changed : (mmMergeTablePte features page entries).bits ≠ (Pte.table page entries).bits) :
    ∃ bits, mmMergeTablePte features page entries = .leaf bits := by
  revert changed
  rw [mmMergeTablePte]
  split
  · exact fun _ => ⟨_, rfl⟩
  · split
    · exact fun changed => absurd rfl changed
    · exact fun _ => ⟨_, rfl⟩

/-- Defragments one root table. -/
def mmDefragTable (features : ArchFeatures) {level : Nat} (t : PageTable level) (pool : Mpool) :
    Updated (PageTable level) :=
  (List.range mmPtePerPage).foldl (mmDefragStep (fun j => mmPtableDefragEntry features (t j))
    (fun _ => true)) ⟨true, t, pool⟩

/-- Defragments all root tables. -/
def mmPtableDefrag (features : ArchFeatures) {c : StageConfig} (t : MmPtable c) (pool : Mpool) :
    MmPtable c × Mpool :=
  let r := (List.range c.rootTableCount).foldl (fun (s : Updated (Nat → PageTable c.maxLevel)) i =>
    let d := mmDefragTable features (s.value i) s.state
    ⟨true, update s.value i d.value, d.state⟩) ⟨true, t.tables, pool⟩
  ({ t with tables := r.value }, r.state)

/-! ## The result without the pool -/

/-- Every entry agrees with the first one, so that one entry can take the place of the table. -/
def PageTable.mergeable {level : Nat} (t : PageTable level) : Bool :=
  (List.range' 1 (mmPtePerPage - 1)).all fun j =>
    mmEntryMergeable (archMmPteIsPresent (t 0).bits) (archMmPteAttrs (t 0).bits) (t j)

/-- A table in whose entries `f` has been applied. -/
def PageTable.mapEntries {level : Nat} (f : Nat → Pte level) (t : PageTable level) : PageTable level :=
  fun j => if j < mmPtePerPage then f j else t j

/-- What defragmentation makes of an entry. -/
def Pte.defragged (features : ArchFeatures) : {level : Nat} → Pte level → Pte level
  | _, .leaf bits => .leaf bits
  | _, .table page entries =>
    let new := PageTable.mapEntries (fun j => (entries j).defragged features) entries
    if new.mergeable = true ∧ (mmMergeTablePte features page new).bits ≠ (Pte.table page new).bits then
      mmMergeTablePte features page new
    else .table page new

def PageTable.defragged (features : ArchFeatures) {level : Nat} (t : PageTable level) : PageTable level :=
  t.mapEntries fun j => (t j).defragged features

def MmPtable.defragged (features : ArchFeatures) {c : StageConfig} (t : MmPtable c) : MmPtable c :=
  { t with tables := fun i => if i < c.rootTableCount then (t.tables i).defragged features else t.tables i }

section Value

variable {j : Nat} {defrag : Nat → Mpool → Pte level × Mpool} {c : StageConfig} {new : Nat → Pte level}

theorem PageTable.mapEntries_of_lt (f : Nat → Pte level) (t : PageTable level) (bound : j < mmPtePerPage) :
    t.mapEntries f j = f j := if_pos bound

/-- The rounds of a loop whose entries do not depend on the pool. -/
theorem mmDefragStep_foldl (value : ∀ j pool, (defrag j pool).1 = new j)
    (mergeable : Pte level → Bool) (indices : List Nat) (s : Updated (PageTable level)) :
    let r := indices.foldl (mmDefragStep defrag mergeable) s
    r.ok = (s.ok && indices.all fun j => mergeable (new j)) ∧
      r.value = fun j => if j ∈ indices then new j else s.value j := by
  induction indices generalizing s with
  | nil => simp
  | cons i rest ih =>
    obtain ⟨ok, entries⟩ := ih _
    refine ⟨?_, ?_⟩
    · rw [List.foldl_cons, ok, List.all_cons, ← Bool.and_assoc, mmDefragStep, value]
    · rw [List.foldl_cons, entries]
      funext j
      by_cases here : j = i
      · subst here
        rw [mmDefragStep_self, value, ite_self, if_pos (List.mem_cons_self ..)]
      · rw [mmDefragStep_of_ne _ _ _ here]
        simp only [List.mem_cons, here, false_or]

theorem mem_entries_iff : j ∈ List.range' 1 (mmPtePerPage - 1) ↔ j ≠ 0 ∧ j < mmPtePerPage := by
  rw [List.mem_range'_1]
  omega

theorem mmDefragEntries_value {entries : PageTable level}
    (value : ∀ j pool, (mmPtableDefragEntry features (entries j) pool).1 = new j) (pool : Mpool) :
    (mmDefragEntries features entries pool).ok = (entries.mapEntries new).mergeable ∧
      (mmDefragEntries features entries pool).value = entries.mapEntries new := by
  obtain ⟨ok, rest⟩ := mmDefragStep_foldl value
    (mmEntryMergeable _
      _) _
    ⟨true, update entries 0 (mmPtableDefragEntry features (entries 0) pool).1,
      (mmPtableDefragEntry features (entries 0) pool).2⟩
  refine ⟨?_, ?_⟩
  · rw [mmDefragEntries, ok, Bool.true_and, PageTable.mergeable,
      PageTable.mapEntries_of_lt _ _ (by decide), value]
    rw [Bool.eq_iff_iff, List.all_eq_true, List.all_eq_true]
    refine forall₂_congr fun j member => ?_
    rw [PageTable.mapEntries_of_lt _ _ (mem_entries_iff.mp member).2]
  · rw [mmDefragEntries, rest]
    funext j
    dsimp only
    by_cases first : j = 0
    · subst first
      rw [if_neg fun member => (mem_entries_iff.mp member).1 rfl, update_self, value,
        PageTable.mapEntries_of_lt _ _ (by decide)]
    · rw [update_of_ne first, PageTable.mapEntries]
      simp only [mem_entries_iff, first, ne_eq, not_false_eq_true, true_and]

/-- Whatever the pool, an entry becomes the same. -/
theorem mmPtableDefragEntry_fst (e : Pte level) (pool : Mpool) :
    (mmPtableDefragEntry features e pool).1 = e.defragged features := by
  induction e generalizing pool with
  | leaf bits => rfl
  | table page entries ih =>
    obtain ⟨ok, value⟩ := mmDefragEntries_value features ih pool
    rw [mmPtableDefragEntry_table, Pte.defragged]
    dsimp only
    rw [ok, value]
    split <;> rfl

theorem mmDefragTable_value (t : PageTable level) (pool : Mpool) :
    (mmDefragTable features t pool).value = t.defragged features := by
  rw [mmDefragTable, (mmDefragStep_foldl (fun j => mmPtableDefragEntry_fst features (t j)) _ _ _).2]
  funext j
  simp only [List.mem_range, PageTable.defragged, PageTable.mapEntries]

theorem mmPtableDefrag_fst (t : MmPtable c) (pool : Mpool) :
    (mmPtableDefrag features t pool).1 = t.defragged features := by
  have rounds (indices : List Nat) (distinct : indices.Nodup) (s : Updated (Nat → PageTable c.maxLevel)) :
      (indices.foldl (fun (s : Updated (Nat → PageTable c.maxLevel)) i =>
        let d := mmDefragTable features (s.value i) s.state
        ⟨true, update s.value i d.value, d.state⟩) s).value =
      fun i => if i ∈ indices then (s.value i).defragged features else s.value i := by
    induction indices generalizing s with
    | nil => simp
    | cons i rest ih =>
      rw [List.nodup_cons] at distinct
      rw [List.foldl_cons, ih distinct.2]
      funext k
      dsimp only
      rw [mmDefragTable_value]
      by_cases here : k = i
      · subst here
        rw [if_neg distinct.1, update_self, if_pos (List.mem_cons_self ..)]
      · rw [update_of_ne here]
        simp only [List.mem_cons, here, false_or]
  rw [mmPtableDefrag, MmPtable.defragged]
  rw [rounds _ List.nodup_range]
  simp only [List.mem_range]

end Value

/-! ## No address changes -/

/-- A table read at addresses of `base` on agrees with another one and is well formed. -/
structure SameEntry {level : Nat} (base : Nat) (e e' : Pte level) : Prop where
  wellFormed : e'.WellFormed base
  attrsAt : ∀ addr, base ≤ addr → addr < base + mmEntrySize level → e'.attrsAt addr = e.attrsAt addr

section Merge

/-- A well-formed entry is absent, a block of its range, or a table. -/
theorem entry_cases (wf : e.WellFormed base) (aligned : base % mmEntrySize level = 0)
    (bound : base + mmEntrySize level ≤ 2 ^ 48) :
    (e = .leaf archMmAbsentPte) ∨
    (∃ attrs, BlockAttrs attrs ∧ e = .leaf (archMmBlockPte level base attrs) ∧ archMmPteAttrs e.bits = attrs ∧
      archMmPteIsPresent e.bits = true ∧ archMmBlockFromPte e.bits = base) ∨
    (archMmPteAttrs e.bits = pteValid ∧ archMmPteIsPresent e.bits = true ∧
      archMmPteIsBlock e.bits level = false) := by
  cases e with
  | leaf bits =>
    have positive := mmEntrySize_pos level
    have page := page_of_aligned aligned
    rcases LeafFor.attrs wf aligned bound with ⟨rfl, -⟩ | ⟨-, attrsOk, block⟩
    · exact .inl rfl
    · refine .inr (.inl ⟨archMmPteAttrs bits, attrsOk, congrArg Pte.leaf block, rfl, ?_, ?_⟩)
      · rw [Pte.bits, block, archMmPteIsPresent_archMmBlockPte page (by omega) attrsOk]
      · rw [Pte.bits, block, archMmBlockFromPte_archMmBlockPte page (by omega) attrsOk]
  | table page entries =>
    refine .inr (.inr ⟨archMmPteAttrs_archMmTablePte (Nat.mul_mod_left ..)
      ?_, by simp [Pte.bits], by simp [Pte.bits]⟩)
    simp only [pageSize]
    omega

/-- Tables whose entries are all compatible with the first one: nothing is present below them, or
they are blocks with the same attributes. -/
private theorem mergeable_cases (wf : entries.WellFormed base)
    (aligned : base % mmEntrySize (level + 1) = 0) (bound : base + mmEntrySize (level + 1) ≤ 2 ^ 48)
    (mergeable : entries.mergeable = true) :
    (archMmPteIsPresent (entries 0).bits = false ∧ ∀ j < mmPtePerPage, ∀ addr, (entries j).attrsAt addr = 0) ∨
    (archMmPteIsPresent (entries 0).bits = true ∧ BlockAttrs (archMmPteAttrs (entries 0).bits) ∧
      archMmBlockFromPte (entries 0).bits = base ∧
      ∀ j < mmPtePerPage, ∀ addr, (entries j).attrsAt addr = archMmPteAttrs (entries 0).bits) := by
  have entryCases (j : Nat) (jBound : j < mmPtePerPage) := entry_cases (wf j jBound) (entry_aligned aligned j)
    (by have := entry_end_le level base jBound; omega)
  have first := entryCases 0 (by decide)
  rw [PageTable.mergeable, List.all_eq_true] at mergeable
  cases present : archMmPteIsPresent (entries 0).bits with
  | false =>
    refine .inl ⟨rfl, fun j jBound addr => ?_⟩
    rcases entryCases j jBound with absent | ⟨attrs, -, -, -, isPresent, -⟩ | ⟨-, isPresent, -⟩
    · rw [absent]
      rfl
    all_goals
      rcases Nat.eq_zero_or_pos j with rfl | later
      · rw [isPresent] at present
        cases present
      · have compatible := mergeable j (mem_entries_iff.mpr ⟨later.ne', jBound⟩)
        rw [present, mmEntryMergeable, isPresent] at compatible
        simp at compatible
  | true =>
    have later (j : Nat) (after : 1 ≤ j) (jBound : j < mmPtePerPage) :
        BlockAttrs (archMmPteAttrs (entries 0).bits) ∧
          ∀ addr, (entries j).attrsAt addr = archMmPteAttrs (entries 0).bits := by
      have compatible := mergeable j (mem_entries_iff.mpr ⟨Nat.ne_of_gt after, jBound⟩)
      rw [present, mmEntryMergeable] at compatible
      rcases entryCases j jBound with absent | ⟨attrs, attrsOk, leaf, read, isPresent, -⟩ | ⟨-,
          isPresent, notBlock⟩
      · rw [absent] at compatible
        simp [Pte.bits] at compatible
      · simp only [isPresent, ne_eq, not_true_eq_false, if_false, Bool.not_true, Bool.false_eq_true,
          Bool.and_eq_true, decide_eq_true_eq] at compatible
        rw [← compatible.2, read]
        refine ⟨attrsOk, fun addr => ?_⟩
        rw [← read, leaf]
        rfl
      · rw [isPresent, notBlock] at compatible
        simp at compatible
    -- The base entry is no table either: no other entry shows the attributes of a table.
    have attrsOk := (later 1 (by decide) (by decide)).1
    rcases first with absent | ⟨attrs, -, leaf, read, -, start⟩ | ⟨tableAttrs, -, -⟩
    · rw [absent] at present
      simp [Pte.bits] at present
    · rw [Nat.zero_mul, Nat.add_zero] at start
      refine .inr ⟨rfl, attrsOk, start, fun j jBound addr => ?_⟩
      rcases Nat.eq_zero_or_pos j with rfl | after
      · rw [leaf]
        rfl
      · exact (later j after jBound).2 addr
    · exact absurd tableAttrs attrsOk.ne_tableAttrs

/-- Merging the entries of a table keeps what they stand for. -/
private theorem mmMergeTablePte_same (page : PageNumber) (wf : entries.WellFormed base)
    (aligned : base % mmEntrySize (level + 1) = 0) (bound : base + mmEntrySize (level + 1) ≤ 2 ^ 48)
    (mergeable : entries.mergeable = true) :
    SameEntry base (.table page entries) (mmMergeTablePte features page entries) := by
  have index {addr : Nat} (lower : base ≤ addr) (upper : addr < base + mmEntrySize (level + 1)) :=
    (mmIndex_bounds aligned lower upper).1
  rcases mergeable_cases wf aligned bound mergeable with ⟨absent, zero⟩ | ⟨present, attrsOk, start, equal⟩
  · rw [mmMergeTablePte, absent]
    exact ⟨.absent, fun addr lower upper => (zero _ (index lower upper) addr).symm⟩
  · have tableAttrs : archMmPteAttrs (Pte.table page entries).bits = pteValid :=
      archMmPteAttrs_archMmTablePte (Nat.mul_mod_left ..) (by simp only [pageSize]; omega)
    rw [mmMergeTablePte, present]
    simp only [Bool.not_true, Bool.false_eq_true, if_false]
    split
    · exact ⟨wf, fun _ _ _ => rfl⟩
    · next allowed =>
      rw [tableAttrs, archMmCombineTableEntryAttrs_pteValid, start]
      refine ⟨.block (by simpa [archMmIsBlockAllowed] using allowed) attrsOk, fun addr lower upper => ?_⟩
      rw [Pte.attrsAt, archMmPteAttrs_archMmBlockPte (page_of_aligned aligned) (by omega) attrsOk]
      exact (equal _ (index lower upper) addr).symm

end Merge

theorem SameEntry.refl (wf : e.WellFormed base) : SameEntry base e e :=
  ⟨wf, fun _ _ _ => rfl⟩

theorem SameEntry.trans {e' e'' : Pte level} (first : SameEntry base e e')
    (second : SameEntry base e' e'') : SameEntry base e e'' :=
  ⟨second.wellFormed, fun addr lower upper => (second.attrsAt addr lower upper).trans
    (first.attrsAt addr lower upper)⟩

/-- A table stands for the same as another one when all its entries do. -/
theorem SameEntry.table (page : PageNumber) {t t' : PageTable level}
    (aligned : base % mmEntrySize (level + 1) = 0)
    (entries : ∀ j < mmPtePerPage, SameEntry (base + j * mmEntrySize level) (t j) (t' j)) :
    SameEntry base (.table page t) (.table page t') := by
  refine ⟨fun j jBound => (entries j jBound).wellFormed, fun addr lower upper => ?_⟩
  obtain ⟨jBound, first, last⟩ := mmIndex_bounds aligned lower upper
  exact (entries _ jBound).attrsAt addr first last

/-- Defragmentation changes no address below an entry. -/
theorem Pte.defragged_same (e : Pte level) (wf : e.WellFormed base) (aligned : base % mmEntrySize level = 0)
    (bound : base + mmEntrySize level ≤ 2 ^ 48) : SameEntry base e (e.defragged features) := by
  induction e generalizing base with
  | leaf bits => exact .refl wf
  | @table level page entries ih =>
    have kept : SameEntry base (.table page entries) (.table page (PageTable.defragged features entries)) :=
      .table page aligned fun j jBound => by
        have fits := entry_end_le level base jBound
        rw [PageTable.defragged, PageTable.mapEntries_of_lt _ _ jBound]
        exact ih j (wf j jBound) (entry_aligned aligned j) (by omega)
    rw [Pte.defragged]
    split
    · next merged => exact kept.trans (mmMergeTablePte_same features page kept.wellFormed aligned
        bound merged.1)
    · exact kept

section Ptable

variable {c : StageConfig}

theorem mmPtableDefrag_entries (t : MmPtable c) (pool : Mpool) (wf : t.WellFormed) :
    ∀ i < c.rootTableCount, ∀ j < mmPtePerPage,
      SameEntry (i * mmEntrySize (c.maxLevel + 1) + j * mmEntrySize c.maxLevel) (t.tables i j)
        ((mmPtableDefrag features t pool).1.tables i j) := by
  intro i iBound j jBound
  rw [mmPtableDefrag_fst, show (t.defragged features).tables i = (t.tables i).defragged
    features from if_pos iBound, PageTable.defragged, PageTable.mapEntries_of_lt _ _ jBound]
  exact (t.tables i j).defragged_same features (wf i iBound j jBound) (entry_aligned (Nat.mul_mod_left ..) j)
    ((root_entry_end_le iBound jBound).trans c.space_le)

theorem mmPtableDefrag_wellFormed (t : MmPtable c) (pool : Mpool) (wf : t.WellFormed) :
    (mmPtableDefrag features t pool).1.WellFormed := fun i iBound j jBound =>
  (mmPtableDefrag_entries features t pool wf i iBound j jBound).wellFormed

/-- Defragmentation changes no address. -/
theorem mmPtableDefrag_sameAttrs (t : MmPtable c) (pool : Mpool) (wf : t.WellFormed) :
    t.SameAttrs (mmPtableDefrag features t pool).1 := by
  intro addr inside
  obtain ⟨root, first, last⟩ := root_bounds inside
  obtain ⟨index, lower, upper⟩ := mmIndex_bounds (Nat.mul_mod_left ..) first last
  exact (mmPtableDefrag_entries features t pool wf _ root _ index).attrsAt addr lower upper

end Ptable

end Hafnium.Mm
