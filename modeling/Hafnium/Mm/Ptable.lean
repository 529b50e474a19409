import Hafnium.Mm.Prepare

/-! # Page tables of an address space

The root of an address space is a row of tables of the highest level. `mmPtableIdentityMap` is the
one update all others are made of: it rounds and caps the range, then updates the root tables one
after the other. Committing after a successful preparation cannot fail, so an update either takes
effect on exactly its range or, when it fails, on no address at all.
-/

namespace Hafnium.Mm

open BlockWalk

/-- The shape of the tables of a translation stage, as far as the page-table code relies on it. -/
structure StageConfig where
  maxLevel : Nat
  rootTableCount : Nat
  maxLevel_pos : 1 ≤ maxLevel
  rootTableCount_pos : 0 < rootTableCount
  rootTableCount_le : rootTableCount ≤ 16
  space_le : rootTableCount * mmEntrySize (maxLevel + 1) ≤ 2 ^ 48

/-- The first address that the tables cannot encode. -/
def mmPtableAddrSpaceEnd (c : StageConfig) : Nat := c.rootTableCount * mmEntrySize (c.maxLevel + 1)

/-- A page table: the page of its first root table, and the root tables. -/
structure MmPtable (c : StageConfig) where
  root : PageNumber
  tables : Nat → PageTable c.maxLevel

def mmRoundDownToPage (addr : Nat) : Nat := addr / pageSize * pageSize

def mmRoundUpToPage (addr : Nat) : Nat := mmRoundDownToPage ((addr + (pageSize - 1)) % 2 ^ 64)

variable {addr : Nat}

theorem mmRoundDownToPage_of_page (page : addr % pageSize = 0) : mmRoundDownToPage addr = addr :=
  Nat.div_mul_cancel (Nat.dvd_of_mod_eq_zero page)

theorem mmRoundUpToPage_of_page (page : addr % pageSize = 0) (bound : addr < 2 ^ 64) :
    mmRoundUpToPage addr = addr := by
  simp only [mmRoundUpToPage, mmRoundDownToPage, pageSize] at *
  omega

section Ptable

variable {c : StageConfig}

/-- Updates the root tables that overlap the range. -/
def mmMapRoot (t : MmPtable c) (begin_ end_ : Nat) (attrs : PteBits) (flags : MmFlags) (pool : Mpool) :
    Updated (MmPtable c) :=
  let r := walk (mmEntrySize (c.maxLevel + 1))
    (fun begin_ _ => mmMapLevel attrs flags c.maxLevel begin_ end_ begin_) end_
    c.rootTableCount begin_ begin_ (mmIndex begin_ (c.maxLevel + 1)) t.tables pool
  ⟨r.ok, { t with tables := r.value }, r.state⟩

/-- The range that an update from `paBegin` to `paEnd` really covers. -/
def mmMapBegin (paBegin : Nat) : Nat := archMmClearPa paBegin

def mmMapEnd (c : StageConfig) (paEnd : Nat) : Nat := min (mmRoundUpToPage paEnd) (mmPtableAddrSpaceEnd c)

def mmPtableIdentityMap (t : MmPtable c) (paBegin paEnd : Nat) (attrs : PteBits) (flags : MmFlags)
    (pool : Mpool) : Updated (MmPtable c) :=
  mmMapRoot t (mmMapBegin paBegin) (mmMapEnd c paEnd) attrs flags pool

def mmPtableIdentityPrepare (t : MmPtable c) (paBegin paEnd : Nat) (attrs : PteBits) (unmap : Bool)
    (pool : Mpool) : Updated (MmPtable c) :=
  mmPtableIdentityMap t paBegin paEnd attrs ⟨false, unmap⟩ pool

/-- Commits a prepared update; `none` is the failed `CHECK`. -/
def mmPtableIdentityCommit (t : MmPtable c) (paBegin paEnd : Nat) (attrs : PteBits) (unmap : Bool)
    (pool : Mpool) : Option (MmPtable c × Mpool) :=
  let r := mmPtableIdentityMap t paBegin paEnd attrs ⟨true, unmap⟩ pool
  if r.ok then some (r.value, r.state) else none

def mmPtableIdentityUpdate (t : MmPtable c) (paBegin paEnd : Nat) (attrs : PteBits) (unmap : Bool)
    (pool : Mpool) : Option (Updated (MmPtable c)) :=
  let r := mmPtableIdentityPrepare t paBegin paEnd attrs unmap pool
  if r.ok then
    (mmPtableIdentityCommit r.value paBegin paEnd attrs unmap r.state).map fun (t, pool) => ⟨true, t, pool⟩
  else some r

/-! ## The address space of a table -/

def MmPtable.attrsAt (t : MmPtable c) (addr : Nat) : PteBits :=
  (t.tables (mmIndex addr (c.maxLevel + 1))).attrsAt addr

/-- The table walk from the root. -/
def MmPtable.lookup (t : MmPtable c) (addr : Nat) : Option (Nat × PteBits) :=
  (t.tables (mmIndex addr (c.maxLevel + 1)) (mmIndex addr c.maxLevel)).lookup addr

/-- Every root table is well formed at its place. -/
def MmPtable.WellFormed (t : MmPtable c) : Prop :=
  ∀ i < c.rootTableCount, (t.tables i).WellFormed (i * mmEntrySize (c.maxLevel + 1))

def MmPtable.Prepared (attrs : PteBits) (unmap : Bool) (begin_ end_ : Nat) (t : MmPtable c) : Prop :=
  begin_ < end_ → ∀ i < c.rootTableCount, (t.tables i).Prepared attrs unmap begin_ end_
    (i * mmEntrySize (c.maxLevel + 1))

/-- The root table of an address and its bounds. -/
theorem root_bounds (inside : addr < mmPtableAddrSpaceEnd c) :
    mmIndex addr (c.maxLevel + 1) < c.rootTableCount ∧
      mmIndex addr (c.maxLevel + 1) * mmEntrySize (c.maxLevel + 1) ≤ addr ∧
      addr < mmIndex addr (c.maxLevel + 1) * mmEntrySize (c.maxLevel + 1) + mmEntrySize (c.maxLevel + 1) := by
  have positive := mmEntrySize_pos (c.maxLevel + 1)
  have count := c.rootTableCount_le
  have quotient : addr / mmEntrySize (c.maxLevel + 1) < c.rootTableCount :=
    Nat.div_lt_of_lt_mul (by rw [Nat.mul_comm]; exact inside)
  have index : mmIndex addr (c.maxLevel + 1) = addr / mmEntrySize (c.maxLevel + 1) :=
    Nat.mod_eq_of_lt (by simp only [mmPtePerPage]; omega)
  rw [index]
  exact ⟨quotient, Nat.div_mul_le_self .., Nat.lt_div_mul_add positive⟩

variable {i otherBegin otherEnd : Nat} {t : MmPtable c}

theorem root_end_le (bound : i < c.rootTableCount) :
    i * mmEntrySize (c.maxLevel + 1) + mmEntrySize (c.maxLevel + 1) ≤ mmPtableAddrSpaceEnd c := by
  rw [← Nat.succ_mul]
  exact Nat.mul_le_mul_right _ bound

theorem root_entry_end_le {j : Nat} (iBound : i < c.rootTableCount) (jBound : j < mmPtePerPage) :
    i * mmEntrySize (c.maxLevel + 1) + j * mmEntrySize c.maxLevel + mmEntrySize c.maxLevel ≤
      mmPtableAddrSpaceEnd c :=
  (entry_end_le _ _ jBound).trans (root_end_le iBound)

theorem MmPtable.attrsAt_root (t : MmPtable c) (bound : i < c.rootTableCount)
    (lower : i * mmEntrySize (c.maxLevel + 1) ≤ addr)
    (upper : addr < i * mmEntrySize (c.maxLevel + 1) + mmEntrySize (c.maxLevel + 1)) :
    t.attrsAt addr = (t.tables i).attrsAt addr := by
  have count := c.rootTableCount_le
  rw [MmPtable.attrsAt, mmIndex, Blocks.div_eq lower (by rw [Nat.succ_mul]; omega),
    Nat.mod_eq_of_lt (by simp only [mmPtePerPage]; omega)]

theorem MmPtable.attrsAt_entry {j : Nat} (t : MmPtable c) (iBound : i < c.rootTableCount)
    (jBound : j < mmPtePerPage) (lower : i * mmEntrySize (c.maxLevel + 1) + j * mmEntrySize c.maxLevel ≤ addr)
    (upper : addr < i * mmEntrySize (c.maxLevel + 1) + j * mmEntrySize c.maxLevel + mmEntrySize c.maxLevel) :
    t.attrsAt addr = (t.tables i j).attrsAt addr := by
  have fits := entry_end_le c.maxLevel (i * mmEntrySize (c.maxLevel + 1)) jBound
  rw [MmPtable.attrsAt_root t iBound (by omega) (by omega), PageTable.attrsAt,
    mmIndex_eq (Nat.mul_mod_left ..) jBound lower upper]

/-- On a well-formed table an address is absent, or translates to itself. -/
theorem MmPtable.lookup_eq (wf : t.WellFormed) (inside : addr < mmPtableAddrSpaceEnd c) :
    t.lookup addr = if t.attrsAt addr = 0 then none else some (addr, t.attrsAt addr) := by
  obtain ⟨root, first, last⟩ := root_bounds inside
  obtain ⟨index, lower, upper⟩ := mmIndex_bounds (Nat.mul_mod_left ..) first last
  exact Pte.lookup_eq (wf _ root _ index) (entry_aligned (Nat.mul_mod_left ..) _)
    ((root_entry_end_le root index).trans c.space_le) lower upper

/-- A page-aligned range inside the address space. -/
structure RootRange (c : StageConfig) (begin_ end_ : Nat) : Prop where
  beginPage : begin_ % pageSize = 0
  endPage : end_ % pageSize = 0
  inside : end_ ≤ mmPtableAddrSpaceEnd c

variable {attrs : PteBits} (flags : MmFlags) {begin_ end_ : Nat}

/-- The range of one root table. -/
theorem RootRange.table (range : RootRange c begin_ end_) {b : Nat} (bound : i < c.rootTableCount)
    (lower : i * mmEntrySize (c.maxLevel + 1) ≤ b)
    (upper : b < i * mmEntrySize (c.maxLevel + 1) + mmEntrySize (c.maxLevel + 1)) (nonempty : b < end_)
    (page : b % pageSize = 0) : EntryRange (c.maxLevel + 1) (i * mmEntrySize (c.maxLevel + 1)) b end_ where
  aligned := Nat.mul_mod_left ..
  bound := (root_end_le bound).trans c.space_le
  lower := lower
  upper := upper
  nonempty := nonempty
  beginPage := page
  endPage := range.endPage

/-- The update steps through the root tables, each once. -/
theorem mmMapRoot_steps (range : RootRange c begin_ end_) (nonempty : begin_ < end_)
    {R : (base begin_ end_ : Nat) → PageTable c.maxLevel → Bool → PageTable c.maxLevel → Prop}
    (tables : ∀ {base begin_ end_}, EntryRange (c.maxLevel + 1) base begin_ end_ → ∀ t pool,
      R base begin_ end_ t (mmMapLevel attrs flags c.maxLevel begin_ end_ begin_ t pool).ok
        (mmMapLevel attrs flags c.maxLevel begin_ end_ begin_ t pool).value)
    (t : MmPtable c) (pool : Mpool) (bound : i < c.rootTableCount) :
    ItemStep (mmEntrySize (c.maxLevel + 1)) 0 begin_ end_
      (fun b t ok t' => EntryRange (c.maxLevel + 1) (i * mmEntrySize (c.maxLevel + 1)) b end_ ∧
        R (i * mmEntrySize (c.maxLevel + 1)) b end_ t ok t')
      (mmMapRoot t begin_ end_ attrs flags pool).ok i (t.tables i)
      ((mmMapRoot t begin_ end_ attrs flags pool).value.tables i) := by
  obtain ⟨root, first, last⟩ := root_bounds (c := c) (Nat.lt_of_lt_of_le nonempty range.inside)
  have inside := range.inside
  rw [mmPtableAddrSpaceEnd] at inside
  refine walk_entry (Nat.zero_mod _) (by omega) (· % pageSize = 0) (fun j => ?_)
    (fun i b t ok t' => EntryRange (c.maxLevel + 1) (i * mmEntrySize (c.maxLevel + 1)) b end_ ∧
      R (i * mmEntrySize (c.maxLevel + 1)) b end_ t ok t')
    ?_ c.rootTableCount begin_ _ t.tables pool (by omega) (by omega) (by omega) range.beginPage i bound
  · rw [Nat.zero_add]
    exact page_of_aligned (Nat.mul_mod_left ..)
  · intro i b t pool bound lower upper running bPage
    rw [Nat.zero_add] at lower upper
    have tableRange := range.table bound lower upper running bPage
    exact ⟨tableRange, tables tableRange t pool⟩

theorem mmMapRoot_empty (t : MmPtable c) (pool : Mpool) (empty : ¬begin_ < end_) :
    mmMapRoot t begin_ end_ attrs flags pool = ⟨true, t, pool⟩ := by
  rw [mmMapRoot, walk_stopped _ _ empty]

theorem mmMapRoot_wellFormed (attrsOk : AttrsFor attrs flags.unmap)
    (range : RootRange c begin_ end_) (t : MmPtable c) (pool : Mpool) (wf : t.WellFormed) :
    (mmMapRoot t begin_ end_ attrs flags pool).value.WellFormed := by
  by_cases nonempty : begin_ < end_
  · intro i bound
    cases mmMapRoot_steps flags range nonempty (R := fun base _ _ t _ t' => t.WellFormed base →
      t'.WellFormed base)
      (fun range t pool => (mmMapLevel_steps attrs flags range (fun range e pool =>
        mmMapPte_wellFormed attrsOk range e pool) t pool).wellFormed) t pool bound with
    | touched inside after stepped success => exact stepped.2 (wf i bound)
    | kept same outside => exact same ▸ wf i bound
  · rw [mmMapRoot_empty flags t pool nonempty]
    exact wf

theorem mmMapRoot_attrsUpdate (attrsOk : AttrsFor attrs flags.unmap)
    (range : RootRange c begin_ end_) (t : MmPtable c) (pool : Mpool) (wf : t.WellFormed) :
    AttrsUpdate attrs flags 0 (mmPtableAddrSpaceEnd c) begin_ end_ t.attrsAt
      (mmMapRoot t begin_ end_ attrs flags pool).ok
        (mmMapRoot t begin_ end_ attrs flags pool).value.attrsAt := by
  intro addr _ upper
  by_cases nonempty : begin_ < end_
  · obtain ⟨bound, first, last⟩ := root_bounds upper
    simp only [MmPtable.attrsAt]
    cases mmMapRoot_steps flags range nonempty (R := fun base begin_ end_ t ok t' => t.WellFormed base →
        AttrsUpdate attrs flags base _ begin_ end_ t.attrsAt ok t'.attrsAt)
      (fun range t pool => (mmMapLevel_steps attrs flags range (fun range e pool =>
        mmMapPte_attrsUpdate attrsOk range e pool) t pool).attrsUpdate range.aligned) t pool bound with
    | touched inside after stepped success =>
      obtain ⟨prepare, commit⟩ := stepped.2 (wf _ bound) addr first last
      refine ⟨prepare, fun flag ok => ?_⟩
      rw [commit flag (success ok)]
      have clipped : (max begin_ (0 + mmIndex addr (c.maxLevel + 1) * mmEntrySize (c.maxLevel + 1)) ≤
          addr ∧ addr < end_) ↔ (begin_ ≤ addr ∧ addr < end_) := by omega
      simp only [clipped]
    | kept kept outside =>
      rw [kept]
      refine ⟨fun _ => rfl, fun _ ok => ?_⟩
      rw [if_neg]
      have := outside ok
      omega
  · rw [mmMapRoot_empty flags t pool nonempty]
    exact ⟨fun _ => rfl, fun _ _ => by rw [if_neg (by omega)]⟩

theorem mmMapRoot_prepares (range : RootRange c begin_ end_) (t : MmPtable c) (pool : Mpool)
    (success : (mmMapRoot t begin_ end_ attrs flags pool).ok = true) :
    (mmMapRoot t begin_ end_ attrs flags pool).value.Prepared attrs flags.unmap begin_ end_ := by
  intro nonempty i bound
  cases mmMapRoot_steps flags range nonempty (R := fun base begin_ end_ _ ok t' => ok = true →
      t'.Prepared attrs flags.unmap begin_ end_ base)
        (fun range t pool => mmMapLevel_prepares range t pool) t pool bound with
  | touched inside after stepped tableOk =>
    intro j jBound
    exact (stepped.2 (tableOk success) j jBound).clip (by omega) rfl
  | kept same outside =>
    intro j jBound
    have entryFits := entry_end_le c.maxLevel (i * mmEntrySize (c.maxLevel + 1)) jBound
    have apart := outside success
    exact .outside (by simp only [OutsideEntry]; omega)

theorem mmMapRoot_keeps_prepared (attrsOk : AttrsFor attrs flags.unmap)
    (range : RootRange c begin_ end_) (t : MmPtable c) (pool : Mpool) (wf : t.WellFormed)
    (prepared : t.Prepared attrs flags.unmap otherBegin otherEnd) :
    (mmMapRoot t begin_ end_ attrs flags pool).value.Prepared attrs flags.unmap otherBegin otherEnd := by
  by_cases nonempty : begin_ < end_
  · intro otherNonempty i bound
    cases mmMapRoot_steps flags range nonempty (R := fun base _ _ t _ t' => t.WellFormed base →
        t.Prepared attrs flags.unmap otherBegin otherEnd base →
          t'.Prepared attrs flags.unmap otherBegin otherEnd base)
      (fun range t pool => mmMapLevel_keeps_prepared attrsOk range t pool) t pool bound with
    | touched inside after stepped success => exact stepped.2 (wf i bound) (prepared otherNonempty i bound)
    | kept same outside => exact same ▸ prepared otherNonempty i bound
  · rw [mmMapRoot_empty flags t pool nonempty]
    exact prepared

/-- The invariant rule of the loop over the root tables. -/
theorem mmMapRoot_walk (range : RootRange c begin_ end_)
    {Q : Nat → Bool → (Nat → PageTable c.maxLevel) → Mpool → Prop} (t : MmPtable c) (pool : Mpool)
    (steps : ∀ i b tables pool, i < c.rootTableCount →
      EntryRange (c.maxLevel + 1) (i * mmEntrySize (c.maxLevel + 1)) b end_ →
      b = max begin_ (i * mmEntrySize (c.maxLevel + 1)) → tables i = t.tables i → Q i true tables pool →
        let r := mmMapLevel attrs flags c.maxLevel b end_ b (t.tables i) pool
        Q (i + 1) r.ok (Function.update tables i r.value) r.state)
    (start : Q (mmIndex begin_ (c.maxLevel + 1)) true t.tables pool) :
    let r := mmMapRoot t begin_ end_ attrs flags pool
    ∃ i, Q i r.ok r.value.tables r.state := by
  by_cases nonempty : begin_ < end_
  · obtain ⟨root, first, last⟩ := root_bounds (Nat.lt_of_lt_of_le nonempty range.inside)
    have inside := range.inside
    rw [mmPtableAddrSpaceEnd] at inside
    refine walk_rule (Q := Q) (n := c.rootTableCount) (Nat.zero_mod _) (by omega)
      c.rootTableCount begin_ _ t.tables pool (by omega) (by omega)
      (fun i b tables pool _ bound from_ upper running => ?_) start
    rw [Nat.zero_add] at from_ upper
    have page : b % pageSize = 0 := by
      rw [from_, Nat.max_def]
      split
      · exact page_of_aligned (Nat.mul_mod_left ..)
      · exact range.beginPage
    exact steps i b tables pool bound (range.table bound (by omega) upper running page) from_
  · rw [mmMapRoot_empty flags t pool nonempty]
    exact ⟨_, start⟩

/-- The cost of the root tables. -/
theorem mmMapRoot_cost (range : RootRange c begin_ end_) (t : MmPtable c) (pool : Mpool) (cost : Nat → Nat)
    (steps : ∀ i b, i < c.rootTableCount →
      EntryRange (c.maxLevel + 1) (i * mmEntrySize (c.maxLevel + 1)) b end_ →
      b = max begin_ (i * mmEntrySize (c.maxLevel + 1)) → ∀ pool, cost i ≤ pool.freeCount →
        (mmMapLevel attrs flags c.maxLevel b end_ b (t.tables i) pool).ok = true ∧
          pool.freeCount ≤ (mmMapLevel attrs flags c.maxLevel b end_ b (t.tables i)
            pool).state.freeCount + cost i)
    (pages : ∑ i ∈ Finset.range c.rootTableCount, cost i ≤ pool.freeCount) :
    let r := mmMapRoot t begin_ end_ attrs flags pool
    r.ok = true ∧ pool.freeCount ≤ r.state.freeCount + ∑ i ∈ Finset.range c.rootTableCount, cost i := by
  obtain ⟨_, ok, paid⟩ := mmMapRoot_walk flags range (Q := fun i ok _ pool' => ok = true ∧
    pool.freeCount + ∑ j ∈ Finset.Ico i c.rootTableCount, cost j ≤
      pool'.freeCount + ∑ j ∈ Finset.range c.rootTableCount, cost j) t
    pool (by
      rintro i b - pool' bound tableRange from_ - ⟨-, so_far⟩
      have sum := Finset.sum_eq_sum_Ico_succ_bot bound cost
      obtain ⟨ok, taken⟩ := steps i b bound tableRange from_ pool' (by omega)
      exact ⟨ok, by omega⟩) ⟨rfl, Nat.add_le_add_left (sum_Ico_le _ _ cost) _⟩
  exact ⟨ok, by omega⟩

/-- A prepared range is committed with any pool, and no page is taken from it. -/
theorem mmMapRoot_freed (range : RootRange c begin_ end_) (t : MmPtable c) (pool : Mpool)
    (prepared : t.Prepared attrs flags.unmap begin_ end_) :
    let r := mmMapRoot t begin_ end_ attrs flags pool
    r.ok = true ∧ pool.Freed r.state := by
  refine (mmMapRoot_walk flags range (Q := fun _ ok _ pool' => ok = true ∧ pool.Freed pool') t pool ?_
    ⟨rfl, .refl pool⟩).elim fun _ result => result
  rintro i b - pool' bound tableRange from_ - ⟨-, freed⟩
  have nonempty := tableRange.nonempty
  obtain ⟨ok, more⟩ := mmMapLevel_freed tableRange (t.tables i) (fun j b' jBound subRange from' pool => by
    have fits := entry_end_le c.maxLevel (i * mmEntrySize (c.maxLevel + 1)) jBound
    exact mmMapPte_freed subRange _ ((prepared (by omega) i bound j jBound).clip (by omega)
      (by omega)) pool) pool'
  exact ⟨ok, freed.trans more⟩

/-- The number of tables an update of the range allocates at most. -/
def mmPtableTablesNeeded (c : StageConfig) (unmap : Bool) (begin_ end_ : Nat) : Nat :=
  ∑ i ∈ Finset.range c.rootTableCount, ∑ j ∈ Finset.range mmPtePerPage,
    mmTablesNeeded unmap begin_ end_ c.maxLevel
      (i * mmEntrySize (c.maxLevel + 1) + j * mmEntrySize c.maxLevel)

theorem mmMapRoot_needed (range : RootRange c begin_ end_) (t : MmPtable c) (pool : Mpool)
    (pages : mmPtableTablesNeeded c flags.unmap begin_ end_ ≤ pool.freeCount) :
    let r := mmMapRoot t begin_ end_ attrs flags pool
    r.ok = true ∧ pool.freeCount ≤ r.state.freeCount + mmPtableTablesNeeded c flags.unmap begin_ end_ := by
  refine mmMapRoot_cost flags range t pool _ (fun i b bound tableRange from_ pool pages => ?_) pages
  refine mmMapLevel_cost attrs flags tableRange _ (t.tables i)
    (fun j b' jBound entryRange from' => ?_) pool pages
  have fits := entry_end_le c.maxLevel (i * mmEntrySize (c.maxLevel + 1)) jBound
  rw [mmTablesNeeded_clip b'
    (min end_ (i * mmEntrySize (c.maxLevel + 1) + mmEntrySize (c.maxLevel + 1))) (by omega) (by omega)]
  exact entryCost_needed entryRange _

/-! ## Prepare, commit and update -/

variable {paBegin paEnd : Nat} {unmap : Bool}

/-- Rounding and capping give a page-aligned range inside the address space. -/
theorem rootRange_map (c : StageConfig) (paBegin paEnd : Nat) :
    RootRange c (mmMapBegin paBegin) (mmMapEnd c paEnd) where
  beginPage := by
    rw [mmMapBegin, archMmClearPa_eq]
    exact Nat.mul_mod_left ..
  endPage := by
    have space : mmPtableAddrSpaceEnd c % pageSize = 0 := page_of_aligned (Nat.mul_mod_left ..)
    have rounded : mmRoundUpToPage paEnd % pageSize = 0 := Nat.mul_mod_left ..
    rw [mmMapEnd, Nat.min_def]
    split <;> assumption
  inside := Nat.min_le_right ..

/-- Attributes after an update: the wanted ones on the range, the old ones everywhere else. -/
def MmPtable.UpdatedBy (attrs : PteBits) (unmap : Bool) (paBegin paEnd : Nat) (t t' : MmPtable c) : Prop :=
  ∀ addr < mmPtableAddrSpaceEnd c, t'.attrsAt addr =
    if mmMapBegin paBegin ≤ addr ∧ addr < mmMapEnd c paEnd then
      (if unmap then 0 else attrs) else t.attrsAt addr

/-- Two tables with the same address space. -/
def MmPtable.SameAttrs (t t' : MmPtable c) : Prop :=
  ∀ addr < mmPtableAddrSpaceEnd c, t'.attrsAt addr = t.attrsAt addr

section Update

variable (attrsOk : AttrsFor attrs unmap) {t' : MmPtable c} {pool pool' : Mpool} (wf : t.WellFormed)

section
include attrsOk wf

theorem mmPtableIdentityPrepare_wellFormed :
    (mmPtableIdentityPrepare t paBegin paEnd attrs unmap pool).value.WellFormed :=
  mmMapRoot_wellFormed ⟨false, unmap⟩ attrsOk (rootRange_map c paBegin paEnd) t pool wf

/-- Preparation changes no address, whether it succeeds or fails. -/
theorem mmPtableIdentityPrepare_sameAttrs :
    t.SameAttrs (mmPtableIdentityPrepare t paBegin paEnd attrs unmap pool).value := fun addr upper =>
  (mmMapRoot_attrsUpdate ⟨false, unmap⟩ attrsOk (rootRange_map c paBegin paEnd)
    t pool wf addr (Nat.zero_le _) upper).1 rfl

theorem mmPtableIdentityPrepare_keeps_prepared (prepared : t.Prepared attrs unmap otherBegin otherEnd) :
    (mmPtableIdentityPrepare t paBegin paEnd attrs unmap pool).value.Prepared attrs unmap otherBegin
      otherEnd :=
  mmMapRoot_keeps_prepared ⟨false, unmap⟩ attrsOk (rootRange_map c paBegin paEnd) t pool wf prepared

end

theorem mmPtableIdentityPrepare_prepares
    (success : (mmPtableIdentityPrepare t paBegin paEnd attrs unmap pool).ok = true) :
    (mmPtableIdentityPrepare t paBegin paEnd attrs unmap pool).value.Prepared attrs unmap (mmMapBegin paBegin)
      (mmMapEnd c paEnd) :=
  mmMapRoot_prepares ⟨false, unmap⟩ (rootRange_map c paBegin paEnd) t pool success

/-- What a commit that passes its `CHECK` did. -/
theorem mmPtableIdentityCommit_some
    (success : mmPtableIdentityCommit t paBegin paEnd attrs unmap pool = some (t', pool')) :
    mmPtableIdentityMap t paBegin paEnd attrs ⟨true, unmap⟩ pool = ⟨true, t', pool'⟩ := by
  simp only [mmPtableIdentityCommit] at success
  split at success
  · next ok =>
    obtain ⟨rfl, rfl⟩ := Prod.mk.inj (Option.some.inj success)
    generalize mmPtableIdentityMap t paBegin paEnd attrs ⟨true, unmap⟩ pool = r at ok
    exact congrArg (Step.mk · _ _) ok
  · cases success

section
include attrsOk wf

theorem mmPtableIdentityCommit_wellFormed
    (success : mmPtableIdentityCommit t paBegin paEnd attrs unmap pool = some (t', pool')) :
    t'.WellFormed := by
  have result := mmMapRoot_wellFormed ⟨true, unmap⟩ attrsOk (rootRange_map c paBegin paEnd) t pool wf
  rw [← mmPtableIdentityMap, mmPtableIdentityCommit_some success] at result
  exact result

theorem mmPtableIdentityCommit_updatedBy
    (success : mmPtableIdentityCommit t paBegin paEnd attrs unmap pool = some (t', pool')) :
    t.UpdatedBy attrs unmap paBegin paEnd t' := by
  intro addr upper
  have result := mmMapRoot_attrsUpdate ⟨true, unmap⟩ attrsOk (rootRange_map c paBegin paEnd)
    t pool wf addr (Nat.zero_le _) upper
  rw [← mmPtableIdentityMap, mmPtableIdentityCommit_some success] at result
  exact result.2 rfl rfl

theorem mmPtableIdentityCommit_keeps_prepared
    (success : mmPtableIdentityCommit t paBegin paEnd attrs unmap pool = some (t', pool'))
    (prepared : t.Prepared attrs unmap otherBegin otherEnd) :
    t'.Prepared attrs unmap otherBegin otherEnd := by
  have result := mmMapRoot_keeps_prepared ⟨true, unmap⟩ attrsOk (rootRange_map c paBegin paEnd)
    t pool wf prepared
  rw [← mmPtableIdentityMap, mmPtableIdentityCommit_some success] at result
  exact result

end

/-- A commit of a prepared range passes its `CHECK`. -/
theorem mmPtableIdentityCommit_of_prepared
    (prepared : t.Prepared attrs unmap (mmMapBegin paBegin) (mmMapEnd c paEnd)) (pool : Mpool) :
    ∃ t' pool', mmPtableIdentityCommit t paBegin paEnd attrs unmap pool = some (t', pool') := by
  exact ⟨_, _, if_pos (mmMapRoot_freed ⟨true, unmap⟩ (rootRange_map c paBegin paEnd) t pool prepared).1⟩

include attrsOk wf in
/-- An update returns; it takes effect on exactly its range, or fails without any effect. -/
theorem mmPtableIdentityUpdate_spec (paBegin paEnd : Nat) (pool : Mpool) :
    ∃ r, mmPtableIdentityUpdate t paBegin paEnd attrs unmap pool = some r ∧ r.value.WellFormed ∧
      (r.ok = true → t.UpdatedBy attrs unmap paBegin paEnd r.value) ∧
      (r.ok = false → t.SameAttrs r.value) := by
  simp only [mmPtableIdentityUpdate]
  have prepareWf : (mmPtableIdentityPrepare t paBegin paEnd attrs unmap pool).value.WellFormed :=
    mmPtableIdentityPrepare_wellFormed attrsOk wf
  have prepareSame : t.SameAttrs (mmPtableIdentityPrepare t paBegin paEnd attrs unmap pool).value :=
    mmPtableIdentityPrepare_sameAttrs attrsOk wf
  split
  · next ok =>
    obtain ⟨t', pool', commit⟩ := mmPtableIdentityCommit_of_prepared (mmPtableIdentityPrepare_prepares ok)
      (mmPtableIdentityPrepare t paBegin paEnd attrs unmap pool).state
    refine ⟨⟨true, t', pool'⟩, by rw [commit]; rfl,
      mmPtableIdentityCommit_wellFormed attrsOk prepareWf commit, ?_, nofun⟩
    intro _ addr upper
    rw [mmPtableIdentityCommit_updatedBy attrsOk prepareWf commit addr upper, prepareSame addr upper]
  · next failed =>
    exact ⟨_, rfl, prepareWf, fun ok => absurd ok failed, fun _ => prepareSame⟩

/-- The number of tables that preparing an update takes at most. -/
def mmPtableUpdatePages (c : StageConfig) (unmap : Bool) (paBegin paEnd : Nat) : Nat :=
  mmPtableTablesNeeded c unmap (mmMapBegin paBegin) (mmMapEnd c paEnd)

/-- Preparation with enough free pages succeeds. -/
theorem mmPtableIdentityPrepare_pages (t : MmPtable c) (attrs : PteBits)
    (pages : mmPtableUpdatePages c unmap paBegin paEnd ≤ pool.freeCount) :
    let r := mmPtableIdentityPrepare t paBegin paEnd attrs unmap pool
    r.ok = true ∧ pool.freeCount ≤ r.state.freeCount + mmPtableUpdatePages c unmap paBegin paEnd :=
  mmMapRoot_needed ⟨false, unmap⟩ (rootRange_map c paBegin paEnd) t pool pages

/-- So does a commit. -/
theorem mmPtableIdentityCommit_pages (t : MmPtable c) (attrs : PteBits)
    (pages : mmPtableUpdatePages c unmap paBegin paEnd ≤ pool.freeCount) :
    ∃ t' pool', mmPtableIdentityCommit t paBegin paEnd attrs unmap pool = some (t', pool') ∧
      pool.freeCount ≤ pool'.freeCount + mmPtableUpdatePages c unmap paBegin paEnd := by
  have committed : (mmPtableIdentityMap t paBegin paEnd attrs ⟨true, unmap⟩ pool).ok = true ∧ _ :=
    mmMapRoot_needed ⟨true, unmap⟩ (rootRange_map c paBegin paEnd) t pool pages
  exact ⟨_, _, if_pos committed.1, committed.2⟩

/-- An update with enough free pages succeeds. The commit is counted like a second preparation. -/
theorem mmPtableIdentityUpdate_pages (t : MmPtable c) (attrs : PteBits)
    (pages : 2 * mmPtableUpdatePages c unmap paBegin paEnd ≤ pool.freeCount) :
    ∃ r, mmPtableIdentityUpdate t paBegin paEnd attrs unmap pool = some r ∧ r.ok = true ∧
      pool.freeCount ≤ r.state.freeCount + 2 * mmPtableUpdatePages c unmap paBegin paEnd := by
  have enough : mmPtableUpdatePages c unmap paBegin paEnd ≤ pool.freeCount := by omega
  obtain ⟨prepared, left⟩ := mmPtableIdentityPrepare_pages t attrs enough
  obtain ⟨t', pool', committed, rest⟩ := mmPtableIdentityCommit_pages
    (mmPtableIdentityPrepare t paBegin paEnd attrs unmap pool).value attrs
    (show mmPtableUpdatePages c unmap paBegin paEnd ≤
      (mmPtableIdentityPrepare t paBegin paEnd attrs unmap pool).state.freeCount by omega)
  refine ⟨⟨true, t', pool'⟩, ?_, rfl, by simp only; omega⟩
  rw [mmPtableIdentityUpdate, if_pos prepared, committed]
  rfl

end Update

end Ptable

end Hafnium.Mm
