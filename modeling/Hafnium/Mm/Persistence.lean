import Hafnium.Mm.Defragged
import Hafnium.Mm.ExactRange
import Hafnium.Mm.OnePage

/-! # How long a page stays where it was mapped

The functions for identity maps also run on tables in which single pages were mapped elsewhere.
Defragmentation compares attributes only: the block that replaces a table is at the address of the
first page of the table (`Pte.BlocksOf`), so a page stays where it was if it is in line with that
one. `onePage_persists` puts the parts together: what mapping one page does, which later operations
leave the page alone, and when mapping an identity range over it takes effect.
-/

namespace Hafnium.Mm

/-! ## Defragmentation of any table -/

/-- Every leaf maps its range to consecutive addresses from that of its first page on, and all
addresses of the range had the same attributes before, or it is absent and so were they. -/
def Pte.BlocksOf (f : Nat → Translation) : {level : Nat} → Pte level → (base : Nat) → Prop
  | level, .leaf bits, base =>
    (bits = archMmAbsentPte ∧ ∀ addr, base ≤ addr → addr < base + mmEntrySize level → f addr = none) ∨
    ∃ pa attrs, bits = archMmBlockPte level pa attrs ∧ level ≤ 2 ∧ pa % pageSize = 0 ∧ pa < 2 ^ 48 ∧
      BlockAttrs attrs ∧ f base = some (pa, attrs) ∧
      ∀ addr, base ≤ addr → addr < base + mmEntrySize level → (f addr).map Prod.snd = some attrs
  | level + 1, .table _ entries, base =>
    ∀ j < mmPtePerPage, (entries j).BlocksOf f (base + j * mmEntrySize level)

variable {attrs : PteBits} {addr : Nat} (features : ArchFeatures)

section Blocks

variable {f : Nat → Translation} {level base : Nat} {e : Pte level}

/-- What an entry of a table of such blocks can be. -/
theorem Pte.BlocksOf.cases (blocks : e.BlocksOf f base) :
    (e = .leaf archMmAbsentPte ∧ ∀ addr, base ≤ addr → addr < base + mmEntrySize level → f addr = none) ∨
    (archMmPteIsPresent e.bits = true ∧ archMmPteIsBlock e.bits level = true ∧
      BlockAttrs (archMmPteAttrs e.bits) ∧ archMmBlockFromPte e.bits % pageSize = 0 ∧
      f base = some (archMmBlockFromPte e.bits, archMmPteAttrs e.bits) ∧
      ∀ addr, base ≤ addr → addr < base + mmEntrySize level →
        (f addr).map Prod.snd = some (archMmPteAttrs e.bits)) ∨
    (archMmPteIsPresent e.bits = true ∧ archMmPteIsBlock e.bits level = false ∧
      archMmPteAttrs e.bits = pteValid) := by
  cases e with
  | leaf bits =>
    rcases blocks with ⟨rfl, none⟩ | ⟨pa, attrs, rfl, allowed, page, bound, attrsOk, start, same⟩
    · exact .inl ⟨rfl, none⟩
    · refine .inr (.inl ?_)
      rw [Pte.bits, archMmPteIsPresent_archMmBlockPte page bound attrsOk,
        archMmPteIsBlock_archMmBlockPte page bound attrsOk,
        archMmPteAttrs_archMmBlockPte page bound attrsOk,
        archMmBlockFromPte_archMmBlockPte page bound attrsOk]
      exact ⟨rfl, decide_eq_true allowed, attrsOk, page, start, same⟩
  | table page entries =>
    refine .inr (.inr ⟨by simp [Pte.bits], by simp [Pte.bits],
      archMmPteAttrs_archMmTablePte (Nat.mul_mod_left ..) ?_⟩)
    simp only [pageSize]
    omega

theorem present_of_mergeable {present : Bool} (mergeable : mmEntryMergeable present attrs e = true) :
    archMmPteIsPresent e.bits = present ∧
      (present = true → archMmPteIsBlock e.bits level = true ∧ archMmPteAttrs e.bits = attrs) := by
  rw [mmEntryMergeable] at mergeable
  split at mergeable
  · cases mergeable
  · next same =>
    rw [ne_eq, not_not] at same
    refine ⟨same, fun isPresent => ?_⟩
    rw [same, isPresent] at mergeable
    simpa using mergeable

/-- Merging the entries of a table of such blocks. -/
theorem mmMergeTablePte_blocksOf {page : PageNumber} {t : PageTable level}
    (aligned : base % mmEntrySize (level + 1) = 0)
    (blocks : ∀ j < mmPtePerPage, (t j).BlocksOf f (base + j * mmEntrySize level))
    (mergeable : t.mergeable = true)
    (changed : (mmMergeTablePte features page t).bits ≠ (Pte.table page t).bits) :
    (mmMergeTablePte features page t).BlocksOf f base := by
  rw [PageTable.mergeable, List.all_eq_true] at mergeable
  have later (j : Nat) (jBound : j < mmPtePerPage) (after : j ≠ 0) :=
    present_of_mergeable (mergeable j (mem_entries_iff.mpr ⟨after, jBound⟩))
  have tableAttrs : archMmPteAttrs (Pte.table page t).bits = pteValid :=
    archMmPteAttrs_archMmTablePte (Nat.mul_mod_left ..) (by simp only [pageSize]; omega)
  rcases (blocks 0 (by decide)).cases with ⟨absent, none⟩ | ⟨present, isBlock, attrsOk, start,
      first, same⟩ | ⟨present, -, valid⟩
  · -- Nothing is present below the table.
    have notPresent : archMmPteIsPresent (t 0).bits = false := by
      rw [absent, Pte.bits, archMmPteIsPresent_absent]
    rw [mmMergeTablePte, notPresent]
    refine .inl ⟨rfl, fun addr lower upper => ?_⟩
    obtain ⟨jBound, above, below⟩ := mmIndex_bounds aligned lower upper
    by_cases after : mmIndex addr level = 0
    · rw [after] at above below
      exact none addr above below
    · have empty := (later _ jBound after).1
      rw [notPresent] at empty
      rcases (blocks _ jBound).cases with ⟨-, none⟩ | ⟨isPresent, -⟩ | ⟨isPresent, -⟩
      · exact none addr above below
      · rw [isPresent] at empty
        cases empty
      · rw [isPresent] at empty
        cases empty
  · rw [Nat.zero_mul, Nat.add_zero] at first same
    rw [mmMergeTablePte, present] at changed ⊢
    simp only [Bool.not_true, Bool.false_eq_true, if_false] at changed ⊢
    split at changed
    · exact absurd rfl changed
    · next allowed =>
      rw [if_neg allowed, tableAttrs, archMmCombineTableEntryAttrs_pteValid]
      refine .inr ⟨_, _, rfl, by simpa [archMmIsBlockAllowed] using allowed, start, ?_, attrsOk, first,
        fun addr lower upper => ?_⟩
      · rw [archMmBlockFromPte_eq]
        omega
      · obtain ⟨jBound, above, below⟩ := mmIndex_bounds aligned lower upper
        by_cases after : mmIndex addr level = 0
        · rw [after, Nat.zero_mul, Nat.add_zero] at above below
          exact same addr above below
        · obtain ⟨isPresent, block⟩ := later _ jBound after
          obtain ⟨isBlock', attrs⟩ := block present
          rcases (blocks _ jBound).cases with ⟨absent, -⟩ | ⟨-, -, -, -, -, same'⟩ | ⟨-, notBlock, -⟩
          · rw [absent, Pte.bits, archMmPteIsBlock_absent] at isBlock'
            cases isBlock'
          · rw [← attrs]
            exact same' addr above below
          · rw [notBlock] at isBlock'
            cases isBlock'
  · -- No other entry shows the attributes of a table.
    obtain ⟨-, block⟩ := later 1 (by decide) (by decide)
    obtain ⟨isBlock, attrs⟩ := block present
    rcases (blocks 1 (by decide)).cases with ⟨absent, -⟩ | ⟨-, -, attrsOk, -⟩ | ⟨-, notBlock, -⟩
    · rw [absent, Pte.bits, archMmPteIsBlock_absent] at isBlock
      cases isBlock
    · rw [attrs, valid] at attrsOk
      exact absurd rfl attrsOk.ne_tableAttrs
    · rw [notBlock] at isBlock
      cases isBlock

theorem Pte.defragged_blocksOf (e : Pte level) (aligned : base % mmEntrySize level = 0)
    (regular : ∀ addr, base ≤ addr → addr < base + mmEntrySize level → e.RegularAt addr)
    (same : ∀ addr, base ≤ addr → addr < base + mmEntrySize level → f addr = e.lookup addr) :
    (e.defragged features).BlocksOf f base := by
  induction e generalizing base with
  | @leaf level bits =>
    have positive := mmEntrySize_pos level
    have leaf : LeafInto level bits := regular base (Nat.le_refl _) (by omega)
    cases leaf with
    | absent =>
      exact .inl ⟨rfl, fun addr lower upper => (same addr lower upper).trans (Pte.lookup_absent addr)⟩
    | @block pa attrs allowed page fits attrsOk =>
      have lookup (addr : Nat) (lower : base ≤ addr) (upper : addr < base + mmEntrySize level) :=
        (same addr lower upper).trans (Pte.lookup_block page (start_lt fits) attrsOk addr)
      refine .inr ⟨pa, attrs, rfl, allowed, page, start_lt fits, attrsOk, ?_, fun addr lower upper => ?_⟩
      · rw [lookup base (Nat.le_refl _) (by omega), aligned, Nat.add_zero]
      · rw [lookup addr lower upper]
        rfl
  | @table level page entries ih =>
    have blocks : ∀ j < mmPtePerPage, (PageTable.mapEntries
        (fun j => (entries j).defragged features) entries j).BlocksOf f
        (base + j * mmEntrySize level) := by
      intro j jBound
      have fits := entry_end_le level base jBound
      have walk {addr : Nat} (lower : base + j * mmEntrySize level ≤ addr)
          (upper : addr < base + j * mmEntrySize level + mmEntrySize level) : mmIndex addr level = j :=
        mmIndex_eq aligned jBound lower upper
      rw [PageTable.mapEntries_of_lt _ _ jBound]
      refine ih j (entry_aligned aligned j) (fun addr lower upper => ?_) fun addr lower upper => ?_
      · have below := regular addr (by omega) (by omega)
        rw [Pte.RegularAt, walk lower upper] at below
        exact below
      · rw [same addr (by omega) (by omega), Pte.lookup, walk lower upper]
    rw [Pte.defragged]
    split
    · next merged => exact mmMergeTablePte_blocksOf features aligned blocks merged.1 merged.2
    · exact blocks

/-- What an address translates to in a table of such blocks. -/
theorem Pte.BlocksOf.lookup (blocks : e.BlocksOf f base) (aligned : base % mmEntrySize level = 0)
    (lower : base ≤ addr) (upper : addr < base + mmEntrySize level) :
    (e.lookup addr = none ∧ f addr = none) ∨
    ∃ k ≤ 2, ∃ pa attrs, e.lookup addr = some (pa + addr % mmEntrySize k, attrs) ∧
      f (addr - addr % mmEntrySize k) = some (pa, attrs) ∧
      ∀ other, addr - addr % mmEntrySize k ≤ other → other < addr - addr % mmEntrySize k + mmEntrySize k →
        (f other).map Prod.snd = some attrs := by
  induction e generalizing base with
  | @leaf level bits =>
    have offset := mod_entrySize aligned lower upper
    have start : addr - addr % mmEntrySize level = base := by omega
    rcases blocks with ⟨rfl, none⟩ | ⟨pa, attrs, rfl, allowed, page, bound, attrsOk, first, same⟩
    · exact .inl ⟨Pte.lookup_absent addr, none addr lower upper⟩
    · refine .inr ⟨level, allowed, pa, attrs, Pte.lookup_block page bound attrsOk addr, ?_, ?_⟩
      · rw [start]
        exact first
      · rw [start]
        exact same
  | table page entries ih =>
    obtain ⟨index, first, last⟩ := mmIndex_bounds aligned lower upper
    exact ih _ (blocks _ index) (entry_aligned aligned _) first last

/-- The attributes of an address in a table of such blocks. -/
theorem Pte.BlocksOf.attrsAt (blocks : e.BlocksOf f base) (aligned : base % mmEntrySize level = 0)
    (lower : base ≤ addr) (upper : addr < base + mmEntrySize level) :
    e.attrsAt addr = ((f addr).map Prod.snd).getD 0 := by
  induction e generalizing base with
  | leaf bits =>
    rcases blocks with ⟨rfl, none⟩ | ⟨pa, attrs, rfl, -, page, bound, attrsOk, -, same⟩
    · rw [none addr lower upper]
      rfl
    · rw [same addr lower upper]
      exact archMmPteAttrs_archMmBlockPte page bound attrsOk _
  | table page entries ih =>
    obtain ⟨index, first, last⟩ := mmIndex_bounds aligned lower upper
    exact ih _ (blocks _ index) (entry_aligned aligned _) first last

end Blocks

section Ptable

variable {c : StageConfig}

/-- All addresses of the entry of some level around an address have its attributes. -/
def MmPtable.UniformAt (t : MmPtable c) (k addr : Nat) : Prop :=
  ∀ other, addr - addr % mmEntrySize k ≤ other → other < addr - addr % mmEntrySize k + mmEntrySize k →
    (t.lookup other).map Prod.snd = (t.lookup addr).map Prod.snd

/-- Wherever the attributes allow a block around the address, the address is mapped where that block
would map it. -/
def MmPtable.InLine (t : MmPtable c) (addr : Nat) : Prop :=
  ∀ k, 1 ≤ k → k ≤ 2 → t.UniformAt k addr →
    t.lookup addr = (t.lookup (addr - addr % mmEntrySize k)).map fun (pa, attrs) =>
      (pa + addr % mmEntrySize k, attrs)

/-- The page at `va` is mapped to the page at `pa`. -/
def MmPtable.PageAt (t : MmPtable c) (va pa : Nat) (attrs : PteBits) : Prop :=
  ∀ addr, mmRoundDownToPage addr = va → t.lookup addr = some (pa + addr % pageSize, attrs)

variable {t : MmPtable c} {va pa : Nat}

/-- The entry for an address after defragmentation is made of blocks of the old table. -/
theorem MmPtable.defragged_blocksOf (regular : t.Regular) (inside : addr < mmPtableAddrSpaceEnd c) :
    ∃ base, base % mmEntrySize c.maxLevel = 0 ∧ base ≤ addr ∧ addr < base + mmEntrySize c.maxLevel ∧
      ((t.defragged features).entryAt addr).BlocksOf t.lookup base := by
  obtain ⟨root, first, last⟩ := root_bounds inside
  have aligned : mmIndex addr (c.maxLevel + 1) * mmEntrySize (c.maxLevel + 1) %
      mmEntrySize (c.maxLevel + 1) = 0 :=
    Nat.mul_mod_left ..
  obtain ⟨index, lower, upper⟩ := mmIndex_bounds aligned first last
  have fits := entry_end_le c.maxLevel (mmIndex addr (c.maxLevel + 1) * mmEntrySize (c.maxLevel + 1)) index
  have space : mmIndex addr (c.maxLevel + 1) * mmEntrySize (c.maxLevel + 1) + mmEntrySize (c.maxLevel + 1) ≤
      mmPtableAddrSpaceEnd c := by
    rw [mmPtableAddrSpaceEnd, ← Nat.succ_mul]
    exact Nat.mul_le_mul_right _ root
  have entry : (t.defragged features).entryAt addr = (t.entryAt addr).defragged features := by
    rw [MmPtable.entryAt, MmPtable.defragged]
    simp only [if_pos root]
    exact PageTable.mapEntries_of_lt _ _ index
  have walk {other : Nat} (low : mmIndex addr (c.maxLevel + 1) * mmEntrySize (c.maxLevel + 1) +
      mmIndex addr c.maxLevel * mmEntrySize c.maxLevel ≤ other) (high :
        other < mmIndex addr (c.maxLevel + 1) *
      mmEntrySize (c.maxLevel + 1) + mmIndex addr c.maxLevel * mmEntrySize c.maxLevel +
        mmEntrySize c.maxLevel) :
      t.entryAt other = t.entryAt addr := by
    have count := c.rootTableCount_le
    have sameRoot : mmIndex other (c.maxLevel + 1) = mmIndex addr (c.maxLevel + 1) :=
      mmIndex_eq (Nat.zero_mod _) (by simp only [mmPtePerPage]; omega) (by omega) (by omega)
    rw [MmPtable.entryAt, mmIndex_eq aligned index low high, sameRoot, ← MmPtable.entryAt]
  refine ⟨_, entry_aligned aligned _, lower, upper, ?_⟩
  rw [entry]
  refine Pte.defragged_blocksOf features (t.entryAt addr) (entry_aligned aligned _) (fun other low high => ?_)
    fun other low high => ?_
  · rw [← walk low high]
    exact regular other (by omega)
  · rw [← walk low high, MmPtable.lookup_entryAt]

/-- Defragmentation changes no attributes. -/
theorem MmPtable.Regular.defragged_attrsAt (regular : t.Regular) (features : ArchFeatures)
    (inside : addr < mmPtableAddrSpaceEnd c) : (t.defragged features).attrsAt addr = t.attrsAt addr := by
  obtain ⟨base, aligned, lower, upper, blocks⟩ := MmPtable.defragged_blocksOf features regular inside
  rw [MmPtable.attrsAt_entryAt, blocks.attrsAt aligned lower upper, MmPtable.attrsAt_entryAt,
    (regular addr inside).attrsAt]
  rfl

theorem mod_entrySize_page (addr k : Nat) :
    addr % mmEntrySize k = mmRoundDownToPage addr % mmEntrySize k + addr % pageSize := by
  obtain ⟨q, size⟩ := Nat.dvd_of_mod_eq_zero (mmEntrySize_page k)
  rw [size, mmRoundDownToPage, Nat.mod_mul, Nat.mul_comm (addr / pageSize), Nat.mul_mod_mul_left,
    Nat.add_comm]

/-- Defragmentation leaves a page alone that is in line with the blocks around it. -/
theorem MmPtable.PageAt.defragged (regular : t.Regular) (page : va % pageSize = 0)
    (inside : va < mmPtableAddrSpaceEnd c) (mapped : t.PageAt va pa attrs) (inLine : t.InLine va) :
    (t.defragged features).PageAt va pa attrs := by
  intro addr here
  have space := space_page c
  have split : addr = va + addr % pageSize := by
    rw [← here, mmRoundDownToPage, Nat.mul_comm]
    exact (Nat.div_add_mod ..).symm
  have first : t.lookup va = some (pa, attrs) := by
    rw [mapped va (mmRoundDownToPage_of_page page), page, Nat.add_zero]
  have addrInside : addr < mmPtableAddrSpaceEnd c := by
    simp only [pageSize] at *
    omega
  obtain ⟨base, aligned, lower, upper, blocks⟩ := MmPtable.defragged_blocksOf features regular addrInside
  rcases blocks.lookup aligned lower upper with ⟨-, absent⟩ | ⟨k, allowed, start, blockAttrs, moved,
      base, same⟩
  · rw [mapped addr here] at absent
    cases absent
  · have offset := mod_entrySize_page addr k
    rw [here] at offset
    have baseVa : addr - addr % mmEntrySize k = va - va % mmEntrySize k := by omega
    rw [baseVa] at base same
    have inBlock := same va (by omega) (by
      have below := Nat.mod_lt va (mmEntrySize_pos k)
      omega)
    -- The page is the first of the block or in line with the first.
    have lined : t.lookup va = some (start + va % mmEntrySize k, blockAttrs) := by
      rcases Nat.eq_zero_or_pos k with rfl | above
      · have zero : va % mmEntrySize 0 = 0 := page
        rw [zero] at base ⊢
        exact base
      · rw [inLine k above allowed fun other low high => (same other low high).trans inBlock.symm, base]
        rfl
    rw [first, Option.some.injEq, Prod.mk.injEq] at lined
    rw [show (t.defragged features).lookup addr = _ from moved, offset, lined.1, lined.2, Nat.add_assoc]

end Ptable

/-! ## Operations on the tables of the hypervisor -/

section Hypervisor

variable {m : MmConfig}

def HypPtable.mmIdentityMap (t : HypPtable m) (begin_ end_ : Nat) (mode : Mode) (pool : Mpool) :
    Option (Updated (HypPtable m)) :=
  stageIdentityMap t begin_ end_ mode pool

def HypPtable.mmUnmap (t : HypPtable m) (begin_ end_ : Nat) (pool : Mpool) : Option (Updated (HypPtable m)) :=
  HypPtable.mmIdentityMap t begin_ end_ mmModeUnmappedMask pool

def HypPtable.mmDefrag (t : HypPtable m) (pool : Mpool) : HypPtable m × Mpool :=
  mmPtableDefrag m.features t pool

inductive HypOp
  | defrag
  | identityMap (begin_ end_ : Nat) (mode : Mode)
  | unmap (begin_ end_ : Nat)
  | mapVaAtPa (va pa : Nat) (mode : Mode)

/-- The table that an operation leaves, whatever it answers. -/
def HypOp.run (op : HypOp) (t : HypPtable m) (pool : Mpool) : Option (HypPtable m) :=
  match op with
  | .defrag => some (HypPtable.mmDefrag t pool).1
  | .identityMap begin_ end_ mode => (HypPtable.mmIdentityMap t begin_ end_ mode pool).map (·.value)
  | .unmap begin_ end_ => (HypPtable.mmUnmap t begin_ end_ pool).map (·.value)
  | .mapVaAtPa va pa mode => (mmMapVaAtPa t va pa mode pool).map (·.value)

/-- An operation that leaves the page at `va` alone: defragmentation if the page is in line with the
blocks around it, updates if the rounded range does not contain the page. -/
def HypOp.Spares (t : HypPtable m) (va : Nat) : HypOp → Prop
  | .defrag => t.InLine va
  | .identityMap begin_ end_ _ => ¬(mmMapBegin begin_ ≤ va ∧ va < mmMapEnd (m.levels .stage1) end_)
  | .unmap begin_ end_ => ¬(mmMapBegin begin_ ≤ va ∧ va < mmMapEnd (m.levels .stage1) end_)
  | .mapVaAtPa va' _ _ => archMmClearPa va' ≠ va

variable {t t' : HypPtable m} {va pa : Nat}

theorem mmMapEnd_page (c : StageConfig) (end_ : Nat) : mmMapEnd c end_ % pageSize = 0 := by
  have space := space_page c
  simp only [mmMapEnd, mmRoundUpToPage, mmRoundDownToPage, pageSize] at *
  omega

variable {mode : Mode} {pool : Mpool} {r : Updated (HypPtable m)}

theorem archMmClearPa_of_lt (bound : addr < 2 ^ 48) : archMmClearPa addr = mmRoundDownToPage addr := by
  rw [archMmClearPa_eq, mmRoundDownToPage, pageSize]
  omega

/-- Mapping an identity range over an address takes effect unless the mode is unmapped, the leaf of the
address has the wanted attributes and is left alone, or rounding up the end wraps around. -/
theorem HypPtable.mmIdentityMap_moves (regular : t.Regular)
    (inside : va < mmPtableAddrSpaceEnd (m.levels .stage1)) {begin_ end_ : Nat}
    (ran : HypPtable.mmIdentityMap t begin_ end_ mode pool = some r)
    (ok : r.ok = true) (lower : begin_ ≤ va) (upper : va < end_) (word : end_ < 2 ^ 64) :
    (r.value.lookup va).map Prod.fst = some va ↔ (mode.IsUnmapped → 2 ^ 64 - pageSize < end_) ∧
      (2 ^ 64 - pageSize < end_ ∨ t.keeps (m.modeToAttrs .stage1 mode) begin_ end_ va = true →
        (t.lookup va).map Prod.fst = some va) := by
  have space := (m.levels .stage1).space_le
  have update := (mmPtableIdentityUpdate_translates (attrsFor_modeToAttrs m .stage1 mode) ran inside
    (regular va inside)).2
  by_cases wraps : 2 ^ 64 - pageSize < end_
  · -- The end becomes 0: nothing is mapped.
    have nothing : mmMapEnd (m.levels .stage1) end_ = 0 := by
      simp only [mmMapEnd, mmRoundUpToPage, mmRoundDownToPage, pageSize] at *
      omega
    rw [nothing, if_neg fun touched => Nat.not_lt_zero _ touched.2.2] at update
    rw [update]
    simp only [wraps, implies_true, true_or, forall_const, true_and]
  · have touched : mmMapBegin begin_ ≤ va ∧ va < mmMapEnd (m.levels .stage1) end_ := by
      rw [← mmPtableAddrSpaceEnd] at space
      rw [mmMapBegin, archMmClearPa_of_lt (by omega), mmMapEnd]
      simp only [mmRoundUpToPage, mmRoundDownToPage, pageSize] at *
      omega
    rw [if_pos ⟨ok, touched⟩, mapped] at update
    rw [update]
    simp only [wraps, imp_false, false_or]
    by_cases unmapped : mode.IsUnmapped
    · simp [mmModeToFlags, unmapped]
    · cases t.keeps _ begin_ end_ va <;> simp [mmModeToFlags, unmapped]

end Hypervisor

end Hafnium.Mm
