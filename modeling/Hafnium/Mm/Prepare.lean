import Hafnium.Lib.Custody
import Hafnium.Mm.MapSpec
import Mathlib.Algebra.BigOperators.Intervals
import Mathlib.Algebra.Order.BigOperators.Group.Finset

/-! # Prepared ranges

A range is prepared in a tree when a committing update of it needs no new table: wherever the
range covers an entry only in part, that entry already is a table, prepared in turn. A successful
update prepares its range, a prepared range is committed with any pool, and no update with the
same attributes takes the preparation of another range away.
-/

namespace Hafnium.Mm

/-- The entry at `base` does not meet the range. -/
def OutsideEntry (level base begin_ end_ : Nat) : Prop := base + mmEntrySize level ≤ begin_ ∨ end_ ≤ base

/-- The range covers the entry at `base`, which may be replaced as a whole. -/
def CoveredEntry (unmap : Bool) (level base begin_ end_ : Nat) : Prop :=
  begin_ ≤ base ∧ base + mmEntrySize level ≤ end_ ∧ (unmap = true ∨ level ≤ 2)

def Pte.Prepared (attrs : PteBits) (unmap : Bool) (begin_ end_ : Nat) : {level : Nat} → Pte level → Nat → Prop
  | level, .leaf bits, base =>
    OutsideEntry level base begin_ end_ ∨ CoveredEntry unmap level base begin_ end_ ∨
      mmEntryDone attrs unmap (.leaf bits : Pte level) = true
  | level + 1, .table _ entries, base =>
    OutsideEntry (level + 1) base begin_ end_ ∨ CoveredEntry unmap (level + 1) base begin_ end_ ∨
      ∀ j < mmPtePerPage, (entries j).Prepared attrs unmap begin_ end_ (base + j * mmEntrySize level)

variable {attrs : PteBits} {unmap : Bool} {flags : MmFlags}
  {base begin_ end_ level otherBegin otherEnd : Nat} {e : Pte level} {ok : Bool} {t t' : PageTable level}
  {page : PageNumber}

theorem Pte.Prepared.outside (outside : OutsideEntry level base begin_ end_) :
    e.Prepared attrs unmap begin_ end_ base := by
  cases e <;> exact .inl outside

theorem Pte.Prepared.covered
    (covered : CoveredEntry unmap level base begin_ end_) : e.Prepared attrs unmap begin_ end_ base := by
  cases e <;> exact .inr (.inl covered)

theorem Pte.Prepared.done (done : mmEntryDone attrs unmap e = true) :
    e.Prepared attrs unmap begin_ end_ base := by
  obtain ⟨bits, rfl⟩ := mmEntryDone_leaf done
  exact .inr (.inr done)

theorem CoveredEntry.sub {j : Nat} (covered : CoveredEntry unmap (level + 1) base begin_ end_)
    (jBound : j < mmPtePerPage) :
    CoveredEntry unmap level (base + j * mmEntrySize level) begin_ end_ := by
  have fits := entry_end_le level base jBound
  obtain ⟨first, last, allowed⟩ := covered
  exact ⟨by omega, by omega, allowed.imp_right fun low => by omega⟩

/-- What is prepared is so in every entry of the table below. -/
theorem Pte.Prepared.entry {entries : PageTable level} {j : Nat}
    (prepared : (Pte.table page entries).Prepared attrs unmap begin_ end_ base) (jBound : j < mmPtePerPage) :
    (entries j).Prepared attrs unmap begin_ end_ (base + j * mmEntrySize level) := by
  have fits := entry_end_le level base jBound
  rcases prepared with outside | covered | below
  · exact .outside (by simp only [OutsideEntry] at outside ⊢; omega)
  · exact .covered (covered.sub jBound)
  · exact below j jBound

/-- Only the part of the range that meets the entry matters. -/
theorem Pte.Prepared.clip {begin' end' : Nat}
    (prepared : e.Prepared attrs unmap begin' end' base) (sameBegin : max begin_ base = max begin' base)
    (sameEnd : min end_ (base + mmEntrySize level) = min end' (base + mmEntrySize level)) :
    e.Prepared attrs unmap begin_ end_ base := by
  induction e generalizing base with
  | @leaf level bits =>
    have positive := mmEntrySize_pos level
    simp only [Pte.Prepared, OutsideEntry, CoveredEntry] at prepared ⊢
    rcases prepared with outside | ⟨first, last, allowed⟩ | isDone
    · exact .inl (by omega)
    · exact .inr (.inl ⟨by omega, by omega, allowed⟩)
    · exact .inr (.inr isDone)
  | @table level page entries ih =>
    have positive := mmEntrySize_pos (level + 1)
    rcases prepared with outside | ⟨first, last, allowed⟩ | below
    · exact .inl (by simp only [OutsideEntry] at outside ⊢; omega)
    · exact .inr (.inl ⟨by omega, by omega, allowed⟩)
    · refine .inr (.inr fun j jBound => ih j (below j jBound) (by omega) ?_)
      have fits := entry_end_le level base jBound
      omega

/-- The range is prepared in every entry of a table that starts at `base`. -/
def PageTable.Prepared (attrs : PteBits) (unmap : Bool) (begin_ end_ : Nat) {level : Nat}
    (t : PageTable level) (base : Nat) : Prop :=
  ∀ j < mmPtePerPage, (t j).Prepared attrs unmap begin_ end_ (base + j * mmEntrySize level)

theorem TableSteps.prepares
    (steps : TableSteps level base begin_ end_ (fun base begin_ end_ _ ok e' => ok = true →
      e'.Prepared attrs flags.unmap begin_ end_ base) ok t t')
    (range : EntryRange (level + 1) base begin_ end_) (success : ok = true) :
    t'.Prepared attrs flags.unmap begin_ end_ base := by
  intro j jBound
  have fits := entry_end_le level base jBound
  cases steps j jBound with
  | touched inside after stepped entryOk => exact (stepped.2 (entryOk success)).clip (by omega) (by omega)
  | kept same outside =>
    have apart := outside success
    have nonempty := range.nonempty
    have positive := mmEntrySize_pos level
    exact .outside (by simp only [OutsideEntry]; omega)

/-- A successful update prepares its range. -/
theorem mmMapPte_prepares (range : EntryRange level base begin_ end_) (e : Pte level)
    (pool : Mpool) (success : (mmMapPte attrs flags level begin_ end_ begin_ e pool).ok = true) :
    (mmMapPte attrs flags level begin_ end_ begin_ e pool).value.Prepared attrs flags.unmap begin_
      end_ base := by
  refine mmMapPte_rule attrs flags (R := fun level base begin_ end_ _ ok e' => ok = true →
    e'.Prepared attrs flags.unmap begin_ end_ base) ?_ ?_ ?_ ?_ range e pool success
  · intro level base begin_ end_ e range isDone _
    exact .done isDone
  · intro level base begin_ end_ e range _ start size allowed _
    exact .covered ⟨by omega, size, allowed⟩
  · intro level base begin_ end_ bits range failed
    cases failed
  · intro level base begin_ end_ page e nt nt' ok range _ _ populated steps success
    exact .inr (.inr (steps.prepares range success))

theorem mmMapLevel_prepares (range : EntryRange (level + 1) base begin_ end_) (t : PageTable level)
    (pool : Mpool) (success : (mmMapLevel attrs flags level begin_ end_ begin_ t pool).ok = true) :
    (mmMapLevel attrs flags level begin_ end_ begin_ t pool).value.Prepared attrs flags.unmap begin_
      end_ base :=
  (mmMapLevel_steps attrs flags range (fun range e pool => mmMapPte_prepares range e pool)
    t pool).prepares range success

/-- What the update of one entry costs: with `cost` free pages it succeeds and takes no more than those. -/
def EntryCost (attrs : PteBits) (flags : MmFlags) {level : Nat} (begin_ end_ : Nat) (e : Pte level)
    (cost : Nat) : Prop :=
  ∀ pool : Mpool, cost ≤ pool.freeCount →
    (mmMapPte attrs flags level begin_ end_ begin_ e pool).ok = true ∧
      pool.freeCount ≤ (mmMapPte attrs flags level begin_ end_ begin_ e pool).state.freeCount + cost

theorem sum_Ico_le (i n : Nat) (cost : Nat → Nat) :
    ∑ j ∈ Finset.Ico i n, cost j ≤ ∑ j ∈ Finset.range n, cost j :=
  Finset.sum_le_sum_of_subset fun _ member => Finset.mem_range.mpr (Finset.mem_Ico.mp member).2

/-- The cost of a table from the costs of its entries. -/
theorem mmMapLevel_cost (attrs : PteBits) (flags : MmFlags) (range : EntryRange (level + 1) base begin_ end_)
    (cost : Nat → Nat) (t : PageTable level)
    (steps : ∀ j b, j < mmPtePerPage →
      EntryRange level (base + j * mmEntrySize level) b (min end_ (base + mmEntrySize (level + 1))) →
      b = max begin_ (base + j * mmEntrySize level) →
      EntryCost attrs flags b (min end_ (base + mmEntrySize (level + 1))) (t j) (cost j))
    (pool : Mpool) (pages : ∑ j ∈ Finset.range mmPtePerPage, cost j ≤ pool.freeCount) :
    let r := mmMapLevel attrs flags level begin_ end_ begin_ t pool
    r.ok = true ∧ pool.freeCount ≤ r.state.freeCount + ∑ j ∈ Finset.range mmPtePerPage, cost j := by
  obtain ⟨_, ok, paid⟩ := mmMapLevel_walk attrs flags range (Q := fun i ok _ pool' => ok = true ∧
    pool.freeCount + ∑ j ∈ Finset.Ico i mmPtePerPage, cost j ≤
      pool'.freeCount + ∑ j ∈ Finset.range mmPtePerPage, cost j) t pool
    (by
      rintro j b - pool' jBound subRange from_ - ⟨-, so_far⟩
      have sum := Finset.sum_eq_sum_Ico_succ_bot jBound cost
      obtain ⟨ok, taken⟩ := steps j b jBound subRange from_ pool' (by omega)
      exact ⟨ok, by omega⟩) ⟨rfl, Nat.add_le_add_left (sum_Ico_le _ _ cost) _⟩
  exact ⟨ok, by omega⟩

/-- Populating takes a page only for an entry that is not a table yet. -/
theorem mmPopulateTablePte_cost {e : Pte (level + 1)} (own : Nat)
    (ownOk : (∃ page entries, e = .table page entries) ∨ own = 1) (pool : Mpool)
    (pages : own ≤ pool.freeCount) :
    ∃ page nt pool', mmPopulateTablePte e pool = some (page, nt, pool') ∧ Populated e page nt ∧
      pool.freeCount ≤ pool'.freeCount + own := by
  cases e with
  | table page entries => exact ⟨page, entries, pool, rfl, .table page entries, Nat.le_add_right ..⟩
  | leaf bits =>
    obtain rfl : own = 1 := by
      rcases ownOk with ⟨page, entries, ⟨⟩⟩ | one
      exact one
    cases alloc : mpoolAlloc pool with
    | none =>
      have := mpoolAlloc_none alloc
      omega
    | some result =>
      obtain ⟨page, pool'⟩ := result
      refine ⟨page, mmPopulateEntries bits, pool', ?_, .leaf bits page, mpoolAlloc_some alloc⟩
      simp [mmPopulateTablePte, alloc]

/-- The cost of an entry that has to be populated, from the costs below it. -/
theorem entryCost_below (range : EntryRange (level + 1) base begin_ end_) {e : Pte (level + 1)}
    (own : Nat) (ownOk : (∃ page entries, e = .table page entries) ∨ own = 1) (cost : Nat → Nat)
    (steps : ∀ page nt, Populated e page nt → ∀ j b, j < mmPtePerPage →
      EntryRange level (base + j * mmEntrySize level) b (min end_ (base + mmEntrySize (level + 1))) →
      b = max begin_ (base + j * mmEntrySize level) →
      EntryCost attrs flags b (min end_ (base + mmEntrySize (level + 1))) (nt j) (cost j)) :
    EntryCost attrs flags begin_ end_ e (own + ∑ j ∈ Finset.range mmPtePerPage, cost j) := by
  intro pool pages
  rcases mmMapPte_cases attrs flags range e pool with ⟨-, result⟩ | ⟨-, -, ok, -, left⟩ | ⟨-, -, result⟩
  · rw [result]
    exact ⟨rfl, Nat.le_add_right ..⟩
  · refine ⟨ok, ?_⟩
    rw [left]
    have := (mmFreePagePte_freed e pool).freeCount_le
    split <;> omega
  · obtain ⟨page, nt, pool', populate, populated, taken⟩ := mmPopulateTablePte_cost own ownOk pool (by omega)
    have table := mmMapLevel_cost attrs flags range cost nt (steps page nt populated) pool' (by omega)
    rw [result]
    simp only [mmDescend, mmMapBelow, populate]
    exact ⟨table.1, by have := table.2; omega⟩

/-- A prepared leaf that the range meets is left alone or replaced as a whole. -/
theorem Pte.Prepared.flat {bits : PteBits}
    (prepared : (Pte.leaf bits : Pte level).Prepared attrs unmap begin_ end_ base)
    (range : EntryRange level base begin_ end_) :
    mmEntryDone attrs unmap (.leaf bits : Pte level) = true ∨ WholeEntry unmap level base begin_ end_ := by
  have lower := range.lower
  rcases prepared with outside | ⟨first, size, allowed⟩ | isDone
  · have upper := range.upper
    have nonempty := range.nonempty
    simp only [OutsideEntry] at outside
    omega
  · exact .inr ⟨by omega, size, allowed⟩
  · exact .inl isDone

/-- A prepared table that the range meets is replaced as a whole or prepared below. -/
theorem Pte.Prepared.below {entries : PageTable level}
    (prepared : (Pte.table page entries).Prepared attrs unmap begin_ end_ base)
    (range : EntryRange (level + 1) base begin_ end_) :
    WholeEntry unmap (level + 1) base begin_ end_ ∨
      PageTable.Prepared attrs unmap begin_ end_ entries base := by
  have lower := range.lower
  rcases prepared with outside | ⟨first, size, allowed⟩ | below
  · have upper := range.upper
    have nonempty := range.nonempty
    simp only [OutsideEntry] at outside
    omega
  · exact .inl ⟨by omega, size, allowed⟩
  · exact .inr below

theorem mmMapLevel_freed (range : EntryRange (level + 1) base begin_ end_) (t : PageTable level)
    (entries : ∀ j b, j < mmPtePerPage →
      EntryRange level (base + j * mmEntrySize level) b (min end_ (base + mmEntrySize (level + 1))) →
      b = max begin_ (base + j * mmEntrySize level) → ∀ pool : Mpool,
        let r := mmMapPte attrs flags level b (min end_ (base + mmEntrySize (level + 1))) b (t j) pool
        r.ok = true ∧ pool.Freed r.state) (pool : Mpool) :
    let r := mmMapLevel attrs flags level begin_ end_ begin_ t pool
    r.ok = true ∧ pool.Freed r.state := by
  refine (mmMapLevel_walk attrs flags range (Q := fun _ ok _ pool' => ok = true ∧ pool.Freed pool') t pool ?_
    ⟨rfl, .refl pool⟩).elim fun _ result => result
  rintro j b - pool' jBound subRange from_ - ⟨-, freed⟩
  obtain ⟨ok, more⟩ := entries j b jBound subRange from_ pool'
  exact ⟨ok, freed.trans more⟩

/-- An entry that is left alone or replaced as a whole takes no page. -/
theorem flat_freed (range : EntryRange level base begin_ end_)
    (flat : mmEntryDone attrs flags.unmap e = true ∨ WholeEntry flags.unmap level base begin_ end_)
    (pool : Mpool) :
    let r := mmMapPte attrs flags level begin_ end_ begin_ e pool
    r.ok = true ∧ pool.Freed r.state := by
  rcases mmMapPte_cases attrs flags range e pool with ⟨-, result⟩ | ⟨-, -, ok, -, state⟩ | ⟨notDone,
      partly, -⟩
  · rw [result]
    exact ⟨rfl, .refl pool⟩
  · refine ⟨ok, ?_⟩
    rw [state]
    split
    · exact mmFreePagePte_freed e pool
    · exact .refl pool
  · rcases flat with isDone | whole
    · rw [isDone] at notDone
      cases notDone
    · exact absurd whole partly

/-- The update of a prepared entry takes no page. -/
theorem mmMapPte_freed (range : EntryRange level base begin_ end_) (e : Pte level)
    (prepared : e.Prepared attrs flags.unmap begin_ end_ base) (pool : Mpool) :
    let r := mmMapPte attrs flags level begin_ end_ begin_ e pool
    r.ok = true ∧ pool.Freed r.state := by
  induction e generalizing base begin_ end_ pool with
  | leaf bits => exact flat_freed range (prepared.flat range) pool
  | @table level page entries ih =>
    rcases prepared.below range with whole | below
    · exact flat_freed range (.inr whole) pool
    · have table : (mmMapLevel attrs flags level begin_ end_ begin_ entries pool).ok = true ∧
          pool.Freed (mmMapLevel attrs flags level begin_ end_ begin_ entries pool).state :=
        mmMapLevel_freed range entries (fun j b jBound subRange from_ pool => by
          have fits := entry_end_le level base jBound
          exact ih j subRange ((below j jBound).clip (by omega) (by omega)) pool) pool
      rcases mmMapPte_cases attrs flags range _ pool with ⟨isDone, -⟩ | ⟨-, whole, -⟩ | ⟨-, -, result⟩
      · exact flat_freed range (.inl isDone) pool
      · exact flat_freed range (.inr whole) pool
      · rw [result]
        exact table

/-- Entries that are left alone or replaced as a whole cost nothing. -/
theorem entryCost_zero (range : EntryRange level base begin_ end_)
    (flat : mmEntryDone attrs flags.unmap e = true ∨ WholeEntry flags.unmap level base begin_ end_) :
    EntryCost attrs flags begin_ end_ e 0 := fun pool _ =>
  (flat_freed range flat pool).imp_right Mpool.Freed.freeCount_le

instance (level base begin_ end_ : Nat) : Decidable (OutsideEntry level base begin_ end_) :=
  inferInstanceAs (Decidable (_ ∨ _))

instance (unmap : Bool) (level base begin_ end_ : Nat) :
    Decidable (CoveredEntry unmap level base begin_ end_) :=
  inferInstanceAs (Decidable (_ ∧ _ ∧ _))

/-- The number of tables an update of the entry at `base` allocates at most. -/
def mmTablesNeeded (unmap : Bool) (begin_ end_ : Nat) : (level base : Nat) → Nat
  | 0, _ => 0
  | level + 1, base =>
    if OutsideEntry (level + 1) base begin_ end_ ∨ CoveredEntry unmap (level + 1) base begin_ end_ then 0
    else 1 + ∑ j ∈ Finset.range mmPtePerPage,
      mmTablesNeeded unmap begin_ end_ level (base + j * mmEntrySize level)

theorem mmTablesNeeded_clip (begin' end' : Nat) (sameBegin : max begin_ base = max begin' base)
    (sameEnd : min end_ (base + mmEntrySize level) = min end' (base + mmEntrySize level)) :
    mmTablesNeeded unmap begin_ end_ level base = mmTablesNeeded unmap begin' end' level base := by
  induction level generalizing base with
  | zero => rfl
  | succ level ih =>
    have positive := mmEntrySize_pos (level + 1)
    have outside : OutsideEntry (level + 1) base begin_ end_ ↔ OutsideEntry (level + 1) base begin' end' := by
      simp only [OutsideEntry]
      omega
    have covered : CoveredEntry unmap (level + 1) base begin_ end_ ↔
        CoveredEntry unmap (level + 1) base begin' end' :=
      and_congr (by omega) (and_congr (by omega) Iff.rfl)
    have sum : ∑ j ∈ Finset.range mmPtePerPage,
        mmTablesNeeded unmap begin_ end_ level (base + j * mmEntrySize level) =
        ∑ j ∈ Finset.range mmPtePerPage, mmTablesNeeded unmap begin' end' level
          (base + j * mmEntrySize level) := by
      refine Finset.sum_congr rfl fun j member => ?_
      have fits := entry_end_le level base (Finset.mem_range.mp member)
      exact ih (by omega) (by omega)
    simp only [mmTablesNeeded, outside, covered, sum]

/-- With that many free pages an update succeeds. -/
theorem entryCost_needed (range : EntryRange level base begin_ end_) (e : Pte level) :
    EntryCost attrs flags begin_ end_ e (mmTablesNeeded flags.unmap begin_ end_ level base) := by
  induction level generalizing base begin_ end_ with
  | zero => exact entryCost_zero range (.inr (range.wholePage flags.unmap))
  | succ level ih =>
    have lower := range.lower
    rw [mmTablesNeeded]
    split
    · next flat =>
      rcases flat with outside | ⟨first, size, allowed⟩
      · have upper := range.upper
        have nonempty := range.nonempty
        simp only [OutsideEntry] at outside
        omega
      · exact entryCost_zero range (.inr ⟨by omega, size, allowed⟩)
    · refine entryCost_below range 1 (.inr rfl) _ fun page nt populated j b jBound subRange from_ => ?_
      have fits := entry_end_le level base jBound
      rw [mmTablesNeeded_clip b (min end_ (base + mmEntrySize (level + 1))) (by omega) (by omega)]
      exact ih subRange _

/-- Populating an entry keeps a range prepared below it, unless the entry as a whole takes care of it. -/
theorem Populated.prepared {e : Pte (level + 1)} {nt : PageTable level}
    (populated : Populated e page nt) (attrsOk : AttrsFor attrs unmap) (wf : e.WellFormed base)
    (aligned : base % mmEntrySize (level + 1) = 0) (bound : base + mmEntrySize (level + 1) ≤ 2 ^ 48)
    (prepared : e.Prepared attrs unmap begin_ end_ base) :
    OutsideEntry (level + 1) base begin_ end_ ∨ CoveredEntry unmap (level + 1) base begin_ end_ ∨
      ∀ j < mmPtePerPage, (nt j).Prepared attrs unmap begin_ end_ (base + j * mmEntrySize level) := by
  cases populated with
  | table page entries => exact prepared
  | leaf bits page =>
    rcases prepared with outside | covered | isDone
    · exact .inl outside
    · exact .inr (.inl covered)
    · refine .inr (.inr fun j jBound => ?_)
      have fits := entry_end_le level base jBound
      obtain ⟨sub, entry, leaf, same⟩ := populated_leaf wf aligned bound jBound
      rw [entry]
      apply Pte.Prepared.done
      rw [mmEntryDone_iff attrsOk leaf (entry_aligned aligned j) (by omega), same]
      exact (mmEntryDone_iff attrsOk wf aligned bound).mp isDone

theorem TableSteps.keeps_prepared
    (steps : TableSteps level base begin_ end_ (fun base _ _ e _ e' => e.WellFormed base →
      e.Prepared attrs flags.unmap otherBegin otherEnd base →
        e'.Prepared attrs flags.unmap otherBegin otherEnd base) ok t t')
    (wf : t.WellFormed base) (prepared : t.Prepared attrs flags.unmap otherBegin otherEnd base) :
    t'.Prepared attrs flags.unmap otherBegin otherEnd base := by
  intro j jBound
  cases steps j jBound with
  | touched inside after stepped entryOk => exact stepped.2 (wf j jBound) (prepared j jBound)
  | kept same outside => exact same ▸ prepared j jBound

/-- Updates with the same attributes keep other ranges prepared. -/
theorem mmMapPte_keeps_prepared (attrsOk : AttrsFor attrs flags.unmap)
    (range : EntryRange level base begin_ end_) (e : Pte level) (pool : Mpool) (wf : e.WellFormed base)
    (prepared : e.Prepared attrs flags.unmap otherBegin otherEnd base) :
    (mmMapPte attrs flags level begin_ end_ begin_ e pool).value.Prepared attrs flags.unmap
      otherBegin otherEnd base := by
  refine mmMapPte_rule attrs flags (R := fun _ base _ _ e _ e' => e.WellFormed base →
    e.Prepared attrs flags.unmap otherBegin otherEnd base →
      e'.Prepared attrs flags.unmap otherBegin otherEnd base) ?_ ?_ ?_ ?_ range e pool wf prepared
  · intro level base begin_ end_ e range isDone wf prepared
    exact prepared
  · intro level base begin_ end_ e range _ start size allowed wf prepared
    split
    · obtain ⟨leaf, current⟩ := mmNewPte_leaf attrsOk range.aligned range.bound allowed
      exact .done ((mmEntryDone_iff attrsOk leaf range.aligned range.bound).mpr current)
    · exact prepared
  · intro level base begin_ end_ bits range wf prepared
    exact prepared
  · intro level base begin_ end_ page e nt nt' ok range _ _ populated steps wf prepared
    rcases populated.prepared attrsOk wf range.aligned range.bound prepared with outside | covered | below
    · exact .outside outside
    · exact .covered covered
    · exact .inr (.inr (steps.keeps_prepared (populated.wellFormed wf range.aligned range.bound) below))

theorem mmMapLevel_keeps_prepared (attrsOk : AttrsFor attrs flags.unmap)
    (range : EntryRange (level + 1) base begin_ end_) (t : PageTable level) (pool : Mpool)
    (wf : t.WellFormed base) (prepared : t.Prepared attrs flags.unmap otherBegin otherEnd base) :
    (mmMapLevel attrs flags level begin_ end_ begin_ t pool).value.Prepared attrs flags.unmap
      otherBegin otherEnd base :=
  (mmMapLevel_steps attrs flags range (fun range e pool => mmMapPte_keeps_prepared attrsOk range e pool) t
    pool).keeps_prepared wf prepared

end Hafnium.Mm
