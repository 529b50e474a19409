import Hafnium.Mm.UpdateLog

/-! # Break before make

An entry is invalidated from the address that is being mapped, not from where the entry starts. The two
differ when a range begins inside a block: `break_before_make_iff` says that the sequence of
`mm_replace_entry` is right except there.
-/

namespace Hafnium.Mm

open BlockWalk Function

/-- A valid entry is taken away, every address that it covers is invalidated, and only then is the new
entry stored. -/
def BreakBeforeMake (x : TlbContext) (r : Replacement) : Prop :=
  archMmPteIsValid r.old = true → r.new ≠ r.old → ∃ begin_ end_,
    r.events = [.write archMmAbsentPte, .invalidate x.stage x.id begin_ end_, .write r.new] ∧
      ∀ addr, r.base ≤ addr → addr < r.base + mmEntrySize r.level → begin_ ≤ addr ∧ addr < end_

variable {x : TlbContext} {level : Nat} {log : List Replacement}
  {done : (level : Nat) → PteBits → Bool} {e : Pte level} {pool : Mpool} {bits : PteBits}

namespace Logged

/-! ## Which replacements break before they make -/

section Sequence

/-- The replacement of a valid entry is in order if the invalidation starts with the entry. -/
theorem replacement_breaks_iff (enabled : x.enabled = true) (base begin_ : Nat) (pte newPte : Pte level) :
    BreakBeforeMake x (replacement x base begin_ pte newPte) ↔
      (archMmPteIsValid pte.bits = true → newPte.bits ≠ pte.bits → begin_ = base) := by
  have positive := mmEntrySize_pos level
  refine imp_congr_right fun valid => imp_congr_right fun _ => ?_
  simp only [replacement, enabled, show archMmPteIsValid pte.bits = true from valid, Bool.and_self,
    if_true, List.cons_append,
    List.nil_append, List.cons.injEq, MmuEvent.invalidate.injEq, true_and, and_true]
  constructor
  · rintro ⟨_, _, ⟨rfl, rfl⟩, covers⟩
    have first := covers base (Nat.le_refl _) (by omega)
    have last := covers (base + mmEntrySize level - 1) (by omega) (by omega)
    omega
  · rintro rfl
    exact ⟨_, _, ⟨rfl, rfl⟩, fun addr lower upper => ⟨lower, upper⟩⟩

/-- What is added to a log: replacements that are in order, unless something is missed. -/
structure Breaks (x : TlbContext) (misses : Prop) (log log' : List Replacement) : Prop where
  grows : ∀ r ∈ log, r ∈ log'
  breaks : ¬misses → (∀ r ∈ log, BreakBeforeMake x r) → ∀ r ∈ log', BreakBeforeMake x r
  missed : misses → ∃ r ∈ log', ¬BreakBeforeMake x r

variable {p q : Prop} {log' log'' : List Replacement}

theorem Breaks.refl (log : List Replacement) : Breaks x False log log :=
  ⟨fun _ member => member, fun _ before => before, False.elim⟩

theorem Breaks.trans (first : Breaks x p log log') (second : Breaks x q log' log'')
    (known : q → p) : Breaks x p log log'' where
  grows r member := second.grows r (first.grows r member)
  breaks none before := second.breaks (fun misses => none (known misses)) (first.breaks none before)
  missed misses := by
    obtain ⟨r, member, bad⟩ := first.missed misses
    exact ⟨r, second.grows r member, bad⟩

theorem Breaks.congr (same : p ↔ q) (step : Breaks x p log log') : Breaks x q log log' := propext same ▸ step

/-- A log that starts empty is in order unless something is missed. -/
theorem Breaks.all_iff (step : Breaks x p [] log) : (∀ r ∈ log, BreakBeforeMake x r) ↔ ¬p := by
  constructor
  · intro all misses
    obtain ⟨r, member, bad⟩ := step.missed misses
    exact bad (all r member)
  · exact fun none => step.breaks none fun r member => (by cases member)

theorem mmReplaceEntry_breaks (enabled : x.enabled = true) (base begin_ : Nat)
    (pte newPte : Pte level) (s : Logged) :
    Breaks x (archMmPteIsValid pte.bits = true ∧ newPte.bits ≠ pte.bits ∧ begin_ ≠ base) s.log
      (mmReplaceEntry x base begin_ pte newPte s).2.log where
  grows r member := List.mem_append_left _ member
  breaks inOrder before r member := by
    rcases List.mem_append.mp member with old | new
    · exact before r old
    · rw [List.mem_singleton.mp new, replacement_breaks_iff enabled]
      intro valid differs
      by_contra apart
      exact inOrder ⟨valid, differs, apart⟩
  missed misses := by
    refine ⟨_, List.mem_append_right _ (List.mem_singleton.mpr rfl), ?_⟩
    rw [replacement_breaks_iff enabled]
    exact fun inOrder => misses.2.2 (inOrder misses.1 misses.2.1)

end Sequence

end Logged

/-! ## Splitting a block -/

/-- The walk for an address ends in a valid leaf that starts before the address, is not `done` and is split:
a page for the table is free. -/
structure Pte.SplitsInside (done : (level : Nat) → PteBits → Bool) {level : Nat} (e : Pte level)
    (addr : Nat) (pool : Mpool) : Prop where
  inside : addr % mmEntrySize (e.leafLevel addr) ≠ 0
  valid : archMmPteIsValid (e.leafAt addr) = true
  notDone : done (e.leafLevel addr) (e.leafAt addr) = false
  page : ∃ page pool', mpoolAlloc pool = some (page, pool') ∧
    archMmTablePte (page.toNat * pageSize) ≠ e.leafAt addr

theorem mmEntrySize_dvd {k : Nat} (below : k ≤ level) : mmEntrySize k ∣ mmEntrySize level :=
  Nat.pow_dvd_pow 2 (by omega)

theorem Pte.leafLevel_le (e : Pte level) (addr : Nat) : e.leafLevel addr ≤ level := by
  induction e with
  | leaf bits => exact Nat.le_refl _
  | table page entries ih => exact Nat.le_succ_of_le (ih _)

/-- An entry is not split inside from its own start. -/
theorem Pte.SplitsInside.not_start {addr : Nat} (splits : e.SplitsInside done addr pool) :
    addr % mmEntrySize level ≠ 0 := by
  intro start
  exact splits.inside (Nat.mod_eq_zero_of_dvd ((mmEntrySize_dvd (e.leafLevel_le addr)).trans
    (Nat.dvd_of_mod_eq_zero start)))

theorem archMmPteIsValid_iff (bits : PteBits) : archMmPteIsValid bits = true ↔ bits.toNat % 2 = 1 := by
  rw [archMmPteIsValid, decide_eq_true_eq, pteValid, ne_eq, BitVec.toNat_eq, BitVec.toNat_and]
  simp [Nat.and_one_is_mod]

/-- The blocks that a valid block is split into are valid, others are not. -/
theorem mmPopulateEntries_valid (i : Nat)
    (valid : archMmPteIsValid (mmPopulateEntries bits i : Pte level).bits = true) :
    archMmPteIsBlock bits (level + 1) = true ∧ archMmPteIsValid bits = true := by
  rw [mmPopulateEntries, Pte.bits] at valid
  split at valid
  · next block =>
    refine ⟨block, ?_⟩
    obtain ⟨k, size⟩ : 2 ∣ i * mmEntrySize level := Dvd.dvd.mul_left (dvd_pow_self 2 (by omega)) i
    have same : archMmBlockPte level (archMmBlockFromPte bits) (archMmPteAttrs bits) &&& pteValid =
        bits &&& pteValid := by
      rw [archMmBlockPte, archMmBlockFromPte, archMmPteAttrs, BitVec.ofNat_toNat, BitVec.setWidth_eq]
      split
      · simp only [BitVec.and_or_distrib_right, BitVec.and_assoc]
        simp [pteAddrMask, pteValid, pteAttrMask, pteLevel0Block]
      · simp only [BitVec.and_or_distrib_right, BitVec.and_assoc]
        simp [pteAddrMask, pteValid, pteAttrMask]
    rw [archMmPteIsValid_iff, BitVec.toNat_add, BitVec.toNat_ofNat, size] at valid
    rw [archMmPteIsValid, ← same, ← archMmPteIsValid, archMmPteIsValid_iff]
    omega
  · cases valid

namespace Logged

section Sequence

variable {attrs : PteBits} {flags : MmFlags}

/-- The `done` of a range update, on leaves. -/
def rangeDone (attrs : PteBits) (unmap : Bool) (level : Nat) (bits : PteBits) : Bool :=
  mmEntryDone attrs unmap (.leaf bits : Pte level)

variable {begin_ pa va : Nat} {page : PageNumber} {s : Logged} {misses : Prop} {c : StageConfig}
  {addr base end_ : Nat} {unmap : Bool}

theorem entryBase_start (start : addr % mmEntrySize level = 0) : entryBase level addr = addr :=
  Nat.div_mul_cancel (Nat.dvd_of_mod_eq_zero start)

theorem entryBase_ne (inside : addr % mmEntrySize level ≠ 0) : addr ≠ entryBase level addr := by
  intro same
  exact inside (same ▸ Nat.mul_mod_left ..)

/-- A whole entry is replaced from its start. -/
theorem mmReplaceEntry_start_breaks (enabled : x.enabled = true) (start : begin_ % mmEntrySize level = 0)
    (pte newPte : Pte level) (s : Logged) :
    Breaks x False s.log (mmReplaceEntry x (entryBase level begin_) begin_ pte newPte s).2.log :=
  (mmReplaceEntry_breaks enabled _ _ _ _ s).congr
    (iff_of_false (fun misses => misses.2.2 (entryBase_start start).symm) not_false)

/-- If the table below an entry is split inside at an address, then the entry was. -/
theorem mmPopulateEntries_splits {i : Nat} (notDone : done (level + 1) bits = false) {pool' pool'' : Mpool}
    (allocated : mpoolAlloc pool = some (page, pool'))
    (splits : (mmPopulateEntries bits i : Pte level).SplitsInside done begin_ pool'') :
    (Pte.leaf bits : Pte (level + 1)).SplitsInside done begin_ pool := by
  have below : archMmPteIsValid (mmPopulateEntries bits i : Pte level).bits = true := splits.valid
  obtain ⟨block, valid⟩ := mmPopulateEntries_valid i below
  refine ⟨fun start => splits.not_start ?_, valid, notDone, page, pool', allocated, ?_⟩
  · exact Nat.mod_eq_zero_of_dvd ((mmEntrySize_dvd_succ level).trans (Nat.dvd_of_mod_eq_zero start))
  · intro same
    have table : archMmTablePte (page.toNat * pageSize) = bits := same
    rw [← table, archMmPteIsBlock_archMmTablePte] at block
    cases block

/-- Populating the table below an entry before the table is updated. -/
theorem mmPopulateTablePte_breaks (enabled : x.enabled = true) {e : Pte (level + 1)}
    (notDone : ∀ bits, e = .leaf bits → done (level + 1) bits = false) {s' : Logged}
    {nt : PageTable level} (populate : mmPopulateTablePte x begin_ e s = some (page, nt, s'))
    (below : Breaks x ((nt (mmIndex begin_ level)).SplitsInside done begin_ s'.pool) s'.log log) :
    Breaks x (e.SplitsInside done begin_ s.pool) s.log log := by
  cases e with
  | table page entries =>
    cases populate
    exact below.congr ⟨fun ⟨inside, valid, notDone, page⟩ => ⟨inside, valid, notDone, page⟩,
      fun ⟨inside, valid, notDone, page⟩ => ⟨inside, valid, notDone, page⟩⟩
  | leaf bits =>
    simp only [mmPopulateTablePte, Option.map_eq_some_iff, Prod.exists, Prod.mk.injEq] at populate
    obtain ⟨page, pool, allocated, rfl, rfl, rfl⟩ := populate
    have replaced := mmReplaceEntry_breaks enabled (entryBase (level + 1) begin_)
      begin_ (.leaf bits : Pte (level + 1)) (.table page (mmPopulateEntries bits)) ⟨pool, s.log⟩
    refine (replaced.congr ⟨?_, ?_⟩).trans below (mmPopulateEntries_splits (notDone bits rfl) allocated)
    · rintro ⟨valid, differs, apart⟩
      exact ⟨fun start => apart (entryBase_start start).symm, valid, notDone bits rfl, page, pool,
        allocated, differs⟩
    · intro splits
      obtain ⟨page', pool', allocated', differs⟩ := splits.page
      cases allocated.symm.trans allocated'
      exact ⟨splits.valid, differs, entryBase_ne splits.inside⟩

theorem mmPopulateTablePte_ne_none {e : Pte (level + 1)}
    (splits : e.SplitsInside done addr s.pool) : mmPopulateTablePte x begin_ e s ≠ none := by
  cases e with
  | leaf bits =>
    obtain ⟨page, pool, allocated, -⟩ := splits.page
    simp [mmPopulateTablePte, allocated]
  | table page entries => exact Option.some_ne_none _

theorem mmMapEntry_breaks (enabled : x.enabled = true) {descend : Pte level → Logged →
      Step Logged (Pte level)} {end_ : Nat}
    (notDone : misses → mmEntryDone attrs flags.unmap e = false) (inside : misses →
      begin_ % mmEntrySize level ≠ 0)
    (below : mmEntryDone attrs flags.unmap e = false → Breaks x misses s.log (descend e s).state.log) :
    Breaks x misses s.log (mmMapEntry x attrs flags descend begin_ end_ pa e s).state.log := by
  rw [mmMapEntry]
  split
  · next isDone =>
    refine (Breaks.refl _).congr (iff_of_false not_false fun splits => ?_)
    rw [notDone splits] at isDone
    cases isDone
  · next open_ =>
    split
    · next whole =>
      have none : False ↔ misses := iff_of_false not_false fun splits => inside splits whole.2.2
      split
      · exact (mmReplaceEntry_start_breaks enabled whole.2.2 _ _ s).congr none
      · exact (Breaks.refl _).congr none
    · exact below (by simpa using open_)

/-- The entries of a table after the first are updated from their starts. -/
theorem mmMapEntries_breaks (range : EntryRange (level + 1) base begin_ end_)
    (entries : ∀ {base begin_ end_}, EntryRange level base begin_ end_ → ∀ (e : Pte level) (s : Logged),
      Breaks x (e.SplitsInside (rangeDone attrs flags.unmap) begin_ s.pool) s.log
        (mmMapPte x attrs flags level begin_ end_ begin_ e s).state.log)
    (t : PageTable level) (s : Logged) :
    Breaks x ((t (mmIndex begin_ level)).SplitsInside (rangeDone attrs flags.unmap) begin_ s.pool) s.log
      (mmMapEntries (mmMapPte x attrs flags level) begin_ end_ begin_ t s).state.log := by
  obtain ⟨index, first, inside⟩ := mmIndex_bounds range.aligned range.lower range.upper
  have running : begin_ < min end_ (base + mmEntrySize (level + 1)) := by
    have nonempty := range.nonempty
    have upper := range.upper
    omega
  have lastBound : min end_ (base + mmEntrySize (level + 1)) ≤ base + mmPtePerPage * mmEntrySize level := by
    rw [mmEntrySize_succ]
    exact Nat.min_le_right ..
  rw [mmMapEntries, mmLevelEnd_eq range.aligned range.lower range.upper]
  refine walk_establishes (I := fun s' : Logged => Breaks x _ s.log s'.log)
    (table_aligned range.aligned) lastBound (by decide) begin_ _ t s first inside running ?_ ?_
  · exact entries (range.sub index first inside running range.beginPage) _ s
  · intro j after jBound jInside s' so_far
    have aligned := entry_aligned range.aligned j
    have subRange := range.sub jBound (Nat.le_refl _) (by have := mmEntrySize_pos level; omega)
      jInside (page_of_aligned aligned)
    exact so_far.trans (entries subRange (t j) s') fun splits => absurd aligned splits.not_start

theorem rangeDone_splits (splits : e.SplitsInside (rangeDone attrs flags.unmap) begin_ pool) :
    mmEntryDone attrs flags.unmap e = false := by
  by_contra isDone
  obtain ⟨bits, rfl⟩ := mmEntryDone_leaf (Bool.eq_true_of_not_eq_false isDone)
  exact isDone splits.notDone

/-- What the update of an entry adds to the log. -/
theorem mmMapPte_breaks (enabled : x.enabled = true) {base end_ : Nat}
    (range : EntryRange level base begin_ end_) (e : Pte level) (s : Logged) :
    Breaks x (e.SplitsInside (rangeDone attrs flags.unmap) begin_ s.pool) s.log
      (mmMapPte x attrs flags level begin_ end_ begin_ e s).state.log := by
  induction level generalizing base begin_ end_ s with
  | zero =>
    refine mmMapEntry_breaks enabled rangeDone_splits (fun splits => splits.not_start) fun _ => ?_
    exact (Breaks.refl _).congr (iff_of_false not_false fun splits => splits.not_start range.beginPage)
  | succ level ih =>
    refine mmMapEntry_breaks enabled rangeDone_splits (fun splits => splits.not_start) fun notDone => ?_
    rw [mmMapBelow]
    cases populate : mmPopulateTablePte x begin_ e s with
    | none =>
      exact (Breaks.refl _).congr (iff_of_false not_false fun splits => mmPopulateTablePte_ne_none
        splits populate)
    | some populated =>
      obtain ⟨page, nt, s'⟩ := populated
      refine mmPopulateTablePte_breaks enabled (fun bits leaf => ?_) populate
        (mmMapEntries_breaks range (fun range e s => ih range e s) nt s')
      rw [rangeDone, ← leaf]
      exact notDone

/-- What the update of a range adds to the log. -/
theorem mmPtableIdentityMap_breaks (enabled : x.enabled = true) (t : MmPtable c)
    (paBegin paEnd : Nat) (s : Logged) :
    Breaks x (mmMapBegin paBegin < mmMapEnd c paEnd ∧
        (t.entryAt (mmMapBegin paBegin)).SplitsInside (rangeDone attrs flags.unmap)
          (mmMapBegin paBegin) s.pool) s.log
      (mmPtableIdentityMap x attrs flags t paBegin paEnd s).state.log := by
  have range := rootRange_map c paBegin paEnd
  by_cases nonempty : mmMapBegin paBegin < mmMapEnd c paEnd
  · obtain ⟨root, first, last⟩ := root_bounds (c := c) (Nat.lt_of_lt_of_le nonempty range.inside)
    have inside := range.inside
    rw [mmPtableAddrSpaceEnd] at inside
    have tables (i b : Nat) (bound : i < c.rootTableCount) (lower : 0 + i * mmEntrySize (c.maxLevel + 1) ≤ b)
        (upper : b < 0 + i * mmEntrySize (c.maxLevel + 1) + mmEntrySize (c.maxLevel + 1))
          (running : b < mmMapEnd c paEnd) (page : b % pageSize = 0) (s : Logged) :
        Breaks x ((t.tables i (mmIndex b c.maxLevel)).SplitsInside (rangeDone attrs flags.unmap)
          b s.pool) s.log
          (mmMapLevel x attrs flags c.maxLevel b (mmMapEnd c paEnd) b (t.tables i) s).state.log := by
      rw [Nat.zero_add] at lower upper
      exact mmMapEntries_breaks (range.table bound lower upper running page)
        (fun range e s => mmMapPte_breaks enabled range e s) _ s
    simp only [nonempty, true_and, mmPtableIdentityMap]
    refine walk_establishes (I := fun s' : Logged => Breaks x _ s.log s'.log)
      (n := c.rootTableCount) (Nat.zero_mod _) (by omega)
      c.rootTableCount_pos _ _ t.tables s (by omega) (by omega) nonempty ?_ ?_
    · exact tables _ _ root (by omega) (by omega) nonempty range.beginPage s
    · intro i after bound running s' so_far
      have aligned : (0 + i * mmEntrySize (c.maxLevel + 1)) % mmEntrySize (c.maxLevel + 1) = 0 := by
        rw [Nat.zero_add]
        exact Nat.mul_mod_left ..
      exact so_far.trans (tables i _ bound (Nat.le_refl _) (by omega) running (page_of_aligned aligned) s')
        fun splits => absurd (table_aligned aligned) splits.not_start
  · have stopped : mmPtableIdentityMap x attrs flags t paBegin paEnd s = ⟨true, t, s⟩ := by
      rw [mmPtableIdentityMap, walk_stopped _ _ nonempty]
    rw [stopped]
    exact (Breaks.refl _).congr (iff_of_false not_false fun splits => nonempty splits.1)

theorem range_meets (range : EntryRange level base begin_ end_) :
    ¬OutsideEntry level base begin_ end_ := by
  have nonempty := range.nonempty
  have lower := range.lower
  have upper := range.upper
  simp only [OutsideEntry]
  omega

theorem start_of_covered (range : EntryRange level base begin_ end_)
    (covered : CoveredEntry unmap level base begin_ end_) : begin_ % mmEntrySize level = 0 := by
  rw [Nat.le_antisymm covered.1 range.lower]
  exact range.aligned

/-- A prepared range splits nothing. -/
theorem not_splits_of_prepared (range : EntryRange level base begin_ end_)
    (prepared : e.Prepared attrs unmap begin_ end_ base) (pool : Mpool) :
    ¬e.SplitsInside (rangeDone attrs unmap) begin_ pool := by
  intro splits
  induction e generalizing base with
  | leaf bits =>
    rcases prepared with outside | covered | isDone
    · exact range_meets range outside
    · exact splits.not_start (start_of_covered range covered)
    · exact absurd (splits.notDone.symm.trans isDone) Bool.false_ne_true
  | @table level page entries ih =>
    rcases prepared with outside | covered | below
    · exact range_meets range outside
    · exact splits.not_start (start_of_covered range covered)
    · obtain ⟨index, first, inside⟩ := mmIndex_bounds range.aligned range.lower range.upper
      have fits := entry_end_le level base index
      have bound := range.bound
      exact ih _ ⟨entry_aligned range.aligned _, by omega, first, inside, range.nonempty, range.beginPage,
        range.endPage⟩ (below _ index) ⟨splits.inside, splits.valid, splits.notDone, splits.page⟩

theorem not_splits_of_prepared_root {t : MmPtable c} (range : RootRange c begin_ end_)
    (nonempty : begin_ < end_) (prepared : t.Prepared attrs unmap begin_ end_) (pool : Mpool) :
    ¬(t.entryAt begin_).SplitsInside (rangeDone attrs unmap) begin_ pool := by
  obtain ⟨root, first, last⟩ := root_bounds (c := c) (Nat.lt_of_lt_of_le nonempty range.inside)
  have table := range.table root first last nonempty range.beginPage
  obtain ⟨index, lower, upper⟩ := mmIndex_bounds table.aligned first last
  have fits := entry_end_le c.maxLevel (mmIndex begin_ (c.maxLevel + 1) * mmEntrySize (c.maxLevel + 1)) index
  have bound := table.bound
  exact not_splits_of_prepared ⟨entry_aligned table.aligned
    _, by omega, lower, upper, nonempty, range.beginPage, range.endPage⟩
    (prepared nonempty _ root _ index) pool

/-- The commitment after a preparation splits nothing more. -/
theorem mmPtableIdentityUpdate_breaks (enabled : x.enabled = true) (unmap : Bool) (t : MmPtable c)
    (paBegin paEnd : Nat) (s : Logged) :
    ∃ r, mmPtableIdentityUpdate x attrs unmap t paBegin paEnd s = some r ∧
      Breaks x (mmMapBegin paBegin < mmMapEnd c paEnd ∧
        (t.entryAt (mmMapBegin paBegin)).SplitsInside (rangeDone attrs unmap) (mmMapBegin paBegin)
          s.pool) s.log r.state.log := by
  have range := rootRange_map c paBegin paEnd
  have prepares : Breaks x _ s.log (mmPtableIdentityMap x attrs ⟨false, unmap⟩ t paBegin paEnd s).state.log :=
    mmPtableIdentityMap_breaks enabled t paBegin paEnd s
  have same := mmPtableIdentityMap_pool x attrs ⟨false, unmap⟩ t paBegin paEnd s
  rw [mmPtableIdentityUpdate]
  generalize mmPtableIdentityMap x attrs ⟨false, unmap⟩ t paBegin paEnd s = r at prepares same ⊢
  obtain ⟨_ | _, t', s'⟩ := r
  · exact ⟨_, rfl, prepares⟩
  · have prepared : t'.Prepared attrs unmap (mmMapBegin paBegin) (mmMapEnd c paEnd) := by
      have root : (mmMapRoot t _ _ attrs ⟨false, unmap⟩ s.pool).ok = true → _ :=
        mmMapRoot_prepares ⟨false, unmap⟩ range t s.pool
      rw [← Mm.mmPtableIdentityMap, ← same] at root
      exact root rfl
    have commits : Breaks x _ s'.log (mmPtableIdentityMap x attrs ⟨true, unmap⟩
        t' paBegin paEnd s').state.log :=
      mmPtableIdentityMap_breaks enabled t' paBegin paEnd s'
    have ok : (mmPtableIdentityMap x attrs ⟨true, unmap⟩ t' paBegin paEnd s').ok = true := by
      have committed := congrArg Step.ok (mmPtableIdentityMap_pool x attrs ⟨true, unmap⟩ t' paBegin paEnd s')
      exact committed.trans (mmMapRoot_freed ⟨true, unmap⟩ range t' s'.pool prepared).1
    refine ⟨_, by rw [if_pos rfl, if_pos ok], prepares.trans commits fun splits => ?_⟩
    exact absurd splits.2 (not_splits_of_prepared_root range splits.1 prepared _)

/-! ## One page -/

/-- The `done` of the update of one page, on leaves. -/
def pageDone (attrs : PteBits) (unmap : Bool) (pa level : Nat) (bits : PteBits) : Bool :=
  mmOnePageDone attrs unmap pa (.leaf bits : Pte level)

theorem pageDone_splits (splits : e.SplitsInside (pageDone attrs flags.unmap pa) va pool) :
    mmOnePageDone attrs flags.unmap pa e = false := by
  cases e with
  | leaf bits => exact splits.notDone
  | table page entries => cases unmap : flags.unmap <;> simp [mmOnePageDone, Pte.bits]

theorem mmMapEntryOnePage_breaks (enabled : x.enabled = true)
    {descend : Pte level → Logged → Option (Step Logged (Pte level))}
    (below : mmOnePageDone attrs flags.unmap pa e = false → ∃ r, descend e s = some r ∧
      Breaks x (e.SplitsInside (pageDone attrs flags.unmap pa) va s.pool) s.log r.state.log) :
    ∃ r, mmMapEntryOnePage x attrs flags descend va pa e s = some r ∧
      Breaks x (e.SplitsInside (pageDone attrs flags.unmap pa) va s.pool) s.log r.state.log := by
  rw [mmMapEntryOnePage]
  split
  · next isDone =>
    refine ⟨_, rfl, (Breaks.refl _).congr (iff_of_false not_false fun splits => ?_)⟩
    rw [pageDone_splits splits] at isDone
    cases isDone
  · next open_ =>
    split
    · next whole =>
      have none : False ↔ e.SplitsInside (pageDone attrs flags.unmap pa) va s.pool :=
        iff_of_false not_false fun splits => splits.not_start whole.2.2
      split
      · exact ⟨_, rfl, (mmReplaceEntry_start_breaks enabled whole.2.2 _ _ s).congr none⟩
      · exact ⟨_, rfl, (Breaks.refl _).congr none⟩
    · exact below (by simpa using open_)

theorem mmMapTableOnePage_breaks (range : PageRange (level + 1) base va pa)
    {mapEntry : Pte level → Logged → Option (Step Logged (Pte level))} {t : PageTable level}
    (entry : ∃ r, mapEntry (t (mmIndex va level)) s = some r ∧ Breaks x misses s.log r.state.log) :
    ∃ r, mmMapTableOnePage mapEntry va t s = some r ∧ Breaks x misses s.log r.state.log := by
  obtain ⟨r, mapped, breaks⟩ := entry
  rw [mmMapTableOnePage, if_pos range.inTable, mapped]
  exact ⟨_, rfl, breaks⟩

theorem mmMapPteOnePage_breaks (enabled : x.enabled = true) {base : Nat} (range : PageRange level base va pa)
    (e : Pte level) (s : Logged) :
    ∃ r, mmMapPteOnePage x attrs flags level va pa e s = some r ∧
      Breaks x (e.SplitsInside (pageDone attrs flags.unmap pa) va s.pool) s.log r.state.log := by
  induction level generalizing base s with
  | zero =>
    refine mmMapEntryOnePage_breaks enabled fun _ => ⟨_, rfl, ?_⟩
    exact (Breaks.refl _).congr (iff_of_false not_false fun splits => splits.not_start range.vaPage)
  | succ level ih =>
    refine mmMapEntryOnePage_breaks enabled fun notDone => ?_
    rw [mmMapBelowOnePage]
    cases populate : mmPopulateTablePte x va e s with
    | none =>
      refine ⟨_, rfl, (Breaks.refl _).congr (iff_of_false not_false fun splits => ?_)⟩
      exact mmPopulateTablePte_ne_none splits populate
    | some populated =>
      obtain ⟨page, nt, s'⟩ := populated
      obtain ⟨r, mapped, breaks⟩ := mmMapTableOnePage_breaks range (ih range.sub.2 (nt _) s')
      refine ⟨_, by simp only [mapped]; rfl,
        mmPopulateTablePte_breaks enabled (fun bits leaf => ?_) populate breaks⟩
      rw [pageDone, ← leaf]
      exact notDone

theorem mmPtableMapOnePage_breaks (enabled : x.enabled = true) (t : MmPtable c) (va pa : Nat) (s : Logged) :
    ∃ r, mmPtableMapOnePage x attrs flags t va pa s = some r ∧
      Breaks x (archMmClearPa va + pageSize ≤ mmPtableAddrSpaceEnd c ∧
        (t.entryAt (archMmClearPa va)).SplitsInside (pageDone attrs flags.unmap (archMmClearPa pa))
          (archMmClearPa va) s.pool)
        s.log r.state.log := by
  rw [mmPtableMapOnePage]
  split
  · next outside =>
    exact ⟨_, rfl, (Breaks.refl _).congr (iff_of_false not_false fun splits =>
      absurd splits.1 (Nat.not_le.mpr outside))⟩
  · next inside =>
    have fits := Nat.le_of_not_lt inside
    have positive : 0 < pageSize := by decide
    obtain ⟨root, first, last⟩ := root_bounds (c := c)
      (show archMmClearPa va < mmPtableAddrSpaceEnd c by omega)
    have range : PageRange (c.maxLevel + 1)
        (mmIndex (archMmClearPa va) (c.maxLevel + 1) * mmEntrySize (c.maxLevel + 1))
        (archMmClearPa va) (archMmClearPa pa) := by
      refine ⟨Nat.mul_mod_left .., first, last, ?_, ?_, ?_⟩
      all_goals rw [archMmClearPa_eq]
      · exact Nat.mul_mod_left ..
      · exact Nat.mul_mod_left ..
      · simp only [pageSize]
        omega
    obtain ⟨r, mapped, breaks⟩ := mmMapTableOnePage_breaks range
      (mmMapPteOnePage_breaks enabled range.sub.2 _ s)
    rw [mmMapRootOnePage, mapped]
    exact ⟨_, rfl, breaks.congr ⟨fun splits => ⟨fits, splits⟩, And.right⟩⟩

/-! ## Defragmentation -/

theorem mmDefragStep_breaks {defrag : Nat → Logged → Pte level × Logged}
    (mergeable : Pte level → Bool) (entries : ∀ j s, Breaks x False s.log (defrag j s).2.log)
    (indices : List Nat) (s : Step Logged (PageTable level)) :
    Breaks x False s.state.log (indices.foldl (mmDefragStep defrag mergeable) s).state.log := by
  induction indices generalizing s with
  | nil => exact .refl _
  | cons j rest ih =>
    have first := entries j s.state
    exact first.trans (ih (mmDefragStep defrag mergeable s j)) id

theorem mmPtableDefragEntry_breaks (enabled : x.enabled = true) (features : ArchFeatures)
    (base : Nat) (e : Pte level) (s : Logged) :
    Breaks x False s.log (mmPtableDefragEntry x features base base e s).2.log := by
  induction e generalizing base s with
  | leaf bits =>
    rw [mmPtableDefragEntry]
    exact .refl _
  | @table level page entries ih =>
    have first := ih 0 base s
    simp only [mmPtableDefragEntry]
    generalize mmPtableDefragEntry x features base base (entries 0) s = d at first ⊢
    have loop := mmDefragStep_breaks (mmEntryMergeable (archMmPteIsPresent d.1.bits)
      (archMmPteAttrs d.1.bits))
      (fun j s => ih j (base + j * mmEntrySize level) s) (List.range' 1 (mmPtePerPage - 1))
      ⟨true, update entries 0 d.1, d.2⟩
    generalize (List.range' 1 (mmPtePerPage - 1)).foldl _ _ = r at loop ⊢
    have so_far := first.trans loop id
    split
    · split
      · refine so_far.trans ((mmReplaceEntry_breaks enabled _ _ _ _ _).congr ?_) id
        exact iff_of_false (fun misses => misses.2.2 rfl) not_false
      · exact so_far
    · exact so_far

theorem defragBlockAddr_eq (level n : Nat) : defragBlockAddr level n = n * mmEntrySize level := by
  induction n with
  | zero => rw [Nat.zero_mul]; rfl
  | succ n ih =>
    have positive := mmEntrySize_pos level
    rw [defragBlockAddr, iterate_succ_apply', ← defragBlockAddr, ih]
    have next : nextBlock (0 + n * mmEntrySize level) (mmEntrySize level) = 0 +
        n * mmEntrySize level + mmEntrySize level :=
      nextBlock_eq (Nat.zero_mod _) (Nat.le_refl _) (by omega)
    rw [Nat.zero_add] at next
    rw [next, Nat.succ_mul]

theorem mmDefragTable_breaks (enabled : x.enabled = true) (features : ArchFeatures) (i : Nat)
    (t : PageTable level) (s : Logged) :
    Breaks x False s.log (mmDefragTable x features i t s).state.log := by
  rw [mmDefragTable]
  refine mmDefragStep_breaks _ (fun j s => ?_) _ ⟨true, t, s⟩
  have place : defragBlockAddr level (i * mmPtePerPage + j) = i * mmEntrySize (level + 1) +
      j * mmEntrySize level := by
    rw [defragBlockAddr_eq, Nat.add_mul, Nat.mul_assoc, mmEntrySize_succ]
  rw [place]
  exact mmPtableDefragEntry_breaks enabled features _ _ s

theorem mmPtableDefrag_breaks (enabled : x.enabled = true) (features : ArchFeatures)
    (t : MmPtable c) (s : Logged) : Breaks x False s.log (mmPtableDefrag x features t s).2.log := by
  have loop (indices : List Nat) (s : Step Logged (Nat → PageTable c.maxLevel)) :
      Breaks x False s.state.log (indices.foldl (fun (s : Step Logged (Nat → PageTable c.maxLevel)) i =>
        let d := mmDefragTable x features i (s.value i) s.state
        ⟨true, update s.value i d.value, d.state⟩) s).state.log := by
    induction indices generalizing s with
    | nil => exact .refl _
    | cons i rest ih =>
      have table := mmDefragTable_breaks enabled features i (s.value i) s.state
      rw [List.foldl_cons]
      generalize mmDefragTable x features i (s.value i) s.state = d at table ⊢
      exact table.trans (ih ⟨true, update s.value i d.value, d.state⟩) id
  exact loop _ ⟨true, t.tables, s⟩

end Sequence

end Logged

/-! ## Every update -/

/-- The updates of a table: a preparation or a commitment on its own, both in turn, the map of one page and
a defragmentation. -/
inductive PtableUpdate
  | identityMap (paBegin paEnd : Nat) (attrs : PteBits) (flags : MmFlags)
  | identityUpdate (paBegin paEnd : Nat) (attrs : PteBits) (unmap : Bool)
  | mapOnePage (va pa : Nat) (attrs : PteBits) (flags : MmFlags)
  | defrag

namespace PtableUpdate

variable {m : MmConfig} {stage : Stage}

def run (t : MmPtable (m.levels stage)) (pool : Mpool) :
    PtableUpdate → Option (Updated (MmPtable (m.levels stage)))
  | .identityMap paBegin paEnd attrs flags => some (mmPtableIdentityMap t paBegin paEnd attrs flags pool)
  | .identityUpdate paBegin paEnd attrs unmap => mmPtableIdentityUpdate t paBegin paEnd attrs unmap pool
  | .mapOnePage va pa attrs flags => mmPtableMapOnePage t va pa attrs flags pool
  | .defrag => some ⟨true, (mmPtableDefrag m.features t pool).1, (mmPtableDefrag m.features t pool).2⟩

/-- The update with a log, which starts empty. -/
def logged (x : TlbContext) (t : MmPtable (m.levels stage)) (pool : Mpool) :
    PtableUpdate → Option (Step Logged (MmPtable (m.levels stage)))
  | .identityMap paBegin paEnd attrs flags =>
    some (Logged.mmPtableIdentityMap x attrs flags t paBegin paEnd ⟨pool, []⟩)
  | .identityUpdate paBegin paEnd attrs unmap =>
    Logged.mmPtableIdentityUpdate x attrs unmap t paBegin paEnd ⟨pool, []⟩
  | .mapOnePage va pa attrs flags => Logged.mmPtableMapOnePage x attrs flags t va pa ⟨pool, []⟩
  | .defrag =>
    some ⟨true, (Logged.mmPtableDefrag x m.features t ⟨pool, []⟩).1,
      (Logged.mmPtableDefrag x m.features t ⟨pool, []⟩).2⟩

/-- The first address of the update lies inside a valid block that is split. -/
def SplitsInside (t : MmPtable (m.levels stage)) (pool : Mpool) : PtableUpdate → Prop
  | .identityMap paBegin paEnd attrs flags => mmMapBegin paBegin < mmMapEnd (m.levels stage) paEnd ∧
    (t.entryAt (mmMapBegin paBegin)).SplitsInside (Logged.rangeDone attrs flags.unmap)
      (mmMapBegin paBegin) pool
  | .identityUpdate paBegin paEnd attrs unmap => mmMapBegin paBegin < mmMapEnd (m.levels stage) paEnd ∧
    (t.entryAt (mmMapBegin paBegin)).SplitsInside (Logged.rangeDone attrs unmap) (mmMapBegin paBegin) pool
  | .mapOnePage va pa attrs flags => archMmClearPa va + pageSize ≤ mmPtableAddrSpaceEnd (m.levels stage) ∧
    (t.entryAt (archMmClearPa va)).SplitsInside
      (Logged.pageDone attrs flags.unmap (archMmClearPa pa)) (archMmClearPa va) pool
  | .defrag => False

theorem logged_pool (x : TlbContext) (t : MmPtable (m.levels stage)) (pool : Mpool) (update : PtableUpdate) :
    (update.logged x t pool).map (Step.map Logged.pool) = update.run t pool := by
  cases update with
  | identityMap paBegin paEnd attrs flags => exact congrArg some (Logged.mmPtableIdentityMap_pool ..)
  | identityUpdate paBegin paEnd attrs unmap => exact Logged.mmPtableIdentityUpdate_pool ..
  | mapOnePage va pa attrs flags => exact Logged.mmPtableMapOnePage_pool ..
  | defrag =>
    have same := Logged.mmPtableDefrag_pool x m.features t ⟨pool, []⟩
    simp only [run, logged, Option.map_some, ← same]
    rfl

theorem logged_breaks (enabled : x.enabled = true) (t : MmPtable (m.levels stage)) (pool : Mpool)
    (update : PtableUpdate) :
    ∃ r, update.logged x t pool = some r ∧ Logged.Breaks x (update.SplitsInside t pool) [] r.state.log := by
  cases update with
  | identityMap paBegin paEnd attrs flags =>
    exact ⟨_, rfl, Logged.mmPtableIdentityMap_breaks enabled t paBegin paEnd ⟨pool, []⟩⟩
  | identityUpdate paBegin paEnd attrs unmap =>
    exact Logged.mmPtableIdentityUpdate_breaks enabled unmap t paBegin paEnd ⟨pool, []⟩
  | mapOnePage va pa attrs flags => exact Logged.mmPtableMapOnePage_breaks enabled t va pa ⟨pool, []⟩
  | defrag => exact ⟨_, rfl, Logged.mmPtableDefrag_breaks enabled m.features t ⟨pool, []⟩⟩

end PtableUpdate

/-- Every update returns, and every valid entry that it overwrites is broken and invalidated before the
new value is made, if and only if its first address is not inside a valid block that has to be split. -/
theorem break_before_make_iff {m : MmConfig} {x : TlbContext} (enabled : x.enabled = true)
    (t : MmPtable (m.levels x.stage)) (pool : Mpool) (update : PtableUpdate) :
    ∃ r, update.logged x t pool = some r ∧ update.run t pool = some (r.map Logged.pool) ∧
      ((∀ replacement ∈ r.state.log, BreakBeforeMake x replacement) ↔ ¬update.SplitsInside t pool) := by
  obtain ⟨r, logged, breaks⟩ := update.logged_breaks enabled t pool
  refine ⟨r, logged, ?_, breaks.all_iff⟩
  rw [← update.logged_pool x, logged]
  rfl

/-- A platform with 32 address bits. -/
def narrowConfig : MmConfig := ⟨⟨false, false, false⟩, ⟨32, least_supported⟩⟩

def secondVm : TlbContext := ⟨.stage2, true, 1⟩

/-- A stage-2 table of one block: the first 2 MiB can be read and written. -/
def oneBlock : MmPtable (narrowConfig.levels secondVm.stage) :=
  ⟨0, fun i j => .leaf (if i = 0 ∧ j = 0 then
    archMmBlockPte 1 0 (archMmModeToStage2Attrs (mmModeR ||| mmModeW)) else archMmAbsentPte)⟩

/-- The first page of a block is made read-only. -/
theorem break_before_make_first_page :
    ∃ r, (PtableUpdate.identityUpdate 0 0x1000 (archMmModeToStage2Attrs mmModeR) false).logged
      secondVm oneBlock [⟨[5], []⟩] = some r ∧
      r.state.log.length = 2 ∧ ∀ replacement ∈ r.state.log, BreakBeforeMake secondVm replacement := by
  obtain ⟨r, logged, -, inOrder⟩ := break_before_make_iff (x := secondVm) rfl oneBlock [⟨[5], []⟩]
    (.identityUpdate 0 0x1000 _ false)
  have length : ((PtableUpdate.identityUpdate 0 0x1000 (archMmModeToStage2Attrs mmModeR)
      false).logged secondVm oneBlock
      [⟨[5], []⟩]).any (fun r => r.state.log.length == 2) = true := by decide +kernel
  rw [logged, Option.any_some, beq_iff_eq] at length
  exact ⟨r, logged, length, inOrder.mpr fun splits => splits.2.inside (by decide +kernel)⟩

/-- The second page of a block is made read-only: the block is replaced without an invalidation of
its first page. -/
theorem break_before_make_second_page :
    ∃ r replacement, (PtableUpdate.identityUpdate 0x1000 0x2000 (archMmModeToStage2Attrs mmModeR)
      false).logged secondVm oneBlock
        [⟨[5], []⟩] = some r ∧ replacement ∈ r.state.log ∧ replacement.level = 1 ∧ replacement.base = 0 ∧
      replacement.events = [.write archMmAbsentPte, .invalidate .stage2 1 0x1000 0x201000,
        .write replacement.new] ∧
      ¬BreakBeforeMake secondVm replacement := by
  have evaluated : ((PtableUpdate.identityUpdate 0x1000 0x2000 (archMmModeToStage2Attrs mmModeR)
      false).logged secondVm oneBlock
      [⟨[5], []⟩]).any (fun r => r.state.log.any fun q => decide (archMmPteIsValid q.old = true ∧
        q.new ≠ q.old ∧ q.level = 1 ∧ q.base = 0 ∧
        q.events = [.write archMmAbsentPte, .invalidate .stage2 1 0x1000 0x201000, .write q.new])) =
          true := by decide +kernel
  rw [Option.any_eq_true] at evaluated
  obtain ⟨r, logged, evaluated⟩ := evaluated
  simp only [List.any_eq_true, decide_eq_true_eq] at evaluated
  obtain ⟨q, member, valid, differs, level, base, events⟩ := evaluated
  refine ⟨r, q, logged, member, level, base, events, fun inOrder => ?_⟩
  obtain ⟨_, _, events', covers⟩ := inOrder valid differs
  rw [events] at events'
  cases events'
  have first := covers 0 (by omega) (by rw [base, level]; decide)
  omega

end Hafnium.Mm
