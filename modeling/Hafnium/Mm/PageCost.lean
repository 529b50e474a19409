import Hafnium.Mm.Funding
import Hafnium.Mm.Pages

/-! # What an update costs

An update takes a page for every block that it has to split, and gives back the pages of the tables that it
replaces as a whole. `splits` counts the tables to add for ranges that get the same attributes one after the
other, `replaced` the tables to give back. Both are read off the table before the update, which succeeds
exactly if the pool has the pages for the tables to add.
-/

namespace Hafnium.Mm

open BlockWalk Function

/-! ## The counts -/

/-- The range has addresses in common with the entry at `base`. -/
def MeetsEntry (level base : Nat) (r : Nat × Nat) : Prop := max r.1 base < min r.2 (base + mmEntrySize level)

instance (level base : Nat) (r : Nat × Nat) : Decidable (MeetsEntry level base r) :=
  inferInstanceAs (Decidable (_ < _))

/-- The first of the ranges that meets the entry at `base` and takes effect there needs a table below it. -/
def NeedsSplit (unmap : Bool) (level base : Nat) : List (Nat × Nat) → Prop
  | [] => False
  | r :: rest =>
    ¬CoveredEntry unmap level base r.1 r.2 ∧ (MeetsEntry level base r ∨ NeedsSplit unmap level base rest)

instance decidableNeedsSplit (unmap : Bool) (level base : Nat) : (ranges : List (Nat × Nat)) →
    Decidable (NeedsSplit unmap level base ranges)
  | [] => .isFalse id
  | _ :: rest =>
    have := decidableNeedsSplit unmap level base rest
    inferInstanceAs (Decidable (_ ∧ (_ ∨ _)))

/-- The number of tables to add at and below a block at `base` that the ranges are to change. -/
def splitsFor (unmap : Bool) (ranges : List (Nat × Nat)) : (level base : Nat) → Nat
  | 0, _ => 0
  | level + 1, base =>
    if NeedsSplit unmap (level + 1) base ranges then
      1 + ∑ j ∈ Finset.range mmPtePerPage, splitsFor unmap ranges level (base + j * mmEntrySize level)
    else 0

/-- The number of tables to add below the entry at `base`. A block that has the attributes already
is left alone. -/
def Pte.splits (attrs : PteBits) (unmap : Bool) (ranges : List (Nat × Nat)) :
    {level : Nat} → Pte level → (base : Nat) → Nat
  | level, .leaf bits, base =>
    if mmEntryDone attrs unmap (.leaf bits : Pte level) then 0 else splitsFor unmap ranges level base
  | level + 1, .table _ entries, base =>
    ∑ j ∈ Finset.range mmPtePerPage, (entries j).splits attrs unmap ranges (base + j * mmEntrySize level)

def PageTable.splits (attrs : PteBits) (unmap : Bool) (ranges : List (Nat × Nat)) {level : Nat}
    (t : PageTable level) (base : Nat) : Nat :=
  ∑ j ∈ Finset.range mmPtePerPage, (t j).splits attrs unmap ranges (base + j * mmEntrySize level)

def MmPtable.splits (attrs : PteBits) (unmap : Bool) (ranges : List (Nat × Nat)) {c : StageConfig}
    (t : MmPtable c) : Nat :=
  ∑ i ∈ Finset.range c.rootTableCount,
    (t.tables i).splits attrs unmap ranges (i * mmEntrySize (c.maxLevel + 1))

/-- The number of tables at and below the entry at `base` that an update of the range replaces as a whole. -/
def Pte.replaced (unmap : Bool) (r : Nat × Nat) : {level : Nat} → Pte level → (base : Nat) → Nat
  | _, .leaf _, _ => 0
  | level + 1, .table page entries, base =>
    if CoveredEntry unmap (level + 1) base r.1 r.2 then (Pte.table page entries).pages.card
    else ∑ j ∈ Finset.range mmPtePerPage, (entries j).replaced unmap r (base + j * mmEntrySize level)

def PageTable.replaced (unmap : Bool) (r : Nat × Nat) {level : Nat} (t : PageTable level)
    (base : Nat) : Nat :=
  ∑ j ∈ Finset.range mmPtePerPage, (t j).replaced unmap r (base + j * mmEntrySize level)

def MmPtable.replaced (unmap : Bool) (r : Nat × Nat) {c : StageConfig} (t : MmPtable c) : Nat :=
  ∑ i ∈ Finset.range c.rootTableCount, (t.tables i).replaced unmap r (i * mmEntrySize (c.maxLevel + 1))

variable {attrs : PteBits} {unmap : Bool} {ranges rest : List (Nat × Nat)} {r : Nat × Nat}
  {level base begin_ end_ n : Nat} {e : Pte level} {pool : Mpool} {flags : MmFlags}

section Count

theorem Pte.splits_leaf (bits : PteBits) : (Pte.leaf bits : Pte level).splits attrs unmap ranges base =
    if mmEntryDone attrs unmap (.leaf bits : Pte level) then 0 else splitsFor unmap ranges level base := by
  cases level <;> rfl

theorem Pte.replaced_leaf (bits : PteBits) : (Pte.leaf bits : Pte level).replaced unmap r base = 0 := by
  cases level <;> rfl

theorem Pte.replaced_covered (covered : CoveredEntry unmap level base r.1 r.2) :
    e.replaced unmap r base = e.pages.card := by
  cases e with
  | leaf bits => exact Pte.replaced_leaf bits
  | table page entries => exact if_pos covered

theorem MeetsEntry.of_covered (covered : CoveredEntry unmap level base r.1 r.2) :
    MeetsEntry level base r := by
  have positive := mmEntrySize_pos level
  obtain ⟨first, last, -⟩ := covered
  simp only [MeetsEntry]
  omega

theorem MeetsEntry.above {j : Nat} (jBound : j < mmPtePerPage)
    (meets : MeetsEntry level (base + j * mmEntrySize level) r) :
    MeetsEntry (level + 1) base r := by
  have fits := entry_end_le level base jBound
  simp only [MeetsEntry] at meets ⊢
  omega

/-- Nothing is replaced where the range is not. -/
theorem Pte.replaced_apart (apart : ¬MeetsEntry level base r) : e.replaced unmap r base = 0 := by
  induction e generalizing base with
  | leaf bits => exact Pte.replaced_leaf bits
  | table page entries ih =>
    rw [Pte.replaced, if_neg fun covered => apart (.of_covered covered)]
    exact Finset.sum_eq_zero fun j member => ih j fun meets =>
      apart (meets.above (Finset.mem_range.mp member))

/-- Nothing is split where the first range replaces everything. -/
theorem Pte.splits_covered (covered : CoveredEntry unmap level base r.1 r.2) :
    e.splits attrs unmap (r :: rest) base = 0 := by
  induction e generalizing base with
  | @leaf level bits =>
    rw [Pte.splits_leaf]
    split
    · rfl
    · cases level with
      | zero => rfl
      | succ level => exact if_neg fun needs => needs.1 covered
  | table page entries ih =>
    exact Finset.sum_eq_zero fun j member => ih j (covered.sub (Finset.mem_range.mp member))

/-- One page replaces no table. -/
theorem Pte.replaced_page (small : r.2 ≤ r.1 + pageSize) : e.replaced unmap r base = 0 := by
  induction e generalizing base with
  | leaf bits => exact Pte.replaced_leaf bits
  | @table level page entries ih =>
    have larger := pageSize_lt_entrySize level
    rw [Pte.replaced, if_neg (by rintro ⟨first, last, -⟩; omega)]
    exact Finset.sum_eq_zero fun j _ => ih j

theorem splitsFor_le (unmap : Bool) (r : Nat × Nat) (rest : List (Nat × Nat)) (level base : Nat) :
    splitsFor unmap [r] level base ≤ splitsFor unmap (r :: rest) level base := by
  induction level generalizing base with
  | zero => exact Nat.le_refl _
  | succ level ih =>
    rw [splitsFor]
    split
    · next needs =>
      rw [splitsFor, if_pos ⟨needs.1, .inl (needs.2.resolve_right id)⟩]
      exact Nat.add_le_add_left (Finset.sum_le_sum fun j _ => ih _) 1
    · exact Nat.zero_le _

theorem Pte.splits_le (attrs : PteBits) (unmap : Bool) (r : Nat × Nat) (rest : List (Nat × Nat))
    (e : Pte level) (base : Nat) :
    e.splits attrs unmap [r] base ≤ e.splits attrs unmap (r :: rest) base := by
  induction e generalizing base with
  | leaf bits =>
    rw [Pte.splits_leaf, Pte.splits_leaf]
    split
    · exact Nat.le_refl _
    · exact splitsFor_le ..
  | table page entries ih => exact Finset.sum_le_sum fun j _ => ih j _

theorem Pte.splits_nil (e : Pte level) (base : Nat) : e.splits attrs unmap [] base = 0 := by
  induction e generalizing base with
  | @leaf level bits =>
    rw [Pte.splits_leaf, ite_eq_left_iff]
    intro _
    cases level with
    | zero => rfl
    | succ level => exact if_neg id
  | table page entries ih => exact Finset.sum_eq_zero fun j _ => ih j _

/-- A range elsewhere does not count. -/
theorem splitsFor_apart (apart : ¬MeetsEntry level base r) :
    splitsFor unmap (r :: rest) level base = splitsFor unmap rest level base := by
  induction level generalizing base with
  | zero => rfl
  | succ level ih =>
    have same : NeedsSplit unmap (level + 1) base (r :: rest) ↔ NeedsSplit unmap (level + 1) base rest := by
      rw [NeedsSplit, and_iff_right fun covered => apart (.of_covered covered), or_iff_right apart]
    have below : ∑ j ∈ Finset.range mmPtePerPage, splitsFor unmap (r :: rest)
        level (base + j * mmEntrySize level) =
        ∑ j ∈ Finset.range mmPtePerPage, splitsFor unmap rest level (base + j * mmEntrySize level) :=
      Finset.sum_congr rfl fun j member => ih fun meets => apart (meets.above (Finset.mem_range.mp member))
    simp only [splitsFor, same, below]

/-- The parts of a block that is split have its attributes. -/
theorem mmPopulateEntries_splits (attrsOk : AttrsFor attrs unmap) {bits : PteBits}
    (leaf : LeafFor (level + 1) base bits) (aligned : base % mmEntrySize (level + 1) = 0)
    (bound : base + mmEntrySize (level + 1) ≤ 2 ^ 48)
    (notDone : mmEntryDone attrs unmap (.leaf bits : Pte (level + 1)) = false) :
    (mmPopulateEntries bits : PageTable level).splits attrs unmap ranges base =
      ∑ j ∈ Finset.range mmPtePerPage, splitsFor unmap ranges level (base + j * mmEntrySize level) := by
  refine Finset.sum_congr rfl fun j member => ?_
  have jBound := Finset.mem_range.mp member
  have fits := entry_end_le level base jBound
  obtain ⟨sub, entry, subLeaf, same⟩ := populated_leaf leaf aligned bound jBound
  have subNotDone : mmEntryDone attrs unmap (.leaf sub : Pte level) = false := by
    rw [Bool.eq_false_iff, ne_eq, mmEntryDone_iff attrsOk subLeaf (entry_aligned aligned j) (by omega), same,
      ← mmEntryDone_iff attrsOk leaf aligned bound, notDone]
    exact Bool.false_ne_true
  rw [entry, Pte.splits_leaf, subNotDone, if_neg Bool.false_ne_true]

theorem PageTable.le_splits {j : Nat} (t : PageTable level) (jBound : j < mmPtePerPage) :
    (t j).splits attrs unmap ranges (base + j * mmEntrySize level) ≤ t.splits attrs unmap ranges base :=
  Finset.single_le_sum (f := fun j => (t j).splits attrs unmap ranges (base + j * mmEntrySize level))
    (fun _ _ => Nat.zero_le _) (Finset.mem_range.mpr jBound)

/-- An entry that is updated in part needs a table. -/
theorem PartOf.needsSplit (part : PartOf [r] level base begin_ end_)
    (range : EntryRange level base begin_ end_)
    (partly : ¬WholeEntry unmap level base begin_ end_) : NeedsSplit unmap level base (r :: rest) := by
  obtain ⟨_, member, first, last⟩ := part
  obtain rfl := List.mem_singleton.mp member
  have lower := range.lower
  have upper := range.upper
  have nonempty := range.nonempty
  refine ⟨?_, .inl ?_⟩
  · rintro ⟨before, after, allowed⟩
    exact partly ⟨by omega, by omega, allowed⟩
  · simp only [MeetsEntry]
    omega

theorem PartOf.covered (part : PartOf [r] level base begin_ end_)
    (whole : WholeEntry unmap level base begin_ end_) : CoveredEntry unmap level base r.1 r.2 := by
  obtain ⟨_, member, first, last⟩ := part
  obtain rfl := List.mem_singleton.mp member
  obtain ⟨start, size, allowed⟩ := whole
  exact ⟨by omega, by omega, allowed⟩

end Count

/-! ## What an update changes of the counts -/

/-- Every table that is added is one less to add, and every table that is given back one less to replace.
Nothing is given back before the update is committed, and everything when it has been. -/
structure Accounted (commit ok : Bool) (tables splits replaced tables' splits' replaced' : Nat) : Prop where
  balance : tables' + splits' + replaced = tables + splits + replaced'
  prepared : commit = false → replaced' = replaced
  committed : commit = true → ok = true → replaced' = 0

namespace Accounted

variable {commit ok : Bool}

theorem sum {n : Nat} {a b c a' b' c' : Nat → Nat}
    (each : ∀ j < n, Accounted commit ok (a j) (b j) (c j) (a' j) (b' j) (c' j)) :
    Accounted commit ok (∑ j ∈ Finset.range n, a j) (∑ j ∈ Finset.range n, b j) (∑ j ∈ Finset.range n, c j)
      (∑ j ∈ Finset.range n, a' j) (∑ j ∈ Finset.range n, b' j) (∑ j ∈ Finset.range n, c' j) := by
  have each (j : Nat) (member : j ∈ Finset.range n) := each j (Finset.mem_range.mp member)
  refine ⟨?_, fun flag => Finset.sum_congr rfl fun j member => (each j member).prepared flag,
    fun flag success => Finset.sum_eq_zero fun j member => (each j member).committed flag success⟩
  have balances := Finset.sum_congr rfl fun j member => (each j member).balance
  simp only [Finset.sum_add_distrib] at balances
  exact balances

/-- An item that is left alone. -/
theorem kept {a b c : Nat} (apart : ok = true → c = 0) : Accounted commit ok a b c a b c :=
  ⟨rfl, fun _ => rfl, fun _ => apart⟩

theorem of_item {itemOk : Bool} {a b c a' b' c' : Nat}
    (item : Accounted commit itemOk a b c a' b' c') (success : ok = true → itemOk = true) :
    Accounted commit ok a b c a' b' c' :=
  ⟨item.balance, item.prepared, fun flag isOk => item.committed flag (success isOk)⟩

end Accounted

/-- The account of an entry. -/
def Pte.Accounted (attrs : PteBits) (flags : MmFlags) (r : Nat × Nat) (rest : List (Nat × Nat))
    {level : Nat} (base : Nat) (e : Pte level) (ok : Bool) (e' : Pte level) : Prop :=
  Mm.Accounted flags.commit ok e.pages.card (e.splits attrs flags.unmap (r :: rest) base)
    (e.replaced flags.unmap r base)
    e'.pages.card (e'.splits attrs flags.unmap (r :: rest) base) (e'.replaced flags.unmap r base)

def PageTable.Accounted (attrs : PteBits) (flags : MmFlags) (r : Nat × Nat)
    (rest : List (Nat × Nat)) {level : Nat} (base : Nat) (t : PageTable level) (ok : Bool)
    (t' : PageTable level) : Prop :=
  Mm.Accounted flags.commit ok t.pages.card (t.splits attrs flags.unmap (r :: rest) base)
    (t.replaced flags.unmap r base)
    t'.pages.card (t'.splits attrs flags.unmap (r :: rest) base) (t'.replaced flags.unmap r base)

def MmPtable.Accounted (attrs : PteBits) (flags : MmFlags) (r : Nat × Nat) (rest : List (Nat × Nat))
    {c : StageConfig} (t : MmPtable c) (ok : Bool) (t' : MmPtable c) : Prop :=
  Mm.Accounted flags.commit ok t.pages.card (t.splits attrs flags.unmap (r :: rest))
    (t.replaced flags.unmap r)
    t'.pages.card (t'.splits attrs flags.unmap (r :: rest)) (t'.replaced flags.unmap r)

section Update

variable {t t' : PageTable level} {ok : Bool}

theorem TableSteps.accounted
    (steps : TableSteps level base begin_ end_ (fun base begin_ end_ e ok e' => e.WellFormed base →
      PartOf [r] level base begin_ end_ → e.Accounted attrs flags r rest base ok e') ok t t')
    (range : EntryRange (level + 1) base begin_ end_) (wf : t.WellFormed base)
    (part : PartOf [r] (level + 1) base begin_ end_) :
    t.Accounted attrs flags r rest base ok t' := by
  rw [PageTable.Accounted, PageTable.pages, PageTable.pages, Multiset.card_sum, Multiset.card_sum]
  refine .sum fun j jBound => ?_
  cases steps j jBound with
  | touched inside after stepped success =>
    exact (stepped.2 (wf j jBound) (part.sub jBound rfl)).of_item success
  | kept same outside =>
    rw [same]
    refine .kept fun isOk => Pte.replaced_apart ?_
    obtain ⟨_, member, first, last⟩ := part
    obtain rfl := List.mem_singleton.mp member
    have fits := entry_end_le level base jBound
    have apart := outside isOk
    have nonempty := range.nonempty
    simp only [MeetsEntry]
    omega

theorem Populated.accounted {page : PageNumber} {e : Pte (level + 1)}
    (populated : Populated e page t) (attrsOk : AttrsFor attrs flags.unmap) (wf : e.WellFormed base)
    (range : EntryRange (level + 1) base begin_ end_)
    (notDone : mmEntryDone attrs flags.unmap e = false)
    (needs : NeedsSplit flags.unmap (level + 1) base (r :: rest)) :
    1 + t.pages.card + t.splits attrs flags.unmap (r :: rest) base =
        e.pages.card + e.splits attrs flags.unmap (r :: rest) base ∧
      t.replaced flags.unmap r base = e.replaced flags.unmap r base := by
  cases populated with
  | table page entries =>
    rw [Pte.pages_table, Multiset.card_add, Multiset.card_singleton, Pte.replaced, if_neg needs.1]
    exact ⟨rfl, rfl⟩
  | leaf bits page =>
    rw [mmPopulateEntries_pages, mmPopulateEntries_splits attrsOk wf range.aligned range.bound
      notDone, Pte.splits_leaf, notDone,
      if_neg Bool.false_ne_true, splitsFor, if_pos needs, Pte.replaced_leaf]
    exact ⟨by simp [Pte.pages], Finset.sum_eq_zero fun j _ => Pte.replaced_leaf _⟩

theorem mmMapPte_accounted (attrsOk : AttrsFor attrs flags.unmap) (rest : List (Nat × Nat))
    (range : EntryRange level base begin_ end_) (e : Pte level) (pool : Mpool) (wf : e.WellFormed base)
    (part : PartOf [r] level base begin_ end_) :
    e.Accounted attrs flags r rest base (mmMapPte attrs flags level begin_ end_ begin_ e pool).ok
      (mmMapPte attrs flags level begin_ end_ begin_ e pool).value := by
  refine mmMapPte_rule attrs flags (R := fun level base begin_ end_ e ok e' => e.WellFormed base →
    PartOf [r] level base begin_ end_ → e.Accounted attrs flags r rest base ok e')
      ?_ ?_ ?_ ?_ range e pool wf part
  · intro level base begin_ end_ e range isDone wf part
    obtain ⟨bits, rfl⟩ := mmEntryDone_leaf isDone
    exact .kept fun _ => Pte.replaced_leaf bits
  · intro level base begin_ end_ e range _ start size allowed wf part
    have covered := part.covered ⟨start, size, allowed⟩
    split
    · obtain ⟨leaf, current⟩ := mmNewPte_leaf attrsOk range.aligned range.bound allowed
      have isDone := (mmEntryDone_iff attrsOk leaf range.aligned range.bound).mpr current
      rw [Pte.Accounted, Pte.splits_covered covered, Pte.replaced_covered covered, Pte.splits_leaf,
        if_pos isDone, Pte.replaced_leaf]
      refine ⟨by simp [Pte.pages], fun prepare => ?_, fun _ _ => rfl⟩
      next commit => cases commit.symm.trans prepare
    · next prepare => exact ⟨rfl, fun _ => rfl, fun commit => absurd commit prepare⟩
  · intro level base begin_ end_ bits range wf part
    exact .kept fun _ => Pte.replaced_leaf bits
  · intro level base begin_ end_ page e nt nt' ok range notDone partly populated steps wf part
    have needs : NeedsSplit flags.unmap (level + 1) base (r :: rest) := part.needsSplit range partly
    obtain ⟨before, same⟩ := populated.accounted attrsOk wf range notDone needs
    obtain ⟨balance, prepared, committed⟩ :=
      steps.accounted range (populated.wellFormed wf range.aligned range.bound) part
    have after : (Pte.table page nt').replaced flags.unmap r base =
        nt'.replaced flags.unmap r base := if_neg needs.1
    have tables : (Pte.table page nt').pages.card = 1 + nt'.pages.card := by
      rw [Pte.pages_table, Multiset.card_add, Multiset.card_singleton]
    have splits : (Pte.table page nt').splits attrs flags.unmap (r :: rest)
        base = nt'.splits attrs flags.unmap (r :: rest) base := rfl
    rw [Pte.Accounted, after, tables, splits, ← same]
    exact ⟨by omega, prepared, committed⟩

/-- An update only fails where there is a table to add and no page for it. -/
theorem mmMapLevel_fails (range : EntryRange (level + 1) base begin_ end_)
    (part : PartOf [r] (level + 1) base begin_ end_)
    (entries : ∀ {base begin_ end_}, EntryRange level base begin_ end_ →
      PartOf [r] level base begin_ end_ → ∀ e pool,
      let result := mmMapPte attrs flags level begin_ end_ begin_ e pool
      result.ok = false → result.state.freeCount = 0 ∧
      0 < result.value.splits attrs flags.unmap (r :: rest) base)
    (t : PageTable level) (pool : Mpool) :
    let result := mmMapLevel attrs flags level begin_ end_ begin_ t pool
    result.ok = false → result.state.freeCount = 0 ∧
      0 < result.value.splits attrs flags.unmap (r :: rest) base := by
  refine (mmMapLevel_walk attrs flags range (Q := fun _ ok t' pool' => ok = false → pool'.freeCount = 0 ∧
    0 < t'.splits attrs flags.unmap (r :: rest) base)
      t pool ?_ (fun absurd => by cases absurd)).elim fun _ fails => fails
  intro j b t' pool' jBound subRange from_ _ _ result failed
  obtain ⟨empty, left⟩ := entries subRange (part.sub jBound from_) (t j) pool' failed
  have le : (update t' j result.value j).splits attrs flags.unmap (r :: rest)
      (base + j * mmEntrySize level) ≤ _ :=
    PageTable.le_splits _ jBound
  rw [update_self] at le
  exact ⟨empty, left.trans_le le⟩

theorem mmMapPte_fails (rest : List (Nat × Nat)) (range : EntryRange level base begin_ end_)
    (part : PartOf [r] level base begin_ end_) (e : Pte level) (pool : Mpool) :
    let result := mmMapPte attrs flags level begin_ end_ begin_ e pool
    result.ok = false → result.state.freeCount = 0 ∧
      0 < result.value.splits attrs flags.unmap (r :: rest) base := by
  induction level generalizing base begin_ end_ pool with
  | zero =>
    intro result failed
    rcases mmMapPte_cases attrs flags range e pool with ⟨-, same⟩ | ⟨-, -, ok, -⟩ | ⟨-, partly, -⟩
    · cases failed.symm.trans (congrArg Step.ok same)
    · cases failed.symm.trans ok
    · exact absurd (range.wholePage flags.unmap) partly
  | succ level ih =>
    intro result failed
    rcases mmMapPte_cases attrs flags range e pool with ⟨-, same⟩ | ⟨-, -, ok, -⟩ | ⟨notDone, partly, same⟩
    · cases failed.symm.trans (congrArg Step.ok same)
    · cases failed.symm.trans ok
    · simp only [result, same, mmDescend, mmMapBelow] at failed ⊢
      cases populate : mmPopulateTablePte e pool with
      | some populated =>
        obtain ⟨page, nt, pool'⟩ := populated
        simp only [populate] at failed
        exact mmMapLevel_fails range part (fun range part e pool => ih range part e pool) nt pool' failed
      | none =>
        cases e with
        | table page entries => cases populate
        | leaf bits =>
          simp only [mmPopulateTablePte, Option.map_eq_none_iff] at populate
          refine ⟨mpoolAlloc_none populate, ?_⟩
          have needs : NeedsSplit flags.unmap (level + 1) base (r :: rest) := part.needsSplit range partly
          rw [Pte.splits_leaf, notDone, if_neg Bool.false_ne_true, splitsFor, if_pos needs]
          omega

end Update

/-! ## Whole tables -/

section Ptable

variable {c : StageConfig} {t : MmPtable c}

theorem partOf_root {i b : Nat} (from_ : b = max begin_ (i * mmEntrySize (c.maxLevel + 1))) :
    PartOf [(begin_, end_)] (c.maxLevel + 1) (i * mmEntrySize (c.maxLevel + 1)) b end_ :=
  ⟨(begin_, end_), List.mem_singleton_self _, by simp only; omega, rfl⟩

theorem mmMapRoot_accounted (attrsOk : AttrsFor attrs flags.unmap) (rest : List (Nat × Nat))
    (range : RootRange c begin_ end_) (wf : t.WellFormed) (pool : Mpool) :
    let result := mmMapRoot t begin_ end_ attrs flags pool
    t.Accounted attrs flags (begin_, end_) rest result.ok result.value := by
  rw [MmPtable.Accounted, MmPtable.pages, MmPtable.pages, Multiset.card_sum, Multiset.card_sum]
  refine .sum fun i bound => ?_
  have apart (outside : begin_ < end_ →
      i * mmEntrySize (c.maxLevel + 1) + mmEntrySize (c.maxLevel + 1) ≤ begin_ ∨
      end_ ≤ max begin_ (i * mmEntrySize (c.maxLevel + 1))) :
      (t.tables i).replaced flags.unmap (begin_, end_) (i * mmEntrySize (c.maxLevel + 1)) = 0 := by
    refine Finset.sum_eq_zero fun j member => Pte.replaced_apart ?_
    have fits := entry_end_le c.maxLevel (i * mmEntrySize (c.maxLevel + 1)) (Finset.mem_range.mp member)
    simp only [MeetsEntry]
    omega
  by_cases nonempty : begin_ < end_
  · cases mmMapRoot_steps flags range nonempty (R := fun base b e t ok t' => t.WellFormed base →
        PartOf [(begin_, end_)] (c.maxLevel + 1) base b e → t.Accounted attrs flags (begin_, end_)
          rest base ok t')
      (fun range t pool wf part => (mmMapLevel_steps attrs flags range (fun range e pool =>
        mmMapPte_accounted attrsOk rest range e pool) t pool).accounted range wf part) t pool bound with
    | touched inside after stepped success =>
      exact (stepped.2 (wf i bound) (partOf_root (by rw [Nat.zero_add]))).of_item success
    | kept same outside =>
      rw [same]
      refine .kept fun isOk => apart fun _ => ?_
      have outside := outside isOk
      rw [Nat.zero_add] at outside
      exact outside
  · rw [mmMapRoot_empty flags t pool nonempty]
    exact .kept fun _ => apart fun absurd => (nonempty absurd).elim

theorem mmMapRoot_fails (rest : List (Nat × Nat)) (range : RootRange c begin_ end_) (t : MmPtable c)
    (pool : Mpool) :
    let result := mmMapRoot t begin_ end_ attrs flags pool
    result.ok = false →
      result.state.freeCount = 0 ∧ 0 < result.value.splits attrs flags.unmap ((begin_, end_) :: rest) := by
  refine (mmMapRoot_walk flags range (Q := fun _ ok tables pool' => ok = false → pool'.freeCount = 0 ∧
    0 < MmPtable.splits attrs flags.unmap ((begin_, end_) :: rest) { t with tables }) t pool ?_
    (fun absurd => by cases absurd)).elim fun _ fails => fails
  intro i b tables pool' bound tableRange from_ _ _ result failed
  obtain ⟨empty, left⟩ := mmMapLevel_fails tableRange (partOf_root from_)
    (fun range part e pool => mmMapPte_fails rest range part e pool) (t.tables i) pool' failed
  refine ⟨empty, left.trans_le ?_⟩
  have le := Finset.single_le_sum (f := fun k => (update tables i result.value k).splits attrs
    flags.unmap ((begin_, end_) :: rest)
    (k * mmEntrySize (c.maxLevel + 1))) (fun _ _ => Nat.zero_le _) (Finset.mem_range.mpr bound)
  simp only [update_self] at le
  exact le

/-- A range that is prepared needs no more tables. -/
theorem Pte.splits_prepared (prepared : begin_ < end_ → e.Prepared attrs unmap begin_ end_ base) :
    e.splits attrs unmap [(begin_, end_)] base = 0 := by
  induction e generalizing base with
  | @leaf level bits =>
    rw [Pte.splits_leaf]
    split
    · rfl
    · next notDone =>
      cases level with
      | zero => rfl
      | succ level =>
        refine if_neg ?_
        rintro ⟨partly, meets | absurd⟩
        · simp only [MeetsEntry] at meets
          rcases prepared (by omega) with outside | covered | isDone
          · simp only [OutsideEntry] at outside
            omega
          · exact partly covered
          · exact notDone isDone
        · exact absurd
  | @table level page entries ih =>
    exact Finset.sum_eq_zero fun j member => ih j fun nonempty =>
      Pte.Prepared.entry (prepared nonempty) (Finset.mem_range.mp member)

/-- Once a range has the attributes, it does not count any more. -/
theorem Pte.splits_updated (attrsOk : AttrsFor attrs unmap) (wf : e.WellFormed base)
    (aligned : base % mmEntrySize level = 0) (bound : base + mmEntrySize level ≤ 2 ^ 48)
    (updated : ∀ addr, base ≤ addr → addr < base + mmEntrySize level → begin_ ≤ addr → addr < end_ →
      e.attrsAt addr = targetAttrs attrs unmap) :
    e.splits attrs unmap ((begin_, end_) :: rest) base = e.splits attrs unmap rest base := by
  induction e generalizing base with
  | @leaf level bits =>
    rw [Pte.splits_leaf, Pte.splits_leaf]
    split
    · rfl
    · next notDone =>
      refine splitsFor_apart fun meets => notDone ?_
      simp only [MeetsEntry] at meets
      exact (mmEntryDone_iff attrsOk wf aligned bound).mpr (updated (max begin_ base) (by omega)
        (by omega) (by omega) (by omega))
  | @table level page entries ih =>
    refine Finset.sum_congr rfl fun j member => ?_
    have jBound := Finset.mem_range.mp member
    have fits := entry_end_le level base jBound
    refine ih j (wf j jBound) (entry_aligned aligned j) (by omega) fun addr lower upper from_ until_ => ?_
    have attrs := updated addr (by omega) (by omega) from_ until_
    rw [Pte.attrsAt, mmIndex_eq aligned jBound lower upper] at attrs
    exact attrs

theorem Pte.prepared_of_attrs (attrsOk : AttrsFor attrs unmap) (wf : e.WellFormed base)
    (aligned : base % mmEntrySize level = 0) (bound : base + mmEntrySize level ≤ 2 ^ 48)
    (nonempty : begin_ < end_)
    (same : ∀ addr, base ≤ addr → addr < base + mmEntrySize level → begin_ ≤ addr → addr < end_ →
      e.attrsAt addr = targetAttrs attrs unmap) : e.Prepared attrs unmap begin_ end_ base := by
  induction e generalizing base with
  | @leaf level bits =>
    by_cases outside : OutsideEntry level base begin_ end_
    · exact .outside outside
    · have positive := mmEntrySize_pos level
      simp only [OutsideEntry] at outside
      have here := same (max base begin_) (by omega) (by omega) (by omega) (by omega)
      exact .done ((mmEntryDone_iff attrsOk wf aligned bound).mpr here)
  | @table level page entries ih =>
    refine .inr (.inr fun j jBound => ?_)
    have fits := entry_end_le level base jBound
    refine ih j (wf j jBound) (entry_aligned aligned j) (by omega) fun addr lower upper from_ until_ => ?_
    have here := same addr (by omega) (by omega) from_ until_
    rw [Pte.attrsAt, mmIndex_eq aligned jBound lower upper] at here
    exact here

theorem MmPtable.prepared_of_attrs (attrsOk : AttrsFor attrs unmap) (wf : t.WellFormed)
    (same : ∀ addr < mmPtableAddrSpaceEnd c, begin_ ≤ addr → addr < end_ →
      t.attrsAt addr = targetAttrs attrs unmap) :
    t.Prepared attrs unmap begin_ end_ := by
  intro nonempty i iBound j jBound
  have fits := root_entry_end_le iBound jBound
  refine Pte.prepared_of_attrs attrsOk (wf i iBound j jBound) (entry_aligned (Nat.mul_mod_left ..) j)
    (fits.trans c.space_le) nonempty fun addr lower upper from_ until_ => ?_
  rw [← MmPtable.attrsAt_entry t iBound jBound lower upper]
  exact same addr (upper.trans_le fits) from_ until_

theorem MmPtable.splits_prepared (prepared : t.Prepared attrs unmap begin_ end_) :
    t.splits attrs unmap [(begin_, end_)] = 0 :=
  Finset.sum_eq_zero fun i iMember => Finset.sum_eq_zero fun j jMember =>
    Pte.splits_prepared fun nonempty => prepared nonempty i (Finset.mem_range.mp iMember)
      j (Finset.mem_range.mp jMember)

theorem MmPtable.splits_updated (attrsOk : AttrsFor attrs unmap) (wf : t.WellFormed)
    (updated : ∀ addr < mmPtableAddrSpaceEnd c, begin_ ≤ addr → addr < end_ →
      t.attrsAt addr = targetAttrs attrs unmap) :
    t.splits attrs unmap ((begin_, end_) :: rest) = t.splits attrs unmap rest := by
  refine Finset.sum_congr rfl fun i iMember => Finset.sum_congr rfl fun j jMember => ?_
  have iBound := Finset.mem_range.mp iMember
  have jBound := Finset.mem_range.mp jMember
  have fits := root_entry_end_le iBound jBound
  refine Pte.splits_updated attrsOk (wf i iBound j jBound) (entry_aligned (Nat.mul_mod_left ..) j)
    (fits.trans c.space_le) fun addr lower upper from_ until_ => ?_
  rw [← MmPtable.attrsAt_entry t iBound jBound lower upper]
  exact updated addr (upper.trans_le fits) from_ until_

end Ptable

/-! ## Modes of ranges -/

section Stage

variable {m : MmConfig} {stage : Stage} {mode : Mode} {c : StageConfig}

/-- The range that the code makes of an interval of addresses. -/
def mapRange (c : StageConfig) (r : Nat × Nat) : Nat × Nat := (mmMapBegin r.1, mmMapEnd c r.2)

/-- The number of tables that giving some intervals a mode, one after the other, adds. -/
def MmPtable.tablesToAdd (t : MmPtable (m.levels stage)) (mode : Mode) (intervals : List (Nat × Nat)) : Nat :=
  t.splits (m.modeToAttrs stage mode) (mmModeToFlags mode) (intervals.map (mapRange (m.levels stage)))

/-- The number of tables that giving an interval a mode gives back. -/
def MmPtable.tablesToReplace (t : MmPtable (m.levels stage)) (mode : Mode) (interval : Nat × Nat) : Nat :=
  t.replaced (mmModeToFlags mode) (mapRange (m.levels stage) interval)

variable {t : MmPtable (m.levels stage)}

/-- Pages go from the pool to the table and back. -/
theorem freeCount_of_moves {pool' : Mpool} {x y : Multiset PageNumber}
    (moves : pool.Moves pool' x y) (sound : pool.Sound n) :
    pool'.Sound n ∧ pool.freeCount + x.card = pool'.freeCount + y.card := by
  obtain ⟨sound', pages⟩ := moves n sound
  have count := congrArg Multiset.card pages
  rw [Multiset.card_add, Multiset.card_add, Mpool.card_pages, Mpool.card_pages] at count
  exact ⟨sound', count⟩

/-- A mapping that changes nothing goes through. -/
theorem stageIdentityMap_idle (wf : t.WellFormed) (begin_ end_ : Nat) (pool : Mpool)
    (same : ∀ addr < mmPtableAddrSpaceEnd (m.levels stage), mmMapBegin begin_ ≤ addr →
      addr < mmMapEnd (m.levels stage) end_ → t.attrsAt addr = m.mappedAttrs stage mode) :
    ∃ r, stageIdentityMap t begin_ end_ mode pool = some r ∧ r.ok = true := by
  have prepared : t.ReadyFor mode (begin_, end_) := by
    refine MmPtable.prepared_of_attrs (attrsFor_modeToAttrs m stage mode) wf fun addr inside lower upper => ?_
    rw [same addr inside lower upper, targetAttrs, mmModeToFlags, MmConfig.mappedAttrs]
    simp only [decide_eq_true_eq]
  have prepares : (stageIdentityPrepare t begin_ end_ mode pool).ok = true :=
    (mmMapRoot_freed ⟨false, mmModeToFlags mode⟩ (rootRange_map _ begin_ end_) t pool prepared).1
  obtain ⟨t', pool', committed⟩ := mmPtableIdentityCommit_of_prepared
    (mmPtableIdentityPrepare_prepares prepares) (stageIdentityPrepare t begin_ end_ mode pool).state
  have mapped := congrArg (Option.map fun r => (⟨true, r.1, r.2⟩ : Updated _)) committed
  exact ⟨⟨true, t', pool'⟩, (if_pos prepares).trans mapped, rfl⟩

theorem MmPtable.tablesToAdd_nil (t : MmPtable (m.levels stage)) (mode : Mode) :
    t.tablesToAdd mode [] = 0 := by
  rw [MmPtable.tablesToAdd, MmPtable.splits]
  exact Finset.sum_eq_zero fun _ _ => Finset.sum_eq_zero fun _ _ => Pte.splits_nil ..

/-- A second interval adds no table less. -/
theorem MmPtable.tablesToAdd_le (t : MmPtable (m.levels stage)) (mode : Mode) (first : Nat × Nat)
    (rest : List (Nat × Nat)) :
    t.tablesToAdd mode [first] ≤ t.tablesToAdd mode (first :: rest) := by
  rw [MmPtable.tablesToAdd, MmPtable.tablesToAdd, MmPtable.splits, MmPtable.splits]
  exact Finset.sum_le_sum fun _ _ => Finset.sum_le_sum fun _ _ => Pte.splits_le ..

/-- Mapping one page replaces no table. -/
theorem MmPtable.tablesToReplace_page {page : Nat} (t : MmPtable (m.levels stage)) (mode : Mode)
    (small : mmMapEnd (m.levels stage) end_ ≤ mmMapBegin page + pageSize) :
    t.tablesToReplace mode (page, end_) = 0 := by
  rw [MmPtable.tablesToReplace, MmPtable.replaced]
  exact Finset.sum_eq_zero fun _ _ => Finset.sum_eq_zero fun _ _ => Pte.replaced_page small

section Costs

variable (wf : t.WellFormed) (sound : pool.Sound n)
include wf sound

/-- Tables that are added are paid with pages of the pool, and tables that are replaced give it pages. -/
theorem mmPtableIdentityMap_costs (begin_ end_ : Nat) (mode : Mode) (commit : Bool) :
    let r := mmPtableIdentityMap t begin_ end_ (m.modeToAttrs stage mode) ⟨commit, mmModeToFlags mode⟩ pool
    r.state.Sound n ∧
      (∀ rest, r.value.tablesToAdd mode ((begin_, end_) :: rest) + pool.freeCount +
        t.tablesToReplace mode (begin_, end_) =
        t.tablesToAdd mode ((begin_, end_) :: rest) + r.state.freeCount +
          r.value.tablesToReplace mode (begin_, end_)) ∧
      (commit = false → r.value.tablesToReplace mode (begin_, end_) = t.tablesToReplace mode (begin_, end_)) ∧
      (commit = true → r.ok = true → r.value.tablesToReplace mode (begin_, end_) = 0) ∧
      (r.ok = false → r.state.freeCount = 0 ∧ 0 < r.value.tablesToAdd mode [(begin_, end_)]) := by
  intro r
  have range := rootRange_map (m.levels stage) begin_ end_
  have account (rest : List (Nat × Nat)) : t.Accounted (m.modeToAttrs stage mode) ⟨commit, mmModeToFlags mode⟩
      (mapRange (m.levels stage) (begin_, end_)) (rest.map (mapRange (m.levels stage))) r.ok r.value :=
    mmMapRoot_accounted (attrsFor_modeToAttrs m stage mode) _ range wf pool
  obtain ⟨sound', count⟩ : r.state.Sound n ∧
      pool.freeCount + t.pages.card = r.state.freeCount + r.value.pages.card :=
    freeCount_of_moves (mmMapRoot_moves range t pool) sound
  refine ⟨sound', fun rest => ?_, (account []).prepared, (account []).committed,
    mmMapRoot_fails [] range t pool⟩
  have balance :
      _ + r.value.tablesToAdd mode ((begin_, end_) :: rest) + t.tablesToReplace mode (begin_, end_) =
    _ + t.tablesToAdd mode ((begin_, end_) :: rest) + r.value.tablesToReplace mode (begin_, end_) :=
      (account rest).balance
  omega

/-- An update succeeds if and only if the pool has a page for every table to add. Then the pool has the pages
that are left of these, and the pages of the tables that were replaced. -/
theorem stageIdentityMap_costs (begin_ end_ : Nat) (mode : Mode) :
    ∃ r, stageIdentityMap t begin_ end_ mode pool = some r ∧ r.value.WellFormed ∧ r.state.Sound n ∧
      (r.ok = true ↔ t.tablesToAdd mode [(begin_, end_)] ≤ pool.freeCount) ∧
      (r.ok = true → ∀ rest, r.value.tablesToAdd mode rest + pool.freeCount + t.tablesToReplace mode
        (begin_, end_) = t.tablesToAdd mode ((begin_, end_) :: rest) + r.state.freeCount) := by
  have attrsOk := attrsFor_modeToAttrs m stage mode
  let prepared := stageIdentityPrepare t begin_ end_ mode pool
  have prepares : prepared.ok = true → prepared.value.ReadyFor mode (begin_, end_) :=
    mmPtableIdentityPrepare_prepares
  have wf₁ : prepared.value.WellFormed := stageIdentityPrepare_wellFormed wf begin_ end_ mode pool
  obtain ⟨sound₁, paid, same, -, fails⟩ : prepared.state.Sound n ∧ _ :=
    mmPtableIdentityMap_costs wf sound begin_ end_ mode false
  change ∀ rest, prepared.value.tablesToAdd mode ((begin_, end_) :: rest) + _ + _ = _ +
    prepared.state.freeCount + prepared.value.tablesToReplace mode (begin_, end_) at paid
  change _ → prepared.value.tablesToReplace mode (begin_, end_) = _ at same
  change prepared.ok = false → prepared.state.freeCount = 0 ∧
    0 < prepared.value.tablesToAdd mode [(begin_, end_)] at fails
  have unfolded : stageIdentityMap t begin_ end_ mode pool = if prepared.ok then
    (stageIdentityCommit prepared.value begin_ end_ mode prepared.state).map fun r =>
      ⟨true, r.1, r.2⟩ else some prepared := rfl
  rw [unfolded]
  clear unfolded
  clear_value prepared
  obtain ⟨_ | _, t₁, pool₁⟩ := prepared
  · refine ⟨_, rfl, wf₁, sound₁, iff_of_false Bool.false_ne_true ?_, fun absurd => by cases absurd⟩
    have same := same rfl
    have paid := paid []
    obtain ⟨empty, left⟩ := fails rfl
    omega
  · have ready := prepares rfl
    have nothing : t₁.tablesToAdd mode [(begin_, end_)] = 0 := MmPtable.splits_prepared ready
    obtain ⟨t₂, pool₂, committed⟩ := mmPtableIdentityCommit_of_prepared ready pool₁
    have committed : stageIdentityCommit t₁ begin_ end_ mode pool₁ = some (t₂, pool₂) := committed
    have wf₂ := mmPtableIdentityCommit_wellFormed attrsOk wf₁ committed
    have costs := mmPtableIdentityMap_costs wf₁ sound₁ begin_ end_ mode true
    rw [mmPtableIdentityCommit_some committed] at costs
    obtain ⟨sound₂, paid₂, -, gone, -⟩ := costs
    have same := same rfl
    have gone := gone rfl rfl
    have enough := paid []
    simp only at same gone enough paid paid₂
    refine ⟨⟨true, t₂, pool₂⟩, ?_, wf₂, sound₂, iff_of_true rfl (by omega), fun _ rest => ?_⟩
    · rw [if_pos rfl, committed]
      rfl
    · -- The range has its attributes now and counts no more.
      have updated : t₂.tablesToAdd mode ((begin_, end_) :: rest) = t₂.tablesToAdd mode rest := by
        refine MmPtable.splits_updated attrsOk wf₂ fun addr inside lower upper => ?_
        rw [mmPtableIdentityCommit_updatedBy attrsOk wf₁ committed addr inside, if_pos ⟨lower, upper⟩]
        rfl
      have paid := paid rest
      have paid₂ := paid₂ rest
      simp only
      omega

/-- Two intervals get a mode, one after the other, if and only if the pool has the pages for the
first one, and together with those that the first one gives back the pages for both. -/
theorem stageIdentityMap_pair (first second : Nat × Nat) (mode : Mode) :
    ∃ r, stageIdentityMap t first.1 first.2 mode pool = some r ∧
      (r.ok = false ∧ ¬t.tablesToAdd mode [first] ≤ pool.freeCount ∨
        r.ok = true ∧ t.tablesToAdd mode [first] ≤ pool.freeCount ∧
          ∃ r', stageIdentityMap r.value second.1 second.2 mode r.state = some r' ∧ r'.state.Sound n ∧
            (r'.ok = true ↔ t.tablesToAdd mode [first, second] ≤ pool.freeCount + t.tablesToReplace
              mode first)) := by
  obtain ⟨r, mapped, wf₁, sound₁, succeeds, paid⟩ := stageIdentityMap_costs wf sound first.1 first.2 mode
  refine ⟨r, mapped, ?_⟩
  cases ok : r.ok with
  | false => exact .inl ⟨rfl, fun enough => by cases ok.symm.trans (succeeds.mpr enough)⟩
  | true =>
    obtain ⟨r', mapped', -, sound₂, succeeds', -⟩ := stageIdentityMap_costs wf₁ sound₁ second.1 second.2 mode
    have paid := paid ok [second]
    exact .inr ⟨rfl, succeeds.mp ok, r', mapped', sound₂,
      succeeds'.trans (by simp only [Prod.mk.eta] at paid ⊢; omega)⟩

end Costs

end Stage

end Hafnium.Mm
