import Hafnium.Mm.Map

/-! # What an update does to the address space

Updating a well-formed entry keeps it well formed. Without the commit flag no address changes its
attributes, whatever the outcome; with it, a successful update gives exactly the addresses of the
range the wanted attributes.
-/

namespace Hafnium.Mm

/-- The attributes an update leaves on its range. -/
def targetAttrs (attrs : PteBits) (unmap : Bool) : PteBits := if unmap then 0 else attrs

/-- The attributes of an update are only used when it maps. -/
def AttrsFor (attrs : PteBits) (unmap : Bool) : Prop := unmap = false → BlockAttrs attrs

variable {bits : PteBits}

section Populated

variable {level base : Nat} {page : PageNumber} {e : Pte (level + 1)} {nt : PageTable level}

theorem populated_leaf (leaf : LeafFor (level + 1) base bits)
    (aligned : base % mmEntrySize (level + 1) = 0) (bound : base + mmEntrySize (level + 1) ≤ 2 ^ 48)
    {j : Nat} (jBound : j < mmPtePerPage) :
    ∃ sub : PteBits, (mmPopulateEntries bits : PageTable level) j = .leaf sub ∧
      LeafFor level (base + j * mmEntrySize level) sub ∧ archMmPteAttrs sub = archMmPteAttrs bits := by
  have fits := entry_end_le level base jBound
  have positive := mmEntrySize_pos level
  have page := page_of_aligned aligned
  rcases leaf.attrs aligned bound with ⟨rfl, -⟩ | ⟨allowed, attrsOk, block⟩
  · refine ⟨archMmAbsentPte, ?_, .absent, rfl⟩
    simp [mmPopulateEntries]
  · have entry : (mmPopulateEntries bits : PageTable level) j =
        .leaf (archMmBlockPte level (base + j * mmEntrySize level) (archMmPteAttrs bits)) := by
      have isBlock : archMmPteIsBlock bits (level + 1) = true := by
        rw [block, archMmPteIsBlock_archMmBlockPte page (by omega) attrsOk]
        simpa [archMmIsBlockAllowed] using allowed
      have start : archMmBlockFromPte bits = base := by
        rw [block, archMmBlockFromPte_archMmBlockPte page (by omega) attrsOk]
      simp only [mmPopulateEntries]
      rw [if_pos isBlock, start, archMmBlockPte_add page _ ?_ (by omega) attrsOk]
      rw [Nat.mul_mod, show mmEntrySize level % 4096 = 0 from mmEntrySize_page level, Nat.mul_zero,
        Nat.zero_mod]
    refine ⟨_, entry, .block (by omega) attrsOk, ?_⟩
    exact archMmPteAttrs_archMmBlockPte (page_of_aligned (entry_aligned aligned j)) (by omega) attrsOk level

/-- Populating keeps every entry in its place. -/
theorem Populated.wellFormed (populated : Populated e page nt) (wf : e.WellFormed base)
    (aligned : base % mmEntrySize (level + 1) = 0) (bound : base + mmEntrySize (level + 1) ≤ 2 ^ 48) :
    nt.WellFormed base := by
  intro j jBound
  cases populated with
  | table page entries => exact wf j jBound
  | leaf bits page =>
    obtain ⟨sub, entry, leaf, -⟩ := populated_leaf wf aligned bound jBound
    rw [entry]
    exact leaf

/-- Populating changes no attributes. -/
theorem Populated.attrsAt (populated : Populated e page nt) (wf : e.WellFormed base)
    (aligned : base % mmEntrySize (level + 1) = 0) (bound : base + mmEntrySize (level + 1) ≤ 2 ^ 48)
    {addr : Nat} (lower : base ≤ addr) (upper : addr < base + mmEntrySize (level + 1)) :
    nt.attrsAt addr = e.attrsAt addr := by
  cases populated with
  | table page entries => rfl
  | leaf bits page =>
    obtain ⟨sub, entry, -, attrs⟩ := populated_leaf wf aligned bound (mmIndex_bounds aligned lower upper).1
    rw [PageTable.attrsAt, entry]
    exact attrs

end Populated

section Entry

variable {attrs : PteBits} {unmap : Bool} {flags : MmFlags} {level base begin_ end_ : Nat}

/-- Only leaves are left alone. -/
theorem mmEntryDone_leaf {e : Pte level} (isDone : mmEntryDone attrs unmap e = true) :
    ∃ bits, e = .leaf bits := by
  cases e with
  | leaf bits => exact ⟨bits, rfl⟩
  | table page entries =>
    simp only [mmEntryDone, Pte.bits] at isDone
    split at isDone <;> simp at isDone

/-- A leaf is left alone exactly when it already has the wanted attributes. -/
theorem mmEntryDone_iff (attrsOk : AttrsFor attrs unmap) (leaf : LeafFor level base bits)
    (aligned : base % mmEntrySize level = 0) (bound : base + mmEntrySize level ≤ 2 ^ 48) :
    mmEntryDone attrs unmap (.leaf bits : Pte level) = true ↔
      archMmPteAttrs bits = targetAttrs attrs unmap := by
  have positive := mmEntrySize_pos level
  have page := page_of_aligned aligned
  simp only [mmEntryDone, Pte.bits, targetAttrs]
  cases unmap with
  | true =>
    rcases leaf.attrs aligned bound with ⟨rfl, -⟩ | ⟨-, blockOk, block⟩
    · simp
    · refine iff_of_false ?_ blockOk.ne_zero
      rw [block, archMmPteIsPresent_archMmBlockPte page (by omega) blockOk]
      simp
  | false =>
    rcases leaf.attrs aligned bound with ⟨rfl, zero⟩ | ⟨allowed, blockOk, block⟩
    · refine iff_of_false (by simp) ?_
      exact (attrsOk rfl).ne_zero.symm
    · have isBlock : archMmPteIsBlock bits level = true := by
        rw [block, archMmPteIsBlock_archMmBlockPte page (by omega) blockOk]
        exact decide_eq_true allowed
      rw [isBlock, Bool.true_and]
      exact decide_eq_true_iff

/-- The entry written for a whole range is a leaf for that range with the wanted attributes. -/
theorem mmNewPte_leaf (attrsOk : AttrsFor attrs unmap) (aligned : base % mmEntrySize level = 0)
    (bound : base + mmEntrySize level ≤ 2 ^ 48) (allowed : unmap = true ∨ level ≤ 2) :
    LeafFor level base (mmNewPte level attrs unmap base) ∧
      archMmPteAttrs (mmNewPte level attrs unmap base) = targetAttrs attrs unmap := by
  have positive := mmEntrySize_pos level
  unfold mmNewPte targetAttrs
  cases unmap with
  | true =>
    simp only [if_true]
    exact ⟨.absent, rfl⟩
  | false =>
    simp only [Bool.false_eq_true, false_or] at allowed
    exact ⟨.block allowed (attrsOk rfl),
      archMmPteAttrs_archMmBlockPte (page_of_aligned aligned) (by omega) (attrsOk rfl) level⟩

variable {ok : Bool} {t t' : PageTable level}

/-- A table is well formed after its entries were updated so. -/
theorem TableSteps.wellFormed
    (steps : TableSteps level base begin_ end_ (fun base _ _ e _ e' => e.WellFormed base →
      e'.WellFormed base) ok t t') (wf : t.WellFormed base) : t'.WellFormed base := by
  intro j jBound
  cases steps j jBound with
  | touched inside after stepped success => exact stepped.2 (wf j jBound)
  | kept same outside => exact same ▸ wf j jBound

/-- Updates keep entries well formed. -/
theorem mmMapPte_wellFormed (attrsOk : AttrsFor attrs flags.unmap) (range : EntryRange level base begin_ end_)
    (e : Pte level) (pool : Mpool) (wf : e.WellFormed base) :
    (mmMapPte attrs flags level begin_ end_ begin_ e pool).value.WellFormed base := by
  refine mmMapPte_rule attrs flags (R := fun level base _ _ e _ e' => e.WellFormed base → e'.WellFormed base)
    ?_ ?_ ?_ ?_ range e pool wf
  · intro level base begin_ end_ e range isDone wf
    exact wf
  · intro level base begin_ end_ e range _ start size allowed wf
    split
    · exact (mmNewPte_leaf attrsOk range.aligned range.bound allowed).1
    · exact wf
  · intro level base begin_ end_ bits range wf
    exact wf
  · intro level base begin_ end_ page e nt nt' ok range _ _ populated steps wf
    exact steps.wellFormed (populated.wellFormed wf range.aligned range.bound)

/-- The attributes of the addresses from `base` to `limit` after an update: `before` and `after`
are their attributes before and after it. -/
def AttrsUpdate (attrs : PteBits) (flags : MmFlags) (base limit begin_ end_ : Nat)
    (before : Nat → PteBits) (ok : Bool) (after : Nat → PteBits) : Prop :=
  ∀ addr, base ≤ addr → addr < limit →
    (flags.commit = false → after addr = before addr) ∧
    (flags.commit = true → ok = true →
      after addr = if begin_ ≤ addr ∧ addr < end_ then targetAttrs attrs flags.unmap else before addr)

/-- The attributes below a table follow from those below its entries. -/
theorem TableSteps.attrsUpdate
    (steps : TableSteps level base begin_ end_ (fun base begin_ end_ e ok e' => e.WellFormed base →
      AttrsUpdate attrs flags base (base + mmEntrySize level) begin_ end_ e.attrsAt ok e'.attrsAt) ok t t')
    (aligned : base % mmEntrySize (level + 1) = 0) (wf : t.WellFormed base) :
    AttrsUpdate attrs flags base (base + mmEntrySize (level + 1)) begin_ end_ t.attrsAt ok t'.attrsAt := by
  intro addr lower upper
  obtain ⟨jBound, first, last⟩ := mmIndex_bounds aligned lower upper
  simp only [PageTable.attrsAt]
  cases steps _ jBound with
  | touched inside after stepped success =>
    obtain ⟨prepare, commit⟩ := stepped.2 (wf _ jBound) addr first last
    refine ⟨prepare, fun flag ok => ?_⟩
    rw [commit flag (success ok)]
    -- Capping the range to the table and starting it at the entry changes nothing for this address.
    have clipped : (max begin_ (base + mmIndex addr level * mmEntrySize level) ≤ addr ∧
        addr < min end_ (base + mmEntrySize (level + 1))) ↔ (begin_ ≤ addr ∧ addr < end_) := by omega
    simp only [clipped]
  | kept kept outside =>
    rw [kept]
    refine ⟨fun _ => rfl, fun _ ok => ?_⟩
    rw [if_neg]
    have := outside ok
    omega

theorem mmMapPte_attrsUpdate (attrsOk : AttrsFor attrs flags.unmap)
    (range : EntryRange level base begin_ end_) (e : Pte level) (pool : Mpool)
    (wf : e.WellFormed base) :
    AttrsUpdate attrs flags base (base + mmEntrySize level) begin_ end_ e.attrsAt
      (mmMapPte attrs flags level begin_ end_ begin_ e pool).ok
      (mmMapPte attrs flags level begin_ end_ begin_ e pool).value.attrsAt := by
  refine mmMapPte_rule attrs flags (R := fun level base begin_ end_ e ok e' => e.WellFormed base →
    AttrsUpdate attrs flags base (base + mmEntrySize level) begin_ end_ e.attrsAt ok e'.attrsAt)
    ?_ ?_ ?_ ?_ range e pool wf
  · intro level base begin_ end_ e range isDone wf addr lower upper
    obtain ⟨bits, rfl⟩ := mmEntryDone_leaf isDone
    have current := (mmEntryDone_iff attrsOk wf range.aligned range.bound).mp isDone
    refine ⟨fun _ => rfl, fun _ _ => ?_⟩
    rw [Pte.attrsAt, current, ite_self]
  · intro level base begin_ end_ e range _ start size allowed wf addr lower upper
    refine ⟨fun prepare => ?_, fun commit _ => ?_⟩
    · rw [prepare]
      rfl
    · rw [if_pos commit, if_pos ⟨by omega, by omega⟩]
      exact (mmNewPte_leaf attrsOk range.aligned range.bound allowed).2
  · intro level base begin_ end_ bits range wf addr lower upper
    exact ⟨fun _ => rfl, nofun⟩
  · intro level base begin_ end_ page e nt nt' ok range _ _ populated steps wf addr lower upper
    rw [← populated.attrsAt wf range.aligned range.bound lower upper]
    exact steps.attrsUpdate range.aligned (populated.wellFormed wf range.aligned range.bound) addr lower upper

/-! ## Whole tables -/

end Entry

end Hafnium.Mm
