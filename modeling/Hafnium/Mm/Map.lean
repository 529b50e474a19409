import Hafnium.Lib.BlockWalk
import Hafnium.Mm.Mpool
import Hafnium.Mm.Table

/-! # Updating a range of a page table

`mmMapLevel` is `mm_map_level`: it walks the entries of one table that overlap a range, leaves an
entry alone, replaces it as a whole or populates a table below it and recurses, with
`BlockWalk.walk` as its loop and `nextBlock` as `mm_start_of_next_block`. A failed allocation stops
the walk and leaves the entries updated so far. TLB maintenance is not modelled.

`mmMapPte_rule` is the induction over that recursion: a relation between an entry and its updated
value that holds in the four ways an entry can be treated holds of every update.
-/

namespace Hafnium.Mm

open BlockWalk Function

/-- The outcome of an update: whether it succeeded, the new value and what is left of the pool. -/
abbrev Updated (α : Type) := Step Mpool α

/-- The flags of an update. -/
structure MmFlags where
  commit : Bool
  unmap : Bool
deriving DecidableEq, Repr

/-- Frees the tables below an entry, the innermost first. -/
def mmFreePagePte : {level : Nat} → Pte level → Mpool → Mpool
  | _, .leaf _, pool => pool
  | _, .table page entries, pool =>
    mpoolFree ((List.range mmPtePerPage).foldl (fun pool i => mmFreePagePte (entries i) pool) pool) page

variable {base begin_ end_ level : Nat}

theorem mmFreePagePte_freed (e : Pte level) (pool : Mpool) : pool.Freed (mmFreePagePte e pool) := by
  induction e generalizing pool with
  | leaf bits => exact .refl pool
  | table page entries ih =>
    have below (indices : List Nat) : pool.Freed
        (indices.foldl (fun pool i => mmFreePagePte (entries i) pool) pool) := by
      induction indices generalizing pool with
      | nil => exact .refl pool
      | cons i rest restIh => exact (ih i pool).trans (restIh _)
    exact (below _).trans (.free _ page)

/-- Replaces an entry and frees the tables the old one referred to. -/
def mmReplaceEntry {level : Nat} (pte newPte : Pte level) (pool : Mpool) : Pte level × Mpool :=
  (newPte, mmFreePagePte pte pool)

/-- The entries of a new table that stands for the given leaf. -/
def mmPopulateEntries {level : Nat} (bits : PteBits) : PageTable level := fun i =>
  .leaf (if archMmPteIsBlock bits (level + 1) then
    archMmBlockPte level (archMmBlockFromPte bits) (archMmPteAttrs bits) +
      BitVec.ofNat 64 (i * mmEntrySize level)
  else archMmAbsentPte)

/-- The table an entry refers to, allocated if the entry is not a table yet. -/
def mmPopulateTablePte {level : Nat} (pte : Pte (level + 1)) (pool : Mpool) :
    Option (PageNumber × PageTable level × Mpool) :=
  match pte with
  | .table page entries => some (page, entries, pool)
  | .leaf bits => (mpoolAlloc pool).map fun (page, pool) => (page, mmPopulateEntries bits, pool)

/-- The entry already has the wanted attributes, or is already absent when unmapping. -/
def mmEntryDone {level : Nat} (attrs : PteBits) (unmap : Bool) (pte : Pte level) : Bool :=
  if unmap then !archMmPteIsPresent pte.bits
  else archMmPteIsBlock pte.bits level && decide (archMmPteAttrs pte.bits = attrs)

/-- The descriptor written for a whole entry. -/
def mmNewPte (level : Nat) (attrs : PteBits) (unmap : Bool) (pa : Nat) : PteBits :=
  if unmap then archMmAbsentPte else archMmBlockPte level pa attrs

/-- The loop body of `mm_map_level` for one entry; `descend` handles the table below it. -/
def mmMapEntry {level : Nat} (descend : Pte level → Mpool → Updated (Pte level)) (attrs : PteBits)
    (flags : MmFlags) (begin_ end_ pa : Nat) (pte : Pte level) (pool : Mpool) :
    Updated (Pte level) :=
  if mmEntryDone attrs flags.unmap pte then ⟨true, pte, pool⟩
  else if end_ - begin_ ≥ mmEntrySize level ∧ (flags.unmap ∨ archMmIsBlockAllowed level) ∧
      begin_ % mmEntrySize level = 0 then
    if flags.commit then
      let (pte, pool) := mmReplaceEntry pte (.leaf (mmNewPte level attrs flags.unmap pa)) pool
      ⟨true, pte, pool⟩
    else ⟨true, pte, pool⟩
  else descend pte pool

/-- The loop of `mm_map_level`. The end was capped to the table's range, so the walk ends with
the table's last entry at the latest. -/
def mmMapEntries {level : Nat} (descend : Nat → Nat → Nat → Pte level → Mpool → Updated (Pte level))
    (attrs : PteBits) (flags : MmFlags) (end_ begin_ pa i : Nat) (t : PageTable level) (pool : Mpool) :
    Updated (PageTable level) :=
  walk (mmEntrySize level) (fun begin_ pa => mmMapEntry (descend begin_ end_ pa)
    attrs flags begin_ end_ pa) end_ mmPtePerPage begin_ pa i t pool

/-- Populates the table below an entry and updates it with `mapBelow`. -/
def mmMapBelow {level : Nat} (mapBelow : PageTable level → Mpool → Updated (PageTable level))
    (pte : Pte (level + 1)) (pool : Mpool) : Updated (Pte (level + 1)) :=
  match mmPopulateTablePte pte pool with
  | none => ⟨false, pte, pool⟩
  | some (page, nt, pool) =>
    let r := mapBelow nt pool
    ⟨r.ok, .table page r.value, r.state⟩

/-- Updates the entries of a table that overlap the range from `begin_` to `end_`. -/
def mmMapLevel (attrs : PteBits) (flags : MmFlags) :
    (level : Nat) → (begin_ end_ pa : Nat) → PageTable level → Mpool → Updated (PageTable level)
  | 0, begin_, end_, pa, t, pool =>
    -- Pages are always replaced as a whole, so nothing descends from level 0.
    mmMapEntries (fun _ _ _ pte pool => ⟨false, pte, pool⟩) attrs flags (min end_ (mmLevelEnd begin_ 0))
      begin_ pa (mmIndex begin_ 0) t pool
  | level + 1, begin_, end_, pa, t, pool =>
    mmMapEntries (fun begin_ end_ pa => mmMapBelow (mmMapLevel attrs flags level begin_ end_ pa)) attrs flags
      (min end_ (mmLevelEnd begin_ (level + 1))) begin_ pa (mmIndex begin_ (level + 1)) t pool

/-! ## One entry at a time -/

/-- How the loop at some level treats what lies below an entry. -/
def mmDescend (attrs : PteBits) (flags : MmFlags) :
    (level begin_ end_ pa : Nat) → Pte level → Mpool → Updated (Pte level)
  | 0, _, _, _, pte, pool => ⟨false, pte, pool⟩
  | level + 1, begin_, end_, pa, pte, pool =>
    mmMapBelow (mmMapLevel attrs flags level begin_ end_ pa) pte pool

/-- The update of one entry by the loop. -/
def mmMapPte (attrs : PteBits) (flags : MmFlags) (level begin_ end_ pa : Nat) (pte : Pte level)
    (pool : Mpool) : Updated (Pte level) :=
  mmMapEntry (mmDescend attrs flags level begin_ end_ pa) attrs flags begin_ end_ pa pte pool

variable (attrs : PteBits)

theorem mmMapLevel_eq (flags : MmFlags) (level begin end_ pa : Nat) (t : PageTable level) (pool : Mpool) :
    mmMapLevel attrs flags level begin end_ pa t pool =
      walk (mmEntrySize level) (fun begin_ pa => mmMapPte attrs flags level begin_
        (min end_ (mmLevelEnd begin level)) pa)
        (min end_ (mmLevelEnd begin level)) mmPtePerPage begin pa (mmIndex begin level) t pool := by
  cases level <;> rfl

/-- The part of a range that falls into the entry at `base`: it starts there and reaches at most
to the end of the address space that 48-bit addresses allow. -/
structure EntryRange (level base begin_ end_ : Nat) : Prop where
  aligned : base % mmEntrySize level = 0
  bound : base + mmEntrySize level ≤ 2 ^ 48
  lower : base ≤ begin_
  upper : begin_ < base + mmEntrySize level
  nonempty : begin_ < end_
  beginPage : begin_ % pageSize = 0
  endPage : end_ % pageSize = 0

/-- The end of the table that contains an address. -/
theorem mmLevelEnd_eq {addr : Nat} (aligned : base % mmEntrySize (level + 1) = 0)
    (lower : base ≤ addr) (upper : addr < base + mmEntrySize (level + 1)) :
    mmLevelEnd addr level = base + mmEntrySize (level + 1) := by
  obtain ⟨k, rfl⟩ := Nat.dvd_of_mod_eq_zero aligned
  rw [Nat.mul_comm] at lower upper ⊢
  rw [mmLevelEnd, Blocks.div_eq lower (by rw [Nat.succ_mul]; omega), Nat.succ_mul]

theorem EntryRange.start (range : EntryRange level base begin_ end_)
    (startAligned : begin_ % mmEntrySize level = 0) : begin_ = base := by
  obtain ⟨k, rfl⟩ := Nat.dvd_of_mod_eq_zero range.aligned
  obtain ⟨d, rfl⟩ := Nat.exists_eq_add_of_le range.lower
  have small := range.upper
  rw [Nat.mul_add_mod, Nat.mod_eq_of_lt (by omega)] at startAligned
  omega

theorem EntryRange.capped_endPage (range : EntryRange level base begin_ end_) :
    min end_ (base + mmEntrySize level) % pageSize = 0 := by
  have endPage := range.endPage
  have tablePage := page_of_aligned range.aligned
  have sizePage := mmEntrySize_page level
  simp only [pageSize] at *
  omega

/-- The range of an entry of the table below. -/
theorem EntryRange.sub {j b : Nat} (range : EntryRange (level + 1) base begin_ end_)
    (jBound : j < mmPtePerPage) (lower : base + j * mmEntrySize level ≤ b)
    (upper : b < base + j * mmEntrySize level + mmEntrySize level)
    (nonempty : b < min end_ (base + mmEntrySize (level + 1))) (page : b % pageSize = 0) :
    EntryRange level (base + j * mmEntrySize level) b (min end_ (base + mmEntrySize (level + 1))) where
  aligned := entry_aligned range.aligned j
  bound := by
    have := entry_end_le level base jBound
    have := range.bound
    omega
  lower := lower
  upper := upper
  nonempty := nonempty
  beginPage := page
  endPage := range.capped_endPage

/-- What the update of a range does to the entries of a table, given what it does to one entry:
entries in the range are updated, from the larger of the range's and their own start. -/
def TableSteps (level base begin_ end_ : Nat)
    (R : (base begin_ end_ : Nat) → Pte level → Bool → Pte level → Prop) (ok : Bool)
    (t t' : PageTable level) : Prop :=
  ∀ j < mmPtePerPage, ItemStep (mmEntrySize level) base begin_ (min end_ (base + mmEntrySize (level + 1)))
    (fun b e ok e' =>
      EntryRange level (base + j * mmEntrySize level) b (min end_ (base + mmEntrySize (level + 1))) ∧
      R (base + j * mmEntrySize level) b (min end_ (base + mmEntrySize (level + 1))) e ok e')
    ok j (t j) (t' j)

/-- The update of a table steps through its entries, each once. -/
theorem mmMapLevel_steps (flags : MmFlags) (range : EntryRange (level + 1) base begin_ end_)
    {R : (base begin_ end_ : Nat) → Pte level → Bool → Pte level → Prop}
    (entries : ∀ {base begin_ end_}, EntryRange level base begin_ end_ → ∀ e pool,
      R base begin_ end_ e (mmMapPte attrs flags level begin_ end_ begin_ e pool).ok
        (mmMapPte attrs flags level begin_ end_ begin_ e pool).value)
    (t : PageTable level) (pool : Mpool) :
    TableSteps level base begin_ end_ R (mmMapLevel attrs flags level begin_ end_ begin_ t pool).ok t
      (mmMapLevel attrs flags level begin_ end_ begin_ t pool).value := by
  intro j jBound
  obtain ⟨index, first, inside⟩ := mmIndex_bounds range.aligned range.lower range.upper
  rw [mmMapLevel_eq, mmLevelEnd_eq range.aligned range.lower range.upper]
  refine walk_entry (table_aligned range.aligned) (mmEntrySize_succ level ▸ Nat.min_le_right ..)
    (· % pageSize = 0) (fun j => page_of_aligned (entry_aligned range.aligned j))
    (fun j b e ok e' =>
      EntryRange level (base + j * mmEntrySize level) b _ ∧
      R (base + j * mmEntrySize level) b _ e ok e')
    ?_ mmPtePerPage begin_ _ t pool (by omega) first inside range.beginPage j jBound
  intro j b e pool jBound lower upper running bPage
  have subRange := range.sub jBound lower upper running bPage
  exact ⟨subRange, entries subRange e pool⟩

/-- The invariant rule of the loop over the entries of a table. -/
theorem mmMapLevel_walk (flags : MmFlags) (range : EntryRange (level + 1) base begin_ end_)
    {Q : Nat → Bool → PageTable level → Mpool → Prop} (t : PageTable level) (pool : Mpool)
    (steps : ∀ j b t' pool, j < mmPtePerPage →
      EntryRange level (base + j * mmEntrySize level) b (min end_ (base + mmEntrySize (level + 1))) →
      b = max begin_ (base + j * mmEntrySize level) → t' j = t j → Q j true t' pool →
        let r := mmMapPte attrs flags level b (min end_ (base + mmEntrySize (level + 1))) b (t j) pool
        Q (j + 1) r.ok (update t' j r.value) r.state)
    (start : Q (mmIndex begin_ level) true t pool) :
    let r := mmMapLevel attrs flags level begin_ end_ begin_ t pool
    ∃ j, Q j r.ok r.value r.state := by
  obtain ⟨index, first, inside⟩ := mmIndex_bounds range.aligned range.lower range.upper
  rw [mmMapLevel_eq, mmLevelEnd_eq range.aligned range.lower range.upper]
  have lastBound : min end_ (base + mmEntrySize (level + 1)) ≤ base + mmPtePerPage * mmEntrySize level :=
    mmEntrySize_succ level ▸ Nat.min_le_right ..
  refine walk_rule (Q := Q) (table_aligned range.aligned) lastBound mmPtePerPage begin_ _ t pool first inside
    (fun j b t' pool _ jBound from_ upper running => ?_) start
  have page : b % pageSize = 0 := by
    rw [from_, Nat.max_def]
    split
    · exact page_of_aligned (entry_aligned range.aligned j)
    · exact range.beginPage
  exact steps j b t' pool jBound (range.sub jBound (by omega) upper running page) from_

/-- The whole entry lies in the range and may be replaced as such. -/
def WholeEntry (unmap : Bool) (level base begin_ end_ : Nat) : Prop :=
  begin_ = base ∧ base + mmEntrySize level ≤ end_ ∧ (unmap = true ∨ level ≤ 2)

/-- The three ways to treat an entry. -/
theorem mmMapPte_cases (flags : MmFlags) (range : EntryRange level base begin_ end_) (e : Pte level)
    (pool : Mpool) :
    let r := mmMapPte attrs flags level begin_ end_ begin_ e pool
    (mmEntryDone attrs flags.unmap e = true ∧ r = ⟨true, e, pool⟩) ∨
    (mmEntryDone attrs flags.unmap e = false ∧ WholeEntry flags.unmap level base begin_ end_ ∧ r.ok = true ∧
      (r.value = if flags.commit then .leaf (mmNewPte level attrs flags.unmap base) else e) ∧
      r.state = if flags.commit then mmFreePagePte e pool else pool) ∨
    (mmEntryDone attrs flags.unmap e = false ∧ ¬WholeEntry flags.unmap level base begin_ end_ ∧
      r = mmDescend attrs flags level begin_ end_ begin_ e pool) := by
  simp only [mmMapPte, mmMapEntry]
  split
  · next isDone => exact .inl ⟨isDone, rfl⟩
  · next notDone =>
    right
    split
    · next covered =>
      obtain ⟨size, allowed, startAligned⟩ := covered
      have start := range.start startAligned
      have nonempty := range.nonempty
      refine .inl ⟨by simpa using notDone, ⟨start, by omega, ?_⟩, ?_⟩
      · simpa [archMmIsBlockAllowed] using allowed
      · rw [start]
        split <;> exact ⟨rfl, rfl, rfl⟩
    · next partly =>
      refine .inr ⟨by simpa using notDone, ?_, rfl⟩
      rintro ⟨rfl, size, allowed⟩
      refine partly ⟨by omega, ?_, range.aligned⟩
      simpa [archMmIsBlockAllowed] using allowed

/-- Pages are always replaced as a whole. -/
theorem EntryRange.wholePage (range : EntryRange 0 base begin_ end_) (unmap : Bool) :
    WholeEntry unmap 0 base begin_ end_ := by
  have start := range.start range.beginPage
  have nonempty := range.nonempty
  have endPage := range.endPage
  have aligned := range.aligned
  have size : mmEntrySize 0 = pageSize := rfl
  rw [size] at aligned
  refine ⟨start, ?_, .inr (by omega)⟩
  simp only [pageSize] at *
  omega

/-- What populating the table below an entry yields. -/
inductive Populated {level : Nat} : Pte (level + 1) → PageNumber → PageTable level → Prop
  | table (page : PageNumber) (entries : PageTable level) : Populated (.table page entries) page entries
  | leaf (bits : PteBits) (page : PageNumber) : Populated (.leaf bits) page (mmPopulateEntries bits)

theorem mmPopulateTablePte_populated {e : Pte (level + 1)} {pool pool' : Mpool} {page : PageNumber}
    {nt : PageTable level} (populate : mmPopulateTablePte e pool = some (page, nt, pool')) :
    Populated e page nt := by
  cases e with
  | leaf bits =>
    simp only [mmPopulateTablePte, Option.map_eq_some_iff, Prod.mk.injEq, Prod.exists] at populate
    obtain ⟨_, _, -, rfl, rfl, -⟩ := populate
    exact .leaf bits _
  | table page entries =>
    cases populate
    exact .table _ _

/-- Induction over the update of an entry. -/
theorem mmMapPte_rule (flags : MmFlags)
    {R : (level base begin_ end_ : Nat) → Pte level → Bool → Pte level → Prop}
    (done : ∀ {level base begin_ end_} {e : Pte level}, EntryRange level base begin_ end_ →
      mmEntryDone attrs flags.unmap e = true → R level base begin_ end_ e true e)
    (whole : ∀ {level base begin_ end_} {e : Pte level}, EntryRange level base begin_ end_ →
      mmEntryDone attrs flags.unmap e = false → begin_ = base →
      base + mmEntrySize level ≤ end_ → flags.unmap = true ∨ level ≤ 2 →
      R level base begin_ end_ e true
        (if flags.commit then .leaf (mmNewPte level attrs flags.unmap base) else e))
    (stuck : ∀ {level base begin_ end_ bits}, EntryRange (level + 1) base begin_ end_ →
      R (level + 1) base begin_ end_ (.leaf bits) false (.leaf bits))
    (below : ∀ {level base begin_ end_ : Nat} {page : PageNumber} {e : Pte (level + 1)}
        {nt nt' : PageTable level} {ok : Bool},
      EntryRange (level + 1) base begin_ end_ → mmEntryDone attrs flags.unmap e = false →
      ¬WholeEntry flags.unmap (level + 1) base begin_ end_ → Populated e page nt →
      TableSteps level base begin_ end_ (R level) ok nt nt' →
      R (level + 1) base begin_ end_ e ok (.table page nt'))
    (range : EntryRange level base begin_ end_) (e : Pte level) (pool : Mpool) :
    R level base begin_ end_ e (mmMapPte attrs flags level begin_ end_ begin_ e pool).ok
      (mmMapPte attrs flags level begin_ end_ begin_ e pool).value := by
  induction level generalizing base begin_ end_ pool with
  | zero =>
    rcases mmMapPte_cases attrs flags range e pool with ⟨isDone, result⟩ | ⟨notDone, covered, ok,
        value, -⟩ | ⟨-, partly, -⟩
    · rw [result]
      exact done range isDone
    · rw [ok, value]
      exact whole range notDone covered.1 covered.2.1 covered.2.2
    · exact absurd (range.wholePage flags.unmap) partly
  | succ level ih =>
    rcases mmMapPte_cases attrs flags range e pool with ⟨isDone, result⟩ | ⟨notDone, covered, ok,
        value, -⟩ | ⟨notDone, partly, result⟩
    · rw [result]
      exact done range isDone
    · rw [ok, value]
      exact whole range notDone covered.1 covered.2.1 covered.2.2
    · rw [result]
      simp only [mmDescend, mmMapBelow]
      cases populate : mmPopulateTablePte e pool with
      | none =>
        cases e with
        | leaf bits => exact stuck range
        | table page entries => cases populate
      | some populated =>
        obtain ⟨page, nt, pool'⟩ := populated
        exact below range notDone partly (mmPopulateTablePte_populated populate)
          (mmMapLevel_steps attrs flags range (fun subRange e pool => ih subRange e pool) nt pool')

end Hafnium.Mm
