import Hafnium.Mm.Ptable

/-! # Reading the attributes of a range

`mmGetAttrs` reads the attributes that all pages of a range share. The attributes read so far are
an `Option`: `none` before the first entry, and as a result when the entries of the range differ.
-/

namespace Hafnium.Mm

open BlockWalk

/-- Compares the attributes of an entry with those read so far. -/
def mmMatchAttrs (attrs : PteBits) : Option PteBits → Option PteBits
  | none => some attrs
  | some got => if attrs = got then some got else none

/-- The loop body of `mm_ptable_get_attrs_level`; `descend` reads the table below an entry. -/
def mmGetAttrsEntry {level : Nat} (descend : PageTable level → Option PteBits → Option PteBits)
    (pte : Pte (level + 1)) (got : Option PteBits) : Option PteBits :=
  match pte with
  | .table _ entries => descend entries got
  | .leaf bits => mmMatchAttrs (archMmPteAttrs bits) got

def mmPtableGetAttrsLevel :
    (level : Nat) → (begin_ end_ : Nat) → PageTable level → Option PteBits → Option PteBits
  | 0, begin_, end_, t, got =>
    scan (mmEntrySize 0) (fun _ pte got => mmMatchAttrs (archMmPteAttrs pte.bits) got)
      (min end_ (mmLevelEnd begin_ 0)) t
      mmPtePerPage begin_ (mmIndex begin_ 0) got
  | level + 1, begin_, end_, t, got =>
    let end_ := min end_ (mmLevelEnd begin_ (level + 1))
    scan (mmEntrySize (level + 1)) (fun begin_ =>
      mmGetAttrsEntry (mmPtableGetAttrsLevel level begin_ end_)) end_ t
      mmPtePerPage begin_ (mmIndex begin_ (level + 1)) got

/-- The attributes that apply to the whole range, if they are the same everywhere. -/
def mmGetAttrs {c : StageConfig} (t : MmPtable c) (begin_ end_ : Nat) : Option PteBits :=
  let begin_ := mmRoundDownToPage begin_
  let end_ := mmRoundUpToPage end_
  if end_ > mmPtableAddrSpaceEnd c then none
  else
    scan (mmEntrySize (c.maxLevel + 1)) (fun begin_ => mmPtableGetAttrsLevel c.maxLevel begin_ end_)
      end_ t.tables c.rootTableCount begin_ (mmIndex begin_ (c.maxLevel + 1)) none

/-! ## The common attributes of a range -/

theorem mmMatchAttrs_iff {f : Nat → PteBits} {attrs b : PteBits} {first last : Nat} {got : Option PteBits}
    (nonempty : first < last) (values : ∀ a, first ≤ a → a < last → f a = attrs) :
    mmMatchAttrs attrs got = some b ↔ Common f first last got b := by
  have whole : (∀ a, first ≤ a → a < last → f a = b) ↔ attrs = b := by
    constructor
    · intro all
      rw [← values first (Nat.le_refl _) nonempty, all first (Nat.le_refl _) nonempty]
    · rintro rfl
      exact values
  cases got with
  | none => simp [mmMatchAttrs, Common, whole, nonempty]
  | some got =>
    rw [common_some, whole, mmMatchAttrs]
    split
    · next same => simp [same]
    · next differ =>
      simp only [reduceCtorEq, false_iff, not_and]
      rintro rfl same
      exact differ same

/-- The attributes below a table are those of its entries. -/
theorem PageTable.attrsAt_entry {level base j addr : Nat} (t : PageTable level)
    (aligned : base % mmEntrySize (level + 1) = 0) (bound : j < mmPtePerPage)
    (lower : base + j * mmEntrySize level ≤ addr)
    (upper : addr < base + j * mmEntrySize level + mmEntrySize level) :
    t.attrsAt addr = (t j).attrsAt addr := by
  rw [PageTable.attrsAt, mmIndex_eq aligned bound lower upper]

/-- A table is read from the start of the range to its end, or to the end of the table. -/
theorem mmPtableGetAttrsLevel_iff {level base begin_ : Nat} (end_ : Nat) (t : PageTable level)
    (got : Option PteBits) (b : PteBits) (aligned : base % mmEntrySize (level + 1) = 0)
    (lower : base ≤ begin_) (upper : begin_ < base + mmEntrySize (level + 1)) :
    mmPtableGetAttrsLevel level begin_ end_ t got = some b ↔
      Common t.attrsAt begin_ (min end_ (base + mmEntrySize (level + 1))) got b := by
  induction level generalizing base begin_ end_ got b with
  | zero =>
    obtain ⟨index, first, last⟩ := mmIndex_bounds aligned lower upper
    rw [mmPtableGetAttrsLevel, mmLevelEnd_eq aligned lower upper]
    refine scan_iff t.attrsAt (table_aligned aligned) (mmEntrySize_succ 0 ▸ Nat.min_le_right ..)
      (fun j cursor got b bound entryLower entryUpper running => ?_) _ _ _ _ _ (Nat.le_add_left ..) first last
    refine mmMatchAttrs_iff (by omega) fun a after before => ?_
    rw [t.attrsAt_entry aligned bound (by omega) (by omega)]
    cases t j with
    | leaf bits => rfl
  | succ level ih =>
    obtain ⟨index, first, last⟩ := mmIndex_bounds aligned lower upper
    rw [mmPtableGetAttrsLevel, mmLevelEnd_eq aligned lower upper]
    refine scan_iff t.attrsAt (table_aligned aligned) (mmEntrySize_succ (level + 1) ▸ Nat.min_le_right ..)
      (fun j cursor got b bound entryLower entryUpper running => ?_) _ _ _ _ _ (Nat.le_add_left ..) first last
    have entryAttrs (a : Nat) (after : cursor ≤ a)
        (before : a < min (min end_ (base + mmEntrySize (level + 1 + 1)))
          (base + j * mmEntrySize (level + 1) + mmEntrySize (level + 1))) :
        t.attrsAt a = (t j).attrsAt a :=
      t.attrsAt_entry aligned bound (by omega) (by omega)
    cases entry : t j with
    | leaf bits =>
      refine mmMatchAttrs_iff (by omega) fun a after before => ?_
      rw [entryAttrs a after before, entry]
      rfl
    | table page entries =>
      rw [mmGetAttrsEntry, ih _ entries got b (entry_aligned aligned j) entryLower entryUpper]
      refine common_congr fun a after before => ?_
      rw [entryAttrs a after before, entry]
      rfl

/-- The code reads attributes from a range when the range is not empty, lies in the address space
and has these attributes everywhere. -/
theorem mmGetAttrs_iff {c : StageConfig} (t : MmPtable c) (begin_ end_ : Nat) (attrs : PteBits) :
    mmGetAttrs t begin_ end_ = some attrs ↔
      mmRoundUpToPage end_ ≤ mmPtableAddrSpaceEnd c ∧ mmRoundDownToPage begin_ < mmRoundUpToPage end_ ∧
        ∀ addr, mmRoundDownToPage begin_ ≤ addr → addr < mmRoundUpToPage end_ → t.attrsAt addr = attrs := by
  simp only [mmGetAttrs]
  generalize mmRoundDownToPage begin_ = first
  generalize mmRoundUpToPage end_ = last
  by_cases inside : last ≤ mmPtableAddrSpaceEnd c
  · rw [if_neg (by omega)]
    by_cases nonempty : first < last
    · obtain ⟨root, lower, upper⟩ := root_bounds (c := c) (Nat.lt_of_lt_of_le nonempty inside)
      have inRoot := inside
      rw [mmPtableAddrSpaceEnd] at inRoot
      rw [scan_iff t.attrsAt (Nat.zero_mod _) (by omega) ?_ _ _ _ _ _ (Nat.le_add_left ..)
        (by omega) (by omega)]
      · simp [Common, inside, nonempty]
      · intro i cursor got b bound entryLower entryUpper running
        rw [mmPtableGetAttrsLevel_iff last _ got b (Nat.mul_mod_left i _) (by omega) (by omega), Nat.zero_add]
        refine common_congr fun a after before => ?_
        exact t.attrsAt_root bound (by omega) (by omega)
    · rw [scan_stopped nonempty]
      simp [nonempty]
  · simp [inside]

end Hafnium.Mm
