import Mathlib.Algebra.Group.Nat.Defs
import Mathlib.Data.List.Infix

/-! # Memory regions of a manifest

The manifest parser records the limits of every memory region and refuses a region whose start or end
lies in one that was recorded. A region that encloses another one has neither there, and a region that
ends where another one starts does.
-/

namespace Hafnium.Manifest

/-- `MANIFEST_INVALID_ADDRESS`, the base address of a region without one. -/
def manifestInvalidAddress : BitVec 64 := BitVec.allOnes 64

/-- An entry of `allocated_fields->mem_regions`. -/
structure AllocatedRegion where
  base : BitVec 64
  limit : BitVec 64
deriving DecidableEq, Repr

/-- The product of the page count, which has 32 bits, and the page size has 32 bits. -/
def checkAndRecordMemRegions (allocated : List AllocatedRegion) (baseAddress : BitVec 64)
    (pageCount : BitVec 32) : Option (List AllocatedRegion) :=
  let limit := baseAddress + (pageCount * 4096).setWidth 64
  if ∃ region ∈ allocated, (baseAddress ≥ region.base ∧ baseAddress < region.limit) ∨
      (limit < region.limit ∧ limit ≥ region.base) then none
  else some (allocated ++ [⟨baseAddress, limit⟩])

/-- The base address and the page count of a memory region. -/
structure RegionRange where
  baseAddress : BitVec 64
  pageCount : BitVec 32
deriving DecidableEq, Repr

namespace RegionRange

variable (r e : RegionRange)

def allocated : AllocatedRegion := ⟨r.baseAddress, r.baseAddress + (r.pageCount * 4096).setWidth 64⟩

/-- The regions that are recorded after one more was checked. -/
def record (accepted : List RegionRange) : List RegionRange :=
  if (checkAndRecordMemRegions (accepted.map allocated) r.baseAddress r.pageCount).isSome then
    accepted ++ [r]
  else accepted

/-- The regions of a sequence that are recorded. -/
def recordAll (regions : List RegionRange) : List RegionRange :=
  regions.foldl (fun accepted r => r.record accepted) []

def Explicit : Prop := r.baseAddress ≠ manifestInvalidAddress

def first : Nat := r.baseAddress.toNat

/-- The end of a region, over unbounded integers. -/
def last : Nat := r.first + r.pageCount.toNat * 4096

/-- Some page holds bytes of both regions. -/
def SharesPage : Prop :=
  r.Explicit ∧ e.Explicit ∧
    ∃ a b, (r.first ≤ a ∧ a < r.last) ∧ (e.first ≤ b ∧ b < e.last) ∧ a / 4096 = b / 4096

section Pages

variable {r e}

theorem first_lt : r.first < 2 ^ 64 := r.baseAddress.isLt

theorem explicit_iff : r.Explicit ↔ r.first ≠ 2 ^ 64 - 1 := by
  rw [Explicit, ne_eq, ← BitVec.toNat_inj]
  rfl

/-- Regions share a page if their first and last pages are not apart. -/
theorem sharesPage_iff : r.SharesPage e ↔
    (r.first ≠ 2 ^ 64 - 1 ∧ e.first ≠ 2 ^ 64 - 1) ∧ r.first < r.last ∧ e.first < e.last ∧
      r.first / 4096 ≤ (e.last - 1) / 4096 ∧ e.first / 4096 ≤ (r.last - 1) / 4096 := by
  rw [SharesPage, ← and_assoc, explicit_iff, explicit_iff]
  refine and_congr_right fun _ => ?_
  constructor
  · rintro ⟨a, b, ⟨low, high⟩, ⟨low', high'⟩, same⟩
    omega
  · rintro ⟨pages, pages', before, after⟩
    -- The later one of the two first bytes has its page in both.
    rcases Nat.le_total r.first e.first with order | order
    · exact ⟨min e.first (r.last - 1), e.first, by omega, by omega, by omega⟩
    · exact ⟨r.first, min r.first (e.last - 1), by omega, by omega, by omega⟩

instance : DecidableRel SharesPage := fun _ _ => decidable_of_iff _ sharesPage_iff.symm

end Pages

/-- What should be recorded after one more region. -/
def accept (accepted : List RegionRange) : List RegionRange :=
  if ∃ e ∈ accepted, r.SharesPage e then accepted else accepted ++ [r]

/-- What should be recorded of a sequence. -/
def acceptAll (regions : List RegionRange) : List RegionRange :=
  regions.foldl (fun accepted r => r.accept accepted) []

/-! ### Where the check goes wrong -/

/-- The base plus the size, of which 32 bits are kept. -/
def reach : Nat := r.first + r.pageCount.toNat % 2 ^ 20 * 4096

/-- The recorded end, of which 64 bits are kept. -/
def stop : Nat := r.reach % 2 ^ 64

/-- The four positions in which neither end of the region is found in the other one. -/
inductive Misses : Prop where
  | below (first : r.first < e.first) (stop : r.stop < e.first)
  | encloses (first : r.first < e.first) (stop : e.stop ≤ r.stop)
  | above (first : e.stop ≤ r.first) (stop : e.stop ≤ r.stop)
  | around (first : e.stop ≤ r.first) (stop : r.stop < e.first)

/-- The three ways in which an end of the region is found in one that it shares no page with. -/
inductive MistakenFor : Prop where
  | empty (pages : r.pageCount = 0) (lower : e.first ≤ r.first) (upper : r.first < e.stop)
  | touches (size : r.pageCount.toNat < 2 ^ 20) (meets : r.last = e.first) (upper : e.first < e.stop)
  | wraps (over64 : 2 ^ 64 ≤ r.reach) (lower : e.first ≤ r.reach - 2 ^ 64) (upper : r.reach - 2 ^ 64 < e.stop)

/-- The region shares a page with one of the others, and misses all of them. -/
def Overlooked (accepted : List RegionRange) : Prop :=
  (∃ e ∈ accepted, r.SharesPage e) ∧ ∀ e ∈ accepted, r.Misses e

/-- The region shares no page, and is mistaken for one that does. -/
def Blamed (accepted : List RegionRange) : Prop :=
  (∀ e ∈ accepted, ¬r.SharesPage e) ∧ ∃ e ∈ accepted, r.MistakenFor e

variable {r e}

theorem allocated_limit : r.allocated.limit.toNat = r.stop := by
  rw [allocated, BitVec.toNat_add, BitVec.toNat_setWidth, BitVec.toNat_mul,
    show (4096 : BitVec 32).toNat = 4096 from rfl, stop, reach, first]
  omega

/-- What the check looks for: the start of the region or its end in another one. -/
theorem caught_iff : ((r.baseAddress ≥ e.allocated.base ∧ r.baseAddress < e.allocated.limit) ∨
    (r.allocated.limit < e.allocated.limit ∧ r.allocated.limit ≥ e.allocated.base)) ↔
      (e.first ≤ r.first ∧ r.first < e.stop) ∨ (r.stop < e.stop ∧ e.first ≤ r.stop) := by
  simp only [ge_iff_le, BitVec.le_def, BitVec.lt_def, allocated_limit]
  rfl

theorem not_misses_iff : ¬r.Misses e ↔ (e.first ≤ r.first ∧ r.first < e.stop) ∨
      (r.stop < e.stop ∧ e.first ≤ r.stop) := by
  constructor
  · intro hit
    by_contra missed
    apply hit
    rcases Nat.lt_or_ge r.first e.first with low | high <;> rcases Nat.lt_or_ge r.stop
        e.first with stopLow | stopHigh
    · exact .below low stopLow
    · exact .encloses low (by omega)
    · exact .around (by omega) stopLow
    · exact .above (by omega) (by omega)
  · rintro caught (⟨first, stop⟩ | ⟨first, stop⟩ | ⟨first, stop⟩ | ⟨first, stop⟩)
    all_goals omega

/-- Without a shared page, an end can be found in another region in three ways only. -/
theorem mistakenFor_iff (apart : ¬r.SharesPage e) : r.MistakenFor e ↔ ¬r.Misses e := by
  have small := @first_lt r
  have small' := @first_lt e
  have pages := r.pageCount.isLt
  rw [sharesPage_iff] at apart
  rw [not_misses_iff]
  constructor
  · rintro (⟨empty, lower, upper⟩ | ⟨size, meets, upper⟩ | ⟨over64, lower, upper⟩)
    · exact .inl ⟨lower, upper⟩
    · simp only [stop, reach, last] at *
      omega
    · simp only [stop, reach] at *
      omega
  · intro caught
    by_cases wraps : 2 ^ 64 ≤ r.reach
    · -- A region that reaches beyond the last address is not empty, so it does not start in the other one.
      simp only [stop, reach, last] at *
      exact .wraps wraps (by simp only [reach]; omega) (by simp only [stop, reach]; omega)
    · by_cases empty : r.pageCount = 0
      · have none_ : r.stop = r.first := by
          rw [stop, reach, empty]
          exact Nat.mod_eq_of_lt small
        exact .empty empty (by omega) (by omega)
      · have some_ : r.pageCount.toNat ≠ 0 := fun zero => empty (BitVec.eq_of_toNat_eq zero)
        simp only [stop, reach, last] at *
        exact .touches (by omega) (by simp only [last]; omega) (by simp only [stop, reach]; omega)

/-- The check refuses a region if it does not miss every recorded one. -/
theorem refused_iff {accepted : List RegionRange} :
    checkAndRecordMemRegions (accepted.map allocated) r.baseAddress r.pageCount = none ↔
      ∃ e ∈ accepted, ¬r.Misses e := by
  simp only [checkAndRecordMemRegions, List.mem_map, exists_exists_and_eq_and, ite_eq_left_iff,
    reduceCtorEq, imp_false, not_not, not_misses_iff, ← caught_iff]
  rfl

/-- A region that is refused shares a page with one that was recorded, and only such a region is refused. -/
def JudgedBy (accepted : List RegionRange) (r : RegionRange) : Prop :=
  checkAndRecordMemRegions (accepted.map allocated) r.baseAddress r.pageCount = none ↔
    ∃ e ∈ accepted, r.SharesPage e

theorem judgedBy_iff {accepted : List RegionRange} :
    JudgedBy accepted r ↔ ¬r.Overlooked accepted ∧ ¬r.Blamed accepted := by
  rw [JudgedBy, refused_iff, Overlooked, Blamed]
  by_cases shares : ∃ e ∈ accepted, r.SharesPage e
  · have shared : ¬∀ e ∈ accepted, ¬r.SharesPage e := by simpa using shares
    simp [shares, shared]
  · have apart : ∀ e ∈ accepted, ¬r.SharesPage e := fun e member both => shares ⟨e, member, both⟩
    have mistaken : (∃ e ∈ accepted, r.MistakenFor e) ↔ ∃ e ∈ accepted, ¬r.Misses e :=
      exists_congr fun e => and_congr_right fun member => mistakenFor_iff (apart e member)
    simp only [shares, mistaken, false_and, not_false_eq_true, true_and, iff_false, and_iff_right apart]

theorem record_cases (r : RegionRange) (accepted : List RegionRange) :
    (checkAndRecordMemRegions (accepted.map allocated) r.baseAddress r.pageCount = none ∧
      r.record accepted = accepted) ∨
      checkAndRecordMemRegions (accepted.map allocated) r.baseAddress r.pageCount =
        some ((accepted ++ [r]).map allocated) ∧ r.record accepted = accepted ++ [r] := by
  rw [record, checkAndRecordMemRegions]
  split
  · exact .inl ⟨rfl, rfl⟩
  · exact .inr ⟨by rw [List.map_append]; rfl, rfl⟩

/-- A region that is judged rightly is recorded as it should be. -/
theorem JudgedBy.record_eq {accepted : List RegionRange} (judged : JudgedBy accepted r) :
    r.record accepted = r.accept accepted := by
  rw [accept]
  rcases record_cases r accepted with ⟨refused, same⟩ | ⟨taken, added⟩
  · rw [same, if_pos (judged.mp refused)]
  · rw [added, if_neg fun shares => by rw [judged.mpr shares] at taken; cases taken]

theorem recordAll_append (regions : List RegionRange) (r : RegionRange) :
    recordAll (regions ++ [r]) = r.record (recordAll regions) := by
  rw [recordAll, List.foldl_append]
  rfl

theorem acceptAll_append (regions : List RegionRange) (r : RegionRange) :
    acceptAll (regions ++ [r]) = r.accept (acceptAll regions) := by
  rw [acceptAll, List.foldl_append]
  rfl

/-- What should be recorded is disjoint. -/
theorem acceptAll_disjoint (regions : List RegionRange) :
    (acceptAll regions).Pairwise fun e r => ¬r.SharesPage e := by
  induction regions using List.reverseRecOn with
  | nil => exact .nil
  | append_singleton regions r ih =>
    rw [acceptAll_append, accept]
    split
    · exact ih
    · next apart =>
      refine List.pairwise_append.mpr ⟨ih, List.pairwise_singleton .., fun e member r' isLast shares => ?_⟩
      obtain rfl := List.mem_singleton.mp isLast
      exact apart ⟨e, member, shares⟩

end RegionRange

open RegionRange

/-- Every region of a sequence is judged rightly against those that were recorded before it. -/
def JudgedRightly (regions : List RegionRange) : Prop :=
  ∀ earlier r later, regions = earlier ++ r :: later → JudgedBy (recordAll earlier) r

theorem forall_splits_append {α : Type*} {P : List α → α → Prop} {l : List α} {x : α} :
    (∀ earlier r later, l ++ [x] = earlier ++ r :: later → P earlier r) ↔
      (∀ earlier r later, l = earlier ++ r :: later → P earlier r) ∧ P l x := by
  constructor
  · intro all
    refine ⟨fun earlier r later isSplit => all earlier r (later ++ [x]) ?_, all l x [] rfl⟩
    rw [isSplit, List.append_assoc]
    rfl
  · rintro ⟨before, here⟩ earlier r later isSplit
    rcases List.eq_nil_or_concat later with rfl | ⟨later, y, rfl⟩
    · obtain ⟨rfl, same⟩ := List.append_inj' isSplit rfl
      cases same
      exact here
    · rw [List.concat_eq_append, ← List.cons_append, ← List.append_assoc] at isSplit
      exact before earlier r later (List.append_inj' isSplit rfl).1

/-- As long as every region is judged rightly, what is recorded is what should be. -/
theorem judgedRightly_iff (regions : List RegionRange) :
    (JudgedRightly regions ↔ ∀ earlier r later, regions = earlier ++ r :: later →
      JudgedBy (acceptAll earlier) r) ∧
      (JudgedRightly regions → recordAll regions = acceptAll regions) := by
  induction regions using List.reverseRecOn with
  | nil =>
    have none_ {P : List RegionRange → RegionRange → Prop} :
        ∀ earlier r later, [] = earlier ++ r :: later → P earlier r :=
          fun earlier r later isSplit => by simp at isSplit
    exact ⟨iff_of_true none_ none_, fun _ => rfl⟩
  | append_singleton regions r ih =>
    have step : JudgedRightly (regions ++ [r]) ↔ JudgedRightly regions ∧
        JudgedBy (recordAll regions) r := forall_splits_append
    rw [step, forall_splits_append, ← ih.1, recordAll_append, acceptAll_append]
    refine ⟨and_congr_right fun before => by rw [ih.2 before], fun ⟨before, here⟩ => ?_⟩
    rw [ih.2 before] at here ⊢
    exact here.record_eq

/-- The check is right on a sequence of regions if and only if none of them is overlooked or blamed
against those that should be recorded before it. Then the recorded regions are disjoint. -/
theorem mem_regions_judged_iff (regions : List RegionRange) :
    (JudgedRightly regions ↔ ∀ earlier r later, regions = earlier ++ r :: later →
      ¬r.Overlooked (acceptAll earlier) ∧ ¬r.Blamed (acceptAll earlier)) ∧
    (JudgedRightly regions → (recordAll regions).Pairwise fun e r => ¬r.SharesPage e) := by
  obtain ⟨judged, recorded⟩ := judgedRightly_iff regions
  refine ⟨?_, fun right => recorded right ▸ acceptAll_disjoint regions⟩
  rw [judged]
  exact forall₄_congr fun earlier r later isSplit => judgedBy_iff

/-- A region that encloses a recorded one is recorded; one that ends where it starts is refused, and so is one
without a base address. -/
theorem mem_regions_misjudged :
    let recorded : RegionRange := ⟨0x2000, 1⟩
    (recordAll [recorded, ⟨0x1000, 3⟩] = [recorded, ⟨0x1000, 3⟩] ∧
      (RegionRange.mk 0x1000 3).SharesPage recorded) ∧
    (recordAll [recorded, ⟨0x1000, 1⟩] = [recorded] ∧ ¬(RegionRange.mk 0x1000 1).SharesPage recorded) ∧
    (recordAll [recorded, ⟨manifestInvalidAddress, 3⟩] = [recorded] ∧
      ¬(RegionRange.mk manifestInvalidAddress 3).SharesPage recorded) := by
  decide

end Hafnium.Manifest
