import Hafnium.Mm.Frame
import Hafnium.Mm.Translation

/-! # Ranges at the edges of the address space

Mapping a range means mapping the pages that intersect it. The range is rounded to pages, its start
loses the bits that do not fit into a descriptor, its end wraps around at 64 bits and is capped to
the address space. `ExactRange` is the arithmetic condition under which all that comes to the pages
of the range.
-/

namespace Hafnium.Mm

open BlockWalk

/-- The page of an address has an address in common with the range. -/
def PageIntersects (begin_ end_ addr : Nat) : Prop :=
  max begin_ (mmRoundDownToPage addr) < min end_ (mmRoundDownToPage addr + pageSize)

instance (begin_ end_ addr : Nat) : Decidable (PageIntersects begin_ end_ addr) :=
  inferInstanceAs (Decidable (_ < _))

variable {m : MmConfig} {stage : Stage}

/-- The mapping that is asked for by a mode. -/
def MmConfig.requested (m : MmConfig) (stage : Stage) (mode : Mode) (addr : Nat) : Translation :=
  if mode.IsUnmapped then none else some (addr, m.modeToAttrs stage mode)

/-- The ranges whose pages are mapped exactly: ranges in the address space; ranges from page 0, for
which success is never reported; ranges of no page; and, when unmapping, ranges that go on after
the address space or lie behind it, unless the end wraps around or the start is cut to an address
in the address space. -/
def ExactRange (m : MmConfig) (stage : Stage) (mode : Mode) (begin_ end_ : Nat) : Prop :=
  let spaceEnd := mmPtableAddrSpaceEnd (m.levels stage)
  (begin_ < end_ ∧ end_ ≤ spaceEnd) ∨
  (stage = .stage1 ∧ begin_ = 0) ∨
  (mmMapEnd (m.levels stage) end_ ≤ mmMapBegin begin_ ∧
    (begin_ = end_ ∨ mode.IsUnmapped ∧ spaceEnd ≤ begin_)) ∨
  (mode.IsUnmapped ∧ begin_ < spaceEnd ∧ spaceEnd < end_ ∧ end_ ≤ 2 ^ 64 - pageSize)

instance (mode : Mode) (begin_ end_ : Nat) : Decidable (ExactRange m stage mode begin_ end_) :=
  inferInstanceAs (Decidable (_ ∨ _ ∨ _ ∨ _))

/-! ## The root tables -/

variable {begin_ end_ : Nat} {mode : Mode}

section Root

variable {c : StageConfig}

end Root

/-! ## The arithmetic of a range -/

variable {addr : Nat}

section Arithmetic

/-- The end of a range is rounded up, or wraps around to 0. -/
theorem mmRoundUpToPage_cases (word : end_ < 2 ^ 64) :
    (end_ ≤ 2 ^ 64 - pageSize ∧ mmRoundUpToPage end_ = (end_ + (pageSize - 1)) / pageSize * pageSize) ∨
      (2 ^ 64 - pageSize < end_ ∧ mmRoundUpToPage end_ = 0) := by
  simp only [mmRoundUpToPage, mmRoundDownToPage, pageSize]
  omega

theorem mmMapBegin_eq (word : begin_ < 2 ^ 64) :
    mmMapBegin begin_ = begin_ % 2 ^ 48 / pageSize * pageSize := by
  rw [mmMapBegin, archMmClearPa_eq, pageSize]
  omega

theorem pageIntersects_iff :
    PageIntersects begin_ end_ addr ↔ begin_ < end_ ∧ addr / pageSize * pageSize < end_ ∧
    begin_ < addr / pageSize * pageSize + pageSize := by
  simp only [PageIntersects, mmRoundDownToPage, pageSize]
  omega

theorem space_page (c : StageConfig) : mmPtableAddrSpaceEnd c % pageSize = 0 :=
  page_of_aligned (Nat.mul_mod_left ..)

/-- The pages of an exact range are those that the update touches, as far as success is reported. -/
theorem ExactRange.touches (exact : ExactRange m stage mode begin_ end_) (word : end_ < 2 ^ 64)
    (ordered : begin_ ≤ end_) (inside : addr < mmPtableAddrSpaceEnd (m.levels stage)) :
    (mmMapBegin begin_ ≤ addr ∧ addr < mmMapEnd (m.levels stage) end_ → PageIntersects begin_ end_ addr) ∧
      ((stage = .stage1 → begin_ ≠ 0) → PageIntersects begin_ end_ addr →
        mmMapBegin begin_ ≤ addr ∧ addr < mmMapEnd (m.levels stage) end_) := by
  have space := (m.levels stage).space_le
  rw [← mmPtableAddrSpaceEnd] at space
  have page := space_page (m.levels stage)
  have first := mmMapBegin_eq (Nat.lt_of_le_of_lt ordered word)
  have last := mmRoundUpToPage_cases word
  simp only [ExactRange, mmMapEnd] at exact
  rw [pageIntersects_iff, mmMapEnd, first]
  simp only [pageSize] at *
  rcases exact with ⟨nonempty, bound⟩ | ⟨hypervisor, rfl⟩ | ⟨empty, reason⟩ | ⟨-, lower, upper, fits⟩
  · omega
  · exact ⟨fun touched => by omega, fun reports => absurd rfl (reports hypervisor)⟩
  · exact ⟨fun touched => by omega, fun _ meets => by omega⟩
  · omega

/-- Pages of an exact range outside of the address space are only asked for when unmapping. -/
theorem ExactRange.beyond (exact : ExactRange m stage mode begin_ end_)
    (reports : stage = .stage1 → begin_ ≠ 0) (meets : PageIntersects begin_ end_ addr)
    (outside : mmPtableAddrSpaceEnd (m.levels stage) ≤ addr) : mode.IsUnmapped := by
  have page := space_page (m.levels stage)
  rw [pageIntersects_iff] at meets
  simp only [ExactRange] at exact
  simp only [pageSize] at *
  rcases exact with ⟨-, bound⟩ | ⟨hypervisor, zero⟩ | ⟨-, empty | ⟨unmapped, -⟩⟩ | ⟨unmapped, -⟩
  · omega
  · exact absurd zero (reports hypervisor)
  · omega
  · exact unmapped
  · exact unmapped

end Arithmetic

/-! ## Exact ranges are mapped exactly -/

section Exact

variable {t : MmPtable (m.levels stage)}

theorem Pte.attrsAt_of_keeps {level : Nat} {attrs : PteBits} {e : Pte level}
    (kept : e.keeps attrs begin_ end_ addr = true) : e.attrsAt addr = attrs := by
  induction e with
  | leaf bits =>
    rw [Pte.keeps, Bool.and_eq_true, decide_eq_true_eq] at kept
    exact kept.2
  | table page entries ih =>
    rw [Pte.keeps, Bool.and_eq_true] at kept
    exact ih _ kept.2

/-- With enough free pages an update succeeds. -/
theorem stageIdentityMap_succeeds (t : MmPtable (m.levels stage)) (begin_ end_ : Nat) (mode : Mode) :
    ∃ pool r, stageIdentityMap t begin_ end_ mode pool = some r ∧ r.ok = true := by
  let pages := 2 * mmPtableUpdatePages (m.levels stage) (mmModeToFlags mode) begin_ end_
  have enough : pages ≤ Mpool.freeCount [⟨[], [(0, pages)]⟩] := by
    simp [Mpool.freeCount, MpoolLevel.freeCount]
  obtain ⟨r, ran, ok, -⟩ := mmPtableIdentityUpdate_pages t _ enough
  exact ⟨_, r, ran, ok⟩

/-- New tables map nothing. -/
def MmPtable.empty (c : StageConfig) : MmPtable c := ⟨0, fun _ _ => .leaf archMmAbsentPte⟩

theorem MmPtable.empty_wellFormed (c : StageConfig) : (MmPtable.empty c).WellFormed :=
  fun _ _ _ _ => LeafFor.absent

variable {page : Nat}

end Exact

/-- The first table of a virtual machine, from a pool with just the pages for it. -/
theorem VmPtableReachable.empty (m : MmConfig) : VmPtableReachable (MmPtable.empty (m.levels .stage2)) := by
  let count := (m.levels .stage2).rootTableCount
  have made : ∃ pool, mmAllocPageTables count [⟨[], [(0, count)]⟩] = some (0, pool) := by
    rw [mmAllocPageTables]
    split
    · next single =>
      rw [single]
      exact ⟨_, rfl⟩
    · have aligned : (count - 1) / count = 0 :=
        Nat.div_eq_of_lt (Nat.sub_lt (m.levels .stage2).rootTableCount_pos Nat.one_pos)
      simp [mpoolAllocContiguous, mpoolTakeContiguous, aligned]
  obtain ⟨pool, made⟩ := made
  refine .init (show mmVmInit m [⟨[], [(0, count)]⟩] = some (_, pool) from ?_)
  rw [mmVmInit, mmPtableInit, made]
  rfl

/-- The empty range behind a 48-bit address space maps the whole of it. -/
theorem mmVmIdentityMap_behind (space : mmPtableAddrSpaceEnd (m.levels .stage2) = 2 ^ 48) :
    ∃ pool r, mmVmIdentityMap (MmPtable.empty (m.levels .stage2)) (2 ^ 48) (2 ^ 48) mmModeR pool = some r ∧
      r.value.lookup 0 = some (0, archMmModeToStage2Attrs mmModeR) := by
  obtain ⟨pool, r, ran, ok⟩ := stageIdentityMap_succeeds (MmPtable.empty (m.levels .stage2))
    (2 ^ 48) (2 ^ 48) mmModeR
  obtain ⟨r', ran', wf, success, -⟩ := stageIdentityMap_spec (MmPtable.empty_wellFormed _) (2 ^ 48)
    (2 ^ 48) mmModeR pool
  cases ran.symm.trans ran'
  have inside : 0 < mmPtableAddrSpaceEnd (m.levels .stage2) := by omega
  have touched : mmMapBegin (2 ^ 48) ≤ 0 ∧ 0 < mmMapEnd (m.levels .stage2) (2 ^ 48) := by
    rw [mmMapEnd_of_page (by decide) space.ge]
    exact ⟨by decide, by decide⟩
  have written := success ok 0 inside
  rw [if_pos touched, MmConfig.mappedAttrs, if_neg (by decide)] at written
  refine ⟨pool, r, ran, ?_⟩
  rw [MmPtable.lookup_eq wf inside, written]
  exact if_neg (archMmModeToStage2Attrs_block mmModeR (by decide)).ne_zero

/-- Stage-2 updates of a page-aligned range are correct on every reachable table, if and only if the start of
the range is an address that a descriptor can hold. Only the empty range at the end of a 48-bit space has no
such start: `arch_mm_clear_pa` takes it for 0. -/
theorem mmVm_update_correct_iff (beginPage : begin_ % pageSize = 0) (endPage : end_ % pageSize = 0)
    (ordered : begin_ ≤ end_) (inside : end_ ≤ mmPtableAddrSpaceEnd (m.levels .stage2)) :
    (∀ t : VmPtable m, VmPtableReachable t → ∀ mode pool,
      (∃ r, mmVmIdentityMap t begin_ end_ mode pool = some r ∧ MapsRange mode begin_ end_ t r) ∧
      ∃ r, mmVmUnmap t begin_ end_ pool = some r ∧ MapsRange mmModeUnmappedMask begin_ end_ t r) ↔
        begin_ < 2 ^ 48 := by
  refine ⟨fun correct => ?_, fun bound t reachable mode pool =>
    ⟨mapsRange_of_page reachable.wellFormed beginPage endPage bound inside mode pool,
      mapsRange_of_page reachable.wellFormed beginPage endPage bound inside mmModeUnmappedMask pool⟩⟩
  by_contra behind
  have space : mmPtableAddrSpaceEnd (m.levels .stage2) ≤ 2 ^ 48 := (m.levels .stage2).space_le
  obtain rfl : begin_ = 2 ^ 48 := by omega
  obtain rfl : end_ = 2 ^ 48 := by omega
  obtain ⟨pool, r, ran, written⟩ := mmVmIdentityMap_behind (le_antisymm space inside)
  obtain ⟨⟨r', ran', maps⟩, -⟩ := correct _ (.empty m) mmModeR pool
  cases ran.symm.trans ran'
  have kept := (maps.kept 0 (by omega) (.inr (.inl (by decide)))).1
  rw [written] at kept
  cases kept

/-- The first page of a new table on a 32-bit platform. -/
theorem mmVm_update_correct_first_page :
    let m := smallConfig
    let t : VmPtable m := .empty _
    VmPtableReachable t ∧
      (∃ r, mmVmIdentityMap t 0 4096 mmModeR [⟨[5, 6], []⟩] = some r ∧ MapsRange mmModeR 0 4096 t r) ∧
      ∃ r, mmVmUnmap t 0 4096 [⟨[5, 6], []⟩] = some r ∧ MapsRange mmModeUnmappedMask 0 4096 t r := by
  intro m t
  have reachable : VmPtableReachable t := .empty m
  have correct := (mmVm_update_correct_iff (m := m) (show 0 % pageSize = 0 from rfl)
    (show 4096 % pageSize = 0 from rfl) (by decide) (by decide)).mpr (by decide)
  exact ⟨reachable, correct t reachable mmModeR [⟨[5, 6], []⟩]⟩

/-- On a platform with 48-bit addresses, mapping nothing at the end of the address space maps page 0. -/
theorem mmVm_update_maps_all :
    let m : MmConfig := ⟨⟨false, false, false⟩, ⟨48, by decide⟩⟩
    let t : VmPtable m := .empty _
    VmPtableReachable t ∧ 2 ^ 48 ≤ mmPtableAddrSpaceEnd (m.levels .stage2) ∧ t.lookup 0 = none ∧
      ∃ pool r, mmVmIdentityMap t (2 ^ 48) (2 ^ 48) mmModeR pool = some r ∧
        r.value.lookup 0 = some (0, archMmModeToStage2Attrs mmModeR) ∧ ¬MapsRange mmModeR (2 ^ 48)
          (2 ^ 48) t r := by
  intro m t
  have space : mmPtableAddrSpaceEnd (m.levels .stage2) = 2 ^ 48 := by decide
  obtain ⟨pool, r, ran, written⟩ := mmVmIdentityMap_behind space
  refine ⟨.empty m, space.ge, by decide, pool, r, ran, written, fun maps => ?_⟩
  have kept := (maps.kept 0 (by omega) (.inr (.inl (by decide)))).1
  rw [written] at kept
  cases kept

end Hafnium.Mm
