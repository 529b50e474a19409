import Hafnium.Mm.Defrag
import Hafnium.Mm.GetAttrs

/-! # Page tables of the two translation stages

The interface of `mm.c`: a stage fixes the shape of the tables and how modes are written as
attributes. Virtual machines are translated by stage-2 tables, the hypervisor itself and its EL0
partitions by stage-1 tables. The functions of both stages are instances of the same few
definitions over a `Stage`.
-/

namespace Hafnium.Mm

/-- The physical address ranges that `arch_mm_init` accepts. -/
structure PaSize where
  range : Nat
  supported : range ∈ [32, 36, 40, 42, 44, 48, 52]

theorem least_supported : 32 ∈ [32, 36, 40, 42, 44, 48, 52] := List.mem_cons_self

/-- The number of bits in use: 52-bit addresses fall back to 48 bits. -/
def PaSize.bits (pa : PaSize) : Nat := if pa.range = 52 then 48 else pa.range

def archMmStage1MaxLevel (paBits : Nat) : Nat := if paBits ≥ 40 then 3 else 2

def archMmStage1RootTableCount : Nat := 1

def archMmStage2MaxLevel (paBits : Nat) : Nat := if paBits ≥ 44 then 3 else if paBits ≥ 35 then 2 else 1

def archMmStage2RootTableCount (paBits : Nat) : Nat :=
  let extendBits := (paBits - 12) % 9
  1 <<< (if extendBits > 4 then 0 else extendBits)

inductive Stage
  | stage1
  | stage2
deriving DecidableEq, Repr

/-- What the page-table code reads of its platform. -/
structure MmConfig where
  features : ArchFeatures
  pa : PaSize

/-- A hypervisor on a platform with 32-bit physical addresses. -/
def smallConfig : MmConfig := ⟨⟨false, false, false⟩, ⟨32, least_supported⟩⟩

namespace MmConfig

def mmMaxLevel (m : MmConfig) : Stage → Nat
  | .stage1 => archMmStage1MaxLevel m.pa.bits
  | .stage2 => archMmStage2MaxLevel m.pa.bits

def mmRootTableCount (m : MmConfig) : Stage → Nat
  | .stage1 => archMmStage1RootTableCount
  | .stage2 => archMmStage2RootTableCount m.pa.bits

private theorem levels_ok (m : MmConfig) (stage : Stage) :
    1 ≤ m.mmMaxLevel stage ∧ 0 < m.mmRootTableCount stage ∧ m.mmRootTableCount stage ≤ 16 ∧
      m.mmRootTableCount stage * mmEntrySize (m.mmMaxLevel stage + 1) ≤ 2 ^ 48 := by
  have supported := m.pa.supported
  simp only [mmMaxLevel, mmRootTableCount, PaSize.bits]
  generalize m.pa.range = range at supported
  cases stage
  all_goals
    revert range
    decide

/-- The shape of the tables of a stage. -/
def levels (m : MmConfig) (stage : Stage) : StageConfig where
  maxLevel := m.mmMaxLevel stage
  rootTableCount := m.mmRootTableCount stage
  maxLevel_pos := (levels_ok m stage).1
  rootTableCount_pos := (levels_ok m stage).2.1
  rootTableCount_le := (levels_ok m stage).2.2.1
  space_le := (levels_ok m stage).2.2.2

def modeToAttrs (m : MmConfig) : Stage → Mode → PteBits
  | .stage1 => archMmModeToStage1Attrs m.features
  | .stage2 => archMmModeToStage2Attrs

def attrsToMode (m : MmConfig) : Stage → PteBits → Mode
  | .stage1 => archMmStage1AttrsToMode m.features
  | .stage2 => archMmStage2AttrsToMode

end MmConfig

/-- Whether a mode asks for the range to be unmapped. -/
def mmModeToFlags (mode : Mode) : Bool := decide mode.IsUnmapped

section Interface

variable {m : MmConfig}

def mmAllocPageTables (count : Nat) (pool : Mpool) : Option (PageNumber × Mpool) :=
  if count = 1 then mpoolAlloc pool else mpoolAllocContiguous count count pool

/-- A new table in which every address is absent. -/
def mmPtableInit (m : MmConfig) (stage : Stage) (pool : Mpool) : Option (MmPtable (m.levels stage) × Mpool) :=
  (mmAllocPageTables (m.levels stage).rootTableCount pool).map fun (root, pool) =>
    (⟨root, fun _ _ => .leaf archMmAbsentPte⟩, pool)

/-- `mm_identity_prepare` and `mm_vm_identity_prepare`. -/
def stageIdentityPrepare {stage : Stage} (t : MmPtable (m.levels stage)) (begin_ end_ : Nat)
    (mode : Mode) (pool : Mpool) : Updated (MmPtable (m.levels stage)) :=
  mmPtableIdentityPrepare t begin_ end_ (m.modeToAttrs stage mode) (mmModeToFlags mode) pool

/-- `mm_identity_commit` and `mm_vm_identity_commit`. -/
def stageIdentityCommit {stage : Stage} (t : MmPtable (m.levels stage)) (begin_ end_ : Nat)
    (mode : Mode) (pool : Mpool) : Option (MmPtable (m.levels stage) × Mpool) :=
  mmPtableIdentityCommit t begin_ end_ (m.modeToAttrs stage mode) (mmModeToFlags mode) pool

/-- `mm_identity_map` and `mm_vm_identity_map`. -/
def stageIdentityMap {stage : Stage} (t : MmPtable (m.levels stage)) (begin_ end_ : Nat)
    (mode : Mode) (pool : Mpool) : Option (Updated (MmPtable (m.levels stage))) :=
  mmPtableIdentityUpdate t begin_ end_ (m.modeToAttrs stage mode) (mmModeToFlags mode) pool

/-- `mm_get_mode` and `mm_vm_get_mode`. -/
def stageGetMode {stage : Stage} (t : MmPtable (m.levels stage)) (begin_ end_ : Nat) : Option Mode :=
  (mmGetAttrs t begin_ end_).map (m.attrsToMode stage)

/-! ## Stage 2 -/

/-- A stage-2 page table. -/
abbrev VmPtable (m : MmConfig) := MmPtable (m.levels .stage2)

def mmVmInit (m : MmConfig) (pool : Mpool) : Option (VmPtable m × Mpool) := mmPtableInit m .stage2 pool

def mmVmIdentityPrepare (t : VmPtable m) (begin_ end_ : Nat) (mode : Mode) (pool : Mpool) :
    Updated (VmPtable m) :=
  stageIdentityPrepare t begin_ end_ mode pool

def mmVmIdentityCommit (t : VmPtable m) (begin_ end_ : Nat) (mode : Mode) (pool : Mpool) :
    Option (VmPtable m × Mpool) :=
  stageIdentityCommit t begin_ end_ mode pool

def mmVmIdentityMap (t : VmPtable m) (begin_ end_ : Nat) (mode : Mode) (pool : Mpool) :
    Option (Updated (VmPtable m)) :=
  stageIdentityMap t begin_ end_ mode pool

def mmVmUnmap (t : VmPtable m) (begin_ end_ : Nat) (pool : Mpool) : Option (Updated (VmPtable m)) :=
  mmVmIdentityMap t begin_ end_ mmModeUnmappedMask pool

def mmVmDefrag (t : VmPtable m) (pool : Mpool) : VmPtable m × Mpool := mmPtableDefrag m.features t pool

def mmVmGetMode (t : VmPtable m) (begin_ end_ : Nat) : Option Mode := stageGetMode t begin_ end_

/-! ## Updates take effect as a whole -/

/-- The attributes that mapping a page in some mode leaves: none if the mode is unmapped. -/
def MmConfig.mappedAttrs (m : MmConfig) (stage : Stage) (mode : Mode) : PteBits :=
  if mode.IsUnmapped then 0 else m.modeToAttrs stage mode

theorem attrsFor_modeToAttrs (m : MmConfig) (stage : Stage) (mode : Mode) :
    AttrsFor (m.modeToAttrs stage mode) (mmModeToFlags mode) := by
  intro mapped
  have mapped : ¬mode.IsUnmapped := of_decide_eq_false mapped
  cases stage with
  | stage1 => exact archMmModeToStage1Attrs_block m.features mode mapped
  | stage2 => exact archMmModeToStage2Attrs_block mode mapped

/-- The wanted mode on the range, everything else as before. -/
def ModeUpdate {stage : Stage} (mode : Mode) (begin_ end_ : Nat) (t t' : MmPtable (m.levels stage)) : Prop :=
  ∀ addr < mmPtableAddrSpaceEnd (m.levels stage), t'.attrsAt addr =
    if mmMapBegin begin_ ≤ addr ∧ addr < mmMapEnd (m.levels stage) end_ then
      m.mappedAttrs stage mode
    else t.attrsAt addr

variable {stage : Stage} {t t' : MmPtable (m.levels stage)} {begin_ end_ : Nat} {mode : Mode}
  {pool' pool : Mpool}

theorem updatedBy_modeToAttrs
    (updated : t.UpdatedBy (m.modeToAttrs stage mode) (mmModeToFlags mode) begin_ end_ t') :
    ModeUpdate mode begin_ end_ t t' := by
  intro addr inside
  rw [updated addr inside]
  simp only [mmModeToFlags, MmConfig.mappedAttrs, decide_eq_true_eq]

section Update

variable (wf : t.WellFormed) (begin_ end_ : Nat) (mode : Mode)
  (pool : Mpool)
include wf

theorem stageIdentityMap_spec :
    ∃ r, stageIdentityMap t begin_ end_ mode pool = some r ∧ r.value.WellFormed ∧
      (r.ok = true → ModeUpdate mode begin_ end_ t r.value) ∧ (r.ok = false → t.SameAttrs r.value) := by
  obtain ⟨r, ran, rWf, success, failure⟩ :=
    mmPtableIdentityUpdate_spec (attrsFor_modeToAttrs m stage mode) wf begin_ end_ pool
  exact ⟨r, ran, rWf, fun ok => updatedBy_modeToAttrs (success ok), failure⟩

theorem stageIdentityPrepare_wellFormed : (stageIdentityPrepare t begin_ end_ mode pool).value.WellFormed :=
  mmPtableIdentityPrepare_wellFormed (attrsFor_modeToAttrs m stage mode) wf

theorem stageIdentityPrepare_sameAttrs : t.SameAttrs (stageIdentityPrepare t begin_ end_ mode pool).value :=
  mmPtableIdentityPrepare_sameAttrs (attrsFor_modeToAttrs m stage mode) wf

theorem stageIdentityCommit_wellFormed
    (success : stageIdentityCommit t begin_ end_ mode pool = some (t', pool')) : t'.WellFormed :=
  mmPtableIdentityCommit_wellFormed (attrsFor_modeToAttrs m stage mode) wf success

theorem stageIdentityCommit_modeUpdate
    (success : stageIdentityCommit t begin_ end_ mode pool = some (t', pool')) :
    ModeUpdate mode begin_ end_ t t' :=
  updatedBy_modeToAttrs (mmPtableIdentityCommit_updatedBy (attrsFor_modeToAttrs m stage mode) wf success)

end Update

theorem mmPtableInit_some (success : mmPtableInit m stage pool = some (t, pool')) :
    t.tables = fun _ _ => .leaf archMmAbsentPte := by
  simp only [mmPtableInit, Option.map_eq_some_iff, Prod.mk.injEq, Prod.exists] at success
  obtain ⟨root, rest, -, rfl, -⟩ := success
  rfl

theorem mmPtableInit_wellFormed (success : mmPtableInit m stage pool = some (t, pool')) : t.WellFormed := by
  intro i _ j _
  rw [mmPtableInit_some success]
  exact LeafFor.absent

/-! ## Reachable stage-2 tables -/

/-- The tables that the stage-2 functions make of a new one, with any pool at any step. -/
inductive VmPtableReachable : VmPtable m → Prop
  | init {t : VmPtable m} {pool pool' : Mpool} (success : mmVmInit m pool = some (t, pool')) :
      VmPtableReachable t
  | identityMap {t : VmPtable m} {begin_ end_ : Nat} {mode : Mode} {pool : Mpool} {r : Updated (VmPtable m)}
      (before : VmPtableReachable t) (returned : mmVmIdentityMap t begin_ end_ mode pool = some r) :
      VmPtableReachable r.value
  | unmap {t : VmPtable m} {begin_ end_ : Nat} {pool : Mpool} {r : Updated (VmPtable m)}
      (before : VmPtableReachable t)
      (returned : mmVmUnmap t begin_ end_ pool = some r) : VmPtableReachable r.value
  | prepare {t : VmPtable m} (begin_ end_ : Nat) (mode : Mode) (pool : Mpool) (before : VmPtableReachable t) :
      VmPtableReachable (mmVmIdentityPrepare t begin_ end_ mode pool).value
  | commit {t t' : VmPtable m} {begin_ end_ : Nat} {mode : Mode} {pool pool' : Mpool}
      (before : VmPtableReachable t)
      (returned : mmVmIdentityCommit t begin_ end_ mode pool = some (t', pool')) : VmPtableReachable t'
  | defrag {t : VmPtable m} (pool : Mpool) (before : VmPtableReachable t) :
      VmPtableReachable (mmVmDefrag t pool).1

variable {t : VmPtable m}

/-- Mapping returns a well-formed table. -/
theorem mmVmIdentityMap_wellFormed (wf : t.WellFormed) {r : Updated (VmPtable m)}
    (ran : mmVmIdentityMap t begin_ end_ mode pool = some r) : r.value.WellFormed := by
  obtain ⟨r', returned', rWf, -⟩ := stageIdentityMap_spec wf begin_ end_ mode pool
  cases ran.symm.trans returned'
  exact rWf

theorem VmPtableReachable.wellFormed {t : VmPtable m} (reachable : VmPtableReachable t) : t.WellFormed := by
  induction reachable with
  | init success => exact mmPtableInit_wellFormed success
  | identityMap before ran ih => exact mmVmIdentityMap_wellFormed ih ran
  | unmap before ran ih => exact mmVmIdentityMap_wellFormed ih ran
  | prepare begin_ end_ mode pool before ih => exact stageIdentityPrepare_wellFormed ih begin_ end_ mode pool
  | commit before ran ih => exact stageIdentityCommit_wellFormed ih _ _ _ _ ran
  | defrag pool before ih => exact mmPtableDefrag_wellFormed m.features _ pool ih

/-- What an update from `t` to `t'` promises: the pages of a successful update translate to
themselves with the attributes of the mode, or are absent if the mode is unmapped; all other pages,
and all pages after a failure, keep their translation and their attributes. -/
structure MapsRange (mode : Mode) (begin_ end_ : Nat) (t : VmPtable m) (r : Updated (VmPtable m)) : Prop where
  mapped : r.ok = true → ∀ addr, begin_ ≤ addr → addr < end_ →
    r.value.lookup addr = if mode.IsUnmapped then none else some (addr, archMmModeToStage2Attrs mode)
  kept : ∀ addr < mmPtableAddrSpaceEnd (m.levels .stage2), r.ok = false ∨ addr < begin_ ∨ end_ ≤ addr →
    r.value.lookup addr = t.lookup addr ∧ r.value.attrsAt addr = t.attrsAt addr

theorem mmMapBegin_of_page (page : begin_ % pageSize = 0) (bound : begin_ < 2 ^ 48) :
    mmMapBegin begin_ = begin_ := by
  rw [mmMapBegin, archMmClearPa_eq]
  simp only [pageSize] at page
  omega

theorem mmMapEnd_of_page {c : StageConfig} (page : end_ % pageSize = 0)
    (inside : end_ ≤ mmPtableAddrSpaceEnd c) : mmMapEnd c end_ = end_ := by
  have space : mmPtableAddrSpaceEnd c ≤ 2 ^ 48 := c.space_le
  rw [mmMapEnd, mmRoundUpToPage_of_page page (by omega)]
  omega

/-- An update of a page-aligned range keeps the promise of `MapsRange`. -/
theorem mapsRange_of_page (wf : t.WellFormed) (beginPage : begin_ % pageSize = 0)
    (endPage : end_ % pageSize = 0) (bound : begin_ < 2 ^ 48)
    (inside : end_ ≤ mmPtableAddrSpaceEnd (m.levels .stage2)) (mode : Mode) (pool : Mpool) :
    ∃ r, mmVmIdentityMap t begin_ end_ mode pool = some r ∧ MapsRange mode begin_ end_ t r := by
  obtain ⟨r, ran, rWf, success, failure⟩ := stageIdentityMap_spec wf begin_ end_ mode pool
  have attrs (ok : r.ok = true) (addr : Nat) (upper : addr < mmPtableAddrSpaceEnd (m.levels .stage2)) :
      r.value.attrsAt addr =
        if begin_ ≤ addr ∧ addr < end_ then m.mappedAttrs .stage2 mode else t.attrsAt addr := by
    rw [success ok addr upper, mmMapBegin_of_page beginPage bound, mmMapEnd_of_page endPage inside]
  refine ⟨r, ran, fun ok addr lower upper => ?_, fun addr upper outside => ?_⟩
  · have written := attrs ok addr (by omega)
    rw [if_pos ⟨lower, upper⟩, MmConfig.mappedAttrs] at written
    rw [MmPtable.lookup_eq rWf (by omega), written]
    split
    · rfl
    · next mapped => exact if_neg (archMmModeToStage2Attrs_block mode mapped).ne_zero
  · have same : r.value.attrsAt addr = t.attrsAt addr := by
      rcases outside with failed | outside
      · exact failure failed addr upper
      · by_cases ok : r.ok = true
        · rw [attrs ok addr upper, if_neg (by omega)]
        · exact failure (by simpa using ok) addr upper
    rw [MmPtable.lookup_eq rWf upper, MmPtable.lookup_eq wf upper, same]
    exact ⟨rfl, rfl⟩

end Interface

end Hafnium.Mm
