import Hafnium.Api.Unregister
import Hafnium.Ffa.Rights
import Hafnium.Mm.Defragged
import Hafnium.Mm.ModeQuery

/-! # The rights of partitions on their own pages

A partition at EL0 changes the rights on a range of its pages with FFA_MEM_PERM_SET. The length of the
range is computed in 32 bits, and the new mode of the pages is built from the requested rights alone: it
does not depend on whether the pages are owned, shared, non-secure or of a device. `memPermSet_exact_iff`
says for which pages this makes no difference. If the tables for the new mode cannot be prepared, the old
mode is written again, which takes no pages.
-/

namespace Hafnium.Mm

variable {m : MmConfig} {stage : Stage} {c : StageConfig} {addr : Nat} {mode : Mode}

/-- The attributes of every address were written for some mode. -/
theorem MmPtable.Built.written {t : MmPtable c} (built : t.Built m stage)
    (inside : addr < mmPtableAddrSpaceEnd c) :
    ∃ mode, t.attrsAt addr = m.mappedAttrs stage mode := by
  induction built with
  | init root => exact ⟨mmModeUnmappedMask, MmPtable.attrsAt_absent rfl⟩
  | prepare begin_ end_ mode pool before ih =>
    rw [mmPtableIdentityPrepare_sameAttrs (attrsFor_modeToAttrs m stage mode) before.wellFormed addr inside]
    exact ih
  | @commit _ _ _ _ mode _ _ before ran ih =>
    rw [mmPtableIdentityCommit_updatedBy (attrsFor_modeToAttrs m stage mode)
      before.wellFormed ran addr inside]
    split
    · exact ⟨mode, by simp only [mmModeToFlags, MmConfig.mappedAttrs, decide_eq_true_eq]⟩
    · exact ih
  | defrag pool before ih =>
    rw [mmPtableDefrag_sameAttrs m.features _ pool before.wellFormed addr inside]
    exact ih

theorem not_isUnmapped_of_valid (valid : mode &&& mmModeInvalid = 0) : ¬mode.IsUnmapped := by
  intro unmapped
  have bits : mode &&& mmModeUnmappedMask &&& mmModeInvalid = mode &&& mmModeInvalid := by
    rw [BitVec.and_assoc]
    rfl
  rw [show mode &&& mmModeUnmappedMask = mmModeUnmappedMask from unmapped, valid] at bits
  exact absurd bits (by decide)

end Hafnium.Mm

namespace Hafnium.Api

open Mm Ffa Partial

variable {m : MmConfig} {addr : Nat} {mode : Mode}

def ffaMemPermRw : BitVec 32 := 0x5
def ffaMemPermRx : BitVec 32 := 0x3
def ffaMemPermRo : BitVec 32 := 0x7

/-- The SPMC only answers until the partition has been initialized. -/
def platFfaIsMemPermSetValid (m : MmConfig) (initialized : Bool) : Bool :=
  m.features.hasVheSupport && (!m.features.secureWorld || !initialized)

def memPermRights (memPerm : BitVec 32) : Mode :=
  if memPerm = ffaMemPermRw then mmModeR ||| mmModeW
  else if memPerm = ffaMemPermRx then mmModeR ||| mmModeX
  else if memPerm = ffaMemPermRo then mmModeR
  else 0

/-- The end of the range; the number of pages and their size are multiplied in 32 bits. -/
def memPermEnd (baseAddr : BitVec 64) (pageCount : BitVec 32) : Nat :=
  (baseAddr + (pageCount * BitVec.ofNat 32 pageSize).setWidth 64).toNat

/-- `mm_stage1_defrag` with the pool that a local pool falls back on. -/
def defragIntoFallback (vm : Vm m) : Mpool → Vm m × Mpool
  | [] => (vm, [])
  | own :: fallback =>
    let (t, fallback) := mmPtableDefrag m.features vm.ptable fallback
    ({ vm with ptable := t }, own :: fallback)

def apiFfaMemPermSet (vm : Vm m) (initialized : Bool) (baseAddr : BitVec 64)
    (pageCount memPerm : BitVec 32) (pool : Mpool) : Run (FfaValue × Vm m × Mpool) :=
  if platFfaIsMemPermSetValid m initialized = false then .ok (ffaError .notSupported, vm, pool)
  else if vm.el0Partition = false then .ok (ffaError .denied, vm, pool)
  else if baseAddr.toNat % pageSize ≠ 0 then .ok (ffaError .invalidParameters, vm, pool)
  else if memPerm ≠ ffaMemPermRw ∧ memPerm ≠ ffaMemPermRo ∧ memPerm ≠ ffaMemPermRx then
    .ok (ffaError .invalidParameters, vm, pool)
  else
    let localPagePool := mpoolInitWithFallback pool
    let begin_ := baseAddr.toNat
    let end_ := memPermEnd baseAddr pageCount
    match vmMemGetMode vm begin_ end_ with
    | none => .ok (ffaError .invalidParameters, vm, mpoolFini localPagePool)
    | some originalMode =>
      if originalMode &&& mmModeInvalid ≠ 0 then
        .ok (ffaError .invalidParameters, vm, mpoolFini localPagePool)
      else if originalMode &&& mmModeD ≠ 0 ∧ memPerm = ffaMemPermRx then
        .ok (ffaError .invalidParameters, vm, mpoolFini localPagePool)
      else do
        let mapped ← vmIdentityMap vm begin_ end_
            (mmModeUser ||| mmModeNg ||| memPermRights memPerm) localPagePool
        if mapped.ok then .ok ({ func := ffaSuccess32 }, mapped.value, mpoolFini mapped.state)
        else
          let (t, localPagePool) := mmPtableDefrag m.features mapped.value.ptable mapped.state
          let again ← vmIdentityMap { mapped.value with ptable := t } begin_ end_ originalMode localPagePool
          if again.ok = false then .error .memPermSet
          else
            let (vm, localPagePool) := defragIntoFallback again.value again.state
            .ok (ffaError .noMemory, vm, mpoolFini localPagePool)

/-! ## The range of a request -/

/-- The number of pages that a request for `pageCount` pages reaches. -/
def reachedPages (pageCount : BitVec 32) : Nat := pageCount.toNat % 2 ^ 20

/-- The range of a request that passes the checks, and the mode of its pages. -/
structure Admitted (vm : Vm m) (initialized : Bool) (baseAddr : BitVec 64)
    (pageCount memPerm : BitVec 32) (mode : Mode) : Prop where
  supported : platFfaIsMemPermSetValid m initialized = true
  el0 : vm.el0Partition = true
  aligned : baseAddr.toNat % pageSize = 0
  perm : memPerm = ffaMemPermRw ∨ memPerm = ffaMemPermRo ∨ memPerm = ffaMemPermRx
  found : vmMemGetMode vm baseAddr.toNat (memPermEnd baseAddr pageCount) = some mode
  valid : mode &&& mmModeInvalid = 0
  executable : ¬(mode &&& mmModeD ≠ 0 ∧ memPerm = ffaMemPermRx)

variable {vm : Vm m} {initialized : Bool} {baseAddr : BitVec 64} {pageCount memPerm : BitVec 32}
  {pool : Mpool}

section Range

theorem memPermEnd_eq (aligned : baseAddr.toNat % pageSize = 0) :
    memPermEnd baseAddr pageCount % pageSize = 0 ∧ memPermEnd baseAddr pageCount < 2 ^ 64 ∧
      (baseAddr.toNat < memPermEnd baseAddr pageCount →
        memPermEnd baseAddr pageCount = baseAddr.toNat + reachedPages pageCount * pageSize) := by
  simp only [memPermEnd, reachedPages, pageSize, BitVec.toNat_add, BitVec.toNat_setWidth,
    BitVec.toNat_mul, BitVec.toNat_ofNat] at *
  omega

/-- The pages of an admitted request have the same attributes. -/
theorem Admitted.range (admitted : Admitted vm initialized baseAddr pageCount memPerm mode) :
    0 < reachedPages pageCount ∧ memPermEnd baseAddr pageCount = baseAddr.toNat +
      reachedPages pageCount * pageSize ∧
      memPermEnd baseAddr pageCount ≤ vm.spaceEnd ∧ ∃ attrs, m.attrsToMode vm.stage attrs = mode ∧
        ∀ addr, baseAddr.toNat ≤ addr → addr < memPermEnd baseAddr pageCount → vm.attrsAt addr = attrs := by
  obtain ⟨ends, word, exact_⟩ : memPermEnd baseAddr pageCount % pageSize = 0 ∧
      memPermEnd baseAddr pageCount < 2 ^ 64 ∧ _ :=
    memPermEnd_eq admitted.aligned
  have found := admitted.found
  simp only [vmMemGetMode, stageGetMode, Option.map_eq_some_iff] at found
  obtain ⟨attrs, found, isMode⟩ := found
  obtain ⟨inside, nonempty, values⟩ := (mmGetAttrs_iff ..).mp found
  rw [mmRoundDownToPage_of_page admitted.aligned, mmRoundUpToPage_of_page ends word] at nonempty values
  rw [mmRoundUpToPage_of_page ends word] at inside
  refine ⟨?_, exact_ nonempty, inside, attrs, isMode, values⟩
  have same := exact_ nonempty
  by_contra none_
  rw [Nat.eq_zero_of_not_pos none_] at same
  omega

theorem apiFfaMemPermSet_refused
    (refused : ¬∃ mode, Admitted vm initialized baseAddr pageCount memPerm mode) (pool : Mpool) :
    ∃ error pool', apiFfaMemPermSet vm initialized baseAddr pageCount memPerm pool =
      .ok (ffaError error, vm, pool') := by
  rw [apiFfaMemPermSet]
  split
  · exact ⟨_, _, rfl⟩
  next supported =>
  split
  · exact ⟨_, _, rfl⟩
  next el0 =>
  split
  · exact ⟨_, _, rfl⟩
  next aligned =>
  split
  · exact ⟨_, _, rfl⟩
  next perm =>
  dsimp only
  split
  · exact ⟨_, _, rfl⟩
  next mode found =>
  split
  · exact ⟨_, _, rfl⟩
  next valid =>
  split
  · exact ⟨_, _, rfl⟩
  next executable =>
  refine absurd ⟨mode, ?_⟩ refused
  exact {
    supported := Bool.eq_true_of_not_eq_false supported
    el0 := Bool.eq_true_of_not_eq_false el0
    aligned := not_not.mp aligned
    perm := by
      by_contra other
      simp only [not_or] at other
      exact perm other
    found := found
    valid := not_not.mp valid
    executable := executable }

/-- An admitted request maps its range in the new mode or, if that fails, in the old one. -/
theorem apiFfaMemPermSet_admitted
    (admitted : Admitted vm initialized baseAddr pageCount memPerm mode) (pool : Mpool) :
    apiFfaMemPermSet vm initialized baseAddr pageCount memPerm pool = (do
      let mapped ← vmIdentityMap vm baseAddr.toNat (memPermEnd baseAddr pageCount)
        (mmModeUser ||| mmModeNg ||| memPermRights memPerm) (mpoolInitWithFallback pool)
      if mapped.ok then .ok ({ func := ffaSuccess32 }, mapped.value, mpoolFini mapped.state)
      else
        let (t, localPagePool) := mmPtableDefrag m.features mapped.value.ptable mapped.state
        let again ← vmIdentityMap { mapped.value with ptable := t }
          baseAddr.toNat (memPermEnd baseAddr pageCount) mode localPagePool
        if again.ok = false then .error .memPermSet
        else
          let (vm, localPagePool) := defragIntoFallback again.value again.state
          .ok (ffaError .noMemory, vm, mpoolFini localPagePool)) := by
  have perm : ¬(memPerm ≠ ffaMemPermRw ∧ memPerm ≠ ffaMemPermRo ∧ memPerm ≠ ffaMemPermRx) := by
    rintro ⟨notRw, notRo, notRx⟩
    exact admitted.perm.elim notRw fun others => others.elim notRo notRx
  rw [apiFfaMemPermSet, if_neg (by rw [admitted.supported]; decide), if_neg (by rw [admitted.el0]; decide),
    if_neg (not_not.mpr admitted.aligned), if_neg perm]
  dsimp only
  rw [admitted.found]
  dsimp only
  rw [if_neg (not_not.mpr admitted.valid), if_neg admitted.executable]

end Range

/-! ## What a request changes -/

/-- The bits of a mode that say what a page is, and not what the partition may do with it. -/
def pageStateMask : Mode := mmModeD ||| mmModeUnowned ||| mmModeShared ||| mmModeNs

/-- The mode gives the partition the requested rights and no others. -/
def GrantsPerm (memPerm : BitVec 32) (mode : Mode) : Prop :=
  mode &&& (mmModeInvalid ||| mmModeUser ||| mmModeR ||| mmModeW ||| mmModeX) =
    mmModeUser ||| memPermRights memPerm

theorem GrantsPerm.valid (grants : GrantsPerm memPerm mode) : mode &&& mmModeInvalid = 0 := by
  have rights : (mmModeUser ||| memPermRights memPerm) &&& mmModeInvalid = 0 := by
    rw [memPermRights]
    split
    · decide
    · split
      · decide
      · split <;> decide
  rw [← rights, ← show _ = _ from grants, BitVec.and_assoc]
  rfl

/-- The request has changed the rights on its pages and nothing else. -/
structure PermChanged (vm vm' : Vm m) (baseAddr : BitVec 64) (pageCount memPerm : BitVec 32) : Prop where
  granted : ∀ i < pageCount.toNat, ∀ addr, OnPage (baseAddr.toNat + i * pageSize) addr →
    addr < vm.spaceEnd ∧ GrantsPerm memPerm (vm'.modeAt addr)
  kept : ∀ i < pageCount.toNat, ∀ addr, OnPage (baseAddr.toNat + i * pageSize) addr →
    vm'.modeAt addr &&& pageStateMask = vm.modeAt addr &&& pageStateMask
  others : ∀ addr < vm.spaceEnd, (∀ i < pageCount.toNat, ¬OnPage (baseAddr.toNat + i * pageSize) addr) →
    vm'.ptable.lookup addr = vm.ptable.lookup addr

/-- The request returns; if it succeeds it has changed the rights on its pages, and otherwise nothing. -/
def ChangesPermExactly (vm : Vm m) (initialized : Bool) (baseAddr : BitVec 64)
    (pageCount memPerm : BitVec 32) (pool : Mpool) : Prop :=
  ∃ ret t pool', apiFfaMemPermSet vm initialized baseAddr pageCount memPerm pool = .ok (ret,
    { vm with ptable := t }, pool') ∧
    (ret.func = ffaSuccess32 → PermChanged vm { vm with ptable := t } baseAddr pageCount memPerm) ∧
    (ret.func ≠ ffaSuccess32 → ∀ addr < vm.spaceEnd, t.lookup addr = vm.ptable.lookup addr)

/-- The pages of an admitted request have no state to lose, and those that it does not reach have
the rights already. -/
def PermChangeable (vm : Vm m) (initialized : Bool) (baseAddr : BitVec 64)
    (pageCount memPerm : BitVec 32) : Prop :=
  ∀ mode, Admitted vm initialized baseAddr pageCount memPerm mode → mode &&& pageStateMask = 0 ∧
    ∀ i, reachedPages pageCount ≤ i → i < pageCount.toNat →
      ∀ addr, OnPage (baseAddr.toNat + i * pageSize) addr →
      addr < vm.spaceEnd ∧ GrantsPerm memPerm (vm.modeAt addr)

section Change

variable {t : MmPtable (m.levels vm.stage)}

/-- Two tables with the same attributes translate all addresses in the same way. -/
theorem lookup_of_attrs {t' : MmPtable (m.levels vm.stage)} (wf : t.WellFormed)
    (wf' : t'.WellFormed) (inside : addr < vm.spaceEnd) (same : t'.attrsAt addr = t.attrsAt addr) :
    t'.lookup addr = t.lookup addr := by
  rw [MmPtable.lookup_eq wf inside, MmPtable.lookup_eq wf' inside, same]

theorem onPages_iff {base count : Nat} :
    (∃ i < count, OnPage (base + i * pageSize) addr) ↔ base ≤ addr ∧ addr < base + count * pageSize := by
  constructor
  · rintro ⟨i, bound, lower, upper⟩
    simp only [pageSize] at *
    omega
  · rintro ⟨lower, upper⟩
    refine ⟨(addr - base) / pageSize, ?_, ?_⟩
    · simp only [pageSize] at *
      omega
    · simp only [OnPage, pageSize] at *
      omega

theorem Admitted.stage1 (admitted : Admitted vm initialized baseAddr pageCount memPerm mode) :
    vm.stage = .stage1 ∧ m.features.hasVheSupport = true := by
  refine ⟨by rw [Vm.stage, admitted.el0]; rfl, ?_⟩
  have supported := admitted.supported
  rw [platFfaIsMemPermSetValid, Bool.and_eq_true] at supported
  exact supported.1

/-- The new mode is read back as it was written. -/
theorem Admitted.newMode (admitted : Admitted vm initialized baseAddr pageCount memPerm mode) :
    m.attrsToMode vm.stage (vm.mappedAttrs (mmModeUser ||| mmModeNg ||| memPermRights memPerm)) =
      mmModeUser ||| mmModeNg ||| memPermRights memPerm := by
  obtain ⟨stage, vhe⟩ := admitted.stage1
  have mapped : ¬Mode.IsUnmapped (mmModeUser ||| mmModeNg ||| memPermRights memPerm) := by
    rcases admitted.perm with rfl | rfl | rfl <;> decide
  rw [Vm.mappedAttrs, MmConfig.mappedAttrs, if_neg mapped, stage]
  refine archMmStage1AttrsToMode_recorded vhe ?_ ?_
  · rcases admitted.perm with rfl | rfl | rfl <;> decide
  · rw [stage1ModeMask_of_vhe vhe]
    rcases admitted.perm with rfl | rfl | rfl <;> cases m.features.secureWorld <;> decide

theorem Admitted.newMode_grants (admitted : Admitted vm initialized baseAddr pageCount memPerm mode) :
    GrantsPerm memPerm (mmModeUser ||| mmModeNg ||| memPermRights memPerm) ∧
      (mmModeUser ||| mmModeNg ||| memPermRights memPerm) &&& pageStateMask = 0 := by
  simp only [GrantsPerm]
  rcases admitted.perm with rfl | rfl | rfl <;> decide

/-- Mapping the range of an admitted request. -/
theorem Admitted.maps (admitted : Admitted vm initialized baseAddr pageCount memPerm mode)
    (wf : t.WellFormed) (newMode : Mode) (pool : Mpool) :
    ∃ r, stageIdentityMap t baseAddr.toNat (memPermEnd baseAddr pageCount) newMode pool = some r ∧
      r.value.WellFormed ∧ (r.ok = true → ∀ addr < vm.spaceEnd, r.value.attrsAt addr =
        if baseAddr.toNat ≤ addr ∧ addr < memPermEnd baseAddr pageCount then
          vm.mappedAttrs newMode
        else t.attrsAt addr) ∧
      (r.ok = false → ∀ addr < vm.spaceEnd, r.value.attrsAt addr = t.attrsAt addr) := by
  obtain ⟨nonempty, ends, inside, -⟩ := admitted.range
  obtain ⟨r, mapped, rWf, success, failure⟩ := stageIdentityMap_spec wf baseAddr.toNat _ newMode pool
  refine ⟨r, mapped, rWf, fun ok addr within => ?_, failure⟩
  have space : vm.spaceEnd ≤ 2 ^ 48 := (m.levels vm.stage).space_le
  have below : baseAddr.toNat < 2 ^ 48 := by
    have positive : 0 < reachedPages pageCount * pageSize := Nat.mul_pos nonempty (by decide)
    omega
  have updated := success ok addr within
  rw [mmMapBegin_of_page admitted.aligned below,
    mmMapEnd_of_page (memPermEnd_eq admitted.aligned).1 inside] at updated
  exact updated

/-- The attributes of the pages of an admitted request are those of the mode that is read from them,
unless they are of a device. -/
theorem Admitted.canonical (admitted : Admitted vm initialized baseAddr pageCount memPerm mode)
    (built : vm.ptable.Built m vm.stage) (normal : mode &&& mmModeD = 0)
    (lower : baseAddr.toNat ≤ addr) (upper : addr < memPermEnd baseAddr pageCount) :
    vm.attrsAt addr = vm.mappedAttrs mode := by
  obtain ⟨-, -, inside, attrs, isMode, values⟩ := admitted.range
  obtain ⟨stage, vhe⟩ := admitted.stage1
  obtain ⟨written, isWritten⟩ := built.written (upper.trans_le inside)
  have here : attrs = m.mappedAttrs vm.stage written := (values addr lower upper).symm.trans isWritten
  have notUnmapped : ¬mode.IsUnmapped := not_isUnmapped_of_valid admitted.valid
  have notAbsent : ¬written.IsUnmapped := by
    intro unmapped
    rw [MmConfig.mappedAttrs, if_pos unmapped] at here
    rw [here] at isMode
    exact notUnmapped (isMode ▸ attrsToMode_absent m vm.stage)
  rw [MmConfig.mappedAttrs, if_neg notAbsent, stage] at here
  have read : archMmStage1AttrsToMode m.features (archMmModeToStage1Attrs m.features written) = mode := by
    rw [stage, here] at isMode
    exact isMode
  rw [values addr lower upper, here, Vm.mappedAttrs, MmConfig.mappedAttrs, if_neg notUnmapped, stage, ← read]
  exact (archMmModeToStage1Attrs_again vhe (read ▸ normal)).symm

/-- What is left of the table when the old mode is written again. -/
theorem defragIntoFallback_spec (wf : vm.WellFormed) (pool : Mpool) :
    ∃ t pool', defragIntoFallback vm pool = ({ vm with ptable := t }, pool') ∧
    t.WellFormed ∧ ∀ addr < vm.spaceEnd, t.attrsAt addr = vm.attrsAt addr := by
  cases pool with
  | nil => exact ⟨vm.ptable, [], rfl, wf, fun _ _ => rfl⟩
  | cons own fallback =>
    exact ⟨_, _, rfl, mmPtableDefrag_wellFormed m.features vm.ptable fallback wf,
      mmPtableDefrag_sameAttrs m.features vm.ptable fallback wf⟩

/-- A request that cannot get the pages that it needs leaves everything as it was. -/
theorem Admitted.restores (admitted : Admitted vm initialized baseAddr pageCount memPerm mode)
    (built : vm.ptable.Built m vm.stage) (normal : mode &&& mmModeD = 0) (wf : t.WellFormed)
    (same : ∀ addr < vm.spaceEnd, t.attrsAt addr = vm.attrsAt addr) (pool : Mpool) :
    ∃ r, vmIdentityMap { vm with ptable := t } baseAddr.toNat (memPermEnd baseAddr pageCount)
      mode pool = .ok r ∧ r.ok = true ∧
      ∃ t', r.value = { vm with ptable := t' } ∧ t'.WellFormed ∧
      ∀ addr < vm.spaceEnd, t'.attrsAt addr = vm.attrsAt addr := by
  obtain ⟨r, mapped, rWf, success, -⟩ := admitted.maps wf mode pool
  have idle (addr : Nat) (inside : addr < vm.spaceEnd) (lower : mmMapBegin baseAddr.toNat ≤ addr)
      (upper : addr < mmMapEnd (m.levels vm.stage) (memPermEnd baseAddr pageCount)) :
        t.attrsAt addr = vm.mappedAttrs mode := by
    obtain ⟨nonempty, ends, within, -⟩ := admitted.range
    have space : vm.spaceEnd ≤ 2 ^ 48 := (m.levels vm.stage).space_le
    have below : baseAddr.toNat < 2 ^ 48 := by
      have positive : 0 < reachedPages pageCount * pageSize := Nat.mul_pos nonempty (by decide)
      omega
    rw [mmMapBegin_of_page admitted.aligned below] at lower
    rw [mmMapEnd_of_page (memPermEnd_eq admitted.aligned).1 within] at upper
    rw [same addr inside]
    exact admitted.canonical built normal lower upper
  obtain ⟨r', mapped', ok⟩ := stageIdentityMap_idle wf baseAddr.toNat _ pool idle
  cases mapped.symm.trans mapped'
  refine ⟨_, vmIdentityMap_of_stage mapped, ok, r.value, rfl, rWf, fun addr inside => ?_⟩
  refine (success ok addr inside).trans ?_
  split
  · next within => exact (admitted.canonical built normal within.1 within.2).symm
  · exact same addr inside

/-- What a request that has got its pages has done. -/
theorem Admitted.changed_iff (admitted : Admitted vm initialized baseAddr pageCount memPerm mode)
    (wf : vm.WellFormed) (tWf : t.WellFormed) (attrs : ∀ addr < vm.spaceEnd, t.attrsAt addr =
      if baseAddr.toNat ≤ addr ∧ addr < memPermEnd baseAddr pageCount then
        vm.mappedAttrs (mmModeUser ||| mmModeNg ||| memPermRights memPerm)
      else vm.attrsAt addr) :
    PermChanged vm { vm with ptable := t } baseAddr pageCount memPerm ↔ mode &&& pageStateMask = 0 ∧
      ∀ i, reachedPages pageCount ≤ i → i < pageCount.toNat →
        ∀ addr, OnPage (baseAddr.toNat + i * pageSize) addr →
        addr < vm.spaceEnd ∧ GrantsPerm memPerm (vm.modeAt addr) := by
  obtain ⟨nonempty, ends, inside, old, isMode, values⟩ := admitted.range
  have few : reachedPages pageCount ≤ pageCount.toNat := Nat.mod_le ..
  have newMode := admitted.newMode
  let vm' : Vm m := { vm with ptable := t }
  have reached {addr : Nat} (lower : baseAddr.toNat ≤ addr) (upper : addr < memPermEnd baseAddr pageCount) :
      vm'.modeAt addr = mmModeUser ||| mmModeNg ||| memPermRights memPerm ∧ vm.modeAt addr = mode := by
    have new : t.attrsAt addr = _ := (attrs addr (upper.trans_le inside)).trans (if_pos ⟨lower, upper⟩)
    refine ⟨?_, ?_⟩
    · rw [← newMode, ← new]
      rfl
    · rw [Vm.modeAt, values addr lower upper, isMode]
  have beyond {addr : Nat} (within : addr < vm.spaceEnd)
      (off : ¬(baseAddr.toNat ≤ addr ∧ addr < memPermEnd baseAddr pageCount)) :
      t.attrsAt addr = vm.attrsAt addr ∧ vm'.modeAt addr = vm.modeAt addr := by
    have same := (attrs addr within).trans (if_neg off)
    exact ⟨same, congrArg _ same⟩
  -- The pages of the request that lie in the range, and the others.
  have split {i addr : Nat} (on : OnPage (baseAddr.toNat + i * pageSize) addr) :
      (i < reachedPages pageCount ↔ baseAddr.toNat ≤ addr ∧ addr < memPermEnd baseAddr pageCount) := by
    rw [ends, ← onPages_iff]
    constructor
    · exact fun bound => ⟨i, bound, on⟩
    · rintro ⟨j, bound, on'⟩
      obtain rfl : i = j := by
        simp only [OnPage, pageSize] at on on'
        omega
      exact bound
  constructor
  · intro changed
    refine ⟨?_, fun i lower upper addr on => ?_⟩
    · have on : OnPage (baseAddr.toNat + 0 * pageSize) baseAddr.toNat := by
        simp only [OnPage, pageSize]
        omega
      obtain ⟨new, old⟩ := reached (split on |>.mp nonempty).1 (split on |>.mp nonempty).2
      have kept := changed.kept 0 (nonempty.trans_le few) baseAddr.toNat on
      rw [old, show vm'.modeAt baseAddr.toNat = _ from new, (admitted.newMode_grants).2] at kept
      exact kept.symm
    · obtain ⟨within, granted⟩ := changed.granted i upper addr on
      refine ⟨within, ?_⟩
      have same := beyond within fun reached => absurd ((split on).mpr reached) (Nat.not_lt.mpr lower)
      exact same.2 ▸ granted
  · rintro ⟨noState, rest⟩
    refine ⟨fun i bound addr on => ?_, fun i bound addr on => ?_, fun addr within off => ?_⟩
    · by_cases low : i < reachedPages pageCount
      · obtain ⟨lower, upper⟩ := (split on).mp low
        refine ⟨upper.trans_le inside, ?_⟩
        rw [(reached lower upper).1]
        exact admitted.newMode_grants.1
      · obtain ⟨within, granted⟩ := rest i (Nat.not_lt.mp low) bound addr on
        refine ⟨within, ?_⟩
        have same := beyond within fun reached => low ((split on).mpr reached)
        exact same.2.symm ▸ granted
    · by_cases low : i < reachedPages pageCount
      · obtain ⟨lower, upper⟩ := (split on).mp low
        rw [(reached lower upper).1, (reached lower upper).2, noState]
        exact admitted.newMode_grants.2
      · obtain ⟨within, -⟩ := rest i (Nat.not_lt.mp low) bound addr on
        have same := beyond within fun reached => low ((split on).mpr reached)
        rw [show ({ vm with ptable := t } : Vm m).modeAt addr = vm.modeAt addr from same.2]
    · refine lookup_of_attrs wf tWf within (beyond within ?_).1
      rw [ends, ← onPages_iff]
      rintro ⟨i, bound, on⟩
      exact off i (bound.trans_le few) on

/-- FFA_MEM_PERM_SET keeps its promise, whatever pages there are for tables, if and only if the pages that it
admits have no state to lose and it reaches all pages of the request that do not have the rights already. -/
theorem memPermSet_exact_iff (built : vm.ptable.Built m vm.stage) (initialized : Bool) (baseAddr : BitVec 64)
    (pageCount memPerm : BitVec 32) :
    (∀ pool, ChangesPermExactly vm initialized baseAddr pageCount memPerm pool) ↔
      PermChangeable vm initialized baseAddr pageCount memPerm := by
  have wf : vm.WellFormed := built.wellFormed
  constructor
  · intro exact_ mode admitted
    -- With enough pages the request succeeds.
    let newMode := mmModeUser ||| mmModeNg ||| memPermRights memPerm
    let pages := mapPages m vm.stage newMode baseAddr.toNat (memPermEnd baseAddr pageCount)
    obtain ⟨r, mapped, rWf, success, -⟩ := admitted.maps wf newMode _
    obtain ⟨r', mapped', ok, -⟩ := vmIdentityMap_pages vm
      (show pages ≤ (mpoolInitWithFallback (ampleMpool pages)).freeCount by
        rw [freeCount_mpoolInitWithFallback, freeCount_ampleMpool])
    have same := (vmIdentityMap_of_stage mapped).symm.trans mapped'
    cases same
    obtain ⟨ret, t, pool', returned, changes, -⟩ := exact_ _
    rw [apiFfaMemPermSet_admitted admitted, mapped'] at returned
    have returned := returned.symm.trans (if_pos ok)
    cases returned
    exact (admitted.changed_iff wf rWf (success ok)).mp (changes rfl)
  · intro changeable pool
    by_cases isAdmitted : ∃ mode, Admitted vm initialized baseAddr pageCount memPerm mode
    · obtain ⟨mode, admitted⟩ := isAdmitted
      obtain ⟨noState, rest⟩ := changeable mode admitted
      obtain ⟨r, mapped, rWf, success, failure⟩ := admitted.maps wf _
        _
      rw [ChangesPermExactly, apiFfaMemPermSet_admitted admitted, vmIdentityMap_of_stage mapped]
      cases ok : r.ok with
      | true =>
        exact ⟨_, r.value, _, rfl, fun _ => (admitted.changed_iff wf rWf (success ok)).mpr ⟨noState,
          rest⟩, fun failed => absurd rfl failed⟩
      | false =>
        have normal : mode &&& mmModeD = 0 := by
          have part : mode &&& mmModeD = mode &&& pageStateMask &&& mmModeD := by
            rw [BitVec.and_assoc]
            rfl
          rw [part, noState]
          rfl
        let t₁ := (mmPtableDefrag m.features r.value r.state).1
        have wf₁ : t₁.WellFormed := mmPtableDefrag_wellFormed m.features r.value r.state rWf
        have same₁ (addr : Nat) (inside : addr < vm.spaceEnd) : t₁.attrsAt addr = vm.attrsAt addr :=
          (mmPtableDefrag_sameAttrs m.features r.value r.state rWf addr inside).trans (failure ok addr inside)
        obtain ⟨r', again, ok', t₂, isTable, wf₂, same₂⟩ := admitted.restores built normal wf₁ same₁
          (mmPtableDefrag m.features r.value r.state).2
        obtain ⟨t₃, pool₃, defragged, wf₃, same₃⟩ :=
          defragIntoFallback_spec (show ({ vm with ptable := t₂ } : Vm m).WellFormed from wf₂) r'.state
        refine ⟨ffaError .noMemory, t₃, mpoolFini pool₃, ?_, fun success => ?_, fun _ addr inside => ?_⟩
        · refine bind_ok_iff.mpr ⟨_, rfl, bind_ok_iff.mpr ⟨r', again, ?_⟩⟩
          rw [if_neg (by rw [ok']; decide), isTable, defragged]
        · cases success
        · exact lookup_of_attrs wf wf₃ inside ((same₃ addr inside).trans (same₂ addr inside))
    · obtain ⟨error, pool', returned⟩ := apiFfaMemPermSet_refused isAdmitted pool
      refine ⟨_, vm.ptable, pool', returned, fun success => ?_, fun _ _ _ => rfl⟩
      cases success

end Change

/-! ## Partitions at EL0 -/

/-- An SPMC on a processor with the virtualization host extensions. -/
def el0Config : MmConfig := ⟨⟨true, true, false⟩, ⟨32, least_supported⟩⟩

/-- The mode in which the image of a partition at EL0 is loaded. -/
def imageMode : Mode := mmModeR ||| mmModeX ||| mmModeUser ||| mmModeNg

/-- A partition at EL0 that has been given one page. -/
theorem exists_loaded_page : ∃ vm : Vm el0Config, vm.el0Partition = true ∧
    vm.ptable.Built el0Config vm.stage ∧
    ∀ addr < vm.spaceEnd, vm.attrsAt addr = if OnPage 0x1000 addr then vm.mappedAttrs imageMode else 0 := by
  let empty := emptyTable el0Config .stage1
  have built : empty.Built el0Config .stage1 := .init 0
  obtain ⟨pool, r, mapped, ok⟩ := stageIdentityMap_succeeds empty 0x1000 0x2000 imageMode
  obtain ⟨r', mapped', -, success, -⟩ := stageIdentityMap_spec built.wellFormed 0x1000 0x2000 imageMode pool
  cases mapped.symm.trans mapped'
  refine ⟨⟨0x8001, true, r.value, ⟨.empty, false, none⟩⟩, rfl, built.update mapped, fun addr inside => ?_⟩
  have updated := success ok addr inside
  exact updated

/-- One page of an image is made writable, or left as it is. -/
theorem memPermSet_exact_image_page : ∃ vm : Vm el0Config, vm.ptable.Built el0Config vm.stage ∧
    (∃ mode, Admitted vm false 0x1000 1 ffaMemPermRw mode) ∧
    ∀ pool, ChangesPermExactly vm false 0x1000 1 ffaMemPermRw pool := by
  obtain ⟨vm, el0, built, attrs⟩ := exists_loaded_page
  have stage : vm.stage = .stage1 := by rw [Vm.stage, el0]; rfl
  have fits : 0x2000 ≤ vm.spaceEnd := by
    rw [Vm.spaceEnd, stage]
    decide
  have onPage {addr : Nat} (lower : 0x1000 ≤ addr) (upper : addr < 0x2000) :
      vm.attrsAt addr = vm.mappedAttrs imageMode :=
    (attrs addr (upper.trans_le fits)).trans (if_pos ⟨lower, upper⟩)
  have read : el0Config.attrsToMode vm.stage (vm.mappedAttrs imageMode) = imageMode := by
    rw [Vm.mappedAttrs, stage]
    decide +kernel
  have admitted : Admitted vm false 0x1000 1 ffaMemPermRw imageMode := by
    refine ⟨rfl, el0, rfl, .inl rfl, ?_, by decide, by decide⟩
    simp only [vmMemGetMode, stageGetMode, Option.map_eq_some_iff]
    exact ⟨_, (mmGetAttrs_iff ..).mpr ⟨fits, by decide, fun addr lower upper => onPage lower upper⟩, read⟩
  refine ⟨vm, built, ⟨imageMode, admitted⟩,
    (memPermSet_exact_iff built false 0x1000 1 ffaMemPermRw).mpr fun mode found => ?_⟩
  have same : mode = imageMode := Option.some.inj (found.found.symm.trans admitted.found)
  rw [same]
  exact ⟨by decide, fun i lower upper => absurd upper (Nat.not_lt.mpr lower)⟩

/-- The table of a partition at EL0 with one page of these attributes. -/
def pageTable (attrs : PteBits) : MmPtable (el0Config.levels .stage1) where
  root := 0x40
  tables := fun _ i => if i = 0 then .table 0x41 blocks else .leaf archMmAbsentPte
where
  blocks : PageTable 1 := fun j =>
    if j = 0 then .table 0x42 (pagesTable 0 attrs fun k => decide (k = 1)) else .leaf archMmAbsentPte

/-- A partition at EL0 with the page at 0x1000 in some mode. -/
def pageVm (mode : Mode) : Vm el0Config :=
  ⟨0x8001, true, pageTable (el0Config.modeToAttrs .stage1 mode), ⟨.empty, false, none⟩⟩

/-- A request for 2^20 + 1 pages succeeds on a partition that has one page, and a page that is shared is
recorded as not shared after its rights have been changed. -/
theorem memPermSet_inexact :
    ¬ChangesPermExactly (pageVm imageMode) false 0x1000 0x100001 ffaMemPermRw [] ∧
      ¬ChangesPermExactly (pageVm (imageMode ||| mmModeShared)) false 0x1000 1 ffaMemPermRw [] := by
  constructor
  · rintro ⟨ret, t, pool, returned, changed, -⟩
    have evaluated : Partial.returns (apiFfaMemPermSet (pageVm imageMode)
        false 0x1000 0x100001 ffaMemPermRw [])
        (fun r => decide (r.1.func = ffaSuccess32 ∧ r.2.1.modeAt 0x2000 &&& mmModeInvalid ≠ 0)) =
          true := by decide +kernel
    obtain ⟨_, returned', check⟩ := returns_iff.mp evaluated
    cases returned.symm.trans returned'
    obtain ⟨success, absent⟩ := of_decide_eq_true check
    have granted := ((changed success).granted 1 (by decide) 0x2000 ⟨by decide, by decide⟩).2
    exact absent granted.valid
  · rintro ⟨ret, t, pool, returned, changed, -⟩
    have evaluated : Partial.returns (apiFfaMemPermSet (pageVm (imageMode ||| mmModeShared))
        false 0x1000 1 ffaMemPermRw [])
        (fun r => decide (r.1.func = ffaSuccess32 ∧ r.2.1.modeAt 0x1000 &&& pageStateMask = 0)) =
          true := by decide +kernel
    obtain ⟨_, returned', check⟩ := returns_iff.mp evaluated
    cases returned.symm.trans returned'
    obtain ⟨success, lost⟩ := of_decide_eq_true check
    have kept := (changed success).kept 0 (by decide) 0x1000 ⟨by decide, by decide⟩
    rw [lost] at kept
    exact absurd kept (by decide +kernel)

end Hafnium.Api
