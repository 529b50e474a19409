import Hafnium.Mm.Modes
import Hafnium.Mm.Persistence

/-! # Reading the mode of a range

`stageGetMode_iff` says when `mm_get_mode` and `mm_vm_get_mode` answer, in terms of the attributes of
each address and of unbounded addresses. `mode_roundtrip_iff` says which modes are read back as they
were written, and that later operations do not change what is read, in whatever way they split and
merge the blocks around the page.
-/

namespace Hafnium.Mm

variable {m : MmConfig} {stage : Stage}

def mmGetMode (t : HypPtable m) (begin_ end_ : Nat) : Option Mode := stageGetMode t begin_ end_

/-! ## The attributes of absent pages -/

/-- The descriptor that the walk for an address ends with. -/
def Pte.leafAt : {level : Nat} → Pte level → Nat → PteBits
  | _, .leaf bits, _ => bits
  | level + 1, .table _ entries, addr => (entries (mmIndex addr level)).leafAt addr

def MmPtable.leafAt {c : StageConfig} (t : MmPtable c) (addr : Nat) : PteBits := (t.entryAt addr).leafAt addr

variable {level addr page : Nat} {c : StageConfig} {mode : Mode} {t : MmPtable (m.levels stage)}
  {pool : Mpool}

theorem Pte.attrsAt_leafAt (e : Pte level) (addr : Nat) :
    e.attrsAt addr = archMmPteAttrs (e.leafAt addr) := by
  induction e with
  | leaf bits => rfl
  | table page entries ih => exact ih _

theorem MmPtable.attrsAt_absent {t : MmPtable c} (absent : t.leafAt addr = archMmAbsentPte) :
    t.attrsAt addr = 0 := by
  rw [MmPtable.attrsAt_entryAt, Pte.attrsAt_leafAt, ← MmPtable.leafAt, absent]
  rfl

/-! ## When a query answers -/

/-- Rounding up to a page, without the limit of 64 bits. -/
def pageCeil (addr : Nat) : Nat := (addr + (pageSize - 1)) / pageSize * pageSize

/-- Rounding up wraps to 0 where the exact value is past every address space. -/
theorem mmRoundUpToPage_eq (word : addr < 2 ^ 64) :
    mmRoundUpToPage addr = if pageCeil addr < 2 ^ 64 then pageCeil addr else 0 := by
  split
  all_goals
    simp only [mmRoundUpToPage, mmRoundDownToPage, pageCeil, pageSize] at *
    omega

/-- The rounded range is not empty and lies in the address space. -/
structure QueryRange (c : StageConfig) (begin_ end_ : Nat) : Prop where
  nonempty : mmRoundDownToPage begin_ < pageCeil end_
  inside : pageCeil end_ ≤ mmPtableAddrSpaceEnd c

theorem stageGetMode_iff (t : MmPtable (m.levels stage)) {begin_ end_ : Nat} (word : end_ < 2 ^ 64)
    (mode : Mode) :
    stageGetMode t begin_ end_ = some mode ↔ QueryRange (m.levels stage) begin_ end_ ∧
      ∃ attrs, m.attrsToMode stage attrs = mode ∧
        ∀ addr, mmRoundDownToPage begin_ ≤ addr → addr < pageCeil end_ → t.attrsAt addr = attrs := by
  have space := (m.levels stage).space_le
  rw [← mmPtableAddrSpaceEnd] at space
  simp only [stageGetMode, Option.map_eq_some_iff, mmGetAttrs_iff, mmRoundUpToPage_eq word]
  constructor
  · rintro ⟨attrs, ⟨inside, nonempty, same⟩, rfl⟩
    split at nonempty
    · next fits =>
      rw [if_pos fits] at inside same
      exact ⟨⟨nonempty, inside⟩, attrs, rfl, same⟩
    · exact absurd nonempty (Nat.not_lt_zero _)
  · rintro ⟨⟨nonempty, inside⟩, attrs, rfl, same⟩
    rw [if_pos (by omega)]
    exact ⟨attrs, ⟨inside, nonempty, same⟩, rfl⟩

/-- In a table that the stage-2 functions made of a new one, every address has the attributes of
some mode. -/
theorem VmPtableReachable.attrs {t : VmPtable m} (reachable : VmPtableReachable t) :
    ∀ addr < mmPtableAddrSpaceEnd (m.levels .stage2),
      ∃ mode, t.attrsAt addr = m.mappedAttrs .stage2 mode := by
  have absent : ∃ mode, (0 : PteBits) = m.mappedAttrs .stage2 mode := ⟨mmModeUnmappedMask, rfl⟩
  have update {t t' : VmPtable m} {begin_ end_ : Nat} {mode : Mode}
      (updated : ModeUpdate mode begin_ end_ t t')
      (before : ∀ addr < mmPtableAddrSpaceEnd (m.levels .stage2),
        ∃ mode, t.attrsAt addr = m.mappedAttrs .stage2 mode) :
      ∀ addr < mmPtableAddrSpaceEnd (m.levels .stage2),
        ∃ mode, t'.attrsAt addr = m.mappedAttrs .stage2 mode := by
    intro addr inside
    rw [updated addr inside]
    split
    · exact ⟨mode, rfl⟩
    · exact before addr inside
  have map {t : VmPtable m} (before : VmPtableReachable t) {begin_ end_ : Nat} {mode : Mode} {pool : Mpool}
      {r : Updated (VmPtable m)} (ran : mmVmIdentityMap t begin_ end_ mode pool = some r)
      (ih : ∀ addr < mmPtableAddrSpaceEnd (m.levels .stage2),
        ∃ mode, t.attrsAt addr = m.mappedAttrs .stage2 mode) :
      ∀ addr < mmPtableAddrSpaceEnd (m.levels .stage2),
        ∃ mode, r.value.attrsAt addr = m.mappedAttrs .stage2 mode := by
    obtain ⟨r', returned', -, success, failure⟩ :=
      stageIdentityMap_spec before.wellFormed begin_ end_ mode pool
    cases ran.symm.trans returned'
    cases ok : r.ok with
    | true => exact update (success ok) ih
    | false =>
      intro addr inside
      rw [failure ok addr inside]
      exact ih addr inside
  induction reachable with
  | init success =>
    intro addr inside
    rw [MmPtable.attrsAt, mmPtableInit_some success]
    exact absent
  | identityMap before ran ih => exact map before ran ih
  | unmap before ran ih => exact map before ran ih
  | prepare begin_ end_ mode pool before ih =>
    intro addr inside
    rw [mmVmIdentityPrepare, stageIdentityPrepare_sameAttrs before.wellFormed begin_ end_ mode pool
      addr inside]
    exact ih addr inside
  | commit before ran ih => exact update (stageIdentityCommit_modeUpdate before.wellFormed _ _ _ _ ran) ih
  | defrag pool before ih =>
    intro addr inside
    rw [mmVmDefrag, mmPtableDefrag_sameAttrs m.features _ pool before.wellFormed addr inside]
    exact ih addr inside

/-- Stage-2 attributes that are read as the same mode are the same. -/
theorem mappedAttrs_injective {mode' : Mode}
    (same : archMmStage2AttrsToMode (m.mappedAttrs .stage2 mode) =
    archMmStage2AttrsToMode (m.mappedAttrs .stage2 mode')) :
    m.mappedAttrs .stage2 mode = m.mappedAttrs .stage2 mode' := by
  have read (mode : Mode) : archMmStage2AttrsToMode (m.mappedAttrs .stage2 mode) &&&
      mmModeUnmappedMask = mmModeUnmappedMask ↔ mode.IsUnmapped := by
    by_cases unmapped : mode.IsUnmapped
    · rw [MmConfig.mappedAttrs, if_pos unmapped]
      exact iff_of_true rfl unmapped
    · rw [MmConfig.mappedAttrs, if_neg unmapped, MmConfig.modeToAttrs, archMmStage2AttrsToMode_of_mode,
        ← test_low mode mmModeUnmappedMask rfl]
      exact Iff.rfl
  have alike : mode.IsUnmapped ↔ mode'.IsUnmapped := by rw [← read mode, ← read mode', same]
  by_cases unmapped : mode.IsUnmapped
  · rw [MmConfig.mappedAttrs, MmConfig.mappedAttrs, if_pos unmapped, if_pos (alike.mp unmapped)]
  · have unmapped' := mt alike.mpr unmapped
    simp only [MmConfig.mappedAttrs, if_neg unmapped, if_neg unmapped', MmConfig.modeToAttrs,
      archMmStage2AttrsToMode_of_mode] at same ⊢
    rw [archMmModeToStage2Attrs_low mode, same, ← archMmModeToStage2Attrs_low]

/-- A query of a range answers with a mode if and only if the rounded range is not empty, lies in the
address space and has one attribute word everywhere, which stands for that mode; the word of a page
that is absent is 0. In a table that the stage-2 functions made of a new one it is enough that every
page has attributes that stand for the mode. -/
theorem getMode_exact {begin_ end_ : Nat} (word : end_ < 2 ^ 64) (mode : Mode) :
    (∀ t : HypPtable m, mmGetMode t begin_ end_ = some mode ↔ QueryRange (m.levels .stage1) begin_ end_ ∧
      ∃ attrs, m.attrsToMode .stage1 attrs = mode ∧
        ∀ addr, mmRoundDownToPage begin_ ≤ addr → addr < pageCeil end_ → t.attrsAt addr = attrs) ∧
    (∀ t : VmPtable m, mmVmGetMode t begin_ end_ = some mode ↔ QueryRange (m.levels .stage2) begin_ end_ ∧
      ∃ attrs, m.attrsToMode .stage2 attrs = mode ∧
        ∀ addr, mmRoundDownToPage begin_ ≤ addr → addr < pageCeil end_ → t.attrsAt addr = attrs) ∧
    (∀ t : VmPtable m, VmPtableReachable t → (mmVmGetMode t begin_ end_ = some mode ↔
      QueryRange (m.levels .stage2) begin_ end_ ∧
        ∀ addr, mmRoundDownToPage begin_ ≤ addr → addr < pageCeil end_ →
          m.attrsToMode .stage2 (t.attrsAt addr) = mode)) ∧
    ∀ (stage : Stage) (t : MmPtable (m.levels stage)) (addr : Nat),
      t.leafAt addr = archMmAbsentPte → t.attrsAt addr = 0 := by
  refine ⟨fun t => stageGetMode_iff t word mode, fun t => stageGetMode_iff t word mode, fun t reachable => ?_,
    fun stage t addr absent => MmPtable.attrsAt_absent absent⟩
  refine (stageGetMode_iff t word mode).trans (and_congr_right fun range => ⟨?_, fun same => ?_⟩)
  · rintro ⟨attrs, rfl, same⟩ addr lower upper
    rw [same addr lower upper]
  · -- All words are those of modes, and the first one stands for the mode.
    have nonempty := range.nonempty
    have inside := range.inside
    refine ⟨_, same _ (Nat.le_refl _) nonempty, fun addr lower upper => ?_⟩
    obtain ⟨first, firstAttrs⟩ := reachable.attrs (mmRoundDownToPage begin_) (by omega)
    obtain ⟨here, hereAttrs⟩ := reachable.attrs addr (by omega)
    have firstMode := same _ (Nat.le_refl _) nonempty
    have hereMode := same addr lower upper
    rw [firstAttrs] at firstMode ⊢
    rw [hereAttrs] at hereMode ⊢
    exact mappedAttrs_injective (hereMode.trans firstMode.symm)

/-- The first page of a new table on a 32-bit platform, and the last bytes of the 64-bit addresses. -/
theorem getMode_exact_new_table :
    let m := smallConfig
    let t : VmPtable m := .empty _
    (mmVmGetMode t 1 2 = some (m.attrsToMode .stage2 0) ↔ QueryRange (m.levels .stage2) 1 2 ∧
      ∃ attrs, m.attrsToMode .stage2 attrs = m.attrsToMode .stage2 0 ∧
        ∀ addr, mmRoundDownToPage 1 ≤ addr → addr < pageCeil 2 → t.attrsAt addr = attrs) ∧
    mmVmGetMode t 1 2 = some (m.attrsToMode .stage2 0) ∧ mmVmGetMode t 0 (2 ^ 64 - 1) = none := by
  intro m t
  exact ⟨(getMode_exact (by decide) _).2.1 t, by decide +kernel, by decide +kernel⟩

/-- Without virtualisation host extensions, read-only pages with and without the right to execute have two
attribute words that decode to one mode: each page has that mode, and both together have none. -/
theorem getMode_mixed_words :
    let m := smallConfig
    let t : HypPtable m := .empty _
    ∃ r r', stageIdentityMap t 0x1000 0x2000 mmModeR [⟨[5, 6], []⟩] = some r ∧
      stageIdentityMap r.value 0x2000 0x3000 (mmModeR ||| mmModeX) r.state = some r' ∧
      QueryRange (m.levels .stage1) 0x1000 0x3000 ∧
      (∀ addr, 0x1000 ≤ addr → addr < 0x3000 →
        m.attrsToMode .stage1 (r'.value.attrsAt addr) = mmModeR ||| mmModeX) ∧
      mmGetMode r'.value 0x1000 0x3000 = none := by
  intro m t
  have reads : (stageIdentityMap t 0x1000 0x2000 mmModeR [⟨[5, 6], []⟩]).any (fun r =>
      (stageIdentityMap r.value 0x2000 0x3000 (mmModeR ||| mmModeX) r.state).any fun r' =>
        decide (mmGetMode r'.value 0x1000 0x2000 = some (mmModeR ||| mmModeX) ∧
          mmGetMode r'.value 0x2000 0x3000 = some (mmModeR ||| mmModeX) ∧
            mmGetMode r'.value 0x1000 0x3000 = none)) = true := by
    decide +kernel
  obtain ⟨r, ran, reads⟩ := (Option.any_eq_true ..).mp reads
  obtain ⟨r', ran', reads⟩ := (Option.any_eq_true ..).mp reads
  obtain ⟨first, second, both⟩ := of_decide_eq_true reads
  obtain ⟨-, attrs, isMode, firstAttrs⟩ := (stageGetMode_iff r'.value (by decide) _).mp first
  obtain ⟨-, attrs', isMode', secondAttrs⟩ := (stageGetMode_iff r'.value (by decide) _).mp second
  refine ⟨r, r', ran, ran', ⟨by decide, by decide⟩, fun addr lower upper => ?_, both⟩
  by_cases before : addr < 0x2000
  · rw [firstAttrs addr lower before, isMode]
  · rw [secondAttrs addr (Nat.le_of_not_lt before) upper, isMode']

/-! ## Modes that are read back as they were written -/

/-- The modes that a stage records as a whole: stage 2 the rights, the memory type and the ownership
state; stage 1, for the EL0 partitions of the secure world, all modes that can be read and are not
tagged. -/
def MmConfig.Records (m : MmConfig) : Stage → Mode → Prop
  | .stage1, mode =>
    m.features.hasVheSupport = true ∧ m.features.secureWorld = true ∧ mode &&& mmModeR ≠ 0 ∧
      mode &&& 0x3ff = mode
  | .stage2, mode => mode &&& stage2ModeMask = mode

theorem attrsToMode_modeToAttrs (records : m.Records stage mode) :
    m.attrsToMode stage (m.modeToAttrs stage mode) = mode := by
  cases stage with
  | stage1 => exact archMmStage1AttrsToMode_exact records.1 records.2.1 records.2.2.1 records.2.2.2
  | stage2 => exact (archMmStage2AttrsToMode_of_mode mode).trans records

/-- The mode of a page whose addresses all have the same attributes. -/
theorem stageGetMode_page {attrs : PteBits} (aligned : page % pageSize = 0)
    (inside : page < mmPtableAddrSpaceEnd (m.levels stage))
    (same : ∀ addr, mmRoundDownToPage addr = page → t.attrsAt addr = attrs) :
    stageGetMode t page (page + pageSize) = some (m.attrsToMode stage attrs) := by
  have space := (m.levels stage).space_le
  have spacePage := space_page (m.levels stage)
  rw [← mmPtableAddrSpaceEnd] at space
  have floor : mmRoundDownToPage page = page := mmRoundDownToPage_of_page aligned
  have ceil : pageCeil (page + pageSize) = page + pageSize := by
    simp only [pageCeil, pageSize] at *
    omega
  have fits : page + pageSize ≤ mmPtableAddrSpaceEnd (m.levels stage) := by
    simp only [pageSize] at *
    omega
  refine (stageGetMode_iff t (by omega) _).mpr ⟨⟨?_, ?_⟩, attrs, rfl, fun addr lower upper => same addr ?_⟩
  · rw [floor, ceil]
    exact Nat.lt_add_of_pos_right (by decide)
  · rw [ceil]
    exact fits
  · rw [ceil] at upper
    simp only [mmRoundDownToPage, pageSize] at aligned upper ⊢
    omega

/-! ## Later operations -/

/-- `mm_map_va_at_pa_stage2`. It writes stage-1 attributes into a stage-2 table. -/
def mmMapVaAtPaStage2 (t : VmPtable m) (va pa : Nat) (mode : Mode) (pool : Mpool) :
    Option (Updated (VmPtable m)) :=
  mmPtableMapOnePage t va pa (m.modeToAttrs .stage1 mode) ⟨true, mmModeToFlags mode⟩ pool

/-- The operations on the tables of a stage. -/
inductive TableOp
  | identityMap (begin_ end_ : Nat) (mode : Mode)
  | prepare (begin_ end_ : Nat) (mode : Mode)
  | commit (begin_ end_ : Nat) (mode : Mode)
  | mapVaAtPa (va pa : Nat) (mode : Mode)
  | defrag

/-- The table that an operation leaves, whatever it answers. -/
def TableOp.run (op : TableOp) (t : MmPtable (m.levels stage)) (pool : Mpool) :
    Option (MmPtable (m.levels stage)) :=
  match op with
  | .identityMap begin_ end_ mode => (stageIdentityMap t begin_ end_ mode pool).map (·.value)
  | .prepare begin_ end_ mode => some (stageIdentityPrepare t begin_ end_ mode pool).value
  | .commit begin_ end_ mode => (stageIdentityCommit t begin_ end_ mode pool).map (·.1)
  | .mapVaAtPa va pa mode =>
    (mmPtableMapOnePage t va pa (m.modeToAttrs .stage1 mode) ⟨true, mmModeToFlags mode⟩ pool).map (·.value)
  | .defrag => some (mmPtableDefrag m.features t pool).1

/-- The operation writes no mode for the page; it may split or merge the blocks around it. -/
def TableOp.Spares (c : StageConfig) (page : Nat) : TableOp → Prop
  | .identityMap begin_ end_ _ => ¬(mmMapBegin begin_ ≤ page ∧ page < mmMapEnd c end_)
  | .prepare _ _ _ => True
  | .commit begin_ end_ _ => ¬(mmMapBegin begin_ ≤ page ∧ page < mmMapEnd c end_)
  | .mapVaAtPa va _ _ => archMmClearPa va ≠ page
  | .defrag => True

/-- Runs of such operations on regular tables, each with the pool it finds. -/
inductive Reshaped (page : Nat) : MmPtable (m.levels stage) → MmPtable (m.levels stage) → Prop
  | refl (t : MmPtable (m.levels stage)) : Reshaped page t t
  | step {t t₁ t₂ : MmPtable (m.levels stage)} {op : TableOp} {pool : Mpool} (before : Reshaped page t t₁)
      (regular : t₁.Regular) (spares : op.Spares (m.levels stage) page)
        (ran : op.run t₁ pool = some t₂) : Reshaped page t t₂

section Keeps

theorem attrsAt_of_lookup {t t' : MmPtable c} (regular : t.RegularAt addr) (regular' : t'.RegularAt addr)
    (same : t'.lookup addr = t.lookup addr) : t'.attrsAt addr = t.attrsAt addr := by
  rw [MmPtable.attrsAt_entryAt, MmPtable.attrsAt_entryAt, Pte.RegularAt.attrsAt regular,
    Pte.RegularAt.attrsAt regular', ← MmPtable.lookup_entryAt, same, MmPtable.lookup_entryAt]

/-- Ranges of whole pages contain all addresses of a page or none. -/
theorem outside_page {begin_ end_ : Nat} (here : mmRoundDownToPage addr = page)
    (outside : ¬(mmMapBegin begin_ ≤ page ∧ page < mmMapEnd c end_)) :
    ¬(mmMapBegin begin_ ≤ addr ∧ addr < mmMapEnd c end_) := by
  have beginPage : mmMapBegin begin_ % pageSize = 0 := by
    rw [mmMapBegin, archMmClearPa_eq]
    exact Nat.mul_mod_left ..
  simp only [mmRoundDownToPage, pageSize] at *
  omega

theorem Pte.attrsAt_page (e : Pte level) (addr : Nat) :
    e.attrsAt (mmRoundDownToPage addr) = e.attrsAt addr := by
  induction e with
  | leaf bits => rfl
  | table page entries ih => rw [Pte.attrsAt, mmIndex_page, ih, Pte.attrsAt]

theorem MmPtable.attrsAt_page (t : MmPtable c) (addr : Nat) :
    t.attrsAt (mmRoundDownToPage addr) = t.attrsAt addr := by
  rw [MmPtable.attrsAt_entryAt, MmPtable.entryAt_page, Pte.attrsAt_page, ← MmPtable.attrsAt_entryAt]

theorem inside_page (here : mmRoundDownToPage addr = page) (inside : page < mmPtableAddrSpaceEnd c) :
    addr < mmPtableAddrSpaceEnd c := by
  have space := space_page c
  simp only [mmRoundDownToPage, pageSize] at *
  omega

end Keeps

variable {t' : MmPtable (m.levels stage)}

/-- One operation. -/
theorem TableOp.Spares.attrsAt {op : TableOp} (spares : op.Spares (m.levels stage) page)
    (ran : op.run t pool = some t') (regular : t.Regular)
    (inside : page < mmPtableAddrSpaceEnd (m.levels stage)) (here : mmRoundDownToPage addr = page) :
    t'.attrsAt addr = t.attrsAt addr := by
  have addrInside := inside_page here inside
  have regularAt := regular addr addrInside
  cases op with
  | identityMap begin_ end_ mode =>
    obtain ⟨r, returned, rfl⟩ := Option.map_eq_some_iff.mp ran
    obtain ⟨regular', lookup⟩ := mmPtableIdentityUpdate_translates
      (attrsFor_modeToAttrs m stage mode) returned addrInside regularAt
    rw [if_neg fun touched => outside_page here spares touched.2] at lookup
    exact attrsAt_of_lookup regularAt regular' lookup
  | prepare begin_ end_ mode =>
    cases ran
    have prepared := mmMapRoot_translates ⟨false, mmModeToFlags mode⟩ (attrsFor_modeToAttrs m stage mode)
      (rootRange_map _ begin_ end_) t pool addrInside regularAt
    exact attrsAt_of_lookup regularAt prepared.regular (prepared.frame (.inl rfl))
  | commit begin_ end_ mode =>
    obtain ⟨r, returned, rfl⟩ := Option.map_eq_some_iff.mp ran
    have written := mmMapRoot_translates ⟨true, mmModeToFlags mode⟩ (attrsFor_modeToAttrs m stage mode)
      (rootRange_map _ begin_ end_) t pool addrInside regularAt
    rw [← mmPtableIdentityMap, mmPtableIdentityCommit_some returned] at written
    exact attrsAt_of_lookup regularAt written.regular (written.frame (.inr (outside_page here spares)))
  | mapVaAtPa va pa mode =>
    obtain ⟨r, returned, rfl⟩ := Option.map_eq_some_iff.mp ran
    obtain ⟨r', returned', maps⟩ := mmPtableMapOnePage_maps (attrsFor_modeToAttrs m .stage1 mode)
      regular va pa pool
    rw [returned', Option.some.injEq] at returned
    subst returned
    have mapped := maps addr addrInside
    exact attrsAt_of_lookup regularAt mapped.regular (mapped.frame fun same => spares (same.symm.trans here))
  | defrag =>
    cases ran
    rw [mmPtableDefrag_fst]
    exact regular.defragged_attrsAt m.features addrInside

/-- A whole run. -/
theorem Reshaped.attrsAt (run : Reshaped page t t') (inside : page < mmPtableAddrSpaceEnd (m.levels stage))
    (here : mmRoundDownToPage addr = page) : t'.attrsAt addr = t.attrsAt addr := by
  induction run with
  | refl => rfl
  | step _ regular spares ran ih => exact (spares.attrsAt ran regular inside here).trans ih

/-! ## Writing and reading a mode -/

/-- The ways to map a page in some mode. -/
inductive MapCall : Stage → Type
  | identityMap {stage : Stage} (begin_ end_ : Nat) : MapCall stage
  | mapVaAtPaStage2 (va pa : Nat) : MapCall .stage2

def MapCall.run : {stage : Stage} → MapCall stage → MmPtable (m.levels stage) → Mode → Mpool →
    Option (Updated (MmPtable (m.levels stage)))
  | _, .identityMap begin_ end_, t, mode, pool => stageIdentityMap t begin_ end_ mode pool
  | _, .mapVaAtPaStage2 va pa, t, mode, pool => mmMapVaAtPaStage2 t va pa mode pool

/-- The pages that a call maps. -/
def MapCall.Maps (m : MmConfig) : {stage : Stage} → MapCall stage → Nat → Prop
  | stage, .identityMap begin_ end_, page => mmMapBegin begin_ ≤ page ∧ page < mmMapEnd (m.levels stage) end_
  | _, .mapVaAtPaStage2 va _, page => page = archMmClearPa va

/-- The call is an identity map. -/
def MapCall.IsIdentity : {stage : Stage} → MapCall stage → Prop
  | _, .identityMap _ _ => True
  | _, .mapVaAtPaStage2 _ _ => False

/-- The attributes that a call writes. -/
def MapCall.attrs (m : MmConfig) : {stage : Stage} → MapCall stage → Mode → PteBits
  | stage, .identityMap _ _, mode => m.modeToAttrs stage mode
  | _, .mapVaAtPaStage2 _ _, mode => m.modeToAttrs .stage1 mode

/-- A successful call leaves these attributes on every page that it maps. -/
theorem MapCall.run_attrsAt {call : MapCall stage} {r : Updated (MmPtable (m.levels stage))}
    (ran : call.run t mode pool = some r) (ok : r.ok = true) (regular : t.Regular) (mapped : ¬mode.IsUnmapped)
    (maps : call.Maps m page) (inside : page < mmPtableAddrSpaceEnd (m.levels stage))
    (here : mmRoundDownToPage addr = page) : r.value.attrsAt addr = call.attrs m mode := by
  have addrInside := inside_page here inside
  have regularAt := regular addr addrInside
  have flag : mmModeToFlags mode = false := decide_eq_false mapped
  cases call with
  | identityMap begin_ end_ =>
    have touched : mmMapBegin begin_ ≤ addr ∧ addr < mmMapEnd (m.levels stage) end_ := by
      have endPage := mmMapEnd_page (m.levels stage) end_
      obtain ⟨lower, upper⟩ := maps
      simp only [mmRoundDownToPage, pageSize] at here endPage
      omega
    obtain ⟨regular', lookup⟩ := mmPtableIdentityUpdate_translates
      (attrsFor_modeToAttrs m stage mode) ran addrInside regularAt
    rw [if_pos ⟨ok, touched⟩, Mm.mapped, flag, if_neg Bool.false_ne_true] at lookup
    split at lookup
    · next kept => exact (attrsAt_of_lookup regularAt regular' lookup).trans (Pte.attrsAt_of_keeps kept)
    · rw [MmPtable.attrsAt_entryAt, Pte.RegularAt.attrsAt regular', ← MmPtable.lookup_entryAt, lookup]
      rfl
  | mapVaAtPaStage2 va pa =>
    obtain ⟨r', returned, mapsPage⟩ := mmPtableMapOnePage_maps (attrsFor_modeToAttrs m .stage1 mode)
      regular va pa pool
    obtain rfl : r' = r := Option.some.inj (returned.symm.trans ran)
    obtain ⟨regular', -, -, shadowed, mappedAt⟩ := mapsPage addr addrInside
    rw [← show page = archMmClearPa va from maps] at shadowed mappedAt
    by_cases shadows : (t.entryAt addr).Shadows (m.modeToAttrs .stage1 mode) page (archMmClearPa pa)
    · -- The block that was taken for the mapping has the wanted attributes.
      have kept : t.attrsAt addr = m.modeToAttrs .stage1 mode := by
        obtain ⟨k, -, -, -, found⟩ := shadows
        rw [← here, ← MmPtable.entryAt_page, here, ← MmPtable.lookup_entryAt] at found
        rw [← MmPtable.attrsAt_page, here, MmPtable.attrsAt_entryAt,
          Pte.RegularAt.attrsAt (regular page inside), ← MmPtable.lookup_entryAt, found]
        rfl
      exact (attrsAt_of_lookup regularAt regular' (shadowed ok here flag shadows)).trans kept
    · rw [MmPtable.attrsAt_entryAt, Pte.RegularAt.attrsAt regular', mappedAt ok here flag shadows]
      rfl

/-- A mode that the stage records is read back from a page as it was written if it was written by an
identity map, also after any later operations that write no mode for the page. `mm_map_va_at_pa_stage2`
writes attributes from which no mode is read back. -/
theorem mode_roundtrip_iff (regular : t.Regular) {mode : Mode} (records : m.Records stage mode)
    (mapped : ¬mode.IsUnmapped) (call : MapCall stage) (maps : call.Maps m page)
    (aligned : page % pageSize = 0) (inside : page < mmPtableAddrSpaceEnd (m.levels stage))
    {pool : Mpool} {r : Updated (MmPtable (m.levels stage))} (ran : call.run t mode pool = some r)
    (ok : r.ok = true) :
    (call.IsIdentity → ∀ t', Reshaped page r.value t' → stageGetMode t' page (page + pageSize) = some mode) ∧
      (¬call.IsIdentity → ∀ t', Reshaped page r.value t' →
        stageGetMode t' page (page + pageSize) ≠ some mode) := by
  have read (t' : MmPtable (m.levels stage)) (later : Reshaped page r.value t') :
      stageGetMode t' page (page + pageSize) = some (m.attrsToMode stage (call.attrs m mode)) :=
    stageGetMode_page aligned inside fun addr here =>
      (later.attrsAt inside here).trans (call.run_attrsAt ran ok regular mapped maps inside here)
  cases call with
  | identityMap begin_ end_ =>
    refine ⟨fun _ t' later => ?_, fun other => absurd trivial other⟩
    rw [read t' later, MapCall.attrs, attrsToMode_modeToAttrs records]
  | mapVaAtPaStage2 va pa =>
    refine ⟨False.elim, fun _ t' later same => ?_⟩
    rw [read t' later, Option.some.injEq] at same
    -- The write right is always turned around.
    have flipped := archMmStage2AttrsToMode_stage1 m.features mode
    rw [show archMmStage2AttrsToMode (archMmModeToStage1Attrs m.features mode) = mode from same] at flipped
    tauto

/-- The second page of a new stage-2 table on a 32-bit platform. -/
theorem mode_roundtrip_second_page :
    let m := smallConfig
    let t : VmPtable m := .empty _
    ∃ r, mmVmIdentityMap t 0x1000 0x2000 (mmModeR ||| mmModeW) [⟨[5, 6], []⟩] = some r ∧ r.ok = true ∧
      ∀ t', Reshaped 0x1000 r.value t' → mmVmGetMode t' 0x1000 0x2000 = some (mmModeR ||| mmModeW) := by
  intro m t
  have succeeds : (mmVmIdentityMap t 0x1000 0x2000 (mmModeR ||| mmModeW) [⟨[5, 6], []⟩]).any
      (·.ok) = true := by decide +kernel
  rw [Option.any_eq_true] at succeeds
  obtain ⟨r, returned, ok⟩ := succeeds
  refine ⟨r, returned, ok, ?_⟩
  have maps : (MapCall.identityMap 0x1000 0x2000 : MapCall .stage2).Maps m 0x1000 := ⟨by decide, by decide⟩
  exact (mode_roundtrip_iff (MmPtable.empty_wellFormed _).regular
    (show m.Records .stage2 (mmModeR ||| mmModeW) from rfl) (by decide) _
    maps rfl (by decide) returned ok).1 trivial

/-- The same page mapped by `mm_map_va_at_pa_stage2`: it is read back as device memory without rights. -/
theorem mode_roundtrip_stage1_attrs :
    let m := smallConfig
    let t : VmPtable m := .empty _
    ∃ r, mmMapVaAtPaStage2 t 0x1000 0x1000 (mmModeR ||| mmModeW) [⟨[5, 6], []⟩] = some r ∧ r.ok = true ∧
      mmVmGetMode r.value 0x1000 0x2000 = some mmModeD := by
  intro m t
  have read : (mmMapVaAtPaStage2 t 0x1000 0x1000 (mmModeR ||| mmModeW) [⟨[5, 6], []⟩]).any (fun r => r.ok &&
      decide (mmVmGetMode r.value 0x1000 0x2000 = some mmModeD)) = true := by decide +kernel
  simp only [Option.any_eq_true, Bool.and_eq_true, decide_eq_true_eq] at read
  obtain ⟨r, mapped, ok, mode⟩ := read
  exact ⟨r, mapped, ok, mode⟩

end Hafnium.Mm
