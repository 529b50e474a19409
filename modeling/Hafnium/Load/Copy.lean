import Hafnium.Api.MailboxFrame
import Hafnium.Api.Message
import Hafnium.Ffa.Atomicity
import Hafnium.Ffa.ClearExact

/-! # Success as an address

`mm_identity_map` answers with the address that it mapped, and `mm_unmap` with that address taken for
a truth value. Its callers take the null pointer for a failure: the copy of an image to memory that
is not mapped, the clearing of memory, and the registration of message buffers. They are right
about every address but one.
-/

namespace Hafnium.Load

open Mm Ffa Api Partial

variable {m : MmConfig}

/-- Copies an image to memory that is mapped for the time of the copy. Cache maintenance is left out. -/
def copyToUnmapped (memory : HypMemory m) (dest src size : Nat) (pool : Mpool) :
    Run (Bool × HypMemory m × Mpool) := do
  let end_ := (dest + size) % 2 ^ 64
  let (ptr, stage1, pool) ← mmIdentityMap memory.stage1 dest end_ mmModeW pool
  if ptr = 0 then .ok (false, { memory with stage1 }, pool)
  else do
    let bytes ← memcpyS stage1 ptr size src size memory.bytes
    let (memory, pool) ← unmapStage1 ⟨stage1, bytes⟩ dest end_ pool
    .ok (true, memory, pool)

/-- The update of the range takes effect. -/
def Succeeds (t : MmPtable (m.levels .stage1)) (begin_ end_ : Nat) (mode : Mode) (pool : Mpool)
    (t' : MmPtable (m.levels .stage1)) (pool' : Mpool) : Prop :=
  stageIdentityMap t begin_ end_ mode pool = some ⟨true, t', pool'⟩

/-- An image that `memcpy_s` can copy to a range: readable, and apart from the range. -/
structure Copyable (t : MmPtable (m.levels .stage1)) (src begin_ size : Nat) : Prop where
  notNull : src ≠ 0
  other : src ≠ begin_
  apart : src + size ≤ begin_ ∨ begin_ + size ≤ src
  loads : ∀ k < size, (loadTarget t (src + k)).isSome

section Callers

variable {t t' : MmPtable (m.levels .stage1)} {memory : HypMemory m} {begin_ end_ : Nat}
  {mode : Mode} {pool pool' : Mpool}

theorem mmIdentityMap_succeeds (succeeds : Succeeds t begin_ end_ mode pool t' pool') :
    mmIdentityMap t begin_ end_ mode pool = .ok (begin_, t', pool') := by
  rw [Succeeds] at succeeds
  simp only [mmIdentityMap, succeeds, if_true]

/-- The check that follows a successful update of the unmapped mode. -/
theorem unmapStage1_iff (succeeds : Succeeds memory.stage1 begin_ end_ mmModeUnmappedMask pool t' pool') :
    (∃ memory' pool', unmapStage1 memory begin_ end_ pool = .ok (memory', pool')) ↔ begin_ ≠ 0 := by
  simp only [unmapStage1, mmIdentityMap_succeeds succeeds, bind_ok_iff, Except.ok.injEq, exists_eq_left']
  by_cases null : begin_ = 0
  · simp [null]
  · simp [null]

/-- An update with enough free pages succeeds. -/
theorem exists_succeeds (t : MmPtable (m.levels .stage1))
    (pages : mapPages m .stage1 mode begin_ end_ ≤ pool.freeCount) :
    ∃ t' pool', Succeeds t begin_ end_ mode pool t' pool' ∧
      pool.freeCount ≤ pool'.freeCount + mapPages m .stage1 mode begin_ end_ := by
  obtain ⟨⟨ok, t', pool'⟩, updated, rfl, left⟩ :=
    mmPtableIdentityUpdate_pages t (m.modeToAttrs .stage1 mode) pages
  exact ⟨t', pool', updated, left⟩

theorem Succeeds.update (succeeds : Succeeds t begin_ end_ mode pool t' pool') (wf : t.WellFormed) :
    t'.WellFormed ∧ ModeUpdate mode begin_ end_ t t' := by
  obtain ⟨r, ran, rWf, success, -⟩ := stageIdentityMap_spec wf begin_ end_ mode pool
  cases succeeds.symm.trans ran
  exact ⟨rWf, success rfl⟩

variable {size : Nat} {extra : Mode}

/-- Clearing memory succeeds after a successful mapping unless the memory is at address 0, too large
or outside the address space. -/
theorem clearMemory_succeeds_iff (wf : memory.stage1.WellFormed) (below : begin_ < 2 ^ 64)
    (succeeds : Succeeds memory.stage1 begin_ ((begin_ + size) % 2 ^ 64) (clearMode m extra) pool t' pool') :
    (∃ s pool', clearMemory memory begin_ size pool extra = .ok (true, s, pool')) ↔
      Writable m begin_ size := by
  constructor
  · rintro ⟨s, pool₁, cleared⟩
    exact ((clearMemory_spec wf cleared).2.1 rfl).1
  · intro writable
    obtain ⟨wf', update⟩ := succeeds.update wf
    obtain ⟨bytes, set⟩ : ∃ bytes, memsetZero t' begin_ memory.bytes size = some bytes :=
      memsetZero_some_iff.mpr (writable.stores below wf' update (clearMode_writable m extra))
    obtain ⟨ptr, t'', pool₁, unmapped, -⟩ :=
      mmIdentityMap_returns wf' begin_ ((begin_ + size) % 2 ^ 64) mmModeUnmappedMask pool'
    refine ⟨⟨t'', bytes⟩, pool₁, ?_⟩
    simp only [clearMemory, mmIdentityMap_succeeds succeeds, bind_ok_iff, Except.ok.injEq, exists_eq_left']
    rw [if_neg writable.notNull]
    simp only [bind_ok_iff, memsetS_ok, unmapped]
    exact ⟨bytes, ⟨writable.notNull, writable.size_le, set⟩, _, rfl, rfl⟩

theorem loadTarget_isSome_iff (wf : t.WellFormed) {va : Nat} :
    (loadTarget t va).isSome ↔
      va % 2 ^ 56 < mmPtableAddrSpaceEnd (m.levels .stage1) ∧ t.attrsAt (va % 2 ^ 56) &&& pteValid ≠ 0 := by
  simp only [loadTarget]
  generalize va % 2 ^ 56 = addr
  split
  · next inside =>
    rw [MmPtable.lookup_eq wf inside]
    by_cases absent : t.attrsAt addr = 0
    · simp [absent]
    · rw [if_neg absent]
      dsimp only
      split
      · next valid => exact iff_of_true rfl ⟨inside, valid⟩
      · next invalid => exact iff_of_false (by simp) fun mapped => invalid mapped.2
  · next outside => simp [outside]

/-- What could be read can be read after more memory has been mapped for writing. -/
theorem loadTarget_of_update (wf : t.WellFormed) (wf' : t'.WellFormed)
    (update : ModeUpdate mmModeW begin_ end_ t t') {va : Nat} (loads : (loadTarget t va).isSome) :
    (loadTarget t' va).isSome := by
  rw [loadTarget_isSome_iff wf] at loads
  rw [loadTarget_isSome_iff wf', update _ loads.1]
  refine ⟨loads.1, ?_⟩
  split
  · exact (mappedAttrs_writable m).1
  · exact loads.2

/-- A copy succeeds after a successful mapping under the same conditions as clearing, if the image can be
read and the unmapping succeeds. -/
theorem copyToUnmapped_succeeds_iff {src : Nat} {t'' : MmPtable (m.levels .stage1)} {pool'' : Mpool}
    (wf : memory.stage1.WellFormed) (below : begin_ < 2 ^ 64)
    (copyable : Copyable memory.stage1 src begin_ size)
    (succeeds : Succeeds memory.stage1 begin_ ((begin_ + size) % 2 ^ 64) mmModeW pool t' pool')
    (unmaps : Succeeds t' begin_ ((begin_ + size) % 2 ^ 64) mmModeUnmappedMask pool' t'' pool'') :
    (∃ s pool', copyToUnmapped memory begin_ src size pool = .ok (true, s, pool')) ↔
      Writable m begin_ size := by
  obtain ⟨wf', update⟩ := succeeds.update wf
  simp only [copyToUnmapped, mmIdentityMap_succeeds succeeds, bind_ok_iff, Except.ok.injEq, exists_eq_left']
  constructor
  · rintro ⟨s, pool₁, ran⟩
    split at ran
    · cases ran
    · next notNull =>
      obtain ⟨bytes, copied, -⟩ := bind_ok_iff.mp ran
      rw [memcpyS] at copied
      split at copied
      · cases copied
      · next accepted =>
        split at copied
        · cases copied
        · next bytes' written =>
          have targets := (memcpyBytes_some_iff memory.bytes).mp ⟨bytes', written⟩
          exact Writable.of_stores notNull (by omega)
            fun k bound => Option.isSome_iff_exists.mp (targets k bound).2
  · intro writable
    have stores := writable.stores below wf' update (mappedAttrs_writable m)
    obtain ⟨bytes, written⟩ : ∃ bytes, memcpyBytes t' begin_ src memory.bytes size = some bytes :=
      (memcpyBytes_some_iff memory.bytes).mpr fun k bound =>
        ⟨loadTarget_of_update wf wf' update (copyable.loads k bound),
        Option.isSome_iff_exists.mpr (stores k bound)⟩
    have copied : memcpyS t' begin_ size src size memory.bytes = .ok bytes := by
      have notNull := writable.notNull
      have size_le := writable.size_le
      have srcNotNull := copyable.notNull
      have other := copyable.other
      have apart := copyable.apart
      rw [memcpyS, if_neg (by omega), written]
    have unmapped : unmapStage1 ⟨t', bytes⟩ begin_ ((begin_ + size) % 2 ^ 64)
        pool' = .ok (⟨t'', bytes⟩, pool'') := by
      simp only [unmapStage1, mmIdentityMap_succeeds unmaps, bind_ok_iff, Except.ok.injEq, exists_eq_left']
      rw [if_pos writable.notNull]
    refine ⟨⟨t'', bytes⟩, pool'', ?_⟩
    rw [if_neg writable.notNull]
    simp only [bind_ok_iff, copied, unmapped, Except.ok.injEq, exists_eq_left']

/-- Message buffers of which both pages could be mapped are registered unless one is at address 0. -/
theorem apiVmConfigureStage1_iff {e : Endpoint m} {send recv : Nat}
    {t'' : MmPtable (m.levels .stage1)} {pool'' : Mpool}
    (sendSucceeds : Succeeds memory.stage1 send (bufferEnd send) (mmModeR ||| extra) pool t' pool')
    (recvSucceeds : Succeeds t' recv (bufferEnd recv) (mmModeW ||| extra) pool' t'' pool'') :
    apiVmConfigureStage1 e memory send recv extra pool = .ok (true, { e with send, recv },
      { memory with stage1 := t'' }, pool'') ↔
      send ≠ 0 ∧ recv ≠ 0 := by
  simp only [apiVmConfigureStage1, mmIdentityMap_succeeds sendSucceeds,
    mmIdentityMap_succeeds recvSucceeds, bind_ok_iff, Except.ok.injEq, exists_eq_left']
  by_cases sendNull : send = 0
  · simp [sendNull]
  · simp only [sendNull, if_false, bind_ok_iff, Except.ok.injEq, exists_eq_left']
    by_cases recvNull : recv = 0
    · simp only [recvNull, if_true, bind_ok_iff, ne_eq, not_true_eq_false, and_false, iff_false]
      rintro ⟨unmapped, -, ran⟩
      cases ran
    · simp [sendNull, recvNull]

end Callers

/-- What the callers make of a successful update, for every address. The pointer is not null and the
checks pass if and only if the range does not start at address 0. Memory is cleared, and an image that
can be read is copied, if and only if moreover the size is one that `memset_s` and `memcpy_s` accept and
the range is in the address space; buffers are registered if and only if neither is at address 0. -/
theorem success_reported_iff (memory : HypMemory m) (pool : Mpool) (e : Endpoint m) {begin_ : Nat}
    {t' : MmPtable (m.levels .stage1)} {pool' : Mpool} :
    (∀ {end_ : Nat} {mode : Mode}, Succeeds memory.stage1 begin_ end_ mode pool t' pool' →
      ∃ ptr, mmIdentityMap memory.stage1 begin_ end_ mode pool = .ok (ptr, t', pool') ∧
      (ptr ≠ 0 ↔ begin_ ≠ 0)) ∧
    (∀ {end_ : Nat}, Succeeds memory.stage1 begin_ end_ mmModeUnmappedMask pool t' pool' →
      ((∃ memory' pool', unmapStage1 memory begin_ end_ pool = .ok (memory', pool')) ↔ begin_ ≠ 0)) ∧
    (∀ {size : Nat} {extra : Mode}, memory.stage1.WellFormed → begin_ < 2 ^ 64 →
      Succeeds memory.stage1 begin_ ((begin_ + size) % 2 ^ 64) (clearMode m extra) pool t' pool' →
      ((∃ s pool', clearMemory memory begin_ size pool extra = .ok (true, s, pool')) ↔
        Writable m begin_ size)) ∧
    (∀ {src size : Nat} {t'' : MmPtable (m.levels .stage1)} {pool'' : Mpool}, memory.stage1.WellFormed →
      begin_ < 2 ^ 64 → Copyable memory.stage1 src begin_ size →
      Succeeds memory.stage1 begin_ ((begin_ + size) % 2 ^ 64) mmModeW pool t' pool' →
      Succeeds t' begin_ ((begin_ + size) % 2 ^ 64) mmModeUnmappedMask pool' t'' pool'' →
      ((∃ s pool', copyToUnmapped memory begin_ src size pool = .ok (true, s, pool')) ↔
        Writable m begin_ size)) ∧
    ∀ {recv : Nat} {extra : Mode} {t'' : MmPtable (m.levels .stage1)} {pool'' : Mpool},
      Succeeds memory.stage1 begin_ (bufferEnd begin_) (mmModeR ||| extra) pool t' pool' →
      Succeeds t' recv (bufferEnd recv) (mmModeW ||| extra) pool' t'' pool'' →
      (apiVmConfigureStage1 e memory begin_ recv extra pool =
        .ok (true, { e with send := begin_, recv }, { memory with stage1 := t'' }, pool'') ↔
          begin_ ≠ 0 ∧ recv ≠ 0) :=
  ⟨fun succeeds => ⟨begin_, mmIdentityMap_succeeds succeeds, Iff.rfl⟩, unmapStage1_iff,
    clearMemory_succeeds_iff, copyToUnmapped_succeeds_iff, apiVmConfigureStage1_iff⟩

/-- The memory of a partition manager that has mapped nothing. -/
def nothingMapped : HypMemory smallConfig := ⟨emptyTable smallConfig .stage1, fun _ => 0⟩

theorem nothingMapped_maps (begin_ end_ : Nat) (mode : Mode)
    (ok : ((stageIdentityMap nothingMapped.stage1 begin_ end_ mode (ampleMpool 4)).any (·.ok)) = true) :
    ∃ t' pool', Succeeds nothingMapped.stage1 begin_ end_ mode (ampleMpool 4) t' pool' := by
  rw [Option.any_eq_true] at ok
  obtain ⟨⟨_, t', pool'⟩, mapped, rfl⟩ := ok
  exact ⟨t', pool', mapped⟩

/-- The second page of memory is cleared, and an image is copied to it. -/
theorem success_reported_second_page :
    ∃ (memory : HypMemory smallConfig) (pool : Mpool),
      (∃ ptr t' pool', mmIdentityMap memory.stage1 0x1000 0x2000 mmModeW pool =
        .ok (ptr, t', pool') ∧ ptr ≠ 0) ∧
      (∃ s pool', clearMemory memory 0x1000 0x1000 pool 0 = .ok (true, s, pool')) ∧
      ∃ s pool', copyToUnmapped memory 0x1000 0x5000 0x1000 pool = .ok (true, s, pool') := by
  obtain ⟨t, wf, readable⟩ := exists_table smallConfig .stage1 0x5000 0x6000 rfl rfl (by decide)
    (by decide) mmModeR
  set pool := ampleMpool (mapPages smallConfig .stage1 mmModeW 0x1000 0x2000 +
    mapPages smallConfig .stage1 mmModeUnmappedMask 0x1000 0x2000) with isPool
  have free := freeCount_ampleMpool (mapPages smallConfig .stage1 mmModeW 0x1000 0x2000 +
    mapPages smallConfig .stage1 mmModeUnmappedMask 0x1000 0x2000)
  rw [← isPool] at free
  obtain ⟨t₁, pool₁, maps, left⟩ := exists_succeeds t
    (show mapPages smallConfig .stage1 mmModeW 0x1000 0x2000 ≤ pool.freeCount by omega)
  obtain ⟨t₂, pool₂, unmaps, -⟩ := exists_succeeds t₁
    (show mapPages smallConfig .stage1 mmModeUnmappedMask 0x1000 0x2000 ≤ pool₁.freeCount by omega)
  have copyable : Copyable t 0x5000 0x1000 0x1000 := by
    refine ⟨by decide, by decide, by decide, fun k bound => ?_⟩
    have untagged : (0x5000 + k) % 2 ^ 56 = 0x5000 + k := by omega
    have space := space_ge (smallConfig.levels .stage1)
    rw [loadTarget_isSome_iff wf, untagged, readable _ (by omega) (by omega)]
    exact ⟨by omega, by decide⟩
  have writable : Writable smallConfig 0x1000 0x1000 := by
    have space := space_ge (smallConfig.levels .stage1)
    exact ⟨by decide, by decide, fun _ => by omega⟩
  have clearing : Succeeds t 0x1000 ((0x1000 + 0x1000) % 2 ^ 64) (clearMode smallConfig 0)
      pool t₁ pool₁ := maps
  have copying : Succeeds t 0x1000 ((0x1000 + 0x1000) % 2 ^ 64) mmModeW pool t₁ pool₁ := maps
  have leaving : Succeeds t₁ 0x1000 ((0x1000 + 0x1000) % 2 ^ 64) mmModeUnmappedMask pool₁ t₂ pool₂ := unmaps
  obtain ⟨pointer, -, clears, copies, -⟩ := @success_reported_iff smallConfig ⟨t, fun _ => 0⟩ pool
    (Endpoint.new (emptyVm smallConfig 1 .empty)) 0x1000 t₁ pool₁
  obtain ⟨ptr, returned, notNull⟩ := pointer maps
  refine ⟨⟨t, fun _ => 0⟩, pool, ⟨ptr, t₁, pool₁, returned, notNull.mpr (by decide)⟩, ?_, ?_⟩
  · exact (clears wf (by decide) clearing).mpr writable
  · exact (copies wf (by decide) copyable copying leaving).mpr writable

/-- The first page of memory is mapped, and its callers take this for a failure. -/
theorem success_reported_first_page :
    ∃ t' pool', Succeeds nothingMapped.stage1 0 0x1000 mmModeW (ampleMpool 4) t' pool' ∧
      mmIdentityMap nothingMapped.stage1 0 0x1000 mmModeW (ampleMpool 4) = .ok (0, t', pool') ∧
      (∃ s pool', clearMemory nothingMapped 0 0x1000 (ampleMpool 4) 0 = .ok (false, s, pool')) ∧
      ∃ s pool', copyToUnmapped nothingMapped 0 0x5000 0x1000 (ampleMpool 4) = .ok (false, s, pool') := by
  obtain ⟨t', pool', succeeds⟩ := nothingMapped_maps 0 0x1000 mmModeW (by decide +kernel)
  have mapped := mmIdentityMap_succeeds succeeds
  have clears : mmIdentityMap nothingMapped.stage1 0 ((0 + 0x1000) % 2 ^ 64)
      (clearMode smallConfig 0) (ampleMpool 4) = .ok (0, t', pool') := mapped
  have copies : mmIdentityMap nothingMapped.stage1 0 ((0 + 0x1000) % 2 ^ 64) mmModeW (ampleMpool 4) =
      .ok (0, t', pool') := mapped
  refine ⟨t', pool', succeeds, mapped, ?_, ?_⟩
  · simp only [clearMemory, clears, bind_ok_iff, Except.ok.injEq, exists_eq_left', if_true]
    exact ⟨_, _, rfl⟩
  · simp only [copyToUnmapped, copies, bind_ok_iff, Except.ok.injEq, exists_eq_left', if_true]
    exact ⟨_, _, rfl⟩

end Hafnium.Load
