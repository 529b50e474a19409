import Hafnium.Ffa.UpdateSpec

/-! # What clearing guarantees

With enough free pages, clearing gets past every constituent that `Constituent.Clearable` admits,
so the bytes it overwrites can be observed. A region is cleared exactly when the constituents that
the loops visit make up the whole region.
-/

namespace Hafnium.Ffa

open Mm Partial

variable {m : MmConfig}

theorem clearMode_cases (m : MmConfig) (extra : Mode) :
    clearMode m extra = mmModeW ∨ clearMode m extra = mmModeW ||| mmModeNs := by
  have single : extra &&& mmModeNs = 0 ∨ extra &&& mmModeNs = mmModeNs := by
    have bit : mmModeNs = BitVec.twoPow 32 7 := rfl
    rw [bit, BitVec.and_twoPow]
    split
    · exact .inr rfl
    · exact .inl rfl
  rw [clearMode, platFfaOtherWorldMode]
  split
  · rcases single with none | all
    · left
      rw [none]
      rfl
    · right
      rw [all]
  · left
    simp

/-- The mode of a clearing mapping allows stores. -/
theorem clearMode_writable (m : MmConfig) (extra : Mode) :
    m.mappedAttrs .stage1 (clearMode m extra) &&& pteValid ≠ 0 ∧
    m.mappedAttrs .stage1 (clearMode m extra) &&& stage1Ap2 = 0 := by
  obtain ⟨⟨vhe, secure, protection⟩, pa⟩ := m
  simp only [MmConfig.mappedAttrs, MmConfig.modeToAttrs]
  rcases clearMode_cases ⟨⟨vhe, secure, protection⟩, pa⟩ extra with mode | mode
  all_goals
    rw [mode]
    cases vhe <;> cases secure <;> cases protection <;> decide +kernel

/-- The pages that clearing a constituent takes at most: its mapping and its unmapping. -/
def Constituent.clearPages (m : MmConfig) (extra : Mode) (c : Constituent) : Nat :=
  2 * mmPtableUpdatePages (m.levels .stage1) (mmModeToFlags (clearMode m extra)) c.begin_ c.end_ +
    2 * mmPtableUpdatePages (m.levels .stage1) (mmModeToFlags mmModeUnmappedMask) c.begin_ c.end_

variable {c : Constituent} {s : HypMemory m} {pool : Mpool} {f : Fragments}

/-- The addresses of a range are in the pages that are mapped for it. -/
theorem Writable.mapped {begin_ size : Nat} (writable : Writable m begin_ size)
    (below : begin_ < 2 ^ 64) {k : Nat} (bound : k < size) :
    (begin_ + k) % 2 ^ 56 < mmPtableAddrSpaceEnd (m.levels .stage1) ∧
    mmMapBegin begin_ ≤ (begin_ + k) % 2 ^ 56 ∧
      (begin_ + k) % 2 ^ 56 < mmMapEnd (m.levels .stage1) ((begin_ + size) % 2 ^ 64) := by
  have inside := writable.inside (by omega)
  have space : mmPtableAddrSpaceEnd (m.levels .stage1) ≤ 2 ^ 48 := (m.levels .stage1).space_le
  rw [mmMapBegin, archMmClearPa_eq, mmMapEnd, mmRoundUpToPage, mmRoundDownToPage]
  have target : (begin_ + k) % 2 ^ 56 = begin_ % 2 ^ 56 + k := by omega
  have wrap : (begin_ + size) % 2 ^ 64 = begin_ + size := by omega
  have up : (begin_ + size + (pageSize - 1)) % 2 ^ 64 = begin_ + size + (pageSize - 1) := by
    simp only [pageSize]
    omega
  simp only [pageSize]
  refine ⟨by omega, ?_, ?_⟩
  · omega
  · omega

/-- A range that has been mapped with a mode for writing takes stores. -/
theorem Writable.stores {begin_ size : Nat} {mode : Mode} {t t' : MmPtable (m.levels .stage1)}
    (writable : Writable m begin_ size) (below : begin_ < 2 ^ 64) (wf : t'.WellFormed)
    (update : ModeUpdate mode begin_ ((begin_ + size) % 2 ^ 64) t t')
    (forWriting : m.mappedAttrs .stage1 mode &&& pteValid ≠ 0 ∧
      m.mappedAttrs .stage1 mode &&& stage1Ap2 = 0) :
    ∀ k < size, ∃ pa, storeTarget t' (begin_ + k) = some pa := by
  intro k bound
  obtain ⟨inside, lower, upper⟩ := writable.mapped below bound
  have attrs := update _ inside
  rw [if_pos ⟨lower, upper⟩] at attrs
  exact ⟨_, storeTarget_of_attrs wf inside (attrs ▸ forWriting.1) (attrs ▸ forWriting.2)⟩

section Returns

variable (wf : s.stage1.WellFormed) (extra : Mode)
include wf

/-- Clearing a constituent succeeds. -/
theorem clearMemory_returns (clearable : c.Clearable m) (pages : c.clearPages m extra ≤ pool.freeCount) :
    ∃ s' pool', clearMemory s c.begin_ c.size pool extra = .ok (true, s', pool') ∧
      pool.freeCount ≤ pool'.freeCount + c.clearPages m extra := by
  have ends : c.end_ = (c.begin_ + c.size) % 2 ^ 64 := rfl
  simp only [Constituent.clearPages] at pages ⊢
  -- The mapping succeeds and its pages take stores.
  obtain ⟨r, mapped, ok, left⟩ := mmPtableIdentityUpdate_pages s.stage1 _
    (show 2 * mmPtableUpdatePages (m.levels .stage1) (mmModeToFlags (clearMode m extra))
      c.begin_ c.end_ ≤ pool.freeCount by omega)
  have mapped : stageIdentityMap s.stage1 c.begin_ c.end_ (clearMode m extra) pool = some r := mapped
  obtain ⟨r', same, rWf, update, -⟩ := stageIdentityMap_spec wf c.begin_ c.end_ _ pool
  cases mapped.symm.trans same
  have stores := clearable.stores c.address.isLt rWf (update ok) (clearMode_writable m extra)
  obtain ⟨bytes, set⟩ : ∃ bytes, memsetZero r.value c.begin_ s.bytes c.size = some bytes :=
    memsetZero_some_iff.mpr stores
  -- Unmapping it takes its own pages.
  obtain ⟨u, unmapped, -, rest⟩ := mmPtableIdentityUpdate_pages r.value _
    (show 2 * mmPtableUpdatePages (m.levels .stage1) (mmModeToFlags mmModeUnmappedMask)
      c.begin_ c.end_ ≤ r.state.freeCount by omega)
  have unmapped : stageIdentityMap r.value c.begin_ c.end_ mmModeUnmappedMask r.state = some u := unmapped
  refine ⟨⟨u.value, bytes⟩, u.state, ?_, by omega⟩
  simp only [clearMemory, mmIdentityMap, ← ends, mapped, ok, if_true, bind_ok_iff, Except.ok.injEq,
    exists_eq_left']
  rw [if_neg clearable.notNull]
  simp only [bind_ok_iff, memsetS_ok, unmapped]
  exact ⟨bytes, ⟨clearable.notNull, clearable.size_le, set⟩, _, rfl, rfl⟩

end Returns

/-- Clearing a list of constituents succeeds. -/
theorem clearConstituents_returns (extra : Mode) {l : List (Nat × Constituent)}
    (clearable : ∀ p ∈ l, p.2.Clearable m) (wf : s.stage1.WellFormed)
    (pages : (l.map fun p => p.2.clearPages m extra).sum ≤ pool.freeCount) :
    ∃ s' pool', clearConstituents extra l s pool = .ok (true, s', pool') := by
  induction l generalizing s pool with
  | nil => exact ⟨_, _, rfl⟩
  | cons p rest ih =>
    obtain ⟨i, c⟩ := p
    rw [List.forall_mem_cons] at clearable
    simp only [List.map_cons, List.sum_cons] at pages
    have clearOne : c.Clearable m := clearable.1
    obtain ⟨s₁, pool₁, one, left⟩ := clearMemory_returns wf extra clearOne
      (show c.clearPages m extra ≤ pool.freeCount by omega)
    obtain ⟨s', pool', others⟩ := ih clearable.2 (clearMemory_spec wf one).1
      (show _ ≤ pool₁.freeCount by omega)
    exact ⟨s', pool', by rw [clearConstituents, bind_ok_iff]; exact ⟨_, one, others⟩⟩

/-- A memory full of ones, in which any clearing that can succeed does and shows what it overwrote. -/
theorem ffaClearMemoryConstituents_observable (clearable : ∀ p ∈ f.clearList, p.2.Clearable m)
    (extra : Mode) :
    ∃ (s s' : HypMemory m) (pool pool' : Mpool), s.stage1.WellFormed ∧ s.bytes = (fun _ => 1) ∧
      ffaClearMemoryConstituents extra f s pool = .ok (true, s', pool') ∧
      ∀ addr, s'.bytes addr = if OverwrittenBy f.clearList addr then 0 else 1 := by
  let s : HypMemory m := ⟨⟨0, fun _ _ => .leaf archMmAbsentPte⟩, fun _ => 1⟩
  let pool : Mpool := [⟨[], [(0, (f.clearList.map fun p => p.2.clearPages m extra).sum)]⟩]
  have wf : s.stage1.WellFormed := fun _ _ _ _ => LeafFor.absent
  have enough : (f.clearList.map fun p => p.2.clearPages m extra).sum ≤
      (mpoolInitWithFallback pool).freeCount := by
    rw [freeCount_mpoolInitWithFallback]
    simp [pool, Mpool.freeCount, MpoolLevel.freeCount]
  obtain ⟨s₁, pool₁, visited⟩ := clearConstituents_returns extra clearable wf enough
  obtain ⟨s', pool', ran⟩ : ∃ s' pool', ffaClearMemoryConstituents extra f s pool = .ok (true, s',
      pool') := by
    simp only [ffaClearMemoryConstituents, bind_ok_iff]
    exact ⟨_, _, _, visited, rfl⟩
  exact ⟨s, s', pool, pool', wf, rfl, ran, ((ffaClearMemoryConstituents_spec wf ran).2 rfl).2⟩

/-! ## Regions that are cleared as a whole -/

/-- The bytes of a region: those of every page of every constituent of every fragment. -/
def Fragments.HasByte (f : Fragments) (addr : Nat) : Prop :=
  ∃ i < f.count, ∃ j < f.counts i, (f.constituents i j).address.toNat ≤ addr ∧
    addr < (f.constituents i j).address.toNat + (f.constituents i j).pageCount.toNat * pageSize

instance (f : Fragments) (addr : Nat) : Decidable (f.HasByte addr) :=
  inferInstanceAs (Decidable (∃ i < f.count, _))

/-- Whenever clearing succeeds, the region is zero and everything else as before. -/
def Fragments.Clears (f : Fragments) (m : MmConfig) : Prop :=
  ∀ (extra : Mode) (s s' : HypMemory m) (pool pool' : Mpool), s.stage1.WellFormed →
    ffaClearMemoryConstituents extra f s pool = .ok (true, s', pool') →
    ∀ addr, s'.bytes addr = if f.HasByte addr then 0 else s.bytes addr

/-- The inner loop reaches the constituents numbered `j`: no counter up to `j` is as large as the
count that it numbers itself. -/
def Fragments.Reaches (f : Fragments) (j : Nat) : Prop := j < 2 ^ 32 ∧ ∀ k ≤ j, k < f.counts k

/-- The constituents that the inner loop reaches, in every fragment, make up the region, unless one of
them stops clearing. -/
def Fragments.Visits (f : Fragments) (m : MmConfig) : Prop :=
  (∀ i < f.count, ∀ j, f.Reaches j → (f.constituents i j).Clearable m) →
    ∀ addr, (∃ i < f.count, ∃ j, f.Reaches j ∧
      Overwritten (f.constituents i j).begin_ (f.constituents i j).size addr) ↔ f.HasByte addr

/-- The inner loop stops at the first counter that is not below its own count. -/
theorem lt_clearStop_iff {counts : Nat → Nat} {fuel first j : Nat} :
    j < clearStop counts fuel first ↔ j < first + fuel ∧ ∀ k, first ≤ k → k ≤ j → k < counts k := by
  induction fuel generalizing first with
  | zero =>
    rw [clearStop]
    exact ⟨fun before => ⟨before, fun k lower upper => by omega⟩, fun reached => reached.1⟩
  | succ fuel ih =>
    rw [clearStop]
    split
    · next below =>
      rw [ih, show first + 1 + fuel = first + (fuel + 1) by omega]
      refine and_congr_right fun _ => ⟨fun before k lower upper => ?_,
        fun before k lower => before k (by omega)⟩
      rcases Nat.eq_or_lt_of_le lower with rfl | later
      · exact below
      · exact before k later upper
    · next stops =>
      constructor
      · intro before
        exact ⟨by omega, fun k lower upper => by omega⟩
      · rintro ⟨-, reached⟩
        by_contra after
        exact stops (reached first (Nat.le_refl _) (by omega))

theorem Fragments.lt_clearBound_iff {j : Nat} : j < f.clearBound ↔ f.Reaches j := by
  rw [clearBound, lt_clearStop_iff, Reaches, Nat.zero_add]
  exact and_congr_right fun _ => ⟨fun before k => before k (Nat.zero_le _), fun before k _ => before k⟩

/-- The visited constituents are those that the inner loop reaches. -/
theorem Fragments.mem_clearList {p : Nat × Constituent} :
    p ∈ f.clearList ↔ ∃ i < f.count, ∃ j, f.Reaches j ∧ (i, f.constituents i j) = p := by
  simp only [clearList, List.mem_flatMap, List.mem_range, List.mem_map, lt_clearBound_iff]

theorem Fragments.visits_iff : f.Visits m ↔
    ((∀ p ∈ f.clearList, p.2.Clearable m) → ∀ addr, OverwrittenBy f.clearList addr ↔ f.HasByte addr) := by
  have clearable : (∀ p ∈ f.clearList, p.2.Clearable m) ↔
      ∀ i < f.count, ∀ j, f.Reaches j → (f.constituents i j).Clearable m := by
    simp only [mem_clearList]
    exact ⟨fun all i bound j reached => all _ ⟨i, bound, j, reached, rfl⟩,
      fun all p ⟨i, bound, j, reached, is⟩ => is ▸ all i bound j reached⟩
  have written (addr : Nat) : OverwrittenBy f.clearList addr ↔ ∃ i < f.count, ∃ j, f.Reaches j ∧
      Overwritten (f.constituents i j).begin_ (f.constituents i j).size addr := by
    simp only [OverwrittenBy, mem_clearList]
    constructor
    · rintro ⟨p, ⟨i, bound, j, reached, rfl⟩, written⟩
      exact ⟨i, bound, j, reached, written⟩
    · rintro ⟨i, bound, j, reached, written⟩
      exact ⟨_, ⟨i, bound, j, reached, rfl⟩, written⟩
  simp only [Visits, clearable, written]

theorem Fragments.clears_of_visits (visits : f.Visits m) : f.Clears m := by
  intro extra s s' pool pool' wf ran addr
  obtain ⟨clearable, bytes⟩ := (ffaClearMemoryConstituents_spec wf ran).2 rfl
  simp only [bytes, visits_iff.mp visits clearable]

theorem Fragments.visits_of_clears (clears : f.Clears m) : f.Visits m := by
  rw [visits_iff]
  intro clearable addr
  obtain ⟨s, s', pool, pool', wf, ones, ran, bytes⟩ := ffaClearMemoryConstituents_observable clearable 0
  have byte := (bytes addr).symm.trans (clears 0 s s' pool pool' wf ran addr)
  rw [ones] at byte
  by_cases visited : OverwrittenBy f.clearList addr
  · by_cases wanted : f.HasByte addr
    · exact iff_of_true visited wanted
    · rw [if_pos visited, if_neg wanted] at byte
      cases byte
  · by_cases wanted : f.HasByte addr
    · rw [if_neg visited, if_pos wanted] at byte
      cases byte
    · exact iff_of_false visited wanted

/-- An update that cleared its region leaves it zero if the loops visit all of it. -/
theorem MemoryUpdate.zero {s' : HypMemory m} {ok : Prop} (update : MemoryUpdate f true s ok s') (success : ok)
    (visits : f.Visits m) {addr : Nat} (member : f.HasByte addr) : s'.bytes addr = 0 := by
  rw [update.cleared success addr, if_pos ⟨rfl,
    (Fragments.visits_iff.mp visits (update.clearable success rfl) addr).mpr member⟩]

/-- Clearing does what it should on exactly those fragment lists whose visited constituents make up
the region. On these, sending, relinquishing and reclaiming with the clear flag leave the region
zero. -/
theorem ffaClearMemoryConstituents_clears_iff (m : MmConfig) (f : Fragments) :
    (f.Clears m ↔ f.Visits m) ∧
      (f.Visits m → ∀ (vm : Vm m) (s : HypMemory m) (pool : Mpool) (r : UpdateResult m) (addr : Nat),
        s.stage1.WellFormed → r.ret = .ok () → f.HasByte addr →
        (∀ func receivers stored, ffaSendCheckUpdate vm f func receivers s pool true = .ok (stored, r) →
          r.memory.bytes addr = 0) ∧
        (ffaRelinquishCheckUpdate vm f s pool true = .ok r → r.memory.bytes addr = 0) ∧
        ∀ sender attributes, ffaRetrieveCheckUpdate vm sender f attributes .reclaim true s pool = .ok r →
          r.memory.bytes addr = 0) := by
  refine ⟨⟨Fragments.visits_of_clears, Fragments.clears_of_visits⟩,
    fun visits vm s pool r addr wf success member => ⟨?_, ?_, ?_⟩⟩
  · intro func receivers stored returned
    exact (ffaSendCheckUpdate_memory wf _ returned).zero success visits member
  · intro returned
    exact (ffaRelinquishCheckUpdate_memory wf _ returned).zero success visits member
  · intro sender attributes returned
    exact (ffaRetrieveCheckUpdate_memory wf _ returned).zero success visits member

/-- A fragment of two pages, of which only the first one is cleared. -/
theorem ffaClearMemoryConstituents_skips_second_page :
    let m := smallConfig
    let f : Fragments := ⟨fun _ j => ⟨BitVec.ofNat 64 (0x1000 * (j + 1)), 1⟩,
      fun i => if i = 0 then 2 else 0, 1, fun _ => 0⟩
    f.HasByte 0x2000 ∧ ∃ (s s' : HypMemory m) (pool pool' : Mpool), s.stage1.WellFormed ∧
      ffaClearMemoryConstituents 0 f s pool = .ok (true, s', pool') ∧ s'.bytes 0x2000 = 1 := by
  intro m f
  have visited : f.clearList = [(0, ⟨0x1000, 1⟩)] := by
    rfl
  have clearable : ∀ p ∈ f.clearList, p.2.Clearable m := by
    intro p member
    rw [List.mem_singleton.mp member]
    exact ⟨by decide, by decide, fun _ => by decide⟩
  obtain ⟨s, s', pool, pool', wf, -, returned, bytes⟩ := ffaClearMemoryConstituents_observable clearable 0
  refine ⟨by decide, s, s', pool, pool', wf, returned, ?_⟩
  rw [bytes, if_neg]
  rw [visited]
  rintro ⟨p, member, k, kBound, target⟩
  rw [List.mem_singleton.mp member] at kBound target
  simp only [Constituent.begin_] at target
  have size : (⟨0x1000, 1⟩ : Constituent).size = 4096 := by decide
  have begins : (0x1000 : BitVec 64).toNat = 0x1000 := rfl
  rw [size] at kBound
  omega

end Hafnium.Ffa
