import Hafnium.Ffa.Update

/-! # What checked updates do to an address space

A checked update that succeeds has given the pages of its region one new mode and changed no other
page. One that fails has changed nothing, except that a roll-back writes one and the same old mode
to the whole region.
-/

namespace Hafnium.Ffa

open Mm Partial

variable {f : Fragments} {addr : Nat} {sender : VmId} {func : ShareFunc}
  {m : MmConfig} {vm : Vm m} {s : HypMemory m} {pool : Mpool}

/-- The address space of a partition after its region got a new mode. -/
def Vm.mapped (vm : Vm m) (f : Fragments) (mode : Mode) : Nat → PteBits :=
  regionView f.list (vm.mappedAttrs (vm.mapMode mode)) vm.attrsAt

variable {attributes fromMode mode origMode : Mode} {clear : Bool} {receivers : List MemoryAccess}

theorem Vm.mapped_of_covers (covers : f.Covers addr) :
    vm.mapped f mode addr = vm.mappedAttrs (vm.mapMode mode) := if_pos covers

theorem Vm.mapped_of_not_covers (outside : ¬f.Covers addr) :
    vm.mapped f mode addr = vm.attrsAt addr := if_neg outside

/-- Every constituent of a region that the mode query accepted has some mode. -/
theorem constituentsGetMode_each (success : constituentsGetMode vm f = .ok mode) :
    ∀ p ∈ f.list, ∃ own, vm.ModeOf p.2 own := by
  obtain ⟨-, -, first, -, later⟩ := constituentsGetMode_iff.mp success
  intro p member
  obtain ⟨i, iBound, j, jBound, rfl⟩ := Fragments.mem_list.mp member
  rcases Nat.eq_zero_or_pos i with rfl | positive
  · exact first j jBound
  · exact ⟨mode, later i iBound positive j jBound⟩

/-- The pages of a region that the mode query accepted lie in the address space. -/
theorem constituentsGetMode_within (success : constituentsGetMode vm f = .ok mode) :
    ∀ p ∈ f.list, p.2.Within vm.spaceEnd := by
  intro p member
  obtain ⟨own, attrs, attrsOf, -⟩ := constituentsGetMode_each success p member
  exact attrsOf.within

theorem Fragments.Covers.lt {limit : Nat} (covers : f.Covers addr) (within : ∀ p ∈ f.list, p.2.Within limit) :
    addr < limit := by
  obtain ⟨p, member, lower, upper⟩ := covers
  have := (within p member).inside
  omega

theorem constituentsGetMode_covers_lt (found : constituentsGetMode vm f = .ok mode)
    (covers : f.Covers addr) : addr < vm.spaceEnd := covers.lt (constituentsGetMode_within found)

/-- Some address of a region has the mode that is read from it. -/
theorem constituentsGetMode_covers (found : constituentsGetMode vm f = .ok mode) :
    ∃ addr, f.Covers addr ∧ vm.modeAt addr = mode := by
  obtain ⟨some, counted, -, ⟨attrs, attrsOf, rfl⟩, -⟩ := constituentsGetMode_iff.mp found
  have nonempty := attrsOf.within.nonempty
  have covers : (f.constituents 0 (f.counts 0 - 1)).Covers
      (f.constituents 0 (f.counts 0 - 1)).begin_ := ⟨le_rfl, by omega⟩
  exact ⟨_, ⟨_, Fragments.mem_list.mpr ⟨0, some, f.counts 0 - 1, by omega, rfl⟩, covers⟩,
    Vm.attrsOf_modeAt attrsOf covers⟩

/-- The mode that is read from a region is the mode of all its addresses. -/
def Uniform (vm : Vm m) (f : Fragments) : Prop :=
  ∀ mode, constituentsGetMode vm f = .ok mode → ∀ addr, f.Covers addr → vm.modeAt addr = mode

/-- A region of one constituent has one mode. -/
theorem uniform_of_single {vm : Vm m} (count : f.count = 1) (counts : f.counts 0 = 1) : Uniform vm f := by
  intro mode found addr covers
  obtain ⟨-, -, -, ⟨attrs, attrsOf, rfl⟩, -⟩ := constituentsGetMode_iff.mp found
  obtain ⟨p, member, inside⟩ := covers
  obtain ⟨i, iBound, j, jBound, rfl⟩ := Fragments.mem_list.mp member
  obtain rfl : i = 0 := by omega
  obtain rfl : j = f.counts 0 - 1 := by omega
  exact Vm.attrsOf_modeAt attrsOf inside

/-- A commit to a partition that differs from `vm` in the region at most. -/
theorem commitRegion_becomes {vm₁ vm' : Vm m} {view : Nat → PteBits} {pool' : Mpool}
    (before : vm.Becomes view vm₁) (outside : ∀ addr, ¬f.Covers addr → view addr = vm.attrsAt addr)
    (within : ∀ p ∈ f.list, p.2.Within vm.spaceEnd) (ran : commitRegion vm₁ f mode pool = .ok (vm', pool')) :
    vm.Becomes (vm.mapped f mode) vm' := by
  obtain ⟨r, mapped, ran⟩ := bind_ok_iff.mp ran
  split at ran
  · next ok =>
    cases ran
    have committed : vm₁.Becomes (vm₁.mapped f mode) r.value :=
      (regionIdentityMap_commit before.wellFormed (before.spaceEnd_eq ▸ within) mapped).2 ok
    refine (before.trans committed).congr fun addr inside => ?_
    by_cases covers : f.Covers addr
    · rw [Vm.mapped_of_covers covers, Vm.mapped_of_covers covers, Vm.mappedAttrs, Vm.mappedAttrs,
        before.stage_eq, before.mapMode_eq]
    · rw [Vm.mapped_of_not_covers covers, Vm.mapped_of_not_covers covers, before.attrsAt_eq inside,
        outside addr covers]
  · cases ran

/-- Preparing a region returns and changes no address. -/
theorem prepareRegion_spec (wf : vm.WellFormed) (mode : Mode) (pool : Mpool) :
    ∃ r, ffaRegionGroupIdentityMap vm f mode pool false = .ok r ∧ vm.Becomes vm.attrsAt r.value ∧
      (r.ok = true → (∀ p ∈ f.list, p.2.InPaRange m) ∧
      ∀ p ∈ f.list, r.value.PreparedFor (vm.mapMode mode) p.2) := by
  obtain ⟨r, ran, becomes, -, prepared⟩ := regionIdentityMap_prepare wf pool
  exact ⟨r, ran, becomes, fun ok => ⟨fun p member => (prepared ok p member).1,
    fun p member => (prepared ok p member).2⟩⟩

theorem finishUpdate_becomes {view : Nat → PteBits} {vm' : Vm m} (becomes : vm.Becomes view vm')
    (ret : Except FfaError Unit) (s : HypMemory m) (pool : Mpool) :
    vm.Becomes view (finishUpdate ret vm' s pool).vm :=
  becomes.kept (vmPtableDefrag_becomes becomes.wellFormed pool)

/-- A region is taken away, and then it cannot be cleared. -/
def ClearingFails (vm : Vm m) (f : Fragments) (fromMode : Mode) (s : HypMemory m) (pool : Mpool)
    (clear : Bool) : Prop :=
  ∃ prepared vm₁ own s₁ pool₁,
    ffaRegionGroupIdentityMap vm f fromMode pool false = .ok prepared ∧ prepared.ok = true ∧
    commitRegion prepared.value f fromMode (mpoolInitWithFallback prepared.state) = .ok (vm₁, own) ∧
    clearRegion vm₁.id f clear s own.tail = .ok (false, s₁, pool₁)

/-- The three outcomes of taking a region away. -/
inductive Demoted (vm : Vm m) (f : Fragments) (origMode fromMode : Mode) (s : HypMemory m)
    (pool : Mpool) (clear : Bool) (r : UpdateResult m) : Prop
  | done (ret : r.ret = .ok ()) (range : ∀ p ∈ f.list, p.2.InPaRange m)
      (becomes : vm.Becomes (vm.mapped f fromMode) r.vm)
  | failed (ret : r.ret = .error .noMemory) (becomes : vm.Becomes vm.attrsAt r.vm)
      (path : ¬ClearingFails vm f fromMode s pool clear)
  | rolledBack (ret : r.ret = .error .noMemory) (cleared : clear = true)
      (becomes : vm.Becomes (vm.mapped f origMode) r.vm)
      (path : ClearingFails vm f fromMode s pool clear)

theorem demoteRegion_spec (wf : vm.WellFormed) (within : ∀ p ∈ f.list, p.2.Within vm.spaceEnd) :
    Post (demoteRegion vm f origMode fromMode s pool clear)
    (Demoted vm f origMode fromMode s pool clear) := by
  obtain ⟨prepared, prepare, same, ready⟩ := prepareRegion_spec (f := f) wf fromMode pool
  rw [demoteRegion, prepare]
  refine .ite (fun ok => .step fun ⟨vm₁, pool₁⟩ commit => .step fun ⟨cleared, s₁, pool₂⟩ clearing => ?_)
    fun unprepared => .ok (.failed rfl (finishUpdate_becomes same _ _ _) ?_)
  rotate_left
  · rintro ⟨other, -, -, -, -, prepare', ok, -⟩
    cases prepare.symm.trans prepare'
    exact unprepared ok
  have becomes := commitRegion_becomes same (fun _ _ => rfl) within commit
  refine .ite (fun _ => .ok ?_) fun notCleared => .step fun ⟨vm₂, pool₃⟩ rollback => .ok ?_
  · exact .done rfl (ready ok).1 (finishUpdate_becomes becomes _ _ _)
  · have rolled := commitRegion_becomes becomes (fun _ => Vm.mapped_of_not_covers) within rollback
    have wanted : clear = true := by
      by_contra notWanted
      simp only [clearRegion, notWanted, if_false, Except.ok.injEq, Prod.mk.injEq] at clearing
      exact notCleared (clearing.1 ▸ rfl)
    refine .rolledBack rfl wanted (finishUpdate_becomes rolled _ _ _) ⟨prepared, vm₁, pool₁, s₁,
      pool₂, prepare, ok, commit, ?_⟩
    rwa [Bool.eq_false_iff.mpr notCleared] at clearing

/-! ## Retrieving and reclaiming -/

/-- The modes from which a region may be mapped. -/
def MapFunc.Accepts (func : MapFunc) (origMode : Mode) : Prop :=
  match func with
  | .reclaim => origMode &&& stateMask ≠ 0
  | .retrieve _ => origMode &&& mmModeUnmappedMask = mmModeUnmappedMask

/-- The outcomes of mapping a region into a partition. -/
inductive Promoted (vm : Vm m) (f : Fragments) (func : MapFunc) (toMode : Mode) (r : UpdateResult m) : Prop
  | done {origMode : Mode} (found : constituentsGetMode vm f = .ok origMode)
      (accepted : func.Accepts origMode)
      (ret : r.ret = .ok ()) (becomes : vm.Becomes (vm.mapped f toMode) r.vm)
  | failed {e : FfaError} (ret : r.ret = .error e) (becomes : vm.Becomes vm.attrsAt r.vm)

theorem ffaRetrieveCheckTransition_ok {func : MapFunc} :
    Post (ffaRetrieveCheckTransition vm func f attributes) fun r => ∀ toMode, r = .ok toMode →
      toMode = attributes ||| func.state ∧ ∃ origMode, constituentsGetMode vm f = .ok origMode ∧
      func.Accepts origMode := by
  rw [ffaRetrieveCheckTransition]
  split
  · exact .ok nofun
  next origMode found =>
  cases func with
  | reclaim =>
    refine .ite (fun _ => .error) fun away => .ok ?_
    rintro _ ⟨⟩
    exact ⟨rfl, origMode, found, away⟩
  | retrieve func =>
    refine .guard nofun fun unmapped => .ok ?_
    rintro _ ⟨⟩
    exact ⟨rfl, origMode, found, not_not.mp unmapped⟩

theorem ffaRetrieveCheckUpdate_spec {func : MapFunc} (wf : vm.WellFormed) :
    Post (ffaRetrieveCheckUpdate vm sender f attributes func clear s pool)
    (Promoted vm f func (attributes ||| func.state)) := by
  refine .ite (fun _ => .step fun transition checked => ?_) fun _ => .ok (.failed rfl (.refl wf))
  split
  · exact .ok (.failed rfl (.refl wf))
  obtain ⟨rfl, origMode, found, accepted⟩ := ffaRetrieveCheckTransition_ok _ checked _ rfl
  obtain ⟨prepared, prepare, same, -⟩ := prepareRegion_spec (f := f) wf _ pool
  have failed {e : FfaError} (s : HypMemory m) (pool : Mpool) : Promoted vm f func (attributes ||| func.state)
      (finishUpdate (.error e) prepared.value s pool) := .failed rfl (finishUpdate_becomes same _ _ _)
  rw [prepare]
  refine .ite (fun _ => .step fun _ _ => .ite (fun _ => .step fun _ commit => .ok ?_)
    fun _ => .ok (failed _ _)) fun _ => .ok (failed _ _)
  have becomes := commitRegion_becomes same (fun _ _ => rfl) (constituentsGetMode_within found) commit
  exact .done found accepted rfl (finishUpdate_becomes becomes _ _ _)

/-! ## Sending and relinquishing -/

theorem ffaSendCheckTransition_ok :
    Post (ffaSendCheckTransition vm func receivers f) fun r =>
      ∀ origMode fromMode, r = .ok (origMode, fromMode) →
      constituentsGetMode vm f = .ok origMode ∧ origMode &&& mmModeD = 0 ∧ origMode &&& stateMask = 0 ∧
        sendCheckReceivers origMode receivers = .ok (.ok ()) ∧ fromMode = sentMode func origMode := by
  rw [ffaSendCheckTransition]
  split
  · exact .ok nofun
  next mode found =>
  refine .guard nofun fun notDevice => .guard nofun fun exclusive => .step fun allowed receiversOk => ?_
  cases allowed with
  | error e => exact .ok nofun
  | ok _ =>
    refine .ok ?_
    rintro _ _ ⟨⟩
    exact ⟨found, not_not.mp notDevice, not_not.mp exclusive, receiversOk, rfl⟩

/-- The outcomes of sending a region: a refused one changes nothing at all. -/
inductive Sent (vm : Vm m) (f : Fragments) (func : ShareFunc) (receivers : List MemoryAccess)
    (s : HypMemory m) (pool : Mpool) (clear : Bool) (stored : Option Mode) (r : UpdateResult m) :
    Prop
  | refused {e : FfaError} (ret : r.ret = .error e) (unchanged : r.vm = vm)
      (path : f.aligned = true → ∀ modes, ffaSendCheckTransition vm func receivers f ≠ .ok (.ok modes))
  | checked {origMode : Mode} (stored : stored = some origMode) (aligned : f.aligned = true)
      (found : constituentsGetMode vm f = .ok origMode) (notDevice : origMode &&& mmModeD = 0)
      (exclusive : origMode &&& stateMask = 0)
        (allowed : sendCheckReceivers origMode receivers = .ok (.ok ()))
      (demoted : Demoted vm f origMode (sentMode func origMode) s pool clear r)
      (path : ffaSendCheckTransition vm func receivers f = .ok (.ok (origMode, sentMode func origMode)))

theorem ffaSendCheckUpdate_spec (wf : vm.WellFormed) :
    Post (ffaSendCheckUpdate vm f func receivers s pool clear) fun r =>
      Sent vm f func receivers s pool clear r.1 r.2 := by
  refine .ite (fun aligned => .step fun transition checked => ?_) fun unaligned =>
    .ok (.refused rfl rfl fun aligned =>
    absurd aligned unaligned)
  split
  · refine .ok (.refused rfl rfl fun _ modes passed => ?_)
    cases checked.symm.trans passed
  · obtain ⟨found, notDevice, exclusive, allowed, rfl⟩ := ffaSendCheckTransition_ok _ checked _ _ rfl
    refine .bind (demoteRegion_spec wf (constituentsGetMode_within found)) fun _ demoted => .ok ?_
    exact .checked rfl aligned found notDevice exclusive allowed demoted checked

/-- The outcomes of relinquishing a region. -/
inductive Relinquished (vm : Vm m) (f : Fragments) (s : HypMemory m) (pool : Mpool) (clear : Bool)
    (r : UpdateResult m) : Prop
  | refused {e : FfaError} (ret : r.ret = .error e) (unchanged : r.vm = vm)
      (path : ∀ modes, ffaRelinquishCheckTransition vm f ≠ .ok modes)
  | checked {origMode : Mode} (found : constituentsGetMode vm f = .ok origMode)
      (notDevice : origMode &&& mmModeD = 0)
      (borrowed : origMode &&& stateMask &&& ~~~mmModeShared = mmModeUnowned)
      (demoted : Demoted vm f origMode (relinquishedMode origMode) s pool clear r)
      (path : ffaRelinquishCheckTransition vm f = .ok (origMode, relinquishedMode origMode))

theorem ffaRelinquishCheckTransition_ok
    (checked : ffaRelinquishCheckTransition vm f = .ok (origMode, fromMode)) :
    constituentsGetMode vm f = .ok origMode ∧ origMode &&& mmModeD = 0 ∧
      origMode &&& stateMask &&& ~~~mmModeShared = mmModeUnowned ∧ fromMode = relinquishedMode origMode := by
  rw [ffaRelinquishCheckTransition] at checked
  split at checked
  · cases checked
  next mode found =>
  split at checked
  · cases checked
  next notDevice =>
  split at checked
  · cases checked
  next borrowed =>
  cases checked
  exact ⟨found, not_not.mp notDevice, not_not.mp borrowed, rfl⟩

theorem ffaRelinquishCheckUpdate_spec (wf : vm.WellFormed) :
    Post (ffaRelinquishCheckUpdate vm f s pool clear) (Relinquished vm f s pool clear) := by
  rw [ffaRelinquishCheckUpdate]
  split
  · next refused => exact .ok (.refused rfl rfl fun modes passed => by cases refused.symm.trans passed)
  next origMode fromMode checked =>
  obtain ⟨found, device, borrowed, rfl⟩ := ffaRelinquishCheckTransition_ok checked
  exact fun _ ran => .checked found device borrowed
    (demoteRegion_spec wf (constituentsGetMode_within found) _ ran) checked

/-! ## Memory contents -/

/-- The memory after a region was cleared, if it was to be. -/
def ClearedTo (f : Fragments) (clear : Bool) (s s' : HypMemory m) : Prop :=
  ∀ addr, s'.bytes addr = if clear = true ∧ OverwrittenBy f.clearList addr then 0 else s.bytes addr

/-- The hypervisor's tables stay well formed; on success the memory is cleared as asked. -/
structure MemoryUpdate (f : Fragments) (clear : Bool) (s : HypMemory m) (ok : Prop)
    (s' : HypMemory m) : Prop where
  wellFormed : s'.stage1.WellFormed
  clearable : ok → clear = true → ∀ p ∈ f.clearList, p.2.Clearable m
  cleared : ok → ClearedTo f clear s s'

/-- A failed update says nothing about the contents. -/
theorem MemoryUpdate.failed {s s' : HypMemory m} {e : FfaError} (wf : s'.stage1.WellFormed) :
    MemoryUpdate f clear s ((.error e : Except FfaError Unit) = .ok ()) s' :=
  ⟨wf, nofun, nofun⟩

theorem clearRegion_memory {owner : VmId} (wf : s.stage1.WellFormed) :
    Post (clearRegion owner f clear s pool) fun r => MemoryUpdate f clear s (r.1 = true) r.2.1 := by
  rintro ⟨ok, s', pool'⟩ ran
  cases clear with
  | true =>
    obtain ⟨wf', success⟩ := ffaClearMemoryConstituents_spec wf ran
    exact ⟨wf', fun done _ => (success done).1, fun done addr => by simpa using (success done).2 addr⟩
  | false =>
    cases ran
    exact ⟨wf, nofun, fun _ addr => by simp⟩

theorem demoteRegion_memory (wf : s.stage1.WellFormed) :
    Post (demoteRegion vm f origMode fromMode s pool clear) fun r =>
      MemoryUpdate f clear s (r.ret = .ok ()) r.memory := by
  refine .step fun _ _ => .ite (fun _ => .step fun _ _ => .bind (clearRegion_memory wf)
    fun _ memory => ?_) fun _ => .ok (.failed wf)
  refine .ite (fun done => .ok ?_) fun _ => .step fun _ _ => .ok (.failed memory.wellFormed)
  exact ⟨memory.wellFormed, fun _ => memory.clearable done, fun _ => memory.cleared done⟩

theorem ffaSendCheckUpdate_memory (wf : s.stage1.WellFormed) :
    Post (ffaSendCheckUpdate vm f func receivers s pool clear) fun r =>
      MemoryUpdate f clear s (r.2.ret = .ok ()) r.2.memory := by
  refine .ite (fun _ => .step fun transition _ => ?_) fun _ => .ok (.failed wf)
  split
  · exact .ok (.failed wf)
  · exact .bind (demoteRegion_memory wf) fun _ memory => .ok memory

theorem ffaRelinquishCheckUpdate_memory (wf : s.stage1.WellFormed) :
    Post (ffaRelinquishCheckUpdate vm f s pool clear) fun r =>
      MemoryUpdate f clear s (r.ret = .ok ()) r.memory := by
  rw [ffaRelinquishCheckUpdate]
  split
  · exact .ok (.failed wf)
  · exact demoteRegion_memory wf

theorem ffaRetrieveCheckUpdate_memory {func : MapFunc} (wf : s.stage1.WellFormed) :
    Post (ffaRetrieveCheckUpdate vm sender f attributes func clear s pool) fun r =>
      MemoryUpdate f clear s (r.ret = .ok ()) r.memory := by
  refine .ite (fun _ => .step fun transition _ => ?_) fun _ => .ok (.failed wf)
  split
  · exact .ok (.failed wf)
  refine .step fun _ _ => .ite (fun _ => .bind (clearRegion_memory wf) fun _ memory => ?_) fun _ =>
    .ok (.failed wf)
  refine .ite (fun done => .step fun _ _ => .ok ?_) fun _ => .ok (.failed memory.wellFormed)
  exact ⟨memory.wellFormed, fun _ => memory.clearable done, fun _ => memory.cleared done⟩

end Hafnium.Ffa
