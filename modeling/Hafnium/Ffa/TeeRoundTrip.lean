import Hafnium.Ffa.Atomicity

/-! # Memory that comes back from the TEE

The mode that a region had before it was lent to or shared with the TEE is not stored anywhere:
reclaiming maps the region readable, writable and executable. That is the old mode if and only if it
was ordinary memory.
-/

namespace Hafnium.Ffa

open Mm Partial

variable {m : MmConfig}

/-- A partition has lent a region to the TEE or shares it with the TEE, and was told so. -/
inductive TeeSent (vm : Vm m) (f : Fragments) : Prop
  | whole {tee vm' tee' : Vm m} {page : PageNumber} {region : MemoryRegion}
      {memoryShareLength fragmentLength : BitVec 32}
      {func : ShareFunc} {answers : List TeeAnswer} {s s' : Sharing m} {ret : FfaValue}
        (kept : func ≠ .donate)
      (returned : ffaMemoryTeeSend vm tee page region memoryShareLength fragmentLength func answers
        s = .ok (ret, vm', tee', s'))
      (success : ret.func = ffaSuccess32) (described : f = teeFragments region)
  | continued {tee vm' tee' : Vm m} {page : PageNumber} {fragment : Bytes}
      {fragmentLength : BitVec 32} {handle : Handle}
      {answers : List TeeAnswer} {s s' : Sharing m} {ret : FfaValue} {i : Fin maxMemShares}
        {state : ShareState}
      (lookup : getShareState m s.shareStates handle = some (i, state)) (kept : state.shareFunc ≠ .donate)
      (returned : ffaMemoryTeeSendContinue vm tee page fragment fragmentLength handle answers s =
        .ok (ret, vm', tee', s'))
      (success : ret.func = ffaSuccess32)
        (described : f = (state.addFragment page fragment fragmentLength).fragments)

variable {answers : List TeeAnswer} {ret : FfaValue} {handle : Handle} {region : MemoryRegion}

section Sent

variable {vm vm' tee tee' : Vm m} {s s' : Sharing m} {fragmentLength : BitVec 32}
  {value : FfaValue} {page : PageNumber}

theorem teeSendAnswer_notSuccess (refused : teeSendAnswer vm fragmentLength value = .error ret) :
    ret.func ≠ ffaSuccess32 := by
  rw [teeSendAnswer] at refused
  split at refused
  · next error =>
    cases refused
    rw [error]
    decide
  · split at refused
    · cases refused
      exact ffaError_func _
    · split at refused
      · cases refused
        exact ffaError_func _
      · split at refused
        · cases refused
          exact ffaError_func _
        · cases refused

theorem teeSendAnswer_fragRx (accepted : teeSendAnswer vm fragmentLength value = .ok handle) :
    value.func = ffaMemFragRx32 := by
  rw [teeSendAnswer] at accepted
  split at accepted
  · cases accepted
  · split at accepted
    · cases accepted
    · next asks => exact not_not.mp asks

theorem ffaMemFragRx32_notSuccess : ffaMemFragRx32 ≠ ffaSuccess32 := by decide

theorem ffaMemoryTeeSend_sendable {memoryShareLength : BitVec 32} {func : ShareFunc} (wf : vm.WellFormed) :
    Post (ffaMemoryTeeSend vm tee page region memoryShareLength fragmentLength func answers s) fun r =>
      r.1.func = ffaSuccess32 → ∃ receivers mode, Sendable vm (teeFragments region) receivers mode := by
  refine .step fun validated validation => ?_
  split
  · exact .ok fun success => absurd success (ffaError_func _)
  refine .ite (fun _ => ?_) fun _ => .step fun ⟨answer, rest⟩ _ => ?_
  · rw [← (ffaMemorySendValidate_ok validation).teeFragments_eq, teeSendWhole, bind_assoc]
    refine .step fun _ _ => ?_
    rw [bind_assoc]
    refine .bind (ffaSendCheckUpdate_spec wf) fun ⟨stored, r⟩ outcome => ?_
    cases outcome with
    | refused result unchanged =>
      dsimp only at result ⊢
      rw [result]
      exact .ok fun success => absurd success (ffaError_func _)
    | checked kept aligned found notDevice exclusive allowed demoted =>
      exact fun _ _ _ => ⟨_, _, ⟨aligned, found, notDevice, exclusive, allowed⟩⟩
  · -- The first of several fragments is answered with a request for the next one.
    dsimp only
    split
    · next refused => exact .ok fun success => absurd success (teeSendAnswer_notSuccess refused)
    next accepted =>
    refine .step fun slot _ => ?_
    split
    · exact .ok fun success => absurd success (ffaError_func _)
    · refine .ok fun success => ?_
      rw [teeSendAnswer_fragRx accepted] at success
      exact absurd success ffaMemFragRx32_notSuccess

theorem ffaMemoryTeeSendContinue_sendable {fragment : Bytes} {i : Fin maxMemShares}
    {state : ShareState} (wf : vm.WellFormed)
    (lookup : getShareState m s.shareStates handle = some (i, state)) :
    Post (ffaMemoryTeeSendContinue vm tee page fragment fragmentLength handle answers s) fun r =>
      r.1.func = ffaSuccess32 →
        ∃ receivers mode, Sendable vm (state.addFragment page fragment fragmentLength).fragments
          receivers mode := by
  rw [ffaMemoryTeeSendContinue]
  split
  · exact .ok fun success => absurd success (ffaError_func _)
  next i' state' s₁ validation =>
  obtain ⟨rfl, lookup', -⟩ := ffaMemorySendContinueValidate_ok validation
  cases lookup.symm.trans lookup'
  refine .guard (fun success => absurd success (ffaError_func _)) fun _ =>
    .ite (fun _ => .step fun _ _ => .ok ?_) fun _ => ?_
  · exact fun success => absurd success ffaMemFragRx32_notSuccess
  refine .step fun complete _ => .ite (fun _ => ?_) fun _ => ?_
  · refine .bind (ffaMemorySendComplete_spec wf) ?_
    rintro ⟨ret₁, mode, vm₁, s₁⟩ completed
    refine .step fun _ _ => ?_
    cases completed with
    | failed failure =>
      dsimp only at failure ⊢
      rw [failure, if_neg (ffaError_func _)]
      exact .ok fun success => absurd success (ffaError_func _)
    | sent _ sendable => exact fun _ _ _ => ⟨_, _, sendable⟩
  · refine .step fun _ _ => .step fun _ _ => .ite (fun _ => .ok ?_) fun _ => .ok ?_
    · exact fun success => absurd success (ffaError_func _)
    · exact fun success => absurd success ffaMemFragRx32_notSuccess

theorem TeeSent.sendable {f : Fragments} (sent : TeeSent vm f) (wf : vm.WellFormed) :
    ∃ receivers mode, Sendable vm f receivers mode := by
  cases sent with
  | whole _ ran success described => exact described ▸ ffaMemoryTeeSend_sendable wf _ ran success
  | continued lookup _ ran success described =>
    exact described ▸ ffaMemoryTeeSendContinue_sendable wf lookup _ ran success

end Sent

/-- The mode that a page has after it was reclaimed from the TEE. -/
def Vm.teeReclaimedMode (vm : Vm m) : Mode :=
  m.attrsToMode vm.stage (m.modeToAttrs vm.stage (vm.mapMode (mmModeR ||| mmModeW ||| mmModeX)))

/-- A page is mapped in this mode. -/
def Vm.HasPage (vm : Vm m) (mode : Mode) (addr : Nat) : Prop :=
  (vm.ptable.lookup addr).map Prod.fst = some addr ∧ vm.modeAt addr = mode

section Reclaim

variable {vm vm' tee : Vm m} {buffer : Bytes} {s s' : Sharing m}

/-- A partition whose memory is translated by stage 2 only has ordinary memory in this mode. -/
theorem teeReclaimedMode_of_stage2 (el1 : vm.el0Partition = false) :
    vm.teeReclaimedMode = mmModeR ||| mmModeW ||| mmModeX := by
  have stage2 : vm.stage = .stage2 := by simp [Vm.stage, vmStage, el1]
  rw [Vm.teeReclaimedMode, stage2, Vm.mapMode, el1, if_neg Bool.false_ne_true]
  change archMmStage2AttrsToMode (archMmModeToStage2Attrs (mmModeR ||| mmModeW ||| mmModeX)) = _
  decide

theorem teeMode_mapped (vm : Vm m) : ¬(vm.mapMode (mmModeR ||| mmModeW ||| mmModeX)).IsUnmapped := by
  rw [Vm.mapMode]
  split <;> decide

/-- What a successful reclaim leaves. -/
theorem ffaMemoryTeeReclaim_pages (wf : vm.WellFormed)
    (ran : ffaMemoryTeeReclaim vm tee handle answers buffer s = .ok (ret, vm', s'))
    (success : ret.func = ffaSuccess32) {rest : List TeeAnswer}
    (description : teeReclaimRegion vm tee handle answers buffer = .ok (.ok region, rest))
    {addr : Nat} (covers : (teeReturned region).Covers addr) :
    vm'.HasPage vm.teeReclaimedMode addr := by
  simp only [ffaMemoryTeeReclaim, bind_ok_iff] at ran
  obtain ⟨fetched, described, ran⟩ := ran
  rw [description, Except.ok.injEq] at described
  subst described
  obtain ⟨composite, -, ran⟩ := bind_ok_iff.mp ran
  obtain ⟨⟨ret₁, vm₁, pool₁⟩, update, ⟨⟩⟩ := bind_ok_iff.mp ran
  cases ffaTeeReclaimCheckUpdate_spec wf _ update with
  | failed failure => exact absurd success failure
  | done _ found accepted becomes =>
    have inside := constituentsGetMode_covers_lt found covers
    have attrs : vm₁.attrsAt addr = m.modeToAttrs vm.stage
        (vm.mapMode (mmModeR ||| mmModeW ||| mmModeX)) := by
      rw [becomes.attrsAt_eq inside, Vm.mapped_of_covers covers, Vm.mappedAttrs, MmConfig.mappedAttrs]
      exact if_neg (teeMode_mapped vm)
    refine ⟨?_, ?_⟩
    · rw [lookup_fst becomes.wellFormed (becomes.spaceEnd_eq ▸ inside), attrs, if_neg]
      exact (attrsFor_modeToAttrs m vm.stage _ (decide_eq_false (teeMode_mapped vm))).ne_zero
    · rw [Vm.modeAt, becomes.stage_eq, attrs]
      rfl

/-- A region that was lent to or shared with the TEE in one mode has this mode again after it was
reclaimed, with the description of the region as it was sent, if and only if it is the mode in which
reclaiming maps. -/
theorem teeReclaim_restores_iff {f : Fragments} {mode : Mode} (wf : vm.WellFormed)
    (sent : TeeSent vm f) (uniform : ∀ addr, f.Covers addr → vm.modeAt addr = mode)
    {later later' : Vm m} (laterWf : later.WellFormed)
    (same : later.id = vm.id ∧ later.el0Partition = vm.el0Partition)
    (returned : ffaMemoryTeeReclaim later tee handle answers buffer s = .ok (ret, later', s'))
    (success : ret.func = ffaSuccess32) {region : MemoryRegion} {rest : List TeeAnswer}
    (description : teeReclaimRegion later tee handle answers buffer = .ok (.ok region, rest))
    (constituents : (teeReturned region).list.map Prod.snd = f.list.map Prod.snd) :
    ((∀ addr, f.Covers addr → later'.HasPage mode addr) ↔ mode = vm.teeReclaimedMode) ∧
      (vm.el0Partition = false → vm.teeReclaimedMode = mmModeR ||| mmModeW ||| mmModeX) := by
  refine ⟨?_, teeReclaimedMode_of_stage2⟩
  obtain ⟨receivers, read, sendable⟩ := sent.sendable wf
  obtain ⟨first, covers, -⟩ := constituentsGetMode_covers sendable.found
  have sameMode : later.teeReclaimedMode = vm.teeReclaimedMode := by
    simp only [Vm.teeReclaimedMode, Vm.stage, Vm.mapMode, same.2]
  have sameCovers (addr : Nat) : (teeReturned region).Covers addr ↔ f.Covers addr := by
    simp only [Fragments.Covers, Covered]
    have pages : (∃ c ∈ (teeReturned region).list.map Prod.snd, c.Covers addr) ↔
        ∃ c ∈ f.list.map Prod.snd, c.Covers addr := by
      rw [constituents]
    simpa only [List.mem_map, exists_exists_and_eq_and] using pages
  have pages (addr : Nat) (inside : f.Covers addr) : later'.HasPage vm.teeReclaimedMode addr := by
    rw [← sameMode]
    exact ffaMemoryTeeReclaim_pages laterWf returned success description ((sameCovers addr).mpr inside)
  constructor
  · intro restored
    exact (restored first covers).2.symm.trans (pages first covers).2
  · rintro rfl
    exact pages

end Reclaim

/-- The TEE answers with a description and then agrees to give the region back. -/
def teeReturns (message : Bytes) (length : BitVec 64) : List TeeAnswer :=
  [⟨{ func := ffaMemRetrieveResp32, arg1 := length, arg2 := length }, message⟩,
    ⟨{ func := ffaSuccess32 }, message⟩]

/-- A partition lends its page to the TEE. -/
def lendToTee (vm : Vm smallConfig) :
    Run (FfaValue × Vm smallConfig × Vm smallConfig × Sharing smallConfig) :=
  ffaMemoryTeeSend vm (blockVm 0x8000 5 (some fun _ => 0)) 3 (memoryRegionFrom lendOwnPage) 80 80 .lend
    [⟨{ func := ffaSuccess32 }, fun _ => 0⟩] freshSharing

/-- A page of ordinary memory. -/
theorem teeReclaim_restores_ordinary :
    ∃ lent vm tee s ret vm' s', lendToTee (blockVm 1 0 none) = .ok (lent, vm, tee, s) ∧
    lent.func = ffaSuccess32 ∧
      ffaMemoryTeeReclaim vm tee 0 (teeReturns lendOwnPage 80) (fun _ => 0) s = .ok (ret, vm', s') ∧
      ret.func = ffaSuccess32 ∧
      ∀ addr, (teeFragments (memoryRegionFrom lendOwnPage)).Covers addr →
        vm'.HasPage (mmModeR ||| mmModeW ||| mmModeX) addr := by
  let f := teeFragments (memoryRegionFrom lendOwnPage)
  have run : Partial.returns (lendToTee (blockVm 1 0 none))
      (fun (lent, vm, tee, s) => decide (lent.func = ffaSuccess32) &&
      (Partial.returns (ffaMemoryTeeReclaim vm tee 0 (teeReturns lendOwnPage 80) (fun _ => 0) s)
        (fun (ret, _, _) =>
        decide (ret.func = ffaSuccess32)) &&
      Partial.returns (teeReclaimRegion vm tee 0 (teeReturns lendOwnPage 80) (fun _ => 0))
        (fun (described, _) =>
        match described with
        | .ok region => decide ((teeReturned region).list.map Prod.snd = f.list.map Prod.snd)
        | .error _ => false))) = true := by decide +kernel
  obtain ⟨⟨lent, vm, tee, s⟩, sent, facts⟩ := returns_iff.mp run
  simp only [Bool.and_eq_true, decide_eq_true_eq] at facts
  obtain ⟨lentOk, reclaim, description⟩ := facts
  obtain ⟨⟨ret, vm', s'⟩, returned, retOk⟩ := returns_iff.mp reclaim
  obtain ⟨⟨described, rest⟩, fetched, same⟩ := returns_iff.mp description
  cases described with
  | error value => cases same
  | ok region =>
    have wf := blockVm_wellFormed 1 0 none
    obtain ⟨⟨view, becomes, -⟩, -⟩ := ffaMemoryTeeSend_effect wf _ sent
    have ordinary : ∀ addr, f.Covers addr →
        (blockVm 1 0 none).modeAt addr = mmModeR ||| mmModeW ||| mmModeX := by
      have read : (match constituentsGetMode (blockVm 1 0 none) f with
          | .ok mode => decide (mode = mmModeR ||| mmModeW ||| mmModeX)
          | .error _ => false) = true := by decide +kernel
      cases found : constituentsGetMode _ f with
      | error e =>
        rw [found] at read
        cases read
      | ok mode =>
        rw [found] at read
        exact of_decide_eq_true read ▸ uniform_of_single rfl (by decide +kernel) mode found
    have restores := teeReclaim_restores_iff wf (.whole (by decide) sent lentOk rfl)
      ordinary becomes.wellFormed
      ⟨becomes.id_eq, becomes.el0Partition_eq⟩ returned (of_decide_eq_true retOk)
        fetched (of_decide_eq_true same)
    exact ⟨lent, vm, tee, s, ret, vm', s', sent, lentOk, returned, of_decide_eq_true retOk,
      restores.1.mpr (restores.2 rfl).symm⟩

/-- Memory that is not executable is executable afterwards. -/
theorem teeReclaim_adds_execute :
    let vm := attrsVm 1 0 (archMmModeToStage2Attrs (mmModeR ||| mmModeW)) none
    ∃ lent vm₁ tee s ret vm₂ s', lendToTee vm = .ok (lent, vm₁, tee, s) ∧ lent.func = ffaSuccess32 ∧
      ffaMemoryTeeReclaim vm₁ tee 0 (teeReturns lendOwnPage 80) (fun _ => 0)
        s = .ok (ret, vm₂, s') ∧ ret.func = ffaSuccess32 ∧
      vm.modeAt 0x1000 = mmModeR ||| mmModeW ∧ vm₂.modeAt 0x1000 = mmModeR ||| mmModeW ||| mmModeX := by
  intro vm
  have run : Partial.returns (lendToTee vm) (fun (lent, vm₁, tee, s) => decide (lent.func = ffaSuccess32) &&
      Partial.returns (ffaMemoryTeeReclaim vm₁ tee 0 (teeReturns lendOwnPage 80) (fun _ => 0) s)
        (fun (ret, vm₂, _) =>
        decide (ret.func = ffaSuccess32 ∧ vm.modeAt 0x1000 = mmModeR ||| mmModeW ∧
          vm₂.modeAt 0x1000 = mmModeR ||| mmModeW ||| mmModeX))) = true := by decide +kernel
  obtain ⟨⟨lent, vm₁, tee, s⟩, sent, facts⟩ := returns_iff.mp run
  simp only [Bool.and_eq_true, decide_eq_true_eq] at facts
  obtain ⟨lentOk, reclaim⟩ := facts
  obtain ⟨⟨ret, vm₂, s'⟩, returned, facts⟩ := returns_iff.mp reclaim
  obtain ⟨retOk, before, after⟩ := of_decide_eq_true facts
  exact ⟨lent, vm₁, tee, s, ret, vm₂, s', sent, lentOk, returned, retOk, before, after⟩

end Hafnium.Ffa
