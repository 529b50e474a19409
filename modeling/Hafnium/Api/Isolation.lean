import Hafnium.Api.Ownership

/-! # Who can change what

A memory call changes the page table of its caller at most, and a sent transaction is changed by
its sender and its receivers only.
-/

namespace Hafnium.Api

open Mm Ffa Function Relation

variable {m : MmConfig} {h h' : Hyp m} {i : Fin maxMemShares} {state : ShareState}
  {callers : VmId → Prop} {meets : Hyp m → Vm m → CallEnv → MemCall → Prop}

/-- The sender and the receivers of a transaction. -/
def Party (state : ShareState) (id : VmId) : Prop :=
  id = state.memoryRegion.sender ∨ ∃ k < state.memoryRegion.receiverCount.toNat,
    (state.memoryRegion.receivers k).receiver = id

/-- A transaction that has been sent is out of reach of the calls of others. -/
theorem Effect.others {scope : Scope} {vm : Vm m} {states states' : ShareStates} {ret : FfaValue}
    {view : Nat → PteBits} (effect : Effect scope vm states ret view states')
    (held : states i = some state) (sent : state.sendingComplete = true)
    (counted : 0 < state.memoryRegion.receiverCount.toNat) (other : ¬Party state vm.id) :
    states' i = some state := by
  have kept {slot} (step : SlotStep scope i (states i) slot) : slot = some state := by
    rw [held] at step
    cases step with
    | kept => rfl
    | extended _ _ unsent | dropped unsent => simp [sent] at unsent
  have elsewhere {j state' slot} (held' : states j = some state')
      (party : state' = state → Party state vm.id) : update states j slot i = some state := by
    rw [update_of_ne, held]
    rintro rfl
    exact other (party (Option.some.inj (held'.symm.trans held)))
  have first (receiver : (state.memoryRegion.receivers 0).receiver = vm.id) : Party state vm.id :=
    .inr ⟨0, counted, receiver⟩
  cases effect with
  | idle _ steps | sendRolledBack _ _ _ steps | teeSent _ _ _ steps => exact kept (steps i)
  | sent _ step unsent =>
    rw [update_of_ne, held]
    rintro rfl
    cases kept step
    simp [sent] at unsent
  | retrieved _ _ _ held' valid =>
    obtain ⟨-, isReceiver, -⟩ := retrieveValidateRequest_ok valid
    exact elsewhere held' fun same => same ▸ .inr ⟨_, ffaMemoryRegionGetReceiver_found isReceiver⟩
  | continued _ held' valid =>
    exact elsewhere held' fun same => first (same ▸ (retrieveContinueValidate_ok valid).1)
  | relinquished _ held' valid =>
    exact elsewhere held' fun same => first (same ▸ (relinquishValidate_ok valid).2.1)
  | reclaimed _ held' valid => exact elsewhere held' fun same => same ▸ .inl (reclaimValidate_ok valid).1
  | relinquishRolledBack | teeReclaimed => exact held

theorem SameAddresses.trans {first second third : Option (Vm m)} (before : SameAddresses first second)
    (after : SameAddresses second third) : SameAddresses first third := by
  cases before with
  | none => exact after
  | some becomes =>
    cases after with
    | some later => exact .some (becomes.kept later)

/-- The addresses of all other partitions and the sent transactions of others are the same. -/
structure Untouched (callers : VmId → Prop) (h h' : Hyp m) : Prop where
  addresses : ∀ id, ¬callers id → SameAddresses (h.vms id) (h'.vms id)
  sent : ∀ {i state}, h.sharing.shareStates i = some state → state.sendingComplete = true →
    0 < state.memoryRegion.receiverCount.toNat → (∀ id, callers id → ¬Party state id) →
      h'.sharing.shareStates i = some state

theorem Hyp.Step.untouched (step : Hyp.Step meets h h') (wf : h.WellFormed)
    (calls : ∀ {vm env call}, meets h vm env call → callers vm.id) : Untouched callers h h' := by
  cases step with
  | call caller _ allowed ran =>
    obtain ⟨_, changed, _, -, effect⟩ := apiMemCall_effect wf caller ran
    constructor
    · exact fun id other => changed.others id fun same => other (same ▸ calls allowed)
    · exact fun held sent counted apart => Effect.others effect held sent counted (apart _ (calls allowed))
  | quiet quiet => exact ⟨fun id _ => quiet.vms id, fun held _ _ _ => quiet.shareStates ▸ held⟩

/-- Whatever memory calls some partitions make, all else is untouched. -/
theorem others_untouched (wf : h.WellFormed) (calls : ∀ {h vm env call}, meets h vm env call → callers vm.id)
    (run : ReflTransGen (Hyp.Step meets) h h') : Untouched callers h h' := by
  suffices all : h'.WellFormed ∧ Untouched callers h h' from all.2
  induction run with
  | refl => exact ⟨wf, fun id _ => wf.sameAddresses id, fun held _ _ _ => held⟩
  | tail _ step ih =>
    obtain ⟨wf, before⟩ := ih
    have now := step.untouched wf calls
    refine ⟨step.wellFormed wf, fun id other => ?_, fun held sent counted apart => ?_⟩
    · exact (before.addresses id other).trans (now.addresses id other)
    · exact now.sent (before.sent held sent counted apart) sent counted apart

/-- Partition 1 shares a page of its own, and partition 2 is untouched. -/
theorem others_untouched_by_share : ∃ ret h', shareOwn = .ok (ret, h') ∧ ret.func = ffaSuccess32 ∧
    Untouched (· ≠ 2) (twoPartitions shareOwnPage) h' := by
  obtain ⟨ret, h', returned, success⟩ := shareOwn_returns
  have step : Hyp.Step (fun _ vm _ _ => vm.id ≠ 2) (twoPartitions shareOwnPage) h' :=
    .call rfl (by decide) (by decide) returned
  exact ⟨ret, h', returned, success, others_untouched (twoPartitions_wellFormed _)
    (fun other => other) (.single step)⟩

/-- Until it makes a memory call itself, a partition keeps its access to every address, and what it has
to itself is out of reach of all others, whatever fair calls they make. -/
theorem private_pages_stay_private {h₀ : Hyp m} {v : VmId} (wf : h₀.WellFormed)
    (exclusive : h₀.Exclusive) (fresh : ∀ i, h₀.sharing.shareStates i = none)
    (before : ReflTransGen (Hyp.Step FairCall) h₀ h)
    (run : ReflTransGen (Hyp.Step fun h vm env call => FairCall h vm env call ∧ vm.id ≠ v) h h')
    (addr : Nat) :
    h'.access v addr = h.access v addr ∧
      (h.access v addr = .exclusive → ∀ other, other ≠ v → h'.access other addr = .nothing) := by
  obtain ⟨sound, same⟩ : h'.Sound ∧ h'.access v addr = h.access v addr := by
    induction run with
    | refl => exact ⟨(exclusive.sound wf fresh).run before, rfl⟩
    | tail _ step ih =>
      obtain ⟨sound, same⟩ := ih
      have now : Untouched (· ≠ v) _ _ := step.untouched sound.wellFormed And.right
      refine ⟨?_, ((now.addresses v (· rfl)).access addr).trans same⟩
      cases step with
      | call caller world meets ran => exact sound.step (.call caller world meets.1 ran)
      | quiet quiet => exact sound.step (.quiet quiet)
  exact ⟨same, fun mine other different => sound.inv.alone (same.trans mine) different⟩

theorem private_pages_stay_private_during_share :
    ∃ ret h', shareOwn = .ok (ret, h') ∧ ret.func = ffaSuccess32 ∧
      h'.access 2 foreignPage = .exclusive ∧ h'.access 1 foreignPage = .nothing := by
  obtain ⟨ret, h', returned, success⟩ := shareOwn_returns
  have step : Hyp.Step (fun h vm env call => FairCall h vm env call ∧ vm.id ≠ 2)
      (twoPartitions shareOwnPage) h' :=
    .call rfl (by decide) ⟨shareOwn_fair, by decide⟩ returned
  obtain ⟨same, apart⟩ := private_pages_stay_private (twoPartitions_wellFormed _)
    (twoPartitions_exclusive _) (fun _ => rfl) .refl (.single step) foreignPage
  have mine : (twoPartitions shareOwnPage).access 2 foreignPage = .exclusive := by decide +kernel
  exact ⟨ret, h', returned, success, same.trans mine, apart mine 1 (by decide)⟩

end Hafnium.Api
