import Hafnium.Api.Escalation
import Hafnium.Api.Handles
import Hafnium.Ffa.Descriptor
import Hafnium.Ffa.Stops

/-! # Descriptions that fit into a receive buffer

A receiver gets the description of its memory in the fragments that the sender has sent, the first one
behind a header. Both calls check that what they write fits, and stop if it does not. Whether it fits
was decided when the fragments arrived.
-/

namespace Hafnium.Ffa

open Mm Partial Function

variable {m : MmConfig} {vm : Vm m} {region : MemoryRegion} {length fragmentLength : BitVec 32}
  {func : ShareFunc}

/-! ## Fragments that arrive -/

/-- Each fragment fits into a receive buffer, the first one behind the header of a response. -/
structure Fragments.Deliverable (f : Fragments) : Prop where
  some : 0 < f.count
  first : responseHeaderSize + 16 * f.counts 0 ≤ hfMailboxSize
  later : ∀ k, 0 < k → k < f.count → 16 * f.counts k ≤ hfMailboxSize

theorem Fragments.Deliverable.add {f : Fragments} (deliverable : f.Deliverable) (fragment : Bytes)
    (copied : length.toNat ≤ hfMailboxSize) : (f.add fragment length).Deliverable := by
  have last : f.count ≠ 0 := deliverable.some.ne'
  refine ⟨Nat.succ_pos _, ?_, fun k positive bound => ?_⟩
  · simp only [Fragments.add, update_of_ne last.symm]
    exact deliverable.first
  · simp only [Fragments.add]
    rcases eq_or_ne k f.count with rfl | before
    · rw [update_self]
      exact (Nat.mul_div_le _ _).trans copied
    · rw [update_of_ne before]
      exact deliverable.later k positive (lt_of_le_of_ne (Nat.le_of_lt_succ bound) before)

/-- The first fragment of a descriptor that is accepted fits, if the offset of its constituents does not
wrap around in 32 bits. -/
theorem accepted_deliverable {readable : Nat} {region' : MemoryRegion}
    {memoryShareLength : BitVec 32} (some : region.receiverCount ≠ 0)
    (few : region.receiverCount.toNat ≤ maxMemShareRecipients)
    (copied : fragmentLength.toNat ≤ hfMailboxSize)
    (accepted : ffaMemorySendValidate vm region memoryShareLength fragmentLength func readable =
      .ok (.ok region')) (unwrapped : region.compositeOffset + 16 < 2 ^ 32) :
    (firstFragment region' fragmentLength).Deliverable := by
  obtain ⟨after, -, before, -, validated⟩ := ffaMemorySendValidate_bounds accepted
  rw [Nat.mod_eq_of_lt unwrapped] at before
  have positive : 0 < region.receiverCount.toNat :=
    Nat.pos_of_ne_zero fun zero => some (BitVec.eq_of_toNat_eq zero)
  have counted := firstFragment_counts_zero before
  rw [maxMemShareRecipients] at few
  rw [hfMailboxSize] at copied
  rw [validated.firstFragment_eq]
  refine ⟨Nat.one_pos, ?_, fun k positive bound => absurd bound (Nat.not_lt.mpr positive)⟩
  rw [counted, responseHeaderSize, hfMailboxSize]
  omega

/-! ## Answers -/

/-- A stop because a description does not fit. -/
def Abort.IsEncoding (abort : Abort) : Prop :=
  abort = .retrievedMemoryRegionInit ∨ abort = .memoryFragmentInit

instance (abort : Abort) : Decidable abort.IsEncoding := inferInstanceAs (Decidable (_ ∨ _))

theorem Abort.IsUpdate.not_isEncoding {abort : Abort} (update : abort.IsUpdate) : ¬abort.IsEncoding := by
  revert update
  cases abort <;> decide

section Answers

variable {α β : Type} {ret : FfaValue} {bad : Abort → Prop}

/-- The length of what a receiver is told to find in its buffer. -/
def FfaValue.delivered (ret : FfaValue) : Nat :=
  if ret.func = ffaMemRetrieveResp32 then ret.arg2.toNat
  else if ret.func = ffaMemFragTx32 then ret.arg3.toNat else 0

/-- A computation does not stop because a description does not fit, and what it delivers fits. -/
structure Encodes {α : Type} (x : Run (FfaValue × α)) : Prop where
  avoids : Avoids Abort.IsEncoding x
  bounded : ∀ {ret rest}, x = .ok (ret, rest) → ret.delivered ≤ hfMailboxSize

theorem Encodes.ok {rest : α} (bounded : ret.delivered ≤ hfMailboxSize) : Encodes (.ok (ret, rest)) := by
  refine ⟨.ok _, fun ran => ?_⟩
  cases ran
  exact bounded

theorem Encodes.refused (e : FfaError) (rest : α) : Encodes (.ok (ffaError e, rest)) :=
  .ok (Nat.zero_le _)

theorem Encodes.bind {x : Run β} {f : β → Run (FfaValue × α)} (first : Avoids Abort.IsEncoding x)
    (next : ∀ b, Encodes (f b)) : Encodes (x >>= f) := by
  refine ⟨.bind first fun b => (next b).avoids, fun ran => ?_⟩
  obtain ⟨b, -, ran⟩ := bind_ok_iff.mp ran
  exact (next b).bounded ran

/-- What is returned besides the value may change afterwards. -/
theorem Encodes.map {x : Run (FfaValue × α)} (encodes : Encodes x) (f : α → β) :
    Encodes (x >>= fun r => .ok (r.1, f r.2)) := by
  refine ⟨.bind encodes.avoids fun _ => .ok _, fun ran => ?_⟩
  obtain ⟨⟨ret, rest⟩, inner, ⟨⟩⟩ := bind_ok_iff.mp ran
  exact encodes.bounded inner

theorem avoids_retrieveDataAccess (other : ¬bad .reservedPermission) (requested sent : DataAccess) :
    Avoids bad (retrieveDataAccess requested sent) := by
  cases sent with
  | reserved => exact .error other
  | _ => exact .ok _

theorem avoids_retrieveInstructionAccess (other : ¬bad .reservedPermission)
    (requested sent : InstructionAccess) : Avoids bad (retrieveInstructionAccess requested sent) := by
  cases sent with
  | reserved => exact .error other
  | _ => exact .ok _

theorem avoids_memoryAccessValid (other : ¬bad .reservedPermission)
    (sent requested permissions : Permissions) :
    Avoids bad (ffaMemoryRetrieveIsMemoryAccessValid sent requested permissions) := by
  refine .bind (avoids_retrieveDataAccess other _ _) fun dataAccess => ?_
  cases dataAccess with
  | none => exact .ok _
  | some dataAccess =>
    refine .bind (avoids_retrieveInstructionAccess other _ _) fun instructionAccess => ?_
    cases instructionAccess <;> exact .ok _

theorem avoids_retrieveValidateReceivers (other : ¬bad .reservedPermission) (region request : MemoryRegion)
    (id : VmId) (l : List Nat) (permissions : Permissions) (met : Bool) :
    Avoids bad (retrieveValidateReceivers region request id l permissions met) := by
  induction l generalizing permissions met with
  | nil => exact .ok _
  | cons i rest ih =>
    rw [retrieveValidateReceivers]
    split
    · exact .ok _
    refine .guard fun _ => .bind (avoids_memoryAccessValid other _ _ _) fun valid => ?_
    cases valid with
    | none => exact .ok _
    | some granted => exact .ite (fun _ => .guard fun _ => ih _ _) fun _ => ih _ _

theorem avoids_validateMemoryAccessList (other : ¬bad .reservedPermission) (region request : MemoryRegion)
    (id : VmId) : Avoids bad (ffaMemoryRetrieveValidateMemoryAccessList region request id) := by
  refine .guard fun _ => .bind (avoids_retrieveValidateReceivers other _ _ _ _ _ _) fun checked => ?_
  cases checked <;> exact .ok _

end Answers

section Retrieve

variable {s : Sharing m}

theorem ffaMemoryRetrieve_encodes
    (deliverable : ∀ i state, s.shareStates i = some state → state.fragments.Deliverable)
    (request : MemoryRegion) (length : BitVec 32) :
    Encodes (ffaMemoryRetrieve vm request length s) := by
  rw [ffaMemoryRetrieve]
  split
  · exact .refused _ _
  split
  · exact .refused _ _
  next i state found =>
  split
  · exact .refused _ _
  refine .bind (avoids_validateMemoryAccessList (by decide) _ _ _) fun granted => ?_
  cases granted with
  | error e => exact .refused _ _
  | ok permissions =>
    dsimp only
    split
    · exact .refused _ _
    · have first := (deliverable i state (getShareState_some found)).first
      refine .bind (avoids_permissionsToMode (by decide) _ _) fun attributes => ?_
      refine .bind (avoids_retrieveCheckUpdate Abort.IsUpdate.not_isEncoding _ _ _ _ _ _ _ _) fun r => ?_
      cases r.ret with
      | error e => exact .refused e _
      | ok done =>
        refine .bind (avoids_getComposite (by decide) _ _ _) fun composite => ?_
        rw [ffaRetrievedMemoryRegionInit, if_neg (Nat.not_lt.mpr first)]
        refine .ok ?_
        change ((BitVec.ofNat 32 (responseHeaderSize + 16 * state.fragments.counts 0)).setWidth
          64).toNat ≤ hfMailboxSize
        rw [BitVec.toNat_setWidth, BitVec.toNat_ofNat]
        exact ((Nat.mod_le _ _).trans (Nat.mod_le _ _)).trans first

theorem ffaMemoryRetrieveContinue_encodes
    (deliverable : ∀ i state, s.shareStates i = some state → state.fragments.Deliverable) (handle : Handle)
    (offset : BitVec 32) : Encodes (ffaMemoryRetrieveContinue vm handle offset s) := by
  rw [ffaMemoryRetrieveContinue]
  split
  · exact .refused _ _
  next i state found =>
  split
  · exact .refused _ _
  next valid =>
  refine .bind (.bind (avoids_compositeConstituentOffset (by decide) _ _) fun _ => .ok _) fun expected => ?_
  split
  · exact .refused _ _
  simp only [retrieveContinueValidate, bind_ok_iff, require_ok_iff, not_or, not_le] at valid
  obtain ⟨-, -, -, -, some, more⟩ := valid
  have fits := (deliverable i state (getShareState_some found)).later _ (Nat.pos_of_ne_zero some) more
  rw [if_neg (Nat.not_lt.mpr ((Nat.le_div_iff_mul_le (by decide)).mpr (by rwa [Nat.mul_comm])))]
  refine .ok ?_
  change (BitVec.ofNat 64 (16 * state.fragments.counts (state.retrievedFragmentCount 0))).toNat ≤
    hfMailboxSize
  exact (Nat.mod_le _ _).trans fits

end Retrieve

end Hafnium.Ffa

namespace Hafnium.Api

open Mm Ffa Partial

variable {m : MmConfig} {length fragmentLength : BitVec 32} {vm : Vm m} {region : MemoryRegion}
  {func : ShareFunc} {ret : FfaValue} {state : ShareState} {h h' : Hyp m}

/-! ## Runs -/

/-- What all receivers can still be sent fits into their buffers. -/
def Hyp.Deliverable (h : Hyp m) : Prop :=
  ∀ i state, h.sharing.shareStates i = some state → state.fragments.Deliverable

theorem StoresFirst.deliverable (checked : SendChecked h vm func fragmentLength region)
    (stores : StoresFirst vm region length fragmentLength func state) : state.fragments.Deliverable := by
  obtain ⟨region', validation, -, fragments⟩ := stores.checked
  have accepted := checked.accepted
  simp only [memSendCheckRegion, bind_ok_iff, require_ok_iff] at accepted
  obtain ⟨-, -, -, -, -, some, -, -, few⟩ := accepted
  -- the composite descriptor is read from the page that holds it, so its offset does not wrap around
  obtain ⟨-, inside, -⟩ := ffaMemorySendValidate_bounds validation
  rw [fragments]
  exact accepted_deliverable some (not_lt.mp few) checked.copied validation (inside.trans_lt (by decide))

variable {env : CallEnv} {call : MemCall}

/-- Further fragments are never longer than a buffer. -/
theorem MemCall.scope_adds (added : (call.scope h vm env).adds length) : length.toNat ≤ hfMailboxSize := by
  cases call with
  | send =>
    simp only [MemCall.scope] at added
    split at added <;> exact added.elim
  | fragTx =>
    simp only [MemCall.scope] at added
    split at added
    · exact added.elim
    · obtain ⟨rfl, copied⟩ := added
      exact copied
  | reclaim =>
    simp only [MemCall.scope] at added
    split at added <;> exact added.elim
  | retrieveReq =>
    simp only [MemCall.scope] at added
    split at added <;> exact added.elim
  | fragRx => exact added.elim
  | relinquish => exact added.elim

theorem apiMemCall_deliverable (wf : h.WellFormed) (caller : h.vms vm.id = some vm)
    (deliverable : h.Deliverable) (ran : apiMemCall h vm env call = .ok (ret, h')) :
    h'.Deliverable := by
  cases isSend : call.isSend with
  | false =>
    obtain ⟨vm', -, view, -, effect⟩ := apiMemCall_effect wf caller ran
    intro i state' held
    obtain ⟨state, heldBefore, carried⟩ := effect.carries
      (fun state state' => state.fragments.Deliverable → state'.fragments.Deliverable)
        (MemCall.scope_stores isSend) (fun _ fragments before => by rwa [fragments])
      (fun added _ fragments before => by rw [fragments]; exact before.add _ (MemCall.scope_adds added))
      i state' held
    exact carried (deliverable i state heldBefore)
  | true =>
    cases call with
    | send func length fragmentLength address pageCount =>
      refine (apiFfaMemSend_slots wf caller _ ran).forall_held ?_ deliverable
      rintro i state ⟨region, checked, opens⟩
      exact StoresFirst.deliverable checked opens.stored
    | _ => cases isSend

theorem Hyp.Step.deliverable (step : Hyp.Step AnyCall h h') (wf : h.WellFormed)
    (deliverable : h.Deliverable) : h'.Deliverable := by
  cases step with
  | call caller world meets ran => exact apiMemCall_deliverable wf caller deliverable ran
  | quiet quiet =>
    intro i state held
    rw [quiet.shareStates] at held
    exact deliverable i state held

theorem run_deliverable (wf : h.WellFormed) (deliverable : h.Deliverable)
    (run : Relation.ReflTransGen (Hyp.Step AnyCall) h h') : h'.WellFormed ∧ h'.Deliverable := by
  induction run with
  | refl => exact ⟨wf, deliverable⟩
  | tail before step ih => exact ⟨step.wellFormed ih.1, step.deliverable ih.1 ih.2⟩

theorem apiFfaMemRetrieveReq_encodes (deliverable : h.Deliverable) (vm : Vm m)
    (length fragmentLength : BitVec 32) (address : BitVec 64) (pageCount : BitVec 32)
    (env : CallEnv) :
    Encodes (apiFfaMemRetrieveReq h vm length fragmentLength address pageCount env) := by
  rw [apiFfaMemRetrieveReq]
  split
  · exact .refused _ _
  · split
    · exact .refused _ _
    · split
      · exact .refused _ _
      · split
        · exact .refused _ _
        · split
          · exact .refused _ _
          · exact (ffaMemoryRetrieve_encodes deliverable _ _).map fun r => { h.setVm r.1 with sharing := r.2 }

theorem apiFfaMemFragRx_encodes (deliverable : h.Deliverable) (vm : Vm m) (handle : Handle)
    (offset : BitVec 32) (senderVmId : VmId) :
    Encodes (apiFfaMemFragRx h vm handle offset senderVmId) := by
  rw [apiFfaMemFragRx]
  split
  · exact .refused _ _
  · split
    · exact .refused _ _
    · exact (ffaMemoryRetrieveContinue_encodes deliverable _ _).map fun r =>
        { h.setVm r.1 with sharing := r.2 }

/-- In every run, no description of shared memory is too long for a receive buffer. The calls of the
run read composite descriptors from the page that they are copied to. -/
theorem retrieved_fragments_fit (wf : h.WellFormed) (start : ∀ i, h.sharing.shareStates i = none)
    (run : Relation.ReflTransGen (Hyp.Step AnyCall) h h') :
    h'.Deliverable ∧
    (∀ vm length fragmentLength address pageCount env,
      Encodes (apiFfaMemRetrieveReq h' vm length fragmentLength address pageCount env)) ∧
    ∀ vm handle offset senderVmId, Encodes (apiFfaMemFragRx h' vm handle offset senderVmId) := by
  have atStart : h.Deliverable := by
    intro i state held
    cases (start i).symm.trans held
  obtain ⟨-, deliverable⟩ := run_deliverable wf atStart run
  exact ⟨deliverable, apiFfaMemRetrieveReq_encodes deliverable, apiFfaMemFragRx_encodes deliverable⟩

/-- After partition 1 has shared a page with partition 2, partition 2 can retrieve it. -/
theorem retrieved_fragments_fit_own_page :
    ∃ h', Relation.ReflTransGen (Hyp.Step AnyCall) (twoPartitions shareOwnPage) h' ∧
      (h'.sharing.shareStates firstSlot).isSome ∧ h'.Deliverable := by
  have run : returnsWith ffaSuccess32 shareOwn (fun h => (h.sharing.shareStates firstSlot).isSome) =
      true := by
    decide +kernel
  obtain ⟨ret, h', returned, -, stored⟩ := returnsWith_iff.mp run
  have step : Hyp.Step AnyCall (twoPartitions shareOwnPage) h' := .call rfl (by decide) trivial returned
  exact ⟨h', .single step, stored,
    (retrieved_fragments_fit (twoPartitions_wellFormed _) (fun _ => rfl) (.single step)).1⟩

/-- Partition 1 shares its block 256 times with partition 2, in a descriptor that is 16 bytes below
4 GiB, with the constituents at 4 GiB. -/
def shareBehindPage : Bytes := fun k =>
  if 2 ^ 32 ≤ k then if k % 16 = 9 then 2 else 0
  else messageOf [(0, 1), (2, 0x2f), (28, 1), (32, 2), (34, 2), (36, 0xf0), (37, 0xff), (38, 0xff),
    (39, 0xff), (0xfffffff5, 1)] k

/-- With readable memory behind the page the message passes all checks, and retrieving the memory stops
the hypervisor. -/
theorem retrieved_fragment_too_long :
    ∃ ret vm s, ffaMemorySend (blockVm 1 0 none) 3 (memoryRegionFrom shareBehindPage)
      4096 4096 .share freshSharing (2 ^ 32 + hfMailboxSize) = .ok (ret, vm, s) ∧
      ret.func = ffaSuccess32 ∧
      ffaMemoryRetrieve (blockVm 2 1 none) (memoryRegionFrom retrieveReadWrite)
        48 s (2 ^ 32 + hfMailboxSize) = .error .retrievedMemoryRegionInit := by
  have run : returns (ffaMemorySend (blockVm 1 0 none) 3 (memoryRegionFrom shareBehindPage) 4096 4096 .share
      freshSharing (2 ^ 32 + hfMailboxSize)) (fun r => decide (r.1.func = ffaSuccess32) &&
        match ffaMemoryRetrieve (blockVm 2 1 none) (memoryRegionFrom retrieveReadWrite) 48 r.2.2
          (2 ^ 32 + hfMailboxSize) with
        | .error abort => decide (abort = .retrievedMemoryRegionInit)
        | .ok _ => false) = true := by
    decide +kernel
  obtain ⟨⟨ret, vm, s⟩, sent, outcome⟩ := returns_iff.mp run
  obtain ⟨success, stopped⟩ := Bool.and_eq_true_iff.mp outcome
  refine ⟨ret, vm, s, sent, of_decide_eq_true success, ?_⟩
  split at stopped
  · next abort result => rw [result, of_decide_eq_true stopped]
  · cases stopped

end Hafnium.Api
