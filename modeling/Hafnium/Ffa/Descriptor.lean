import Hafnium.Ffa.Atomicity
import Hafnium.Ffa.Rights

/-! # Descriptors that pass the checks

A sender chooses the offset of the composite descriptor and the number of constituents. Both are
checked against the lengths of the message in 32-bit arithmetic. Here the same bounds are stated over
natural numbers.

A receiver repeats the list of receivers when it retrieves the memory. The two lists are compared by
their lengths, and by a search for each receiver of the request.
-/

namespace Hafnium.Ffa

open Mm Partial

variable {m : MmConfig}

/-! ## Bounds of a descriptor that is sent -/

variable {region : MemoryRegion} {vm : Vm m} {func : ShareFunc} {id : VmId} {permissions : Permissions}
  {fragmentLength : BitVec 32}

/-- Where the composite descriptor starts. -/
def MemoryRegion.compositeOffset (region : MemoryRegion) : Nat :=
  (region.receivers 0).compositeMemoryRegionOffset.toNat

/-- How many constituents the composite descriptor announces. -/
def MemoryRegion.constituentCount (region : MemoryRegion) : Nat :=
  (LittleEndian.u32 region.bytes (region.compositeOffset + 4)).toNat

/-- The bounds that the checks are for. `firstFragment` and `teeFragments` are the constituents that
the code goes through for partitions and for the TEE. -/
structure DescriptorBounds (region : MemoryRegion) (memoryShareLength fragmentLength : BitVec 32) : Prop where
  receivers : 32 + 16 * region.receiverCount.toNat ≤ region.compositeOffset
  composite : region.compositeOffset + 16 ≤ fragmentLength.toNat
  constituents : region.compositeOffset + 16 + 16 * region.constituentCount ≤ memoryShareLength.toNat
  counted : fragmentLength = memoryShareLength →
    (firstFragment region fragmentLength).counts 0 =
      (fragmentLength.toNat - (region.compositeOffset + 16)) / 16 ∧
    (teeFragments region).counts 0 = (fragmentLength.toNat - (region.compositeOffset + 16)) / 16

/-- The number of constituents in the first fragment, with the offset that passes the check. -/
theorem firstFragment_counts_mod
    (inside : (region.compositeOffset + 16) % 2 ^ 32 ≤ fragmentLength.toNat) :
    (firstFragment region fragmentLength).counts 0 =
      (fragmentLength.toNat - (region.compositeOffset + 16) % 2 ^ 32) / 16 := by
  have offset : ((region.receivers 0).compositeMemoryRegionOffset + 16).toNat =
      (region.compositeOffset + 16) % 2 ^ 32 :=
    BitVec.toNat_add _ _
  have within : (region.receivers 0).compositeMemoryRegionOffset + 16 ≤ fragmentLength := by
    rwa [BitVec.le_def, offset]
  rw [← offset, ← BitVec.toNat_sub_of_le within]
  rfl

/-- The number of constituents in the first fragment, if the composite descriptor is in it. -/
theorem firstFragment_counts_zero (inside : region.compositeOffset + 16 ≤ fragmentLength.toNat) :
    (firstFragment region fragmentLength).counts 0 =
      (fragmentLength.toNat - (region.compositeOffset + 16)) / 16 := by
  have offset := Nat.mod_eq_of_lt (inside.trans_lt fragmentLength.isLt)
  rw [firstFragment_counts_mod (offset.trans_le inside), offset]

/-- What the checks establish, in the arithmetic that they are made in. -/
theorem ffaMemorySendValidate_bounds {readable : Nat} {region' : MemoryRegion} {memoryShareLength : BitVec 32}
    (accepted : ffaMemorySendValidate vm region memoryShareLength fragmentLength func readable =
      .ok (.ok region')) :
    32 + (16 * region.receiverCount.toNat) % 2 ^ 32 ≤ region.compositeOffset ∧
      region.compositeOffset + 16 ≤ readable ∧
      (region.compositeOffset + 16) % 2 ^ 32 ≤ fragmentLength.toNat ∧
      memoryShareLength.toNat = (region.compositeOffset + 16 + 16 * region.constituentCount) % 2 ^ 32 ∧
      Validated vm func region region' := by
  rw [ffaMemorySendValidate] at accepted
  split at accepted
  · cases accepted
  · next sender =>
    simp only [bind_ok_iff] at accepted
    obtain ⟨constituentsOffset, offset, accepted⟩ := accepted
    split at accepted
    · cases accepted
    · next inside =>
      simp only [bind_ok_iff] at accepted
      obtain ⟨composite, header, accepted⟩ := accepted
      split at accepted
      · cases accepted
      · next length =>
        rw [ffaCompositeConstituentOffset] at offset
        split at offset
        · cases offset
        · split at offset
          · cases offset
          · cases offset
            rw [ffaMemoryRegionGetComposite] at header
            split at header
            · cases header
            · next readable =>
              cases header
              have sixteen : BitVec.toNat (16 : BitVec 32) = 16 := rfl
              have lengths := congrArg BitVec.toNat (not_not.mp length)
              simp only [not_or, not_lt, gt_iff_lt, BitVec.lt_def, BitVec.toNat_add,
                BitVec.toNat_mul, sixteen] at inside lengths
              simp only [MemoryRegion.constituentCount, MemoryRegion.compositeOffset]
              exact ⟨by omega, by omega, inside.2.2, by omega,
                sendValidateRegion_ok (not_not.mp sender) (Except.ok.inj accepted)⟩

/-- A descriptor that is accepted lies in its bounds exactly if neither the end of the composite
descriptor nor the end of the constituents wraps around in 32 bits. -/
theorem accepted_descriptor_bounds {readable : Nat} {vm : Vm m} {region region' : MemoryRegion}
    {memoryShareLength fragmentLength : BitVec 32} {func : ShareFunc}
    (receivers : region.receiverCount = 1 ∨ region.receiverCount = 2)
    (accepted : ffaMemorySendValidate vm region memoryShareLength fragmentLength func readable =
      .ok (.ok region')) :
    DescriptorBounds region' memoryShareLength fragmentLength ↔
      region.compositeOffset + 16 < 2 ^ 32 ∧
      region.compositeOffset + 16 + 16 * region.constituentCount < 2 ^ 32 := by
  obtain ⟨after, -, before, length, validated⟩ := ffaMemorySendValidate_bounds accepted
  have sameOffset : region'.compositeOffset = region.compositeOffset :=
    congrArg BitVec.toNat (validated.same.composite 0)
  have sameCount : region'.constituentCount = region.constituentCount := by
    rw [MemoryRegion.constituentCount, MemoryRegion.constituentCount, sameOffset, validated.same.bytes]
  constructor
  · intro bounds
    have composite := bounds.composite
    have constituents := bounds.constituents
    omega
  · rintro ⟨composite, constituents⟩
    rw [Nat.mod_eq_of_lt composite] at before
    rw [Nat.mod_eq_of_lt constituents] at length
    refine ⟨?_, ?_, ?_, fun whole => ⟨?_, ?_⟩⟩
    · rw [sameOffset, validated.same.receiverCount]
      rcases receivers with one | two
      · rw [one] at after ⊢
        exact after
      · rw [two] at after ⊢
        exact after
    · rwa [sameOffset]
    · rw [sameOffset, sameCount, length]
    · exact firstFragment_counts_zero (by rwa [sameOffset])
    · rw [whole, length, sameOffset, Nat.add_sub_cancel_left, Nat.mul_div_cancel_left _ (by decide)]
      exact sameCount

/-- Partition 1 lends one page, and the composite descriptor announces `countHigh` * 2^24
constituents more. -/
def lendCounting (countHigh : Nat) : MemoryRegion :=
  memoryRegionFrom (messageOf [(0, 1), (28, 1), (32, 2), (34, 2), (36, 48), (52, 1),
    (55, countHigh), (65, 0x10), (72, 1)])

/-- A descriptor of one page is in its bounds. -/
theorem accepted_one_page_bounds :
    ∃ region', ffaMemorySendValidate (blockVm 1 0 none) (lendCounting 0) 80 80 .lend = .ok (.ok region') ∧
      DescriptorBounds region' 80 80 := by
  have run : Partial.returns (ffaMemorySendValidate (blockVm 1 0 none) (lendCounting 0) 80 80 .lend)
      (fun r => Partial.returns r fun _ => true) = true := by
    decide +kernel
  obtain ⟨validation, returned, valid⟩ := returns_iff.mp run
  obtain ⟨region', rfl, -⟩ := returns_iff.mp valid
  exact ⟨region', returned,
    (accepted_descriptor_bounds (.inl (by decide +kernel)) returned).mpr (by decide +kernel)⟩

/-- A descriptor that announces 2^28 + 1 constituents in a message of 80 bytes is accepted, and so many
are gone through when it is for the TEE. -/
theorem accepted_constituents_outside :
    ∃ region', ffaMemorySendValidate (blockVm 1 0 none) (lendCounting 0x10) 80 80 .lend = .ok (.ok region') ∧
      (teeFragments region').counts 0 = 2 ^ 28 + 1 ∧ ¬DescriptorBounds region' 80 80 := by
  have run : Partial.returns (ffaMemorySendValidate (blockVm 1 0 none) (lendCounting 0x10) 80 80 .lend)
      (fun r => Partial.returns r fun region' => decide ((teeFragments region').counts 0 = 2 ^ 28 +
        1)) = true := by
    decide +kernel
  obtain ⟨validation, returned, valid⟩ := returns_iff.mp run
  obtain ⟨region', rfl, counted⟩ := returns_iff.mp valid
  have count := of_decide_eq_true counted
  refine ⟨region', returned, count, fun bounds => ?_⟩
  have inside : region'.compositeOffset + 16 + 16 * (teeFragments region').counts 0 ≤ 80 :=
    bounds.constituents
  omega

/-! ## Receivers of a retrieve request -/

/-- The receivers that a descriptor names. -/
def MemoryRegion.receiverIds (region : MemoryRegion) : List VmId :=
  region.receiverList.map MemoryAccess.receiver

theorem MemoryRegion.mem_receiverIds :
    id ∈ region.receiverIds ↔ ∃ i < region.receiverCount.toNat, (region.receivers i).receiver = id := by
  simp [MemoryRegion.receiverIds, MemoryRegion.receiverList]

theorem MemoryRegion.length_receiverIds (region : MemoryRegion) :
    region.receiverIds.length = region.receiverCount.toNat := by
  simp [MemoryRegion.receiverIds, MemoryRegion.receiverList]

/-- Access that may be asked for. What the sender leaves open is up to the receiver. -/
structure Allows (sent requested : Permissions) : Prop where
  data : ffaGetDataAccessAttr requested ∈ [.notSpecified, .readOnly] ∨
    ffaGetDataAccessAttr requested = .readWrite ∧ ffaGetDataAccessAttr sent ∈ [.notSpecified, .readWrite]
  instruction : ffaGetInstructionAccessAttr requested ∈ [.notSpecified, .executeNever] ∨
    ffaGetInstructionAccessAttr requested = .execute ∧
      ffaGetInstructionAccessAttr sent ∈ [.notSpecified, .execute]

theorem allows_of_valid {sent requested granted : Permissions}
    (valid : ffaMemoryRetrieveIsMemoryAccessValid sent requested permissions = .ok (some granted)) :
    Allows sent requested := by
  simp only [ffaMemoryRetrieveIsMemoryAccessValid, bind_ok_iff] at valid
  obtain ⟨data, dataValid, valid⟩ := valid
  cases data with
  | none => cases valid
  | some dataAccess =>
    obtain ⟨instruction, instructionValid, valid⟩ := bind_ok_iff.mp valid
    cases instruction with
    | none => cases valid
    | some instructionAccess =>
      constructor
      · generalize ffaGetDataAccessAttr requested = access at dataValid ⊢
        generalize ffaGetDataAccessAttr sent = sentAccess at dataValid ⊢
        revert dataValid
        cases sentAccess <;> cases access <;> simp [retrieveDataAccess]
      · generalize ffaGetInstructionAccessAttr requested = access at instructionValid ⊢
        generalize ffaGetInstructionAccessAttr sent = sentAccess at instructionValid ⊢
        revert instructionValid
        cases sentAccess <;> cases access <;> simp [retrieveInstructionAccess]

section Receivers

variable {request : MemoryRegion} {l : List Nat} {permissions' : Permissions} {met met' : Bool}

/-- Every receiver of an accepted request has passed. -/
theorem retrieveValidateReceivers_passes
    (valid : retrieveValidateReceivers region request id l permissions met = .ok (.ok (permissions', met'))) :
    ∀ i ∈ l, ∃ prior granted, ReceiverPasses region request prior granted i := by
  induction l generalizing permissions met with
  | nil => simp
  | cons head rest ih =>
    obtain ⟨granted, passes, next⟩ := retrieveValidateReceivers_cons valid
    rw [List.forall_mem_cons]
    refine ⟨⟨permissions, granted, passes⟩, ?_⟩
    rcases next with ⟨-, valid⟩ | ⟨-, valid⟩
    · exact ih valid
    · exact ih valid

/-- The caller is met only at an entry of its own. -/
theorem retrieveValidateReceivers_met
    (valid : retrieveValidateReceivers region request id l permissions met = .ok (.ok (permissions', true))) :
    met = true ∨ ∃ i ∈ l, (request.receivers i).receiver = id := by
  induction l generalizing permissions met with
  | nil =>
    cases valid
    exact .inl rfl
  | cons head rest ih =>
    obtain ⟨granted, passes, ⟨isCaller, valid⟩ | ⟨-, valid⟩⟩ := retrieveValidateReceivers_cons valid
    · exact .inr ⟨head, List.mem_cons_self, isCaller⟩
    · apply (ih valid).imp_right
      rintro ⟨i, member, isCaller⟩
      exact ⟨i, List.mem_cons_of_mem _ member, isCaller⟩

/-- Other receivers leave the permissions of the caller alone. -/
theorem retrieveValidateReceivers_others (others : ∀ i ∈ l, (request.receivers i).receiver ≠ id)
    (valid : retrieveValidateReceivers region request id l permissions met = .ok (.ok (permissions', met'))) :
    permissions' = permissions := by
  induction l generalizing permissions met with
  | nil =>
    cases valid
    rfl
  | cons head rest ih =>
    rw [List.forall_mem_cons] at others
    obtain ⟨granted, passes, ⟨isCaller, -⟩ | ⟨-, valid⟩⟩ := retrieveValidateReceivers_cons valid
    · exact absurd isCaller others.1
    · exact ih others.2 valid

/-- A caller that is named once gets the permissions that are computed for its entry. -/
theorem retrieveValidateReceivers_caller (once : (l.map fun i => (request.receivers i).receiver).Nodup)
    (valid : retrieveValidateReceivers region request id l permissions met = .ok (.ok (permissions', met'))) :
    ∀ i ∈ l, (request.receivers i).receiver = id →
      ReceiverPasses region request permissions permissions' i := by
  induction l generalizing permissions met with
  | nil => simp
  | cons head rest ih =>
    rw [List.map_cons, List.nodup_cons] at once
    obtain ⟨granted, passes, ⟨isCaller, valid⟩ | ⟨other, valid⟩⟩ := retrieveValidateReceivers_cons valid
    · have others : ∀ i ∈ rest, (request.receivers i).receiver ≠ id := by
        intro i member again
        exact once.1 (List.mem_map.mpr ⟨i, member, again.trans isCaller.symm⟩)
      rw [retrieveValidateReceivers_others others valid, List.forall_mem_cons]
      exact ⟨fun _ => passes, fun i member again => absurd again (others i member)⟩
    · rw [List.forall_mem_cons]
      exact ⟨fun isCaller => absurd isCaller other, ih once.2 valid⟩

end Receivers

/-- A retrieve request repeats the receivers of the memory, and the caller gets what is computed for
its entry. -/
structure MatchesSent (region request : MemoryRegion) (id : VmId) (permissions : Permissions) : Prop where
  same : request.receiverIds.Perm region.receiverIds
  once : request.receiverIds.Nodup
  caller : id ∈ request.receiverIds
  allowed : ∀ i < request.receiverCount.toNat, ∀ j < region.receiverCount.toNat,
    (request.receivers i).receiver = (region.receivers j).receiver →
      Allows (region.receivers j).permissions (request.receivers i).permissions
  granted : ∀ i < request.receiverCount.toNat, ∀ j < region.receiverCount.toNat,
    (request.receivers i).receiver = id → (region.receivers j).receiver = id →
      ffaMemoryRetrieveIsMemoryAccessValid (region.receivers j).permissions
        (request.receivers i).permissions 0 = .ok (some permissions)

/-- The permissions sent to a receiver that is listed once. -/
theorem Validated.sentPermissions_eq {sent : MemoryRegion}
    (validated : Validated vm func sent region) {j : Nat} (bound : j < region.receiverCount.toNat)
    (found : ffaMemoryRegionGetReceiver region (region.receivers j).receiver ≠ region.receiverCount.toNat) :
    sentPermissions region (region.receivers j).receiver = (region.receivers j).permissions := by
  obtain ⟨foundBound, same⟩ := ffaMemoryRegionGetReceiver_found found
  rw [sentPermissions]
  generalize ffaMemoryRegionGetReceiver region (region.receivers j).receiver = k at foundBound same ⊢
  rw [validated.same.receiverCount] at bound foundBound
  rw [validated.same.receiver, validated.same.receiver] at same
  rcases Nat.lt_trichotomy k j with before | rfl | after
  · exact absurd same (validated.notRepeated k foundBound j bound before)
  · rfl
  · exact absurd same.symm (validated.notRepeated j bound k foundBound after)

/-- A request that is accepted for stored memory matches what was sent exactly if it names no receiver
twice. -/
theorem retrieve_receivers_match_iff {vm : Vm m} {func : ShareFunc}
    {sent region request : MemoryRegion} {id : VmId} {permissions : Permissions}
    (stored : Validated vm func sent region)
    (accepted : ffaMemoryRetrieveValidateMemoryAccessList region request id = .ok (.ok permissions)) :
    MatchesSent region request id permissions ↔ request.receiverIds.Nodup := by
  obtain ⟨sameCount, loop⟩ := ffaMemoryRetrieveValidateMemoryAccessList_ok _ accepted _ rfl
  have passes (i : Nat) (bound : i < request.receiverCount.toNat) :=
    retrieveValidateReceivers_passes loop i (List.mem_range.mpr bound)
  constructor
  · intro matched
    exact matched.once
  · intro once
    have known : request.receiverIds ⊆ region.receiverIds := by
      intro receiver member
      obtain ⟨i, bound, rfl⟩ := MemoryRegion.mem_receiverIds.mp member
      obtain ⟨prior, granted, passed⟩ := passes i bound
      obtain ⟨found, same⟩ := ffaMemoryRegionGetReceiver_found passed.found
      exact MemoryRegion.mem_receiverIds.mpr ⟨_, found, same⟩
    have same : request.receiverIds.Perm region.receiverIds := by
      apply (List.subperm_of_subset once known).perm_of_length_le
      rw [MemoryRegion.length_receiverIds, MemoryRegion.length_receiverIds, sameCount]
    refine ⟨same, once, ?_, ?_, ?_⟩
    · rcases retrieveValidateReceivers_met loop with absurd | ⟨i, member, isCaller⟩
      · cases absurd
      · exact MemoryRegion.mem_receiverIds.mpr ⟨i, List.mem_range.mp member, isCaller⟩
    · intro i iBound j jBound sameReceiver
      obtain ⟨prior, granted, found, valid⟩ := passes i iBound
      rw [sameReceiver] at found valid
      rw [stored.sentPermissions_eq jBound found] at valid
      exact allows_of_valid valid
    · intro i iBound j jBound isCaller sentTo
      rw [MemoryRegion.receiverIds, MemoryRegion.receiverList, List.map_map] at once
      obtain ⟨found, valid⟩ := retrieveValidateReceivers_caller once loop i
        (List.mem_range.mpr iBound) isCaller
      rw [isCaller, ← sentTo] at found valid
      rwa [stored.sentPermissions_eq jBound found] at valid

/-- Partition 1 lends a page to partitions 2 and 3. -/
def lendToTwo : MemoryRegion :=
  memoryRegionFrom (messageOf [(0, 1), (2, 0x2F), (28, 2), (32, 2), (34, 2), (36, 64), (48, 3),
    (50, 2), (52, 64), (68, 1), (81, 0x10), (88, 1)])

/-- A retrieve request that names partition 2 and one more receiver. -/
def retrieveNaming (second : Nat) : MemoryRegion :=
  memoryRegionFrom (messageOf [(0, 1), (28, 2), (32, 2), (48, second)])

/-- The memory is stored, and the request of partition 2 accepted. -/
theorem retrieveNaming_accepted {second : Nat}
    (run : Partial.returns (ffaMemorySendValidate (blockVm 1 0 none) lendToTwo 96 96 .lend) (fun r =>
      Partial.returns r fun region => Partial.returns
        (ffaMemoryRetrieveValidateMemoryAccessList region (retrieveNaming second) 2)
        fun r => Partial.returns r fun _ => true) = true) :
    ∃ region permissions, ffaMemorySendValidate (blockVm 1 0 none) lendToTwo 96 96 .lend = .ok (.ok region) ∧
      ffaMemoryRetrieveValidateMemoryAccessList region (retrieveNaming second) 2 = .ok (.ok permissions) := by
  obtain ⟨validation, sent, valid⟩ := returns_iff.mp run
  obtain ⟨region, rfl, request⟩ := returns_iff.mp valid
  obtain ⟨result, accepted, success⟩ := returns_iff.mp request
  obtain ⟨permissions, rfl, -⟩ := returns_iff.mp success
  exact ⟨region, permissions, sent, accepted⟩

/-- Partition 2 repeats both receivers. -/
theorem retrieve_both_receivers_match :
    ∃ region permissions, ffaMemorySendValidate (blockVm 1 0 none) lendToTwo 96 96 .lend = .ok (.ok region) ∧
      ffaMemoryRetrieveValidateMemoryAccessList region (retrieveNaming 3) 2 = .ok (.ok permissions) ∧
      MatchesSent region (retrieveNaming 3) 2 permissions := by
  obtain ⟨region, permissions, sent, accepted⟩ := @retrieveNaming_accepted 3 (by decide +kernel)
  exact ⟨region, permissions, sent, accepted,
    (retrieve_receivers_match_iff (ffaMemorySendValidate_ok sent) accepted).mpr (by decide +kernel)⟩

/-- Partition 2 names itself twice in place of partition 3, and is accepted. -/
theorem retrieve_repeated_receiver_accepted :
    ∃ region permissions, ffaMemorySendValidate (blockVm 1 0 none) lendToTwo 96 96 .lend = .ok (.ok region) ∧
      ffaMemoryRetrieveValidateMemoryAccessList region (retrieveNaming 2) 2 = .ok (.ok permissions) ∧
      3 ∈ region.receiverIds ∧ 3 ∉ (retrieveNaming 2).receiverIds := by
  obtain ⟨region, permissions, sent, accepted⟩ := @retrieveNaming_accepted 2 (by decide +kernel)
  have same := (ffaMemorySendValidate_ok sent).same
  refine ⟨region, permissions, sent, accepted, MemoryRegion.mem_receiverIds.mpr ⟨1, ?_,
    ?_⟩, by decide +kernel⟩
  · rw [same.receiverCount]
    decide +kernel
  · rw [same.receiver]
    decide +kernel

end Hafnium.Ffa
