import Hafnium.Ffa.Atomicity
import Hafnium.Ffa.Stops

/-! # Transactions that cross the worlds

A descriptor that was validated is forwarded to the other world, which validates it again; sharing
rewrites it to one that validation rejects. When memory is reclaimed, its description comes from the
TEE in fragments. The copies of them stay in the retrieve buffer, and the loop ends if no fragment
is empty.
-/

namespace Hafnium.Ffa

open Mm Partial

variable {m : MmConfig}

/-! ## Validation of what was validated -/

variable {vm : Vm m} {region : MemoryRegion}

section Revalidation

variable {func : ShareFunc} {offset : BitVec 32} {region' : MemoryRegion} {i : Nat}

theorem sendValidateReceiver_keeps (notShare : func ≠ .share)
    (valid : sendValidateReceiver func offset region i = .ok region') : region' = region := by
  simp only [sendValidateReceiver, bind_ok_iff] at valid
  obtain ⟨-, -, -, -, -, -, -, -, -, -, valid⟩ := valid
  cases func with
  | share => exact absurd rfl notShare
  | lend =>
    obtain ⟨-, -, valid⟩ := bind_ok_iff.mp valid
    exact (Except.ok.inj valid).symm
  | donate =>
    obtain ⟨-, -, valid⟩ := bind_ok_iff.mp valid
    exact (Except.ok.inj valid).symm

theorem sendValidateReceivers_keeps (notShare : func ≠ .share) {l : List Nat}
    (valid : l.foldlM (sendValidateReceiver func offset) region = .ok region') : region' = region := by
  induction l with
  | nil => exact (Except.ok.inj valid).symm
  | cons i rest ih =>
    obtain ⟨region₁, one, valid⟩ := bind_ok_iff.mp valid
    rw [sendValidateReceiver_keeps notShare one] at valid
    exact ih valid

/-- Only sharing rewrites the permissions. -/
theorem sendValidateRegion_keeps (notShare : func ≠ .share)
    (valid : sendValidateRegion func region = .ok region') : region' = region := by
  simp only [sendValidateRegion, bind_ok_iff] at valid
  obtain ⟨-, -, -, -, validated, receivers, -, -, ⟨⟩⟩ := valid
  exact sendValidateReceivers_keeps notShare receivers

theorem require_cases (condition : Prop) [Decidable condition] (error : FfaError) :
    require condition error = .ok () ∨ require condition error = .error error := by
  rw [require]
  split
  · exact .inl rfl
  · exact .inr rfl

/-- A check that is answered as everything after it. -/
theorem require_bind_error {condition : Prop} [Decidable condition] {error : FfaError} {α : Type}
    {next : Unit → Except FfaError α} (later : next () = .error error) :
    (require condition error >>= next) = .error error := by
  rcases require_cases condition error with passed | failed
  · rw [passed]
    exact later
  · rw [failed]
    rfl

/-- The sender must not ask for an instruction access. -/
theorem sendValidateReceiver_rejects
    (specified : ffaGetInstructionAccessAttr (region.receivers i).permissions ≠ .notSpecified) :
    sendValidateReceiver func offset region i = .error .invalidParameters := by
  refine require_bind_error (require_bind_error (require_bind_error (require_bind_error ?_)))
  rw [require, if_neg specified]
  rfl

theorem sendValidateRegion_rejects (some : 0 < region.receiverCount.toNat)
    (specified : ffaGetInstructionAccessAttr (region.receivers 0).permissions ≠ .notSpecified) :
    sendValidateRegion func region = .error .invalidParameters := by
  refine require_bind_error (require_bind_error ?_)
  obtain ⟨n, count⟩ := Nat.exists_eq_succ_of_ne_zero some.ne'
  rw [count, List.range_succ_eq_map, List.foldlM_cons, sendValidateReceiver_rejects specified]
  rfl

variable {memoryShareLength fragmentLength : BitVec 32}

/-- Validation reads nothing that it rewrites before it comes to the receivers. -/
theorem ffaMemorySendValidate_same (same : region.SameButPermissions region')
    (valid : ffaMemorySendValidate vm region memoryShareLength fragmentLength func = .ok (.ok region')) :
    0 < region'.receiverCount.toNat ∧ sendValidateRegion func region = .ok region' ∧
      ffaMemorySendValidate vm region' memoryShareLength fragmentLength func =
        .ok (sendValidateRegion func region') := by
  have offsets : ffaCompositeConstituentOffset region' 0 = ffaCompositeConstituentOffset region 0 := by
    rw [ffaCompositeConstituentOffset, ffaCompositeConstituentOffset, same.receiverCount, same.composite]
  have composites : ffaMemoryRegionGetComposite hfMailboxSize region' 0 =
      ffaMemoryRegionGetComposite hfMailboxSize region 0 := by
    rw [ffaMemoryRegionGetComposite, ffaMemoryRegionGetComposite, same.composite, same.bytes]
  simp only [ffaMemorySendValidate] at valid ⊢
  rw [same.sender, same.receiverCount, same.composite, offsets, composites]
  split at valid
  · cases valid
  · next sender =>
    rw [if_neg sender]
    obtain ⟨constituentsOffset, found, valid⟩ := bind_ok_iff.mp valid
    have some : 0 < region.receiverCount.toNat := by
      rw [ffaCompositeConstituentOffset] at found
      split at found
      · cases found
      · next inRange => exact not_not.mp inRange
    split at valid
    · cases valid
    · next bounds =>
      obtain ⟨composite, header, valid⟩ := bind_ok_iff.mp valid
      split at valid
      · cases valid
      · next lengths =>
        refine ⟨some, Except.ok.inj valid, ?_⟩
        rw [found]
        change (if _ then _ else _) = _
        rw [if_neg bounds, header]
        change (if _ then _ else _) = _
        rw [if_neg lengths]

/-- Validation accepts its own output, unchanged, unless the region is shared. -/
theorem ffaMemorySendValidate_again_iff
    (valid : ffaMemorySendValidate vm region memoryShareLength fragmentLength func = .ok (.ok region')) :
    ((∃ again, ffaMemorySendValidate vm region' memoryShareLength fragmentLength func =
      .ok (.ok again)) ↔ func ≠ .share) ∧
      (func ≠ .share → ffaMemorySendValidate vm region' memoryShareLength fragmentLength func =
        .ok (.ok region')) ∧
      (func = .share →
        ffaMemorySendValidate vm region' memoryShareLength fragmentLength func =
          .ok (.error .invalidParameters)) := by
  have validated := ffaMemorySendValidate_ok valid
  obtain ⟨some, accepted, again⟩ := ffaMemorySendValidate_same validated.same valid
  have kept (notShare : func ≠ .share) :
      ffaMemorySendValidate vm region' memoryShareLength fragmentLength func = .ok (.ok region') := by
    rw [sendValidateRegion_keeps notShare accepted]
    rw [sendValidateRegion_keeps notShare accepted] at valid
    exact valid
  have rejected (share : func = .share) :
      ffaMemorySendValidate vm region' memoryShareLength fragmentLength func =
        .ok (.error .invalidParameters) := by
    subst share
    rw [again, sendValidateRegion_rejects some]
    have stored := (validated.permits 0 (validated.same.receiverCount ▸ some)).2
    rw [stored]
    decide
  refine ⟨⟨fun ⟨second, accepts⟩ share => ?_, fun notShare => ⟨region', kept notShare⟩⟩, kept, rejected⟩
  rw [rejected share] at accepts
  cases accepts

end Revalidation

/-- Lending a page to the TEE passes twice. -/
theorem ffaMemorySendValidate_again_lend :
    ∃ region', ffaMemorySendValidate (blockVm 1 0 none) (memoryRegionFrom lendOwnPage)
      80 80 .lend = .ok (.ok region') ∧
      ffaMemorySendValidate (blockVm 1 0 none) region' 80 80 .lend = .ok (.ok region') := by
  have accepted : Partial.returns (ffaMemorySendValidate (blockVm 1 0 none)
      (memoryRegionFrom lendOwnPage) 80 80 .lend) (fun r => r.isOk) = true := by decide +kernel
  obtain ⟨result, returned, isOk⟩ := returns_iff.mp accepted
  cases result with
  | error e => cases isOk
  | ok region' => exact ⟨region', returned, (ffaMemorySendValidate_again_iff returned).2.1 (by decide)⟩

/-- Partition 1 offers to share a page of its own with the TEE. -/
def shareWithTee : Bytes :=
  messageOf [(0, 1), (2, 0x2f), (28, 1), (33, 0x80), (34, 2), (36, 48), (52, 1), (65, 0x10), (72, 1)]

/-- Sharing the page passes once. -/
theorem ffaMemorySendValidate_share_once :
    ∃ region', ffaMemorySendValidate (blockVm 1 0 none) (memoryRegionFrom shareWithTee)
      80 80 .share = .ok (.ok region') ∧
      ffaMemorySendValidate (blockVm 1 0 none) region' 80 80 .share = .ok (.error .invalidParameters) := by
  have accepted : Partial.returns (ffaMemorySendValidate (blockVm 1 0 none)
      (memoryRegionFrom shareWithTee) 80 80 .share)
      (fun r => r.casesOn (fun _ => false) fun region' =>
        Partial.returns (ffaMemorySendValidate (blockVm 1 0 none) region' 80 80 .share) fun r =>
          r.casesOn (fun e => decide (e = .invalidParameters)) fun _ => false) = true := by decide +kernel
  obtain ⟨result, returned, rejected⟩ := returns_iff.mp accepted
  cases result with
  | error e => cases rejected
  | ok region' =>
    obtain ⟨again, returned', isError⟩ := returns_iff.mp rejected
    cases again with
    | error e => exact ⟨region', returned, of_decide_eq_true isError ▸ returned'⟩
    | ok region'' => cases isError

/-! ## Fetching a description from the TEE -/

/-- A copy from the send buffer of the TEE to the retrieve buffer. -/
structure TeeCopy where
  offset : Nat
  length : Nat
  source : Bytes

def TeeCopy.apply (buffer : Bytes) (copy : TeeCopy) : Bytes :=
  fun k => if copy.offset ≤ k ∧ k < copy.offset + copy.length then copy.source (k - copy.offset) else buffer k

/-- The answer is a fragment that is copied to the given offset. -/
def FfaValue.IsFragment (value : FfaValue) (handle : Handle) (length fragmentOffset : Nat) : Prop :=
  value.func = ffaMemFragTx32 ∧ ffaFragHandle value = handle ∧ ffaFragSender value = 0 ∧
    (value.arg3.setWidth 32).toNat ≤ hfMailboxSize ∧ fragmentOffset + (value.arg3.setWidth 32).toNat ≤ length

instance (value : FfaValue) (handle : Handle) (length fragmentOffset : Nat) :
    Decidable (value.IsFragment handle length fragmentOffset) := inferInstanceAs (Decidable (_ ∧ _))

/-- The copies of the loop that fetches the remaining fragments. -/
def teeFragmentCopies (handle : Handle) (length : Nat) :
    List TeeAnswer → (fragmentOffset : Nat) → List TeeCopy
  | [], _ => []
  | answer :: rest, fragmentOffset =>
    if fragmentOffset < length ∧ answer.value.IsFragment handle length fragmentOffset then
      let fragmentLength := (answer.value.arg3.setWidth 32).toNat
      ⟨fragmentOffset, fragmentLength, answer.send⟩ :: teeFragmentCopies handle length rest
        (fragmentOffset + fragmentLength)
    else []

/-- The answer is the first fragment of a description of this length. -/
def FfaValue.IsDescription (value : FfaValue) (length fragmentLength : Nat) : Prop :=
  value.func = ffaMemRetrieveResp32 ∧ (value.arg1.setWidth 32).toNat = length ∧
    (value.arg2.setWidth 32).toNat = fragmentLength ∧ fragmentLength ≤ hfMailboxSize ∧
      fragmentLength ≤ length ∧ length ≤ teeRetrieveBufferSize

instance (value : FfaValue) (length fragmentLength : Nat) :
    Decidable (value.IsDescription length fragmentLength) :=
  inferInstanceAs (Decidable (_ ∧ _))

/-- All copies of a reclaim. -/
def teeReclaimCopies (handle : Handle) : List TeeAnswer → List TeeCopy
  | [] => []
  | answer :: rest =>
    let length := (answer.value.arg1.setWidth 32).toNat
    let fragmentLength := (answer.value.arg2.setWidth 32).toNat
    if answer.value.IsDescription length fragmentLength then
      ⟨0, fragmentLength, answer.send⟩ :: teeFragmentCopies handle length rest fragmentLength
    else []

section Fetch

variable {tee : Vm m} {handle : Handle} {length fragmentOffset : Nat} {buffer : Bytes}

/-- One round of the loop. -/
theorem teeRetrieveFragments_cases (handle : Handle) (answer : TeeAnswer) (rest : List TeeAnswer)
    (buffer : Bytes) (more : fragmentOffset < length) :
    (¬answer.value.IsFragment handle length fragmentOffset ∧
      ∃ ret, teeRetrieveFragments handle length (answer :: rest) fragmentOffset buffer =
        .ok (.error ret, rest)) ∨
    (answer.value.IsFragment handle length fragmentOffset ∧
      teeRetrieveFragments handle length (answer :: rest) fragmentOffset buffer =
        teeRetrieveFragments handle length rest (fragmentOffset + (answer.value.arg3.setWidth 32).toNat)
          (TeeCopy.apply buffer ⟨fragmentOffset, (answer.value.arg3.setWidth 32).toNat, answer.send⟩)) := by
  simp only [teeRetrieveFragments, if_pos more]
  split
  · next other => exact .inl ⟨fun fragment => other fragment.1, _, rfl⟩
  · next func =>
    split
    · next other => exact .inl ⟨fun fragment => other fragment.2.1, _, rfl⟩
    · next sameHandle =>
      split
      · next other => exact .inl ⟨fun fragment => other fragment.2.2.1, _, rfl⟩
      · next sender =>
        split
        · next long => exact .inl ⟨fun ⟨_, _, _, inMailbox, fits⟩ => by omega, _, rfl⟩
        · next short =>
          rw [not_or, Nat.not_lt, Nat.not_lt] at short
          exact .inr ⟨⟨not_not.mp func, not_not.mp sameHandle, not_not.mp sender, short⟩, rfl⟩

theorem teeRetrieveFragments_done (handle : Handle) (answers : List TeeAnswer) (buffer : Bytes)
    (done : ¬fragmentOffset < length) :
    teeRetrieveFragments handle length answers fragmentOffset buffer = .ok (.ok buffer, answers) := by
  cases answers with
  | nil => rw [teeRetrieveFragments, if_neg done]
  | cons answer rest => rw [teeRetrieveFragments, if_neg done]

/-- The loop copies within the description. -/
theorem teeFragmentCopies_bounds (handle : Handle) (answers : List TeeAnswer) :
    ∀ copy ∈ teeFragmentCopies handle length answers fragmentOffset,
      copy.length ≤ hfMailboxSize ∧ copy.offset + copy.length ≤ length := by
  induction answers generalizing fragmentOffset with
  | nil =>
    intro copy member
    cases member
  | cons answer rest ih =>
    rw [teeFragmentCopies]
    split
    · next accepted =>
      rw [List.forall_mem_cons]
      exact ⟨accepted.2.2.2.2, ih⟩
    · intro copy member
      cases member

variable {answers rest : List TeeAnswer}

/-- The description is what was copied. -/
theorem teeRetrieveFragments_copies {bytes : Bytes}
    (ran : teeRetrieveFragments handle length answers fragmentOffset buffer = .ok (.ok bytes, rest)) :
    bytes = (teeFragmentCopies handle length answers fragmentOffset).foldl TeeCopy.apply buffer := by
  induction answers generalizing fragmentOffset buffer with
  | nil =>
    rw [teeRetrieveFragments] at ran
    split at ran
    · cases ran
    · cases ran
      rfl
  | cons answer answers ih =>
    rw [teeFragmentCopies]
    by_cases more : fragmentOffset < length
    · rcases teeRetrieveFragments_cases handle answer answers buffer more with ⟨-, ret,
          stops⟩ | ⟨fragment, goesOn⟩
      · rw [stops] at ran
        cases ran
      · rw [goesOn] at ran
        rw [if_pos ⟨more, fragment⟩]
        exact ih ran
    · rw [teeRetrieveFragments_done handle _ buffer more] at ran
      cases ran
      rw [if_neg fun accepted => more accepted.1]
      rfl

/-- An empty fragment. -/
def FfaValue.IsEmptyFragment (value : FfaValue) (handle : Handle) : Prop :=
  value.func = ffaMemFragTx32 ∧ ffaFragHandle value = handle ∧ ffaFragSender value = 0 ∧
    (value.arg3.setWidth 32).toNat = 0

/-- Without empty fragments every round gets closer to the end of the description. -/
theorem teeRetrieveFragments_calls (buffer : Bytes)
    (progress : ∀ answer ∈ answers, ¬answer.value.IsEmptyFragment handle) :
    (∃ result rest, teeRetrieveFragments handle length answers fragmentOffset buffer = .ok (result, rest) ∧
      answers.length ≤ rest.length + (length - fragmentOffset)) ∨
        answers.length < length - fragmentOffset := by
  induction answers generalizing fragmentOffset buffer with
  | nil =>
    by_cases more : fragmentOffset < length
    · exact .inr (Nat.sub_pos_of_lt more)
    · exact .inl ⟨_, _, teeRetrieveFragments_done handle _ buffer more, Nat.zero_le _⟩
  | cons answer answers ih =>
    by_cases more : fragmentOffset < length
    · rw [List.forall_mem_cons] at progress
      rcases teeRetrieveFragments_cases handle answer answers buffer more with ⟨-, ret,
          stops⟩ | ⟨fragment, goesOn⟩
      · refine .inl ⟨_, _, stops, ?_⟩
        rw [List.length_cons]
        omega
      · have nonempty : (answer.value.arg3.setWidth 32).toNat ≠ 0 := fun empty =>
          progress.1 ⟨fragment.1, fragment.2.1, fragment.2.2.1, empty⟩
        rw [goesOn, List.length_cons]
        rcases ih _ progress.2 with
          ⟨result, rest, ran, bound⟩ | bound
        · exact .inl ⟨result, rest, ran, by omega⟩
        · exact .inr (by omega)
    · exact .inl ⟨_, _, teeRetrieveFragments_done handle _ buffer more, Nat.le_add_right ..⟩

/-- Empty fragments keep the loop going. -/
theorem teeRetrieveFragments_stalls (handle : Handle) (answers : List TeeAnswer) (buffer : Bytes)
    (more : fragmentOffset < length)
    (empty : ∀ answer ∈ answers, answer.value.IsEmptyFragment handle) :
    teeRetrieveFragments handle length answers fragmentOffset buffer = .error .otherWorldSilent := by
  induction answers generalizing buffer with
  | nil => rw [teeRetrieveFragments, if_pos more]
  | cons answer answers ih =>
    rw [List.forall_mem_cons] at empty
    obtain ⟨func, sameHandle, sender, zero⟩ := empty.1
    rcases teeRetrieveFragments_cases handle answer answers buffer more with ⟨other, -⟩ | ⟨-, goesOn⟩
    · exact absurd ⟨func, sameHandle, sender, by omega, by omega⟩ other
    · rw [goesOn, zero, Nat.add_zero]
      exact ih _ empty.2

/-- The TEE can be called and has a buffer to read from. -/
def Vm.IsTee (tee : Vm m) : Prop :=
  tee.mailbox.recv = true ∧ tee.id = hfTeeVmId ∧ tee.mailbox.send.isSome = true

/-- The first answer and what follows from it. -/
theorem teeReclaimRegion_cases (ready : tee.IsTee) (vm : Vm m) (handle : Handle)
    (answer : TeeAnswer) (rest : List TeeAnswer) (buffer : Bytes) :
    let length := (answer.value.arg1.setWidth 32).toNat
    let fragmentLength := (answer.value.arg2.setWidth 32).toNat
    let fetch := teeRetrieveFragments handle length rest fragmentLength
      (TeeCopy.apply buffer ⟨0, fragmentLength, answer.send⟩)
    (¬answer.value.IsDescription length fragmentLength ∧
      ∃ ret, teeReclaimRegion vm tee handle (answer :: rest) buffer = .ok (.error ret, rest)) ∨
    (answer.value.IsDescription length fragmentLength ∧
      ((∃ abort, fetch = .error abort ∧ teeReclaimRegion vm tee handle (answer :: rest)
        buffer = .error abort) ∨
        ∃ fetched rest' result, fetch = .ok (fetched, rest') ∧
          teeReclaimRegion vm tee handle (answer :: rest) buffer = .ok (result, rest') ∧
          ∀ region, result = .ok region → ∃ bytes, fetched = .ok bytes ∧
            region = memoryRegionFrom bytes)) := by
  obtain ⟨recv, isTee, send⟩ := ready
  have first : TeeCopy.apply buffer ⟨0, (answer.value.arg2.setWidth 32).toNat, answer.send⟩ =
      fun k => if k < (answer.value.arg2.setWidth 32).toNat then answer.send k else buffer k := by
    funext k
    simp [TeeCopy.apply]
  intro length fragmentLength fetch
  generalize reclaim : teeReclaimRegion vm tee handle (answer :: rest) buffer = outcome
  rw [teeReclaimRegion, recv, isTee, if_neg (by decide), if_neg (not_not.mpr rfl), otherWorldCall] at reclaim
  change (if _ then _ else _) = _ at reclaim
  split at reclaim
  · next failed =>
    refine .inl ⟨fun description => ?_, _, reclaim.symm⟩
    rw [description.1] at failed
    revert failed
    decide
  · split at reclaim
    · next other => exact .inl ⟨fun description => other description.1, _, reclaim.symm⟩
    · next func =>
      split at reclaim
      · next long =>
        refine .inl ⟨?_, _, reclaim.symm⟩
        rintro ⟨-, -, -, inMailbox, inside, fits⟩
        omega
      · next fits =>
        refine .inr ⟨⟨not_not.mp func, rfl, rfl, by omega, by omega, by omega⟩, ?_⟩
        rw [if_neg (by simp [Option.isSome_iff_ne_none.mp send]), ← first] at reclaim
        change (fetch >>= _) = _ at reclaim
        -- What was fetched is returned as a region if it passes the last checks.
        rcases fetched : fetch with abort | ⟨bytes, rest'⟩
        · rw [fetched] at reclaim
          exact .inl ⟨abort, rfl, reclaim.symm⟩
        · rw [fetched] at reclaim
          refine .inr ⟨bytes, rest', ?_⟩
          cases bytes with
          | error ret => exact ⟨_, rfl, reclaim.symm, fun region isRegion => (by cases isRegion)⟩
          | ok bytes =>
            change (if _ then _ else if _ then _ else if _ then _ else _) = _ at reclaim
            split at reclaim
            · exact ⟨_, rfl, reclaim.symm, fun region isRegion => (by cases isRegion)⟩
            · split at reclaim
              · exact ⟨_, rfl, reclaim.symm, fun region isRegion => (by cases isRegion)⟩
              · split at reclaim
                · exact ⟨_, rfl, reclaim.symm, fun region isRegion => (by cases isRegion)⟩
                · exact ⟨_, rfl, reclaim.symm, fun region isRegion => ⟨bytes, rfl,
                    (Except.ok.inj isRegion).symm⟩⟩

/-- Without buffers no region is fetched. -/
theorem teeReclaimRegion_unready (unready : ¬tee.IsTee) (vm : Vm m) (handle : Handle)
    (answer : TeeAnswer) (rest : List TeeAnswer) (buffer : Bytes) :
    (∃ abort, abort ≠ .otherWorldSilent ∧ teeReclaimRegion vm tee handle (answer :: rest)
      buffer = .error abort) ∨
      ∃ ret, teeReclaimRegion vm tee handle (answer :: rest) buffer = .ok (.error ret, rest) := by
  generalize reclaim : teeReclaimRegion vm tee handle (answer :: rest) buffer = outcome
  rw [teeReclaimRegion] at reclaim
  split at reclaim
  · exact .inl ⟨_, by decide, reclaim.symm⟩
  · next recv =>
    split at reclaim
    · exact .inl ⟨_, by decide, reclaim.symm⟩
    · next isTee =>
      have noSend : tee.mailbox.send.isNone = true := by
        by_contra send
        rw [Bool.not_eq_true, Option.isNone_eq_false_iff] at send
        exact unready ⟨by simpa using recv, not_not.mp isTee, send⟩
      change (if _ then _ else _) = _ at reclaim
      split at reclaim
      · exact .inr ⟨_, reclaim.symm⟩
      · split at reclaim
        · exact .inr ⟨_, reclaim.symm⟩
        · split at reclaim
          · exact .inr ⟨_, reclaim.symm⟩
          · exact .inl ⟨_, by decide, reclaim.symm⟩

/-- The other world is not called again when it has answers left. -/
theorem teeReclaimCheckUpdate_answered (vm : Vm m) (f : Fragments) (attributes : Mode)
    (left : answers ≠ []) (pool : Mpool) :
    Avoids (· = .otherWorldSilent) (ffaTeeReclaimCheckUpdate vm f attributes answers pool) := by
  rw [ffaTeeReclaimCheckUpdate]
  split
  · apply Avoids.bind (avoids_retrieveCheckTransition (by decide) _ _ _ _)
    intro transition
    cases transition with
    | error e => exact .ok _
    | ok toMode =>
      apply Avoids.bind (avoids_regionIdentityMap (by decide) _ _ _ _ _)
      intro prepared
      split
      · obtain ⟨answer, rest, rfl⟩ := List.exists_cons_of_ne_nil left
        change Avoids _ (if _ then _ else _)
        split
        · exact .ok _
        · exact .bind (avoids_commitRegion (by decide) (by decide) _ _ _ _) fun _ => .ok _
      · exact .ok _
  · exact .ok _

/-- All the answers that a TEE may give include those that keep the loop going. -/
def TeeCanStall (tee : Vm m) (handle : Handle) (allowed : TeeAnswer → Prop) : Prop :=
  tee.IsTee ∧
  (∃ answer length fragmentLength, allowed answer ∧
    answer.value.IsDescription length fragmentLength ∧ fragmentLength < length) ∧
  ∃ answer, allowed answer ∧ answer.value.IsEmptyFragment handle

/-- Without such answers the description is fetched with one call and at most one for each byte of the
buffer. -/
theorem teeReclaimRegion_answered {allowed : TeeAnswer → Prop}
    (progress : ¬TeeCanStall tee handle allowed) (vm : Vm m)
    (all : ∀ answer ∈ answers, allowed answer) (enough : teeRetrieveBufferSize + 1 ≤ answers.length)
    (buffer : Bytes) :
    Avoids (· = .otherWorldSilent) (teeReclaimRegion vm tee handle answers buffer) ∧
      ∀ region rest, teeReclaimRegion vm tee handle answers buffer = .ok (.ok region, rest) →
        answers.length ≤ rest.length + (teeRetrieveBufferSize + 1) := by
  obtain ⟨answer, rest, rfl⟩ := List.exists_cons_of_ne_nil
    (List.ne_nil_of_length_pos (by omega : 0 < answers.length))
  rw [List.length_cons] at enough
  rw [List.forall_mem_cons] at all
  by_cases ready : tee.IsTee
  · rcases teeReclaimRegion_cases ready vm handle answer rest buffer with ⟨-, ret,
        refused⟩ | ⟨description, outcome⟩
    · rw [refused]
      exact ⟨.ok _, fun region rest ran => (by cases ran)⟩
    · have fetches : ∃ fetched rest', teeRetrieveFragments handle (answer.value.arg1.setWidth 32).toNat rest
          (answer.value.arg2.setWidth 32).toNat
          (TeeCopy.apply buffer ⟨0, (answer.value.arg2.setWidth 32).toNat, answer.send⟩) =
            .ok (fetched, rest') ∧ rest.length ≤ rest'.length + teeRetrieveBufferSize := by
        have length := description.2.2.2.2.2
        by_cases more : (answer.value.arg2.setWidth 32).toNat < (answer.value.arg1.setWidth 32).toNat
        · have nonempty : ∀ later ∈ rest, ¬later.value.IsEmptyFragment handle := fun later member empty =>
            progress ⟨ready, ⟨answer, _, _, all.1, description, more⟩, later, all.2 later member, empty⟩
          rcases teeRetrieveFragments_calls _ nonempty with ⟨fetched, rest', fetch, bound⟩ | bound
          · exact ⟨fetched, rest', fetch, by omega⟩
          · omega
        · exact ⟨_, rest, teeRetrieveFragments_done handle rest _ more, Nat.le_add_right ..⟩
      obtain ⟨fetched, rest', fetch, left⟩ := fetches
      rcases outcome with ⟨abort, stopped, -⟩ | ⟨fetched', rest'', result, same, reclaim, -⟩
      · rw [fetch] at stopped
        cases stopped
      · rw [fetch, Except.ok.injEq, Prod.mk.injEq] at same
        rw [reclaim, ← same.2]
        refine ⟨.ok _, fun region rest ran => ?_⟩
        rw [Except.ok.injEq, Prod.mk.injEq] at ran
        rw [List.length_cons, ← ran.2]
        omega
  · rcases teeReclaimRegion_unready ready vm handle answer rest buffer with ⟨abort, other,
        stopped⟩ | ⟨ret, refused⟩
    · rw [stopped]
      exact ⟨.error other, fun region rest ran => (by cases ran)⟩
    · rw [refused]
      exact ⟨.ok _, fun region rest ran => (by cases ran)⟩

/-- The region is read from what was copied. -/
theorem teeReclaimRegion_copies
    (ran : teeReclaimRegion vm tee handle answers buffer = .ok (.ok region, rest)) :
    region = memoryRegionFrom ((teeReclaimCopies handle answers).foldl TeeCopy.apply buffer) := by
  cases answers with
  | nil =>
    rw [teeReclaimRegion] at ran
    split at ran
    · cases ran
    · split at ran
      · cases ran
      · cases ran
  | cons answer answers =>
    by_cases ready : tee.IsTee
    · rcases teeReclaimRegion_cases ready vm handle answer answers buffer with
        ⟨-, ret, refused⟩ | ⟨description, ⟨abort, -, stopped⟩ | ⟨fetched, rest', result, fetch,
          reclaim, read⟩⟩
      · rw [refused] at ran
        cases ran
      · rw [stopped] at ran
        cases ran
      · rw [reclaim, Except.ok.injEq, Prod.mk.injEq] at ran
        obtain ⟨bytes, rfl, rfl⟩ := read region ran.1
        simp only [teeReclaimCopies, if_pos description]
        rw [List.foldl_cons, teeRetrieveFragments_copies fetch]
    · rcases teeReclaimRegion_unready ready vm handle answer answers buffer with ⟨abort, -,
          stopped⟩ | ⟨ret, refused⟩
      · rw [stopped] at ran
        cases ran
      · rw [refused] at ran
        cases ran

/-- Empty fragments after an incomplete description. -/
theorem ffaMemoryTeeReclaim_stalls (ready : tee.IsTee) {first : TeeAnswer} {fragmentLength : Nat}
    (description : first.value.IsDescription length fragmentLength) (more : fragmentLength < length)
    (empty : ∀ answer ∈ answers, answer.value.IsEmptyFragment handle) (vm : Vm m) (buffer : Bytes)
    (s : Sharing m) :
    ffaMemoryTeeReclaim vm tee handle (first :: answers) buffer s = .error .otherWorldSilent := by
  obtain ⟨-, rfl, rfl, -⟩ := id description
  have fetch := teeRetrieveFragments_stalls handle answers
    (TeeCopy.apply buffer ⟨0, (first.value.arg2.setWidth 32).toNat, first.send⟩) more empty
  rcases teeReclaimRegion_cases ready vm handle first answers buffer with
    ⟨other, -⟩ | ⟨-, ⟨abort, silent, stopped⟩ | ⟨_, _, _, fetched, -⟩⟩
  · exact absurd description other
  · rw [fetch, Except.error.injEq] at silent
    rw [ffaMemoryTeeReclaim, stopped, ← silent]
    rfl
  · rw [fetch] at fetched
    cases fetched

/-- Reclaiming from the TEE copies into the retrieve buffer only, and what is read there is what was
copied. The calls to the other world are bounded, by one for each byte of the buffer, one before and
one after them, if and only if the TEE does not keep the loop going with empty fragments. -/
theorem ffaMemoryTeeReclaim_calls_iff (vm tee : Vm m) (handle : Handle) (allowed : TeeAnswer → Prop)
    (buffer : Bytes) (s : Sharing m) :
    (∀ answers, ∀ copy ∈ teeReclaimCopies handle answers,
      copy.length ≤ hfMailboxSize ∧ copy.offset + copy.length ≤ teeRetrieveBufferSize) ∧
    (∀ answers region rest, teeReclaimRegion vm tee handle answers buffer = .ok (.ok region, rest) →
      region = memoryRegionFrom ((teeReclaimCopies handle answers).foldl TeeCopy.apply buffer)) ∧
    ((∀ answers, (∀ answer ∈ answers, allowed answer) →
      (teeRetrieveBufferSize + 1 ≤ answers.length →
        teeReclaimRegion vm tee handle answers buffer ≠ .error .otherWorldSilent) ∧
      (teeRetrieveBufferSize + 2 ≤ answers.length →
        ffaMemoryTeeReclaim vm tee handle answers buffer s ≠ .error .otherWorldSilent)) ↔
      ¬TeeCanStall tee handle allowed) := by
  refine ⟨fun answers copy member => ?_, fun answers region rest returned => teeReclaimRegion_copies returned,
    fun bounded stall => ?_, fun progress answers all => ⟨fun enough silent => ?_, fun enough silent => ?_⟩⟩
  · cases answers with
    | nil => cases member
    | cons answer rest =>
      rw [teeReclaimCopies] at member
      split at member
      · next description =>
        have length := description.2.2.2.2.2
        rcases List.mem_cons.mp member with rfl | later
        · obtain ⟨-, -, -, inMailbox, inside, -⟩ := description
          exact ⟨inMailbox, by dsimp only; omega⟩
        · have bounds := teeFragmentCopies_bounds handle rest copy later
          exact ⟨bounds.1, by omega⟩
      · cases member
  · obtain ⟨ready, ⟨first, length, fragmentLength, allowedFirst, description, more⟩, empty,
        allowedEmpty, isEmpty⟩ := stall
    have same {answer : TeeAnswer} (member : answer ∈ List.replicate (teeRetrieveBufferSize + 2)
        empty) : answer = empty :=
      List.eq_of_mem_replicate member
    refine (bounded _ ?_).2 ?_
      (ffaMemoryTeeReclaim_stalls ready description more (fun answer member =>
        same member ▸ isEmpty) vm buffer s)
    · rw [List.forall_mem_cons]
      exact ⟨allowedFirst, fun answer member => same member ▸ allowedEmpty⟩
    · rw [List.length_cons, List.length_replicate]
      exact Nat.le_succ _
  · exact (teeReclaimRegion_answered progress vm all enough buffer).1 _ silent rfl
  · obtain ⟨answered, left⟩ := teeReclaimRegion_answered progress vm all (by omega) buffer
    refine Avoids.bind_ok answered (fun fetched returned => ?_) .otherWorldSilent silent rfl
    obtain ⟨result, rest⟩ := fetched
    cases result with
    | error ret => exact .ok _
    | ok region =>
      have bound := left region rest returned
      apply Avoids.bind (avoids_getComposite (by decide) _ _ _)
      intro composite
      exact .bind (teeReclaimCheckUpdate_answered _ _ _ (List.ne_nil_of_length_pos (by omega)) _)
        fun _ => .ok _

end Fetch

/-- A TEE that answers with the first byte of a description of two bytes and then with empty fragments
is called without end. -/
theorem ffaMemoryTeeReclaim_unbounded :
    let first : TeeAnswer := ⟨{ func := ffaMemRetrieveResp32, arg1 := 2, arg2 := 1 }, fun _ => 0⟩
    let empty : TeeAnswer := ⟨{ func := ffaMemFragTx32 }, fun _ => 0⟩
    ∀ n, ffaMemoryTeeReclaim (blockVm 1 0 none) (blockVm 0x8000 5 (some fun _ => 0))
      0 (first :: List.replicate n empty) (fun _ => 0) freshSharing = .error .otherWorldSilent := by
  intro first empty n
  have description : first.value.IsDescription 2 1 := by decide
  have isEmpty : empty.value.IsEmptyFragment 0 := ⟨rfl, by decide, by decide, by decide⟩
  exact ffaMemoryTeeReclaim_stalls ⟨rfl, rfl, rfl⟩ description (by decide)
    (fun answer member => List.eq_of_mem_replicate member ▸ isEmpty) _ _ _

end Hafnium.Ffa
