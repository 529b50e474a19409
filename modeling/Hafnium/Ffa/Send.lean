import Hafnium.Ffa.ShareState

/-! # Sending memory

`ffaMemorySend` validates the descriptor of a donate, lend or share request, allocates a share
state and completes the transaction at once if everything fits into one message.
`ffaMemorySendContinue` adds further fragments and completes it with the last one.
-/

namespace Hafnium.Ffa

open Mm Partial Function

variable {m : MmConfig}

/-- A check that is answered with an error. -/
def require (condition : Prop) [Decidable condition] (error : FfaError) : Except FfaError Unit :=
  if condition then .ok () else .error error

theorem require_ok_iff {condition : Prop} [Decidable condition] {error : FfaError} {done : Unit} :
    require condition error = .ok done ↔ condition := by
  rw [require]
  split
  · simp [*]
  · simp [*]

def ffaMemoryAttributesValidate (attributes : MemoryAttributes) : Except FfaError Unit := do
  require (ffaGetMemoryTypeAttr attributes = ffaMemoryNormalMem) .denied
  require (ffaGetMemoryCacheabilityAttr attributes = ffaMemoryCacheWriteBack) .denied
  require (ffaGetMemoryShareabilityAttr attributes = ffaMemoryInnerShareable) .denied

/-- The checks of one receiver. A shared region is stored with the execute-never permission, which
the sender itself must not ask for. -/
def sendValidateReceiver (func : ShareFunc) (compositeOffset : BitVec 32) (region : MemoryRegion)
    (i : Nat) : Except FfaError MemoryRegion := do
  let access := region.receivers i
  let dataAccess := ffaGetDataAccessAttr access.permissions
  let instructionAccess := ffaGetInstructionAccessAttr access.permissions
  require (region.sender ≠ access.receiver) .invalidParameters
  require (∀ j ∈ List.range region.receiverCount.toNat, i < j →
    access.receiver ≠ (region.receivers j).receiver) .invalidParameters
  require (compositeOffset = access.compositeMemoryRegionOffset) .invalidParameters
  require (¬(dataAccess = .reserved ∨ instructionAccess = .reserved)) .invalidParameters
  require (instructionAccess = .notSpecified) .invalidParameters
  match func with
  | .share =>
    require (dataAccess ≠ .notSpecified) .invalidParameters
    let permissions := ffaSetInstructionAccessAttr access.permissions .executeNever
    .ok { region with receivers := update region.receivers i { access with permissions } }
  | .lend =>
    require (dataAccess ≠ .notSpecified) .invalidParameters
    .ok region
  | .donate =>
    require (dataAccess = .notSpecified) .invalidParameters
    .ok region

/-- The memory type is left open in a donation and to a single borrower. -/
def sendValidateAttributes (func : ShareFunc) (region : MemoryRegion) : Except FfaError Unit :=
  if func = .donate ∨ (func = .lend ∧ region.receiverCount = 1) then
    require (ffaGetMemoryTypeAttr region.attributes = ffaMemoryNotSpecifiedMem) .invalidParameters
  else ffaMemoryAttributesValidate region.attributes

/-- The checks of flags, receivers and attributes. -/
def sendValidateRegion (func : ShareFunc) (region : MemoryRegion) : Except FfaError MemoryRegion := do
  require (¬(region.flags &&& ffaMemoryRegionFlagClear ≠ 0 ∧ func = .share)) .invalidParameters
  require (region.flags &&& ~~~ffaMemoryRegionFlagClear = 0) .invalidParameters
  let validated ← (List.range region.receiverCount.toNat).foldlM
    (sendValidateReceiver func (region.receivers 0).compositeMemoryRegionOffset) region
  sendValidateAttributes func region
  .ok validated

/-- Returns the region with the permissions to store. The offset of the composite descriptor is added to
a 64-bit address, so it may lead out of the page that holds the descriptor, and `readable` bytes can be
read from the descriptor on. -/
def ffaMemorySendValidate (vm : Vm m) (region : MemoryRegion)
    (memoryShareLength fragmentLength : BitVec 32) (func : ShareFunc)
    (readable : Nat := hfMailboxSize) : Run (Except FfaError MemoryRegion) :=
  if region.sender ≠ vm.id then .ok (.error .invalidParameters)
  else do
    let receiversLength : BitVec 32 := 16 * region.receiverCount
    let constituentsOffset ← ffaCompositeConstituentOffset region 0
    let compositeOffset := (region.receivers 0).compositeMemoryRegionOffset
    if compositeOffset = 0 ∨ compositeOffset.toNat < 32 + receiversLength.toNat ∨
        constituentsOffset > fragmentLength then
      .ok (.error .invalidParameters)
    else
      let composite ← ffaMemoryRegionGetComposite readable region 0
      if memoryShareLength ≠ constituentsOffset + 16 * composite.constituentCount then
        .ok (.error .invalidParameters)
      else .ok (sendValidateRegion func region)

/-- The value that asks for the next fragment. -/
def ffaFragRx (handle : Handle) (fragmentOffset : BitVec 32) : FfaValue :=
  { func := ffaMemFragRx32, arg1 := handleLow handle, arg2 := handleHigh handle,
    arg3 := fragmentOffset.setWidth 64 }

/-- Completes a transaction in slot `i`. The original mode is stored in the share state; also when
the caller keeps it in a variable of its own, as that one frees the share state at once. -/
def ffaMemorySendComplete (vm : Vm m) (s : Sharing m) (i : Fin maxMemShares) (state : ShareState) :
    Run (FfaValue × Mode × Vm m × Sharing m) := do
  let region := state.memoryRegion
  let (origMode, r) ← ffaSendCheckUpdate vm state.fragments state.shareFunc region.receiverList
      s.memory s.pool (decide (region.flags &&& ffaMemoryRegionFlagClear ≠ 0))
  let s := { s with memory := r.memory, pool := r.pool }
  match r.ret with
  | .ok () =>
    let origMode := origMode.getD state.senderOrigMode
    .ok (ffaMemSuccess region.handle, origMode, r.vm,
      s.set i (some { state with senderOrigMode := origMode, sendingComplete := true }))
  | .error e => .ok (ffaError e, origMode.getD state.senderOrigMode, r.vm, shareStateFree s i state)

def ffaMemorySend (vm : Vm m) (page : PageNumber) (region : MemoryRegion)
    (memoryShareLength fragmentLength : BitVec 32) (func : ShareFunc) (s : Sharing m)
    (readable : Nat := hfMailboxSize) : Run (FfaValue × Vm m × Sharing m) := do
  match ← ffaMemorySendValidate vm region memoryShareLength fragmentLength func readable with
  | .error e => .ok (ffaError e, vm, { s with pool := mpoolFree s.pool page })
  | .ok region =>
    let region := { region with flags := region.flags ||| func.transactionType }
    match ← allocateShareState m s.shareStates func page region fragmentLength ffaMemoryHandleInvalid with
    | none => .ok (ffaError .noMemory, vm, { s with pool := mpoolFree s.pool page })
    | some (i, state) =>
      if fragmentLength = memoryShareLength then
        let (ret, _, vm, s) ← ffaMemorySendComplete vm s i state
        .ok (ret, vm, s)
      else .ok (ffaFragRx state.memoryRegion.handle fragmentLength, vm, s.set i (some state))

/-- Finds the share state of a transaction that is to be continued. One that cannot take another
fragment is freed. -/
def ffaMemorySendContinueValidate (s : Sharing m) (handle : Handle) (fromVmId : VmId) :
    Except FfaError (Fin maxMemShares × ShareState) × Sharing m :=
  match getShareState m s.shareStates handle with
  | none => (.error .invalidParameters, s)
  | some (i, state) =>
    if state.memoryRegion.sender ≠ fromVmId then (.error .invalidParameters, s)
    else if state.sendingComplete then (.error .invalidParameters, s)
    else if state.fragments.count = maxFragments then (.error .noMemory, shareStateFree s i state)
    else (.ok (i, state), s)

def ffaMemorySendContinue (vm : Vm m) (page : PageNumber) (fragment : Bytes)
    (fragmentLength : BitVec 32) (handle : Handle) (s : Sharing m) :
    Run (FfaValue × Vm m × Sharing m) :=
  match ffaMemorySendContinueValidate s handle vm.id with
  | (.error e, s) => .ok (ffaError e, vm, { s with pool := mpoolFree s.pool page })
  | (.ok (i, state), s) =>
    if (state.memoryRegion.receivers 0).receiver = hfTeeVmId then
      .ok (ffaError .invalidParameters, vm, { s with pool := mpoolFree s.pool page })
    else do
      let state := state.addFragment page fragment fragmentLength
      if ← shareStateSendingComplete state then
        let (ret, _, vm, s) ← ffaMemorySendComplete vm s i state
        .ok (ret, vm, s)
      else
        let offset ← shareStateNextFragmentOffset state
        .ok (ffaFragRx handle offset, vm, s.set i (some state))

/-! ## What validation establishes -/

/-- The permissions that are stored for a receiver. -/
def ShareFunc.Permits (func : ShareFunc) (permissions : Permissions) : Prop :=
  match func with
  | .share => ffaGetDataAccessAttr permissions ∉ [.notSpecified, .reserved] ∧
      ffaGetInstructionAccessAttr permissions = .executeNever
  | .lend => ffaGetDataAccessAttr permissions ∉ [.notSpecified, .reserved] ∧
      ffaGetInstructionAccessAttr permissions = .notSpecified
  | .donate =>
    ffaGetDataAccessAttr permissions = .notSpecified ∧
      ffaGetInstructionAccessAttr permissions = .notSpecified

/-- The same transaction, except for permissions, flags and handle. -/
structure MemoryRegion.SameButPermissions (region region' : MemoryRegion) : Prop where
  sender : region'.sender = region.sender
  tag : region'.tag = region.tag
  receiverCount : region'.receiverCount = region.receiverCount
  bytes : region'.bytes = region.bytes
  receiver : ∀ i, (region'.receivers i).receiver = (region.receivers i).receiver
  composite : ∀ i, (region'.receivers i).compositeMemoryRegionOffset =
    (region.receivers i).compositeMemoryRegionOffset

variable {region region' : MemoryRegion} {offset : BitVec 32}

namespace MemoryRegion.SameButPermissions

variable {region'' : MemoryRegion}

theorem refl (region : MemoryRegion) : region.SameButPermissions region :=
  ⟨rfl, rfl, rfl, rfl, fun _ => rfl, fun _ => rfl⟩

theorem trans (first : region.SameButPermissions region')
    (second : region'.SameButPermissions region'') : region.SameButPermissions region'' where
  sender := second.sender.trans first.sender
  tag := second.tag.trans first.tag
  receiverCount := second.receiverCount.trans first.receiverCount
  bytes := second.bytes.trans first.bytes
  receiver i := (second.receiver i).trans (first.receiver i)
  composite i := (second.composite i).trans (first.composite i)

theorem update (region : MemoryRegion) (i : Nat) (permissions : Permissions) :
    region.SameButPermissions
      { region with
        receivers := update region.receivers i { region.receivers i with permissions } } := by
  refine ⟨rfl, rfl, rfl, rfl, fun j => ?_, fun j => ?_⟩
  all_goals
    simp only [update_apply]
    split
    · next same => rw [same]
    · rfl

end MemoryRegion.SameButPermissions

variable {func : ShareFunc} {vm : Vm m} (permissions : Permissions)

theorem getDataAccess_setInstructionAccess (access : InstructionAccess) :
    ffaGetDataAccessAttr (ffaSetInstructionAccessAttr permissions access) =
      ffaGetDataAccessAttr permissions := by
  cases access <;> revert permissions <;> decide +kernel

theorem getInstructionAccess_setInstructionAccess (access : InstructionAccess) :
    ffaGetInstructionAccessAttr (ffaSetInstructionAccessAttr permissions access) = access := by
  cases access <;> revert permissions <;> decide +kernel

/-- What one step of the receiver loop has checked and stored. -/
structure ReceiverChecked (func : ShareFunc) (region region' : MemoryRegion) (i : Nat) : Prop where
  same : region.SameButPermissions region'
  others : ∀ j ≠ i, region'.receivers j = region.receivers j
  notSender : (region.receivers i).receiver ≠ region.sender
  notRepeated : ∀ j < region.receiverCount.toNat, i < j →
    (region.receivers i).receiver ≠ (region.receivers j).receiver
  permits : func.Permits (region'.receivers i).permissions

theorem sendValidateReceiver_ok {i : Nat}
    (valid : sendValidateReceiver func offset region i = .ok region') :
    ReceiverChecked func region region' i := by
  simp only [sendValidateReceiver, bind_ok_iff, require_ok_iff] at valid
  obtain ⟨-, notSender, -, notRepeated, -, -, -, notReserved, -, notSpecified, valid⟩ := valid
  have dataOk : ffaGetDataAccessAttr (region.receivers i).permissions ≠ .reserved :=
    fun reserved => notReserved (.inl reserved)
  have notRepeated : ∀ j < region.receiverCount.toNat, i < j →
      (region.receivers i).receiver ≠ (region.receivers j).receiver :=
    fun j bound => notRepeated j (List.mem_range.mpr bound)
  cases func with
  | share =>
    simp only [bind_ok_iff, require_ok_iff] at valid
    obtain ⟨-, specified, ⟨⟩⟩ := valid
    refine ⟨.update region i _, fun j other => update_of_ne other _ _, notSender.symm, notRepeated, ?_⟩
    simp only [update_self, ShareFunc.Permits, getDataAccess_setInstructionAccess,
      getInstructionAccess_setInstructionAccess]
    exact ⟨by simp [specified, dataOk], trivial⟩
  | lend =>
    simp only [bind_ok_iff, require_ok_iff] at valid
    obtain ⟨-, specified, ⟨⟩⟩ := valid
    exact ⟨.refl _, fun _ _ => rfl, notSender.symm, notRepeated,
      ⟨by simp [specified, dataOk], notSpecified⟩⟩
  | donate =>
    simp only [bind_ok_iff, require_ok_iff] at valid
    obtain ⟨-, unspecified, ⟨⟩⟩ := valid
    exact ⟨.refl _, fun _ _ => rfl, notSender.symm, notRepeated, unspecified, notSpecified⟩

/-- The receiver loop checks every receiver it visits. -/
theorem sendValidateReceivers_ok {l : List Nat}
    (valid : l.foldlM (sendValidateReceiver func offset) region = .ok region') :
    region.SameButPermissions region' ∧ (∀ j ∉ l, region'.receivers j = region.receivers j) ∧
      ∀ i ∈ l, (region.receivers i).receiver ≠ region.sender ∧
        (∀ j < region.receiverCount.toNat, i < j →
          (region.receivers i).receiver ≠ (region.receivers j).receiver) ∧
        func.Permits (region'.receivers i).permissions := by
  induction l generalizing region with
  | nil =>
    cases valid
    exact ⟨.refl _, fun _ _ => rfl, fun i member => by cases member⟩
  | cons i rest ih =>
    rw [List.foldlM_cons, bind_ok_iff] at valid
    obtain ⟨region₁, one, valid⟩ := valid
    have step := sendValidateReceiver_ok one
    obtain ⟨same, others, checked⟩ := ih valid
    refine ⟨step.same.trans same, fun j outside => ?_, ?_⟩
    · rw [List.mem_cons, not_or] at outside
      rw [others j outside.2, step.others j outside.1]
    · rw [List.forall_mem_cons]
      refine ⟨⟨step.notSender, step.notRepeated, ?_⟩, fun j member => ?_⟩
      · by_cases again : i ∈ rest
        · exact (checked i again).2.2
        · rw [others i again]
          exact step.permits
      · obtain ⟨notSender, notRepeated, permits⟩ := checked j member
        simp only [step.same.receiver, step.same.sender, step.same.receiverCount] at notSender notRepeated
        exact ⟨notSender, notRepeated, permits⟩

/-- What `ffa_memory_send_validate` establishes of the region that is stored. -/
structure Validated (vm : Vm m) (func : ShareFunc) (region region' : MemoryRegion) : Prop where
  same : region.SameButPermissions region'
  sender : region.sender = vm.id
  shareNotCleared : func = .share → region.flags &&& ffaMemoryRegionFlagClear = 0
  notSender : ∀ i < region.receiverCount.toNat, (region.receivers i).receiver ≠ region.sender
  notRepeated : ∀ i < region.receiverCount.toNat, ∀ j < region.receiverCount.toNat, i < j →
    (region.receivers i).receiver ≠ (region.receivers j).receiver
  permits : ∀ i < region.receiverCount.toNat, func.Permits (region'.receivers i).permissions

theorem sendValidateRegion_ok (sender : region.sender = vm.id)
    (valid : sendValidateRegion func region = .ok region') : Validated vm func region region' := by
  simp only [sendValidateRegion, bind_ok_iff, require_ok_iff] at valid
  obtain ⟨-, shareNotCleared, -, -, validated, receivers, -, -, ⟨⟩⟩ := valid
  obtain ⟨same, -, checked⟩ := sendValidateReceivers_ok receivers
  refine ⟨same, sender, fun share => ?_, fun i bound => (checked i (List.mem_range.mpr bound)).1,
    fun i bound => (checked i (List.mem_range.mpr bound)).2.1,
    fun i bound => (checked i (List.mem_range.mpr bound)).2.2⟩
  by_contra cleared
  exact shareNotCleared ⟨cleared, share⟩

theorem ffaMemorySendValidate_ok {memoryShareLength fragmentLength : BitVec 32}
    (valid : ffaMemorySendValidate vm region memoryShareLength fragmentLength func =
      .ok (.ok region')) :
    Validated vm func region region' := by
  rw [ffaMemorySendValidate] at valid
  split at valid
  · cases valid
  · next sender =>
    simp only [bind_ok_iff] at valid
    obtain ⟨offset, -, valid⟩ := valid
    split at valid
    · cases valid
    · simp only [bind_ok_iff] at valid
      obtain ⟨composite, -, valid⟩ := valid
      split at valid
      · cases valid
      · exact sendValidateRegion_ok (not_not.mp sender) (Except.ok.inj valid)

/-- Flags and handle may change afterwards. -/
theorem Validated.relabel (validated : Validated vm func region region') (flags : RegionFlags)
    (handle : Handle) : Validated vm func region { region' with flags, handle } :=
  { validated with
    same := ⟨validated.same.sender, validated.same.tag, validated.same.receiverCount,
      validated.same.bytes, validated.same.receiver, validated.same.composite⟩
    permits := validated.permits }

/-- Validation keeps the constituents. -/
theorem Validated.firstFragment_eq
    (validated : Validated vm func region region') (fragmentLength : BitVec 32) :
    firstFragment region' fragmentLength = firstFragment region fragmentLength := by
  simp only [firstFragment, validated.same.composite, validated.same.bytes]

end Hafnium.Ffa
