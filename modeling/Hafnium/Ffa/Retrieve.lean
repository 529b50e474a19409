import Hafnium.Ffa.Send

/-! # Retrieving, relinquishing and reclaiming memory

A receiver retrieves a region that was sent to it, fetches the remaining fragments of its
description and may give the region back; the sender reclaims what nobody holds any more. Fetching
fragments, relinquishing and reclaiming look at the first receiver of a transaction only.
-/

namespace Hafnium.Ffa

open Mm LittleEndian

variable {m : MmConfig}

/-- The index of a receiver, or the number of receivers if it is none. -/
def ffaMemoryRegionGetReceiver (region : MemoryRegion) (receiver : VmId) : Nat :=
  ((List.range region.receiverCount.toNat).find? fun i => (region.receivers i).receiver = receiver).getD
    region.receiverCount.toNat

/-- The data access that a receiver gets, if what it asks for is compatible with what was sent. -/
def retrieveDataAccess (requested : DataAccess) : (sent : DataAccess) → Run (Option DataAccess)
  | .reserved => .error .reservedPermission
  | .readOnly => .ok (if requested = .notSpecified ∨ requested = .readOnly then some .readOnly else none)
  | .notSpecified | .readWrite =>
    .ok (if requested = .notSpecified ∨ requested = .readWrite then some .readWrite
      else if requested = .readOnly then some .readOnly else none)

/-- The instruction access that a receiver gets. -/
def retrieveInstructionAccess (requested : InstructionAccess) :
    (sent : InstructionAccess) → Run (Option InstructionAccess)
  | .reserved => .error .reservedPermission
  | .executeNever =>
    .ok (if requested = .notSpecified ∨ requested = .executeNever then some .executeNever else none)
  | .notSpecified | .execute =>
    .ok (if requested = .notSpecified ∨ requested = .execute then some .execute
      else if requested = .executeNever then some .executeNever else none)

/-- `ffa_memory_retrieve_is_memory_access_valid`: the permissions to map with, if the request is
compatible with what was sent. -/
def ffaMemoryRetrieveIsMemoryAccessValid (sent requested permissions : Permissions) :
    Run (Option Permissions) := do
  match ← retrieveDataAccess (ffaGetDataAccessAttr requested) (ffaGetDataAccessAttr sent) with
  | none => .ok none
  | some dataAccess =>
    match ← retrieveInstructionAccess (ffaGetInstructionAccessAttr requested)
        (ffaGetInstructionAccessAttr sent) with
    | none => .ok none
    | some instructionAccess =>
      .ok (some (ffaSetInstructionAccessAttr (ffaSetDataAccessAttr permissions dataAccess) instructionAccess))

/-- The loop over the receivers of a retrieve request. Carries the permissions of the caller, and
whether the caller has been met. -/
def retrieveValidateReceivers (region request : MemoryRegion) (toVmId : VmId) :
    List Nat → (permissions : Permissions) → (met : Bool) → Run (Except FfaError (Permissions × Bool))
  | [], permissions, met => .ok (.ok (permissions, met))
  | i :: rest, permissions, met => do
    let current := request.receivers i
    let index := ffaMemoryRegionGetReceiver region current.receiver
    if index = region.receiverCount.toNat then .ok (.error .denied)
    else if current.compositeMemoryRegionOffset ≠ 0 then .ok (.error .invalidParameters)
    else
      match ← ffaMemoryRetrieveIsMemoryAccessValid (region.receivers index).permissions
          current.permissions permissions with
      | none => .ok (.error .denied)
      | some granted =>
        if current.receiver = toVmId then
          if ffaGetDataAccessAttr granted = .readOnly ∧ request.flags &&& ffaMemoryRegionFlagClear ≠ 0 then
            .ok (.error .denied)
          else retrieveValidateReceivers region request toVmId rest granted true
        else retrieveValidateReceivers region request toVmId rest permissions met

def ffaMemoryRetrieveValidateMemoryAccessList (region request : MemoryRegion) (toVmId : VmId) :
    Run (Except FfaError Permissions) :=
  if request.receiverCount ≠ region.receiverCount then .ok (.error .invalidParameters)
  else do
    match ← retrieveValidateReceivers region request toVmId
        (List.range request.receiverCount.toNat) 0 false with
    | .error e => .ok (.error e)
    | .ok (permissions, met) => .ok (if met then .ok permissions else .error .invalidParameters)

/-- The checks of a retrieve request against its share state, before the receivers are looked at. -/
def retrieveValidateRequest (state : ShareState) (request : MemoryRegion) (toVmId : VmId) :
    Except FfaError Unit := do
  let region := state.memoryRegion
  let receiverIndex := ffaMemoryRegionGetReceiver region toVmId
  let transactionType := request.flags &&& ffaMemoryRegionTransactionTypeMask
  require (state.sendingComplete = true) .invalidParameters
  require (receiverIndex ≠ region.receiverCount.toNat) .invalidParameters
  require (state.retrievedFragmentCount receiverIndex = 0) .denied
  require (¬(transactionType ≠ ffaMemoryRegionTransactionTypeUnspecified ∧
    transactionType ≠ region.flags &&& ffaMemoryRegionTransactionTypeMask)) .invalidParameters
  require (request.sender = region.sender) .denied
  require (request.tag = region.tag) .invalidParameters
  require (request.flags &&& ffaMemoryRegionAddressRangeHintValid = 0) .invalidParameters
  require (request.flags &&& ffaMemoryRegionAddressRangeHintMask = 0) .invalidParameters
  require (request.flags &&& ~~~0x7FF = 0) .invalidParameters
  require (¬(state.shareFunc = .share ∧
    request.flags &&& (ffaMemoryRegionFlagClear ||| ffaMemoryRegionFlagClearRelinquish) ≠ 0))
      .invalidParameters
  require (¬(request.flags &&& ffaMemoryRegionFlagClear ≠ 0 ∧
    region.flags &&& ffaMemoryRegionFlagClear = 0)) .denied

/-- The check of the memory attributes that a receiver asks for. -/
def retrieveValidateAttributes (request : MemoryRegion) : Except FfaError Unit :=
  if ffaGetMemoryTypeAttr request.attributes ≠ ffaMemoryNotSpecifiedMem then
    ffaMemoryAttributesValidate request.attributes
  else .ok ()

/-- Donated memory cannot be relinquished, so its share state goes when all of it is retrieved. -/
def ffaMemoryRetrieveComplete (s : Sharing m) (i : Fin maxMemShares) (state : ShareState) : Sharing m :=
  if state.shareFunc = .donate then shareStateFree s i state else s

/-- Stores how much a receiver has retrieved, and cleans up after the last fragment. -/
def setRetrieved (s : Sharing m) (i : Fin maxMemShares) (state : ShareState)
    (receiverIndex count : Nat) : Sharing m :=
  let state := { state with
    retrievedFragmentCount := Function.update state.retrievedFragmentCount receiverIndex count }
  let s := s.set i (some state)
  if count = state.fragments.count then ffaMemoryRetrieveComplete s i state else s

/-- The receiver finds the answer in its receive buffer. -/
def Vm.deliver (vm : Vm m) : Vm m := { vm with mailbox := { vm.mailbox with state := .read } }

/-- The size of the descriptor in front of the constituents of a response. -/
def responseHeaderSize : Nat := 64

/-- The lengths of the response to a retrieve request. -/
def ffaRetrievedMemoryRegionInit (state : ShareState) (composite : Composite) : Run (BitVec 32 × BitVec 32) :=
  if responseHeaderSize + 16 * state.fragments.counts 0 > hfMailboxSize then .error .retrievedMemoryRegionInit
  else .ok (BitVec.ofNat 32 responseHeaderSize + 16 * composite.constituentCount,
    BitVec.ofNat 32 (responseHeaderSize + 16 * state.fragments.counts 0))

/-- Maps a region for a receiver whose request has passed all checks. -/
def retrieveMap (vm : Vm m) (i : Fin maxMemShares) (state : ShareState) (permissions : Permissions)
    (s : Sharing m) (readable : Nat := hfMailboxSize) : Run (FfaValue × Vm m × Sharing m) := do
  let region := state.memoryRegion
  let memoryToAttributes ← ffaMemoryPermissionsToMode permissions state.senderOrigMode
  let r ← ffaRetrieveCheckUpdate vm region.sender state.fragments memoryToAttributes
      (.retrieve state.shareFunc) false s.memory s.pool
  let s := { s with memory := r.memory, pool := r.pool }
  match r.ret with
  | .error e => .ok (ffaError e, r.vm, s)
  | .ok () =>
    let composite ← ffaMemoryRegionGetComposite readable region 0
    let (totalLength, fragmentLength) ← ffaRetrievedMemoryRegionInit state composite
    .ok ({ func := ffaMemRetrieveResp32, arg1 := totalLength.setWidth 64,
           arg2 := fragmentLength.setWidth 64 },
      r.vm.deliver, setRetrieved s i state (ffaMemoryRegionGetReceiver region vm.id) 1)

def ffaMemoryRetrieve (vm : Vm m) (request : MemoryRegion) (requestLength : BitVec 32) (s : Sharing m)
    (readable : Nat := hfMailboxSize) : Run (FfaValue × Vm m × Sharing m) :=
  if requestLength ≠ 32 + request.receiverCount * 16 then .ok (ffaError .invalidParameters, vm, s)
  else
    match getShareState m s.shareStates request.handle with
    | none => .ok (ffaError .invalidParameters, vm, s)
    | some (i, state) =>
      match retrieveValidateRequest state request vm.id with
      | .error e => .ok (ffaError e, vm, s)
      | .ok () => do
        match ← ffaMemoryRetrieveValidateMemoryAccessList state.memoryRegion request vm.id with
        | .error e => .ok (ffaError e, vm, s)
        | .ok permissions =>
          match retrieveValidateAttributes request with
          | .error e => .ok (ffaError e, vm, s)
          | .ok () => retrieveMap vm i state permissions s readable

/-- The checks of a request for the next fragment. -/
def retrieveContinueValidate (state : ShareState) (toVmId : VmId) : Except FfaError Unit := do
  require ((state.memoryRegion.receivers 0).receiver = toVmId) .invalidParameters
  require (state.sendingComplete = true) .invalidParameters
  require (¬(state.retrievedFragmentCount 0 = 0 ∨
    state.retrievedFragmentCount 0 ≥ state.fragments.count)) .invalidParameters

def ffaMemoryRetrieveContinue (vm : Vm m) (handle : Handle) (fragmentOffset : BitVec 32) (s : Sharing m) :
    Run (FfaValue × Vm m × Sharing m) :=
  match getShareState m s.shareStates handle with
  | none => .ok (ffaError .invalidParameters, vm, s)
  | some (i, state) =>
    match retrieveContinueValidate state vm.id with
    | .error e => .ok (ffaError e, vm, s)
    | .ok () => do
      let fragmentIndex := state.retrievedFragmentCount 0
      let expectedFragmentOffset ← shareStateFragmentOffset state fragmentIndex
      if fragmentOffset ≠ expectedFragmentOffset then .ok (ffaError .invalidParameters, vm, s)
      else if state.fragments.counts fragmentIndex > hfMailboxSize / 16 then .error .memoryFragmentInit
      else
        .ok ({ func := ffaMemFragTx32, arg1 := handleLow handle, arg2 := handleHigh handle,
               arg3 := BitVec.ofNat 64 (16 * state.fragments.counts fragmentIndex) },
          vm.deliver, setRetrieved s i state 0 (fragmentIndex + 1))

/-- The descriptor of a relinquish request, with the first of its endpoints. -/
structure RelinquishRequest where
  handle : Handle
  flags : RegionFlags
  endpointCount : BitVec 32
  endpoint : VmId

def relinquishRequestFrom (bytes : Bytes) : RelinquishRequest where
  handle := u64 bytes 0
  flags := u32 bytes 8
  endpointCount := u32 bytes 12
  endpoint := u16 bytes 16

/-- The checks of a relinquish request against its share state. -/
def relinquishValidate (state : ShareState) (fromVmId : VmId) (clear : Bool) : Except FfaError Unit := do
  require (state.sendingComplete = true) .invalidParameters
  require ((state.memoryRegion.receivers 0).receiver = fromVmId) .invalidParameters
  require (state.retrievedFragmentCount 0 = state.fragments.count) .invalidParameters
  require (¬(clear = true ∧ state.shareFunc = .share)) .invalidParameters

/-- The answer to a relinquish or reclaim request. -/
def updateValue : Except FfaError Unit → FfaValue
  | .ok () => { func := ffaSuccess32 }
  | .error e => ffaError e

def ffaMemoryRelinquish (vm : Vm m) (request : RelinquishRequest) (s : Sharing m) :
    Run (FfaValue × Vm m × Sharing m) :=
  if request.endpointCount ≠ 1 then .ok (ffaError .invalidParameters, vm, s)
  else if request.endpoint ≠ vm.id then .ok (ffaError .invalidParameters, vm, s)
  else
    match getShareState m s.shareStates request.handle with
    | none => .ok (ffaError .invalidParameters, vm, s)
    | some (i, state) =>
      let clear := decide (request.flags &&& ffaMemoryRegionFlagClear ≠ 0)
      match relinquishValidate state vm.id clear with
      | .error e => .ok (ffaError e, vm, s)
      | .ok () => do
        let r ← ffaRelinquishCheckUpdate vm state.fragments s.memory s.pool clear
        let s := { s with memory := r.memory, pool := r.pool }
        let state := { state with retrievedFragmentCount := Function.update state.retrievedFragmentCount 0 0 }
        .ok (updateValue r.ret, r.vm, match r.ret with | .ok () => s.set i (some state) | .error _ => s)

/-- The checks of a reclaim request. -/
def reclaimValidate (state : ShareState) (toVmId : VmId) : Except FfaError Unit := do
  require (toVmId = state.memoryRegion.sender) .invalidParameters
  require (state.sendingComplete = true) .invalidParameters
  require (state.retrievedFragmentCount 0 = 0) .denied

def ffaMemoryReclaim (vm : Vm m) (handle : Handle) (flags : RegionFlags) (s : Sharing m) :
    Run (FfaValue × Vm m × Sharing m) :=
  match getShareState m s.shareStates handle with
  | none => .ok (ffaError .invalidParameters, vm, s)
  | some (i, state) =>
    match reclaimValidate state vm.id with
    | .error e => .ok (ffaError e, vm, s)
    | .ok () => do
      let r ← ffaRetrieveCheckUpdate vm state.memoryRegion.sender state.fragments
          state.senderOrigMode .reclaim (decide (flags &&& ffaMemReclaimClear ≠ 0)) s.memory s.pool
      let s := { s with memory := r.memory, pool := r.pool }
      .ok (updateValue r.ret, r.vm, match r.ret with | .ok () => shareStateFree s i state | .error _ => s)

end Hafnium.Ffa
