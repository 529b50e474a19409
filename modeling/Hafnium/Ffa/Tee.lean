import Hafnium.Ffa.Retrieve

/-! # Memory transactions with the TEE

Memory that is sent to the TEE is forwarded to the other world; its share states live in the other
world too, and Hafnium keeps one only while fragments are still arriving. The other world is not
trusted here: it answers each call with any values and leaves any bytes in its send buffer.
-/

namespace Hafnium.Ffa

open Mm

variable {m : MmConfig}

/-- What a call to the other world returns: register values, and what is then in its send buffer. -/
structure TeeAnswer where
  value : FfaValue
  send : Bytes

/-- `arch_other_world_call`: takes the next answer. -/
def otherWorldCall : List TeeAnswer → Run (TeeAnswer × List TeeAnswer)
  | [] => .error .otherWorldSilent
  | answer :: rest => .ok (answer, rest)

/-- The TEE's receive buffer is free again after a forwarded message. -/
def Vm.forwarded (vm : Vm m) : Vm m := { vm with mailbox := { vm.mailbox with state := .empty } }

/-- The region of a descriptor that fits in one message. Its only count is read in place, so behind
it lies the rest of the composite descriptor. -/
def teeFragments (region : MemoryRegion) : Fragments :=
  let compositeOffset := (region.receivers 0).compositeMemoryRegionOffset.toNat
  { constituents := fun _ => constituentsFrom region.bytes (compositeOffset + 16)
    counts := fun i => (LittleEndian.u32 region.bytes (compositeOffset + 4 + 4 * i)).toNat
    count := 1
    offsets := fun _ => compositeOffset + 16 }

/-- Gives a region back to its sender if the TEE has refused it. -/
def teeRollBack (vm : Vm m) (f : Fragments) (origMode : Mode) (value : FfaValue) (pool : Mpool) :
    Run (Vm m × Mpool) :=
  if value.func ≠ ffaSuccess32 then commitRegion vm f origMode pool else .ok (vm, pool)

/-- Sends a region that fits in one message; the page of the descriptor is freed by the caller. -/
def teeSendWhole (vm tee : Vm m) (region : MemoryRegion) (func : ShareFunc)
    (answers : List TeeAnswer) (s : Sharing m) : Run (FfaValue × Vm m × Vm m × Sharing m) := do
  let _ ← ffaMemoryRegionGetComposite hfMailboxSize region 0
  let f := teeFragments region
  let (origMode, r) ← ffaSendCheckUpdate vm f func region.receiverList s.memory (mpoolInitWithFallback s.pool)
    (decide (region.flags &&& ffaMemoryRegionFlagClear ≠ 0))
  match r.ret with
  | .error e => .ok (ffaError e, r.vm, tee, { s with memory := r.memory, pool := mpoolFini r.pool })
  | .ok () =>
    let (answer, _) ← otherWorldCall answers
    let (vm, localPool) ← teeRollBack r.vm f (origMode.getD 0) answer.value r.pool
    .ok (answer.value, vm, tee.forwarded, { s with memory := r.memory, pool := mpoolFini localPool })

/-- The checks of the answer to a first fragment: the other world asks for the next one. -/
def teeSendAnswer (vm : Vm m) (fragmentLength : BitVec 32) (value : FfaValue) : Except FfaValue Handle :=
  if value.func = ffaError32 then .error value
  else if value.func ≠ ffaMemFragRx32 then .error (ffaError .invalidParameters)
  else if value.arg3 ≠ fragmentLength.setWidth 64 then .error (ffaError .invalidParameters)
  else if ffaFragSender value ≠ vm.id then .error (ffaError .invalidParameters)
  else .ok (ffaFragHandle value)

def ffaMemoryTeeSend (vm tee : Vm m) (page : PageNumber) (region : MemoryRegion)
    (memoryShareLength fragmentLength : BitVec 32) (func : ShareFunc) (answers : List TeeAnswer)
    (s : Sharing m) : Run (FfaValue × Vm m × Vm m × Sharing m) := do
  match ← ffaMemorySendValidate vm region memoryShareLength fragmentLength func with
  | .error e => .ok (ffaError e, vm, tee, { s with pool := mpoolFree s.pool page })
  | .ok region =>
    if fragmentLength = memoryShareLength then
      let (ret, vm, tee, s) ← teeSendWhole vm tee region func answers s
      .ok (ret, vm, tee, { s with pool := mpoolFree s.pool page })
    else
      let (answer, _) ← otherWorldCall answers
      match teeSendAnswer vm fragmentLength answer.value with
      | .error ret => .ok (ret, vm, tee.forwarded, { s with pool := mpoolFree s.pool page })
      | .ok handle =>
        match ← allocateShareState m s.shareStates func page region fragmentLength handle with
        | none => .ok (ffaError .noMemory, vm, tee.forwarded, { s with pool := mpoolFree s.pool page })
        | some (i, state) => .ok (answer.value, vm, tee.forwarded, s.set i (some state))

/-- Completes a transaction whose last fragment has arrived. The share state is always freed. -/
def teeSendLast (vm tee : Vm m) (i : Fin maxMemShares) (state : ShareState)
    (answers : List TeeAnswer) (s : Sharing m) : Run (FfaValue × Vm m × Vm m × Sharing m) := do
  let (ret, origMode, vm, s) ← ffaMemorySendComplete vm
      { s with pool := mpoolInitWithFallback s.pool } i state
  let (answer, _) ← otherWorldCall answers
  if ret.func = ffaSuccess32 then
    let (vm, localPool) ← teeRollBack vm state.fragments origMode answer.value s.pool
    let s := shareStateFree { s with pool := localPool.tail } i state
    .ok (answer.value, vm, tee.forwarded, { s with pool := mpoolFini (localPool.take 1 ++ s.pool) })
  else .ok (ret, vm, tee, { s with pool := mpoolFini s.pool })

/-- Forwards a fragment that is not the last one. -/
def teeSendMore (vm tee : Vm m) (handle : Handle) (i : Fin maxMemShares) (state : ShareState)
    (answers : List TeeAnswer) (s : Sharing m) : Run (FfaValue × Vm m × Vm m × Sharing m) := do
  let nextFragmentOffset ← shareStateNextFragmentOffset state
  let ({ value, .. }, _) ← otherWorldCall answers
  if value.func ≠ ffaMemFragRx32 ∨ ffaFragHandle value ≠ handle ∨
      value.arg3 ≠ nextFragmentOffset.setWidth 64 ∨ ffaFragSender value ≠ vm.id then
    .ok (ffaError .invalidParameters, vm, tee.forwarded, shareStateFree s i state)
  else .ok (ffaFragRx handle nextFragmentOffset, vm, tee.forwarded, s.set i (some state))

def ffaMemoryTeeSendContinue (vm tee : Vm m) (page : PageNumber) (fragment : Bytes)
    (fragmentLength : BitVec 32) (handle : Handle) (answers : List TeeAnswer) (s : Sharing m) :
    Run (FfaValue × Vm m × Vm m × Sharing m) :=
  match ffaMemorySendContinueValidate s handle vm.id with
  | (.error e, s) => .ok (ffaError e, vm, tee, { s with pool := mpoolFree s.pool page })
  | (.ok (i, state), s) =>
    if (state.memoryRegion.receivers 0).receiver ≠ hfTeeVmId then
      .ok (ffaError .invalidParameters, vm, tee, { s with pool := mpoolFree s.pool page })
    else if tee.mailbox.state ≠ .empty ∨ tee.mailbox.recv = false then do
      let offset ← shareStateNextFragmentOffset state
      .ok (ffaFragRx handle offset, vm, tee, { s with pool := mpoolFree s.pool page })
    else do
      let state := state.addFragment page fragment fragmentLength
      if ← shareStateSendingComplete state then teeSendLast vm tee i state answers s
      else teeSendMore vm tee handle i state answers s

/-! ## Reclaiming -/

/-- Reads the remaining fragments of a region's description into the buffer. -/
def teeRetrieveFragments (handle : Handle) (length : Nat) :
    List TeeAnswer → (fragmentOffset : Nat) → (buffer : Bytes) → Run (Except FfaValue Bytes × List TeeAnswer)
  | [], fragmentOffset, buffer =>
    if fragmentOffset < length then .error .otherWorldSilent else .ok (.ok buffer, [])
  | answer :: rest, fragmentOffset, buffer =>
    if fragmentOffset < length then
      let value := answer.value
      let fragmentLength := (value.arg3.setWidth 32).toNat
      if value.func ≠ ffaMemFragTx32 then .ok (.error value, rest)
      else if ffaFragHandle value ≠ handle then .ok (.error (ffaError .invalidParameters), rest)
      else if ffaFragSender value ≠ 0 then .ok (.error (ffaError .invalidParameters), rest)
      else if fragmentLength > hfMailboxSize ∨ fragmentOffset + fragmentLength > length then
        .ok (.error (ffaError .invalidParameters), rest)
      else
        teeRetrieveFragments handle length rest (fragmentOffset + fragmentLength) fun k =>
          if fragmentOffset ≤ k ∧ k < fragmentOffset + fragmentLength then
            answer.send (k - fragmentOffset)
          else buffer k
    else .ok (.ok buffer, answer :: rest)

def ffaTeeReclaimCheckUpdate (vm : Vm m) (f : Fragments) (memoryToAttributes : Mode)
    (answers : List TeeAnswer) (pool : Mpool) : Run (FfaValue × Vm m × Mpool) :=
  if f.aligned then do
    match ← ffaRetrieveCheckTransition vm .reclaim f memoryToAttributes with
    | .error e => .ok (ffaError e, vm, pool)
    | .ok toMode =>
      let prepared ← ffaRegionGroupIdentityMap vm f toMode pool false
      if prepared.ok then
        let (answer, _) ← otherWorldCall answers
        if answer.value.func ≠ ffaSuccess32 then
          let (vm, pool) := vmPtableDefrag prepared.value prepared.state
          .ok (answer.value, vm, pool)
        else
          let (vm, pool) ← commitRegion prepared.value f toMode prepared.state
          let (vm, pool) := vmPtableDefrag vm pool
          .ok ({ func := ffaSuccess32 }, vm, pool)
      else
        let (vm, pool) := vmPtableDefrag prepared.value prepared.state
        .ok (ffaError .noMemory, vm, pool)
  else .ok (ffaError .invalidParameters, vm, pool)

def teeRetrieveBufferSize : Nat := hfMailboxSize * maxFragments

/-- The region that the TEE describes, if it belongs to the caller. `buffer` is what earlier calls
have left in the retrieve buffer. -/
def teeReclaimRegion (vm tee : Vm m) (handle : Handle) (answers : List TeeAnswer) (buffer : Bytes) :
    Run (Except FfaValue MemoryRegion × List TeeAnswer) :=
  if tee.mailbox.recv = false then .error .nullMailbox
  else if tee.id ≠ hfTeeVmId then .error .teeReclaim
  else do
    let (answer, answers) ← otherWorldCall answers
    let value := answer.value
    let length := (value.arg1.setWidth 32).toNat
    let fragmentLength := (value.arg2.setWidth 32).toNat
    if value.func = ffaError32 then .ok (.error value, answers)
    else if value.func ≠ ffaMemRetrieveResp32 then .ok (.error (ffaError .invalidParameters), answers)
    else if fragmentLength > hfMailboxSize ∨ fragmentLength > length ∨ length > teeRetrieveBufferSize then
      .ok (.error (ffaError .invalidParameters), answers)
    else if tee.mailbox.send.isNone then .error .nullMailbox
    else
      match ← teeRetrieveFragments handle length answers fragmentLength
        (fun k => if k < fragmentLength then answer.send k else buffer k) with
      | (.error ret, answers) => .ok (.error ret, answers)
      | (.ok bytes, answers) =>
        let region := memoryRegionFrom bytes
        if region.receiverCount ≠ 1 then .ok (.error (ffaError .invalidParameters), answers)
        else if region.handle ≠ handle then .ok (.error (ffaError .invalidParameters), answers)
        else if vm.id ≠ region.sender then .ok (.error (ffaError .invalidParameters), answers)
        else .ok (.ok region, answers)

/-- The region that is described in the retrieve buffer. -/
def teeReturned (region : MemoryRegion) : Fragments :=
  let compositeOffset := (region.receivers 0).compositeMemoryRegionOffset.toNat
  { constituents := fun _ => constituentsFrom region.bytes (compositeOffset + 16)
    counts := fun _ => (LittleEndian.u32 region.bytes (compositeOffset + 4)).toNat
    count := 1
    offsets := fun _ => compositeOffset + 16 }

def ffaMemoryTeeReclaim (vm tee : Vm m) (handle : Handle) (answers : List TeeAnswer)
    (buffer : Bytes) (s : Sharing m) : Run (FfaValue × Vm m × Sharing m) := do
  match ← teeReclaimRegion vm tee handle answers buffer with
  | (.error ret, _) => .ok (ret, vm, s)
  | (.ok region, answers) =>
    let _ ← ffaMemoryRegionGetComposite teeRetrieveBufferSize region 0
    let (ret, vm, pool) ← ffaTeeReclaimCheckUpdate vm (teeReturned region) (mmModeR ||| mmModeW ||| mmModeX)
      answers s.pool
    .ok (ret, vm, { s with pool })

end Hafnium.Ffa
