import Hafnium.Ffa.Tee

/-! # The memory calls of the API

What a partition reaches with the FF-A memory calls: each handler copies the message out of the
caller's send buffer, checks the receivers and hands over to the memory-sharing functions. Calls
run one after the other here; the locks of the source make them so on the state that they share.
-/

namespace Hafnium.Api

open Mm Ffa Function

variable {m : MmConfig}

/-- The partitions by identifier, as `vm_find` finds them, and what they share. -/
structure Hyp (m : MmConfig) where
  vms : VmId → Option (Vm m)
  vmIds : ∀ {id : VmId} {vm : Vm m}, vms id = some vm → vm.id = id
  sharing : Sharing m

/-- Replaces a partition. -/
def Hyp.setVm (h : Hyp m) (vm : Vm m) : Hyp m where
  vms := update h.vms vm.id (some vm)
  vmIds := by
    intro id other found
    by_cases same : id = vm.id
    · rw [same, update_self] at found
      exact (Option.some.inj found) ▸ same.symm
    · rw [update_of_ne same] at found
      exact h.vmIds found
  sharing := h.sharing

/-- What a call reads besides the state: the bytes that a fresh page or the buffer of the CPU held
before, the answers of the other world, and what earlier calls have left in the TEE's retrieve
buffer. -/
structure CallEnv where
  stale : Bytes
  answers : List TeeAnswer
  retrieveBuffer : Bytes

/-- A buffer after the first bytes of a message were copied to it. -/
def copyMessage (message stale : Bytes) (length : Nat) : Bytes :=
  fun k => if k < length then message k else stale k

/-- A partition that cannot take a message. -/
def msgReceiverBusy (vm : Vm m) : Bool := decide (vm.mailbox.state ≠ .empty ∨ vm.mailbox.recv = false)

/-- A call that leaves everything as it is. -/
def Hyp.answer (h : Hyp m) (error : FfaError) : Run (FfaValue × Hyp m) := .ok (ffaError error, h)

def apiMemoryRegionCheckFlags (region : MemoryRegion) (func : ShareFunc) : Bool :=
  -- The mask has the type of the flags of a receiver, which has 8 bits.
  let toMask : BitVec 8 := (~~~(ffaMemoryRegionFlagClear ||| ffaMemoryRegionFlagTimeSlice)).setWidth 8
  ¬(func = .share ∧ region.flags &&& ffaMemoryRegionFlagClear ≠ 0) ∧ region.flags &&& toMask.setWidth 32 = 0

/-- The checks of a descriptor before its receivers are looked up. -/
def memSendCheckRegion (vm : Vm m) (func : ShareFunc) (region : MemoryRegion) : Except FfaError Unit := do
  require (region.sender = vm.id) .denied
  require (apiMemoryRegionCheckFlags region func = true) .invalidParameters
  require (region.receiverCount ≠ 0) .invalidParameters
  require (¬(func = .donate ∧ region.receiverCount ≠ 1)) .invalidParameters
  require (¬region.receiverCount.toNat > maxMemShareRecipients) .invalidParameters

/-- The check of one receiver: it exists, unless it is in the other world, and is not the sender. -/
def memSendCheckReceiver (h : Hyp m) (vm : Vm m) (func : ShareFunc) (access : MemoryAccess) :
    Except FfaError Unit := do
  require (¬(vmIdIsCurrentWorld m access.receiver = true ∧
    (h.vms access.receiver = none ∨ access.receiver = vm.id))) .invalidParameters
  require (platFfaIsMemorySendValid m access.receiver func = true) .denied

/-- Whether some receiver is in the other world. -/
def targetsOtherWorld (m : MmConfig) (region : MemoryRegion) : Bool :=
  region.receiverList.any fun access => !vmIdIsCurrentWorld m access.receiver

/-- Sends a descriptor that has been copied to a page and passed the checks. -/
def memSendRegion (h : Hyp m) (vm : Vm m) (func : ShareFunc) (length fragmentLength : BitVec 32)
    (page : PageNumber) (region : MemoryRegion) (s : Sharing m) (answers : List TeeAnswer) :
    Run (FfaValue × Hyp m) :=
  if targetsOtherWorld m region then
    if region.receiverCount ≠ 1 then .error .otherWorldReceiver
    else
      match h.vms (region.receivers 0).receiver with
      | none => .error .nullVm
      | some tee =>
        if tee.id ≠ hfTeeVmId then .error .otherWorldReceiver
        else if msgReceiverBusy tee then
          { h with sharing := { s with pool := mpoolFree s.pool page } }.answer .busy
        else do
          let (ret, vm, tee, s) ← ffaMemoryTeeSend vm tee page region length fragmentLength func answers s
          .ok (ret, { (h.setVm tee).setVm vm with sharing := s })
  else do
    let (ret, vm, s) ← ffaMemorySend vm page region length fragmentLength func s
    .ok (ret, { h.setVm vm with sharing := s })

def apiFfaMemSend (h : Hyp m) (vm : Vm m) (func : ShareFunc) (length fragmentLength : BitVec 32)
    (address : BitVec 64) (pageCount : BitVec 32) (env : CallEnv) : Run (FfaValue × Hyp m) :=
  if address ≠ 0 ∨ pageCount ≠ 0 then h.answer .invalidParameters
  else if fragmentLength > length then h.answer .invalidParameters
  else if fragmentLength < 48 then h.answer .invalidParameters
  else
    match vm.mailbox.send with
    | none => h.answer .invalidParameters
    | some message =>
      if fragmentLength.toNat > hfMailboxSize then h.answer .invalidParameters
      else
        match mpoolAlloc h.sharing.pool with
        | none => h.answer .noMemory
        | some (page, pool) =>
          let region := memoryRegionFrom (copyMessage message env.stale fragmentLength.toNat)
          let checked : Except FfaError Unit := do
            memSendCheckRegion vm func region
            region.receiverList.forM (memSendCheckReceiver h vm func)
          match checked with
          | .error e => { h with sharing := { h.sharing with pool := mpoolFree pool page } }.answer e
          | .ok () =>
            memSendRegion h vm func length fragmentLength page region { h.sharing with pool } env.answers

def apiFfaMemRetrieveReq (h : Hyp m) (vm : Vm m) (length fragmentLength : BitVec 32) (address : BitVec 64)
    (pageCount : BitVec 32) (env : CallEnv) : Run (FfaValue × Hyp m) :=
  if address ≠ 0 ∨ pageCount ≠ 0 then h.answer .invalidParameters
  else if fragmentLength ≠ length then h.answer .invalidParameters
  else if length.toNat > hfMailboxSize then h.answer .invalidParameters
  else
    match vm.mailbox.send with
    | none => h.answer .invalidParameters
    | some message =>
      if msgReceiverBusy vm then h.answer .busy
      else do
        let request := memoryRegionFrom (copyMessage message env.stale length.toNat)
        let (ret, vm, s) ← ffaMemoryRetrieve vm request length h.sharing
        .ok (ret, { h.setVm vm with sharing := s })

def apiFfaMemRelinquish (h : Hyp m) (vm : Vm m) (env : CallEnv) : Run (FfaValue × Hyp m) :=
  match vm.mailbox.send with
  | none => h.answer .invalidParameters
  | some message =>
    let endpointCount := (relinquishRequestFrom message).endpointCount
    let length : BitVec 32 := 16 + endpointCount * 2
    if length.toNat > hfMailboxSize then h.answer .invalidParameters
    else
      let request := relinquishRequestFrom (copyMessage message env.stale length.toNat)
      if 16 + request.endpointCount.toNat * 2 ≠ length.toNat then h.answer .invalidParameters
      else do
        let (ret, vm, s) ← ffaMemoryRelinquish vm request h.sharing
        .ok (ret, { h.setVm vm with sharing := s })

def apiFfaMemReclaim (h : Hyp m) (vm : Vm m) (handle : Handle) (flags : RegionFlags) (env : CallEnv) :
    Run (FfaValue × Hyp m) :=
  if platFfaMemoryHandleAllocatedByCurrentWorld m handle then do
    let (ret, vm, s) ← ffaMemoryReclaim vm handle flags h.sharing
    .ok (ret, { h.setVm vm with sharing := s })
  else
    match h.vms hfTeeVmId with
    | none => .error .nullVm
    | some tee => do
      let (ret, vm, s) ← ffaMemoryTeeReclaim vm tee handle env.answers env.retrieveBuffer h.sharing
      .ok (ret, { h.setVm vm with sharing := s })

def apiFfaMemFragRx (h : Hyp m) (vm : Vm m) (handle : Handle) (fragmentOffset : BitVec 32)
    (senderVmId : VmId) : Run (FfaValue × Hyp m) :=
  if senderVmId ≠ 0 then h.answer .invalidParameters
  else if msgReceiverBusy vm then h.answer .busy
  else do
    let (ret, vm, s) ← ffaMemoryRetrieveContinue vm handle fragmentOffset h.sharing
    .ok (ret, { h.setVm vm with sharing := s })

def apiFfaMemFragTx (h : Hyp m) (vm : Vm m) (handle : Handle) (fragmentLength : BitVec 32) (senderVmId : VmId)
    (env : CallEnv) : Run (FfaValue × Hyp m) :=
  if senderVmId ≠ 0 then h.answer .invalidParameters
  else
    match vm.mailbox.send with
    | none => h.answer .invalidParameters
    | some message =>
      if fragmentLength.toNat > hfMailboxSize then h.answer .invalidParameters
      else if fragmentLength.toNat < 16 ∨ fragmentLength.toNat % 16 ≠ 0 then h.answer .invalidParameters
      else
        match mpoolAlloc h.sharing.pool with
        | none => h.answer .noMemory
        | some (page, pool) =>
          let fragment := copyMessage message env.stale fragmentLength.toNat
          if handle &&& ffaMemoryHandleAllocatorMask = ffaMemoryHandleAllocatorHypervisor then do
            let (ret, vm, s) ← ffaMemorySendContinue vm page fragment fragmentLength handle
                { h.sharing with pool }
            .ok (ret, { h.setVm vm with sharing := s })
          else
            match h.vms hfTeeVmId with
            | none => .error .nullVm
            | some tee => do
              let (ret, vm, tee, s) ← ffaMemoryTeeSendContinue vm tee page fragment fragmentLength
                  handle env.answers { h.sharing with pool }
              .ok (ret, { (h.setVm tee).setVm vm with sharing := s })

/-- The memory calls with their register values. -/
inductive MemCall
  | send (func : ShareFunc) (length fragmentLength : BitVec 32) (address : BitVec 64) (pageCount : BitVec 32)
  | fragTx (handle : Handle) (fragmentLength : BitVec 32) (senderVmId : VmId)
  | retrieveReq (length fragmentLength : BitVec 32) (address : BitVec 64) (pageCount : BitVec 32)
  | fragRx (handle : Handle) (fragmentOffset : BitVec 32) (senderVmId : VmId)
  | relinquish
  | reclaim (handle : Handle) (flags : RegionFlags)

/-- A memory call of a partition. -/
def apiMemCall (h : Hyp m) (vm : Vm m) (env : CallEnv) : MemCall → Run (FfaValue × Hyp m)
  | .send func length fragmentLength address pageCount =>
    apiFfaMemSend h vm func length fragmentLength address pageCount env
  | .fragTx handle fragmentLength senderVmId => apiFfaMemFragTx h vm handle fragmentLength senderVmId env
  | .retrieveReq length fragmentLength address pageCount =>
    apiFfaMemRetrieveReq h vm length fragmentLength address pageCount env
  | .fragRx handle fragmentOffset senderVmId => apiFfaMemFragRx h vm handle fragmentOffset senderVmId
  | .relinquish => apiFfaMemRelinquish h vm env
  | .reclaim handle flags => apiFfaMemReclaim h vm handle flags env

end Hafnium.Api
