import Hafnium.Api.Message
import Hafnium.Ffa.Transfer

/-! # Everything that uses RX buffers

The remaining calls that deliver to an RX buffer or change the state of a mailbox: the messages of
FF-A v1.0, the descriptors of partitions and the answers to retrieve requests. Which vCPU runs after a
message is left out; whether the caller is serving a direct request and what the other world answers
are inputs.
-/

namespace Hafnium.Api

open Mm Ffa LittleEndian

variable {m : MmConfig}

def hfVmIdBase (m : MmConfig) : VmId := if m.features.secureWorld then 0x8000 else 0

/-- In the secure world the primary VM is the other world. -/
def hfPrimaryVmId (m : MmConfig) : VmId := if m.features.secureWorld then hfOtherWorldId m else 1

def ffaMsgSend32 : BitVec 32 := 0x8400006e
def ffaPartitionInfoGet32 : BitVec 32 := 0x84000068
def ffaRun32 : BitVec 64 := 0x8400006d

/-- `msg_receiver_busy` with the addresses of the buffers. -/
def Endpoint.busy (e : Endpoint m) : Bool := decide (e.vm.mailbox.state ≠ .empty ∨ e.recv = 0)

/-! ## FFA_MSG_SEND -/

/-- The shift in the source is on a signed integer. -/
def ffaMsgRecvReturn (receiver : Endpoint m) : FfaValue :=
  if receiver.recvFunc = ffaMsgSend32 then
    { func := ffaMsgSend32.setWidth 64
      arg1 := ((receiver.recvSender.setWidth 32 <<< 16) ||| receiver.vm.id.setWidth 32).signExtend 64
      arg3 := receiver.recvSize.setWidth 64 }
  else if receiver.recvFunc = ffaMsgSend232 then { func := ffaRun32, arg1 := receiver.vm.id.setWidth 64 }
  else ffaError .denied

/-- The TEE has read its message when the call to it returns. -/
def deliverMsg (s : Manager m) (place : Place) (receiver : Endpoint m) (answer : FfaValue) :
    FfaValue × Manager m :=
  if receiver.vm.id = hfPrimaryVmId m then ({ func := ffaSuccess32 }, s.put place (receiver.setState .read))
  else if receiver.vm.id = hfTeeVmId then (answer, s.put place (receiver.setState .empty))
  else ({ func := ffaSuccess32 }, s.put place (receiver.setState .received))

def apiFfaMsgSend (s : Manager m) (vm : Endpoint m) (senderVmId receiverVmId : VmId)
    (size : BitVec 32) (directRequest : Bool) (answer : FfaValue) : Run (FfaValue × Manager m) :=
  if senderVmId ≠ vm.vm.id then .ok (ffaError .invalidParameters, s)
  else if receiverVmId = vm.vm.id then .ok (ffaError .invalidParameters, s)
  else if size.toNat > ffaMsgPayloadMax then .ok (ffaError .invalidParameters, s)
  else if directRequest then .ok (ffaError .denied, s)
  else
    match s.vms receiverVmId with
    | none => .ok (ffaError .invalidParameters, s)
    | some receiver =>
      if vm.send = 0 then .ok (ffaError .invalidParameters, s)
      else if receiver.busy then .ok (ffaError .busy, s)
      else do
        let bytes ← memcpyS s.memory.stage1 receiver.recv ffaMsgPayloadMax vm.send size.toNat s.memory.bytes
        let receiver := { receiver with recvSize := size, recvSender := senderVmId, recvFunc := ffaMsgSend32 }
        .ok (deliverMsg { s with memory := { s.memory with bytes } } (.vm receiverVmId) receiver answer)

/-! ## FFA_MSG_WAIT and FFA_MSG_POLL -/

/-- A vCPU that blocks has been given the answer for an interrupt. -/
def apiFfaMsgRecv (s : Manager m) (vm : Endpoint m) (block directRequest : Bool) : FfaValue × Manager m :=
  if vm.vm.id &&& hfVmIdWorldMask = 0 ∧ vm.vm.id = hfPrimaryVmId m then (ffaError .notSupported, s)
  else if directRequest then (ffaError .denied, s)
  else if vm.vm.mailbox.state = .received then
    let ret := ffaMsgRecvReturn vm
    (ret, if ret.func = ffaMsgSend32.setWidth 64 then s.put (.vm vm.vm.id) (vm.setState .read) else s)
  else if block = false then (ffaError .retry, s)
  else (ffaError .interrupted, s)

/-- `prepared` is what `plat_ffa_msg_wait_prepare` answers in place of the call, if it does. -/
def apiFfaMsgWait (s : Manager m) (vm : Endpoint m) (args : List (BitVec 64)) (prepared : Option FfaValue)
    (directRequest : Bool) : FfaValue × Manager m :=
  if args.any (· ≠ 0) then (ffaError .invalidParameters, s)
  else
    match prepared with
    | some ret => (ret, s)
    | none => apiFfaMsgRecv s vm true directRequest

/-! ## FFA_PARTITION_INFO_GET -/

structure PartitionInfo where
  vmId : VmId
  vcpuCount : BitVec 16
  properties : BitVec 32
  uuid : BitVec 128
deriving DecidableEq, Repr

def ffaVersion10 : BitVec 32 := 0x10000

/-- The size of a descriptor; that of v1.0 has no UUID. -/
def partitionInfoSize (version : BitVec 32) : Nat := if version = ffaVersion10 then 8 else 24

/-- Descriptors one after the other from an offset on. -/
def partitionInfoBytes (version : BitVec 32) (bytes : Bytes) (offset : Nat) : List PartitionInfo → Bytes
  | [] => bytes
  | info :: rest =>
    let bytes := write (write (write bytes offset 2 info.vmId.toNat)
      (offset + 2) 2 info.vcpuCount.toNat) (offset + 4) 4 info.properties.toNat
    let bytes := if version = ffaVersion10 then bytes else write bytes (offset + 8) 16 info.uuid.toNat
    partitionInfoBytes version bytes (offset + partitionInfoSize version) rest

def sendVersionedPartitionInfoDescriptors (s : Manager m) (vm : Endpoint m) (partitions : List PartitionInfo)
    (answer : FfaValue) : Run (FfaValue × Manager m) :=
  let size := partitionInfoSize vm.ffaVersion
  let bufferSize := size * partitions.length
  if vm.busy then .ok (ffaError .busy, s)
  else if platFfaAcquireReceiverRx s vm answer = false then .ok (answer, s)
  else if bufferSize > hfMailboxSize then .ok (ffaError .noMemory, s)
  else do
    let memory ← store s.memory vm.recv (partitionInfoBytes vm.ffaVersion (fun _ => 0) 0 partitions)
        bufferSize
    let vm := { vm with
      recvSize := BitVec.ofNat 32 bufferSize, recvSender := hfVmIdBase m, recvFunc := ffaPartitionInfoGet32 }
    .ok ({ func := ffaSuccess32, arg2 := BitVec.ofNat 64 partitions.length, arg3 := BitVec.ofNat 64 size },
      { s.put (.vm vm.vm.id) (vm.setState .read) with memory })

/-- `partitions` are those that have the UUID of the call, the other world's among them. Any flag that
passes the check asks for their number only. -/
def apiFfaPartitionInfoGet (s : Manager m) (vm : Endpoint m) (flags : BitVec 32)
    (partitions : List PartitionInfo) (answer : FfaValue) : Run (FfaValue × Manager m) :=
  if flags &&& ~~~1 ≠ 0 then .ok (ffaError .invalidParameters, s)
  else if partitions.length = 0 then .ok (ffaError .invalidParameters, s)
  else if flags ≠ 0 then .ok ({ func := ffaSuccess32, arg2 := BitVec.ofNat 64 partitions.length }, s)
  else sendVersionedPartitionInfoDescriptors s vm partitions answer

/-! ## FFA_MEM_RETRIEVE_REQ and FFA_MEM_FRAG_RX -/

/-- The endpoints with their buffers, and the share states. -/
structure Exchange (m : MmConfig) where
  manager : Manager m
  shareStates : ShareStates

/-- What the memory calls see. -/
def Exchange.hyp (x : Exchange m) : Hyp m where
  vms := fun id => (x.manager.vms id).map fun e => e.view x.manager.memory.bytes
  vmIds := by
    intro id vm found
    rw [Option.map_eq_some_iff] at found
    obtain ⟨e, held, rfl⟩ := found
    exact x.manager.vmIds held
  sharing := ⟨x.shareStates, x.manager.memory, x.manager.pool⟩

/-- An endpoint after a memory call has changed its partition. -/
def Endpoint.withVm (e : Endpoint m) (vm : Vm m) : Endpoint m :=
  { e with vm := { vm with mailbox := { e.vm.mailbox with state := vm.mailbox.state } } }

/-- The caller of a memory call after the call. -/
def Endpoint.after (e : Endpoint m) (h : Hyp m) : Endpoint m := (h.vms e.vm.id).elim e e.withVm

/-- Takes over what a memory call has changed, with the caller as given. -/
def Exchange.after (x : Exchange m) (e : Endpoint m) (h : Hyp m) (memory : HypMemory m) : Exchange m where
  manager := { x.manager.put (.vm e.vm.id) e with memory, pool := h.sharing.pool }
  shareStates := h.sharing.shareStates

/-- A memory call that answers in the RX buffer of its caller if it answers with `func`, then with
`size` bytes. -/
def Exchange.memCall (x : Exchange m) (vm : Endpoint m) (func : BitVec 64)
    (size : FfaValue → BitVec 32) (content : Bytes) (call : Hyp m → Vm m → Run (FfaValue × Hyp m)) :
    Run (FfaValue × Exchange m) := do
  let (ret, h) ← call x.hyp (vm.view x.manager.memory.bytes)
  if ret.func = func then
    let memory ← store h.sharing.memory vm.recv content (size ret).toNat
    let vm := { vm.after h with
      recvSize := size ret, recvSender := hfHypervisorVmId, recvFunc := func.setWidth 32 }
    .ok (ret, x.after vm h memory)
  else .ok (ret, x.after (vm.after h) h h.sharing.memory)

/-- What a retrieve request leaves in the RX buffer. -/
def retrieveContent (x : Exchange m) (id : VmId) (request : MemoryRegion) (stale : Bytes) : Bytes :=
  match getShareState m x.shareStates request.handle with
  | none => stale
  | some (_, state) =>
    match ffaMemoryRetrieveValidateMemoryAccessList state.memoryRegion request id with
    | .ok (.ok permissions) => retrieveResponse state request.handle id permissions stale
    | _ => stale

/-- What a request for a fragment leaves in the RX buffer. -/
def fragmentContent (x : Exchange m) (handle : Handle) (stale : Bytes) : Bytes :=
  match getShareState m x.shareStates handle with
  | none => stale
  | some (_, state) => fragmentMessage state.fragments (state.retrievedFragmentCount 0) stale

/-- The bytes of an endpoint's RX buffer. -/
def Exchange.received (x : Exchange m) (vm : Endpoint m) : Bytes :=
  fun k => x.manager.memory.bytes (vm.recv + k)

def Exchange.retrieveReq (x : Exchange m) (vm : Endpoint m) (length fragmentLength : BitVec 32)
    (address : BitVec 64) (pageCount : BitVec 32) (env : CallEnv) : Run (FfaValue × Exchange m) :=
  let message : Bytes := fun k => x.manager.memory.bytes (vm.send + k)
  let request := memoryRegionFrom (copyMessage message env.stale length.toNat)
  x.memCall vm ffaMemRetrieveResp32 (fun ret => ret.arg2.setWidth 32)
    (retrieveContent x vm.vm.id request (x.received vm))
    fun h vm => apiFfaMemRetrieveReq h vm length fragmentLength address pageCount env

def Exchange.fragRx (x : Exchange m) (vm : Endpoint m) (handle : Handle)
    (fragmentOffset : BitVec 32) (senderVmId : VmId) : Run (FfaValue × Exchange m) :=
  x.memCall vm ffaMemFragTx32 (fun ret => ret.arg3.setWidth 32) (fragmentContent x handle (x.received vm))
    fun h vm => apiFfaMemFragRx h vm handle fragmentOffset senderVmId

/-! ## All calls -/

/-- The calls that register buffers, use them or change the state of a mailbox. -/
inductive BufferCall
  | mailbox (call : MailboxCall)
  | msgSend (senderVmId receiverVmId : VmId) (size : BitVec 32)
  | msgSend2 (senderVmId : VmId) (flags : BitVec 32)
  | msgWait (args : List (BitVec 64))
  | msgPoll
  | partitionInfoGet (flags : BitVec 32) (partitions : List PartitionInfo)
  | retrieveReq (length fragmentLength : BitVec 32) (address : BitVec 64) (pageCount : BitVec 32)
  | fragRx (handle : Handle) (fragmentOffset : BitVec 32) (senderVmId : VmId)

/-- What a call reads besides the state. -/
structure BufferEnv where
  answer : FfaValue
  prepared : Option FfaValue
  directRequest : Bool
  memory : CallEnv

/-- The share states are not touched by most calls. -/
def Exchange.lift (x : Exchange m) (r : Run (FfaValue × Manager m)) : Run (FfaValue × Exchange m) := do
  let (ret, manager) ← r
  .ok (ret, { x with manager })

def BufferCall.run (x : Exchange m) (vm : Endpoint m) (env : BufferEnv) :
    BufferCall → Run (FfaValue × Exchange m)
  | .mailbox call => x.lift (call.run x.manager vm env.answer)
  | .msgSend senderVmId receiverVmId size =>
    x.lift (apiFfaMsgSend x.manager vm senderVmId receiverVmId size env.directRequest env.answer)
  | .msgSend2 senderVmId flags => x.lift (apiFfaMsgSend2 x.manager vm senderVmId flags env.answer)
  | .msgWait args => x.lift (.ok (apiFfaMsgWait x.manager vm args env.prepared env.directRequest))
  | .msgPoll => x.lift (.ok (apiFfaMsgRecv x.manager vm false env.directRequest))
  | .partitionInfoGet flags partitions =>
    x.lift (apiFfaPartitionInfoGet x.manager vm flags partitions env.answer)
  | .retrieveReq length fragmentLength address pageCount =>
    x.retrieveReq vm length fragmentLength address pageCount env.memory
  | .fragRx handle fragmentOffset senderVmId => x.fragRx vm handle fragmentOffset senderVmId

end Hafnium.Api
