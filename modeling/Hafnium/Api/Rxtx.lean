import Hafnium.Api.Mem

/-! # RX and TX buffers

A partition registers one page to receive messages in and one to send them from. The partition
manager takes the pages out of the partition's hands and maps them into its own stage-1 table; it
keeps their addresses in the mailbox. The SPMC also keeps the buffers of normal-world VMs, which
the hypervisor registers on their behalf, in a table of their own.
-/

namespace Hafnium.Api

open Mm Ffa Function LittleEndian

variable {m : MmConfig}

/-- A partition and its message buffers, by the address of their mapping in the partition manager;
0 is the null pointer. Whether `vm.mailbox` has its buffers and what they hold follows from these
addresses (`Endpoint.view`); only the state of the mailbox is read from there. -/
structure Endpoint (m : MmConfig) where
  vm : Vm m
  send : Nat
  recv : Nat
  recvSender : VmId
  recvSize : BitVec 32
  recvFunc : BitVec 32
  ffaVersion : BitVec 32
  messagingMethod : BitVec 8
  notificationsEnabled : Bool
  frameworkPending : BitVec 64

def Endpoint.setState (e : Endpoint m) (state : MailboxState) : Endpoint m :=
  { e with vm := { e.vm with mailbox := { e.vm.mailbox with state } } }

/-- The partition as the memory calls see it. -/
def Endpoint.view (e : Endpoint m) (bytes : Nat → BitVec 8) : Vm m :=
  { e.vm with mailbox :=
    { state := e.vm.mailbox.state
      recv := decide (e.recv ≠ 0)
      send := if e.send = 0 then none else some fun k => bytes (e.send + k) } }

def hfInvalidVmId : VmId := 0x7fff

def ffaNotificationSpmBufferFullMask : BitVec 64 := 1
def ffaNotificationHypBufferFullMask : BitVec 64 := 1#64 <<< 32

/-- The partitions that `vm_find` finds, among them the one that stands for the other world, the
SPMC's table of normal-world VMs, and what they share. -/
structure Manager (m : MmConfig) where
  vms : VmId → Option (Endpoint m)
  vmIds : ∀ {id : VmId} {e : Endpoint m}, vms id = some e → e.vm.id = id
  nwdVms : List (Endpoint m)
  memory : HypMemory m
  pool : Mpool
  teeEnabled : Bool

/-- Where the `struct vm` of an endpoint is kept. -/
inductive Place
  | vm (id : VmId)
  | nwdVm (i : Nat)
deriving DecidableEq, Repr

def Manager.get (s : Manager m) : Place → Option (Endpoint m)
  | .vm id => s.vms id
  | .nwdVm i => s.nwdVms[i]?

/-- Replaces an endpoint. -/
def Manager.put (s : Manager m) : Place → Endpoint m → Manager m
  | .vm _, e =>
    { s with
      vms := update s.vms e.vm.id (some e)
      vmIds := by
        intro id other found
        by_cases same : id = e.vm.id
        · rw [same, update_self] at found
          exact (Option.some.inj found) ▸ same.symm
        · rw [update_of_ne same] at found
          exact s.vmIds found }
  | .nwdVm i, e => { s with nwdVms := s.nwdVms.set i e }

/-! ## Lookup -/

def platFfaNwdVmFindLocked (s : Manager m) (id : VmId) : Option (Place × Endpoint m) :=
  (s.nwdVms.findIdx? fun e => e.vm.id = id).bind fun i => s.nwdVms[i]?.map fun e => (.nwdVm i, e)

/-- Allocates a slot if there is none for the VM yet. -/
def platFfaNwdVmCreate (s : Manager m) (id : VmId) : Option (Place × Endpoint m) :=
  match platFfaNwdVmFindLocked s id with
  | some found => some found
  | none =>
    (platFfaNwdVmFindLocked s hfInvalidVmId).map fun (place, e) => (place, { e with vm := { e.vm with id } })

def vmFindLocked (s : Manager m) (id : VmId) : Option (Place × Endpoint m) :=
  (s.vms id).map fun e => (.vm id, e)

def platFfaVmFindLocked (s : Manager m) (id : VmId) : Option (Place × Endpoint m) :=
  if vmIdIsCurrentWorld m id ∨ id = hfOtherWorldId m then vmFindLocked s id
  else if m.features.secureWorld then platFfaNwdVmFindLocked s id
  else none

def platFfaVmFindLockedCreate (s : Manager m) (id : VmId) : Option (Place × Endpoint m) :=
  if vmIdIsCurrentWorld m id ∨ id = hfOtherWorldId m then vmFindLocked s id
  else if m.features.secureWorld then platFfaNwdVmCreate s id
  else none

/-- Frees the slot of a normal-world VM without notifications and buffers. -/
def platFfaVmDestroy (e : Endpoint m) : Endpoint m :=
  if m.features.secureWorld ∧ vmIdIsCurrentWorld m e.vm.id = false ∧ e.vm.id ≠ hfHypervisorVmId ∧
      e.notificationsEnabled = false ∧ e.send = 0 ∧ e.recv = 0 then
    { e with vm := { e.vm with id := hfInvalidVmId } }
  else e

def platFfaIsVmId (m : MmConfig) (id : VmId) : Bool :=
  if m.features.secureWorld then !vmIdIsCurrentWorld m id else vmIdIsCurrentWorld m id

/-! ## Loads and stores -/

/-- The physical address that a load from a virtual address reads. The top byte is a tag. -/
def loadTarget (t : MmPtable (m.levels .stage1)) (va : Nat) : Option Nat :=
  let va := va % 2 ^ 56
  if va < mmPtableAddrSpaceEnd (m.levels .stage1) then
    match t.lookup va with
    | some (pa, attrs) => if attrs &&& pteValid ≠ 0 then some pa else none
    | none => none
  else none

/-- The bytes from `va` on; a load from an address that is not mapped aborts. -/
def load (memory : HypMemory m) (va size : Nat) : Run Bytes :=
  if ∀ k < size, (loadTarget memory.stage1 (va + k)).isSome then
    .ok fun k => ((loadTarget memory.stage1 (va + k)).map memory.bytes).getD 0
  else .error .dataAbort

/-- Stores byte after byte; `none` if a store aborts. -/
def storeBytes (t : MmPtable (m.levels .stage1)) (dest : Nat) (content : Bytes) (bytes : Nat → BitVec 8) :
    (count : Nat) → Option (Nat → BitVec 8)
  | 0 => some bytes
  | count + 1 =>
    match storeBytes t dest content bytes count, storeTarget t (dest + count) with
    | some bytes, some target => some (Function.update bytes target (content count))
    | _, _ => none

def store (memory : HypMemory m) (dest : Nat) (content : Bytes) (count : Nat) : Run (HypMemory m) :=
  match storeBytes memory.stage1 dest content memory.bytes count with
  | none => .error .dataAbort
  | some bytes => .ok { memory with bytes }

/-! ## Mapping -/

def vmIdentityMap (vm : Vm m) (begin_ end_ : Nat) (mode : Mode) (pool : Mpool) : Run (Updated (Vm m)) :=
  let prepared := vmIdentityPrepare vm begin_ end_ mode pool
  if prepared.ok then do
    let (vm, pool) ← vmIdentityCommit prepared.value begin_ end_ mode prepared.state
    .ok ⟨true, vm, pool⟩
  else .ok prepared

/-- `CHECK(vm_identity_map(...))`. -/
def remap (e : Endpoint m) (begin_ end_ : Nat) (mode : Mode) (pool : Mpool) : Run (Endpoint m × Mpool) := do
  let r ← vmIdentityMap e.vm begin_ end_ mode pool
  if r.ok then .ok ({ e with vm := r.value }, r.state) else .error .vmIdentityMap

/-- `CHECK(mm_unmap(...))`. -/
def unmapStage1 (memory : HypMemory m) (begin_ end_ : Nat) (pool : Mpool) : Run (HypMemory m × Mpool) := do
  let (ptr, stage1, pool) ← mmIdentityMap memory.stage1 begin_ end_ mmModeUnmappedMask pool
  if ptr ≠ 0 then .ok ({ memory with stage1 }, pool) else .error .mmUnmap

def archMmExtraAttributesFromVm (id : VmId) : Mode :=
  if id &&& hfVmIdWorldMask = hfHypervisorVmId then mmModeNs else 0

def apiModeValidOwnedAndExclusive (mode : Mode) : Bool :=
  decide (mode &&& (mmModeD ||| mmModeInvalid ||| mmModeUnowned ||| mmModeShared) = 0)

/-- The end of the page at an address. -/
def bufferEnd (page : Nat) : Nat := (page + hfMailboxSize) % 2 ^ 64

/-- The mode of a page that a partition may register, if it has the rights that its use needs. -/
def bufferMode (vm : Vm m) (page : Nat) (rights : List Mode) : Option Mode :=
  (vmMemGetMode vm page (bufferEnd page)).filter fun mode =>
    apiModeValidOwnedAndExclusive mode && rights.all fun right => decide (mode &&& right ≠ 0)

/-- The mode in which a partition keeps its buffers while they are registered. -/
def sharedBufferMode (vm : Vm m) (rights : Mode) : Mode :=
  let mode := mmModeUnowned ||| mmModeShared ||| rights
  if vm.el0Partition then mode ||| mmModeUser ||| mmModeNg else mode

/-- Maps the two pages into the partition manager, for the manager to read and to write. -/
def apiVmConfigureStage1 (e : Endpoint m) (memory : HypMemory m) (send recv : Nat) (extraAttributes : Mode)
    (pool : Mpool) : Run (Bool × Endpoint m × HypMemory m × Mpool) := do
  let (ptr, stage1, pool) ← mmIdentityMap memory.stage1 send (bufferEnd send)
      (mmModeR ||| extraAttributes) pool
  let e := { e with send := ptr }
  if e.send = 0 then
    let (stage1, pool) := mmPtableDefrag m.features stage1 pool
    .ok (false, e, { memory with stage1 }, pool)
  else do
    let (ptr, stage1, pool) ← mmIdentityMap stage1 recv (bufferEnd recv) (mmModeW ||| extraAttributes) pool
    let e := { e with recv := ptr }
    if e.recv = 0 then do
      let (stage1, pool) := mmPtableDefrag m.features stage1 pool
      let (memory, pool) ← unmapStage1 { memory with stage1 } send (bufferEnd send) pool
      .ok (false, { e with send := 0 }, memory, pool)
    else .ok (true, e, { memory with stage1 }, pool)

/-- The modes of the two pages before they were registered. -/
structure OrigModes where
  send : Mode
  recv : Mode

/-- Takes the pages away from a partition of this world. The tables of the other world are not
touched, so that the modes stay 0 there. -/
def takeBuffers (e : Endpoint m) (send recv : Nat) (pool : Mpool) :
    Run (Except FfaError OrigModes × Endpoint m × Mpool) :=
  if vmIdIsCurrentWorld m e.vm.id = false then .ok (.ok ⟨0, 0⟩, e, pool)
  else
    match bufferMode e.vm send [mmModeR, mmModeW], bufferMode e.vm recv [mmModeR] with
    | some origSendMode, some origRecvMode => do
      let r ← vmIdentityMap e.vm send (bufferEnd send) (sharedBufferMode e.vm (mmModeR ||| mmModeW)) pool
      if r.ok then do
        let r ← vmIdentityMap r.value recv (bufferEnd recv) (sharedBufferMode e.vm mmModeR) r.state
        if r.ok then .ok (.ok ⟨origSendMode, origRecvMode⟩, { e with vm := r.value }, r.state)
        else do
          let (vm, pool) := vmPtableDefrag r.value r.state
          let (e, pool) ← remap { e with vm } send (bufferEnd send) origSendMode pool
          .ok (.error .noMemory, e, pool)
      else .ok (.error .noMemory, { e with vm := r.value }, r.state)
    | _, _ => .ok (.error .invalidParameters, e, pool)

/-- The way out when the pages cannot be mapped. The table of a normal-world VM is not set up. -/
def giveBackBuffers (e : Endpoint m) (send recv : Nat) (orig : OrigModes) (pool : Mpool) :
    Run (Endpoint m × Mpool) :=
  if vmIdIsCurrentWorld m e.vm.id ∨ e.vm.id = hfOtherWorldId m then do
    let (e, pool) ← remap e recv (bufferEnd recv) orig.recv pool
    remap e send (bufferEnd send) orig.send pool
  else .error .nullPtable

def apiVmConfigurePages (e : Endpoint m) (memory : HypMemory m) (send recv : Nat)
    (pageCount : BitVec 32) (pool : Mpool) :
    Run (Except FfaError Unit × Endpoint m × HypMemory m × Mpool) :=
  if e.send ≠ 0 ∨ e.recv ≠ 0 then .ok (.error .denied, e, memory, pool)
  else if pageCount ≠ 1 then .ok (.error .invalidParameters, e, memory, pool)
  else if send % pageSize ≠ 0 ∨ recv % pageSize ≠ 0 then .ok (.error .invalidParameters, e, memory, pool)
  else if send = recv then .ok (.error .invalidParameters, e, memory, pool)
  else do
    let (orig, e, pool) ← takeBuffers e send recv pool
    match orig with
    | .error error => .ok (.error error, e, memory, pool)
    | .ok orig => do
      let extraAttributes := archMmExtraAttributesFromVm e.vm.id ||| if e.vm.el0Partition then mmModeNg else 0
      let (mapped, e, memory, pool) ← apiVmConfigureStage1 e memory send recv extraAttributes pool
      if mapped then .ok (.ok (), e, memory, pool)
      else do
        let (e, pool) ← giveBackBuffers e send recv orig pool
        .ok (.error .noMemory, e, memory, pool)

/-! ## FFA_RXTX_MAP and FFA_RXTX_UNMAP -/

/-- The registers of an FFA_RXTX_MAP, and whose buffers they describe. -/
structure RxtxDescription where
  send : BitVec 64
  recv : BitVec 64
  pageCount : BitVec 32
  ownerVmId : VmId
deriving DecidableEq, Repr

/-- `api_get_rxtx_description` with any way to load. A forwarded call has its arguments in the hypervisor's
TX buffer, as an endpoint RX/TX descriptor with the offsets of two composite memory regions. Only the first
constituent of each is read. -/
def rxtxDescriptionVia (load : Nat → Nat → Run Bytes) (vm : Endpoint m) (send recv : BitVec 64)
    (pageCount : BitVec 32) : Run RxtxDescription :=
  if vm.vm.id = hfOtherWorldId m ∧ send = 0 ∧ recv = 0 ∧ pageCount = 0 then do
    let desc ← load vm.send 12
    let rx ← load ((vm.send + (u32 desc 4).toNat + 16) % 2 ^ 64) 12
    let tx ← load ((vm.send + (u32 desc 8).toNat + 16) % 2 ^ 64) 8
    .ok ⟨u64 tx 0, u64 rx 0, u32 rx 8, u16 desc 0⟩
  else .ok ⟨send, recv, pageCount, vm.vm.id⟩

def apiGetRxtxDescription (memory : HypMemory m) :
    Endpoint m → BitVec 64 → BitVec 64 → BitVec 32 → Run RxtxDescription :=
  rxtxDescriptionVia (load memory)

def ffaVersion11 : BitVec 32 := 0x10001

/-- A region of one constituent. -/
def ffaCompositeMemoryRegionInit (bytes : Bytes) (composite : Nat) (address : BitVec 64)
    (pageCount : BitVec 32) : Bytes :=
  let bytes := write bytes composite 4 pageCount.toNat
  let bytes := write bytes (composite + 4) 4 1
  let bytes := write bytes (composite + 8) 8 0
  let constituent := composite + 16
  let bytes := write bytes (constituent + 8) 4 pageCount.toNat
  let bytes := write bytes constituent 8 address.toNat
  write bytes (constituent + 12) 4 0

/-- The regions of the RX and of the TX buffer follow the descriptor. -/
def ffaEndpointRxTxDescriptorInit (bytes : Bytes) (desc : Nat) (endpointId : VmId)
    (rxAddress txAddress : BitVec 64) : Bytes :=
  let bytes := write bytes desc 2 endpointId.toNat
  let bytes := write bytes (desc + 2) 2 0
  let bytes := write bytes (desc + 12) 4 0
  let rxOffset := 16
  let bytes := write bytes (desc + 4) 4 rxOffset
  let bytes := ffaCompositeMemoryRegionInit bytes (desc + rxOffset) rxAddress 1
  let txOffset := rxOffset + 16 + 16
  let bytes := write bytes (desc + 8) 4 txOffset
  ffaCompositeMemoryRegionInit bytes (desc + txOffset) txAddress 1

/-- The size of a descriptor with its two regions. All of its bytes are written. -/
def endpointRxTxDescriptorSize : Nat := 80

/-- The hypervisor passes a registration on to the SPMC and expects a success. The buffers are described in
the SPMC's RX buffer, whatever is in it. -/
def platFfaRxtxMapForward (s : Manager m) (e : Endpoint m) (answer : FfaValue) : Run (HypMemory m) :=
  if m.features.secureWorld ∨ s.teeEnabled = false ∨ e.ffaVersion < ffaVersion11 then .ok s.memory
  else
    match s.vms (hfOtherWorldId m) with
    | none => .error .nullVm
    | some otherWorld => do
      let desc := ffaEndpointRxTxDescriptorInit (fun _ => 0) 0 e.vm.id (BitVec.ofNat 64 e.recv)
        (BitVec.ofNat 64 e.send)
      let memory ← store s.memory otherWorld.recv desc endpointRxTxDescriptorSize
      if answer.func = ffaSuccess32 then .ok memory else .error .forwardedAnswer

/-- `answer` is what the other world answers to a forwarded call. -/
def apiFfaRxtxMap (s : Manager m) (vm : Endpoint m) (send recv : BitVec 64) (pageCount : BitVec 32)
    (answer : FfaValue) : Run (FfaValue × Manager m) := do
  let desc ← apiGetRxtxDescription s.memory vm send recv pageCount
  match platFfaVmFindLockedCreate s desc.ownerVmId with
  | none => .ok (ffaError .denied, s)
  | some (place, owner) => do
    let (ret, owner, memory, pool) ←
      apiVmConfigurePages owner s.memory desc.send.toNat desc.recv.toNat desc.pageCount
        (mpoolInitWithFallback s.pool)
    let s := { s.put place owner with memory, pool := mpoolFini pool }
    match ret with
    | .error error => .ok (ffaError error, s)
    | .ok () => do
      let memory ← platFfaRxtxMapForward s owner answer
      .ok ({ func := ffaSuccess32 }, { s with memory })

/-- The hypervisor panics unless the SPMC answers with a success. -/
def platFfaRxtxUnmapForward (s : Manager m) (answer : FfaValue) : Run Unit :=
  if m.features.secureWorld ∨ s.teeEnabled = false then .ok ()
  else if answer.func &&& ~~~(1#64 <<< 30) = ffaSuccess32 then .ok ()
  else .error .forwardedAnswer

/-- Whose buffers an FFA_RXTX_UNMAP unmaps. -/
def unmapOwner (vm : Endpoint m) (allocatorId : VmId) : VmId :=
  if allocatorId ≠ 0 then allocatorId else vm.vm.id

/-- Gives the pages back to a partition of this world. The default mode is that of a VM: an EL0
partition is not given user access again. -/
def returnBuffers (e : Endpoint m) (pool : Mpool) : Run (Endpoint m × Mpool) :=
  if vmIdIsCurrentWorld m e.vm.id = false then .ok (e, pool)
  else do
    let mode := mmModeR ||| mmModeW ||| mmModeX
    let (e, pool) ← remap e e.send (bufferEnd e.send) mode pool
    remap e e.recv (bufferEnd e.recv) mode pool

def apiFfaRxtxUnmap (s : Manager m) (vm : Endpoint m) (allocatorId : VmId) (answer : FfaValue) :
    Run (FfaValue × Manager m) :=
  if vmIdIsCurrentWorld m vm.vm.id ∧ allocatorId ≠ 0 then .ok (ffaError .invalidParameters, s)
  else
    match platFfaVmFindLocked s (unmapOwner vm allocatorId) with
    | none => .ok (ffaError .invalidParameters, s)
    | some (place, owner) =>
      if owner.send = 0 ∨ owner.recv = 0 then .ok (ffaError .invalidParameters, s)
      else do
        let (e, pool) ← returnBuffers owner s.pool
        let (memory, pool) ← unmapStage1 s.memory owner.send (bufferEnd owner.send) pool
        let (memory, pool) ← unmapStage1 memory owner.recv (bufferEnd owner.recv) pool
        let e := platFfaVmDestroy { e with send := 0, recv := 0 }
        platFfaRxtxUnmapForward s answer
        .ok ({ func := ffaSuccess32 }, { s.put place e with memory, pool })

/-! ## FFA_RX_RELEASE and FFA_RX_ACQUIRE -/

/-- Whether the hypervisor leaves the RX buffer of a VM to the SPMC. -/
def rxOwnedBySpmc (s : Manager m) (e : Endpoint m) : Bool :=
  !m.features.secureWorld && s.teeEnabled && !decide (e.ffaVersion < ffaVersion11)

/-- Whose mailbox an FFA_RX_RELEASE releases. -/
def releaseVmId (vm : Endpoint m) (receiverId : VmId) : VmId :=
  if vmIdIsCurrentWorld m vm.vm.id ∨ receiverId = 0 then vm.vm.id else receiverId

/-- Nothing ever waits for a mailbox, so that `api_waiter_result` only answers the caller. -/
def apiFfaRxRelease (s : Manager m) (vm : Endpoint m) (receiverId : VmId) (answer : FfaValue) :
    Run (FfaValue × Manager m) :=
  if vmIdIsCurrentWorld m vm.vm.id ∧ receiverId ≠ 0 then .ok (ffaError .invalidParameters, s)
  else
    match platFfaVmFindLocked s (releaseVmId vm receiverId) with
    | none => .ok (ffaError .invalidParameters, s)
    | some (place, e) =>
      if rxOwnedBySpmc s e then
        if vmIdIsCurrentWorld m e.vm.id = false then .error .forwardedAnswer
        else if answer.func = ffaSuccess32 then
          .ok ({ func := ffaSuccess32 }, s.put place (e.setState .empty))
        else .ok (answer, s)
      else
        match e.vm.mailbox.state with
        | .empty => .ok (ffaError .denied, s)
        | .received =>
          if releaseVmId vm receiverId = vm.vm.id then .ok (ffaError .denied, s)
          else .ok ({ func := ffaSuccess32 }, s.put place (e.setState .empty))
        | .read => .ok ({ func := ffaSuccess32 }, s.put place (e.setState .empty))

/-- The mailbox of a VM that is not found is unlocked all the same. -/
def apiFfaRxAcquire (s : Manager m) (vm : Endpoint m) (receiverId : VmId) : Run (FfaValue × Manager m) :=
  if vm.vm.id ≠ hfHypervisorVmId ∨ platFfaIsVmId m receiverId = false then .ok (ffaError .notSupported, s)
  else
    match platFfaVmFindLocked s receiverId with
    | none => .error .nullVm
    | some (place, e) =>
      if e.recv = 0 then .ok (ffaError .invalidParameters, s)
      else if e.vm.mailbox.state ≠ .empty then .ok (ffaError .denied, s)
      else .ok ({ func := ffaSuccess32 }, s.put place (e.setState .received))

/-! ## The calls -/

/-- The calls that register, release and hand over message buffers. -/
inductive MailboxCall
  | rxtxMap (send recv : BitVec 64) (pageCount : BitVec 32)
  | rxtxUnmap (allocatorId : VmId)
  | rxRelease (receiverId : VmId)
  | rxAcquire (receiverId : VmId)
deriving DecidableEq, Repr

def MailboxCall.run (s : Manager m) (vm : Endpoint m) (answer : FfaValue) :
    MailboxCall → Run (FfaValue × Manager m)
  | .rxtxMap send recv pageCount => apiFfaRxtxMap s vm send recv pageCount answer
  | .rxtxUnmap allocatorId => apiFfaRxtxUnmap s vm allocatorId answer
  | .rxRelease receiverId => apiFfaRxRelease s vm receiverId answer
  | .rxAcquire receiverId => apiFfaRxAcquire s vm receiverId

/-- The endpoint that a call is made for. -/
def MailboxCall.Names (s : Manager m) (vm : Endpoint m) (id : VmId) : MailboxCall → Prop
  | .rxtxMap send recv pageCount =>
    ∃ desc, apiGetRxtxDescription s.memory vm send recv pageCount = .ok desc ∧ desc.ownerVmId = id
  | .rxtxUnmap allocatorId => unmapOwner vm allocatorId = id
  | .rxRelease receiverId => releaseVmId vm receiverId = id
  | .rxAcquire receiverId => receiverId = id

end Hafnium.Api
