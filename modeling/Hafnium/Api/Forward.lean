import Hafnium.Api.Notification
import Hafnium.Api.RxtxDescriptor

/-! # Calls that the hypervisor forwards to the SPMC

The hypervisor encodes a call that it makes for one of its VMs into registers, and the SPMC decodes them like
those of any call. The two agree on every call but FFA_RXTX_UNMAP: there the hypervisor puts the VM into the
upper half of a register of which the SPMC reads the lower half, and the SPMC takes the call for one about the
hypervisor's own buffers.
-/

namespace Hafnium.Api

open Mm Ffa

variable {m : MmConfig}

/-! ## Arguments in registers -/

def ffaSender (args : FfaValue) : VmId := ((args.arg1 >>> 16) &&& 0xffff).setWidth 16
def ffaReceiver (args : FfaValue) : VmId := (args.arg1 &&& 0xffff).setWidth 16
def ffaMsgSend2Flags (args : FfaValue) : BitVec 32 := args.arg2.setWidth 32
def ffaNotificationsGetVcpu (args : FfaValue) : BitVec 16 := ((args.arg1 >>> 16) &&& 0xffff).setWidth 16
def ffaNotificationsBitmap (lo hi : BitVec 32) : BitVec 64 := (hi.setWidth 64 <<< 32) ||| lo.setWidth 64

/-- `(upper << 16) | lower`. The operands are promoted to `int`, and the result is sign-extended. -/
def packIds (upper lower : BitVec 16) : BitVec 64 :=
  ((upper.setWidth 32 <<< 16) ||| lower.setWidth 32).signExtend 64

/-- The mask of an argument helper does nothing, as its result has 16 bits. -/
theorem setWidth_masked (x : BitVec 64) : (x &&& 0xffff).setWidth 16 = x.setWidth 16 := by
  rw [BitVec.setWidth_and]
  exact BitVec.and_allOnes

theorem packIds_upper (upper lower : BitVec 16) : (packIds upper lower >>> 16).setWidth 16 = upper := by
  apply BitVec.eq_of_getLsbD_eq
  intro i small
  simp only [packIds, BitVec.getLsbD_setWidth, BitVec.getLsbD_ushiftRight,
    BitVec.getLsbD_signExtend, BitVec.getLsbD_or, BitVec.getLsbD_shiftLeft]
  simp [small, show i < 32 by omega, show 16 + i < 32 by omega, show 16 + i < 64 by omega]

theorem packIds_lower (upper lower : BitVec 16) : (packIds upper lower).setWidth 16 = lower := by
  apply BitVec.eq_of_getLsbD_eq
  intro i small
  simp only [packIds, BitVec.getLsbD_setWidth, BitVec.getLsbD_signExtend, BitVec.getLsbD_or,
    BitVec.getLsbD_shiftLeft]
  simp [small, show i < 32 by omega, show i < 64 by omega]

theorem ffaNotificationsBitmap_halves (bitmap : BitVec 64) :
    ffaNotificationsBitmap (bitmap.setWidth 32) ((bitmap >>> 32).setWidth 32) = bitmap := by
  apply BitVec.eq_of_getLsbD_eq
  intro i small
  simp only [ffaNotificationsBitmap, BitVec.getLsbD_or, BitVec.getLsbD_shiftLeft, BitVec.getLsbD_setWidth,
    BitVec.getLsbD_ushiftRight]
  by_cases low : i < 32
  · simp [low, small]
  · simp [low, small, show i - 32 < 32 by omega, show i - 32 < 64 by omega, show 32 + (i - 32) = i by omega]

/-! ## The dispatcher of the SPMC -/

def ffaRxRelease32 : BitVec 32 := 0x84000065
def ffaRxtxMap64 : BitVec 32 := 0xC4000066
def ffaRxtxUnmap32 : BitVec 32 := 0x84000067
def ffaNotificationBitmapCreate32 : BitVec 32 := 0x8400007D
def ffaNotificationBind32 : BitVec 32 := 0x8400007F
def ffaNotificationUnbind32 : BitVec 32 := 0x84000080
def ffaNotificationSet32 : BitVec 32 := 0x84000081
def ffaNotificationGet32 : BitVec 32 := 0x84000082
def ffaRxAcquire32 : BitVec 32 := 0x84000084

/-- The API functions that forwarded calls reach, with the arguments that they get. -/
inductive ApiCall
  | mailbox (call : MailboxCall)
  | msgSend2 (senderVmId : VmId) (flags : BitVec 32)
  | notificationBitmapCreate (vmId : VmId) (vcpuCount : BitVec 16)
  | notification (call : NotificationCall)
deriving DecidableEq, Repr

/-- The cases of `ffa_handler` for the calls that the hypervisor forwards. -/
def ffaHandler (args : FfaValue) : Option ApiCall :=
  let func : BitVec 32 := args.func.setWidth 32
  let bitmap := ffaNotificationsBitmap (args.arg3.setWidth 32) (args.arg4.setWidth 32)
  if func = ffaRxRelease32 then some (.mailbox (.rxRelease (ffaReceiver args)))
  else if func = ffaRxtxMap64 then some (.mailbox (.rxtxMap args.arg1 args.arg2 (args.arg3.setWidth 32)))
  else if func = ffaRxtxUnmap32 then some (.mailbox (.rxtxUnmap (args.arg1.setWidth 16)))
  else if func = ffaRxAcquire32 then some (.mailbox (.rxAcquire (ffaReceiver args)))
  else if func = ffaMsgSend232 then some (.msgSend2 (ffaSender args) (ffaMsgSend2Flags args))
  else if func = ffaNotificationBitmapCreate32 then
    some (.notificationBitmapCreate (args.arg1.setWidth 16) (args.arg2.setWidth 16))
  else if func = ffaNotificationBind32 then
    some (.notification (.bind (ffaSender args) (ffaReceiver args) (args.arg2.setWidth 32) bitmap))
  else if func = ffaNotificationUnbind32 then
    some (.notification (.unbind (ffaSender args) (ffaReceiver args) bitmap))
  else if func = ffaNotificationSet32 then
    some (.notification (.set (ffaSender args) (ffaReceiver args) (args.arg2.setWidth 32) bitmap))
  else if func = ffaNotificationGet32 then
    some (.notification (.get (ffaReceiver args) (ffaNotificationsGetVcpu args) (args.arg2.setWidth 32)))
  else none

/-! ## Forwarding -/

/-- What is asked of a partition manager, and for which endpoint. -/
inductive Service
  | rxtxMap (desc : RxtxDescription)
  | rxtxUnmap (ownerVmId : VmId)
  | rxRelease (vmId : VmId)
  | rxAcquire (receiverId : VmId)
  | msgSend2 (senderVmId : VmId) (flags : BitVec 32)
  | notificationBitmapCreate (vmId : VmId) (vcpuCount : BitVec 16)
  | notification (call : NotificationCall)
deriving DecidableEq, Repr

/-- What an API function takes its arguments for. -/
def ApiCall.service (memory : HypMemory m) (current : Endpoint m) : ApiCall → Run Service
  | .mailbox (.rxtxMap send recv pageCount) => do
    let desc ← apiGetRxtxDescription memory current send recv pageCount
    .ok (.rxtxMap desc)
  | .mailbox (.rxtxUnmap allocatorId) => .ok (.rxtxUnmap (unmapOwner current allocatorId))
  | .mailbox (.rxRelease receiverId) => .ok (.rxRelease (releaseVmId current receiverId))
  | .mailbox (.rxAcquire receiverId) => .ok (.rxAcquire receiverId)
  | .msgSend2 senderVmId flags => .ok (.msgSend2 (msgSenderId current senderVmId) flags)
  | .notificationBitmapCreate vmId vcpuCount => .ok (.notificationBitmapCreate vmId vcpuCount)
  | .notification call => .ok (.notification call)

/-- The forwarding functions of the hypervisor with their arguments. A VM may not set flags for
FFA_MSG_SEND2, and FFA_NOTIFICATION_GET is forwarded once for each class of notifications that the
SPMC keeps. -/
inductive Forwarded
  | rxtxMap (id : VmId) (send recv : BitVec 64)
  | rxtxUnmap (id : VmId)
  | rxRelease (id : VmId)
  | rxAcquire (id : VmId)
  | msgSend2 (senderVmId : VmId)
  | notificationBitmapCreate (vmId : VmId) (vcpuCount : BitVec 16)
  | notification (call : NotificationCall)
deriving DecidableEq, Repr

/-- The registers of a forwarded call. -/
def Forwarded.registers : Forwarded → FfaValue
  | .rxtxMap .. => { func := ffaRxtxMap64.setWidth 64 }
  | .rxtxUnmap id => { func := ffaRxtxUnmap32.setWidth 64, arg1 := packIds id 0 }
  | .rxRelease id => { func := ffaRxRelease32.setWidth 64, arg1 := id.setWidth 64 }
  | .rxAcquire id => { func := ffaRxAcquire32.setWidth 64, arg1 := id.setWidth 64 }
  | .msgSend2 senderVmId => { func := ffaMsgSend232.setWidth 64, arg1 := packIds senderVmId 0 }
  | .notificationBitmapCreate vmId vcpuCount =>
    { func := ffaNotificationBitmapCreate32.setWidth 64, arg1 := vmId.setWidth 64,
      arg2 := vcpuCount.setWidth 64 }
  | .notification (.bind sender receiver flags bitmap) =>
    { func := ffaNotificationBind32.setWidth 64, arg1 := packIds sender receiver, arg2 := flags.setWidth 64
      arg3 := (bitmap.setWidth 32).setWidth 64, arg4 := ((bitmap >>> 32).setWidth 32).setWidth 64 }
  | .notification (.unbind sender receiver bitmap) =>
    { func := ffaNotificationUnbind32.setWidth 64, arg1 := packIds sender receiver
      arg3 := (bitmap.setWidth 32).setWidth 64, arg4 := ((bitmap >>> 32).setWidth 32).setWidth 64 }
  | .notification (.set sender receiver flags bitmap) =>
    { func := ffaNotificationSet32.setWidth 64, arg1 := packIds sender receiver, arg2 := flags.setWidth 64
      arg3 := (bitmap.setWidth 32).setWidth 64, arg4 := ((bitmap >>> 32).setWidth 32).setWidth 64 }
  | .notification (.get receiver vcpuId flags) =>
    { func := ffaNotificationGet32.setWidth 64, arg1 := packIds vcpuId receiver, arg2 := flags.setWidth 64 }

/-- The memory when a call is made: the buffers of a VM are described in the page that the SPMC knows as the
hypervisor's TX buffer. -/
def Forwarded.memory (memory : HypMemory m) (page : Nat) : Forwarded → HypMemory m
  | .rxtxMap id send recv =>
    { memory with bytes := ffaEndpointRxTxDescriptorInit memory.bytes page id recv send }
  | _ => memory

/-- What the hypervisor asks for. -/
def Forwarded.service : Forwarded → Service
  | .rxtxMap id send recv => .rxtxMap ⟨send, recv, 1, id⟩
  | .rxtxUnmap id => .rxtxUnmap id
  | .rxRelease id => .rxRelease id
  | .rxAcquire id => .rxAcquire id
  | .msgSend2 senderVmId => .msgSend2 senderVmId 0
  | .notificationBitmapCreate vmId vcpuCount => .notificationBitmapCreate vmId vcpuCount
  | .notification call => .notification call

/-- The SPMC does what the hypervisor asks for. -/
def Forwarded.Agrees (memory : HypMemory m) (nwd : Endpoint m) (call : Forwarded) : Prop :=
  ∃ api, ffaHandler call.registers = some api ∧
    api.service (call.memory memory nwd.send) nwd = .ok call.service

/-- The SPMC reads the half of the register that the hypervisor has not written. -/
theorem ffaHandler_rxtxUnmap (id : VmId) :
    ffaHandler (Forwarded.rxtxUnmap id).registers = some (.mailbox (.rxtxUnmap 0)) :=
  congrArg (fun allocator => some (ApiCall.mailbox (.rxtxUnmap allocator))) (packIds_lower id 0)

variable {id : VmId}

section Registers

variable {args : FfaValue} {upper lower : BitVec 16}

theorem ffaSender_packIds (packed : args.arg1 = packIds upper lower) : ffaSender args = upper := by
  rw [ffaSender, setWidth_masked, packed, packIds_upper]

theorem ffaReceiver_packIds (packed : args.arg1 = packIds upper lower) : ffaReceiver args = lower := by
  rw [ffaReceiver, setWidth_masked, packed, packIds_lower]

/-- An identifier that is alone in its register. -/
theorem ffaReceiver_alone (alone : args.arg1 = id.setWidth 64) : ffaReceiver args = id := by
  rw [ffaReceiver, setWidth_masked, alone]
  exact BitVec.setWidth_setWidth_of_le id (by decide)

theorem flags_of_register {flags : BitVec 32} (passed : args.arg2 = flags.setWidth 64) :
    args.arg2.setWidth 32 = flags := by
  rw [passed]
  exact BitVec.setWidth_setWidth_of_le flags (by decide)

/-- A bitmap that is passed in two registers. -/
theorem ffaNotificationsBitmap_registers {bitmap : BitVec 64}
    (lo : args.arg3 = (bitmap.setWidth 32).setWidth 64)
    (hi : args.arg4 = ((bitmap >>> 32).setWidth 32).setWidth 64) :
    ffaNotificationsBitmap (args.arg3.setWidth 32) (args.arg4.setWidth 32) = bitmap := by
  have back (half : BitVec 32) : (half.setWidth 64).setWidth 32 = half :=
    BitVec.setWidth_setWidth_of_le half (by decide)
  rw [lo, hi, back, back, ffaNotificationsBitmap_halves]

end Registers

theorem ffaHandler_rxRelease (id : VmId) :
    ffaHandler (Forwarded.rxRelease id).registers = some (.mailbox (.rxRelease id)) :=
  congrArg (fun id => some (ApiCall.mailbox (.rxRelease id))) (ffaReceiver_alone rfl)

theorem ffaHandler_notification (call : NotificationCall) :
    ffaHandler (Forwarded.notification call).registers = some (.notification call) := by
  cases call with
  | bind sender receiver flags bitmap =>
    let args := (Forwarded.notification (.bind sender receiver flags bitmap)).registers
    have decoded : ffaHandler args = some (.notification (.bind (ffaSender args) (ffaReceiver args)
        (args.arg2.setWidth 32)
      (ffaNotificationsBitmap (args.arg3.setWidth 32) (args.arg4.setWidth 32)))) := rfl
    rw [decoded, ffaSender_packIds rfl, ffaReceiver_packIds rfl, flags_of_register rfl,
      ffaNotificationsBitmap_registers rfl rfl]
  | unbind sender receiver bitmap =>
    let args := (Forwarded.notification (.unbind sender receiver bitmap)).registers
    have decoded : ffaHandler args = some (.notification (.unbind (ffaSender args) (ffaReceiver args)
      (ffaNotificationsBitmap (args.arg3.setWidth 32) (args.arg4.setWidth 32)))) := rfl
    rw [decoded, ffaSender_packIds rfl, ffaReceiver_packIds rfl, ffaNotificationsBitmap_registers rfl rfl]
  | set sender receiver flags bitmap =>
    let args := (Forwarded.notification (.set sender receiver flags bitmap)).registers
    have decoded : ffaHandler args = some (.notification (.set (ffaSender args) (ffaReceiver args)
        (args.arg2.setWidth 32)
      (ffaNotificationsBitmap (args.arg3.setWidth 32) (args.arg4.setWidth 32)))) := rfl
    rw [decoded, ffaSender_packIds rfl, ffaReceiver_packIds rfl, flags_of_register rfl,
      ffaNotificationsBitmap_registers rfl rfl]
  | get receiver vcpuId flags =>
    let args := (Forwarded.notification (.get receiver vcpuId flags)).registers
    have decoded : ffaHandler args = some
        (.notification (.get (ffaReceiver args) (ffaNotificationsGetVcpu args)
      (args.arg2.setWidth 32))) := rfl
    have vcpu : ffaNotificationsGetVcpu args = vcpuId := ffaSender_packIds rfl
    rw [decoded, ffaReceiver_packIds rfl, flags_of_register rfl, vcpu]

section Agreement

variable (spmc : m.features.secureWorld = true) {memory : HypMemory m} {nwd : Endpoint m}
  (isNwd : nwd.vm.id = hfHypervisorVmId)
include isNwd

/-- A forwarded unmap is understood as one of the hypervisor's own buffers. -/
theorem agrees_rxtxUnmap_iff : (Forwarded.rxtxUnmap id).Agrees memory nwd ↔ id = hfHypervisorVmId := by
  have owner : unmapOwner nwd 0 = hfHypervisorVmId := by rw [unmapOwner, if_neg (absurd rfl), isNwd]
  constructor
  · rintro ⟨api, decoded, same⟩
    cases (ffaHandler_rxtxUnmap id).symm.trans decoded
    have same : unmapOwner nwd 0 = id := Service.rxtxUnmap.inj (Except.ok.inj same)
    rw [← same, owner]
  · rintro rfl
    exact ⟨_, ffaHandler_rxtxUnmap _, congrArg (fun owner => Except.ok (Service.rxtxUnmap owner)) owner⟩

include spmc

/-- All other calls are understood. -/
theorem agrees_of_not_rxtxUnmap (tx : TxPage memory nwd.send) {call : Forwarded}
    (other : ∀ id, call ≠ .rxtxUnmap id) : call.Agrees memory nwd := by
  have world : vmIdIsCurrentWorld m nwd.vm.id = false := by
    rw [isNwd]
    simp [vmIdIsCurrentWorld, hfOtherWorldId_spmc spmc]
  have caller : nwd.vm.id = hfOtherWorldId m := isNwd.trans (hfOtherWorldId_spmc spmc).symm
  cases call with
  | rxtxMap id send recv =>
    refine ⟨.mailbox (.rxtxMap 0 0 0), rfl, ?_⟩
    exact Partial.bind_ok_iff.mpr ⟨_, apiGetRxtxDescription_init caller tx id recv send, rfl⟩
  | rxtxUnmap id => exact absurd rfl (other id)
  | rxRelease id =>
    have released : releaseVmId nwd id = id := by
      rw [releaseVmId, world, isNwd]
      split
      · next own => exact (own.resolve_left Bool.false_ne_true).symm
      · rfl
    exact ⟨_, ffaHandler_rxRelease id, congrArg (fun id => Except.ok (Service.rxRelease id)) released⟩
  | rxAcquire id =>
    refine ⟨.mailbox (.rxAcquire id), ?_, rfl⟩
    exact congrArg (fun id => some (ApiCall.mailbox (.rxAcquire id))) (ffaReceiver_alone rfl)
  | msgSend2 sender =>
    refine ⟨.msgSend2 sender 0, ?_, ?_⟩
    · exact congrArg (fun sender => some (ApiCall.msgSend2 sender 0)) (ffaSender_packIds rfl)
    · have sent : msgSenderId nwd sender = sender := by
        rw [msgSenderId, isNwd]
        split
        · rfl
        · next none => exact (not_not.mp none).symm
      exact congrArg (fun sender => Except.ok (Service.msgSend2 sender 0)) sent
  | notificationBitmapCreate vmId vcpuCount =>
    refine ⟨.notificationBitmapCreate vmId vcpuCount, ?_, rfl⟩
    have back (x : BitVec 16) : (x.setWidth 64).setWidth 16 = x :=
      BitVec.setWidth_setWidth_of_le x (by decide)
    exact congrArg₂ (fun vmId count => some (ApiCall.notificationBitmapCreate vmId count))
      (back vmId) (back vcpuCount)
  | notification call => exact ⟨.notification call, ffaHandler_notification call, rfl⟩

/-- The SPMC does what the hypervisor asks for, except that it unmaps the buffers of the hypervisor
and not those of a VM. -/
theorem forwarded_agrees_iff (tx : TxPage memory nwd.send) (call : Forwarded) :
    (call.Agrees memory nwd ↔ ∀ id, call = .rxtxUnmap id → id = hfHypervisorVmId) ∧
      ∀ (s s' : Manager m) id mailboxCall answer ret,
        ffaHandler (Forwarded.rxtxUnmap id).registers = some (.mailbox mailboxCall) →
        mailboxCall.run s nwd answer = .ok (ret, s') → ∀ place, place ≠ .vm hfHypervisorVmId →
          s'.get place = s.get place := by
  refine ⟨⟨?_, fun allowed => ?_⟩, fun s s' id mailboxCall answer ret decoded returned place other => ?_⟩
  · rintro agrees id rfl
    exact (agrees_rxtxUnmap_iff isNwd).mp agrees
  · by_cases unmap : ∃ id, call = .rxtxUnmap id
    · obtain ⟨id, rfl⟩ := unmap
      exact (agrees_rxtxUnmap_iff isNwd).mpr (allowed id rfl)
    · exact agrees_of_not_rxtxUnmap spmc isNwd tx (not_exists.mp unmap)
  · -- No endpoint but the hypervisor is changed by a forwarded unmap.
    cases (ffaHandler_rxtxUnmap id).symm.trans decoded
    rcases apiFfaRxtxUnmap_cases _ returned with rfl | ⟨place', e, id', t, -, found, -, -, replaces, -⟩
    · rfl
    · have here : place' = .vm hfHypervisorVmId := by
        rw [unmapOwner, if_neg (absurd rfl), isNwd, platFfaVmFindLocked,
          if_pos (.inr (hfOtherWorldId_spmc spmc).symm)] at found
        exact (vmFindLocked_some found).1
      rw [replaces.get, if_neg (here ▸ other)]

end Agreement

/-- An FFA_RX_RELEASE of the VM 1 is understood. -/
theorem forwarded_agrees_rxRelease : ∃ memory : HypMemory spmcConfig,
    (Forwarded.rxRelease 1).Agrees memory (nwdWithTx spmcConfig 0x3000) := by
  obtain ⟨t, tx⟩ := exists_txPage spmcConfig
  have isNwd : (nwdWithTx spmcConfig 0x3000).vm.id = hfHypervisorVmId := rfl
  exact ⟨⟨t, fun _ => 0⟩, (forwarded_agrees_iff rfl isNwd (tx fun _ => 0) (.rxRelease 1)).1.mpr
    fun id other => by cases other⟩

/-- An FFA_RXTX_UNMAP of the VM 1 is not. -/
theorem forwarded_disagrees_rxtxUnmap : ∃ memory : HypMemory spmcConfig, TxPage memory 0x3000 ∧
    ¬(Forwarded.rxtxUnmap 1).Agrees memory (nwdWithTx spmcConfig 0x3000) := by
  have isNwd : (nwdWithTx spmcConfig 0x3000).vm.id = hfHypervisorVmId := rfl
  obtain ⟨t, tx⟩ := exists_txPage spmcConfig
  refine ⟨⟨t, fun _ => 0⟩, tx _, fun agrees => ?_⟩
  exact absurd ((agrees_rxtxUnmap_iff isNwd).mp agrees) (by decide)

end Hafnium.Api
