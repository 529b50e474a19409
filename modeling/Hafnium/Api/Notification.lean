import Hafnium.Api.Rxtx

/-! # Notifications

A receiver binds each of its 64 notifications per class of sender, VMs or secure partitions, to one
sender, which may then set them. FFA_NOTIFICATION_GET returns and clears them. The hypervisor keeps
what VMs set for VMs; everything else is kept by the SPMC, to which the hypervisor passes the calls
of its VMs on.
-/

namespace Hafnium.Api

open Mm Ffa Function

/-- A bitmap is kept for the whole VM and for each of its vCPUs. -/
inductive Slot
  | global
  | vcpu (index : Nat)
deriving DecidableEq, Repr

/-- The notifications of one class of senders. What the scheduler of the receiver has been told of
them is left out: only FFA_NOTIFICATION_INFO_GET asks for that. -/
structure Notifications where
  bindingsSenderId : Nat → VmId
  bindingsPerVcpu : BitVec 64
  pending : Slot → BitVec 64

/-- What the notification calls see of a VM. -/
structure VmNotifications where
  vcpuCount : Nat
  enabled : Bool
  mailboxState : MailboxState
  fromVm : Notifications
  fromSp : Notifications
  framework : BitVec 64

/-- The VMs of a partition manager, in the SPMC with the normal-world VMs that have a bitmap, and the
count of all pending notifications. -/
structure NotificationManager where
  vms : VmId → Option VmNotifications
  pendingCount : Nat

def NotificationManager.put (s : NotificationManager) (id : VmId) (vm : VmNotifications) :
    NotificationManager :=
  { s with vms := update s.vms id (some vm) }

def vmGetNotifications (vm : VmNotifications) (isFromVm : Bool) : Notifications :=
  if isFromVm then vm.fromVm else vm.fromSp

def VmNotifications.putNotifications (vm : VmNotifications) (isFromVm : Bool) (n : Notifications) :
    VmNotifications :=
  if isFromVm then { vm with fromVm := n } else { vm with fromSp := n }

def maxFfaNotifications : Nat := 64

/-! ## Bitmaps -/

def bitCount (bitmap : BitVec 64) : Nat := (List.range maxFfaNotifications).countP fun i => bitmap.getLsbD i

def vmNotificationsPendingCountAdd (bitmap : BitVec 64) (counter : Nat) : Run Nat :=
  if counter + bitCount bitmap < 2 ^ 32 then .ok (counter + bitCount bitmap) else .error .notificationCount

def vmNotificationsPendingCountSub (bitmap : BitVec 64) (counter : Nat) : Run Nat :=
  if bitCount bitmap ≤ counter then .ok (counter - bitCount bitmap) else .error .notificationCount

def vmAreNotificationsPending (maxCpus : Nat) (n : Notifications) (bitmap : BitVec 64) : Bool :=
  (List.range maxCpus).any (fun i => decide (n.pending (.vcpu i) &&& bitmap ≠ 0)) ||
    decide (n.pending .global &&& bitmap ≠ 0)

def vmNotificationsValidateBoundSender (n : Notifications) (senderId : VmId) (bitmap : BitVec 64) : Bool :=
  (List.range maxFfaNotifications).all fun i => !bitmap.getLsbD i || decide (n.bindingsSenderId i = senderId)

def vmNotificationsValidatePerVcpu (n : Notifications) (isPerVcpu : Bool) (bitmap : BitVec 64) : Bool :=
  if isPerVcpu then decide (~~~n.bindingsPerVcpu &&& bitmap = 0) else
    decide (n.bindingsPerVcpu &&& bitmap = 0)

def vmNotificationsUpdateBindings (n : Notifications) (senderId : VmId) (bitmap : BitVec 64)
    (isPerVcpu : Bool) : Notifications :=
  { n with
    bindingsSenderId := fun i => if bitmap.getLsbD i then senderId else n.bindingsSenderId i
    bindingsPerVcpu := if isPerVcpu then n.bindingsPerVcpu ||| bitmap else n.bindingsPerVcpu &&& ~~~bitmap }

/-- The vCPU is checked for notifications of the whole VM too. -/
def vmNotificationsPartitionSetPending (maxCpus : Nat) (n : Notifications) (bitmap : BitVec 64)
    (vcpuId : BitVec 16) (isPerVcpu : Bool) (counter : Nat) : Run (Notifications × Nat) :=
  if maxCpus ≤ vcpuId.toNat then .error .vcpuIndex
  else do
    let slot := if isPerVcpu then Slot.vcpu vcpuId.toNat else .global
    let counter ← vmNotificationsPendingCountAdd bitmap counter
    .ok ({ n with pending := update n.pending slot (n.pending slot ||| bitmap) }, counter)

def vmNotificationsPartitionGetPending (maxCpus : Nat) (n : Notifications) (vcpuId : BitVec 16)
    (counter : Nat) : Run (BitVec 64 × Notifications × Nat) :=
  if maxCpus ≤ vcpuId.toNat then .error .vcpuIndex
  else do
    let global := n.pending .global
    let counter ← vmNotificationsPendingCountSub global counter
    let perVcpu := n.pending (.vcpu vcpuId.toNat)
    let counter ← vmNotificationsPendingCountSub perVcpu counter
    let pending := update (update n.pending .global 0) (.vcpu vcpuId.toNat) 0
    .ok (global ||| perVcpu, { n with pending }, counter)

/-- A receiver that gets to know of a message may read it. -/
def vmNotificationsFrameworkGetPending (vm : VmNotifications) (counter : Nat) :
    Run (BitVec 64 × VmNotifications × Nat) := do
  let counter ← vmNotificationsPendingCountSub vm.framework counter
  let rxBufferFull := vm.framework &&&
    (ffaNotificationSpmBufferFullMask ||| ffaNotificationHypBufferFullMask) ≠ 0
  let mailboxState := if rxBufferFull ∧ vm.mailboxState = .received then .read else vm.mailboxState
  .ok (vm.framework, { vm with framework := 0, mailboxState }, counter)

/-! ## The calls -/

inductive NotificationCall
  | bind (senderVmId receiverVmId : VmId) (flags : BitVec 32) (bitmap : BitVec 64)
  | unbind (senderVmId receiverVmId : VmId) (bitmap : BitVec 64)
  | set (senderVmId receiverVmId : VmId) (flags : BitVec 32) (bitmap : BitVec 64)
  | get (receiverVmId : VmId) (vcpuId : BitVec 16) (flags : BitVec 32)
deriving DecidableEq, Repr

/-- The bitmaps take two registers each. -/
inductive NotificationAnswer
  | error (error : FfaError)
  | success
  | bitmaps (fromSp fromVm framework : BitVec 64)
deriving DecidableEq, Repr

/-- How a call reaches the other world. -/
abbrev Relay := NotificationCall → NotificationManager → Run (NotificationAnswer × NotificationManager)

/-- What a partition manager is built for. -/
structure NotificationConfig where
  world : MmConfig
  maxCpus : Nat
  ffaTeeEnabled : Bool

def ffaNotificationFlagPerVcpu : BitVec 32 := 1
def ffaNotificationFlagBitmapSp : BitVec 32 := 1
def ffaNotificationFlagBitmapVm : BitVec 32 := 2
def ffaNotificationFlagBitmapSpm : BitVec 32 := 4
def ffaNotificationFlagBitmapHyp : BitVec 32 := 8

section Calls

variable (c : NotificationConfig) (relay : Relay) (current : VmId) (s other : NotificationManager)

/-- `plat_ffa_vm_find_locked`. -/
def NotificationManager.find (id : VmId) : Option VmNotifications :=
  if c.world.features.secureWorld ∨ vmIdIsCurrentWorld c.world id ∨ id = hfOtherWorldId c.world then
    s.vms id
  else none

def platFfaIsNotificationsBindValid (senderId receiverId : VmId) : Bool :=
  if c.world.features.secureWorld then
    decide (senderId ≠ receiverId) && (decide (current = receiverId) ||
      (decide (current = hfHypervisorVmId) &&
      !vmIdIsCurrentWorld c.world receiverId && vmIdIsCurrentWorld c.world senderId))
  else decide (senderId ≠ receiverId ∧ current = receiverId)

def platFfaIsNotificationSetValid (senderId receiverId : VmId) : Bool :=
  if c.world.features.secureWorld then
    decide (senderId ≠ receiverId) && (decide (senderId = current) || (decide (current = hfHypervisorVmId) &&
      !vmIdIsCurrentWorld c.world senderId && vmIdIsCurrentWorld c.world receiverId))
  else decide (senderId = current ∧ senderId ≠ receiverId)

def platFfaIsNotificationGetValid (receiverId : VmId) (flags : BitVec 32) : Bool :=
  if c.world.features.secureWorld then
    (decide (current = receiverId) || (decide (current = hfHypervisorVmId) && !vmIdIsCurrentWorld
      c.world receiverId)) && !(platFfaIsVmId c.world receiverId &&
        decide (flags &&& (ffaNotificationFlagBitmapVm ||| ffaNotificationFlagBitmapHyp) ≠ 0))
  else decide (current = receiverId)

/-- FFA_NOTIFICATION_BIND and FFA_NOTIFICATION_UNBIND. -/
def apiFfaNotificationUpdateBindings (senderVmId receiverVmId : VmId) (flags : BitVec 32)
    (bitmap : BitVec 64) (isBind : Bool) :
    Run (NotificationAnswer × NotificationManager × NotificationManager) :=
  let isPerVcpu := decide (flags &&& ffaNotificationFlagPerVcpu ≠ 0)
  let idToUpdate := if isBind then senderVmId else hfInvalidVmId
  let idToValidate := if isBind then hfInvalidVmId else senderVmId
  let isFromVm := platFfaIsVmId c.world senderVmId
  if platFfaIsNotificationsBindValid c current senderVmId receiverVmId = false then
    .ok (.error .invalidParameters, s, other)
  else if c.world.features.secureWorld = false ∧ vmIdIsCurrentWorld c.world receiverVmId ∧
      vmIdIsCurrentWorld c.world senderVmId = false then do
    let (answer, other) ← relay
      (if isBind then .bind senderVmId receiverVmId flags bitmap
      else .unbind senderVmId receiverVmId bitmap) other
    .ok (answer, s, other)
  else if bitmap = 0 then .ok (.error .invalidParameters, s, other)
  else
    match s.find c receiverVmId with
    | none => .ok (.error .denied, s, other)
    | some vm =>
      if vm.enabled = false then .ok (.error .notSupported, s, other)
      else if isBind ∧ vmIdIsCurrentWorld c.world senderVmId ∧ s.vms senderVmId = none then
        .ok (.error .invalidParameters, s, other)
      else if vmNotificationsValidateBoundSender (vmGetNotifications vm isFromVm)
        idToValidate bitmap = false then
        .ok (.error .denied, s, other)
      else if vmAreNotificationsPending c.maxCpus (vmGetNotifications vm isFromVm) bitmap then
        .ok (.error .denied, s, other)
      else
        let n := vmNotificationsUpdateBindings (vmGetNotifications vm isFromVm)
          idToUpdate bitmap (isPerVcpu && isBind)
        .ok (.success, s.put receiverVmId (vm.putNotifications isFromVm n), other)

/-- The interrupt for the scheduler of the receiver is left out. -/
def apiFfaNotificationSet (senderVmId receiverVmId : VmId) (flags : BitVec 32) (bitmap : BitVec 64) :
    Run (NotificationAnswer × NotificationManager × NotificationManager) :=
  let isPerVcpu := decide (flags &&& ffaNotificationFlagPerVcpu ≠ 0)
  let vcpuId : BitVec 16 := (flags >>> 16).setWidth 16
  let isFromVm := platFfaIsVmId c.world senderVmId
  if platFfaIsNotificationSetValid c current senderVmId receiverVmId = false then
    .ok (.error .invalidParameters, s, other)
  else if bitmap = 0 then .ok (.error .invalidParameters, s, other)
  else if c.world.features.secureWorld = false ∧ vmIdIsCurrentWorld c.world receiverVmId = false then do
    let (answer, other) ← relay (.set senderVmId receiverVmId flags bitmap) other
    .ok (answer, s, other)
  else
    match s.find c receiverVmId with
    | none => .ok (.error .invalidParameters, s, other)
    | some vm =>
      let n := vmGetNotifications vm isFromVm
      if vm.enabled = false then .ok (.error .denied, s, other)
      else if (vmNotificationsValidateBoundSender n senderVmId bitmap &&
        vmNotificationsValidatePerVcpu n isPerVcpu bitmap) = false then
        .ok (.error .denied, s, other)
      else if isPerVcpu ∧ vm.vcpuCount ≤ vcpuId.toNat then .ok (.error .invalidParameters, s, other)
      else do
        let (n, pendingCount) ← vmNotificationsPartitionSetPending c.maxCpus n bitmap vcpuId
            isPerVcpu s.pendingCount
        .ok (.success, { s.put receiverVmId (vm.putNotifications isFromVm n) with pendingCount }, other)

/-- Reads a class of notifications of this partition manager, if asked for. -/
def takePending (asked : Bool) (isFromVm : Bool) (vm : VmNotifications) (vcpuId : BitVec 16) (counter : Nat) :
    Run (BitVec 64 × VmNotifications × Nat) :=
  if asked then do
    let (bits, n, counter) ← vmNotificationsPartitionGetPending c.maxCpus
        (vmGetNotifications vm isFromVm) vcpuId counter
    .ok (bits, vm.putNotifications isFromVm n, counter)
  else .ok (0, vm, counter)

/-- Asks the other world for a class of notifications. An error is passed on. -/
def relayGet (asked : Bool) (receiverVmId : VmId) (vcpuId : BitVec 16) (flags : BitVec 32) :
    Run (Except FfaError (BitVec 64 × BitVec 64) × NotificationManager) :=
  if asked then do
    let (answer, other) ← relay (.get receiverVmId vcpuId flags) other
    match answer with
    | .error error => .ok (.error error, other)
    | .success => .ok (.ok (0, 0), other)
    | .bitmaps fromSp _ framework => .ok (.ok (fromSp, framework), other)
  else .ok (.ok (0, 0), other)

/-- The class of the secure partitions is kept by the SPMC. -/
def platFfaNotificationsGetFromSp (asked : Bool) (receiverVmId : VmId) (vm : VmNotifications)
    (vcpuId : BitVec 16) (counter : Nat) :
    Run (Except FfaError (BitVec 64) × VmNotifications × Nat × NotificationManager) :=
  if c.world.features.secureWorld then do
    let (bits, vm, counter) ← takePending c asked false vm vcpuId counter
    .ok (.ok bits, vm, counter, other)
  else do
    let (answer, other) ← relayGet relay other asked receiverVmId vcpuId ffaNotificationFlagBitmapSp
    .ok (answer.map Prod.fst, vm, counter, other)

/-- The hypervisor asks the SPMC first, then adds its own. -/
def platFfaNotificationsGetFrameworkNotifications (asked : Bool) (receiverVmId : VmId)
    (vm : VmNotifications) (vcpuId : BitVec 16) (flags : BitVec 32) (counter : Nat) :
    Run (Except FfaError (BitVec 64) × VmNotifications × Nat × NotificationManager) :=
  if asked = false then .ok (.ok 0, vm, counter, other)
  else if c.world.features.secureWorld then
    if vmIdIsCurrentWorld c.world receiverVmId = false ∧ flags &&& ffaNotificationFlagBitmapHyp ≠ 0 then
      .ok (.error .invalidParameters, vm, counter, other)
    else do
      let (bits, vm, counter) ← vmNotificationsFrameworkGetPending vm counter
      .ok (.ok bits, vm, counter, other)
  else do
    let (answer, other) ← relayGet relay other c.ffaTeeEnabled receiverVmId vcpuId
        ffaNotificationFlagBitmapSpm
    match answer with
    | .error error => .ok (.error error, vm, counter, other)
    | .ok (_, spm) => do
      let (bits, vm, counter) ← vmNotificationsFrameworkGetPending vm counter
      .ok (.ok (spm ||| bits), vm, counter, other)

def NotificationManager.write (receiverVmId : VmId) (vm : VmNotifications) (pendingCount : Nat) :
    NotificationManager :=
  { s.put receiverVmId vm with pendingCount }

/-- `cpu` is the index of the CPU that the call is made on. -/
def apiFfaNotificationGet (cpu : Nat) (receiverVmId : VmId) (vcpuId : BitVec 16) (flags : BitVec 32) :
    Run (NotificationAnswer × NotificationManager × NotificationManager) :=
  let asks (flag : BitVec 32) := decide (flags &&& flag ≠ 0)
  let allFlags := ffaNotificationFlagBitmapHyp ||| ffaNotificationFlagBitmapSpm |||
    ffaNotificationFlagBitmapSp ||| ffaNotificationFlagBitmapVm
  if asks (~~~allFlags) then .ok (.error .invalidParameters, s, other)
  else if platFfaIsNotificationGetValid c current receiverVmId flags = false then
    .ok (.error .invalidParameters, s, other)
  else
    match s.find c receiverVmId with
    | none => .error .nullVm
    | some vm =>
      if vm.vcpuCount ≤ vcpuId.toNat ∨ vm.vcpuCount ≠ 1 ∧ cpu ≠ vcpuId.toNat then
        .ok (.error .invalidParameters, s, other)
      else do
        let (fromSp, vm, counter, other) ←
          platFfaNotificationsGetFromSp c relay other (asks ffaNotificationFlagBitmapSp)
            receiverVmId vm vcpuId s.pendingCount
        match fromSp with
        | .error error => .ok (.error error, s.write receiverVmId vm counter, other)
        | .ok fromSp => do
          let (fromVm, vm, counter) ← takePending c (asks ffaNotificationFlagBitmapVm) true vm vcpuId counter
          let (framework, vm, counter, other) ← platFfaNotificationsGetFrameworkNotifications c relay other
            (asks (ffaNotificationFlagBitmapHyp ||| ffaNotificationFlagBitmapSpm))
              receiverVmId vm vcpuId flags counter
          match framework with
          | .error error => .ok (.error error, s.write receiverVmId vm counter, other)
          | .ok framework => .ok (.bitmaps fromSp fromVm framework, s.write receiverVmId vm counter, other)

def NotificationCall.run (cpu : Nat) :
    NotificationCall → Run (NotificationAnswer × NotificationManager × NotificationManager)
  | .bind sender receiver flags bitmap =>
    apiFfaNotificationUpdateBindings c relay current s other sender receiver flags bitmap true
  | .unbind sender receiver bitmap =>
    apiFfaNotificationUpdateBindings c relay current s other sender receiver 0 bitmap false
  | .set sender receiver flags bitmap =>
    apiFfaNotificationSet c relay current s other sender receiver flags bitmap
  | .get receiver vcpuId flags => apiFfaNotificationGet c relay current s other cpu receiver vcpuId flags

end Calls

end Hafnium.Api
