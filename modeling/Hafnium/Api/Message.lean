import Hafnium.Api.MailboxFrame

/-! # Indirect messages

FFA_MSG_SEND2 copies a message from the TX buffer of its sender to the RX buffer of its receiver.
The hypervisor sends on behalf of the VM that it names in a register; the SPMC looks that name up
among its own partitions too. The message itself always arrives as it was in the TX buffer that is
found.
-/

namespace Hafnium.Api

open Mm Ffa Partial Function

variable {m : MmConfig}

/-! ## Copying -/

/-- Copies byte after byte; `none` if an access aborts. -/
def memcpyBytes (t : MmPtable (m.levels .stage1)) (dest src : Nat) (bytes : Nat → BitVec 8) :
    (count : Nat) → Option (Nat → BitVec 8)
  | 0 => some bytes
  | count + 1 =>
    match memcpyBytes t dest src bytes count, loadTarget t (src + count), storeTarget t (dest + count) with
    | some bytes, some source, some target => some (update bytes target (bytes source))
    | _, _, _ => none

/-- Panics unless the two ranges of addresses are apart and the destination is large enough. -/
def memcpyS (t : MmPtable (m.levels .stage1)) (dest destsz src count : Nat) (bytes : Nat → BitVec 8) :
    Run (Nat → BitVec 8) :=
  if dest = 0 ∨ src = 0 ∨ destsz > rsizeMax ∨ count > destsz ∨ dest = src ∨
      (src ≤ dest ∧ dest < (src + count) % 2 ^ 64) ∨ (dest ≤ src ∧ src < (dest + count) % 2 ^ 64) then
    .error .memcpy
  else
    match memcpyBytes t dest src bytes count with
    | none => .error .dataAbort
    | some bytes => .ok bytes

/-! ## FFA_MSG_SEND2 -/

def ffaRxtxHeaderSize : Nat := 20
def ffaPartitionMsgPayloadMax : Nat := hfMailboxSize - ffaRxtxHeaderSize
def ffaMsgPayloadMax : Nat := hfMailboxSize

/-- The fields of a message header that are looked at. -/
structure RxtxHeader where
  senderReceiver : BitVec 32
  size : BitVec 32
deriving DecidableEq, Repr

def ffaRxtxHeaderSender (header : RxtxHeader) : VmId := (header.senderReceiver >>> 16).setWidth 16
def ffaRxtxHeaderReceiver (header : RxtxHeader) : VmId := header.senderReceiver.setWidth 16

def RxtxHeader.ofBytes (bytes : Bytes) : RxtxHeader := ⟨LittleEndian.u32 bytes 12, LittleEndian.u32 bytes 16⟩

def ffaMsgSend232 : BitVec 32 := 0x84000086
def ffaPartitionIndirectMsg : BitVec 8 := 4

def vmSupportsMessagingMethod (e : Endpoint m) (method : BitVec 8) : Bool :=
  decide (e.messagingMethod &&& method ≠ 0)

/-- The SPMC knows only the messaging methods of its own partitions. -/
def platFfaIsIndirectMsgSupported (sender receiver : Endpoint m) : Bool :=
  !m.features.secureWorld ||
    [sender, receiver].all fun e =>
      !vmIdIsCurrentWorld m e.vm.id || vmSupportsMessagingMethod e ffaPartitionIndirectMsg

/-- The hypervisor leaves a message to a secure partition to the SPMC. -/
def platFfaMsgSend2Forward (m : MmConfig) (receiverId : VmId) : Bool :=
  !m.features.secureWorld && !vmIdIsCurrentWorld m receiverId

def platFfaAcquireReceiverRx (s : Manager m) (receiver : Endpoint m) (answer : FfaValue) : Bool :=
  !rxOwnedBySpmc s receiver || decide (answer.func = ffaSuccess32)

/-- Whose TX buffer holds the message. -/
def msgSenderId (vm : Endpoint m) (senderVmId : VmId) : VmId :=
  if senderVmId ≠ 0 then senderVmId else vm.vm.id

def msgSize (header : RxtxHeader) : BitVec 32 := BitVec.ofNat 32 ffaRxtxHeaderSize + header.size

/-- The mailbox of a receiver with a new message. -/
def Endpoint.deliver (receiver : Endpoint m) (header : RxtxHeader) : Endpoint m :=
  let senderId := ffaRxtxHeaderSender header
  let rxBufferFull :=
    if platFfaIsVmId m senderId then ffaNotificationHypBufferFullMask
    else ffaNotificationSpmBufferFullMask
  { receiver.setState .received with
    recvSize := msgSize header
    recvSender := senderId
    recvFunc := ffaMsgSend232
    frameworkPending := receiver.frameworkPending ||| rxBufferFull }

/-- Whose message is to be sent, and its header. The check on flags returns without a release of the sender's
lock. -/
def msgSend2Header (s : Manager m) (vm : Endpoint m) (senderVmId : VmId) (flags : BitVec 32) :
    Run (Except FfaError (Endpoint m × RxtxHeader)) :=
  if vm.vm.id ≠ hfHypervisorVmId ∧ senderVmId ≠ 0 then .ok (.error .invalidParameters)
  else
    match platFfaVmFindLocked s (msgSenderId vm senderVmId) with
    | none => .ok (.error .denied)
    | some (_, sender) =>
      if sender.send = 0 then .ok (.error .denied)
      else do
        let header := RxtxHeader.ofBytes (← load s.memory sender.send ffaRxtxHeaderSize)
        let senderId := ffaRxtxHeaderSender header
        let receiverId := ffaRxtxHeaderReceiver header
        if msgSenderId vm senderVmId ≠ senderId then .ok (.error .invalidParameters)
        else if receiverId = senderId then .ok (.error .invalidParameters)
        else if platFfaIsVmId m senderId = true ∧ flags ≠ 0 then .ok (.error .invalidParameters)
        else .ok (.ok (sender, header))

/-- Who receives a message that is not forwarded. -/
def msgSend2Receiver (s : Manager m) (sender : Endpoint m) (header : RxtxHeader) :
    Except FfaError (Place × Endpoint m) :=
  match platFfaVmFindLocked s (ffaRxtxHeaderReceiver header) with
  | none => .error .invalidParameters
  | some (place, receiver) =>
    if platFfaIsIndirectMsgSupported sender receiver = false then .error .denied
    else if receiver.vm.mailbox.state ≠ .empty ∨ receiver.recv = 0 then .error .busy
    else .ok (place, receiver)

/-- Copies a message to its receiver, whose RX buffer has been acquired. -/
def msgSend2Copy (s : Manager m) (sender : Endpoint m) (header : RxtxHeader) (place : Place)
    (receiver : Endpoint m) (copied : Nat → BitVec 8) : Run (FfaValue × Manager m) :=
  if (msgSize header).toNat > ffaPartitionMsgPayloadMax ∨ header.size.toNat > ffaPartitionMsgPayloadMax then
    .ok (ffaError .invalidParameters, s)
  else do
    let bytes ← memcpyS s.memory.stage1 receiver.recv ffaMsgPayloadMax sender.send
        (msgSize header).toNat copied
    .ok ({ func := ffaSuccess32 }, { s.put place (receiver.deliver header) with memory :=
      { s.memory with bytes } })

/-- FFA_MSG_SEND2 while its sender may write the TX buffer: the header is checked as it was loaded, and the
message is copied as it is in `copied`. `answer` is what the other world answers. -/
def apiFfaMsgSend2Volatile (s : Manager m) (vm : Endpoint m) (senderVmId : VmId) (flags : BitVec 32)
    (answer : FfaValue) (copied : Nat → BitVec 8) : Run (FfaValue × Manager m) := do
  match ← msgSend2Header s vm senderVmId flags with
  | .error e => .ok (ffaError e, s)
  | .ok (sender, header) =>
    if platFfaMsgSend2Forward m (ffaRxtxHeaderReceiver header) then .ok (answer, s)
    else
      match msgSend2Receiver s sender header with
      | .error e => .ok (ffaError e, s)
      | .ok (place, receiver) =>
        if platFfaAcquireReceiverRx s receiver answer = false then .ok (answer, s)
        else msgSend2Copy s sender header place receiver copied

/-- FFA_MSG_SEND2 of a sender that leaves its TX buffer alone. -/
def apiFfaMsgSend2 (s : Manager m) (vm : Endpoint m) (senderVmId : VmId) (flags : BitVec 32)
    (answer : FfaValue) : Run (FfaValue × Manager m) :=
  apiFfaMsgSend2Volatile s vm senderVmId flags answer s.memory.bytes

/-! ## What is copied -/

variable {t : MmPtable (m.levels .stage1)} {va dest src : Nat} {bytes : Nat → BitVec 8}
  {s : Manager m} {vm : Endpoint m} {senderVmId : VmId} {flags : BitVec 32} {answer : FfaValue}
  {place : Place} {count : Nat} {s' : Manager m}

section Copy

variable (wf : t.WellFormed)
include wf

variable {pa : Nat}

/-- Through an identity-mapped table a load reads its own address. -/
theorem loadTarget_eq (target : loadTarget t va = some pa) : pa = va % 2 ^ 56 := by
  simp only [loadTarget] at target
  split at target
  · next inside =>
    rw [MmPtable.lookup_eq wf inside] at target
    split at target
    · next pa' attrs found =>
      split at found
      · cases found
      · cases found
        split at target
        · exact (Option.some.inj target).symm
        · cases target
    · cases target
  · cases target

omit wf in
/-- What can be written can be read. -/
theorem loadTarget_of_store (target : storeTarget t va = some pa) : loadTarget t va = some pa := by
  simp only [storeTarget] at target
  simp only [loadTarget]
  split at target
  · next inside =>
    rw [if_pos inside]
    cases found : t.lookup (va % 2 ^ 56) with
    | none =>
      rw [found] at target
      cases target
    | some r =>
      rw [found] at target
      dsimp only at target ⊢
      split at target
      · next allowed =>
        cases target
        exact if_pos allowed.1
      · cases target
  · cases target

/-- Every byte arrives as it was, and nothing else is written: two pages either are the same one or
do not overlap. -/
theorem memcpyBytes_spec {bytes' : Nat → BitVec 8} (destPage : dest % pageSize = 0)
    (srcPage : src % pageSize = 0) (small : count ≤ pageSize)
    (ran : memcpyBytes t dest src bytes count = some bytes') :
    (∀ k < count, loadTarget t (src + k) = some ((src + k) % 2 ^ 56) ∧
      loadTarget t (dest + k) = some ((dest + k) % 2 ^ 56) ∧
      bytes' ((dest + k) % 2 ^ 56) = bytes ((src + k) % 2 ^ 56)) ∧
    ∀ addr, (∀ k < count, addr ≠ (dest + k) % 2 ^ 56) → bytes' addr = bytes addr := by
  rw [pageSize] at destPage srcPage small
  induction count generalizing bytes' with
  | zero =>
    cases ran
    exact ⟨fun k bound => absurd bound (Nat.not_lt_zero k), fun _ _ => rfl⟩
  | succ count ih =>
    rw [memcpyBytes] at ran
    split at ran
    · next before source target copied loaded stored =>
      cases ran
      obtain ⟨copied, kept⟩ := ih (by omega) copied
      cases loadTarget_eq wf loaded
      have readable := loadTarget_of_store stored
      cases storeTarget_eq wf stored
      refine ⟨fun k bound => ?_, fun addr outside => ?_⟩
      · rcases Nat.lt_succ_iff_lt_or_eq.mp bound with earlier | rfl
        · obtain ⟨srcTarget, destTarget, same⟩ := copied k earlier
          exact ⟨srcTarget, destTarget, (update_of_ne (by omega) ..).trans same⟩
        · refine ⟨loaded, readable, (update_self ..).trans (kept _ fun j earlier => ?_)⟩
          omega
      · rw [update_of_ne (outside count (Nat.lt_succ_self _))]
        exact kept addr fun k earlier => outside k (Nat.lt_succ_of_lt earlier)
    · cases ran

end Copy

/-! ## Deliveries -/

/-- The buffers that are registered are pages. -/
def Manager.Aligned (s : Manager m) : Prop :=
  ∀ place e, s.get place = some e → e.send % pageSize = 0 ∧ e.recv % pageSize = 0

/-- A message arrives in the mailbox at a place. -/
def Manager.Receives (s s' : Manager m) (place : Place) (senderId : VmId) : Prop :=
  ∃ e e', s.get place = some e ∧ s'.get place = some e' ∧ e.vm.mailbox.state ≠ .received ∧
    e'.vm.mailbox.state = .received ∧ e'.recvSender = senderId

/-- The header and the payload in the RX buffer of one endpoint are those of the TX buffer of another,
and nothing else changes. -/
structure Manager.Copies (s s' : Manager m) (sender receiver : Endpoint m) (place : Place) : Prop where
  message : ∃ sent arrived : Bytes, let size := ffaRxtxHeaderSize + (RxtxHeader.ofBytes sent).size.toNat
    load s.memory sender.send size = .ok sent ∧ load s'.memory receiver.recv size = .ok arrived ∧
      size ≤ hfMailboxSize ∧ (∀ k < size, arrived k = sent k) ∧
      ∀ addr, (∀ k < size, loadTarget s.memory.stage1 (receiver.recv + k) ≠ some addr) →
        s'.memory.bytes addr = s.memory.bytes addr
  stage1 : s'.memory.stage1 = s.memory.stage1
  buffers : ∃ e', s.Replaces place receiver e' s' ∧ e'.send = receiver.send ∧ e'.recv = receiver.recv

/-- What FFA_MSG_SEND2 does, if anything. -/
inductive SendEffect (s : Manager m) (vm : Endpoint m) (senderVmId : VmId) : Manager m → Prop
  | refused : SendEffect s vm senderVmId s
  | delivered {header : RxtxHeader} {senderPlace place : Place} {sender receiver : Endpoint m}
      {s' : Manager m}
      (forwards : vm.vm.id = hfHypervisorVmId ∨ senderVmId = 0)
      (sender_found : platFfaVmFindLocked s (msgSenderId vm senderVmId) = some (senderPlace, sender))
      (senderId : ffaRxtxHeaderSender header = msgSenderId vm senderVmId)
        (waiting : receiver.vm.mailbox.state = .empty)
      (replaces : s.Replaces place receiver (receiver.deliver header) s')
        (copies : s.Copies s' sender receiver place) :
      SendEffect s vm senderVmId s'

/-- How a call of FFA_MSG_SEND2 ends. -/
inductive SendOutcome (s : Manager m) (vm : Endpoint m) (senderVmId : VmId) (answer : FfaValue)
    (copied : Nat → BitVec 8) :
    FfaValue → Manager m → Prop
  | refused {ret : FfaValue} (failed : ret.func ≠ ffaSuccess32) :
      SendOutcome s vm senderVmId answer copied ret s
  | forwarded {senderPlace : Place} {sender : Endpoint m} {checked : Bytes}
      (sender_found : platFfaVmFindLocked s (msgSenderId vm senderVmId) = some (senderPlace, sender))
      (loaded : load s.memory sender.send ffaRxtxHeaderSize = .ok checked)
      (other : platFfaMsgSend2Forward m (ffaRxtxHeaderReceiver (.ofBytes checked)) = true) :
      SendOutcome s vm senderVmId answer copied answer s
  | delivered {senderPlace place : Place} {sender receiver : Endpoint m} {checked : Bytes}
      {bytes : Nat → BitVec 8}
      (forwards : vm.vm.id = hfHypervisorVmId ∨ senderVmId = 0)
      (sender_found : platFfaVmFindLocked s (msgSenderId vm senderVmId) = some (senderPlace, sender))
      (loaded : load s.memory sender.send ffaRxtxHeaderSize = .ok checked)
      (senderId : ffaRxtxHeaderSender (.ofBytes checked) = msgSenderId vm senderVmId)
      (here : platFfaMsgSend2Forward m (ffaRxtxHeaderReceiver (.ofBytes checked)) = false)
      (receiver_found : platFfaVmFindLocked s (ffaRxtxHeaderReceiver (.ofBytes checked)) =
        some (place, receiver))
      (waiting : receiver.vm.mailbox.state = .empty)
      (small : (RxtxHeader.ofBytes checked).size.toNat ≤ ffaPartitionMsgPayloadMax)
      (copies : memcpyS s.memory.stage1 receiver.recv ffaMsgPayloadMax sender.send
        (msgSize (.ofBytes checked)).toNat copied = .ok bytes) :
      SendOutcome s vm senderVmId answer copied { func := ffaSuccess32 }
        { s.put place (receiver.deliver (.ofBytes checked)) with memory := { s.memory with bytes } }

section Send

variable {ret : FfaValue} {memory : HypMemory m} {size : Nat} {bytes : Bytes}

theorem load_some (ran : load memory va size = .ok bytes) (k : Nat)
    (bound : k < size) : ∃ pa, loadTarget memory.stage1 (va + k) = some pa ∧ bytes k = memory.bytes pa := by
  rw [load] at ran
  split at ran
  · next mapped =>
    cases ran
    obtain ⟨pa, target⟩ := Option.isSome_iff_exists.mp (mapped k bound)
    refine ⟨pa, target, ?_⟩
    simp only [target]
    rfl
  · cases ran

theorem load_of_targets {target : Nat → Nat}
    (targets : ∀ k < size, loadTarget memory.stage1 (va + k) = some (target k)) :
    ∃ bytes, load memory va size = .ok bytes ∧ ∀ k < size, bytes k = memory.bytes (target k) := by
  refine ⟨_, if_pos fun k bound => by rw [targets k bound]; rfl, fun k bound => ?_⟩
  rw [targets k bound]
  rfl

/-- The header is part of the message. -/
theorem RxtxHeader.ofBytes_congr {bytes' : Bytes} (same : ∀ k < ffaRxtxHeaderSize, bytes k = bytes' k) :
    RxtxHeader.ofBytes bytes = RxtxHeader.ofBytes bytes' := by
  rw [ffaRxtxHeaderSize] at same
  simp only [ofBytes, LittleEndian.u32]
  rw [LittleEndian.read_congr fun k small => same (12 + k) (by omega),
    LittleEndian.read_congr fun k small => same (16 + k) (by omega)]

theorem msgSize_toNat {header : RxtxHeader} (small : header.size.toNat ≤ ffaPartitionMsgPayloadMax) :
    (msgSize header).toNat = ffaRxtxHeaderSize + header.size.toNat := by
  simp only [ffaPartitionMsgPayloadMax, hfMailboxSize, ffaRxtxHeaderSize] at small
  simp only [msgSize, ffaRxtxHeaderSize, BitVec.toNat_add, BitVec.toNat_ofNat]
  omega

theorem Manager.replaces_deliver {e : Endpoint m} (held : s.get place = some e) (header : RxtxHeader) :
    s.Replaces place e (e.deliver header) (s.put place (e.deliver header)) := by
  refine ⟨held, Manager.get_put held ?_, s.put_teeEnabled ..⟩
  rintro _ rfl
  show e.vm.id = _
  exact s.vmIds held

/-- A message as it is loaded before and after the copy. -/
theorem memcpyS_message {headerBytes : Bytes}
    (wf : memory.stage1.WellFormed) (srcPage : src % pageSize = 0) (destPage : dest % pageSize = 0)
    (loaded : load memory src ffaRxtxHeaderSize = .ok headerBytes)
    (small : (RxtxHeader.ofBytes headerBytes).size.toNat ≤ ffaPartitionMsgPayloadMax)
    (copied : memcpyS memory.stage1 dest ffaMsgPayloadMax src
      (msgSize (RxtxHeader.ofBytes headerBytes)).toNat memory.bytes = .ok bytes) :
    ∃ sent arrived : Bytes, let size := ffaRxtxHeaderSize + (RxtxHeader.ofBytes sent).size.toNat
      load memory src size = .ok sent ∧ load { memory with bytes } dest size = .ok arrived ∧
        size ≤ hfMailboxSize ∧ (∀ k < size, arrived k = sent k) ∧
        ∀ addr, (∀ k < size, loadTarget memory.stage1 (dest + k) ≠ some addr) →
          bytes addr = memory.bytes addr := by
  set size := ffaRxtxHeaderSize + (RxtxHeader.ofBytes headerBytes).size.toNat with sizeEq
  rw [msgSize_toNat small, ← sizeEq] at copied
  have fits : size ≤ hfMailboxSize := by
    simp only [ffaPartitionMsgPayloadMax, hfMailboxSize, ffaRxtxHeaderSize] at small sizeEq ⊢
    omega
  rw [memcpyS] at copied
  split at copied
  · cases copied
  · split at copied
    · cases copied
    · next bytes' ran =>
      cases copied
      obtain ⟨same, kept⟩ := memcpyBytes_spec wf destPage srcPage fits ran
      obtain ⟨sent, sentLoaded, sentBytes⟩ := load_of_targets fun k bound => (same k bound).1
      obtain ⟨arrived, arrivedLoaded, arrivedBytes⟩ := load_of_targets
        (show ∀ k < size, loadTarget ({ memory with bytes } : HypMemory m).stage1 (dest + k) =
          _ from fun k bound => (same k bound).2.1)
      -- The header was loaded before from the same bytes.
      have header : RxtxHeader.ofBytes sent = RxtxHeader.ofBytes headerBytes := by
        refine RxtxHeader.ofBytes_congr fun k bound => ?_
        obtain ⟨pa, target, eq⟩ := load_some loaded k bound
        rw [sentBytes k (by omega), eq]
        exact congrArg memory.bytes (Option.some.inj ((same k (by omega)).1.symm.trans target))
      refine ⟨sent, arrived, ?_⟩
      rw [header]
      refine ⟨sentLoaded, arrivedLoaded, fits, fun k bound => ?_,
        fun addr outside => kept addr fun k bound here => ?_⟩
      · rw [arrivedBytes k bound, sentBytes k bound]
        exact (same k bound).2.2
      · exact outside k bound (here ▸ (same k bound).2.1)

/-- The sender of a message has been found, and is the one that the header names. -/
theorem msgSend2Header_ok {sender : Endpoint m} {header : RxtxHeader}
    (checked : msgSend2Header s vm senderVmId flags = .ok (.ok (sender, header))) :
    ∃ senderPlace bytes, (vm.vm.id = hfHypervisorVmId ∨ senderVmId = 0) ∧
      platFfaVmFindLocked s (msgSenderId vm senderVmId) = some (senderPlace, sender) ∧
      load s.memory sender.send ffaRxtxHeaderSize = .ok bytes ∧ header = .ofBytes bytes ∧
      ffaRxtxHeaderSender header = msgSenderId vm senderVmId := by
  rw [msgSend2Header] at checked
  split at checked
  · cases checked
  next allowed =>
  split at checked
  · cases checked
  next senderPlace sender' found =>
  split at checked
  · cases checked
  obtain ⟨bytes, loaded, checked⟩ := bind_ok_iff.mp checked
  dsimp only at checked
  split at checked
  · cases checked
  next sameSender =>
  split at checked
  · cases checked
  split at checked
  · cases checked
  cases checked
  exact ⟨senderPlace, bytes, (not_and_or.mp allowed).imp not_not.mp not_not.mp, found, loaded, rfl,
    (not_not.mp sameSender).symm⟩

/-- A receiver waits for a message and has a buffer for it. -/
theorem msgSend2Receiver_ok {sender receiver : Endpoint m} {header : RxtxHeader}
    (checked : msgSend2Receiver s sender header = .ok (place, receiver)) :
    platFfaVmFindLocked s (ffaRxtxHeaderReceiver header) = some (place, receiver) ∧
      receiver.vm.mailbox.state = .empty ∧ receiver.recv ≠ 0 := by
  rw [msgSend2Receiver] at checked
  split at checked
  · cases checked
  next found =>
  split at checked
  · cases checked
  split at checked
  · cases checked
  next ready =>
  cases checked
  exact ⟨found, (not_or.mp ready).imp_left not_not.mp⟩

theorem apiFfaMsgSend2Volatile_outcome {copied : Nat → BitVec 8} :
    Post (apiFfaMsgSend2Volatile s vm senderVmId flags answer copied) fun r =>
      SendOutcome s vm senderVmId answer copied r.1 r.2 := by
  have refused (error : FfaError) : SendOutcome s vm senderVmId answer copied (ffaError error) s :=
    .refused (ffaError_func _)
  refine .step fun checked isChecked => ?_
  cases checked with
  | error e => exact .ok (refused e)
  | ok pair =>
    obtain ⟨sender, header⟩ := pair
    obtain ⟨senderPlace, bytes, forwards, senderFound, loaded, rfl, isSender⟩ := msgSend2Header_ok isChecked
    refine .ite (fun other => .ok (.forwarded senderFound loaded other)) fun here => ?_
    split
    · exact .ok (refused _)
    next place receiver isReceiver =>
    obtain ⟨receiverFound, waiting, -⟩ := msgSend2Receiver_ok isReceiver
    refine .ite (fun notAcquired => .ok ?_) fun _ => .guard (refused _) fun small =>
      .step fun bytes copies => .ok ?_
    · simp only [platFfaAcquireReceiverRx, Bool.or_eq_false_iff, decide_eq_false_iff_not] at notAcquired
      exact .refused notAcquired.2
    · rw [not_or, Nat.not_lt, Nat.not_lt] at small
      exact .delivered forwards senderFound loaded isSender (Bool.eq_false_iff.mpr here)
        receiverFound waiting small.2 copies

theorem apiFfaMsgSend2_effect (wf : s.memory.stage1.WellFormed) (aligned : s.Aligned)
    (ran : apiFfaMsgSend2 s vm senderVmId flags answer = .ok (ret, s')) : SendEffect s vm senderVmId s' := by
  cases apiFfaMsgSend2Volatile_outcome _ ran with
  | refused => exact .refused
  | forwarded => exact .refused
  | @delivered senderPlace place sender receiver checked bytes forwards senderFound loaded isSender
      here receiverFound waiting small copies =>
    obtain ⟨-, senderHeld⟩ := platFfaVmFindLocked_some senderFound
    obtain ⟨-, receiverHeld⟩ := platFfaVmFindLocked_some receiverFound
    have stage1 : ({ s.memory with bytes } : HypMemory m).stage1 = s.memory.stage1 := rfl
    have replaces := (s.replaces_deliver receiverHeld (RxtxHeader.ofBytes checked)).withMemory
      { s.memory with bytes }
    refine .delivered forwards senderFound isSender waiting replaces ⟨?_, stage1, _, replaces, rfl, rfl⟩
    exact memcpyS_message wf (aligned _ _ senderHeld).1 (aligned _ _ receiverHeld).2 loaded small copies

end Send

/-! ## Forged senders -/

/-- A sender that a message may carry: the caller itself, or a normal-world VM that the hypervisor
sends for. -/
def Authentic (m : MmConfig) (caller senderId : VmId) : Prop :=
  senderId = caller ∨ caller = hfHypervisorVmId ∧ caller = hfOtherWorldId m ∧ platFfaIsVmId m senderId = true

/-- What holds between calls: the manager's table is well formed, buffers are pages, and the VMs of
the hypervisor are numbered from 1. -/
structure Manager.Valid (s : Manager m) : Prop where
  stage1 : s.memory.stage1.WellFormed
  aligned : s.Aligned
  ids : m.features.secureWorld = false → s.vms hfHypervisorVmId = none

section Forged

/-- Only the mailbox of the receiver changes, and it names the sender that was found. -/
theorem SendEffect.receives (effect : SendEffect s vm senderVmId s') {senderId : VmId}
    (receives : s.Receives s' place senderId) :
    (vm.vm.id = hfHypervisorVmId ∨ senderVmId = 0) ∧ senderId = msgSenderId vm senderVmId ∧
      ∃ senderPlace sender receiver, platFfaVmFindLocked s senderId = some (senderPlace, sender) ∧
        s.get place = some receiver ∧ s.Copies s' sender receiver place := by
  obtain ⟨e, e', held, held', before, after, named⟩ := receives
  cases effect with
  | refused =>
    cases held.symm.trans held'
    exact absurd after before
  | @delivered header senderPlace place' sender receiver _ forwards found isSender waiting replaces copies =>
    rw [replaces.get] at held'
    split at held'
    · next here =>
      subst here
      cases held'
      have named : senderId = msgSenderId vm senderVmId := named.symm.trans isSender
      exact ⟨forwards, named, senderPlace, sender, receiver, named ▸ found, replaces.held, copies⟩
    · cases held.symm.trans held'
      exact absurd after before

/-- The header of an empty message to the normal world. -/
def headerBytes (id : VmId) (k : Nat) : BitVec 8 :=
  match k with
  | 14 => id.setWidth 8
  | 15 => (id >>> 8).setWidth 8
  | _ => 0

theorem headerBytes_header (id : VmId) : let header := RxtxHeader.ofBytes (headerBytes id)
    ffaRxtxHeaderSender header = id ∧ ffaRxtxHeaderReceiver header = 0 ∧ header.size = 0 := by
  refine ⟨?_, ?_, ?_⟩
  · apply BitVec.eq_of_toNat_eq
    simp [RxtxHeader.ofBytes, ffaRxtxHeaderSender, LittleEndian.u32, LittleEndian.read, headerBytes,
      Nat.shiftRight_eq_div_pow]
    omega
  · apply BitVec.eq_of_toNat_eq
    simp [RxtxHeader.ofBytes, ffaRxtxHeaderReceiver, LittleEndian.u32, LittleEndian.read,
      headerBytes, Nat.shiftRight_eq_div_pow]
    omega
  · simp [RxtxHeader.ofBytes, LittleEndian.u32, LittleEndian.read, headerBytes]

/-- A copy returns if every address of the source can be read and every one of the destination written. -/
theorem memcpyBytes_some_iff (bytes : Nat → BitVec 8) :
    (∃ bytes', memcpyBytes t dest src bytes count = some bytes') ↔
      ∀ k < count, (loadTarget t (src + k)).isSome ∧ (storeTarget t (dest + k)).isSome := by
  induction count with
  | zero => exact ⟨fun _ k bound => by omega, fun _ => ⟨bytes, rfl⟩⟩
  | succ count ih =>
    constructor
    · rintro ⟨bytes', ran⟩ k bound
      rw [memcpyBytes] at ran
      split at ran
      · next before source target copied loaded stored =>
        rcases Nat.lt_succ_iff_lt_or_eq.mp bound with earlier | rfl
        · exact ih.mp ⟨before, copied⟩ k earlier
        · exact ⟨loaded ▸ rfl, stored ▸ rfl⟩
      · cases ran
    · intro targets
      obtain ⟨before, copied⟩ := ih.mpr fun k bound => targets k (Nat.lt_succ_of_lt bound)
      obtain ⟨loads, stores⟩ := targets count (Nat.lt_succ_self _)
      obtain ⟨source, loaded⟩ := Option.isSome_iff_exists.mp loads
      obtain ⟨target, stored⟩ := Option.isSome_iff_exists.mp stores
      rw [memcpyBytes, copied, loaded, stored]
      exact ⟨_, rfl⟩

/-- The attributes of the manager's own mapping of an RX buffer. -/
theorem mappedAttrs_writable (m : MmConfig) : m.mappedAttrs .stage1 mmModeW &&& pteValid ≠ 0 ∧
    m.mappedAttrs .stage1 mmModeW &&& stage1Ap2 = 0 := by
  obtain ⟨⟨vhe, secure, protection⟩, pa⟩ := m
  simp only [MmConfig.mappedAttrs, MmConfig.modeToAttrs]
  cases vhe <;> cases secure <;> cases protection <;> decide

/-- A table with some writable pages. -/
theorem exists_writable (m : MmConfig) (begin_ end_ : Nat) (beginPage : begin_ % pageSize = 0)
    (endPage : end_ % pageSize = 0) (order : begin_ ≤ end_) (bound : end_ ≤ 2 ^ 30) :
    ∃ t : MmPtable (m.levels .stage1), t.WellFormed ∧
      ∀ addr, begin_ ≤ addr → addr < end_ → storeTarget t addr = some addr := by
  obtain ⟨t, wf, attrs⟩ := exists_table m .stage1 begin_ end_ beginPage endPage order bound mmModeW
  refine ⟨t, wf, fun addr lower upper => ?_⟩
  have space := space_ge (m.levels .stage1)
  have untagged : addr % 2 ^ 56 = addr := by omega
  have here := attrs addr lower upper
  have writable := mappedAttrs_writable m
  rw [← here, ← untagged] at writable
  exact (storeTarget_of_attrs wf (by omega) writable.1 writable.2).trans (congrArg some untagged)

/-- A message that the hypervisor sends for another endpoint. -/
theorem apiFfaMsgSend2_delivers {sender receiver : Endpoint m} {senderPlace : Place}
    {header : Bytes} {id receiverId : VmId} (caller : vm.vm.id = hfHypervisorVmId) (named : id ≠ 0)
    (found : platFfaVmFindLocked s id = some (senderPlace, sender)) (registered : sender.send ≠ 0)
    (loaded : load s.memory sender.send ffaRxtxHeaderSize = .ok header)
    (isSender : ffaRxtxHeaderSender (.ofBytes header) = id)
    (isReceiver : ffaRxtxHeaderReceiver (.ofBytes header) = receiverId) (other : receiverId ≠ id)
    (noFlags : platFfaIsVmId m id = true → flags = 0)
    (here : platFfaMsgSend2Forward m receiverId = false)
    (receiverFound : platFfaVmFindLocked s receiverId = some (place, receiver))
    (indirect : platFfaIsIndirectMsgSupported sender receiver = true)
    (waiting : receiver.vm.mailbox.state = .empty) (ready : receiver.recv ≠ 0)
    (acquired : platFfaAcquireReceiverRx s receiver answer = true)
    (small : (msgSize (.ofBytes header)).toNat ≤ ffaPartitionMsgPayloadMax)
    (smallPayload : (RxtxHeader.ofBytes header).size.toNat ≤ ffaPartitionMsgPayloadMax)
    (copied : memcpyS s.memory.stage1 receiver.recv ffaMsgPayloadMax sender.send
      (msgSize (.ofBytes header)).toNat s.memory.bytes = .ok bytes) :
    ∃ ret s', apiFfaMsgSend2 s vm id flags answer = .ok (ret, s') ∧ s.Receives s' place id := by
  have held := (platFfaVmFindLocked_some receiverFound).2
  have replaces := s.replaces_deliver held (.ofBytes header)
  refine ⟨{ func := ffaSuccess32 }, { s.put place _ with memory := { s.memory with bytes } }, ?_,
    receiver, receiver.deliver (.ofBytes header), held, (replaces.get place).trans (if_pos rfl), ?_,
    rfl, isSender⟩
  · have senderId : msgSenderId vm id = id := if_pos named
    have checked : msgSend2Header s vm id flags = .ok (.ok (sender, .ofBytes header)) := by
      rw [msgSend2Header, if_neg (fun refused => refused.1 caller), senderId, found]
      refine (if_neg registered).trans (bind_ok_iff.mpr ⟨header, loaded, ?_⟩)
      dsimp only
      rw [isSender, isReceiver, if_neg (not_not.mpr rfl), if_neg other,
        if_neg (fun refused => refused.2 (noFlags refused.1))]
    have receives : msgSend2Receiver s sender (.ofBytes header) = .ok (place, receiver) := by
      rw [msgSend2Receiver, isReceiver, receiverFound]
      simp only [indirect, waiting, Bool.true_eq_false, if_false]
      rw [if_neg (by simp [ready])]
    refine bind_ok_iff.mpr ⟨_, checked, ?_⟩
    simp only [isReceiver, here, receives, acquired, Bool.false_eq_true, Bool.true_eq_false, if_false]
    rw [msgSend2Copy, if_neg (by omega), bind_ok_iff]
    exact ⟨bytes, copied, rfl⟩
  · rw [waiting]
    decide

/-- In the SPMC the normal world may send a message that waits in the TX buffer of a secure partition. -/
theorem exists_forged (spmc : m.features.secureWorld = true) {id : VmId}
    (current : vmIdIsCurrentWorld m id = true) :
    ∃ (s s' : Manager m) (vm : Endpoint m) (ret : FfaValue), s.Valid ∧ s.vms hfHypervisorVmId = some vm ∧
      apiFfaMsgSend2 s vm id 0 ⟨0, 0, 0, 0, 0⟩ = .ok (ret, s') ∧ s.Receives s' (.vm hfHypervisorVmId) id := by
  obtain ⟨t, wf, stores⟩ := exists_writable m 0x1000 0x3000 rfl rfl (by decide) (by decide)
  let sp : Endpoint m := { Endpoint.new (emptyVm m id .empty) with
    send := 0x1000, messagingMethod := ffaPartitionIndirectMsg }
  let nwd : Endpoint m := { Endpoint.new (emptyVm m hfHypervisorVmId .empty) with recv := 0x2000 }
  let memory : HypMemory m := ⟨t, fun addr => headerBytes id (addr - 0x1000)⟩
  let s : Manager m := .ofPair nwd sp memory []
  have other := ne_hypervisor spmc current
  obtain ⟨held, found, -⟩ := ofPair_find spmc current nwd sp rfl rfl memory []
  rw [hfOtherWorldId_spmc spmc] at held
  have nwdFound : platFfaVmFindLocked s hfHypervisorVmId = some (.vm hfHypervisorVmId, nwd) := by
    rw [platFfaVmFindLocked, if_pos (.inr (hfOtherWorldId_spmc spmc).symm), vmFindLocked, held]
    rfl
  have loads (k : Nat) (bound : k < 20) : loadTarget memory.stage1 (0x1000 + k) = some (0x1000 + k) :=
    loadTarget_of_store (stores (0x1000 + k) (by omega) (by omega))
  obtain ⟨header, loaded, same⟩ := load_of_targets loads
  have headerEq : RxtxHeader.ofBytes header = RxtxHeader.ofBytes (headerBytes id) := by
    refine RxtxHeader.ofBytes_congr fun k bound => (same k bound).trans ?_
    simp only [memory, Nat.add_sub_cancel_left]
  obtain ⟨isSender, isReceiver, noPayload⟩ := headerBytes_header id
  have size : (msgSize (RxtxHeader.ofBytes (headerBytes id))).toNat = 20 := by
    rfl
  obtain ⟨bytes, copied⟩ : ∃ bytes, memcpyBytes t 0x2000 0x1000 memory.bytes 20 = some bytes :=
    (memcpyBytes_some_iff memory.bytes).mpr fun k bound =>
      ⟨by rw [loads k bound]; rfl, by rw [stores (0x2000 + k) (by omega) (by omega)]; rfl⟩
  have copied : memcpyS t 0x2000 ffaMsgPayloadMax 0x1000 20 memory.bytes = .ok bytes := by
    rw [memcpyS, if_neg (by decide), copied]
  have indirect : platFfaIsIndirectMsgSupported sp nwd = true := by
    have notCurrent : vmIdIsCurrentWorld m nwd.vm.id = false := hypervisor_not_current spmc
    have supports : vmSupportsMessagingMethod sp ffaPartitionIndirectMsg = true :=
      show decide (ffaPartitionIndirectMsg &&& ffaPartitionIndirectMsg ≠ 0) = true by decide
    simp [platFfaIsIndirectMsgSupported, notCurrent, supports]
  have acquired : platFfaAcquireReceiverRx s nwd ⟨0, 0, 0, 0, 0⟩ = true := by
    simp [platFfaAcquireReceiverRx, rxOwnedBySpmc, spmc]
  have here : platFfaMsgSend2Forward m hfHypervisorVmId = false := by simp [platFfaMsgSend2Forward, spmc]
  rw [← headerEq] at isSender isReceiver noPayload size
  obtain ⟨ret, s', ran, receives⟩ : ∃ ret s', apiFfaMsgSend2 s nwd id 0 ⟨0, 0, 0, 0, 0⟩ = .ok (ret, s') ∧
      s.Receives s' (.vm hfHypervisorVmId) id := by
    apply apiFfaMsgSend2_delivers rfl other found (show (0x1000 : Nat) ≠ 0 by decide)
      loaded isSender isReceiver other.symm
      (fun _ => rfl) here nwdFound indirect rfl (show (0x2000 : Nat) ≠ 0 by decide) acquired
    · rw [size]
      decide
    · rw [noPayload]
      decide
    · rw [size]
      exact copied
  refine ⟨s, s', nwd, ret, ⟨wf, fun place e held => ?_, fun hypervisor => ?_⟩, held, ran, receives⟩
  · rcases Manager.ofPair_get held with rfl | rfl
    · exact ⟨show 0 % pageSize = 0 by decide, show 0x2000 % pageSize = 0 by decide⟩
    · exact ⟨show 0x1000 % pageSize = 0 by decide, show 0 % pageSize = 0 by decide⟩
  · rw [spmc] at hypervisor
    cases hypervisor

end Forged

/-- A call of FFA_MSG_SEND2 puts a message into the mailbox at a place. -/
def Sends (m : MmConfig) (caller senderVmId : VmId) (s s' : Manager m) (place : Place)
    (senderId : VmId) : Prop :=
  ∃ vm flags answer ret, s.Valid ∧ s.vms caller = some vm ∧
    apiFfaMsgSend2 s vm senderVmId flags answer = .ok (ret, s') ∧ s.Receives s' place senderId

/-- A message arrives as it was in the TX buffer of the sender that it names, and nothing else is
written. The sender is authentic unless the normal world names a secure partition. -/
theorem msgSend2_authentic_iff (m : MmConfig) (caller senderVmId : VmId) :
    (∀ s s' place senderId, Sends m caller senderVmId s s' place senderId →
      ∃ senderPlace sender receiver, platFfaVmFindLocked s senderId = some (senderPlace, sender) ∧
        s.get place = some receiver ∧ s.Copies s' sender receiver place) ∧
    ((∀ s s' place senderId, Sends m caller senderVmId s s' place senderId → Authentic m caller senderId) ↔
      ¬(m.features.secureWorld = true ∧ caller = hfHypervisorVmId ∧
      vmIdIsCurrentWorld m senderVmId = true)) := by
  refine ⟨fun s s' place senderId sends => ?_, fun authentic forged => ?_,
    fun honest s s' place senderId sends => ?_⟩
  · obtain ⟨vm, flags, answer, ret, valid, held, returned, receives⟩ := sends
    exact ((apiFfaMsgSend2_effect valid.stage1 valid.aligned returned).receives receives).2.2
  · obtain ⟨spmc, rfl, current⟩ := forged
    obtain ⟨s, s', vm, ret, valid, held, returned, receives⟩ := exists_forged spmc current
    rcases authentic s s' _ senderVmId ⟨vm, 0, _, ret, valid, held, returned,
        receives⟩ with self | ⟨-, -, nwd⟩
    · exact ne_hypervisor spmc current self
    · rw [platFfaIsVmId, if_pos spmc, current] at nwd
      cases nwd
  · obtain ⟨vm, flags, answer, ret, valid, held, returned, receives⟩ := sends
    obtain ⟨forwards, rfl, -⟩ := (apiFfaMsgSend2_effect valid.stage1 valid.aligned returned).receives receives
    have callerId : vm.vm.id = caller := s.vmIds held
    rw [msgSenderId, callerId]
    split
    · next named =>
      -- Only the hypervisor names a sender, and only the SPMC is called by it.
      have hypervisor : caller = hfHypervisorVmId := callerId.symm.trans (forwards.resolve_right named)
      have spmc : m.features.secureWorld = true := by
        by_contra other
        rw [hypervisor, valid.ids (Bool.eq_false_iff.mpr other)] at held
        cases held
      refine .inr ⟨hypervisor, hypervisor.trans (hfOtherWorldId_spmc spmc).symm, ?_⟩
      rw [platFfaIsVmId, if_pos spmc, Bool.not_eq_true', Bool.eq_false_iff]
      exact fun current => honest ⟨spmc, hypervisor, current⟩
    · exact .inl rfl

/-- The normal world sends a message in the name of the secure partition 0x8001. -/
theorem nwd_msgSend2_forges_sender : ∃ s s' place,
    Sends spmcConfig hfHypervisorVmId 0x8001 s s' place 0x8001 ∧
    vmIdIsCurrentWorld spmcConfig 0x8001 = true ∧ ¬Authentic spmcConfig hfHypervisorVmId 0x8001 := by
  obtain ⟨s, s', vm, ret, valid, held, returned, receives⟩ :=
    exists_forged (rfl) (show vmIdIsCurrentWorld spmcConfig 0x8001 = true by decide)
  refine ⟨s, s', _, ⟨vm, 0, _, ret, valid, held, returned, receives⟩, by decide, ?_⟩
  rintro (self | ⟨-, -, nwd⟩)
  · exact absurd self (by decide)
  · exact absurd nwd (by decide)

end Hafnium.Api
