import Hafnium.Api.Message
import Hafnium.Api.Unregister

/-! # Two reads of a message header

FFA_MSG_SEND2 checks a copy of the header, but then copies the whole message, header included, from the
TX buffer again. The sender may write the buffer in between. What arrives names the sender, the
receiver and the size that were checked exactly if the header is the same in both reads.
-/

namespace Hafnium.Api

open Mm Ffa Partial

variable {m : MmConfig}

/-- The header in an RX buffer names the mailbox's sender, the mailbox's owner and the size of the message. -/
def HeaderAgrees (memory : HypMemory m) (receiver : Endpoint m) : Prop :=
  ∃ arrived, load memory receiver.recv ffaRxtxHeaderSize = .ok arrived ∧
    let header := RxtxHeader.ofBytes arrived
    ffaRxtxHeaderSender header = receiver.recvSender ∧ ffaRxtxHeaderReceiver header = receiver.vm.id ∧
      ffaRxtxHeaderSize + header.size.toNat = receiver.recvSize.toNat

/-- A header is its three fields. -/
theorem RxtxHeader.ext_fields {first second : RxtxHeader}
    (sender : ffaRxtxHeaderSender first = ffaRxtxHeaderSender second)
    (receiver : ffaRxtxHeaderReceiver first = ffaRxtxHeaderReceiver second)
    (size : first.size.toNat = second.size.toNat) : first = second := by
  obtain ⟨ids, payload⟩ := first
  obtain ⟨ids', payload'⟩ := second
  simp only [ffaRxtxHeaderSender, ffaRxtxHeaderReceiver] at sender receiver
  have sameIds : ids = ids' := by
    bv_omega
  exact congrArg₂ _ sameIds (BitVec.eq_of_toNat_eq size)

/-- The first bytes of a copy, as they are loaded before and after it. -/
theorem memcpyS_header {memory : HypMemory m} {dest src count : Nat} {copied bytes : Nat → BitVec 8}
    (wf : memory.stage1.WellFormed) (srcPage : src % pageSize = 0) (destPage : dest % pageSize = 0)
    (header : ffaRxtxHeaderSize ≤ count) (small : count ≤ pageSize)
    (copies : memcpyS memory.stage1 dest ffaMsgPayloadMax src count copied = .ok bytes) :
    ∃ sent arrived : Bytes, load { memory with bytes := copied } src ffaRxtxHeaderSize = .ok sent ∧
      load { memory with bytes } dest ffaRxtxHeaderSize = .ok arrived ∧
      RxtxHeader.ofBytes arrived = RxtxHeader.ofBytes sent := by
  rw [memcpyS] at copies
  split at copies
  · cases copies
  split at copies
  · cases copies
  next bytes' ran =>
  cases copies
  obtain ⟨same, -⟩ := memcpyBytes_spec wf destPage srcPage small ran
  have inside {k : Nat} (bound : k < ffaRxtxHeaderSize) : k < count := Nat.lt_of_lt_of_le bound header
  obtain ⟨sent, sentLoaded, sentBytes⟩ := load_of_targets (show ∀ k < ffaRxtxHeaderSize,
    loadTarget ({ memory with bytes := copied } : HypMemory m).stage1 (src + k) =
      _ from fun k bound => (same k (inside bound)).1)
  obtain ⟨arrived, arrivedLoaded, arrivedBytes⟩ := load_of_targets (show ∀ k < ffaRxtxHeaderSize,
    loadTarget ({ memory with bytes } : HypMemory m).stage1 (dest + k) = _ from fun k bound =>
      (same k (inside bound)).2.1)
  refine ⟨sent, arrived, sentLoaded, arrivedLoaded, RxtxHeader.ofBytes_congr fun k bound => ?_⟩
  rw [arrivedBytes k bound, sentBytes k bound]
  exact (same k (inside bound)).2.2

/-- A message that was put into the mailbox of its receiver names what was checked if and only if its
header was not written between the check and the copy. -/
theorem msgSend2_header_checked_iff {s s' : Manager m} {vm sender : Endpoint m}
    {senderPlace : Place} {senderVmId : VmId} {flags : BitVec 32} {answer ret : FfaValue}
    {copied : Nat → BitVec 8} {checked : Bytes} (valid : s.Valid)
    (found : platFfaVmFindLocked s (msgSenderId vm senderVmId) = some (senderPlace, sender))
    (loaded : load s.memory sender.send ffaRxtxHeaderSize = .ok checked)
    (here : platFfaMsgSend2Forward m (ffaRxtxHeaderReceiver (.ofBytes checked)) = false)
    (returned : apiFfaMsgSend2Volatile s vm senderVmId flags answer copied = .ok (ret, s'))
    (succeeded : ret.func = ffaSuccess32) :
    ∃ sent place receiver, load { s.memory with bytes := copied } sender.send ffaRxtxHeaderSize = .ok sent ∧
      s'.get place = some receiver ∧ receiver.vm.id = ffaRxtxHeaderReceiver (.ofBytes checked) ∧
      receiver.vm.mailbox.state = .received ∧
      (HeaderAgrees s'.memory receiver ↔ RxtxHeader.ofBytes sent = RxtxHeader.ofBytes checked) := by
  cases apiFfaMsgSend2Volatile_outcome _ returned with
  | refused failed => exact absurd succeeded failed
  | forwarded found' loaded' other =>
    cases found.symm.trans found'
    cases loaded.symm.trans loaded'
    rw [here] at other
    cases other
  | @delivered _ place _ receiver _ bytes _ found' loaded' isSender _ receiverFound _ small copies =>
    cases found.symm.trans found'
    cases loaded.symm.trans loaded'
    have size := msgSize_toNat small
    rw [size] at copies
    have fits : ffaRxtxHeaderSize + (RxtxHeader.ofBytes checked).size.toNat ≤ pageSize := by
      rw [ffaPartitionMsgPayloadMax, hfMailboxSize] at small
      rw [pageSize, ffaRxtxHeaderSize] at *
      omega
    have held := (platFfaVmFindLocked_some receiverFound).2
    have isReceiver := platFfaVmFindLocked_id receiverFound
    have replaces := s.replaces_deliver held (.ofBytes checked)
    obtain ⟨sent, arrived, sentLoaded, arrivedLoaded, same⟩ := memcpyS_header valid.stage1
      (valid.aligned _ _ (platFfaVmFindLocked_some found).2).1 (valid.aligned _ _ held).2
        (Nat.le_add_right _ _) fits copies
    refine ⟨sent, place, receiver.deliver _, sentLoaded, (replaces.get place).trans (if_pos rfl), isReceiver,
      rfl, ?_⟩
    constructor
    · rintro ⟨arrived', loaded', sender', receiver', size'⟩
      cases arrivedLoaded.symm.trans loaded'
      rw [same] at sender' receiver' size'
      have recvSize : (receiver.deliver (.ofBytes checked)).recvSize.toNat =
        ffaRxtxHeaderSize + (RxtxHeader.ofBytes checked).size.toNat := size
      exact RxtxHeader.ext_fields sender' (receiver'.trans isReceiver) (by omega)
    · intro unchanged
      refine ⟨arrived, arrivedLoaded, ?_⟩
      rw [same, unchanged]
      exact ⟨rfl, isReceiver.symm, size.symm⟩

/-- An empty message of the VM 1 in a buffer at 0x200000. -/
def messageTo (receiver : BitVec 8) (addr : Nat) : BitVec 8 :=
  if addr = 0x20000c then receiver else if addr = 0x20000e then 1 else 0

def messageSender : Endpoint smallConfig := { Endpoint.new (blockVm 1 0 none) with send := 0x200000 }

/-- The VM 1 with a message to the VM 2, which waits for one. -/
def messageManager : Manager smallConfig :=
  .ofPair messageSender { Endpoint.new (emptyVm smallConfig 2 .empty) with recv := 0x201000 }
    ⟨imageTable, messageTo 2⟩ []

theorem messageManager_valid : messageManager.Valid := by
  refine ⟨imageTable_wellFormed, fun place e held => ?_, fun _ => rfl⟩
  rcases Manager.ofPair_get held with rfl | rfl
  · exact ⟨show 0x200000 % pageSize = 0 by decide, show 0 % pageSize = 0 by decide⟩
  · exact ⟨show 0 % pageSize = 0 by decide, show 0x201000 % pageSize = 0 by decide⟩

/-- The call of the VM 1, whose buffer holds a message to some VM when it is copied. -/
def messageSent (receiver : BitVec 8) : Run (FfaValue × Manager smallConfig) :=
  apiFfaMsgSend2Volatile messageManager messageSender 0 0 (ffaError .notSupported) (messageTo receiver)

/-- Whom the message in the RX buffer of the VM 2 is for. -/
def arrivesFor (receiver : VmId) (r : FfaValue × Manager smallConfig) : Bool :=
  decide (r.1.func = ffaSuccess32) && ((r.2.vms 2).any fun e =>
    Partial.returns (load r.2.memory e.recv ffaRxtxHeaderSize) fun arrived =>
      decide (ffaRxtxHeaderReceiver (.ofBytes arrived) = receiver))

/-- The message of a VM that does not write its buffer. -/
theorem msgSend2_header_checked_unwritten : ∃ ret s' place receiver, messageSent 2 = .ok (ret, s') ∧
    ret.func = ffaSuccess32 ∧
    s'.get place = some receiver ∧ receiver.vm.id = 2 ∧ HeaderAgrees s'.memory receiver := by
  have evaluated : Partial.returns (messageSent 2) (arrivesFor 2) = true := by decide +kernel
  obtain ⟨⟨ret, s'⟩, returned, check⟩ := returns_iff.mp evaluated
  have succeeded : ret.func = ffaSuccess32 := of_decide_eq_true (Bool.and_eq_true_iff.mp check).1
  have header : Partial.returns (load messageManager.memory 0x200000 ffaRxtxHeaderSize)
      (fun checked => decide (ffaRxtxHeaderReceiver (.ofBytes checked) = 2)) = true := by decide +kernel
  obtain ⟨checked, loaded, isReceiver⟩ := returns_iff.mp header
  have isReceiver := of_decide_eq_true isReceiver
  have found : platFfaVmFindLocked messageManager (msgSenderId messageSender 0) =
      some (.vm 1, messageSender) := rfl
  obtain ⟨sent, place, receiver, loaded', held, owner, -, agrees⟩ :=
    msgSend2_header_checked_iff messageManager_valid found loaded
    (by rw [isReceiver]; decide) returned succeeded
  cases loaded.symm.trans loaded'
  exact ⟨ret, s', place, receiver, returned, succeeded, held, owner.trans isReceiver, agrees.mpr rfl⟩

/-- A message that was checked to be for the VM 2 arrives there as a message to the VM 3. -/
theorem msgSend2_header_rewritten : ∃ ret s' receiver, messageSent 3 = .ok (ret, s') ∧
    ret.func = ffaSuccess32 ∧
    s'.get (.vm 2) = some receiver ∧ ¬HeaderAgrees s'.memory receiver := by
  have evaluated : Partial.returns (messageSent 3) (arrivesFor 3) = true := by decide +kernel
  obtain ⟨⟨ret, s'⟩, returned, check⟩ := returns_iff.mp evaluated
  simp only [arrivesFor, Bool.and_eq_true, decide_eq_true_eq, Option.any_eq_true] at check
  obtain ⟨succeeded, receiver, held, misled⟩ := check
  obtain ⟨arrived, loaded, misled⟩ := returns_iff.mp misled
  refine ⟨ret, s', receiver, returned, succeeded, held, ?_⟩
  rintro ⟨arrived', loaded', -, owner, -⟩
  cases loaded.symm.trans loaded'
  rw [of_decide_eq_true misled, s'.vmIds held] at owner
  exact absurd owner (by decide)

end Hafnium.Api
