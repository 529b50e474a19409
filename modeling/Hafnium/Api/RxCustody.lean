import Hafnium.Api.Discovery
import Hafnium.Api.HeaderSnapshot

/-! # RX buffers that the hypervisor acquires

With an SPMC the RX buffer of a VM of FF-A v1.1 belongs to the SPMC, and the hypervisor acquires it before it
puts a message into it. FFA_MSG_SEND2 and FFA_PARTITION_INFO_GET check the size of what they deliver only
afterwards, and a call that fails this check keeps the buffer although the mailbox stays empty.
-/

namespace Hafnium.Api.Discovery

open Mm Ffa Partial

variable {m : MmConfig}

/-- FFA_MSG_SEND2 with the calls that it makes to the SPMC. -/
def apiFfaMsgSend2 (s : Manager m) (vm : Endpoint m) (senderVmId : VmId) (flags : BitVec 32) :
    Outgoing (FfaValue × Manager m) := do
  match ← .lift (msgSend2Header s vm senderVmId flags) with
  | .error e => pure (ffaError e, s)
  | .ok (sender, header) =>
    if platFfaMsgSend2Forward m (ffaRxtxHeaderReceiver header) then do
      let answer ← .call (.msgSend2 (ffaRxtxHeaderSender header))
      pure (answer.ret, s)
    else
      match msgSend2Receiver s sender header with
      | .error e => pure (ffaError e, s)
      | .ok (place, receiver) => do
        let answer ← platFfaAcquireReceiverRx s receiver
        if answer.func ≠ ffaSuccess32 then pure (answer, s)
        else .lift (msgSend2Copy s sender header place receiver s.memory.bytes)

variable {s : Manager m}

section Acquire

variable {receiver : Endpoint m} {spmc : SpmcCall → SpmcAnswer}

theorem platFfaAcquireReceiverRx_run (owned : rxOwnedBySpmc s receiver = true) :
    (platFfaAcquireReceiverRx s receiver).run spmc = .ok (spmc (.rxAcquire receiver.vm.id)).ret := by
  rw [platFfaAcquireReceiverRx, if_pos owned]
  rfl

theorem platFfaAcquireReceiverRx_run_own (own : rxOwnedBySpmc s receiver = false) :
    (platFfaAcquireReceiverRx s receiver).run spmc = .ok { func := ffaSuccess32 } := by
  rw [platFfaAcquireReceiverRx, own]
  rfl

theorem runs_acquire_bind {α : Type} {f : FfaValue → Outgoing α}
    {log : Script.Log SpmcCall fun _ => SpmcAnswer} {b : α}
    (runs : (platFfaAcquireReceiverRx s receiver >>= f).Runs log (.ok b)) :
    (∃ answer rest, log = ⟨.rxAcquire receiver.vm.id, answer⟩ :: rest ∧ (f answer.ret).Runs rest (.ok b)) ∨
      (f { func := ffaSuccess32 }).Runs log (.ok b) := by
  rw [platFfaAcquireReceiverRx] at runs
  split at runs
  · exact .inl (Script.runs_issue_iff.mp runs)
  · exact .inr runs

end Acquire

/-- Against an SPMC that always gives the same answer this is the call of `Api.Message`. -/
theorem apiFfaMsgSend2_run (s : Manager m) (vm : Endpoint m) (senderVmId : VmId) (flags : BitVec 32)
    (answer : SpmcAnswer) :
    (apiFfaMsgSend2 s vm senderVmId flags).run (fun _ => answer) =
      Api.apiFfaMsgSend2 s vm senderVmId flags answer.ret := by
  refine (Script.run_bind ..).trans ?_
  rw [Script.run_lift]
  refine congrArg _ (funext fun checked => ?_)
  cases checked with
  | error e => rfl
  | ok pair =>
    refine Script.run_ite _ rfl ?_
    cases msgSend2Receiver s pair.1 pair.2 with
    | error e => rfl
    | ok found =>
      dsimp only
      cases owned : rxOwnedBySpmc s found.2 with
      | true =>
        have refused : Api.platFfaAcquireReceiverRx s found.2 answer.ret = false ↔
            answer.ret.func ≠ ffaSuccess32 := by
          simp [Api.platFfaAcquireReceiverRx, owned]
        rw [Script.run_bind_ok _ (platFfaAcquireReceiverRx_run owned)]
        simp only [refused]
        exact Script.run_ite _ rfl (Script.run_lift ..)
      | false =>
        have acquired : Api.platFfaAcquireReceiverRx s found.2 answer.ret = true := by
          simp [Api.platFfaAcquireReceiverRx, owned]
        rw [Script.run_bind_ok _ (platFfaAcquireReceiverRx_run_own owned), acquired, if_neg (not_not.mpr rfl),
          if_neg (show ¬true = false from Bool.noConfusion)]
        exact Script.run_lift ..

/-! ## Buffers that are kept -/

abbrev SpmcLog : Type := Script.Log SpmcCall fun _ => SpmcAnswer

/-- The RX buffer of a VM was acquired, and not released afterwards. -/
def Keeps (log : SpmcLog) (id : VmId) : Prop :=
  ∃ before after answer, log = before ++ ⟨.rxAcquire id, answer⟩ :: after ∧ answer.ret.func = ffaSuccess32 ∧
    ∀ answer', ⟨.rxRelease id, answer'⟩ ∉ after

/-- The SPMC has granted the RX buffer of a VM. -/
def Acquires (log : SpmcLog) (id : VmId) : Prop :=
  ∃ answer, ⟨.rxAcquire id, answer⟩ ∈ log ∧ answer.ret.func = ffaSuccess32

/-- Every buffer that a call keeps has got a message. -/
def NoneLeftBehind (log : SpmcLog) (s' : Manager m) : Prop :=
  ∀ id, Keeps log id → ∃ e, s'.vms id = some e ∧ e.vm.mailbox.state ≠ .empty

variable {log : SpmcLog} {id senderVmId : VmId} {answer : SpmcAnswer} {vm : Endpoint m}
  {flags : BitVec 32} {ret : FfaValue} {maxVms : Nat} {uuid : Uuid}

theorem not_acquires (none_ : ∀ answer, ⟨.rxAcquire id, answer⟩ ∉ log) : ¬Acquires log id := by
  rintro ⟨answer, inside, -⟩
  exact none_ answer inside

theorem Keeps.acquires (keeps : Keeps log id) : Acquires log id := by
  obtain ⟨before, after, answer, rfl, acquired, -⟩ := keeps
  exact ⟨answer, List.mem_append_right _ List.mem_cons_self, acquired⟩

variable {id' : VmId} {s' : Manager m} (payload : BitVec 8)

/-- A call whose only acquisition comes last acquires this buffer alone, and keeps it. -/
theorem acquires_last (none_ : ∀ id answer, ⟨.rxAcquire id, answer⟩ ∉ log)
    (acquires : Acquires (log ++ [⟨.rxAcquire id', answer⟩]) id) :
    id = id' ∧ answer.ret.func = ffaSuccess32 ∧ Keeps (log ++ [⟨.rxAcquire id', answer⟩]) id := by
  obtain ⟨answer', inside, acquired⟩ := acquires
  rcases List.mem_append.mp inside with before | last
  · exact absurd before (none_ _ _)
  · cases List.mem_singleton.mp last
    exact ⟨rfl, acquired, log, [], answer, rfl, acquired, fun _ => List.not_mem_nil⟩

/-- How FFA_MSG_SEND2 goes on after it has acquired a buffer. -/
structure MsgSend2Acquires (s : Manager m) (vm : Endpoint m) (senderVmId : VmId) (log : SpmcLog)
    (s' : Manager m) : Prop where
  delivers : ∃ senderPlace sender checked place receiver answer,
    platFfaVmFindLocked s (msgSenderId vm senderVmId) = some (senderPlace, sender) ∧
    load s.memory sender.send ffaRxtxHeaderSize = .ok checked ∧
    platFfaVmFindLocked s (ffaRxtxHeaderReceiver (.ofBytes checked)) = some (place, receiver) ∧
    receiver.vm.mailbox.state = .empty ∧ log = [⟨.rxAcquire receiver.vm.id, answer⟩] ∧
    (answer.ret.func = ffaSuccess32 →
      if (msgSize (.ofBytes checked)).toNat > ffaPartitionMsgPayloadMax ∨
        (RxtxHeader.ofBytes checked).size.toNat > ffaPartitionMsgPayloadMax
      then s' = s
      else ∃ bytes, s' = { s.put place (receiver.deliver (.ofBytes checked)) with memory :=
        { s.memory with bytes } })

theorem apiFfaMsgSend2_acquires (runs : (apiFfaMsgSend2 s vm senderVmId flags).Runs log (.ok (ret, s'))) :
    (∀ id answer, ⟨.rxAcquire id, answer⟩ ∉ log) ∨ MsgSend2Acquires s vm senderVmId log s' := by
  have nothing {log : SpmcLog} (empty : log = []) (id : VmId) (answer : SpmcAnswer) :
      ⟨.rxAcquire id, answer⟩ ∉ log := by
    rw [empty]
    exact List.not_mem_nil
  obtain ⟨checked, isChecked, runs⟩ := Script.runs_lift_bind_iff.mp runs
  cases checked with
  | error e => exact .inl (nothing (Script.runs_pure_iff.mp runs).1)
  | ok pair =>
  obtain ⟨sender, header⟩ := pair
  obtain ⟨senderPlace, bytes, -, found, loaded, rfl, -⟩ := msgSend2Header_ok isChecked
  by_cases other : platFfaMsgSend2Forward m (ffaRxtxHeaderReceiver (.ofBytes bytes)) = true
  · dsimp only at runs
    rw [if_pos other] at runs
    obtain ⟨answer, rest, rfl, following⟩ := Script.runs_call_bind_iff.mp runs
    obtain ⟨rfl, -⟩ := Script.runs_pure_iff.mp following
    exact .inl fun id answer' inside => by simp at inside
  dsimp only at runs
  rw [if_neg other] at runs
  split at runs
  · exact .inl (nothing (Script.runs_pure_iff.mp runs).1)
  next place receiver isReceiver =>
  obtain ⟨receiverFound, waiting, -⟩ := msgSend2Receiver_ok isReceiver
  rcases runs_acquire_bind runs with ⟨answer, rest, same, following⟩ | following
  · refine .inr ⟨senderPlace, sender, bytes, place, receiver, answer, found, loaded, receiverFound,
      waiting, ?_⟩
    rcases Script.runs_guard following with ⟨refused, empty, -⟩ | ⟨acquired, following⟩
    · exact ⟨empty ▸ same, fun taken => absurd taken refused⟩
    obtain ⟨empty, copied⟩ := Script.runs_lift_iff.mp following
    refine ⟨empty ▸ same, fun _ => ?_⟩
    rw [msgSend2Copy] at copied
    split at copied
    · next long =>
      cases copied
      rw [if_pos long]
    · next fits =>
      obtain ⟨arrived, -, ⟨⟩⟩ := bind_ok_iff.mp copied.symm
      rw [if_neg fits]
      exact ⟨arrived, rfl⟩
  · refine .inl (nothing ?_)
    rcases Script.runs_guard following with ⟨-, empty, -⟩ | ⟨-, following⟩
    · exact empty
    · exact (Script.runs_lift_iff.mp following).1

/-- The number of partitions that the hypervisor takes over from the answer to a query. -/
def listedBySpmc (maxVms : Nat) : SpmcLog → Nat
  | ⟨.partitionInfoGet _ _, answer⟩ :: _ =>
    if answer.ret.func.setWidth 32 = ffaSuccess32.setWidth 32 ∧
      ffaPartitionInfoGetCount answer.ret ≤ maxVms then
      ffaPartitionInfoGetCount answer.ret
    else 0
  | _ => 0

/-- The part of FFA_PARTITION_INFO_GET that asks the SPMC acquires nothing. -/
theorem forward_acquires (small : maxVms < 2 ^ 15) {p q : Partitions}
    (runs : (platFfaPartitionInfoGetForward s maxVms uuid flags p).Runs log (.ok q)) :
    (∀ id answer, ⟨.rxAcquire id, answer⟩ ∉ log) ∧ q.count = p.count + listedBySpmc maxVms log := by
  rw [platFfaPartitionInfoGetForward] at runs
  split at runs
  · exact absurd runs Script.not_runs_stop
  split at runs
  · exact absurd runs Script.not_runs_stop
  next room =>
  rcases Script.runs_guard runs with ⟨-, rfl, rfl⟩ | ⟨-, runs⟩
  · exact ⟨fun id answer => List.not_mem_nil, rfl⟩
  obtain ⟨answer, rest, rfl, following⟩ := Script.runs_call_bind_iff.mp runs
  rcases Script.runs_guard following with ⟨failed, rfl, rfl⟩ | ⟨taken, following⟩
  · refine ⟨fun id answer inside => by simp at inside, ?_⟩
    rw [listedBySpmc, if_neg (fun listed => failed listed.1)]
    rfl
  rcases Script.runs_guard following with ⟨refused, rfl, rfl⟩ | ⟨admitted, following⟩
  · refine ⟨fun id answer inside => by simp at inside, ?_⟩
    rw [listedBySpmc]
    split <;> omega
  rw [listedBySpmc, if_pos ⟨not_not.mp taken, by omega⟩]
  rcases Script.runs_guard following with ⟨-, rfl, rfl⟩ | ⟨-, following⟩
  · refine ⟨fun id answer inside => by simp at inside, Nat.mod_eq_of_lt ?_⟩
    omega
  obtain ⟨q', copied, following⟩ := Script.runs_lift_bind_iff.mp following
  obtain ⟨q'', copied', count, -⟩ := copyTeePartitions_spec small answer.buffer
    (List.range (ffaPartitionInfoGetCount answer.ret)) (p := p) (by rw [List.length_range]; omega)
  cases copied.symm.trans copied'
  obtain ⟨answer', rest', rfl, last⟩ := Script.runs_call_bind_iff.mp following
  split at last
  · exact absurd last Script.not_runs_stop
  · obtain ⟨rfl, ⟨⟩⟩ := Script.runs_pure_iff.mp last
    rw [List.length_range] at count
    exact ⟨fun id answer inside => by simp at inside, count⟩

/-- The two calls. -/
inductive RxCall
  | msgSend2 (senderVmId : VmId) (flags : BitVec 32)
  | partitionInfoGet (uuid : Uuid) (flags : BitVec 32)
deriving DecidableEq, Repr

def RxCall.script (s : Manager m) (vm : Endpoint m) (maxVms : Nat) (vms : List (VmEntry m)) :
    RxCall → Outgoing (FfaValue × Manager m)
  | .msgSend2 senderVmId flags => apiFfaMsgSend2 s vm senderVmId flags
  | .partitionInfoGet uuid flags => apiFfaPartitionInfoGet s vm maxVms vms uuid flags

/-- What is to be delivered passes the check on its size. -/
def RxCall.Fits (s : Manager m) (vm : Endpoint m) (maxVms : Nat) (vms : List (VmEntry m))
    (log : SpmcLog) : RxCall → Prop
  | .msgSend2 senderVmId _ => ∀ senderPlace sender checked,
    platFfaVmFindLocked s (msgSenderId vm senderVmId) = some (senderPlace, sender) →
    load s.memory sender.send ffaRxtxHeaderSize = .ok checked →
    ¬((msgSize (.ofBytes checked)).toNat > ffaPartitionMsgPayloadMax ∨
      (RxtxHeader.ofBytes checked).size.toNat > ffaPartitionMsgPayloadMax)
  | .partitionInfoGet uuid _ =>
    partitionInfoSize vm.ffaVersion * ((matching uuid vms).length + listedBySpmc maxVms log) ≤ hfMailboxSize

/-- The hypervisor keeps all endpoints in one table. -/
theorem platFfaVmFindLocked_vm (hypervisor : m.features.secureWorld = false) {place : Place} {e : Endpoint m}
    (found : platFfaVmFindLocked s id = some (place, e)) : place = .vm e.vm.id ∧ s.vms e.vm.id = some e := by
  rw [platFfaVmFindLocked, hypervisor] at found
  split at found
  · obtain ⟨rfl, held⟩ := vmFindLocked_some found
    rw [s.vmIds held]
    exact ⟨rfl, held⟩
  · cases found

section LeftBehind

variable {vms : List (VmEntry m)}

theorem msgSend2_leftBehind_iff (hypervisor : m.features.secureWorld = false)
    (runs : (apiFfaMsgSend2 s vm senderVmId flags).Runs log (.ok (ret, s'))) :
    NoneLeftBehind log s' ↔ ∀ id, Acquires log id →
      (RxCall.msgSend2 senderVmId flags).Fits s vm maxVms vms log := by
  rcases apiFfaMsgSend2_acquires runs with none_ | ⟨senderPlace, sender, checked, place, receiver,
      answer, found, loaded, receiverFound, waiting, rfl, after⟩
  · exact iff_of_true (fun id keeps => absurd keeps.acquires (not_acquires (none_ id)))
      fun id acquires => absurd acquires (not_acquires (none_ id))
  obtain ⟨rfl, held⟩ := platFfaVmFindLocked_vm hypervisor receiverFound
  have only {id : VmId} := @acquires_last [] id answer receiver.vm.id fun _ _ => List.not_mem_nil
  constructor
  · intro none_ id acquires senderPlace' sender' checked' found' loaded' long
    cases found.symm.trans found'
    cases loaded.symm.trans loaded'
    obtain ⟨rfl, acquired, keeps⟩ := only acquires
    have unchanged := after acquired
    rw [if_pos long] at unchanged
    obtain ⟨e, heldAfter, full⟩ := none_ _ keeps
    rw [unchanged] at heldAfter
    cases held.symm.trans heldAfter
    exact full waiting
  · intro fits id keeps
    obtain ⟨rfl, acquired, -⟩ := only keeps.acquires
    have delivered := after acquired
    rw [if_neg (fits _ keeps.acquires senderPlace sender checked found loaded)] at delivered
    obtain ⟨bytes, rfl⟩ := delivered
    refine ⟨receiver.deliver _, Function.update_self .., ?_⟩
    show MailboxState.received ≠ .empty
    decide

theorem listedBySpmc_append {first : SpmcLog} (none_ : ∀ id answer, ⟨.rxAcquire id, answer⟩ ∉ first)
    (id : VmId) (answer : SpmcAnswer) :
    listedBySpmc maxVms (first ++ [⟨.rxAcquire id, answer⟩]) = listedBySpmc maxVms first := by
  cases first with
  | nil => rfl
  | cons head rest =>
    obtain ⟨call, answer'⟩ := head
    cases call <;> rfl

/-- What becomes of the descriptors once the buffer is acquired. -/
theorem sendVersioned_acquired {partitions : List PartitionInfo} {answer : FfaValue}
    (free : vm.busy = false) (acquired : answer.func = ffaSuccess32)
    (sent : Api.sendVersionedPartitionInfoDescriptors s vm partitions answer = .ok (ret, s')) :
    (hfMailboxSize < partitionInfoSize vm.ffaVersion * partitions.length → s' = s) ∧
    (partitionInfoSize vm.ffaVersion * partitions.length ≤ hfMailboxSize →
      ∃ e, s'.vms vm.vm.id = some e ∧ e.vm.mailbox.state = .read) := by
  have taken : Api.platFfaAcquireReceiverRx s vm answer = true := by
    rw [Api.platFfaAcquireReceiverRx, decide_eq_true acquired, Bool.or_true]
  rw [Api.sendVersionedPartitionInfoDescriptors] at sent
  simp only [free, taken, Bool.true_eq_false, Bool.false_eq_true, if_false] at sent
  constructor
  · intro long
    rw [if_pos long] at sent
    cases sent
    rfl
  · intro fits
    rw [if_neg (Nat.not_lt.mpr fits)] at sent
    obtain ⟨memory, -, ⟨⟩⟩ := bind_ok_iff.mp sent
    exact ⟨_, Function.update_self .., rfl⟩

/-- FFA_PARTITION_INFO_GET acquires the RX buffer of its caller at the end, if at all. -/
theorem apiFfaPartitionInfoGet_acquires (ready : Initialised s vm maxVms vms)
    (runs : (apiFfaPartitionInfoGet s vm maxVms vms uuid flags).Runs log (.ok (ret, s'))) :
    (∀ id answer, ⟨.rxAcquire id, answer⟩ ∉ log) ∨
      ∃ first partitions answer, (∀ id answer, ⟨.rxAcquire id, answer⟩ ∉ first) ∧
      log = first ++ [⟨.rxAcquire vm.vm.id, answer⟩] ∧
        vm.busy = false ∧ (matching uuid vms).length + listedBySpmc maxVms first = partitions.length ∧
        Api.sendVersionedPartitionInfoDescriptors s vm partitions answer.ret = .ok (ret, s') := by
  rcases Script.runs_guard runs with ⟨-, rfl, -⟩ | ⟨-, runs⟩
  · exact .inl fun id answer => List.not_mem_nil
  obtain ⟨p, collected, runs⟩ := Script.runs_lift_bind_iff.mp runs
  obtain ⟨p', collected', count, -, -⟩ := collectPartitions_spec ready uuid flags
  cases collected.symm.trans collected'
  split at runs
  · exact absurd runs Script.not_runs_stop
  obtain ⟨first, second, q, rfl, forwarded, following⟩ := Script.runs_bind_iff.mp runs
  obtain ⟨none_, total⟩ := forward_acquires ready.small forwarded
  have nothing (empty : second = []) : ∀ id answer, ⟨.rxAcquire id, answer⟩ ∉ first ++ second := by
    rw [empty, List.append_nil]
    exact none_
  rcases Script.runs_guard following with ⟨-, empty, -⟩ | ⟨-, following⟩
  · exact .inl (nothing empty)
  rcases Script.runs_guard following with ⟨-, empty, -⟩ | ⟨-, following⟩
  · exact .inl (nothing empty)
  rcases Script.runs_guard following with ⟨-, empty, -⟩ | ⟨free, following⟩
  · exact .inl (nothing empty)
  rcases runs_acquire_bind following with ⟨answer, rest, rfl, last⟩ | last
  · obtain ⟨rfl, sent⟩ := Script.runs_lift_iff.mp last
    refine .inr ⟨first, q.toList, answer, none_, rfl, Bool.eq_false_iff.mpr free, ?_, sent.symm⟩
    rw [Partitions.toList, List.length_map, List.length_range, total, count]
  · exact .inl (nothing (Script.runs_lift_iff.mp last).1)

theorem partitionInfoGet_leftBehind_iff (ready : Initialised s vm maxVms vms)
    (held : s.vms vm.vm.id = some vm)
    (runs : (apiFfaPartitionInfoGet s vm maxVms vms uuid flags).Runs log (.ok (ret, s'))) :
    NoneLeftBehind log s' ↔
      ∀ id, Acquires log id → (RxCall.partitionInfoGet uuid flags).Fits s vm maxVms vms log := by
  rcases apiFfaPartitionInfoGet_acquires ready runs with
    none_ | ⟨first, partitions, answer, none_, rfl, free, length, sent⟩
  · exact iff_of_true (fun id keeps => absurd keeps.acquires (not_acquires (none_ id)))
      fun id acquires => absurd acquires (not_acquires (none_ id))
  have waiting : vm.vm.mailbox.state = .empty := by
    by_contra full
    rw [Endpoint.busy, decide_eq_true (.inl full)] at free
    cases free
  have fits_iff (id : VmId) :
      (RxCall.partitionInfoGet uuid flags).Fits s vm maxVms vms (first ++ [⟨.rxAcquire id, answer⟩]) ↔
        partitionInfoSize vm.ffaVersion * partitions.length ≤ hfMailboxSize := by
    rw [RxCall.Fits, listedBySpmc_append none_, length]
  constructor
  · intro none_left id acquires
    obtain ⟨rfl, acquired, keeps⟩ := acquires_last none_ acquires
    rw [fits_iff]
    by_contra long
    obtain ⟨e, heldAfter, full⟩ := none_left _ keeps
    rw [(sendVersioned_acquired free acquired sent).1 (Nat.not_le.mp long)] at heldAfter
    cases held.symm.trans heldAfter
    exact full waiting
  · intro fits id keeps
    obtain ⟨rfl, acquired, -⟩ := acquires_last none_ keeps.acquires
    obtain ⟨e, heldAfter, read⟩ :=
      (sendVersioned_acquired free acquired sent).2 ((fits_iff _).mp (fits _ keeps.acquires))
    exact ⟨e, heldAfter, by rw [read]; decide⟩

/-- A call leaves no acquired buffer behind if and only if what it acquires a buffer for fits into it. -/
theorem acquired_rx_used_iff (hypervisor : m.features.secureWorld = false)
    (ready : Initialised s vm maxVms vms) (held : s.vms vm.vm.id = some vm) (call : RxCall)
    (runs : (call.script s vm maxVms vms).Runs log (.ok (ret, s'))) :
    NoneLeftBehind log s' ↔ ∀ id, Acquires log id → call.Fits s vm maxVms vms log := by
  cases call with
  | msgSend2 senderVmId flags => exact msgSend2_leftBehind_iff hypervisor runs
  | partitionInfoGet uuid flags => exact partitionInfoGet_leftBehind_iff ready held runs

end LeftBehind

/-- The VM 1 with a message to the VM 2 and an SPMC. The payload of the message has 256 times as many bytes as
given. -/
def spmcManager (payload : BitVec 8) : Manager smallConfig :=
  { messageManager.put (.vm hfTeeVmId) (.new (emptyVm smallConfig hfTeeVmId .empty)) with
    memory := ⟨imageTable, fun addr => if addr = 0x200011 then payload else messageTo 2 addr⟩
    teeEnabled := true }

theorem spmcManager_initialised : Initialised (spmcManager payload) messageSender 2 [⟨messageSender, 1, 0⟩] :=
  ⟨by decide, imageTable_wellFormed, by decide, ⟨_, List.mem_singleton_self _, rfl⟩, ⟨_, rfl⟩,
    fun registered => absurd rfl registered⟩

/-- A message of the VM 1 for which the SPMC is asked for the RX buffer of the VM 2. -/
theorem spmcManager_runs (check : FfaValue × Manager smallConfig → Bool)
    (asks : (apiFfaMsgSend2 (spmcManager payload) messageSender 0 0).commands (spmcReports 0) =
      [.rxAcquire 2])
    (evaluated : Partial.returns ((apiFfaMsgSend2 (spmcManager payload) messageSender 0 0).run
      (spmcReports 0)) check = true) :
    ∃ ret s', check (ret, s') = true ∧ (apiFfaMsgSend2 (spmcManager payload) messageSender 0 0).Runs
      [⟨.rxAcquire 2, spmcReports 0 (.rxAcquire 2)⟩] (.ok (ret, s')) := by
  obtain ⟨⟨ret, s'⟩, ran, checked⟩ := returns_iff.mp evaluated
  have runs := Script.runs_run (spmcReports 0) (apiFfaMsgSend2 (spmcManager payload) messageSender 0 0)
  rw [asks, ran] at runs
  exact ⟨ret, s', checked, runs⟩

/-- An empty message is delivered into the buffer that is acquired. -/
theorem acquired_rx_used_empty : ∃ log ret s', Acquires log 2 ∧
    (apiFfaMsgSend2 (spmcManager 0) messageSender 0 0).Runs log (.ok (ret, s')) ∧ NoneLeftBehind log s' := by
  obtain ⟨ret, s', -, runs⟩ := spmcManager_runs 0 (fun _ => true) (by decide +kernel) (by decide +kernel)
  refine ⟨_, ret, s', ⟨_, List.mem_singleton_self _, rfl⟩, runs, ?_⟩
  refine (acquired_rx_used_iff rfl (spmcManager_initialised 0) rfl (.msgSend2 0 0) runs).mpr ?_
  intro id acquires senderPlace sender checked found loaded
  have isSender : platFfaVmFindLocked (spmcManager 0) (msgSenderId messageSender 0) = some (.vm 1,
      messageSender) := rfl
  cases isSender.symm.trans found
  have small : Partial.returns (load (spmcManager 0).memory 0x200000 ffaRxtxHeaderSize)
      (fun checked => decide ((RxtxHeader.ofBytes checked).size = 0)) = true := by decide +kernel
  obtain ⟨checked', loaded', noPayload⟩ := returns_iff.mp small
  cases loaded.symm.trans loaded'
  rw [msgSize, of_decide_eq_true noPayload]
  decide

/-- The mailbox of the VM 2 is empty after a call. -/
def leavesEmpty (r : FfaValue × Manager smallConfig) : Bool :=
  (r.2.vms 2).any fun e => decide (e.vm.mailbox.state = .empty)

/-- A message with 4096 bytes is refused after the buffer has been acquired. -/
theorem acquired_rx_left_behind : ∃ log ret s',
      (apiFfaMsgSend2 (spmcManager 0x10) messageSender 0 0).Runs log (.ok (ret, s')) ∧
    ¬NoneLeftBehind log s' := by
  obtain ⟨ret, s', empty, runs⟩ := spmcManager_runs 0x10 leavesEmpty (by decide +kernel) (by decide +kernel)
  refine ⟨_, ret, s', runs, fun none_ => ?_⟩
  obtain ⟨e, held, full⟩ := none_ 2 ⟨[], [], _, rfl, rfl, fun _ => List.not_mem_nil⟩
  simp only [leavesEmpty, held, Option.any_some, decide_eq_true_eq] at empty
  exact full empty

end Hafnium.Api.Discovery
