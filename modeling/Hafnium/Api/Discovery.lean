import Hafnium.Api.MailboxRuns
import Hafnium.Lib.Script

/-! # Partition discovery in the hypervisor

FFA_PARTITION_INFO_GET collects the descriptors of the VMs with a UUID in an array, lets the SPMC add its own
and formats the array into the RX buffer of the caller; with the count flag only their number is determined.
The calls that the hypervisor makes to the SPMC on the way are the commands of a script. The answer is exact
unless all VMs that may exist have the UUID or the SPMC reports more partitions than this number.
-/

namespace Hafnium.Api.Discovery

open Mm Ffa Partial Function LittleEndian

variable {m : MmConfig}

/-! ## Calls to the SPMC -/

abbrev Uuid := BitVec 128

/-- The calls that the hypervisor makes in FFA_MSG_SEND2 and FFA_PARTITION_INFO_GET. It releases its own RX
buffer as that of the VM 0. -/
inductive SpmcCall
  | rxAcquire (id : VmId)
  | rxRelease (id : VmId)
  | msgSend2 (senderVmId : VmId)
  | partitionInfoGet (uuid : Uuid) (flags : BitVec 32)
deriving DecidableEq, Repr

/-- The registers after a call, and the RX buffer of the hypervisor. -/
structure SpmcAnswer where
  ret : FfaValue
  buffer : Bytes

abbrev Outgoing (α : Type) : Type := Script SpmcCall (fun _ => SpmcAnswer) Abort α

def platFfaAcquireReceiverRx (s : Manager m) (receiver : Endpoint m) : Outgoing FfaValue :=
  if rxOwnedBySpmc s receiver then do
    let answer ← .call (.rxAcquire receiver.vm.id)
    pure answer.ret
  else pure { func := ffaSuccess32 }

/-! ## Descriptors -/

/-- A VM as FFA_PARTITION_INFO_GET sees it. -/
structure VmEntry (m : MmConfig) where
  endpoint : Endpoint m
  vcpuCount : BitVec 16
  uuid : Uuid

def ffaPartitionDirectReqRecv : BitVec 32 := 1
def ffaPartitionDirectReqSend : BitVec 32 := 2
def ffaPartitionNotification : BitVec 32 := 8
def ffaPartitionCountFlag : BitVec 32 := 1

def platFfaPartitionProperties (vmId : VmId) (target : Endpoint m) : BitVec 32 :=
  let result : BitVec 32 := target.messagingMethod.setWidth 32
  let result :=
    if vmIdIsCurrentWorld m vmId then result else result &&& ~~~(ffaPartitionIndirectMsg.setWidth 32)
  if target.vm.id = hfPrimaryVmId m then
    result &&& ~~~ffaPartitionDirectReqRecv
  else result &&& ~~~ffaPartitionDirectReqSend

/-- The descriptor of a VM. Its UUID is left out if it is that of the query. -/
def VmEntry.info (currentId : VmId) (uuid : Uuid) (vm : VmEntry m) : PartitionInfo where
  vmId := vm.endpoint.vm.id
  vcpuCount := vm.vcpuCount
  properties := platFfaPartitionProperties currentId vm.endpoint |||
    if vm.endpoint.notificationsEnabled then ffaPartitionNotification else 0
  uuid := if uuid = 0 then vm.uuid else 0

def VmEntry.isMatch (uuid : Uuid) (vm : VmEntry m) : Bool := decide (uuid = 0 ∨ uuid = vm.uuid)

/-- The array of descriptors and `vm_count`. -/
structure Partitions where
  count : Nat
  entries : Nat → PartitionInfo

def Partitions.empty : Partitions := ⟨0, fun _ => ⟨0, 0, 0, 0⟩⟩

/-- The descriptors that have been counted. -/
def Partitions.toList (p : Partitions) : List PartitionInfo := (List.range p.count).map p.entries

/-- `++vm_count`. -/
def Partitions.add (p : Partitions) (count : Nat) : Partitions :=
  { p with count := (p.count + count) % 2 ^ 16 }

/-- A store to the array, which has room for twice the number of VMs that may exist. -/
def Partitions.push (maxVms : Nat) (p : Partitions) (info : PartitionInfo) : Run Partitions :=
  if p.count < 2 * maxVms then .ok ({ p with entries := update p.entries p.count info }.add 1)
  else .error .outOfBounds

/-- The loop over the VMs. -/
def collectVms (maxVms : Nat) (currentId : VmId) (uuid : Uuid) (countFlag : Bool) :
    List (VmEntry m) → Partitions → Run Partitions
  | [], p => .ok p
  | vm :: rest, p =>
    if vm.isMatch uuid then
      if countFlag then collectVms maxVms currentId uuid countFlag rest (p.add 1)
      else do
        let p ← p.push maxVms (vm.info currentId uuid)
        collectVms maxVms currentId uuid countFlag rest p
    else collectVms maxVms currentId uuid countFlag rest p

/-- The number of all VMs is known. -/
def collectPartitions (maxVms : Nat) (currentId : VmId) (uuid : Uuid) (flags : BitVec 32)
    (vms : List (VmEntry m)) : Run Partitions :=
  if uuid = 0 ∧ flags ≠ 0 then .ok (Partitions.empty.add vms.length)
  else collectVms maxVms currentId uuid (decide (flags ≠ 0)) vms .empty

/-- A descriptor in the layout of FF-A v1.1. -/
def partitionInfoAt (bytes : Bytes) (index : Nat) : PartitionInfo where
  vmId := u16 bytes (24 * index)
  vcpuCount := u16 bytes (24 * index + 2)
  properties := u32 bytes (24 * index + 4)
  uuid := BitVec.ofNat 128 (read bytes (24 * index + 8) 16)

/-- The loop over the descriptors that the SPMC has returned. -/
def copyTeePartitions (maxVms : Nat) (buffer : Bytes) : (indices : List Nat) → Partitions → Run Partitions
  | [], p => .ok p
  | index :: rest, p => do
    let p ← p.push maxVms (partitionInfoAt buffer index)
    copyTeePartitions maxVms buffer rest p

/-- The count in the answer of the SPMC, as `ffa_vm_count_t`. -/
def ffaPartitionInfoGetCount (ret : FfaValue) : Nat := (ret.arg2.setWidth 32).toNat % 2 ^ 16

/-! ## FFA_PARTITION_INFO_GET -/

def platFfaPartitionInfoGetForward (s : Manager m) (maxVms : Nat) (uuid : Uuid) (flags : BitVec 32)
    (p : Partitions) : Outgoing Partitions :=
  match s.vms hfTeeVmId with
  | none => .stop .nullVm
  | some _ =>
    if maxVms ≤ p.count then .stop .partitionCount
    else if s.teeEnabled = false then pure p
    else do
      let answer ← .call (.partitionInfoGet uuid flags)
      if answer.ret.func.setWidth 32 ≠ ffaSuccess32.setWidth 32 then pure p
      else
        let teePartitionsCount := ffaPartitionInfoGetCount answer.ret
        if teePartitionsCount = 0 ∨ teePartitionsCount > maxVms then pure p
        else if flags ≠ 0 then pure (p.add teePartitionsCount)
        else do
          let p ← .lift (copyTeePartitions maxVms answer.buffer (List.range teePartitionsCount) p)
          let answer ← .call (.rxRelease 0)
          if answer.ret.func ≠ ffaSuccess32 then .stop .forwardedAnswer else pure p

def sendVersionedPartitionInfoDescriptors (s : Manager m) (vm : Endpoint m)
    (partitions : List PartitionInfo) : Outgoing (FfaValue × Manager m) :=
  if vm.busy then pure (ffaError .busy, s)
  else do
    let answer ← platFfaAcquireReceiverRx s vm
    .lift (Api.sendVersionedPartitionInfoDescriptors s vm partitions answer)

/-- `vms` are the VMs in the order of their indices. -/
def apiFfaPartitionInfoGet (s : Manager m) (vm : Endpoint m) (maxVms : Nat) (vms : List (VmEntry m))
    (uuid : Uuid) (flags : BitVec 32) : Outgoing (FfaValue × Manager m) :=
  if flags &&& ~~~ffaPartitionCountFlag ≠ 0 then pure (ffaError .invalidParameters, s)
  else do
    let p ← .lift (collectPartitions maxVms vm.vm.id uuid flags vms)
    if uuid = 0 ∧ p.count = 0 then .stop .partitionCount
    else do
      let p ← platFfaPartitionInfoGetForward s maxVms uuid flags p
      if p.count = 0 then pure (ffaError .invalidParameters, s)
      else if flags ≠ 0 then pure ({ func := ffaSuccess32, arg2 := BitVec.ofNat 64 p.count }, s)
      else sendVersionedPartitionInfoDescriptors s vm p.toList

/-! ## What is collected -/

variable {maxVms count : Nat} {p : Partitions} {vms : List (VmEntry m)} {s : Manager m}
  {spmc : SpmcCall → SpmcAnswer} {uuid : Uuid} {reported : List PartitionInfo} {ret : FfaValue}

section Collect

variable (small : maxVms < 2 ^ 15)
include small

theorem Partitions.push_spec (room : p.count < 2 * maxVms) (info : PartitionInfo) :
    ∃ q, p.push maxVms info = .ok q ∧ q.count = p.count + 1 ∧ q.toList = p.toList ++ [info] := by
  refine ⟨_, if_pos room, ?_⟩
  have count : (p.count + 1) % 2 ^ 16 = p.count + 1 := Nat.mod_eq_of_lt (by omega)
  refine ⟨count, ?_⟩
  have kept : ∀ i ∈ List.range p.count, update p.entries p.count info i = p.entries i := by
    intro i inside
    exact update_of_ne (Nat.ne_of_lt (List.mem_range.mp inside)) ..
  simp only [Partitions.toList, Partitions.add, count, List.range_succ, List.map_append,
    List.map_cons, List.map_nil, update_self, List.map_congr_left kept]

/-- The VMs with the UUID, in their order. -/
def matching (uuid : Uuid) (vms : List (VmEntry m)) : List (VmEntry m) := vms.filter (VmEntry.isMatch uuid)

/-- The loop counts the VMs with the UUID, and appends their descriptors if they are asked for. -/
theorem collectVms_spec (currentId : VmId) (uuid : Uuid) (countFlag : Bool)
    (room : p.count + vms.length ≤ maxVms) :
    ∃ q, collectVms maxVms currentId uuid countFlag vms p = .ok q ∧
    q.count = p.count + (matching uuid vms).length ∧
      (countFlag = false → q.toList = p.toList ++ (matching uuid vms).map (VmEntry.info currentId uuid)) := by
  induction vms generalizing p with
  | nil => exact ⟨p, rfl, rfl, fun _ => (List.append_nil _).symm⟩
  | cons vm rest ih =>
    rw [List.length_cons] at room
    rw [collectVms]
    cases found : vm.isMatch uuid with
    | false =>
      obtain ⟨q, collected, count, listed⟩ := ih (p := p) (by omega)
      have skipped : matching uuid (vm :: rest) = matching uuid rest :=
        List.filter_cons_of_neg (by rw [found]; decide)
      rw [skipped]
      exact ⟨q, collected, count, listed⟩
    | true =>
      have taken : matching uuid (vm :: rest) = vm :: matching uuid rest := List.filter_cons_of_pos found
      rw [taken, List.length_cons, List.map_cons]
      cases countFlag with
      | true =>
        have next : (p.add 1).count = p.count + 1 := Nat.mod_eq_of_lt (by omega)
        obtain ⟨q, collected, count, -⟩ := ih (p := p.add 1) (by omega)
        exact ⟨q, collected, by omega, nofun⟩
      | false =>
        obtain ⟨next, pushed, nextCount, nextList⟩ := p.push_spec small (by omega) _
        obtain ⟨q, collected, count, listed⟩ := ih (p := next) (by omega)
        refine ⟨q, bind_ok_iff.mpr ⟨next, pushed, collected⟩, by omega, fun asked => ?_⟩
        rw [listed asked, nextList, List.append_assoc]
        rfl

theorem copyTeePartitions_spec (buffer : Bytes) (indices : List Nat)
    (room : p.count + indices.length ≤ 2 * maxVms) :
    ∃ q, copyTeePartitions maxVms buffer indices p = .ok q ∧ q.count = p.count + indices.length ∧
      q.toList = p.toList ++ indices.map (partitionInfoAt buffer) := by
  induction indices generalizing p with
  | nil => exact ⟨p, rfl, rfl, (List.append_nil _).symm⟩
  | cons index rest ih =>
    rw [List.length_cons] at room
    obtain ⟨next, pushed, nextCount, nextList⟩ := p.push_spec small (by omega) _
    obtain ⟨q, copied, count, listed⟩ := ih (p := next) (by omega)
    refine ⟨q, bind_ok_iff.mpr ⟨next, pushed, copied⟩, ?_, ?_⟩
    · rw [List.length_cons]
      omega
    · rw [listed, nextList, List.append_assoc]
      rfl

end Collect

/-! ## What the SPMC adds -/

/-- A successful answer carries a number of partitions, and any other one is about none. -/
def CountIs (ret : FfaValue) (count : Nat) : Prop :=
  if ret.func.setWidth 32 = ffaSuccess32.setWidth 32 then (ret.arg2.setWidth 32).toNat = count else count = 0

/-- The partitions with a UUID that the SPMC reports, if there is one: their number, and their descriptors
in a buffer. -/
structure Reports (s : Manager m) (spmc : SpmcCall → SpmcAnswer) (uuid : Uuid)
    (reported : List PartitionInfo) : Prop where
  absent : s.teeEnabled = false → reported = []
  counted : CountIs (spmc (.partitionInfoGet uuid ffaPartitionCountFlag)).ret reported.length
  listed : CountIs (spmc (.partitionInfoGet uuid 0)).ret reported.length
  descriptors : reported = (List.range reported.length).map
    (partitionInfoAt (spmc (.partitionInfoGet uuid 0)).buffer)

/-- The SPMC takes back a buffer with descriptors. -/
def TakesBack (spmc : SpmcCall → SpmcAnswer) (reported : List PartitionInfo) : Prop :=
  reported ≠ [] → (spmc (.rxRelease 0)).ret.func = ffaSuccess32

/-- How many of the reported partitions the hypervisor takes over. -/
def accepted (maxVms reported : Nat) : Nat := if reported % 2 ^ 16 > maxVms then 0 else reported % 2 ^ 16

section Forward

variable (small : maxVms < 2 ^ 15) {tee : Endpoint m} (found : s.vms hfTeeVmId = some tee)
  (reports : Reports s spmc uuid reported)

theorem accepted_eq_iff (small : maxVms < 2 ^ 15) : accepted maxVms count = count ↔ count ≤ maxVms := by
  rw [accepted]
  split <;> omega

theorem accepted_le (maxVms count : Nat) : accepted maxVms count ≤ count := by
  rw [accepted]
  split <;> omega

/-- The count of an answer that the hypervisor takes over. -/
theorem accepted_of_answer (isCount : CountIs ret count)
    (taken : ret.func.setWidth 32 = ffaSuccess32.setWidth 32) :
    accepted maxVms count =
      if ffaPartitionInfoGetCount ret > maxVms then 0 else ffaPartitionInfoGetCount ret := by
  rw [CountIs, if_pos taken] at isCount
  rw [accepted, ffaPartitionInfoGetCount, isCount]

include small found reports

theorem forward_counts (room : p.count < maxVms) :
    ∃ q, (platFfaPartitionInfoGetForward s maxVms uuid ffaPartitionCountFlag p).run spmc = .ok q ∧
      q.count = p.count + accepted maxVms reported.length := by
  rw [platFfaPartitionInfoGetForward, found]
  simp only [if_neg (Nat.not_le.mpr room)]
  split
  · next disabled =>
    refine ⟨p, rfl, ?_⟩
    rw [reports.absent disabled, List.length_nil]
    exact (Nat.add_zero _).symm
  rw [Script.run_call_bind]
  split
  · next failed =>
    refine ⟨p, rfl, ?_⟩
    have none_ : reported.length = 0 := by
      have isCount := reports.counted
      rwa [CountIs, if_neg failed] at isCount
    rw [none_]
    exact (Nat.add_zero _).symm
  · next taken =>
    rw [accepted_of_answer reports.counted (not_not.mp taken)]
    set count := ffaPartitionInfoGetCount (spmc _).ret
    split
    · next refused =>
      refine ⟨p, rfl, ?_⟩
      split <;> omega
    · next admitted =>
      refine ⟨p.add count, rfl, ?_⟩
      rw [if_neg (by omega)]
      exact Nat.mod_eq_of_lt (by omega)

theorem forward_lists (room : p.count < maxVms) (released : TakesBack spmc reported) :
    ∃ q, (platFfaPartitionInfoGetForward s maxVms uuid 0 p).run spmc = .ok q ∧
      q.toList = p.toList ++ reported.take (accepted maxVms reported.length) := by
  rw [platFfaPartitionInfoGetForward, found]
  simp only [if_neg (Nat.not_le.mpr room)]
  split
  · next disabled =>
    refine ⟨p, rfl, ?_⟩
    rw [reports.absent disabled, List.take_nil, List.append_nil]
  rw [Script.run_call_bind]
  split
  · next failed =>
    refine ⟨p, rfl, ?_⟩
    have none_ : reported.length = 0 := by
      have isCount := reports.listed
      rwa [CountIs, if_neg failed] at isCount
    rw [List.eq_nil_of_length_eq_zero none_, List.take_nil, List.append_nil]
  · next taken =>
    have least := accepted_le maxVms reported.length
    rw [accepted_of_answer reports.listed (not_not.mp taken)] at least ⊢
    set count := ffaPartitionInfoGetCount (spmc _).ret
    split
    · next refused =>
      refine ⟨p, rfl, ?_⟩
      have none_ : (if count > maxVms then 0 else count) = 0 := by
        split <;> omega
      rw [none_, List.take_zero, List.append_nil]
    · next admitted =>
      have all : (if count > maxVms then 0 else count) = count := if_neg (by omega)
      rw [all] at least ⊢
      obtain ⟨q, copied, -, listed⟩ := copyTeePartitions_spec small
        (spmc (.partitionInfoGet uuid 0)).buffer (List.range count)
        (p := p) (by rw [List.length_range]; omega)
      have some_ : reported ≠ [] := fun none_ => by
        rw [none_, List.length_nil] at least
        omega
      refine ⟨q, ?_, ?_⟩
      · rw [if_neg (not_not.mpr rfl), Script.run_bind_ok spmc ((Script.run_lift _ _).trans copied),
          Script.run_call_bind, if_neg (not_not.mpr (released some_))]
        rfl
      · have taken : reported.take count =
            (List.range count).map (partitionInfoAt (spmc (.partitionInfoGet uuid 0)).buffer) := by
          rw [reports.descriptors, ← List.map_take, List.take_range, Nat.min_eq_left least]
        rw [listed, taken]

/-- A buffer that the SPMC does not take back. -/
theorem forward_panics (room : p.count < maxVms) (some_ : reported ≠ []) (fits : reported.length ≤ maxVms)
    (kept : (spmc (.rxRelease 0)).ret.func ≠ ffaSuccess32) :
    (platFfaPartitionInfoGetForward s maxVms uuid 0 p).run spmc = .error .forwardedAnswer := by
  have enabled : s.teeEnabled ≠ false := fun disabled => some_ (reports.absent disabled)
  have positive : reported.length ≠ 0 := fun none_ => some_ (List.eq_nil_of_length_eq_zero none_)
  have isCount := reports.listed
  rw [CountIs] at isCount
  split at isCount
  · next taken =>
    have count : ffaPartitionInfoGetCount (spmc (.partitionInfoGet uuid 0)).ret = reported.length := by
      rw [ffaPartitionInfoGetCount, isCount]
      exact Nat.mod_eq_of_lt (by omega)
    obtain ⟨q, copied, -, -⟩ := copyTeePartitions_spec small (spmc _).buffer (List.range reported.length)
      (p := p) (by rw [List.length_range]; omega)
    rw [platFfaPartitionInfoGetForward, found]
    simp only [if_neg (Nat.not_le.mpr room), if_neg enabled]
    rw [Script.run_call_bind, if_neg (not_not.mpr taken), count, if_neg (by omega), if_neg (not_not.mpr rfl),
      Script.run_bind_ok spmc ((Script.run_lift _ _).trans copied), Script.run_call_bind, if_pos kept]
    rfl
  · exact absurd isCount positive

end Forward

/-! ## The answers -/

/-- What a count of partitions is answered with. -/
def countReply (count : Nat) : FfaValue :=
  if count = 0 then ffaError .invalidParameters else { func := ffaSuccess32, arg2 := BitVec.ofNat 64 count }

/-- What a list of descriptors is answered with. -/
def listReply (version : BitVec 32) (count : Nat) : FfaValue :=
  { func := ffaSuccess32, arg2 := BitVec.ofNat 64 count, arg3 := BitVec.ofNat 64 (partitionInfoSize version) }

/-- A hypervisor after its initialisation, with a caller whose RX buffer is mapped if it has one.
Identifiers of VMs have 15 bits. -/
structure Initialised (s : Manager m) (vm : Endpoint m) (maxVms : Nat) (vms : List (VmEntry m)) :
    Prop where
  small : maxVms < 2 ^ 15
  stage1 : s.memory.stage1.WellFormed
  count : vms.length ≤ maxVms
  caller : ∃ entry ∈ vms, entry.endpoint.vm.id = vm.vm.id
  tee : ∃ tee, s.vms hfTeeVmId = some tee
  buffer : vm.recv ≠ 0 → ∀ k < hfMailboxSize, (storeTarget s.memory.stage1 (vm.recv + k)).isSome

/-- How a query is answered whose answer is a list of descriptors: the caller has to be able to receive them,
and they are all that its RX buffer gets. -/
inductive Listed (s : Manager m) (vm : Endpoint m) (partitions : List PartitionInfo) :
    FfaValue → Manager m → Prop
  | unknown (none_ : partitions = []) : Listed s vm partitions (ffaError .invalidParameters) s
  | busy (busy : vm.busy = true) : Listed s vm partitions (ffaError .busy) s
  | notAcquired {answer : FfaValue} (owned : rxOwnedBySpmc s vm = true)
      (refused : answer.func ≠ ffaSuccess32) :
      Listed s vm partitions answer s
  | tooLong (long : partitionInfoSize vm.ffaVersion * partitions.length > hfMailboxSize) :
      Listed s vm partitions (ffaError .noMemory) s
  | listed {s' : Manager m} (received : ∃ e, s'.vms vm.vm.id = some e ∧ e.vm.mailbox.state = .read ∧
      e.recv = vm.recv)
      (content : ∀ k < partitionInfoSize vm.ffaVersion * partitions.length,
        s'.memory.bytes (rxAddress vm.recv k) = partitionInfoBytes vm.ffaVersion (fun _ => 0) 0 partitions k)
      (kept : ∀ addr, (∀ k < hfMailboxSize, addr ≠ rxAddress vm.recv k) →
        s'.memory.bytes addr = s.memory.bytes addr) :
      Listed s vm partitions (listReply vm.ffaVersion partitions.length) s'

/-- The descriptors of a query: those of the VMs with the UUID, then those that the SPMC reports. -/
def expected (currentId : VmId) (uuid : Uuid) (vms : List (VmEntry m))
    (reported : List PartitionInfo) : List PartitionInfo :=
  (matching uuid vms).map (VmEntry.info currentId uuid) ++ reported

/-- Both forms of a query return, and they agree on the partitions. -/
structure Discovers (s : Manager m) (vm : Endpoint m) (maxVms : Nat) (vms : List (VmEntry m)) (uuid : Uuid)
    (spmc : SpmcCall → SpmcAnswer) (reported : List PartitionInfo) : Prop where
  counts : (apiFfaPartitionInfoGet s vm maxVms vms uuid ffaPartitionCountFlag).run spmc =
    .ok (countReply (expected vm.vm.id uuid vms reported).length, s)
  lists : ∃ ret s', (apiFfaPartitionInfoGet s vm maxVms vms uuid 0).run spmc = .ok (ret, s') ∧
    Listed s vm (expected vm.vm.id uuid vms reported) ret s'

section Answers

variable {vm : Endpoint m}

/-- Descriptors are stored one byte after the other. -/
theorem storeBytes_spec {t : MmPtable (m.levels .stage1)} (wf : t.WellFormed) {dest : Nat}
    (content : Bytes) (bytes : Nat → BitVec 8) (small : count ≤ hfMailboxSize)
    (stores : ∀ k < count, (storeTarget t (dest + k)).isSome) :
    ∃ bytes', storeBytes t dest content bytes count = some bytes' ∧
    ∀ k < count, bytes' (rxAddress dest k) = content k := by
  induction count with
  | zero => exact ⟨bytes, rfl, fun k bound => absurd bound (Nat.not_lt_zero k)⟩
  | succ count ih =>
    obtain ⟨before, stored, written⟩ := ih (by omega) fun k bound => stores k (by omega)
    obtain ⟨target, isTarget⟩ := Option.isSome_iff_exists.mp (stores count (Nat.lt_succ_self count))
    refine ⟨update before target (content count), ?_, fun k bound => ?_⟩
    · rw [storeBytes, stored, isTarget]
    · cases storeTarget_eq wf isTarget
      rcases Nat.lt_succ_iff_lt_or_eq.mp bound with earlier | rfl
      · rw [update_of_ne, written k earlier]
        rw [hfMailboxSize] at small
        rw [rxAddress]
        omega
      · exact update_self ..

/-- An answer tells the count. -/
theorem countReply_inj {first second : Nat} (smallFirst : first < 2 ^ 64) (smallSecond : second < 2 ^ 64)
    (same : countReply first = countReply second) : first = second := by
  have other (count : Nat) (some_ : count ≠ 0) : countReply 0 ≠ countReply count := by
    intro eq
    rw [countReply, countReply, if_pos rfl, if_neg some_] at eq
    exact ffaError_func _ (congrArg FfaValue.func eq)
  by_cases firstZero : first = 0
  · rw [firstZero] at same ⊢
    by_contra some_
    exact other second (Ne.symm some_) same
  · by_cases secondZero : second = 0
    · rw [secondZero] at same
      exact absurd same.symm (other first firstZero)
    · rw [countReply, countReply, if_neg firstZero, if_neg secondZero] at same
      have counts := congrArg (BitVec.toNat ∘ FfaValue.arg2) same
      simp only [comp_apply, BitVec.toNat_ofNat] at counts
      rwa [Nat.mod_eq_of_lt smallFirst, Nat.mod_eq_of_lt smallSecond] at counts

theorem CountIs.lt (isCount : CountIs ret count) : count < 2 ^ 32 := by
  rw [CountIs] at isCount
  split at isCount
  · rw [← isCount]
    exact BitVec.isLt _
  · omega

theorem collectPartitions_spec (ready : Initialised s vm maxVms vms) (uuid : Uuid) (flags : BitVec 32) :
    ∃ p, collectPartitions maxVms vm.vm.id uuid flags vms = .ok p ∧ p.count = (matching uuid vms).length ∧
      (flags = 0 → p.toList = (matching uuid vms).map (VmEntry.info vm.vm.id uuid)) ∧
      ¬(uuid = 0 ∧ p.count = 0) := by
  have all (null : uuid = 0) : matching uuid vms = vms :=
    List.filter_eq_self.mpr fun entry _ => decide_eq_true (.inl null)
  have positive (null : uuid = 0) : (matching uuid vms).length ≠ 0 := by
    obtain ⟨entry, inside, -⟩ := ready.caller
    rw [all null]
    exact Nat.ne_of_gt (List.length_pos_of_mem inside)
  have room := ready.count
  have small := ready.small
  rw [collectPartitions]
  split
  · next known =>
    have count : vms.length % 2 ^ 16 = (matching uuid vms).length := by
      rw [all known.1]
      exact Nat.mod_eq_of_lt (by omega)
    have same : (Partitions.empty.add vms.length).count = (matching uuid vms).length := by
      rw [← count]
      exact congrArg (· % 2 ^ 16) (Nat.zero_add _)
    refine ⟨_, rfl, same, fun none_ => absurd none_ known.2,
      fun zero => positive zero.1 (same.symm.trans zero.2)⟩
  · obtain ⟨p, collected, count, listed⟩ := collectVms_spec small vm.vm.id uuid _ (p := .empty)
      (show 0 + vms.length ≤ maxVms by omega)
    have same : p.count = (matching uuid vms).length := count.trans (Nat.zero_add _)
    refine ⟨p, collected, same, fun none_ => ?_, fun zero => positive zero.1 (same.symm.trans zero.2)⟩
    rw [listed (decide_eq_false (not_not.mpr none_))]
    rfl

/-- A caller that can receive descriptors receives them. -/
theorem sendVersioned_listed (ready : Initialised s vm maxVms vms) (spmc : SpmcCall → SpmcAnswer)
    (partitions : List PartitionInfo) :
    ∃ ret s', (sendVersionedPartitionInfoDescriptors s vm partitions).run spmc = .ok (ret, s') ∧
    Listed s vm partitions ret s' := by
  rw [sendVersionedPartitionInfoDescriptors]
  split
  · next busy => exact ⟨_, _, rfl, .busy busy⟩
  next free =>
  obtain ⟨answer, acquired⟩ : ∃ answer, (platFfaAcquireReceiverRx s vm).run spmc = .ok answer := by
    rw [platFfaAcquireReceiverRx]
    split
    · exact ⟨_, rfl⟩
    · exact ⟨_, rfl⟩
  rw [Script.run_bind_ok spmc acquired, Script.run_lift, Api.sendVersionedPartitionInfoDescriptors]
  simp only [if_neg free]
  split
  · next refused =>
    rw [Api.platFfaAcquireReceiverRx, Bool.or_eq_false_iff, Bool.not_eq_false',
      decide_eq_false_iff_not] at refused
    exact ⟨_, _, rfl, .notAcquired refused.1 refused.2⟩
  split
  · next long => exact ⟨_, _, rfl, .tooLong long⟩
  next fits =>
  rw [Nat.not_lt] at fits
  have registered : vm.recv ≠ 0 := by
    intro none_
    exact free (decide_eq_true (.inr none_))
  obtain ⟨bytes, stored, content⟩ := storeBytes_spec ready.stage1
    (partitionInfoBytes vm.ffaVersion (fun _ => 0) 0 partitions)
    s.memory.bytes fits fun k bound => ready.buffer registered k (by omega)
  have ran : store s.memory vm.recv (partitionInfoBytes vm.ffaVersion (fun _ => 0) 0 partitions)
      (partitionInfoSize vm.ffaVersion * partitions.length) = .ok { s.memory with bytes } := by
    rw [store, stored]
  refine ⟨_, _, bind_ok_iff.mpr ⟨_, ran, rfl⟩, .listed ?_ content fun addr outside => ?_⟩
  · exact ⟨_, update_self .., rfl, rfl⟩
  · by_contra changed
    obtain ⟨k, bound, here⟩ := (store_writes ready.stage1 fits ran).2 addr changed
    exact outside k bound here

/-- How the two forms of a query begin. -/
theorem partitionInfoGet_run (ready : Initialised s vm maxVms vms) (spmc : SpmcCall → SpmcAnswer)
    (uuid : Uuid) {flags : BitVec 32} (allowed : flags &&& ~~~ffaPartitionCountFlag = 0) :
    ∃ p : Partitions, p.count = (matching uuid vms).length ∧
      (flags = 0 → p.toList = (matching uuid vms).map (VmEntry.info vm.vm.id uuid)) ∧
      (apiFfaPartitionInfoGet s vm maxVms vms uuid flags).run spmc =
        (platFfaPartitionInfoGetForward s maxVms uuid flags p).run spmc >>= fun p =>
          if p.count = 0 then .ok (ffaError .invalidParameters, s)
          else if flags ≠ 0 then .ok ({ func := ffaSuccess32, arg2 := BitVec.ofNat 64 p.count }, s)
          else (sendVersionedPartitionInfoDescriptors s vm p.toList).run spmc := by
  obtain ⟨p, collected, count, listed, counted⟩ := collectPartitions_spec ready uuid flags
  refine ⟨p, count, listed, ?_⟩
  rw [apiFfaPartitionInfoGet, if_neg (not_not.mpr allowed),
    Script.run_bind_ok spmc ((Script.run_lift _ _).trans collected), if_neg counted, Script.run_bind]
  refine congrArg _ (funext fun p => ?_)
  split
  · rfl
  · split
    · rfl
    · rfl

variable (ready : Initialised s vm maxVms vms) (reports : Reports s spmc uuid reported)
include ready reports

theorem partitionInfoGet_counts (room : (matching uuid vms).length < maxVms) :
    (apiFfaPartitionInfoGet s vm maxVms vms uuid ffaPartitionCountFlag).run spmc =
      .ok (countReply ((matching uuid vms).length + accepted maxVms reported.length), s) := by
  obtain ⟨tee, found⟩ := ready.tee
  obtain ⟨p, count, -, ran⟩ := partitionInfoGet_run ready spmc uuid
    (show ffaPartitionCountFlag &&& _ = 0 by decide)
  obtain ⟨q, forwarded, total⟩ := forward_counts ready.small found reports (p := p) (by omega)
  rw [ran, forwarded, ← count, ← total, countReply]
  change (if q.count = 0 then _ else if ffaPartitionCountFlag ≠ 0 then _ else _) = _
  split
  · rfl
  · rfl

theorem partitionInfoGet_lists (room : (matching uuid vms).length < maxVms) (fits : reported.length ≤ maxVms)
    (released : TakesBack spmc reported) :
    ∃ ret s', (apiFfaPartitionInfoGet s vm maxVms vms uuid 0).run spmc = .ok (ret, s') ∧
      Listed s vm (expected vm.vm.id uuid vms reported) ret s' := by
  obtain ⟨tee, found⟩ := ready.tee
  obtain ⟨p, count, listed, ran⟩ := partitionInfoGet_run ready spmc uuid
    (show (0 : BitVec 32) &&& _ = 0 by decide)
  obtain ⟨q, forwarded, all⟩ := forward_lists ready.small found reports (p := p) (by omega) released
  rw [(accepted_eq_iff ready.small).mpr fits, List.take_length, listed rfl] at all
  rw [ran, forwarded]
  have length : q.toList.length = q.count := by
    rw [Partitions.toList, List.length_map, List.length_range]
  change ∃ ret s', (if q.count = 0 then _ else _) = _ ∧
    Listed s vm (expected vm.vm.id uuid vms reported) ret s'
  rw [expected, ← all]
  split
  · next none_ =>
    refine ⟨_, _, rfl, .unknown (List.eq_nil_of_length_eq_zero (length.trans none_))⟩
  · exact sendVersioned_listed ready spmc q.toList

/-- FFA_PARTITION_INFO_GET is exact unless all VMs that may exist have the UUID, the SPMC reports more
partitions than this number, or the SPMC does not take back the buffer with its descriptors. -/
theorem partitionInfoGet_exact_iff : Discovers s vm maxVms vms uuid spmc reported ↔
    (matching uuid vms).length < maxVms ∧ reported.length ≤ maxVms ∧ TakesBack spmc reported := by
  obtain ⟨tee, found⟩ := ready.tee
  have total : (expected vm.vm.id uuid vms reported).length = (matching uuid vms).length +
      reported.length := by
    rw [expected, List.length_append, List.length_map]
  constructor
  · rintro ⟨counts, ret, s', lists, -⟩
    have room : (matching uuid vms).length < maxVms := by
      by_contra full
      obtain ⟨p, count, -, returned⟩ := partitionInfoGet_run ready spmc uuid
        (show ffaPartitionCountFlag &&& _ = 0 by decide)
      rw [returned, platFfaPartitionInfoGetForward, found] at counts
      simp only [if_pos (show maxVms ≤ p.count by omega)] at counts
      cases counts
    have fits : reported.length ≤ maxVms := by
      rw [partitionInfoGet_counts ready reports room, total] at counts
      have reply := congrArg Prod.fst (Except.ok.inj counts)
      have bound := reports.counted.lt
      have least := accepted_le maxVms reported.length
      have small := ready.small
      have same := countReply_inj (by omega) (by omega) reply
      exact (accepted_eq_iff small).mp (by omega)
    refine ⟨room, fits, fun some_ => ?_⟩
    by_contra kept
    obtain ⟨p, count, -, returned⟩ := partitionInfoGet_run ready spmc uuid
      (show (0 : BitVec 32) &&& _ = 0 by decide)
    rw [returned, forward_panics ready.small found reports (by omega) some_ fits kept] at lists
    cases lists
  · rintro ⟨room, fits, released⟩
    refine ⟨?_, partitionInfoGet_lists ready reports room fits released⟩
    rw [partitionInfoGet_counts ready reports room, (accepted_eq_iff ready.small).mpr fits, total]

end Answers

/-! ## A hypervisor with one VM -/

def primaryVm (m : MmConfig) : Endpoint m := { Endpoint.new (emptyVm m 1 .empty) with recv := 0x2000 }

def singleVm (m : MmConfig) (teeEnabled : Bool) (memory : HypMemory m) : Manager m :=
  { Manager.ofPair (primaryVm m) (.new (emptyVm m hfTeeVmId .empty)) memory [] with teeEnabled }

def primaryEntry (m : MmConfig) : VmEntry m := ⟨primaryVm m, 1, 0x77⟩

/-- An SPMC that reports a number of partitions with empty descriptors. -/
def spmcReports (count : BitVec 64) :
    SpmcCall → SpmcAnswer := fun _ => ⟨{ func := ffaSuccess32, arg2 := count }, fun _ => 0⟩

/-- The only VM and two secure partitions are discovered if there may be two VMs. -/
theorem partitionInfoGet_exact_single : ∃ memory : HypMemory smallConfig,
    Discovers (singleVm smallConfig true memory) (primaryVm smallConfig)
      2 [primaryEntry smallConfig] 0 (spmcReports 2)
      (List.replicate 2 ⟨0, 0, 0, 0⟩) := by
  obtain ⟨t, wf, writable⟩ := exists_writable smallConfig 0x2000 0x3000 rfl rfl (by decide) (by decide)
  have stores (k : Nat) (bound : k < hfMailboxSize) : (storeTarget t (0x2000 + k)).isSome := by
    rw [hfMailboxSize] at bound
    rw [writable (0x2000 + k) (by omega) (by omega)]
    rfl
  have ready : Initialised (singleVm smallConfig true ⟨t, fun _ => 0⟩) (primaryVm smallConfig)
      2 [primaryEntry smallConfig] :=
    ⟨by decide, wf, by decide, ⟨_, List.mem_singleton_self _, rfl⟩, ⟨_, rfl⟩, fun _ => stores⟩
  have reports : Reports (singleVm smallConfig true ⟨t, fun _ => 0⟩) (spmcReports 2)
      0 (List.replicate 2 ⟨0, 0, 0, 0⟩) :=
    ⟨fun off => Bool.noConfusion off, rfl, rfl, rfl⟩
  exact ⟨⟨t, fun _ => 0⟩, (partitionInfoGet_exact_iff ready reports).mpr ⟨by decide, by decide, fun _ => rfl⟩⟩

/-- The query for all partitions panics if there may be no further VM, and three secure partitions
are left out if there may be only two VMs. -/
theorem partitionInfoGet_inexact :
    Partial.stops ((apiFfaPartitionInfoGet
      (singleVm smallConfig false ⟨emptyTable smallConfig .stage1, fun _ => 0⟩)
      (primaryVm smallConfig) 1 [primaryEntry smallConfig] 0 ffaPartitionCountFlag).run
        (spmcReports 0)) .partitionCount = true ∧
    ¬Discovers (singleVm smallConfig true ⟨emptyTable smallConfig .stage1, fun _ => 0⟩)
    (primaryVm smallConfig) 2
      [primaryEntry smallConfig] 0 (spmcReports 3) (List.replicate 3 ⟨0, 0, 0, 0⟩) := by
  refine ⟨by decide +kernel, fun discovers => ?_⟩
  have evaluated : Partial.returns ((apiFfaPartitionInfoGet
      (singleVm smallConfig true ⟨emptyTable smallConfig .stage1, fun _ => 0⟩)
      (primaryVm smallConfig) 2 [primaryEntry smallConfig] 0 ffaPartitionCountFlag).run (spmcReports 3))
      (fun r => decide (r.1.arg2 = 1)) = true := by decide +kernel
  obtain ⟨r, returned, one⟩ := returns_iff.mp evaluated
  cases discovers.counts.symm.trans returned
  exact absurd (of_decide_eq_true one) (by decide)

end Hafnium.Api.Discovery
