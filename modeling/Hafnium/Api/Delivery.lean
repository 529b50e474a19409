import Hafnium.Api.NotificationSpec
import Hafnium.Lib.History

/-! # Delivery of notifications

Every set notification is returned exactly once, in any run of calls to the two partition managers,
as long as no sender has the invalid identifier and no request that also takes partition
notifications fails to get those of the framework.
-/

namespace Hafnium.Api

open Mm Ffa History Partial

inductive Side
  | hypervisor
  | spmc
deriving DecidableEq, Repr

/-- A hypervisor and an SPMC. -/
structure Deployment where
  hypervisor : NotificationConfig
  spmc : NotificationConfig
  isHypervisor : hypervisor.world.features.secureWorld = false
  isSpmc : spmc.world.features.secureWorld = true

structure NotificationWorld where
  hypervisor : NotificationManager
  spmc : NotificationManager

def NotificationWorld.manager (w : NotificationWorld) : Side → NotificationManager
  | .hypervisor => w.hypervisor
  | .spmc => w.spmc

namespace Deployment

variable (d : Deployment)

/-- A call to the SPMC. It does not pass calls on. -/
def spmcRun (cpu : Nat) (caller : VmId) (call : NotificationCall) (s : NotificationManager) :
    Run (NotificationAnswer × NotificationManager) := do
  let (answer, s, _) ← call.run d.spmc (fun _ other => .ok (.error .notSupported, other))
      caller s ⟨fun _ => none, 0⟩ cpu
  .ok (answer, s)

/-- The calls that the hypervisor passes on reach the SPMC or fail. -/
def relayTo (cpu : Nat) (fails : NotificationCall → Option FfaError) : Relay := fun call s =>
  match fails call with
  | some error => .ok (.error error, s)
  | none => d.spmcRun cpu hfHypervisorVmId call s

/-- Whether a sender is a VM. -/
def isVmSender (sender : VmId) : Bool := platFfaIsVmId d.spmc.world sender

/-- Where a notification that is set through a partition manager is kept. -/
def keeper (side : Side) (receiver : VmId) : Side :=
  if side = .hypervisor ∧ vmIdIsCurrentWorld d.hypervisor.world receiver then .hypervisor else .spmc

end Deployment

/-- A notification of a receiver, as kept by one of the partition managers. -/
structure NotificationBit where
  side : Side
  receiver : VmId
  isFromVm : Bool
  slot : Slot
  index : Nat

def NotificationWorld.Pending (w : NotificationWorld) (bit : NotificationBit) : Prop :=
  (w.manager bit.side).Pending bit.receiver bit.isFromVm bit.slot bit.index

/-- A call and its answer. -/
structure NotificationEvent where
  before : NotificationWorld
  side : Side
  caller : VmId
  call : NotificationCall
  answer : NotificationAnswer

namespace NotificationEvent

variable (d : Deployment) (event : NotificationEvent) (bit : NotificationBit)

/-- The sender that a notification is bound to sets it. The hypervisor sets on behalf of its VMs. -/
def Sets : Prop :=
  event.answer = .success ∧ d.keeper event.side bit.receiver = bit.side ∧ ∃ sender flags bitmap n,
    event.call = .set sender bit.receiver flags bitmap ∧ bitmap.getLsbD bit.index = true ∧
      setSlot flags = bit.slot ∧ d.isVmSender sender = bit.isFromVm ∧
      (event.before.manager bit.side).get bit.receiver bit.isFromVm = some n ∧
    n.bindingsSenderId bit.index = sender ∧ sender ≠ hfInvalidVmId ∧
    (event.caller = sender ∨ event.side = .spmc ∧ event.caller = hfHypervisorVmId ∧
      d.isVmSender sender = true)

/-- A successful request selects the class of the notification, and its vCPU. -/
def Selects : Prop :=
  (if event.side = .hypervisor ∧ bit.isFromVm = true then .hypervisor else .spmc) = bit.side ∧
  ∃ fromSp fromVm framework vcpuId flags, event.answer = .bitmaps fromSp fromVm framework ∧
    event.call = .get bit.receiver vcpuId flags ∧ asks flags bit.isFromVm = true ∧
    (bit.slot = .global ∨ bit.slot = .vcpu vcpuId.toNat)

/-- The answer to a request holds the notification: a global one, or one of the vCPU, as it is bound. -/
def Returns : Prop :=
  event.Selects bit ∧ (∃ fromSp fromVm framework, event.answer = .bitmaps fromSp fromVm framework ∧
    (if bit.isFromVm then fromVm else fromSp).getLsbD bit.index = true) ∧
  ∃ n, (event.before.manager bit.side).get bit.receiver bit.isFromVm = some n ∧
    n.bindingsPerVcpu.getLsbD bit.index = bit.slot.perVcpu

end NotificationEvent

/-- A call of a VM to the hypervisor, or of a secure partition or the normal world to the SPMC. -/
inductive NotificationStep (d : Deployment)
    (meets : NotificationWorld → Side → (NotificationCall → Option FfaError) → Nat → NotificationCall → Prop)
    (w : NotificationWorld) :
    NotificationEvent → NotificationWorld → Prop
  | hypervisor {caller : VmId} {cpu : Nat} {fails : NotificationCall → Option FfaError}
      {call : NotificationCall}
      {answer : NotificationAnswer} {s' other' : NotificationManager}
        (allowed : meets w .hypervisor fails cpu call)
      (returned : call.run d.hypervisor (d.relayTo cpu fails) caller w.hypervisor w.spmc cpu =
        .ok (answer, s', other')) :
      NotificationStep d meets w ⟨w, .hypervisor, caller, call, answer⟩ ⟨s', other'⟩
  | spmc {caller : VmId} {cpu : Nat} {call : NotificationCall} {answer : NotificationAnswer}
      {s' : NotificationManager}
      (allowed : meets w .spmc (fun _ => none) cpu call)
        (returned : d.spmcRun cpu caller call w.spmc = .ok (answer, s')) :
      NotificationStep d meets w ⟨w, .spmc, caller, call, answer⟩ ⟨w.hypervisor, s'⟩

/-- No sender has the invalid identifier. A request to the hypervisor that takes notifications of
partitions and asks for those of the framework is not refused by the SPMC once it has taken them. -/
def Deployment.Safe (d : Deployment) (w : NotificationWorld) (side : Side)
    (fails : NotificationCall → Option FfaError) (cpu : Nat) :
    NotificationCall → Prop
  | .set sender _ _ _ => sender ≠ hfInvalidVmId
  | .get receiver vcpuId flags => side = .hypervisor → (asks flags true = true ∨ asks flags false = true) →
      (asksFramework flags && d.hypervisor.ffaTeeEnabled) = true → ∀ result spmc₁ error spmc₂,
        relayGet (d.relayTo cpu fails) w.spmc (asks flags false)
          receiver vcpuId ffaNotificationFlagBitmapSp = .ok (result, spmc₁) →
        d.relayTo cpu fails (.get receiver vcpuId ffaNotificationFlagBitmapSpm)
          spmc₁ ≠ .ok (.error error, spmc₂)
  | _ => True

/-! ## Exact steps -/

def NotificationWorld.Consistent (d : Deployment) (w : NotificationWorld) : Prop :=
  w.hypervisor.Consistent d.hypervisor.maxCpus ∧ w.spmc.Consistent d.spmc.maxCpus

/-- A request of which this notification is part was answered. -/
def Reads (call : NotificationCall) (answer : NotificationAnswer) (id : VmId) (isFromVm : Bool)
    (slot : Slot) : Prop :=
  ∃ fromSp fromVm framework vcpuId flags, answer = .bitmaps fromSp fromVm framework ∧
    call = .get id vcpuId flags ∧
    asks flags isFromVm = true ∧ (slot = .global ∨ slot = .vcpu vcpuId.toNat)

/-- The answer to a request holds what is pending. -/
def Answers (s : NotificationManager) (call : NotificationCall) (answer : NotificationAnswer)
    (isFromVm : Bool) : Prop :=
  ∀ fromSp fromVm framework id vcpuId flags, answer = .bitmaps fromSp fromVm framework →
    call = .get id vcpuId flags → asks flags isFromVm = true → ∃ n, s.get id isFromVm = some n ∧
      (if isFromVm then fromVm else fromSp) = n.visible vcpuId

variable {receiver id caller : VmId} {vcpuId : BitVec 16} {flags : BitVec 32}
  {framework : BitVec 64} {isFromVm : Bool} {d : Deployment} {call : NotificationCall}
  {answer : NotificationAnswer} {event : NotificationEvent} {w w' : NotificationWorld} {side : Side}
  {fails : NotificationCall → Option FfaError}

theorem reads_iff {fromSp fromVm : BitVec 64}
    {slot : Slot} : Reads (.get receiver vcpuId flags) (.bitmaps fromSp fromVm framework) id isFromVm slot ↔
      id = receiver ∧ asks flags isFromVm = true ∧ (slot = .global ∨ slot = .vcpu vcpuId.toNat) := by
  constructor
  · rintro ⟨_, _, _, _, _, -, ⟨⟩, asked, inSlot⟩
    exact ⟨rfl, asked, inSlot⟩
  · rintro ⟨rfl, asked, inSlot⟩
    exact ⟨_, _, _, _, _, rfl, rfl, asked, inSlot⟩

section Step

variable {s s' : NotificationManager} {cpu : Nat}

/-- The two worlds divide the identifiers. -/
theorem Deployment.current_spmc (d : Deployment) (id : VmId) :
    vmIdIsCurrentWorld d.spmc.world id = !vmIdIsCurrentWorld d.hypervisor.world id := by
  have split : id &&& hfVmIdWorldMask = if id.getLsbD 15 then 0x8000 else 0 := BitVec.and_twoPow id 15
  simp only [vmIdIsCurrentWorld, hfOtherWorldId, d.isSpmc, d.isHypervisor, split]
  cases id.getLsbD 15 <;> decide

theorem Deployment.isVmSender_eq (d : Deployment) : platFfaIsVmId d.hypervisor.world = d.isVmSender := by
  funext id
  rw [isVmSender, platFfaIsVmId, platFfaIsVmId, if_pos d.isSpmc,
    if_neg (by rw [d.isHypervisor]; decide), d.current_spmc, Bool.not_not]

theorem Deployment.spmcRun_ok (ran : d.spmcRun cpu caller call s = .ok (answer, s')) :
    ∃ other', call.run d.spmc (fun _ other => .ok (.error .notSupported, other))
      caller s ⟨fun _ => none, 0⟩ cpu = .ok (answer, s', other') := by
  simp only [spmcRun, bind_ok_iff] at ran
  obtain ⟨⟨answer₁, s₁, other₁⟩, run, ⟨⟩⟩ := ran
  exact ⟨other₁, run⟩

theorem NotificationManager.Takes.answers {vm : VmNotifications} (held : s.vms id = some vm)
    (isFromVm : Bool) :
    Answers s (.get id vcpuId flags) (.bitmaps (vm.bits vcpuId (asks flags) false)
      (vm.bits vcpuId (asks flags) true) framework)
      isFromVm := by
  rintro fromSp fromVm framework' id' vcpuId' flags' ⟨⟩ ⟨⟩ asked
  refine ⟨_, NotificationManager.get_of_held held isFromVm, ?_⟩
  cases isFromVm with
  | true => exact if_pos asked
  | false => exact if_pos asked

/-- A call to the SPMC is exact. -/
theorem Deployment.spmcRun_exact (consistent : s.Consistent d.spmc.maxCpus)
    (ran : d.spmcRun cpu caller call s = .ok (answer, s')) :
    s'.Consistent d.spmc.maxCpus ∧ (∀ isFromVm, Answers s call answer isFromVm) ∧ ∀ id isFromVm slot i,
      s'.Pending id isFromVm slot i ↔ SetBy d.isVmSender s call answer id isFromVm slot i ∨
        s.Pending id isFromVm slot i ∧ ¬Reads call answer id isFromVm slot := by
  obtain ⟨other', run⟩ := spmcRun_ok ran
  by_cases isGet : ∃ id vcpuId flags, call = .get id vcpuId flags
  · obtain ⟨receiver, vcpuId, flags, rfl⟩ := isGet
    have notSet {answer id isFromVm slot i} : ¬SetBy d.isVmSender s (.get receiver vcpuId flags)
        answer id isFromVm slot i :=
      fun ⟨_, _, _, _, _, absurd, _⟩ => by cases absurd
    rcases apiFfaNotificationGet_spmc d.isSpmc _ run with ⟨error, isError, same⟩ | ⟨vm, framework,
        held, isAnswer, takes⟩
    · obtain rfl : answer = .error error := isError
      obtain rfl : s' = s := same
      refine ⟨consistent, fun _ => nofun, fun id isFromVm slot i => ?_⟩
      have notRead : ¬Reads (.get receiver vcpuId flags) (.error error) id isFromVm slot :=
        fun ⟨_, _, _, _, _, absurd, _⟩ => by cases absurd
      rw [or_iff_right notSet, and_iff_left notRead]
    · obtain rfl : answer = .bitmaps _ _ _ := isAnswer
      obtain ⟨consistent', pending⟩ := takes.exact_ consistent
      refine ⟨consistent', NotificationManager.Takes.answers held, fun id isFromVm slot i => ?_⟩
      rw [or_iff_right notSet, reads_iff]
      exact pending id isFromVm slot i
  · have notGet (id vcpuId flags) : call ≠ .get id vcpuId flags := fun same => isGet ⟨id, vcpuId, flags, same⟩
    rcases NotificationCall.run_effect notGet run with ⟨-, effect, -⟩ | ⟨absurd, -⟩
    · obtain ⟨consistent', pending⟩ := effect.exact_ consistent
      refine ⟨consistent', fun isFromVm _ _ _ id vcpuId flags _ isGet =>
        absurd isGet (notGet id vcpuId flags), fun id isFromVm slot i => ?_⟩
      have notRead : ¬Reads call answer id isFromVm slot :=
        fun ⟨_, _, _, vcpuId, flags, _, isGet, _⟩ => notGet id vcpuId flags isGet
      rw [pending, and_iff_left notRead]
      rfl
    · rw [d.isSpmc] at absurd
      cases absurd

/-- What a step does to the pending notifications. -/
structure NotificationEvent.Exact (d : Deployment) (event : NotificationEvent)
    (w' : NotificationWorld) : Prop where
  consistent : w'.Consistent d
  pending : ∀ bit, w'.Pending bit ↔ event.Sets d bit ∨ event.before.Pending bit ∧ ¬event.Selects bit
  returns : ∀ bit, event.Returns bit ↔ event.Selects bit ∧ event.before.Pending bit

variable {maxCpus : Nat} {bit : NotificationBit}

/-- A bit of an answer that says what is pending. -/
theorem NotificationEvent.returns_iff (consistent : (event.before.manager bit.side).Consistent maxCpus)
    (answers : (if event.side = .hypervisor ∧ bit.isFromVm = true then .hypervisor else .spmc) = bit.side →
      Answers (event.before.manager bit.side) event.call event.answer bit.isFromVm) :
    event.Returns bit ↔ event.Selects bit ∧ event.before.Pending bit := by
  refine and_congr_right fun ⟨here, fromSp, fromVm, framework, vcpuId, flags, answered, called,
    asked, inSlot⟩ => ?_
  obtain ⟨n, held, bits⟩ := answers here fromSp fromVm framework bit.receiver vcpuId flags answered
    called asked
  rw [NotificationWorld.Pending, NotificationManager.pending_of_held held,
    ← visible_iff (consistent _ _ _ held) inSlot, ← bits, answered]
  constructor
  · rintro ⟨⟨_, _, _, ⟨⟩, set⟩, n', held', kind⟩
    cases held.symm.trans held'
    exact ⟨set, kind⟩
  · rintro ⟨set, kind⟩
    exact ⟨⟨_, _, _, rfl, set⟩, n, held, kind⟩

section Exact

/-- A set call that is kept where the notification is. -/
theorem NotificationEvent.sets_iff (keeper : ∀ sender flags bitmap,
      event.call = .set sender bit.receiver flags bitmap →
      event.answer = .success → d.keeper event.side bit.receiver = bit.side)
    (by_ : ∀ sender receiver flags bitmap, event.call = .set sender receiver flags bitmap →
      event.answer = .success →
      sender ≠ hfInvalidVmId ∧ (event.caller = sender ∨ event.side = .spmc ∧
      event.caller = hfHypervisorVmId ∧ d.isVmSender sender = true)) :
    event.Sets d bit ↔
      SetBy d.isVmSender (event.before.manager bit.side)
        event.call event.answer bit.receiver bit.isFromVm bit.slot bit.index := by
  constructor
  · rintro ⟨success, -, sender, flags, bitmap, n, called, set, slot, class_, held, bound, -⟩
    exact ⟨success, sender, flags, bitmap, n, called, set, slot, class_, held, bound⟩
  · rintro ⟨success, sender, flags, bitmap, n, called, set, slot, class_, held, bound⟩
    obtain ⟨named, made⟩ := by_ _ _ _ _ called success
    exact ⟨success, keeper _ _ _ called success, sender, flags, bitmap, n, called, set, slot,
      class_, held, bound, named, made⟩

/-- A call that no partition manager serves. -/
theorem NotificationEvent.exact_refused {error : FfaError} (consistent : w'.Consistent d)
    (same : ∀ side id isFromVm, (w'.manager side).get id isFromVm = (w.manager side).get id isFromVm) :
    (⟨w, side, caller, call, .error error⟩ : NotificationEvent).Exact d w' := by
  have notSelected (bit : NotificationBit) :
      ¬(⟨w, side, caller, call, .error error⟩ : NotificationEvent).Selects bit :=
    fun ⟨_, _, _, _, _, _, absurd, _⟩ => by cases absurd
  refine ⟨consistent, fun bit => ?_, fun bit => ⟨fun ran => absurd ran.1 (notSelected bit),
    fun both => absurd both.1 (notSelected bit)⟩⟩
  have notSet : ¬(⟨w, side, caller, call, .error error⟩ : NotificationEvent).Sets d bit :=
    fun absurd => by cases absurd.1
  rw [or_iff_right notSet, and_iff_left (notSelected bit), NotificationWorld.Pending,
    NotificationManager.Pending, same]
  rfl

/-- A call to the SPMC. -/
theorem NotificationEvent.exact_spmc (consistent : w.Consistent d)
    (named : ∀ sender receiver flags bitmap, call = .set sender receiver flags bitmap →
      sender ≠ hfInvalidVmId) (ran : d.spmcRun cpu caller call w.spmc = .ok (answer, s')) :
    (⟨w, .spmc, caller, call, answer⟩ : NotificationEvent).Exact d ⟨w.hypervisor, s'⟩ := by
  obtain ⟨consistent', answers, pending⟩ := d.spmcRun_exact consistent.2 ran
  refine ⟨⟨consistent.1, consistent'⟩, fun bit => ?_, fun bit => ?_⟩
  · rcases bit with ⟨side, receiver, isFromVm, slot, index⟩
    cases side with
    | hypervisor =>
      refine ⟨fun held => .inr ⟨held, fun selected => by cases selected.1⟩, ?_⟩
      rintro (set | held)
      · cases set.2.1
      · exact held.1
    | spmc =>
      rw [sets_iff (fun _ _ _ _ _ => rfl) fun sender receiver flags bitmap called success => ?_]
      · refine (pending receiver isFromVm slot index).trans
          (or_congr_right (and_congr_right fun _ => not_congr ?_))
        exact ⟨fun read => ⟨rfl, read⟩, And.right⟩
      · refine ⟨named _ _ _ _ called, ?_⟩
        subst called success
        obtain ⟨other', run⟩ := Deployment.spmcRun_ok ran
        rcases NotificationCall.run_set run with same | ⟨-, hypervisor, foreign⟩
        · exact .inl same
        · refine .inr ⟨rfl, hypervisor, ?_⟩
          rw [Deployment.isVmSender, platFfaIsVmId, if_pos d.isSpmc, foreign]
          rfl
  · rcases bit with ⟨side, receiver, isFromVm, slot, index⟩
    cases side with
    | hypervisor => exact returns_iff consistent.1 (by simp)
    | spmc => exact returns_iff consistent.2 fun _ => answers isFromVm

variable {other other' : NotificationManager}

theorem Deployment.relayTo_ok (ran : d.relayTo cpu fails call s = .ok (answer, s')) :
    (∃ error, answer = .error error ∧ s' = s) ∨ d.spmcRun cpu hfHypervisorVmId call s = .ok (answer, s') := by
  rw [relayTo] at ran
  split at ran
  · cases ran
    exact .inl ⟨_, rfl, rfl⟩
  · exact .inr ran

/-- A call of a VM other than a request. -/
theorem NotificationEvent.exact_hypervisor (consistent : w.Consistent d)
    (notGet : ∀ id vcpuId flags, call ≠ .get id vcpuId flags)
    (named : ∀ sender receiver flags bitmap, call = .set sender receiver flags bitmap →
      sender ≠ hfInvalidVmId)
    (ran : call.run d.hypervisor (d.relayTo cpu fails) caller w.hypervisor w.spmc cpu = .ok (answer,
      s', other')) :
    (⟨w, .hypervisor, caller, call, answer⟩ : NotificationEvent).Exact d ⟨s', other'⟩ := by
  have by_ : ∀ sender receiver flags bitmap, call = .set sender receiver flags bitmap → answer = .success →
      sender ≠ hfInvalidVmId ∧ (caller = sender ∨ Side.hypervisor = .spmc ∧
        caller = hfHypervisorVmId ∧ d.isVmSender sender = true) := by
    rintro sender receiver flags bitmap rfl rfl
    refine ⟨named _ _ _ _ rfl, .inl ?_⟩
    rcases NotificationCall.run_set ran with same | ⟨absurd, -⟩
    · exact same
    · rw [d.isHypervisor] at absurd
      cases absurd
  have notSelected (bit : NotificationBit) :
      ¬(⟨w, .hypervisor, caller, call, answer⟩ : NotificationEvent).Selects bit :=
    fun ⟨_, _, _, _, vcpuId, flags, _, called, _⟩ => notGet _ _ _ called
  have returns (bit : NotificationBit) :
      (⟨w, .hypervisor, caller, call, answer⟩ : NotificationEvent).Returns bit ↔
      (⟨w, .hypervisor, caller, call, answer⟩ : NotificationEvent).Selects bit ∧ w.Pending bit :=
    ⟨fun ran => absurd ran.1 (notSelected bit), fun both => absurd both.1 (notSelected bit)⟩
  rcases NotificationCall.run_effect notGet ran with ⟨rfl, effect, here⟩ | ⟨-, rfl, relayed, foreign⟩
  · -- The hypervisor keeps what is set for VMs.
    rw [d.isVmSender_eq] at effect
    obtain ⟨consistent', pending⟩ := effect.exact_ consistent.1
    refine ⟨⟨consistent', consistent.2⟩, fun bit => ?_, returns⟩
    rw [and_iff_left (notSelected bit)]
    have keeper (sender flags bitmap) (called : call = .set sender bit.receiver flags bitmap)
        (success : answer = .success) :
        d.keeper .hypervisor bit.receiver = .hypervisor :=
      if_pos ⟨rfl, here _ _ _ _ called d.isHypervisor success⟩
    rcases bit with ⟨side, receiver, isFromVm, slot, index⟩
    cases side with
    | hypervisor =>
      rw [sets_iff keeper by_]
      exact pending receiver isFromVm slot index
    | spmc =>
      refine ⟨.inr, ?_⟩
      rintro (⟨success, kept, sender, flags, bitmap, n, called, -⟩ | held)
      · cases (keeper _ _ _ called success).symm.trans kept
      · exact held
  · rcases d.relayTo_ok relayed with ⟨error, rfl, rfl⟩ | run
    · exact exact_refused consistent fun _ _ _ => rfl
    · obtain ⟨consistent', -, pending⟩ := d.spmcRun_exact consistent.2 run
      refine ⟨⟨consistent.1, consistent'⟩, fun bit => ?_, returns⟩
      rw [and_iff_left (notSelected bit)]
      have keeper (sender flags bitmap) (called : call = .set sender bit.receiver flags bitmap)
          (success : answer = .success) :
          d.keeper .hypervisor bit.receiver = .spmc := by
        refine if_neg fun both => ?_
        rw [foreign _ _ _ _ called] at both
        cases both.2
      rcases bit with ⟨side, receiver, isFromVm, slot, index⟩
      cases side with
      | hypervisor =>
        refine ⟨.inr, ?_⟩
        rintro (⟨success, kept, sender, flags, bitmap, n, called, -⟩ | held)
        · cases (keeper _ _ _ called success).symm.trans kept
        · exact held
      | spmc =>
        rw [sets_iff keeper by_]
        have notRead : ¬Reads call answer receiver isFromVm slot :=
          fun ⟨_, _, _, _, _, _, called, _⟩ => notGet _ _ _ called
        refine (pending receiver isFromVm slot index).trans (or_congr_right ?_)
        rw [and_iff_left notRead]
        rfl

/-- What the hypervisor asks the SPMC for. -/
theorem relayGet_ok {asked : Bool} {result : Except FfaError (BitVec 64 × BitVec 64)}
    (ran : relayGet (d.relayTo cpu fails) s asked receiver vcpuId flags = .ok (result, s')) :
    (∃ error, result = .error error ∧ asked = true ∧ s' = s ∧
      d.relayTo cpu fails (.get receiver vcpuId flags) s = .ok (.error error, s')) ∨
    ∃ fromSp framework, result = .ok (fromSp, framework) ∧
    s.Takes receiver vcpuId (fun isFromVm => asked && asks flags isFromVm) s' ∧
      (asked = true → asks flags false = true → ∃ n, s.get receiver false = some n ∧
      fromSp = n.visible vcpuId) := by
  rw [relayGet] at ran
  split at ran
  · next set =>
    simp only [bind_ok_iff] at ran
    obtain ⟨⟨answer, s₁⟩, relayed, ran⟩ := ran
    rcases d.relayTo_ok relayed with ⟨error, rfl, rfl⟩ | run
    · cases ran
      exact .inl ⟨error, rfl, set, rfl, relayed⟩
    · obtain ⟨other', run⟩ := Deployment.spmcRun_ok run
      rcases apiFfaNotificationGet_spmc d.isSpmc _ run with ⟨error, rfl, same⟩ | ⟨vm, framework,
          held, rfl, takes⟩
      · cases ran
        exact .inl ⟨error, rfl, set, same, relayed⟩
      · cases ran
        refine .inr ⟨_, framework, rfl, ?_,
          fun _ asked => ⟨_, NotificationManager.get_of_held held false, if_pos asked⟩⟩
        rw [set]
        simpa only [Bool.true_and] using takes
  · next unset =>
    cases ran
    refine .inr ⟨0, 0, rfl, fun id isFromVm => ?_, fun set => absurd set unset⟩
    rw [if_neg]
    rintro ⟨-, both⟩
    exact unset (Bool.and_eq_true _ _ ▸ both).1

theorem NotificationManager.Takes.same {asked : Bool → Bool} (takes : s.Takes id vcpuId asked s')
    (unasked : ∀ isFromVm, asked isFromVm = false) (id' : VmId) (isFromVm : Bool) :
    s'.get id' isFromVm = s.get id' isFromVm := by
  rw [takes, if_neg]
  rw [unasked]
  exact fun both => Bool.false_ne_true both.2

theorem NotificationManager.Consistent.of_same (consistent : s.Consistent maxCpus)
    (same : ∀ id isFromVm, s'.get id isFromVm = s.get id isFromVm) : s'.Consistent maxCpus :=
  fun id isFromVm n held => consistent id isFromVm n ((same id isFromVm).symm.trans held)

theorem asks_sp (isFromVm : Bool) :
    asks ffaNotificationFlagBitmapSp isFromVm = !isFromVm := by cases isFromVm <;> decide

theorem asks_spm (isFromVm : Bool) :
    asks ffaNotificationFlagBitmapSpm isFromVm = false := by cases isFromVm <;> decide

/-- A request of a VM. The hypervisor answers from its own bitmap of VMs and that of the SPMC. -/
theorem NotificationEvent.exact_hypervisor_get (consistent : w.Consistent d)
    (safe : d.Safe w .hypervisor fails cpu (.get receiver vcpuId flags)) :
    Post (apiFfaNotificationGet d.hypervisor (d.relayTo cpu fails)
      caller w.hypervisor w.spmc cpu receiver vcpuId flags) fun r =>
      (⟨w, .hypervisor, caller, .get receiver vcpuId flags, r.1⟩ : NotificationEvent).Exact d
        ⟨r.2.1, r.2.2⟩ := by
  -- An error that leaves the bitmaps as they are.
  have refused {error : FfaError} {s₁ other₁ : NotificationManager}
      (same : ∀ id isFromVm, s₁.get id isFromVm = w.hypervisor.get id isFromVm)
      (otherSame : ∀ id isFromVm, other₁.get id isFromVm = w.spmc.get id isFromVm) :
      (⟨w, .hypervisor, caller, .get receiver vcpuId flags, .error error⟩ : NotificationEvent).Exact
        d ⟨s₁, other₁⟩ :=
    exact_refused ⟨consistent.1.of_same same, consistent.2.of_same otherSame⟩ fun side =>
      Side.rec same otherSame side
  refine .guard (refused (fun _ _ => rfl) fun _ _ => rfl) fun _ =>
    .guard (refused (fun _ _ => rfl) fun _ _ => rfl) fun _ => ?_
  split
  · exact .error
  next vm found =>
  have held := NotificationManager.find_some found
  refine .guard (refused (fun _ _ => rfl) fun _ _ => rfl) fun _ =>
    .bind (platFfaNotificationsGetFromSp_hypervisor d.isHypervisor) ?_
  rintro ⟨_, _, counter₁, other₁⟩ ⟨rfl, result, relayed, rfl⟩
  rcases relayGet_ok relayed with ⟨error, rfl, -, same, -⟩ | ⟨spBits, _, rfl, spTakes, spVisible⟩
  · have nothing : w.hypervisor.Takes receiver vcpuId (fun _ => false)
        (w.hypervisor.write receiver _ counter₁) :=
      NotificationManager.takes_write held (fun _ => rfl) counter₁
    exact .ok (refused (nothing.same fun _ => rfl) fun _ _ => by rw [same])
  refine .bind takePending_ok ?_
  rintro ⟨_, vm₂, counter₂⟩ ⟨rfl, afterVm⟩
  refine .bind (platFfaNotificationsGetFrameworkNotifications_hypervisor d.isHypervisor) ?_
  rintro ⟨_, vm₃, counter₃, other₃⟩ ⟨afterFramework, result, frameworkRelayed, outcome⟩
  have spTakes : w.spmc.Takes receiver vcpuId
      (fun isFromVm => asks flags false && asks ffaNotificationFlagBitmapSp isFromVm) other₁ := spTakes
  have vmTakes : w.hypervisor.Takes receiver vcpuId (fun isFromVm => asks flags true && isFromVm)
      (w.hypervisor.write receiver vm₃ counter₃) := by
    refine NotificationManager.takes_write held (fun isFromVm => ?_) counter₃
    rw [afterFramework, afterVm]
    simp only [Bool.and_eq_true]
    rfl
  rcases relayGet_ok frameworkRelayed with ⟨error, rfl, asked, same, unanswered⟩ | ⟨_, _, rfl,
      frameworkTakes, -⟩
  · -- With the framework refused, nothing was asked of the partitions.
    have unasked : ¬(asks flags true = true ∨ asks flags false = true) :=
      fun taken => safe rfl taken asked _ _ _ _ relayed unanswered
    simp only [not_or, Bool.not_eq_true] at unasked
    obtain ⟨_, ⟨⟩, rfl⟩ | ⟨_, _, ⟨⟩, -⟩ := outcome
    refine .ok (refused (vmTakes.same fun _ => by rw [unasked.1, Bool.false_and]) fun id isFromVm => ?_)
    rw [same]
    exact spTakes.same (fun _ => by rw [unasked.2, Bool.false_and]) id isFromVm
  obtain ⟨_, ⟨⟩, -⟩ | ⟨_, bits, -, rfl⟩ := outcome
  have frameworkSame := frameworkTakes.same fun isFromVm => by rw [asks_spm, Bool.and_false]
  obtain ⟨consistent₁, pending₁⟩ := vmTakes.exact_ consistent.1
  obtain ⟨consistent₂, pending₂⟩ := spTakes.exact_ consistent.2
  refine .ok ⟨⟨consistent₁, consistent₂.of_same frameworkSame⟩, ?_, ?_⟩
  · rintro ⟨side, id, isFromVm, slot, index⟩
    rw [or_iff_right fun ⟨_, _, _, _, _, _, absurd, _⟩ => nomatch absurd]
    cases side with
    | hypervisor =>
      refine (pending₁ id isFromVm slot index).trans
        (and_congr_right fun _ => not_congr (.trans ?_ (and_congr_right fun _ => reads_iff.symm)))
      cases isFromVm <;> simp
    | spmc =>
      rw [NotificationWorld.Pending, NotificationManager.Pending, NotificationWorld.manager, frameworkSame]
      refine (pending₂ id isFromVm slot index).trans
        (and_congr_right fun _ => not_congr (.trans ?_ (and_congr_right fun _ => reads_iff.symm)))
      rw [asks_sp]
      cases isFromVm <;> simp
  · rintro ⟨side, id, isFromVm, slot, index⟩
    cases side with
    | hypervisor =>
      refine returns_iff consistent.1 fun here => ?_
      rintro _ _ _ _ _ _ ⟨⟩ ⟨⟩ asked
      cases isFromVm with
      | false => cases here
      | true => exact ⟨_, NotificationManager.get_of_held held true, if_pos asked⟩
    | spmc =>
      refine returns_iff consistent.2 fun here => ?_
      rintro _ _ _ _ _ _ ⟨⟩ ⟨⟩ asked
      cases isFromVm with
      | true => cases here
      | false => exact spVisible asked (asks_sp false)

end Exact

end Step

/-! ## Runs -/

/-- Every step of a safe run is exact. -/
theorem NotificationStep.exact_ (consistent : w.Consistent d)
    (step : NotificationStep d d.Safe w event w') : event.before = w ∧ event.Exact d w' := by
  cases step with
  | @hypervisor caller cpu fails call answer s' other' safe ran =>
    refine ⟨rfl, ?_⟩
    cases call with
    | get receiver vcpuId flags => exact NotificationEvent.exact_hypervisor_get consistent safe _ ran
    | set sender receiver flags bitmap =>
      exact NotificationEvent.exact_hypervisor consistent nofun
        (fun _ _ _ _ isSet => by cases isSet; exact safe) ran
    | bind sender receiver flags bitmap =>
      exact NotificationEvent.exact_hypervisor consistent nofun nofun ran
    | unbind sender receiver bitmap =>
      exact NotificationEvent.exact_hypervisor consistent nofun nofun ran
  | spmc safe ran =>
    refine ⟨rfl, NotificationEvent.exact_spmc consistent (fun sender receiver flags bitmap isSet => ?_) ran⟩
    subst isSet
    exact safe

theorem NotificationWorld.consistent_of_not_pending {w : NotificationWorld} (d : Deployment)
    (none_ : ∀ bit, ¬w.Pending bit) : w.Consistent d := by
  have empty (side : Side) (maxCpus : Nat) : (w.manager side).Consistent maxCpus :=
    fun id isFromVm n held slot i set => absurd ⟨n, held, set⟩ (none_ ⟨side, id, isFromVm, slot, i⟩)
  exact ⟨empty .hypervisor _, empty .spmc _⟩

/-- In every safe run from a state without pending notifications: a notification is pending if and only
if its bound sender set it and it was not returned since; a request returns it if and only if the
request succeeds, selects it, and it is pending; and a call that fails changes nothing. -/
theorem notification_delivery {d : Deployment} {w w' : NotificationWorld}
    {events : List NotificationEvent} (none_ : ∀ bit, ¬w.Pending bit)
    (runs : Runs (NotificationStep d d.Safe) w events w') (bit : NotificationBit) :
    let SetSince := PutSince (NotificationEvent.Sets d) NotificationEvent.Returns
    (w'.Pending bit ↔ SetSince events bit) ∧ ∀ later event earlier, events = later ++ event :: earlier →
      (event.Returns bit ↔ event.Selects bit ∧ SetSince earlier bit) ∧
      ∀ error, event.answer = .error error → ∀ before after,
        Runs (NotificationStep d d.Safe) w earlier before →
        NotificationStep d d.Safe before event after → (after.Pending bit ↔ before.Pending bit) := by
  have exact_ (w event w') (consistent : NotificationWorld.Consistent d w)
      (step : NotificationStep d d.Safe w event w') :
      NotificationWorld.Consistent d w' ∧ ∀ bit, w'.Pending bit ↔ event.Sets d bit ∨ w.Pending bit ∧
        ¬event.Returns bit := by
    obtain ⟨rfl, here⟩ := step.exact_ consistent
    refine ⟨here.consistent, fun bit => ?_⟩
    rw [here.pending, here.returns]
    refine or_congr_right (and_congr_right fun pending => not_congr ?_)
    exact ⟨fun selected => ⟨selected, pending⟩, And.left⟩
  have consistent := NotificationWorld.consistent_of_not_pending d none_
  refine ⟨(runs.pending_iff consistent none_ exact_).2 bit, ?_⟩
  rintro later event earlier rfl
  obtain ⟨before, after, earlierRuns, step, -⟩ := runs.split
  obtain ⟨consistent', since⟩ := earlierRuns.pending_iff consistent none_ exact_
  obtain ⟨rfl, here⟩ := step.exact_ consistent'
  refine ⟨(here.returns bit).trans (and_congr_right fun _ => since bit),
    fun error failed before after earlierRuns step => ?_⟩
  rw [(exact_ _ _ _ (earlierRuns.pending_iff consistent none_ exact_).1 step).2 bit]
  have notSet : ¬event.Sets d bit := fun set => by cases failed.symm.trans set.1
  have notReturned : ¬event.Returns bit :=
    fun ⟨⟨_, _, _, _, _, _, answered, _⟩, _⟩ => by cases failed.symm.trans answered
  rw [or_iff_right notSet, and_iff_left notReturned]

/-! ## A lost notification -/

/-- A hypervisor and an SPMC on one CPU. -/
def uniprocessor : Deployment where
  hypervisor := ⟨⟨⟨false, false, false⟩, ⟨32, least_supported⟩⟩, 1, true⟩
  spmc := ⟨⟨⟨false, true, false⟩, ⟨32, least_supported⟩⟩, 1, false⟩
  isHypervisor := rfl
  isSpmc := rfl

def unboundVm : VmNotifications :=
  let n : Notifications := ⟨fun _ => hfInvalidVmId, 0, fun _ => 0⟩
  ⟨1, true, .empty, n, n, 0⟩

/-- Two VMs and one secure partition, with nothing bound. -/
def unboundWorld : NotificationWorld where
  hypervisor := ⟨fun id => if id ∈ [1, 2] then some unboundVm else none, 0⟩
  spmc := ⟨fun id => if id ∈ [0, 1, 2, 0x8001] then some unboundVm else none, 0⟩

theorem unboundWorld_get {n : Notifications}
    (held : (unboundWorld.manager side).get id isFromVm = some n) : ∀ slot, n.pending slot = 0 := by
  have unbound : n = vmGetNotifications unboundVm isFromVm := by
    cases side <;> simp only [NotificationWorld.manager, unboundWorld,
      NotificationManager.get] at held <;> split at held <;> cases held <;> rfl
  rw [unbound]
  cases isFromVm <;> exact fun _ => rfl

theorem unboundWorld_not_pending (bit : NotificationBit) : ¬unboundWorld.Pending bit := by
  rintro ⟨n, held, set⟩
  rw [unboundWorld_get held] at set
  simp at set

/-- A call of a VM on the only CPU. -/
def vmCall (fails : NotificationCall → Option FfaError) (caller : VmId) (call : NotificationCall)
    (w : NotificationWorld) : Run (NotificationAnswer × NotificationWorld) := do
  let (answer, s, other) ← call.run uniprocessor.hypervisor (uniprocessor.relayTo 0 fails)
      caller w.hypervisor w.spmc 0
  .ok (answer, ⟨s, other⟩)

theorem vmCall_step
    {meets : NotificationWorld → Side → (NotificationCall → Option FfaError) → Nat → NotificationCall → Prop}
    (ran : vmCall fails caller call w = .ok (answer, w'))
    (allowed : meets w .hypervisor fails 0 call) :
    NotificationStep uniprocessor meets w ⟨w, .hypervisor, caller, call, answer⟩ w' := by
  simp only [vmCall, bind_ok_iff] at ran
  obtain ⟨⟨answer, s, other⟩, run, ⟨⟩⟩ := ran
  exact .hypervisor allowed run

/-- VM 1 binds its first notification to VM 2, VM 2 sets it and VM 1 asks for it. -/
def bindSetGet (fails : NotificationCall → Option FfaError) (flags : BitVec 32) :
    Run ((NotificationAnswer × NotificationWorld) × (NotificationAnswer × NotificationWorld) ×
      NotificationAnswer × NotificationWorld) := do
  let bound ← vmCall fails 1 (.bind 2 1 0 1) unboundWorld
  let set ← vmCall fails 2 (.set 2 1 0 1) bound.2
  let got ← vmCall fails 1 (.get 1 0 flags) set.2
  .ok (bound, set, got)

def firstBit : NotificationBit := ⟨.hypervisor, 1, true, .global, 0⟩

/-- Whether the first notification of VM 1 is pending. -/
def firstPending (w : NotificationWorld) : Bool :=
  ((w.hypervisor.get 1 true).map fun n => (n.pending .global).getLsbD 0).getD false

theorem firstPending_iff (w : NotificationWorld) : w.Pending firstBit ↔ firstPending w = true := by
  rw [NotificationWorld.Pending, NotificationManager.Pending, firstPending]
  show (∃ n, w.hypervisor.get 1 true = some n ∧ _) ↔ _
  cases w.hypervisor.get 1 true with
  | none => simp
  | some n => simp [firstBit]

/-- A request for the notifications of VMs returns the one that was set. -/
theorem notification_delivery_first_bit :
    ∃ events w', Runs (NotificationStep uniprocessor uniprocessor.Safe) unboundWorld events w' ∧
    ∃ event earlier, events = event :: earlier ∧ event.Returns firstBit ∧ ¬w'.Pending firstBit := by
  have run : Partial.returns (bindSetGet (fun _ => none) ffaNotificationFlagBitmapVm) (fun r =>
      decide (firstPending r.2.1.2 = true ∧ r.2.2.1 = .bitmaps 0 1 0 ∧
        firstPending r.2.2.2 = false)) = true := by
    decide +kernel
  obtain ⟨⟨bound, set, got⟩, returned, checked⟩ := returns_iff.mp run
  obtain ⟨isSet, answered, notPending⟩ := of_decide_eq_true checked
  simp only [bindSetGet, bind_ok_iff] at returned
  obtain ⟨bound, first, set, second, got, third, ⟨⟩⟩ := returned
  have runs : Runs (NotificationStep uniprocessor uniprocessor.Safe) unboundWorld _ set.2 :=
    .cons (.cons .nil (vmCall_step first trivial))
      (vmCall_step second (show (2 : VmId) ≠ hfInvalidVmId by decide))
  have last : NotificationStep uniprocessor uniprocessor.Safe set.2 _ got.2 :=
    vmCall_step third fun _ _ framework => absurd framework (by decide)
  refine ⟨_, got.2, .cons runs last, _, _, rfl,
    ?_, by rw [firstPending_iff, notPending]; exact Bool.false_ne_true⟩
  -- The request selects the notification, which is pending by then.
  have delivery := notification_delivery unboundWorld_not_pending (runs.cons last) firstBit
  refine ((delivery.2 [] _ _ rfl).1).mpr ⟨⟨rfl, _, _, _, 0, _, answered, rfl, by decide, .inl rfl⟩, ?_⟩
  exact ((notification_delivery unboundWorld_not_pending runs firstBit).1).mp
    ((firstPending_iff _).mpr isSet)

/-- The SPMC fails to give the notifications of the framework: the request fails after it has taken the
notification. And the normal world sets a notification of a secure partition that is bound to nobody. -/
theorem failed_get_loses_notification :
    (∃ before event after, NotificationStep uniprocessor (fun _ _ _ _ _ => True) before event after ∧
      event.answer = .error .aborted ∧ before.Pending firstBit ∧ ¬after.Pending firstBit) ∧
    ∃ s', uniprocessor.spmcRun 0 hfHypervisorVmId (.set hfInvalidVmId 0x8001 0 1)
      unboundWorld.spmc = .ok (.success, s') ∧ s'.Pending 0x8001 true .global 0 := by
  constructor
  · have run : Partial.returns (bindSetGet (fun _ => some .aborted)
        (ffaNotificationFlagBitmapVm ||| ffaNotificationFlagBitmapHyp)) (fun r =>
        decide (firstPending r.2.1.2 = true ∧ r.2.2.1 = .error .aborted ∧
          firstPending r.2.2.2 = false)) = true := by
      decide +kernel
    obtain ⟨⟨bound, set, got⟩, returned, checked⟩ := returns_iff.mp run
    obtain ⟨isSet, answered, notPending⟩ := of_decide_eq_true checked
    simp only [bindSetGet, bind_ok_iff] at returned
    obtain ⟨bound, first, set, second, got, third, ⟨⟩⟩ := returned
    exact ⟨set.2, _, got.2, vmCall_step third trivial, answered, (firstPending_iff _).mpr isSet,
      by rw [firstPending_iff, notPending]; exact Bool.false_ne_true⟩
  · exact ⟨_, rfl, _, rfl, by decide⟩

end Hafnium.Api
