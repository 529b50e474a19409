import Hafnium.Api.Notification

/-! # What the notification calls change

One partition manager: bind, unbind and set calls add to the pending notifications what the bound
sender sets, and a request removes what it returns. Pending notifications sit in the slot that their
binding says, so that an answer tells which one is meant.
-/

namespace Hafnium.Api

open Mm Ffa Partial Function

def Slot.perVcpu : Slot → Bool
  | .global => false
  | .vcpu _ => true

/-- The slots that exist. -/
def Slot.Below (maxCpus : Nat) : Slot → Prop
  | .global => True
  | .vcpu i => i < maxCpus

/-- The slot that a set or get call names. -/
def setSlot (flags : BitVec 32) : Slot :=
  if flags &&& ffaNotificationFlagPerVcpu ≠ 0 then
    .vcpu ((flags >>> 16).setWidth 16 : BitVec 16).toNat
  else .global

/-- The notifications of a receiver from one class of senders. -/
def NotificationManager.get (s : NotificationManager) (id : VmId) (isFromVm : Bool) : Option Notifications :=
  (s.vms id).map (vmGetNotifications · isFromVm)

/-- Replaces the notifications of one class. -/
def NotificationManager.Replaces (s : NotificationManager) (id : VmId) (isFromVm : Bool) (n : Notifications)
    (s' : NotificationManager) : Prop :=
  ∀ id' isFromVm', s'.get id' isFromVm' =
    if id' = id ∧ isFromVm' = isFromVm then some n else s.get id' isFromVm'

/-- The notifications of a vCPU are read. -/
def Notifications.taken (n : Notifications) (vcpuId : BitVec 16) : Notifications :=
  { n with pending := update (update n.pending .global 0) (.vcpu vcpuId.toNat) 0 }

def Notifications.visible (n : Notifications) (vcpuId : BitVec 16) : BitVec 64 :=
  n.pending .global ||| n.pending (.vcpu vcpuId.toNat)

/-- Pending notifications sit where their binding says. -/
def Notifications.Consistent (maxCpus : Nat) (n : Notifications) : Prop :=
  ∀ slot i, (n.pending slot).getLsbD i = true → slot.Below maxCpus ∧
    n.bindingsPerVcpu.getLsbD i = slot.perVcpu

def NotificationManager.Consistent (maxCpus : Nat) (s : NotificationManager) : Prop :=
  ∀ id isFromVm n, s.get id isFromVm = some n → n.Consistent maxCpus

/-- What bind, unbind and set calls do to the notifications of a partition manager. -/
inductive NotificationEffect (maxCpus : Nat) (isVmId : VmId → Bool) (s : NotificationManager) :
    NotificationCall → NotificationAnswer → NotificationManager → Prop
  | refused {call : NotificationCall} (error : FfaError) :
      NotificationEffect maxCpus isVmId s call (.error error) s
  | bound {call : NotificationCall} {receiver : VmId} {isFromVm : Bool} {n n' : Notifications}
      {s' : NotificationManager}
      (binds : (∃ sender flags bitmap, call = .bind sender receiver flags bitmap) ∨
        ∃ sender bitmap, call = .unbind sender receiver bitmap)
      (held : s.get receiver isFromVm = some n) (replaces : s.Replaces receiver isFromVm n' s')
        (pending : n'.pending = n.pending)
      (kinds : ∀ slot i, slot.Below maxCpus → (n.pending slot).getLsbD i = true →
        n'.bindingsPerVcpu.getLsbD i = n.bindingsPerVcpu.getLsbD i) :
      NotificationEffect maxCpus isVmId s call .success s'
  | set {sender receiver : VmId} {flags : BitVec 32} {bitmap : BitVec 64} {n : Notifications}
      {s' : NotificationManager}
      (held : s.get receiver (isVmId sender) = some n) (below : (setSlot flags).Below maxCpus)
      (bound : ∀ i, bitmap.getLsbD i = true → n.bindingsSenderId i = sender ∧
        n.bindingsPerVcpu.getLsbD i = (setSlot flags).perVcpu)
      (replaces : s.Replaces receiver (isVmId sender)
        { n with pending := update n.pending (setSlot flags) (n.pending (setSlot flags) ||| bitmap) } s') :
      NotificationEffect maxCpus isVmId s (.set sender receiver flags bitmap) .success s'

section Manager

variable {c : NotificationConfig} {relay : Relay} {current : VmId} {s s' other other' : NotificationManager}
  {answer : NotificationAnswer}

theorem vmGetNotifications_put (vm : VmNotifications) (isFromVm isFromVm' : Bool) (n : Notifications) :
    vmGetNotifications (vm.putNotifications isFromVm n) isFromVm' =
      if isFromVm' = isFromVm then n else vmGetNotifications vm isFromVm' := by
  cases isFromVm <;> cases isFromVm' <;> rfl

variable {id sender receiver : VmId} {vm : VmNotifications} {maxCpus i cpu counter : Nat}
  {n : Notifications} {bitmap : BitVec 64} {slot : Slot} {flags : BitVec 32}
  {isBind isFromVm : Bool} {call : NotificationCall} {vcpuId : BitVec 16} {asked : Bool → Bool}

theorem NotificationManager.find_some (found : s.find c id = some vm) : s.vms id = some vm := by
  rw [find] at found
  split at found
  · exact found
  · cases found

theorem NotificationManager.get_of_held (held : s.vms id = some vm) (isFromVm : Bool) :
    s.get id isFromVm = some (vmGetNotifications vm isFromVm) := by
  rw [get, held]
  rfl

theorem NotificationManager.replaces_put (held : s.vms id = some vm) (isFromVm : Bool)
    (n : Notifications) (pendingCount : Nat) :
    s.Replaces id isFromVm n { s.put id (vm.putNotifications isFromVm n) with pendingCount } := by
  intro id' isFromVm'
  by_cases here : id' = id
  · subst here
    simp only [get, put, update_self, Option.map_some, held, vmGetNotifications_put, true_and]
    split <;> rfl
  · simp only [get, put, update_of_ne here, here, false_and, if_false]

theorem bitmap_zero_iff {a b : BitVec 64} : a &&& b = 0 ↔ ∀ i, a.getLsbD i = true → b.getLsbD i = false := by
  constructor
  · intro zero i set
    have bit := congrArg (fun x : BitVec 64 => x.getLsbD i) zero
    simpa [set] using bit
  · intro apart
    apply BitVec.eq_of_getLsbD_eq
    intro i _
    simp only [BitVec.getLsbD_and, BitVec.ofNat_eq_ofNat, BitVec.getLsbD_zero]
    cases set : a.getLsbD i with
    | false => rfl
    | true => rw [apart i set]; rfl

theorem not_pending (free : ¬vmAreNotificationsPending maxCpus n bitmap = true) (below : slot.Below maxCpus)
    (pending : (n.pending slot).getLsbD i = true) : bitmap.getLsbD i = false := by
  simp only [vmAreNotificationsPending, Bool.or_eq_true, List.any_eq_true, List.mem_range,
    decide_eq_true_eq, not_or, not_exists, not_and, not_not] at free
  cases slot with
  | global => exact bitmap_zero_iff.mp free.2 i pending
  | vcpu j => exact bitmap_zero_iff.mp (free.1 j below) i pending

theorem updateBindings_kept (n : Notifications) (senderId : VmId) (isPerVcpu : Bool)
    (other : bitmap.getLsbD i = false) :
    (vmNotificationsUpdateBindings n senderId bitmap isPerVcpu).bindingsPerVcpu.getLsbD i =
      n.bindingsPerVcpu.getLsbD i := by
  cases isPerVcpu
  · by_cases small : i < 64
    · simp only [vmNotificationsUpdateBindings, Bool.false_eq_true, if_false, BitVec.getLsbD_and,
        BitVec.getLsbD_not, other, small, decide_true, Bool.not_false, Bool.and_true]
    · simp [vmNotificationsUpdateBindings, BitVec.getLsbD_of_ge _ _ (Nat.le_of_not_lt small)]
  · simp [vmNotificationsUpdateBindings, other]

theorem validateBoundSender_iff {senderId : VmId} :
    vmNotificationsValidateBoundSender n senderId bitmap = true ↔ ∀ i, bitmap.getLsbD i = true →
      n.bindingsSenderId i = senderId := by
  simp only [vmNotificationsValidateBoundSender, List.all_eq_true, List.mem_range, Bool.or_eq_true,
    Bool.not_eq_true', decide_eq_true_eq, maxFfaNotifications]
  refine ⟨fun all i set => ?_, fun all i _ => ?_⟩
  · have small : i < 64 := by
      by_contra large
      rw [BitVec.getLsbD_of_ge _ _ (Nat.le_of_not_lt large)] at set
      cases set
    exact (all i small).resolve_left (by rw [set]; decide)
  · cases set : bitmap.getLsbD i with
    | false => exact .inl rfl
    | true => exact .inr (all i set)

/-- A binding is changed here, with the checks passed, or by the other world. -/
theorem apiFfaNotificationUpdateBindings_ok :
    Post (apiFfaNotificationUpdateBindings c relay current s other sender receiver flags bitmap
      isBind) fun r =>
      (∃ error, r = (.error error, s, other)) ∨
      (c.world.features.secureWorld = false ∧ r.2.1 = s ∧
        relay (if isBind then .bind sender receiver flags bitmap else .unbind sender receiver
          bitmap) other = .ok (r.1, r.2.2)) ∨
      platFfaIsNotificationsBindValid c current sender receiver = true ∧ r.1 = .success ∧ r.2.2 = other ∧
        ∃ n, s.get receiver (platFfaIsVmId c.world sender) = some n ∧
          (∀ i, bitmap.getLsbD i = true → n.bindingsSenderId i = if isBind then hfInvalidVmId else sender) ∧
          (∀ slot i, slot.Below c.maxCpus → (n.pending slot).getLsbD i = true → bitmap.getLsbD i = false) ∧
          s.Replaces receiver (platFfaIsVmId c.world sender) (vmNotificationsUpdateBindings n
            (if isBind then sender else hfInvalidVmId)
              bitmap (decide (flags &&& ffaNotificationFlagPerVcpu ≠ 0) && isBind)) r.2.1 := by
  refine .guard (.inl ⟨_, rfl⟩) fun valid => .ite (fun forwards => .step fun _ relayed => .ok ?_) fun _ => ?_
  · exact .inr (.inl ⟨forwards.1, rfl, relayed⟩)
  refine .guard (.inl ⟨_, rfl⟩) fun _ => ?_
  split
  · exact .ok (.inl ⟨_, rfl⟩)
  next vm found =>
  refine .guard (.inl ⟨_, rfl⟩) fun _ => .guard (.inl ⟨_, rfl⟩) fun _ => .guard (.inl ⟨_, rfl⟩) fun bound =>
    .guard (.inl ⟨_, rfl⟩) fun free => .ok (.inr (.inr ?_))
  have held := NotificationManager.find_some found
  exact ⟨Bool.not_eq_false _ ▸ valid, rfl, rfl, _, NotificationManager.get_of_held held _,
    validateBoundSender_iff.mp (Bool.not_eq_false _ ▸ bound), fun _ _ below => not_pending free below,
    NotificationManager.replaces_put held _ _ s.pendingCount⟩

theorem apiFfaNotificationUpdateBindings_effect
    (isCall : (if isBind then .bind sender receiver flags bitmap
      else .unbind sender receiver bitmap) = call) :
    Post (apiFfaNotificationUpdateBindings c relay current s other sender receiver flags bitmap
      isBind) fun r =>
      r.2.2 = other ∧ NotificationEffect c.maxCpus (platFfaIsVmId c.world) s call r.1 r.2.1 ∨
        c.world.features.secureWorld = false ∧ r.2.1 = s ∧ relay call other = .ok (r.1, r.2.2) := by
  rintro ⟨answer, s', other'⟩ ran
  rcases apiFfaNotificationUpdateBindings_ok _ ran with ⟨error, same⟩ | relayed | ⟨-, success, same,
      n, held, -, free, replaces⟩
  · cases same
    exact .inl ⟨rfl, .refused _⟩
  · exact .inr (isCall ▸ relayed)
  · have binds : (∃ sender flags bitmap, call = .bind sender receiver flags bitmap) ∨
        ∃ sender bitmap, call = .unbind sender receiver bitmap := by
      cases isBind with
      | true => exact .inl ⟨_, _, _, isCall.symm⟩
      | false => exact .inr ⟨_, _, isCall.symm⟩
    cases success
    exact .inl ⟨same, .bound binds held replaces rfl fun slot i below pending =>
      updateBindings_kept _ _ _ (free slot i below pending)⟩

theorem validatePerVcpu_bit {isPerVcpu : Bool}
    (valid : vmNotificationsValidatePerVcpu n isPerVcpu bitmap = true) (set : bitmap.getLsbD i = true) :
    n.bindingsPerVcpu.getLsbD i = isPerVcpu := by
  have small : i < 64 := by
    by_contra large
    rw [BitVec.getLsbD_of_ge _ _ (Nat.le_of_not_lt large)] at set
    cases set
  cases isPerVcpu with
  | true =>
    simp only [vmNotificationsValidatePerVcpu, if_true, decide_eq_true_eq] at valid
    by_contra unset
    have apart := bitmap_zero_iff.mp valid i
      (by rw [BitVec.getLsbD_not, Bool.eq_false_iff.mpr unset]; simp [small])
    rw [set] at apart
    cases apart
  | false =>
    simp only [vmNotificationsValidatePerVcpu, Bool.false_eq_true, if_false, decide_eq_true_eq] at valid
    by_contra unset
    have apart := bitmap_zero_iff.mp valid i (by simpa using unset)
    rw [set] at apart
    cases apart

theorem setSlot_perVcpu (flags : BitVec 32) :
    (setSlot flags).perVcpu = decide (flags &&& ffaNotificationFlagPerVcpu ≠ 0) := by
  rw [setSlot]
  split
  · next set => exact (decide_eq_true set).symm
  · next unset => exact (decide_eq_false unset).symm

/-- Notifications are set here, or by the other world for one of its partitions. -/
theorem apiFfaNotificationSet_effect :
    Post (apiFfaNotificationSet c relay current s other sender receiver flags bitmap) fun r =>
      r.2.2 = other ∧ NotificationEffect c.maxCpus (platFfaIsVmId c.world)
        s (.set sender receiver flags bitmap) r.1 r.2.1 ∧
          (c.world.features.secureWorld = false → r.1 = .success →
            vmIdIsCurrentWorld c.world receiver = true) ∨
        (c.world.features.secureWorld = false ∧ vmIdIsCurrentWorld c.world receiver = false) ∧ r.2.1 = s ∧
          relay (.set sender receiver flags bitmap) other = .ok (r.1, r.2.2) := by
  have refused (error : FfaError) : other = other ∧
      NotificationEffect c.maxCpus (platFfaIsVmId c.world) s (.set sender receiver flags bitmap)
        (.error error) s ∧
        (c.world.features.secureWorld = false → NotificationAnswer.error error = .success →
          vmIdIsCurrentWorld c.world receiver = true) :=
    ⟨rfl, .refused error, nofun⟩
  refine .guard (.inl (refused _)) fun _ => .guard (.inl (refused _)) fun _ =>
    .ite (fun forwards => .step fun _ relayed => .ok ?_)
    fun here => ?_
  · exact .inr ⟨forwards, rfl, relayed⟩
  split
  · exact .ok (.inl (refused _))
  next vm found =>
  refine .guard (.inl (refused _)) fun _ => .guard (.inl (refused _)) fun valid =>
    .guard (.inl (refused _)) fun _ => ?_
  rw [vmNotificationsPartitionSetPending]
  refine .step fun ⟨n, pendingCount⟩ set => .ok ?_
  split at set
  · cases set
  next small =>
  obtain ⟨counter, -, ⟨⟩⟩ := bind_ok_iff.mp set
  have held := NotificationManager.find_some found
  simp only [Bool.not_eq_false, Bool.and_eq_true] at valid
  have slot : (if decide (flags &&& ffaNotificationFlagPerVcpu ≠ 0) = true then
      Slot.vcpu ((flags >>> 16).setWidth 16 : BitVec 16).toNat else .global) = setSlot flags := by
    simp only [setSlot, decide_eq_true_eq]
  rw [slot]
  refine .inl ⟨rfl, .set (NotificationManager.get_of_held held _)
    ?_ (fun i set => ⟨validateBoundSender_iff.mp valid.1 i set, ?_⟩)
    (NotificationManager.replaces_put held _ _ pendingCount), fun hypervisor _ => ?_⟩
  · rw [setSlot]
    split
    · exact Nat.lt_of_not_le small
    · trivial
  · rw [setSlot_perVcpu]
    exact validatePerVcpu_bit valid.2 set
  · exact Bool.not_eq_false _ ▸ fun foreign => here ⟨hypervisor, foreign⟩

/-- A call other than a request is served here or by the other world, which keeps the notifications of
its own partitions. -/
theorem NotificationCall.run_effect (notGet : ∀ id vcpuId flags, call ≠ .get id vcpuId flags)
    (ran : call.run c relay current s other cpu = .ok (answer, s', other')) :
    (other' = other ∧ NotificationEffect c.maxCpus (platFfaIsVmId c.world) s call answer s' ∧
      ∀ sender receiver flags bitmap, call = .set sender receiver flags bitmap →
        c.world.features.secureWorld = false →
        answer = .success → vmIdIsCurrentWorld c.world receiver = true) ∨
    c.world.features.secureWorld = false ∧ s' = s ∧ relay call other = .ok (answer, other') ∧
      ∀ sender receiver flags bitmap, call = .set sender receiver flags bitmap →
        vmIdIsCurrentWorld c.world receiver = false := by
  cases call with
  | bind sender receiver flags bitmap =>
    rcases apiFfaNotificationUpdateBindings_effect (if_pos rfl)
        _ ran with ⟨same, effect⟩ | ⟨hypervisor, same, relayed⟩
    · exact .inl ⟨same, effect, nofun⟩
    · exact .inr ⟨hypervisor, same, relayed, nofun⟩
  | unbind sender receiver bitmap =>
    rcases apiFfaNotificationUpdateBindings_effect (if_neg Bool.false_ne_true)
        _ ran with ⟨same, effect⟩ | ⟨hypervisor, same, relayed⟩
    · exact .inl ⟨same, effect, nofun⟩
    · exact .inr ⟨hypervisor, same, relayed, nofun⟩
  | set sender receiver flags bitmap =>
    rcases apiFfaNotificationSet_effect _ ran with ⟨same, effect, here⟩ | ⟨⟨hypervisor, foreign⟩,
        same, relayed⟩
    · exact .inl ⟨same, effect, fun _ _ _ _ isSet => by cases isSet; exact here⟩
    · exact .inr ⟨hypervisor, same, relayed, fun _ _ _ _ isSet => by cases isSet; exact foreign⟩
  | get receiver vcpuId flags => exact absurd rfl (notGet receiver vcpuId flags)

/-- Only the sender sets its notifications; the SPMC lets the hypervisor set for VMs. -/
theorem NotificationCall.run_set
    (ran : (NotificationCall.set sender receiver flags bitmap).run c relay current s other cpu =
      .ok (.success, s', other')) :
    current = sender ∨ c.world.features.secureWorld = true ∧ current = hfHypervisorVmId ∧
    vmIdIsCurrentWorld c.world sender = false := by
  rcases guard_ok ran with same | ⟨valid, -⟩
  · cases same
  · simp only [Bool.not_eq_false, platFfaIsNotificationSetValid] at valid
    split at valid
    · next spmc =>
      simp only [Bool.and_eq_true, Bool.or_eq_true, decide_eq_true_eq, Bool.not_eq_true'] at valid
      rcases valid.2 with same | ⟨⟨hypervisor, foreign⟩, -⟩
      · exact .inl same.symm
      · exact .inr ⟨spmc, hypervisor, foreign⟩
    · exact .inl (of_decide_eq_true valid).1.symm

/-! ## Reading -/

/-- The classes that were asked for are read. -/
def NotificationManager.Takes (s : NotificationManager) (id : VmId) (vcpuId : BitVec 16) (asked : Bool → Bool)
    (s' : NotificationManager) : Prop :=
  ∀ id' isFromVm, s'.get id' isFromVm =
    if id' = id ∧ asked isFromVm = true then (s.get id' isFromVm).map (·.taken vcpuId) else s.get id' isFromVm

/-- The bits of a class that an answer holds. -/
def VmNotifications.bits (vm : VmNotifications) (vcpuId : BitVec 16) (asked : Bool → Bool)
    (isFromVm : Bool) : BitVec 64 :=
  if asked isFromVm then (vmGetNotifications vm isFromVm).visible vcpuId else 0

theorem vmNotificationsPartitionGetPending_ok :
    Post (vmNotificationsPartitionGetPending maxCpus n vcpuId counter) fun r =>
      r.1 = n.visible vcpuId ∧ r.2.1 = n.taken vcpuId := by
  exact .ite (fun _ => .error) fun _ => .step fun _ _ => .step fun _ _ => .ok ⟨rfl, rfl⟩

/-- The notifications of one class are read if they are asked for. -/
def TakesClass (vm vm' : VmNotifications) (vcpuId : BitVec 16) (asked : Bool) (isFromVm : Bool) : Prop :=
  ∀ isFromVm', vmGetNotifications vm' isFromVm' =
    if asked = true ∧ isFromVm' = isFromVm then
      (vmGetNotifications vm isFromVm').taken vcpuId
    else vmGetNotifications vm isFromVm'

theorem takePending_ok {asked : Bool} : Post (takePending c asked isFromVm vm vcpuId counter) fun r =>
      r.1 = vm.bits vcpuId (fun _ => asked) isFromVm ∧ TakesClass vm r.2.1 vcpuId asked isFromVm := by
  refine .ite (fun set => .bind vmNotificationsPartitionGetPending_ok ?_) fun unset => .ok ?_
  · rintro ⟨_, _, counter₁⟩ ⟨rfl, rfl⟩
    refine .ok ⟨by rw [VmNotifications.bits, if_pos set], fun isFromVm' => ?_⟩
    simp only [vmGetNotifications_put, set, true_and]
    split
    · next here => rw [here]
    · rfl
  · exact ⟨by rw [VmNotifications.bits, if_neg unset], fun _ => (if_neg fun both => unset both.1).symm⟩

theorem vmNotificationsFrameworkGetPending_ok : Post (vmNotificationsFrameworkGetPending vm counter) fun r =>
      ∀ isFromVm, vmGetNotifications r.2.1 isFromVm = vmGetNotifications vm isFromVm := by
  exact .step fun _ _ => .ok fun isFromVm => by cases isFromVm <;> rfl

theorem NotificationManager.takes_write {vm' : VmNotifications} (held : s.vms id = some vm)
    (same : ∀ isFromVm, vmGetNotifications vm' isFromVm =
      if asked isFromVm = true then (vmGetNotifications vm isFromVm).taken vcpuId else
        vmGetNotifications vm isFromVm)
    (counter : Nat) : s.Takes id vcpuId asked (s.write id vm' counter) := by
  intro id' isFromVm
  by_cases here : id' = id
  · subst here
    simp only [get, write, put, update_self, Option.map_some, held, same, true_and]
    split <;> rfl
  · simp only [get, write, put, update_of_ne here, here, false_and, if_false]

/-- Whether a request asks for a class of notifications. -/
def asks (flags : BitVec 32) (isFromVm : Bool) : Bool :=
  decide (flags &&& (if isFromVm then ffaNotificationFlagBitmapVm else ffaNotificationFlagBitmapSp) ≠ 0)

def asksFramework (flags : BitVec 32) : Bool :=
  decide (flags &&& (ffaNotificationFlagBitmapHyp ||| ffaNotificationFlagBitmapSpm) ≠ 0)

section Get

variable {asked : Bool}

theorem platFfaNotificationsGetFromSp_spmc (spmc : c.world.features.secureWorld = true) :
    Post (platFfaNotificationsGetFromSp c relay other asked receiver vm vcpuId counter) fun r =>
      r.1 = .ok (vm.bits vcpuId (fun _ => asked) false) ∧ TakesClass vm r.2.1 vcpuId asked false := by
  rw [platFfaNotificationsGetFromSp, if_pos spmc]
  exact .bind takePending_ok fun _ taken => .ok ⟨congrArg _ taken.1, taken.2⟩

theorem platFfaNotificationsGetFromSp_hypervisor (hypervisor : c.world.features.secureWorld = false) :
    Post (platFfaNotificationsGetFromSp c relay other asked receiver vm vcpuId counter) fun r => r.2.1 = vm ∧
      ∃ result, relayGet relay other asked receiver vcpuId ffaNotificationFlagBitmapSp =
        .ok (result, r.2.2.2) ∧ r.1 = result.map Prod.fst := by
  rw [platFfaNotificationsGetFromSp, if_neg (by rw [hypervisor]; decide)]
  exact .step fun _ relayed => .ok ⟨rfl, _, relayed, rfl⟩

/-- The SPMC does not fail once it has looked at the flags. -/
theorem platFfaNotificationsGetFrameworkNotifications_spmc (spmc : c.world.features.secureWorld = true)
    (valid : platFfaIsNotificationGetValid c current receiver flags = true) :
    Post (platFfaNotificationsGetFrameworkNotifications c relay other asked receiver vm vcpuId flags
      counter) fun r =>
      (∃ bits, r.1 = .ok bits) ∧ ∀ isFromVm, vmGetNotifications r.2.1 isFromVm =
        vmGetNotifications vm isFromVm := by
  rw [platFfaNotificationsGetFrameworkNotifications, if_pos spmc]
  refine .guard ⟨⟨_, rfl⟩, fun _ => rfl⟩ fun _ => .ite (fun refused => ?_) fun _ =>
    .bind vmNotificationsFrameworkGetPending_ok fun _ same => .ok ⟨⟨_, rfl⟩, same⟩
  -- `plat_ffa_is_notification_get_valid` has refused these flags before.
  simp only [platFfaIsNotificationGetValid, spmc, if_true, Bool.and_eq_true, Bool.not_eq_true',
    platFfaIsVmId, refused.1, Bool.not_false, Bool.true_and, decide_eq_false_iff_not, not_not] at valid
  have apart : flags &&& (ffaNotificationFlagBitmapVm ||| ffaNotificationFlagBitmapHyp) &&&
      ffaNotificationFlagBitmapHyp = 0 := by
    rw [valid.2]
    rfl
  rw [BitVec.and_assoc] at apart
  exact absurd apart refused.2

theorem platFfaNotificationsGetFrameworkNotifications_hypervisor
    (hypervisor : c.world.features.secureWorld = false) :
    Post (platFfaNotificationsGetFrameworkNotifications c relay other asked receiver vm vcpuId flags
      counter) fun r =>
      (∀ isFromVm, vmGetNotifications r.2.1 isFromVm = vmGetNotifications vm isFromVm) ∧ ∃ result,
        relayGet relay other (asked && c.ffaTeeEnabled)
          receiver vcpuId ffaNotificationFlagBitmapSpm = .ok (result, r.2.2.2) ∧
        ((∃ error, result = .error error ∧ r.1 = .error error) ∨
          ∃ answer bits, result = .ok answer ∧ r.1 = .ok bits) := by
  rw [platFfaNotificationsGetFrameworkNotifications,
    if_neg (show ¬c.world.features.secureWorld = true by rw [hypervisor]; decide)]
  refine .ite (fun unasked => .ok ⟨fun _ => rfl,
    .ok (0, 0), by rw [unasked]; rfl, .inr ⟨_, _, rfl, rfl⟩⟩) fun set => ?_
  rw [Bool.not_eq_false] at set
  rw [set, Bool.true_and]
  refine .step fun ⟨result, other₁⟩ relayed => ?_
  cases result with
  | error error => exact .ok ⟨fun _ => rfl, _, relayed, .inl ⟨error, rfl, rfl⟩⟩
  | ok result =>
    exact .bind vmNotificationsFrameworkGetPending_ok fun _ same =>
      .ok ⟨same, _, relayed, .inr ⟨_, _, rfl, rfl⟩⟩

/-- The SPMC either refuses a request or answers it from its own bitmaps. -/
theorem apiFfaNotificationGet_spmc (spmc : c.world.features.secureWorld = true) :
    Post (apiFfaNotificationGet c relay current s other cpu receiver vcpuId flags) fun r =>
      (∃ error, r.1 = .error error ∧ r.2.1 = s) ∨ ∃ vm framework, s.vms receiver = some vm ∧
        r.1 = .bitmaps (vm.bits vcpuId (asks flags) false) (vm.bits vcpuId (asks flags) true) framework ∧
        s.Takes receiver vcpuId (asks flags) r.2.1 := by
  refine .guard (.inl ⟨_, rfl, rfl⟩) fun _ => .guard (.inl ⟨_, rfl, rfl⟩) fun valid => ?_
  split
  · exact .error
  next vm found =>
  have held := NotificationManager.find_some found
  refine .guard (.inl ⟨_, rfl, rfl⟩) fun _ => .bind (platFfaNotificationsGetFromSp_spmc spmc) ?_
  rintro ⟨_, vm₁, counter₁, other₁⟩ ⟨rfl, afterSp⟩
  refine .bind takePending_ok ?_
  rintro ⟨_, vm₂, counter₂⟩ ⟨rfl, afterVm⟩
  refine .bind (platFfaNotificationsGetFrameworkNotifications_spmc spmc (Bool.not_eq_false _ ▸ valid)) ?_
  rintro ⟨_, vm₃, counter₃, other₃⟩ ⟨⟨bits, rfl⟩, afterFramework⟩
  refine .ok (.inr ⟨vm, bits, held, ?_, NotificationManager.takes_write held (fun isFromVm => ?_) counter₃⟩)
  · have vmBits : vm₁.bits vcpuId (fun _ => asks flags true) true = vm.bits vcpuId (asks flags) true := by
      rw [VmNotifications.bits, afterSp, if_neg fun both : _ ∧ true = false => nomatch both.2]
      rfl
    exact congrArg (NotificationAnswer.bitmaps _ · bits) vmBits
  · rw [afterFramework, afterVm]
    cases isFromVm with
    | true => simp only [and_true, afterSp true, Bool.true_eq_false, and_false, if_false]; rfl
    | false => simp only [Bool.false_eq_true, and_false, if_false, afterSp false, and_true]; rfl

end Get

/-! ## Pending notifications -/

/-- A notification is pending in a slot. -/
def NotificationManager.Pending (s : NotificationManager) (id : VmId) (isFromVm : Bool)
    (slot : Slot) (i : Nat) : Prop :=
  ∃ n, s.get id isFromVm = some n ∧ (n.pending slot).getLsbD i = true

/-- What a successful set call has set, by the sender that the notification is bound to. -/
def SetBy (isVmId : VmId → Bool) (s : NotificationManager) (call : NotificationCall)
    (answer : NotificationAnswer) (id : VmId) (isFromVm : Bool) (slot : Slot) (i : Nat) : Prop :=
  answer = .success ∧ ∃ sender flags bitmap n, call = .set sender id flags bitmap ∧
    bitmap.getLsbD i = true ∧ setSlot flags = slot ∧
    isVmId sender = isFromVm ∧ s.get id isFromVm = some n ∧ n.bindingsSenderId i = sender

section Exact

variable {isVmId : VmId → Bool}

theorem NotificationManager.Replaces.pending_iff
    (replaces : s.Replaces id isFromVm n s') (id' : VmId) (isFromVm' : Bool) (slot : Slot) (i : Nat) :
    s'.Pending id' isFromVm' slot i ↔
      if id' = id ∧ isFromVm' = isFromVm then
        (n.pending slot).getLsbD i = true
      else s.Pending id' isFromVm' slot i := by
  rw [Pending, replaces]
  split
  · simp
  · rfl

theorem NotificationManager.Replaces.consistent (replaces : s.Replaces id isFromVm n s')
    (consistent : s.Consistent maxCpus) (new : n.Consistent maxCpus) : s'.Consistent maxCpus := by
  intro id' isFromVm' n' held
  rw [replaces] at held
  split at held
  · cases held
    exact new
  · exact consistent id' isFromVm' n' held

theorem NotificationManager.pending_of_held (held : s.get id isFromVm = some n)
    (slot : Slot) (i : Nat) : s.Pending id isFromVm slot i ↔ (n.pending slot).getLsbD i = true := by
  simp [Pending, held]

/-- Bind, unbind and set calls add what is set and nothing else. -/
theorem NotificationEffect.exact_ (effect : NotificationEffect maxCpus isVmId s call answer s')
    (consistent : s.Consistent maxCpus) :
    s'.Consistent maxCpus ∧ ∀ id isFromVm slot i, s'.Pending id isFromVm slot i ↔
      SetBy isVmId s call answer id isFromVm slot i ∨ s.Pending id isFromVm slot i := by
  cases effect with
  | refused error => exact ⟨consistent, fun id isFromVm slot i => ⟨.inr, fun
    | .inl absurd => by cases absurd.1
    | .inr pending => pending⟩⟩
  | @bound _ receiver cls n n' _ binds held replaces pending kinds =>
    have old := consistent _ _ _ held
    refine ⟨replaces.consistent consistent fun slot i set => ?_, fun id isFromVm slot i => ?_⟩
    · rw [pending] at set
      obtain ⟨below, kind⟩ := old slot i set
      exact ⟨below, (kinds slot i below set).trans kind⟩
    · have notSet : ¬SetBy isVmId s call .success id isFromVm slot i := by
        rintro ⟨-, sender, flags, bitmap, n, rfl, -⟩
        rcases binds with ⟨_, _, _, ⟨⟩⟩ | ⟨_, _, absurd⟩
        cases absurd
      rw [replaces.pending_iff, or_iff_right notSet]
      split
      · next here =>
        rw [here.1, here.2, NotificationManager.pending_of_held held, pending]
      · rfl
  | @set sender receiver flags bitmap n _ held below bound replaces =>
    have old := consistent _ _ _ held
    have updated (slot : Slot) (i : Nat) :
        (update n.pending (setSlot flags) (n.pending (setSlot flags) ||| bitmap) slot).getLsbD i = true ↔
          (setSlot flags = slot ∧ bitmap.getLsbD i = true) ∨ (n.pending slot).getLsbD i = true := by
      by_cases here : slot = setSlot flags
      · subst here
        rw [update_self, BitVec.getLsbD_or, Bool.or_eq_true]
        tauto
      · rw [update_of_ne here]
        exact ⟨.inr, fun either => either.resolve_left fun absurd => here absurd.1.symm⟩
    refine ⟨replaces.consistent consistent fun slot i set => ?_, fun id isFromVm slot i => ?_⟩
    · rcases (updated slot i).mp set with ⟨rfl, newBit⟩ | oldBit
      · exact ⟨below, (bound i newBit).2⟩
      · exact old slot i oldBit
    · rw [replaces.pending_iff]
      split
      · next here =>
        obtain ⟨rfl, rfl⟩ := here
        rw [updated, NotificationManager.pending_of_held held]
        refine or_congr_left ⟨fun set => ?_, ?_⟩
        · exact ⟨rfl, sender, flags, bitmap, n, rfl, set.2, set.1, rfl, held, (bound i set.2).1⟩
        · rintro ⟨-, _, _, _, _, ⟨⟩, set, slot, -⟩
          exact ⟨slot, set⟩
      · next elsewhere =>
        rw [or_iff_right]
        rintro ⟨-, _, _, _, _, ⟨⟩, -, -, class_, -⟩
        exact elsewhere ⟨rfl, class_.symm⟩

theorem Notifications.taken_pending (n : Notifications) (vcpuId : BitVec 16) (slot : Slot) (i : Nat) :
    ((n.taken vcpuId).pending slot).getLsbD i = true ↔
      (n.pending slot).getLsbD i = true ∧ ¬(slot = .global ∨ slot = .vcpu vcpuId.toNat) := by
  simp only [taken, update_apply]
  by_cases vcpu : slot = .vcpu vcpuId.toNat
  · simp [vcpu]
  · by_cases global : slot = .global
    · simp [global]
    · simp [vcpu, global]

/-- A read removes what was asked for and nothing else. -/
theorem NotificationManager.Takes.exact_ (takes : s.Takes id vcpuId asked s')
    (consistent : s.Consistent maxCpus) :
    s'.Consistent maxCpus ∧ ∀ id' isFromVm slot i, s'.Pending id' isFromVm slot i ↔
      s.Pending id' isFromVm slot i ∧ ¬(id' = id ∧ asked isFromVm = true ∧
      (slot = .global ∨ slot = .vcpu vcpuId.toNat)) := by
  refine ⟨fun id' isFromVm n held => ?_, fun id' isFromVm slot i => ?_⟩
  · rw [takes] at held
    split at held
    · simp only [Option.map_eq_some_iff] at held
      obtain ⟨n, held, rfl⟩ := held
      exact fun slot i set => consistent id' isFromVm n held slot i ((n.taken_pending vcpuId slot i).mp set).1
    · exact consistent id' isFromVm n held
  · rw [Pending, takes]
    split
    · next here =>
      simp only [Option.map_eq_some_iff, exists_exists_and_eq_and, Notifications.taken_pending,
        Pending, here, true_and]
      constructor
      · rintro ⟨n, held, set, kept⟩
        exact ⟨⟨n, held, set⟩, kept⟩
      · rintro ⟨⟨n, held, set⟩, kept⟩
        exact ⟨n, held, set, kept⟩
    · next elsewhere =>
      exact ⟨fun pending => ⟨pending, fun both => elsewhere ⟨both.1, both.2.1⟩⟩, And.left⟩

/-- A bit in an answer is pending in the slot that its binding says. -/
theorem visible_iff (consistent : n.Consistent maxCpus)
    (inSlot : slot = .global ∨ slot = .vcpu vcpuId.toNat) (i : Nat) :
    (n.visible vcpuId).getLsbD i = true ∧ n.bindingsPerVcpu.getLsbD i = slot.perVcpu ↔
      (n.pending slot).getLsbD i = true := by
  rw [Notifications.visible, BitVec.getLsbD_or, Bool.or_eq_true]
  constructor
  · rintro ⟨global | vcpu, kind⟩
    · rcases inSlot with rfl | rfl
      · exact global
      · exact absurd ((consistent _ _ global).2.symm.trans kind) Bool.false_ne_true
    · rcases inSlot with rfl | rfl
      · exact absurd ((consistent _ _ vcpu).2.symm.trans kind).symm Bool.false_ne_true
      · exact vcpu
  · intro set
    refine ⟨?_, (consistent _ _ set).2⟩
    rcases inSlot with rfl | rfl
    · exact .inl set
    · exact .inr set

end Exact

end Manager

end Hafnium.Api
