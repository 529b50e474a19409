import Hafnium.Api.Delivery

/-! # The binding discipline

A notification is bound to one sender of its class. Bindings change only by a bind of an unbound
notification or an unbind that names the sender, and never while the notification is pending; what is
pending was set by the sender that it is still bound to. This needs that no set call names the
identifier that stands for no sender.
-/

namespace Hafnium.Api

open Mm Ffa History Partial

/-- The sender that a notification is bound to, and whether it is bound per vCPU. -/
def NotificationManager.binding (s : NotificationManager) (id : VmId) (isFromVm : Bool) (i : Nat) :
    Option (VmId × Bool) :=
  (s.get id isFromVm).map fun n => (n.bindingsSenderId i, n.bindingsPerVcpu.getLsbD i)

structure BindingEvent where
  caller : VmId
  call : NotificationCall
  answer : NotificationAnswer

/-- A bind, unbind or set call to a partition manager. The other world may do anything with the calls
that are passed on. -/
inductive BindingStep (c : NotificationConfig) (meets : NotificationCall → Prop) (s : NotificationManager) :
    BindingEvent → NotificationManager → Prop
  | call {relay : Relay} {caller : VmId} {call : NotificationCall}
      {other other' s' : NotificationManager} {cpu : Nat}
      {answer : NotificationAnswer} (notGet : ∀ id vcpuId flags, call ≠ .get id vcpuId flags)
        (allowed : meets call)
      (returned : call.run c relay caller s other cpu = .ok (answer, s', other')) :
        BindingStep c meets s ⟨caller, call, answer⟩ s'

/-- Set calls name a sender. -/
def NotificationCall.Named (call : NotificationCall) : Prop :=
  ∀ sender receiver flags bitmap, call = .set sender receiver flags bitmap → sender ≠ hfInvalidVmId

namespace BindingEvent

variable (c : NotificationConfig) (s : NotificationManager) (event : BindingEvent) (id : VmId)
  (isFromVm : Bool) (i : Nat)

/-- A partition calls for itself, or the hypervisor for one of its VMs. -/
def For : Prop :=
  event.caller = id ∨ c.world.features.secureWorld = true ∧ event.caller = hfHypervisorVmId ∧
    vmIdIsCurrentWorld c.world id = false

/-- The receiver binds the notification, which is unbound, or unbinds it from its sender. -/
def Rebinds : Prop :=
  event.answer = .success ∧ event.For c id ∧ (∀ slot, ¬s.Pending id isFromVm slot i) ∧
  ∃ sender bitmap perVcpu, bitmap.getLsbD i = true ∧ platFfaIsVmId c.world sender = isFromVm ∧
    ((∃ flags, event.call = .bind sender id flags bitmap) ∧
      s.binding id isFromVm i = some (hfInvalidVmId, perVcpu) ∨
      event.call = .unbind sender id bitmap ∧ s.binding id isFromVm i = some (sender, perVcpu))

/-- The sender sets the notification. -/
def SetsFor (sender : VmId) (slot : Slot) : Prop :=
  event.answer = .success ∧ event.For c sender ∧ sender ≠ hfInvalidVmId ∧
    platFfaIsVmId c.world sender = isFromVm ∧
  ∃ flags bitmap, event.call = .set sender id flags bitmap ∧ bitmap.getLsbD i = true ∧ setSlot flags = slot

end BindingEvent

variable {c : NotificationConfig} {event : BindingEvent}

section Step

variable {s s' other other' : NotificationManager} {id receiver : VmId} {i : Nat}
  {isFromVm : Bool} {meets : NotificationCall → Prop} {n : Notifications}

theorem NotificationManager.Replaces.binding {cls : Bool}
    (replaces : s.Replaces receiver cls n s') : s'.binding id isFromVm i =
      if id = receiver ∧ isFromVm = cls then
        some (n.bindingsSenderId i, n.bindingsPerVcpu.getLsbD i)
      else s.binding id isFromVm i := by
  rw [NotificationManager.binding, replaces]
  split <;> rfl

theorem NotificationManager.binding_of_held (held : s.get id isFromVm = some n) :
    s.binding id isFromVm i = some (n.bindingsSenderId i, n.bindingsPerVcpu.getLsbD i) := by
  rw [binding, held]
  rfl

theorem bindValid_for {sender current : VmId}
    (valid : platFfaIsNotificationsBindValid c current sender receiver = true)
    (call : NotificationCall) (answer : NotificationAnswer) :
    (⟨current, call, answer⟩ : BindingEvent).For c receiver := by
  rw [platFfaIsNotificationsBindValid] at valid
  split at valid
  · next spmc =>
    simp only [Bool.and_eq_true, Bool.or_eq_true, decide_eq_true_eq, Bool.not_eq_true'] at valid
    rcases valid.2 with same | ⟨⟨hypervisor, foreign⟩, -⟩
    · exact .inl same
    · exact .inr ⟨spmc, hypervisor, foreign⟩
  · exact .inl (of_decide_eq_true valid).2

/-- A binding that a bind or unbind call changes. -/
theorem updateBindings_rebinds {relay : Relay} {current sender : VmId} {flags : BitVec 32}
    {bitmap : BitVec 64} {isBind : Bool} {call : NotificationCall}
    (isCall : (if isBind then .bind sender receiver flags bitmap else .unbind sender receiver bitmap) = call)
    (consistent : s.Consistent c.maxCpus) :
    Post (apiFfaNotificationUpdateBindings c relay current s other sender receiver flags bitmap
      isBind) fun r =>
      r.2.1.binding id isFromVm i ≠ s.binding id isFromVm i →
        (⟨current, call, r.1⟩ : BindingEvent).Rebinds c s id isFromVm i := by
  rintro ⟨answer, s', other'⟩ ran changed
  rcases apiFfaNotificationUpdateBindings_ok _ ran with ⟨error, same⟩ | ⟨-, rfl, -⟩ | ⟨valid, rfl,
      -, n, held, bound, free, replaces⟩
  · cases same
    exact absurd rfl changed
  · exact absurd rfl changed
  rw [replaces.binding] at changed
  split at changed
  · next here =>
    obtain ⟨rfl, rfl⟩ := here
    rw [NotificationManager.binding_of_held held] at changed
    have named : bitmap.getLsbD i = true := by
      by_contra unnamed
      rw [Bool.not_eq_true] at unnamed
      rw [updateBindings_kept _ _ _ unnamed] at changed
      exact changed (by simp [vmNotificationsUpdateBindings, unnamed])
    refine ⟨rfl, bindValid_for valid _ _, ?_, sender, bitmap, n.bindingsPerVcpu.getLsbD i, named, rfl, ?_⟩
    · rintro slot ⟨n', held', pending⟩
      cases held.symm.trans held'
      exact Bool.false_ne_true ((free slot i (consistent _ _ _ held slot i pending).1
        pending).symm.trans named)
    · rw [NotificationManager.binding_of_held held, bound i named]
      cases isBind with
      | true => exact .inl ⟨⟨flags, isCall.symm⟩, rfl⟩
      | false => exact .inr ⟨isCall.symm, rfl⟩
  · exact absurd rfl changed

/-- What a step does to the bindings. -/
theorem BindingStep.rebinds (consistent : s.Consistent c.maxCpus) (step : BindingStep c meets s event s')
    (changed : s'.binding id isFromVm i ≠ s.binding id isFromVm i) : event.Rebinds c s id isFromVm i := by
  rcases step with @⟨_, _, call, _, _, _, _, _, notGet, -, ran⟩
  cases call with
  | bind sender receiver flags bitmap => exact updateBindings_rebinds (if_pos rfl) consistent _ ran changed
  | unbind sender receiver bitmap =>
    exact updateBindings_rebinds (if_neg Bool.false_ne_true) consistent _ ran changed
  | set sender receiver flags bitmap =>
    refine absurd ?_ changed
    rcases apiFfaNotificationSet_effect _ ran with ⟨-, effect, -⟩ | ⟨-, same, -⟩
    · cases effect with
      | refused error => rfl
      | bound binds => rcases binds with ⟨_, _, _, absurd⟩ | ⟨_, _, absurd⟩ <;> cases absurd
      | set held _ _ replaces =>
        rw [replaces.binding]
        split
        · next here => rw [here.1, here.2, NotificationManager.binding_of_held held]
        · rfl
    · rw [show s' = s from same]
  | get id vcpuId flags => exact absurd rfl (notGet _ _ _)

/-- What a step does to the pending notifications. -/
theorem BindingStep.pending (consistent : s.Consistent c.maxCpus) (step : BindingStep c meets s event s') :
    s'.Consistent c.maxCpus ∧ (∀ error, event.answer = .error error → s' = s) ∧ ∀ id isFromVm slot i,
      s'.Pending id isFromVm slot i → SetBy (platFfaIsVmId c.world)
        s event.call event.answer id isFromVm slot i ∨ s.Pending id isFromVm slot i := by
  rcases step with @⟨_, _, _, _, _, _, _, _, notGet, -, ran⟩
  rcases NotificationCall.run_effect notGet ran with ⟨-, effect, -⟩ | ⟨-, rfl, -⟩
  · obtain ⟨consistent', pending⟩ := effect.exact_ consistent
    refine ⟨consistent', ?_, fun id isFromVm slot i => (pending id isFromVm slot i).mp⟩
    rintro error rfl
    cases effect
    rfl
  · exact ⟨consistent, fun _ _ => rfl, fun _ _ _ _ => .inr⟩

/-- The sender of a notification that a step sets. -/
theorem BindingStep.setsFor (step : BindingStep c NotificationCall.Named s event s') {slot : Slot}
    (set : SetBy (platFfaIsVmId c.world) s event.call event.answer id isFromVm slot i) :
    ∃ sender perVcpu, s.binding id isFromVm i = some (sender, perVcpu) ∧
    event.SetsFor c id isFromVm i sender slot := by
  rcases step with @⟨_, _, _, _, _, _, _, _, -, named, ran⟩
  obtain ⟨success, sender, flags, bitmap, n, called, bit, inSlot, cls, held, bound⟩ := set
  subst called success
  refine ⟨sender, _, (NotificationManager.binding_of_held held).trans (by rw [bound]), rfl, ?_,
    named _ _ _ _ rfl, cls, flags, bitmap, rfl, bit, inSlot⟩
  exact NotificationCall.run_set ran

end Step

/-- Every pending notification was set by its sender. -/
def SetByBound (c : NotificationConfig) (s : NotificationManager) (events : List BindingEvent) : Prop :=
  ∀ id isFromVm slot i, s.Pending id isFromVm slot i →
    ∃ sender, s.binding id isFromVm i = some (sender, slot.perVcpu) ∧
    ∃ event ∈ events, event.SetsFor c id isFromVm i sender slot

section Run

variable {s s' s'' : NotificationManager} {events : List BindingEvent}

/-- A step keeps that. A notification that is pending has its binding. -/
theorem SetByBound.step (consistent : s.Consistent c.maxCpus) (setBy : SetByBound c s events)
    (step : BindingStep c NotificationCall.Named s event s') : SetByBound c s' (event :: events) := by
  intro id isFromVm slot i pending
  obtain ⟨consistent', -, before⟩ := step.pending consistent
  have kind {sender : VmId} {perVcpu : Bool}
      (bound : s'.binding id isFromVm i = some (sender, perVcpu)) : perVcpu = slot.perVcpu := by
    obtain ⟨n, held, set⟩ := pending
    rw [NotificationManager.binding_of_held held] at bound
    cases bound
    exact (consistent' _ _ _ held slot i set).2
  rcases before id isFromVm slot i pending with set | old
  · obtain ⟨sender, perVcpu, bound, sets⟩ := step.setsFor set
    have same : s'.binding id isFromVm i = s.binding id isFromVm i := by
      by_contra changed
      obtain ⟨-, -, -, _, _, _, -, -, ⟨⟨_, absurd⟩, -⟩ | ⟨absurd, -⟩⟩ := step.rebinds consistent changed
      all_goals
        obtain ⟨-, -, -, -, _, _, called, -⟩ := sets
        cases absurd.symm.trans called
    rw [← same] at bound
    exact ⟨sender, kind bound ▸ bound, event, List.mem_cons_self, sets⟩
  · obtain ⟨sender, bound, e, member, sets⟩ := setBy id isFromVm slot i old
    have same : s'.binding id isFromVm i = s.binding id isFromVm i := by
      by_contra changed
      exact (step.rebinds consistent changed).2.2.1 slot old
    exact ⟨sender, same.trans bound, e, List.mem_cons_of_mem _ member, sets⟩

theorem SetByBound.run (fresh : ∀ id isFromVm slot i, ¬s.Pending id isFromVm slot i)
    (runs : Runs (BindingStep c NotificationCall.Named) s events s') :
    s'.Consistent c.maxCpus ∧ SetByBound c s' events := by
  induction runs with
  | nil =>
    refine ⟨fun id isFromVm n held slot i set => absurd ⟨n, held, set⟩ (fresh id isFromVm slot i), ?_⟩
    exact fun id isFromVm slot i pending => absurd pending (fresh id isFromVm slot i)
  | cons runs last ih => exact ⟨(last.pending ih.1).1, ih.2.step ih.1 last⟩

/-- In every run from a state without pending notifications: a call that fails changes nothing, only a
bind of an unbound notification or an unbind from its sender changes a binding, and what is pending was
set by the sender that it is bound to, as its binding says. -/
theorem binding_discipline (fresh : ∀ id isFromVm slot i, ¬s.Pending id isFromVm slot i)
    (runs : Runs (BindingStep c NotificationCall.Named) s events s')
    (last : BindingStep c NotificationCall.Named s' event s'') :
    (∀ error, event.answer = .error error → s'' = s') ∧
    (∀ id isFromVm i, s''.binding id isFromVm i ≠ s'.binding id isFromVm i →
      event.Rebinds c s' id isFromVm i) ∧
    SetByBound c s'' (event :: events) := by
  obtain ⟨consistent, setBy⟩ := SetByBound.run fresh runs
  refine ⟨(last.pending consistent).2.1, fun id isFromVm i => last.rebinds consistent, ?_⟩
  exact setBy.step consistent last

end Run

/-- A call to a partition manager on one CPU, with nothing to pass it on to. -/
def callAlone (c : NotificationConfig) (caller : VmId) (call : NotificationCall) (s : NotificationManager) :
    Run (NotificationAnswer × NotificationManager × NotificationManager) :=
  call.run c (fun _ other => .ok (.error .notSupported, other)) caller s ⟨fun _ => none, 0⟩ 0

/-- The first notification of VM 1 is bound to VM 2. -/
def firstBound : NotificationManager :=
  let n := vmNotificationsUpdateBindings (vmGetNotifications unboundVm true) 2 1 false
  unboundWorld.hypervisor.put 1 (unboundVm.putNotifications true n)

theorem binding_discipline_first_bit : ∃ s'' bind set,
      Runs (BindingStep uniprocessor.hypervisor NotificationCall.Named)
    unboundWorld.hypervisor [bind] firstBound ∧
    BindingStep uniprocessor.hypervisor NotificationCall.Named firstBound set s'' ∧
    s''.Pending 1 true .global 0 ∧ SetByBound uniprocessor.hypervisor s'' [set, bind] := by
  have bound : callAlone uniprocessor.hypervisor 1 (.bind 2 1 0 1) unboundWorld.hypervisor =
      .ok (.success, firstBound, _) := rfl
  have set := show callAlone uniprocessor.hypervisor 2 (.set 2 1 0 1) firstBound = .ok (.success, _,
    _) from rfl
  have runs : Runs (BindingStep uniprocessor.hypervisor NotificationCall.Named) _ _ _ :=
    Runs.nil.cons (.call (fun _ _ _ same => by cases same) (fun _ _ _ _ same => by cases same) bound)
  have last : BindingStep uniprocessor.hypervisor NotificationCall.Named _ _ _ :=
    .call (fun _ _ _ same => by cases same) (fun _ _ _ _ same => by cases same; decide) set
  have fresh (id isFromVm slot i) : ¬unboundWorld.hypervisor.Pending id isFromVm slot i :=
    unboundWorld_not_pending ⟨.hypervisor, id, isFromVm, slot, i⟩
  exact ⟨_, _, _, runs, last, ⟨_, rfl, by decide⟩, (binding_discipline fresh runs last).2.2⟩

/-- The normal world sets a notification of a secure partition that is bound to nobody. -/
theorem unbound_notification_set : ∃ event s', BindingStep uniprocessor.spmc (fun _ => True)
      unboundWorld.spmc event s' ∧
    (∀ bit, ¬unboundWorld.Pending bit) ∧ s'.Pending 0x8001 true .global 0 ∧
    s'.binding 0x8001 true 0 = some (hfInvalidVmId, false) ∧ ¬SetByBound uniprocessor.spmc s' [event] := by
  have set := show callAlone uniprocessor.spmc hfHypervisorVmId (.set hfInvalidVmId 0x8001 0 1)
    unboundWorld.spmc = .ok (.success, _, _)
    from rfl
  refine ⟨_, _, .call (fun _ _ _ same => by cases same) trivial set, unboundWorld_not_pending,
    ⟨_, rfl, by decide⟩, rfl, fun setBy => ?_⟩
  obtain ⟨sender, bound, event, member, -, -, named, -⟩ := setBy 0x8001 true .global 0 ⟨_, rfl, by decide⟩
  cases bound
  exact named rfl

end Hafnium.Api
