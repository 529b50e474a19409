import Hafnium.Api.Mem
import Hafnium.Ffa.Access

/-! # What the memory calls do to all partitions

A memory call changes the page table of its caller at most; all other partitions keep theirs. What
happens to the caller and to the share states is an effect of the memory-sharing functions, and
what a call can bring in is decided by its registers and the caller's send buffer.
-/

namespace Hafnium.Api

open Mm Ffa Partial Function

variable {m : MmConfig}

def Hyp.WellFormed (h : Hyp m) : Prop := ∀ {id : VmId} {vm : Vm m}, h.vms id = some vm → vm.WellFormed

/-- The same partition, or none, with the same addresses as before. -/
abbrev SameAddresses : Option (Vm m) → Option (Vm m) → Prop :=
  Option.Rel fun vm vm' => vm.Becomes vm.attrsAt vm'

variable {h h' : Hyp m} {vm vm' : Vm m} {env : CallEnv} {func : ShareFunc} {region : MemoryRegion}
  {call : MemCall} {meets : Hyp m → Vm m → CallEnv → MemCall → Prop}

theorem Hyp.WellFormed.sameAddresses (wf : h.WellFormed) (id : VmId) :
    SameAddresses (h.vms id) (h.vms id) := by
  cases found : h.vms id with
  | none => exact .none
  | some vm => exact .some (.refl (wf found))

/-- Only the caller's addresses may have changed. -/
structure Hyp.Changed (h : Hyp m) (vm vm' : Vm m) (h' : Hyp m) : Prop where
  caller : h'.vms vm.id = some vm'
  others : ∀ id ≠ vm.id, SameAddresses (h.vms id) (h'.vms id)

section Changed

variable {tee tee' : Vm m}

theorem Hyp.Changed.refl (wf : h.WellFormed) (caller : h.vms vm.id = some vm) (sharing : Sharing m) :
    h.Changed vm vm { h with sharing } := ⟨caller, fun id _ => wf.sameAddresses id⟩

theorem Hyp.Changed.setVm (wf : h.WellFormed) (same : vm'.id = vm.id) (sharing : Sharing m) :
    h.Changed vm vm' { h.setVm vm' with sharing } := by
  refine ⟨by simp only [Hyp.setVm, ← same, update_self], fun id other => ?_⟩
  simp only [Hyp.setVm, same, update_of_ne other]
  exact wf.sameAddresses id

theorem Hyp.Changed.setVms (wf : h.WellFormed) (found : h.vms tee.id = some tee)
    (kept : Kept tee tee') (same : vm'.id = vm.id) (sharing : Sharing m) :
    h.Changed vm vm' { (h.setVm tee').setVm vm' with sharing } := by
  refine ⟨by simp only [Hyp.setVm, ← same, update_self], fun id other => ?_⟩
  obtain ⟨mailbox, rfl⟩ := kept
  simp only [Hyp.setVm, same, update_of_ne other]
  by_cases isTee : id = tee.id
  · rw [isTee, update_self, found]
    exact .some ((Vm.Becomes.refl (wf found)).setMailbox mailbox)
  · rw [update_of_ne isTee]
    exact wf.sameAddresses id

end Changed

/-! ## The scope of a call -/

/-- What a send request brings in. -/
def memSendScope (vm : Vm m) (func : ShareFunc) (length fragmentLength : BitVec 32)
    (region : MemoryRegion) : Scope :=
  { Scope.nothing with
    sends := fun f => fragmentLength = length ∧
      f = if targetsOtherWorld m region then teeFragments region else firstFragment region fragmentLength
    stores := fun i func' stored => func' = func ∧ memSendCheckRegion vm func region = .ok () ∧
      Validated vm func region stored ∧
      (stored.handle = platFfaMemoryHandleMake m i ∨ (stored.receivers 0).receiver = hfTeeVmId)
    pends := True }

/-- What a further fragment brings in. -/
def fragTxScope (m : MmConfig) (states : ShareStates) (handle : Handle) (fragment : Bytes)
    (fragmentLength : BitVec 32) : Scope :=
  { continueScope m states handle fragment fragmentLength with
    adds := fun length => length = fragmentLength ∧ fragmentLength.toNat ≤ hfMailboxSize }

def MemCall.scope (h : Hyp m) (vm : Vm m) (env : CallEnv) : MemCall → Scope
  | .send func length fragmentLength _ _ =>
    match vm.mailbox.send with
    | none => .nothing
    | some message =>
      memSendScope vm func length fragmentLength
        (memoryRegionFrom (copyMessage message env.stale fragmentLength.toNat))
  | .fragTx handle fragmentLength _ =>
    match vm.mailbox.send with
    | none => .nothing
    | some message =>
      fragTxScope m h.sharing.shareStates handle
        (copyMessage message env.stale fragmentLength.toNat) fragmentLength
  | .reclaim handle _ =>
    match h.vms hfTeeVmId with
    | none => .nothing
    | some tee => teeReclaimScope vm tee handle env.answers env.retrieveBuffer
  | .retrieveReq length _ _ _ =>
    match vm.mailbox.send with
    | none => .nothing
    | some message => retrieveScope (memoryRegionFrom (copyMessage message env.stale length.toNat))
  | .fragRx .. | .relinquish => .nothing

/-- A call has changed its caller and the share states as some effect says. -/
def CallEffect (h : Hyp m) (vm : Vm m) (scope : Scope) (ret : FfaValue) (h' : Hyp m) : Prop :=
  ∃ vm', h.Changed vm vm' h' ∧ Effective scope vm h.sharing.shareStates ret vm' h'.sharing.shareStates

section Calls

variable {ret : FfaValue} {scope : Scope} {fragmentLength length : BitVec 32} {handle : Handle}
  {pool : Mpool} {address : BitVec 64} {pageCount : BitVec 32} {senderVmId : VmId}

/-- A call that is answered with an error. -/
theorem CallEffect.answer {error : FfaError} (wf : h.WellFormed) (caller : h.vms vm.id = some vm) :
    CallEffect h vm scope (ffaError error) { h with sharing := { h.sharing with pool } } :=
  ⟨vm, .refl wf caller _, .idle (.inl rfl) (.refl (wf caller)) (.refl _ _)⟩

theorem CallEffect.setVm {s : Sharing m} (wf : h.WellFormed)
    (effect : Effective scope vm h.sharing.shareStates ret vm' s.shareStates) :
    CallEffect h vm scope ret { h.setVm vm' with sharing := s } :=
  ⟨vm', .setVm wf effect.id_eq s, effect⟩

variable (wf : h.WellFormed) (caller : h.vms vm.id = some vm)
include wf caller

theorem memSendRegion_effect {page : PageNumber} (checked : memSendCheckRegion vm func region = .ok ()) :
    Post (memSendRegion h vm func length fragmentLength page region { h.sharing with pool }
      env.answers) fun r =>
      CallEffect h vm (memSendScope vm func length fragmentLength region) r.1 r.2 := by
  refine .ite (fun otherWorld => .ite (fun _ => .error) fun _ => ?_) fun thisWorld => ?_
  · split
    · exact .error
    next tee found =>
    refine .ite (fun _ => .error) fun isTee => .guard (.answer wf caller) fun _ => ?_
    refine .bind (ffaMemoryTeeSend_effect (wf caller)) fun ⟨ret, vm₁, tee₁, s₁⟩ ⟨effect, kept⟩ => .ok ?_
    refine ⟨vm₁, .setVms wf (by rw [h.vmIds found, found]) kept effect.id_eq s₁,
      effect.mono ⟨?_, ?_, False.elim, False.elim, False.elim, fun _ => trivial⟩⟩
    · rintro f ⟨whole, region⟩
      exact ⟨whole, region.trans (if_pos otherWorld).symm⟩
    · rintro i func' stored ⟨func, validated⟩
      exact ⟨func, checked, validated, .inr ((validated.same.receiver 0).trans
        ((h.vmIds found).symm.trans (not_not.mp isTee)))⟩
  · refine .bind (ffaMemorySend_effect (wf caller)) fun _ effect => .ok (.setVm wf (effect.mono ?_))
    refine ⟨?_, ?_, False.elim, False.elim, False.elim, fun _ => trivial⟩
    · rintro f ⟨whole, region⟩
      exact ⟨whole, region.trans (if_neg thisWorld).symm⟩
    · rintro i func' stored ⟨func, validated, handle⟩
      exact ⟨func, checked, validated, .inl handle⟩

theorem apiFfaMemSend_effect : Post (apiFfaMemSend h vm func length fragmentLength address pageCount
      env) fun r =>
      CallEffect h vm (MemCall.scope h vm env (.send func length fragmentLength address pageCount))
        r.1 r.2 := by
  refine .guard (.answer wf caller) fun _ => .guard (.answer wf caller) fun _ =>
    .guard (.answer wf caller) fun _ => ?_
  split
  · exact .ok (.answer wf caller)
  next message buffer =>
  refine .guard (.answer wf caller) fun _ => ?_
  split
  · exact .ok (.answer wf caller)
  simp only [MemCall.scope, buffer]
  split
  · exact .ok (.answer wf caller)
  · next checked =>
    obtain ⟨⟨⟩, regionOk, -⟩ := bind_ok_iff.mp checked
    exact memSendRegion_effect wf caller regionOk

theorem apiFfaMemFragTx_effect : Post (apiFfaMemFragTx h vm handle fragmentLength senderVmId env) fun r =>
      CallEffect h vm (MemCall.scope h vm env (.fragTx handle fragmentLength senderVmId)) r.1 r.2 := by
  refine .guard (.answer wf caller) fun _ => ?_
  split
  · exact .ok (.answer wf caller)
  next message buffer =>
  refine .guard (.answer wf caller) fun fits => .guard (.answer wf caller) fun _ => ?_
  split
  · exact .ok (.answer wf caller)
  simp only [MemCall.scope, buffer]
  have le : (continueScope m h.sharing.shareStates handle
      (copyMessage message env.stale fragmentLength.toNat) fragmentLength).Le
      (fragTxScope m h.sharing.shareStates handle
        (copyMessage message env.stale fragmentLength.toNat) fragmentLength) :=
    ⟨id, id, fun added => ⟨added, not_lt.mp fits⟩, id, id, id⟩
  refine .ite (fun _ => ?_) fun _ => ?_
  · exact .bind (ffaMemorySendContinue_effect (wf caller)) fun _ effect => .ok (.setVm wf (effect.mono le))
  · split
    · exact .error
    next tee found =>
    refine .bind (ffaMemoryTeeSendContinue_effect (wf caller)) fun ⟨ret, vm₁, tee₁, s₁⟩
      ⟨effect, kept⟩ => .ok ?_
    exact ⟨vm₁, .setVms wf (by rw [h.vmIds found, found]) kept effect.id_eq s₁, effect.mono le⟩

theorem apiFfaMemRetrieveReq_effect : Post (apiFfaMemRetrieveReq h vm length fragmentLength address
      pageCount env) fun r =>
      CallEffect h vm (MemCall.scope h vm env (.retrieveReq length fragmentLength address
        pageCount)) r.1 r.2 := by
  refine .guard (.answer wf caller) fun _ => .guard (.answer wf caller) fun _ =>
    .guard (.answer wf caller) fun _ => ?_
  split
  · exact .ok (.answer wf caller)
  · next message buffer =>
    simp only [MemCall.scope, buffer]
    refine .guard (.answer wf caller) fun _ => .bind (ffaMemoryRetrieve_effect (wf caller))
      fun _ effect => .ok ?_
    exact .setVm wf effect

theorem apiFfaMemRelinquish_effect : Post (apiFfaMemRelinquish h vm env) fun r =>
      CallEffect h vm .nothing r.1 r.2 := by
  rw [apiFfaMemRelinquish]
  split
  · exact .ok (.answer wf caller)
  · refine .guard (.answer wf caller) fun _ => .guard (.answer wf caller) fun _ => ?_
    exact .bind (ffaMemoryRelinquish_effect (wf caller)) fun _ effect => .ok (.setVm wf effect)

theorem apiFfaMemReclaim_effect {flags : RegionFlags} :
    Post (apiFfaMemReclaim h vm handle flags env) fun r =>
      CallEffect h vm (MemCall.scope h vm env (.reclaim handle flags)) r.1 r.2 := by
  refine .ite (fun _ => .bind (ffaMemoryReclaim_effect (wf caller)) fun _ effect => .ok ?_) fun _ => ?_
  · exact .setVm wf (effect.mono (Scope.nothing_le _))
  · split
    · exact .error
    · next found =>
      simp only [MemCall.scope, found]
      exact .bind (ffaMemoryTeeReclaim_effect (wf caller)) fun _ effect => .ok (.setVm wf effect)

theorem apiFfaMemFragRx_effect {fragmentOffset : BitVec 32} :
    Post (apiFfaMemFragRx h vm handle fragmentOffset senderVmId) fun r =>
      CallEffect h vm .nothing r.1 r.2 := by
  refine .guard (.answer wf caller) fun _ => .guard (.answer wf caller) fun _ => ?_
  exact .bind (ffaMemoryRetrieveContinue_effect (wf caller)) fun _ effect => .ok (.setVm wf effect)

/-- Every memory call has one of the effects, in its own scope. -/
theorem apiMemCall_effect (ran : apiMemCall h vm env call = .ok (ret, h')) :
    CallEffect h vm (call.scope h vm env) ret h' := by
  cases call with
  | send => exact apiFfaMemSend_effect wf caller _ ran
  | fragTx => exact apiFfaMemFragTx_effect wf caller _ ran
  | retrieveReq => exact apiFfaMemRetrieveReq_effect wf caller _ ran
  | fragRx => exact apiFfaMemFragRx_effect wf caller _ ran
  | relinquish => exact apiFfaMemRelinquish_effect wf caller _ ran
  | reclaim => exact apiFfaMemReclaim_effect wf caller _ ran

end Calls

def MemCall.isSend : MemCall → Bool
  | .send .. => true
  | _ => false

/-- Calls other than sends store no new transaction. -/
theorem MemCall.scope_stores {call : MemCall} (other : call.isSend = false) (i : Fin maxMemShares)
    (func : ShareFunc) (region : MemoryRegion) : ¬(call.scope h vm env).stores i func region := by
  intro stored
  cases call with
  | send => cases other
  | fragTx =>
    simp only [MemCall.scope] at stored
    split at stored <;> exact stored.elim
  | reclaim =>
    simp only [MemCall.scope] at stored
    split at stored <;> exact stored.elim
  | retrieveReq =>
    simp only [MemCall.scope] at stored
    split at stored <;> exact stored.elim
  | fragRx => exact stored.elim
  | relinquish => exact stored.elim

/-- What a call stores has passed the checks. -/
theorem MemCall.scope_storable {i : Fin maxMemShares}
    (stored : (call.scope h vm env).stores i func region) :
    Storable m maxMemShareRecipients i func region := by
  cases call with
  | send sendFunc length fragmentLength address pageCount =>
    simp only [MemCall.scope] at stored
    split at stored
    · exact stored.elim
    · obtain ⟨rfl, checked, validated, handle⟩ := stored
      simp only [memSendCheckRegion, bind_ok_iff, require_ok_iff] at checked
      obtain ⟨-, -, -, -, -, some, -, single, limit⟩ := checked
      have count := validated.same.receiverCount
      refine ⟨?_, ?_, ?_, fun donated => ?_, ?_, handle⟩
      · rw [count]
        exact Nat.pos_of_ne_zero fun zero => some (BitVec.eq_of_toNat_eq zero)
      · rw [count]
        exact not_lt.mp limit
      · simp only [count, validated.same.receiver, validated.same.sender]
        exact validated.notSender
      · rw [count]
        by_contra several
        exact single ⟨donated, several⟩
      · rw [count]
        exact validated.permits
  | _ => exact absurd stored (MemCall.scope_stores rfl _ _ _)

/-! ## Runs -/

/-- Whatever else happens between two memory calls: partitions write to their buffers and get
messages, page tables are tidied up, pages are allocated and freed. -/
structure Hyp.Quiet (h h' : Hyp m) : Prop where
  vms : ∀ id, SameAddresses (h.vms id) (h'.vms id)
  shareStates : h'.sharing.shareStates = h.sharing.shareStates

/-- A step of the system: a partition of this world makes a memory call that meets some condition,
or nothing that matters happens. -/
inductive Hyp.Step (meets : Hyp m → Vm m → CallEnv → MemCall → Prop) (h h' : Hyp m) : Prop
  | call {vm : Vm m} {env : CallEnv} {call : MemCall} {ret : FfaValue} (caller : h.vms vm.id = some vm)
      (world : vmIdIsCurrentWorld m vm.id = true) (meets : meets h vm env call)
      (returned : apiMemCall h vm env call = .ok (ret, h'))
  | quiet (quiet : h.Quiet h')

theorem SameAddresses.wellFormed {before : Option (Vm m)} (same : SameAddresses before (some vm)) :
    vm.WellFormed := by
  cases same with
  | some becomes => exact becomes.wellFormed

theorem Hyp.Changed.wellFormed (changed : h.Changed vm vm' h') (own : vm'.WellFormed) : h'.WellFormed := by
  intro id other found
  by_cases isCaller : id = vm.id
  · subst isCaller
    cases found.symm.trans changed.caller
    exact own
  · have same := changed.others id isCaller
    rw [found] at same
    exact same.wellFormed

/-- Page tables stay well formed. -/
theorem Hyp.Step.wellFormed (step : Hyp.Step meets h h') (wf : h.WellFormed) : h'.WellFormed := by
  cases step with
  | call caller world meets ran =>
    obtain ⟨vm', changed, view, becomes, -⟩ := apiMemCall_effect wf caller ran
    exact changed.wellFormed becomes.wellFormed
  | quiet quiet =>
    intro id vm found
    have same := quiet.vms id
    rw [found] at same
    exact same.wellFormed

/-- Share states stay valid. -/
theorem Hyp.Step.valid {limit : Nat} (step : Hyp.Step meets h h') (wf : h.WellFormed)
    (storable : ∀ {vm env call}, meets h vm env call →
      ∀ {i func region}, (call.scope h vm env).stores i func region →
      Storable m limit i func region) (valid : ValidStates m limit h.sharing.shareStates) :
    ValidStates m limit h'.sharing.shareStates := by
  cases step with
  | call caller world meets ran =>
    obtain ⟨vm', -, view, -, effect⟩ := apiMemCall_effect wf caller ran
    exact effect.valid (storable meets) valid
  | quiet quiet =>
    rw [quiet.shareStates]
    exact valid

end Hafnium.Api
