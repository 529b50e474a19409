import Hafnium.Api.MailboxFrame
import Hafnium.Api.Ownership
import Hafnium.Ffa.Handles

/-! # Handles across calls

The share states that any sequence of memory calls leads to have unique handles, as long as the TEE
keeps its own handles apart.
-/

namespace Hafnium.Api

open Mm Ffa SlotTable Partial Function

variable {m : MmConfig}

/-! ## Reachable tables -/

/-- The TEE gives a transaction a handle that is not in use, and not one that is made here. -/
def TeeNamesFresh (m : MmConfig) (states : ShareStates) (answers : List TeeAnswer) : Prop :=
  ∀ answer ∈ answers, (∀ i : Fin maxMemShares, ffaFragHandle answer.value ≠ platFfaMemoryHandleMake m i) ∧
    ∀ i state, states i = some state → state.handle ≠ ffaFragHandle answer.value

/-- The tables of share states that memory calls lead to. In between, everything but the table may
change. The SPMC has no partition with the identifier of the TEE. -/
inductive ReachableTable (m : MmConfig) : ShareStates → Prop
  | empty : ReachableTable m fun _ => none
  | call {h h' : Hyp m} {vm : Vm m} {env : CallEnv} {call : MemCall} {ret : FfaValue} (wf : h.WellFormed)
      (caller : h.vms vm.id = some vm) (noTee : m.features.secureWorld = true → h.vms hfTeeVmId = none)
      (fresh : call.isSend = true → TeeNamesFresh m h.sharing.shareStates env.answers)
      (before : ReachableTable m h.sharing.shareStates)
        (returned : apiMemCall h vm env call = .ok (ret, h')) :
      ReachableTable m h'.sharing.shareStates

/-! ## Slots that are opened -/

/-- A slot that a send request opens: for a transaction of partitions with a handle made here, or for
one with the TEE under the handle from its answer. -/
inductive OpensSlot (h : Hyp m) (env : CallEnv) (ret : FfaValue) (i : Fin maxMemShares)
    (state : ShareState) : Prop
  | own (handle : state.handle = platFfaMemoryHandleMake m i) (returns : ReturnsHandle ret state.handle)
      (receiver : (state.memoryRegion.receivers 0).receiver ≠ hfTeeVmId)
  | tee (found : h.vms hfTeeVmId ≠ none) (receiver : (state.memoryRegion.receivers 0).receiver = hfTeeVmId)
      (answered : ∃ answer ∈ env.answers, ret = answer.value) (fragRx : ret.func = ffaMemFragRx32)
      (named : state.handle =
        if ffaFragHandle ret = ffaMemoryHandleInvalid then platFfaMemoryHandleMake m i else ffaFragHandle ret)

/-- A descriptor that a send request has copied, after the checks of the call itself. -/
structure SendChecked (h : Hyp m) (vm : Vm m) (func : ShareFunc) (fragmentLength : BitVec 32)
    (region : MemoryRegion) : Prop where
  copied : fragmentLength.toNat ≤ hfMailboxSize
  accepted : memSendCheckRegion vm func region = .ok ()
  receivers : ∀ access ∈ region.receiverList, memSendCheckReceiver h vm func access = .ok ()

/-- What a send request puts into a slot, and what it answers. -/
inductive SendOpens (h : Hyp m) (vm : Vm m) (func : ShareFunc) (length fragmentLength : BitVec 32)
    (region : MemoryRegion) (env : CallEnv) (ret : FfaValue) (i : Fin maxMemShares)
    (state : ShareState) : Prop
  | own (thisWorld : targetsOtherWorld m region = false) (handle : state.handle = platFfaMemoryHandleMake m i)
      (returns : ReturnsHandle ret state.handle)
        (stores : StoresFirst vm region length fragmentLength func state)
  | tee (found : h.vms hfTeeVmId ≠ none) (receiver : (region.receivers 0).receiver = hfTeeVmId)
      (answered : ∃ answer ∈ env.answers, ret = answer.value) (fragRx : ret.func = ffaMemFragRx32)
      (stores : StoresFirst vm region length fragmentLength func state)
      (named : state.handle =
        if ffaFragHandle ret = ffaMemoryHandleInvalid then platFfaMemoryHandleMake m i else ffaFragHandle ret)

variable {h : Hyp m} {vm : Vm m} {env : CallEnv} {ret : FfaValue} {i : Fin maxMemShares} {state : ShareState}
  {states states' : ShareStates} {handle : Handle}

section Send

variable {h' : Hyp m} {func : ShareFunc} {length fragmentLength : BitVec 32}
  {region : MemoryRegion} {address : BitVec 64} {pageCount : BitVec 32}

/-- The first receiver of a request that stays in this world is not the TEE. -/
theorem receiver_ne_tee (noTee : m.features.secureWorld = true → h.vms hfTeeVmId = none)
    (some : region.receiverCount ≠ 0) (thisWorld : targetsOtherWorld m region = false)
    (checked : ∀ access ∈ region.receiverList, memSendCheckReceiver h vm func access = .ok ()) :
    (region.receivers 0).receiver ≠ hfTeeVmId := by
  have first : region.receivers 0 ∈ region.receiverList := by
    have positive : 0 < region.receiverCount.toNat :=
      Nat.pos_of_ne_zero fun zero => some (BitVec.eq_of_toNat_eq zero)
    exact List.mem_map.mpr ⟨0, List.mem_range.mpr positive, rfl⟩
  intro isTee
  have inWorld : vmIdIsCurrentWorld m (region.receivers 0).receiver = true := by
    rw [targetsOtherWorld, List.any_eq_false] at thisWorld
    simpa using thisWorld _ first
  have exists_ := checked _ first
  simp only [memSendCheckReceiver, bind_ok_iff, require_ok_iff, not_and, not_or] at exists_
  obtain ⟨-, exists_, -⟩ := exists_
  rw [isTee] at inWorld exists_
  cases secure : m.features.secureWorld with
  | true => exact (exists_ inWorld).1 (noTee secure)
  | false =>
    simp only [vmIdIsCurrentWorld, hfOtherWorldId, secure] at inWorld
    exact absurd inWorld (by decide)

theorem SendOpens.stored (opens : SendOpens h vm func length fragmentLength region env ret i state) :
    StoresFirst vm region length fragmentLength func state := by
  cases opens with
  | own thisWorld handle returns stores => exact stores
  | tee found receiver answered fragRx stores named => exact stores

theorem memSendRegion_slots {page : PageNumber} {s : Sharing m} (wf : h.WellFormed)
    (caller : h.vms vm.id = some vm) :
    Post (memSendRegion h vm func length fragmentLength page region s env.answers) fun r =>
      SendSlots (SendOpens h vm func length fragmentLength region env r.1)
        s.shareStates r.2.sharing.shareStates := by
  refine .ite (fun _ => .ite (fun _ => .error) fun _ => ?_) fun thisWorld =>
    .step fun ⟨ret₁, vm₁, s₁⟩ sent => .ok ?_
  · split
    · exact .error
    next tee found =>
    refine .ite (fun _ => .error) fun isTee => .guard .same fun _ => .step fun ⟨ret₁, vm₁, tee₁, s₁⟩
      sent => .ok ?_
    have receiver := (h.vmIds found).symm.trans (not_not.mp isTee)
    refine (ffaMemoryTeeSend_slots _ sent).mono ?_
    rintro i state ⟨answered, fragRx, stores, named⟩
    have exists_ : h.vms hfTeeVmId ≠ none := by
      rw [← receiver, found]
      exact Option.some_ne_none _
    exact .tee exists_ receiver answered fragRx stores named
  · refine (ffaMemorySend_slots (wf caller) _ sent).mono ?_
    rintro i state ⟨handle, returns, stores⟩
    exact .own (Bool.eq_false_iff.mpr thisWorld) handle returns stores

/-- A send request opens one slot at most. -/
theorem apiFfaMemSend_slots (wf : h.WellFormed) (caller : h.vms vm.id = some vm) :
    Post (apiFfaMemSend h vm func length fragmentLength address pageCount env) fun r =>
      SendSlots (fun i state => ∃ region, SendChecked h vm func fragmentLength region ∧
        SendOpens h vm func length fragmentLength region env r.1 i state)
          h.sharing.shareStates r.2.sharing.shareStates := by
  refine .guard .same fun _ => .guard .same fun _ => .guard .same fun _ => ?_
  split
  · exact .ok .same
  refine .guard .same fun copied => ?_
  split
  · exact .ok .same
  next page pool allocated =>
  dsimp only
  split
  · exact .ok .same
  next checked =>
  obtain ⟨⟨⟩, regionOk, receiversOk⟩ := bind_ok_iff.mp checked
  rintro ⟨ret, h'⟩ ran
  refine (memSendRegion_slots wf caller _ ran).mono ?_
  intro i state opens
  exact ⟨_, ⟨not_lt.mp copied, regionOk, forM_ok_iff.mp receiversOk⟩, opens⟩

theorem apiFfaMemSend_opensSlot (wf : h.WellFormed)
    (caller : h.vms vm.id = some vm) (noTee : m.features.secureWorld = true → h.vms hfTeeVmId = none)
    (ran : apiFfaMemSend h vm func length fragmentLength address pageCount env = .ok (ret, h')) :
    SendSlots (OpensSlot h env ret) h.sharing.shareStates h'.sharing.shareStates := by
  refine (apiFfaMemSend_slots wf caller _ ran).mono ?_
  rintro i state ⟨region, checked, opens⟩
  cases opens with
  | own thisWorld handle returns stores =>
    have regionOk := checked.accepted
    simp only [memSendCheckRegion, bind_ok_iff, require_ok_iff] at regionOk
    obtain ⟨-, -, -, -, -, some, -⟩ := regionOk
    refine .own handle returns ?_
    rw [stores.receiver]
    exact receiver_ne_tee noTee some thisWorld checked.receivers
  | tee found receiver answered fragRx stores named =>
    exact .tee found (stores.receiver.trans receiver) answered fragRx named

end Send

/-! ## Names of reachable transactions -/

/-- How the share state in a slot got its handle. -/
structure Named (m : MmConfig) (i : Fin maxMemShares) (state : ShareState) : Prop where
  made : (state.memoryRegion.receivers 0).receiver ≠ hfTeeVmId → state.handle = platFfaMemoryHandleMake m i
  apart : state.handle = platFfaMemoryHandleMake m i ∨
    ∀ j : Fin maxMemShares, state.handle ≠ platFfaMemoryHandleMake m j
  spmc : m.features.secureWorld = true → (state.memoryRegion.receivers 0).receiver ≠ hfTeeVmId

/-- The names in a table of share states are unique, and each says where it is from. -/
structure NamedTable (m : MmConfig) (states : ShareStates) : Prop where
  unique : Unique ShareState.handle states
  named : ∀ {i state}, states i = some state → Named m i state

theorem NamedTable.keeps (table : NamedTable m states) (keeps : KeepsRegions states states') :
    NamedTable m states' := by
  refine ⟨table.unique.of_keeps fun i state' held => ?_, fun held => ?_⟩
  · obtain ⟨before, heldBefore, same⟩ := keeps _ _ held
    exact ⟨before, heldBefore, congrArg MemoryRegion.handle same⟩
  · obtain ⟨before, heldBefore, same⟩ := keeps _ _ held
    have named := table.named heldBefore
    constructor
    · rw [ShareState.handle, same]
      exact named.made
    · rw [ShareState.handle, same]
      exact named.apart
    · rw [same]
      exact named.spmc

/-- A slot is opened with a name of its own. -/
theorem NamedTable.opens (table : NamedTable m h.sharing.shareStates)
    (noTee : m.features.secureWorld = true → h.vms hfTeeVmId = none)
    (fresh : TeeNamesFresh m h.sharing.shareStates env.answers)
    (opens : OpensSlot h env ret i state) :
    NamedTable m (update h.sharing.shareStates i (some state)) := by
  -- A name made from this slot is not in use elsewhere.
  have madeFresh (handle : state.handle = platFfaMemoryHandleMake m i) {j : Fin maxMemShares}
      {other : ShareState}
      (different : j ≠ i) (held : h.sharing.shareStates j = some other) : other.handle ≠ state.handle := by
    rw [handle]
    rcases (table.named held).apart with made | apart
    · rw [made]
      exact fun same => different (platFfaMemoryHandleMake_inj same)
    · exact apart i
  have named : Named m i state ∧ ∀ {j other}, j ≠ i → h.sharing.shareStates j = some other →
      other.handle ≠ state.handle := by
    cases opens with
    | own handle returns receiver =>
      exact ⟨⟨fun _ => handle, .inl handle, fun _ => receiver⟩, madeFresh handle⟩
    | tee found receiver answered fragRx given =>
      obtain ⟨answer, member, rfl⟩ := answered
      have spmc (secure : m.features.secureWorld = true) :
          (state.memoryRegion.receivers 0).receiver ≠ hfTeeVmId :=
        absurd (noTee secure) found
      split at given
      · exact ⟨⟨fun _ => given, .inl given, spmc⟩, madeFresh given⟩
      · obtain ⟨notMade, notHeld⟩ := fresh answer member
        refine ⟨⟨fun other => absurd receiver other, .inr ?_, spmc⟩, fun _ held => ?_⟩
        · rw [given]
          exact notMade
        · rw [given]
          exact notHeld _ _ held
  refine ⟨table.unique.update_fresh (fun j other => named.2), fun {j other} held => ?_⟩
  rcases eq_or_ne j i with rfl | different
  · rw [update_self] at held
    cases held
    exact named.1
  · rw [update_of_ne different] at held
    exact table.named held

/-- What holds of the names in every reachable table. -/
theorem ReachableTable.named (reachable : ReachableTable m states) : NamedTable m states := by
  induction reachable with
  | empty => exact ⟨Unique.empty _, nofun⟩
  | @call h h' vm env call ret wf caller noTee fresh before ran ih =>
    cases isSend : call.isSend with
    | false =>
      obtain ⟨vm', -, view, -, effect⟩ := apiMemCall_effect wf caller ran
      exact ih.keeps (effect.carries (fun state state' => state'.memoryRegion = state.memoryRegion)
        (MemCall.scope_stores isSend) (fun region _ => region) fun _ region _ => region)
    | true =>
      cases call with
      | send func length fragmentLength address pageCount =>
        have slots := apiFfaMemSend_opensSlot wf caller noTee ran
        generalize h'.sharing.shareStates = states' at slots ⊢
        cases slots with
        | same => exact ih
        | opened free opens => exact ih.opens noTee (fresh isSend) opens
      | _ => cases isSend

/-- In every reachable table, looking up a handle is exact, unless it looks like a handle made here
and its slot has a transaction with another one. -/
theorem getShareState_exact_iff {states : ShareStates} (reachable : ReachableTable m states)
    (handle : Handle) : LookupExact m states handle ↔ ¬Mistaken m states handle :=
  lookupExact_iff reachable.named.unique handle

/-- Partition 1 shares a page of its own with partition 2 and finds its transaction. -/
theorem getShareState_exact_own_page :
    ∃ states, ReachableTable smallConfig states ∧ (∃ i, (states i).isSome) ∧
      LookupExact smallConfig states (platFfaMemoryHandleMake smallConfig firstSlot) := by
  have run : returnsWith ffaSuccess32 shareOwn
      (fun h => ((h.sharing.shareStates firstSlot).map ShareState.handle) =
        some (platFfaMemoryHandleMake smallConfig firstSlot)) = true := by
    decide +kernel
  obtain ⟨ret, h', returned, success, stored⟩ := returnsWith_iff.mp run
  obtain ⟨state, held, named⟩ := Option.map_eq_some_iff.mp (of_decide_eq_true stored)
  have reachable : ReachableTable smallConfig h'.sharing.shareStates :=
    .call (twoPartitions_wellFormed _) rfl nofun (fun _ answer member => by cases member) .empty returned
  refine ⟨h'.sharing.shareStates, reachable, ⟨firstSlot, by rw [held]; rfl⟩,
    (getShareState_exact_iff reachable _).mpr ?_⟩
  rintro ⟨-, i, other, index, heldHere, different⟩
  rw [ffaMemoryHandleGetIndex_make firstSlot] at index
  obtain rfl := Fin.ext index
  cases held.symm.trans heldHere
  exact different named

/-- Partition 1 and the TEE. -/
def withTee (message : Bytes) : Hyp smallConfig :=
  partitions (attrsVm 1 0 ordinaryAttrs (some message)) (attrsVm hfTeeVmId 1 ordinaryAttrs none)

/-- Partition 1 offers a page of its own and another one to the TEE; the first fragment of the
descriptor ends after the first page. -/
def lendTwoPages : Bytes := messageOf [(0, 1), (28, 1), (33, 0x80), (34, 2), (36, 48), (52, 2),
    (65, 0x10), (72, 1)]

/-- The TEE asks for the next fragment and calls the transaction 5. -/
def teeNamesFive : CallEnv :=
  ⟨fun _ => 0, [⟨{ func := ffaMemFragRx32, arg1 := 5, arg3 := 80, arg4 := 1 <<< 16 }, fun _ => 0⟩],
    fun _ => 0⟩

/-- While a transaction with the TEE is in the first slot, it is also found under the handle that is
made from this slot. -/
theorem getShareState_finds_tee_transaction :
    ∃ states, ReachableTable smallConfig states ∧
      (getShareState smallConfig states (platFfaMemoryHandleMake smallConfig 0)).isSome ∧
      ∀ i state, states i = some state → state.handle ≠ platFfaMemoryHandleMake smallConfig 0 := by
  have run : returnsWith ffaMemFragRx32 (apiMemCall (withTee lendTwoPages)
      (blockVm 1 0 (some lendTwoPages)) teeNamesFive (.send .lend 96 80 0 0)) (fun h =>
        (getShareState smallConfig h.sharing.shareStates (platFfaMemoryHandleMake smallConfig 0)).isSome &&
        decide (∀ i, ∀ state ∈ h.sharing.shareStates i,
          state.handle ≠ platFfaMemoryHandleMake smallConfig 0)) = true := by
    decide +kernel
  obtain ⟨ret, h', returned, -, outcome⟩ := returnsWith_iff.mp run
  obtain ⟨found, others⟩ := Bool.and_eq_true_iff.mp outcome
  have fresh : TeeNamesFresh smallConfig (withTee lendTwoPages).sharing.shareStates teeNamesFive.answers := by
    intro answer member
    obtain rfl := List.mem_singleton.mp member
    refine ⟨by decide +kernel, fun i state held => ?_⟩
    cases held
  exact ⟨h'.sharing.shareStates, .call (partitions_wellFormed (attrsVm_wellFormed 1 0 ordinaryAttrs_block _)
    (attrsVm_wellFormed hfTeeVmId 1 ordinaryAttrs_block none)) rfl nofun (fun _ => fresh) .empty
    returned, found, of_decide_eq_true others⟩

end Hafnium.Api
