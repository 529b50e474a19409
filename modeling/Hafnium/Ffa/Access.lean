import Hafnium.Ffa.Effect
import Hafnium.Lib.Lending
import Hafnium.Mm.Modes

/-! # Modes and share states as a lending protocol

The ownership bits of a mode say what a partition has of a page, and a completely sent share state
is a transaction of the lending protocol.
-/

namespace Hafnium.Ffa

open Mm Lending Partial Function

variable {m : MmConfig}

/-- What the ownership bits of a mode give a partition of a page. -/
def stateAccess (state : Mode) : Access :=
  if state &&& mmModeUnmappedMask = mmModeUnmappedMask then .nothing
  else if state = 0 then .exclusive
  else if state &&& mmModeInvalid ≠ 0 then .lent
  else if state = mmModeShared then .shared
  else if state = mmModeUnowned then .borrowed
  else .joined

def access (mode : Mode) : Access := stateAccess (mode &&& stateMask)

variable {mode bits defaultMode : Mode} {state : ShareState} {permissions : Permissions}
  {limit count : Nat} {scope : Scope} {i : Fin maxMemShares} {states states' : ShareStates}
  {slot : Option ShareState} {t : Transaction VmId Nat} {id : VmId}

/-- Only the ownership bits matter. -/
theorem access_of_state {mode' : Mode} (same : mode &&& stateMask = mode' &&& stateMask) :
    access mode = access mode' :=
  congrArg stateAccess same

theorem access_of_isUnmapped (unmapped : mode.IsUnmapped) : access mode = .nothing := by
  refine if_pos ?_
  rw [BitVec.and_assoc]
  exact unmapped

/-- A mode that is owned is the mode of an owner. -/
theorem access_owns (owned : mode &&& mmModeUnowned = 0) : (access mode).Owns := by
  rw [access, mode_state, if_pos owned]
  by_cases shared : mode &&& mmModeShared = 0 <;> by_cases invalid : mode &&& mmModeInvalid = 0 <;>
    simp only [shared, invalid, if_true, if_false] <;> trivial

/-- Only unmapped pages give nothing, and those are invalid. -/
theorem invalid_of_access (nothing : access mode = .nothing) : mode &&& mmModeInvalid ≠ 0 := by
  intro valid
  rw [access, mode_state, if_pos valid] at nothing
  by_cases shared : mode &&& mmModeShared = 0 <;> by_cases unowned : mode &&& mmModeUnowned = 0 <;>
    simp only [shared, unowned, if_true, if_false] at nothing <;> cases nothing

/-- What both stages record of a mode. -/
theorem attrsToMode_state (m : MmConfig) (stage : Stage) (mode : Mode) :
    m.attrsToMode stage (m.modeToAttrs stage mode) &&& stateMask = mode &&& stateMask := by
  cases stage with
  | stage1 => exact archMmStage1AttrsToMode_state m.features mode
  | stage2 => exact archMmStage2AttrsToMode_state mode

/-- An absent page is read as unmapped. -/
theorem attrsToMode_absent (m : MmConfig) (stage : Stage) : (m.attrsToMode stage 0).IsUnmapped := by
  cases stage with
  | stage1 =>
    change (archMmStage1AttrsToMode m.features 0).IsUnmapped
    generalize m.features = features
    obtain ⟨vhe, secure, protection⟩ := features
    cases vhe <;> cases secure <;> cases protection <;> decide
  | stage2 => exact show (archMmStage2AttrsToMode 0).IsUnmapped by decide

/-- Mapping a page in a mode gives the partition what the mode says. -/
theorem access_mappedAttrs (m : MmConfig) (stage : Stage) (mode : Mode) :
    access (m.attrsToMode stage (m.mappedAttrs stage mode)) = access mode := by
  rw [MmConfig.mappedAttrs]
  split
  · next unmapped => rw [access_of_isUnmapped (attrsToMode_absent m stage), access_of_isUnmapped unmapped]
  · exact access_of_state (attrsToMode_state m stage mode)

/-- Mapping normal memory keeps it normal. -/
theorem attrsToMode_mappedAttrs_device (m : MmConfig) (stage : Stage) (mapped : ¬mode.IsUnmapped)
    (notDevice : mode &&& mmModeD = 0) (notTagged : mode &&& mmModeT = 0) :
    m.attrsToMode stage (m.mappedAttrs stage mode) &&& mmModeD = 0 := by
  rw [MmConfig.mappedAttrs, if_neg mapped]
  cases stage with
  | stage1 => exact archMmStage1AttrsToMode_device m.features notDevice notTagged
  | stage2 =>
    change archMmStage2AttrsToMode (archMmModeToStage2Attrs mode) &&& mmModeD = 0
    rw [archMmStage2AttrsToMode_of_mode, ← test_low mode mmModeD rfl, notDevice]

/-- Modes that are read from attributes are not tagged. -/
theorem attrsToMode_untagged (m : MmConfig) (stage : Stage) (attrs : PteBits) :
    m.attrsToMode stage attrs &&& mmModeT = 0 := by
  cases stage with
  | stage1 => exact archMmStage1AttrsToMode_untagged m.features attrs
  | stage2 =>
    change archMmStage2AttrsToMode attrs &&& mmModeT = 0
    rw [← archMmStage2AttrsToMode_low, BitVec.and_assoc]
    exact BitVec.and_zero

/-- The extra bits of unprivileged partitions only show in the bits that they are. -/
theorem mapMode_and (vm : Vm m) (mode : Mode) (apart : (mmModeUser ||| mmModeNg) &&& bits = 0) :
    vm.mapMode mode &&& bits = mode &&& bits := by
  rw [Vm.mapMode]
  split
  · rw [BitVec.and_or_distrib_right, apart]
    exact BitVec.or_zero
  · rfl

theorem access_mapMode (vm : Vm m) (mode : Mode) : access (vm.mapMode mode) = access mode :=
  access_of_state (mapMode_and vm mode rfl)

/-! ## Modes that transactions use -/

private theorem access_or {state : Mode} (clear : mode &&& stateMask = 0) :
    access (mode ||| state) = access state := by
  refine access_of_state ?_
  rw [BitVec.and_or_distrib_right, clear]
  exact BitVec.zero_or

private theorem not_stateMask_and (mode : Mode) : ~~~stateMask &&& mode &&& stateMask = 0 := by
  rw [BitVec.and_comm, ← BitVec.and_assoc, show stateMask &&& ~~~stateMask = 0 from rfl]
  exact BitVec.zero_and

def ShareFunc.kind : ShareFunc → Kind
  | .donate => .give
  | .lend => .lend
  | .share => .share

theorem access_of_exclusive (exclusive : mode &&& stateMask = 0) : access mode = .exclusive := by
  rw [access, exclusive]
  rfl

theorem access_sentMode (func : ShareFunc) (mode : Mode) : access (sentMode func mode) = func.kind.left := by
  rw [sentMode, access_or (not_stateMask_and mode)]
  cases func <;> rfl

theorem relinquishedMode_isUnmapped (mode : Mode) : (relinquishedMode mode).IsUnmapped := by
  have avoids : ~~~stateMask &&& mode &&& mmModeUnmappedMask = 0 := by
    rw [BitVec.and_comm (~~~stateMask), BitVec.and_assoc]
    exact BitVec.and_zero
  rw [Mode.IsUnmapped, relinquishedMode, BitVec.and_or_distrib_right, avoids]
  rfl

theorem access_relinquishedMode (mode : Mode) : access (relinquishedMode mode) = .nothing :=
  access_of_isUnmapped (relinquishedMode_isUnmapped mode)

theorem not_isUnmapped_of_borrowed (borrowed : mode &&& stateMask &&& ~~~mmModeShared = mmModeUnowned) :
    ¬mode.IsUnmapped := by
  rw [Mode.IsUnmapped, show mmModeUnmappedMask = stateMask &&& ~~~mmModeShared from rfl,
    ← BitVec.and_assoc, borrowed]
  decide

/-- The modes of received memory only have the rights R, W and X. -/
theorem ffaMemoryPermissionsToMode_within
    (converted : ffaMemoryPermissionsToMode permissions defaultMode = .ok mode) :
    mode &&& (mmModeR ||| mmModeW ||| mmModeX) = mode := by
  simp only [ffaMemoryPermissionsToMode, bind_ok_iff] at converted
  obtain ⟨data, dataMode, converted⟩ := converted
  have dataWithin : data &&& (mmModeR ||| mmModeW ||| mmModeX) = data := by
    cases access : ffaGetDataAccessAttr permissions <;> rw [access] at dataMode <;> cases dataMode
    · rw [BitVec.and_assoc]
      rfl
    · rfl
    · rfl
  split at converted <;> cases converted
  · exact dataWithin
  · exact or_within dataWithin rfl
  · refine or_within dataWithin ?_
    rw [BitVec.and_assoc]
    rfl

theorem ffaMemoryPermissionsToMode_and
    (converted : ffaMemoryPermissionsToMode permissions defaultMode = .ok mode)
    (apart : (mmModeR ||| mmModeW ||| mmModeX) &&& bits = 0) : mode &&& bits = 0 := by
  rw [← ffaMemoryPermissionsToMode_within converted, BitVec.and_assoc, apart]
  exact BitVec.and_zero

theorem access_retrievedMode (rights : mode &&& stateMask = 0) (func : ShareFunc) :
    access (mode ||| (MapFunc.retrieve func).state) = func.kind.got := by
  rw [access_or rights]
  cases func <;> rfl

/-! ## Share states -/

/-- The receiver that a share state knows to be the caller. -/
theorem ffaMemoryRegionGetReceiver_found {region : MemoryRegion}
    (found : ffaMemoryRegionGetReceiver region id ≠ region.receiverCount.toNat) :
    ffaMemoryRegionGetReceiver region id < region.receiverCount.toNat ∧
      (region.receivers (ffaMemoryRegionGetReceiver region id)).receiver = id := by
  rw [ffaMemoryRegionGetReceiver] at found ⊢
  cases search : (List.range region.receiverCount.toNat).find? fun i =>
    (region.receivers i).receiver = id with
  | none =>
    rw [search] at found
    exact absurd rfl found
  | some k =>
    have isReceiver := List.find?_some search
    exact ⟨List.mem_range.mp (List.mem_of_find?_eq_some search), by simpa using isReceiver⟩

/-- What the checks of a retrieve request say of the share state. -/
theorem retrieveValidateRequest_ok {request : MemoryRegion}
    (valid : retrieveValidateRequest state request id = .ok ()) :
    state.sendingComplete = true ∧
      ffaMemoryRegionGetReceiver state.memoryRegion id ≠ state.memoryRegion.receiverCount.toNat ∧
      state.retrievedFragmentCount (ffaMemoryRegionGetReceiver state.memoryRegion id) = 0 := by
  simp only [retrieveValidateRequest, bind_ok_iff, require_ok_iff] at valid
  obtain ⟨-, complete, -, found, -, unretrieved, -⟩ := valid
  exact ⟨complete, found, unretrieved⟩

theorem retrieveContinueValidate_ok (valid : retrieveContinueValidate state id = .ok ()) :
    (state.memoryRegion.receivers 0).receiver = id ∧ state.sendingComplete = true ∧
      state.retrievedFragmentCount 0 ≠ 0 ∧ state.retrievedFragmentCount 0 < state.fragments.count := by
  simp only [retrieveContinueValidate, bind_ok_iff, require_ok_iff, not_or, not_le, ge_iff_le] at valid
  obtain ⟨-, receiver, -, complete, begun, unfinished⟩ := valid
  exact ⟨receiver, complete, begun, unfinished⟩

theorem relinquishValidate_ok {clear : Bool} (valid : relinquishValidate state id clear = .ok ()) :
    state.sendingComplete = true ∧ (state.memoryRegion.receivers 0).receiver = id ∧
      state.retrievedFragmentCount 0 = state.fragments.count := by
  simp only [relinquishValidate, bind_ok_iff, require_ok_iff] at valid
  obtain ⟨-, complete, -, receiver, -, finished, -⟩ := valid
  exact ⟨complete, receiver, finished⟩

theorem reclaimValidate_ok (valid : reclaimValidate state id = .ok ()) :
    id = state.memoryRegion.sender ∧ state.sendingComplete = true ∧ state.retrievedFragmentCount 0 = 0 := by
  simp only [reclaimValidate, bind_ok_iff, require_ok_iff] at valid
  obtain ⟨-, owner, -, complete, unretrieved⟩ := valid
  exact ⟨owner, complete, unretrieved⟩

/-- A descriptor with a limited number of receivers that may be stored in a slot. -/
structure Storable (m : MmConfig) (limit : Nat) (i : Fin maxMemShares) (func : ShareFunc)
    (region : MemoryRegion) : Prop where
  receivers : 0 < region.receiverCount.toNat
  limited : region.receiverCount.toNat ≤ limit
  notSender : ∀ k < region.receiverCount.toNat, (region.receivers k).receiver ≠ region.sender
  single : func = .donate → region.receiverCount = 1
  permits : ∀ k < region.receiverCount.toNat, func.Permits (region.receivers k).permissions
  handle : region.handle = platFfaMemoryHandleMake m i ∨ (region.receivers 0).receiver = hfTeeVmId

/-- What always holds of an allocated share state. -/
structure ShareState.Valid (m : MmConfig) (limit : Nat) (i : Fin maxMemShares)
    (state : ShareState) : Prop where
  storable : Storable m limit i state.shareFunc state.memoryRegion
  fragments : 0 < state.fragments.count
  unsent : state.sendingComplete = false → state.retrievedFragmentCount = fun _ => 0
  exclusive : state.sendingComplete = true → state.senderOrigMode &&& stateMask = 0
  sound : state.sendingComplete = true → state.fragments.aligned = true ∧
    ∀ p ∈ state.fragments.list, p.2.InPaRange m
  named : state.sendingComplete = true → state.memoryRegion.handle = platFfaMemoryHandleMake m i
  given : state.sendingComplete = true → state.shareFunc = .donate →
    state.retrievedFragmentCount 0 < state.fragments.count
  allowed : state.sendingComplete = true →
    sendCheckReceivers state.senderOrigMode state.memoryRegion.receiverList = .ok (.ok ())

/-- All allocated share states are valid. -/
def ValidStates (m : MmConfig) (limit : Nat) (states : ShareStates) : Prop :=
  ∀ i state, states i = some state → state.Valid m limit i

section Valid

theorem ValidStates.update (valid : ValidStates m limit states)
    (new : ∀ state, slot = some state → state.Valid m limit i) :
    ValidStates m limit (update states i slot) := by
  intro j state held
  by_cases same : j = i
  · subst same
    rw [update_self] at held
    exact new state held
  · rw [update_of_ne same] at held
    exact valid j state held

variable (storable : ∀ {i func region}, scope.stores i func region → Storable m limit i func region)
include storable

theorem SlotStep.valid (step : SlotStep scope i slot (some state))
    (valid : ∀ state, slot = some state → state.Valid m limit i) : state.Valid m limit i := by
  cases step with
  | kept => exact valid state rfl
  | opened stored count unsent unretrieved =>
    have never {P : Prop} (complete : state.sendingComplete = true) : P := by
      rw [unsent] at complete
      cases complete
    exact ⟨storable stored, by omega, fun _ => unretrieved, never, never, never,
      fun complete => never complete, never⟩
  | @extended before page fragment length added room unsent =>
    have old := valid before rfl
    have never {P : Prop} (complete : (before.addFragment page fragment length).sendingComplete =
        true) : P := by
      rw [show (before.addFragment page fragment length).sendingComplete =
        before.sendingComplete from rfl, unsent] at complete
      cases complete
    exact ⟨old.storable, Nat.succ_pos _, old.unsent, never, never, never,
      fun complete => never complete, never⟩

theorem SlotSteps.valid (steps : SlotSteps scope states states')
    (valid : ValidStates m limit states) : ValidStates m limit states' := by
  intro j state held
  have step := steps j
  rw [held] at step
  exact step.valid storable (valid j)

end Valid

/-- Retrieving keeps a share state valid. -/
theorem ShareState.Valid.retrieve {state' : ShareState} (valid : state.Valid m limit i)
    (complete : state.sendingComplete = true) {receiverIndex : Nat}
    (bound : state.shareFunc = .donate → receiverIndex = 0 ∧ count ≤ state.fragments.count)
    (retrieved : state.retrieve receiverIndex count = some state') : state'.Valid m limit i := by
  rw [ShareState.retrieve] at retrieved
  split at retrieved
  · cases retrieved
  · next kept =>
    cases retrieved
    refine ⟨valid.storable, valid.fragments, fun unsent => ?_, valid.exclusive, valid.sound,
      valid.named, fun _ donated => ?_, valid.allowed⟩
    · rw [complete] at unsent
      cases unsent
    · obtain ⟨rfl, le⟩ := bound donated
      exact lt_of_le_of_ne le fun last => kept ⟨last, donated⟩

/-- Every effect keeps the share states valid. -/
theorem Effect.valid {vm : Vm m} {ret : FfaValue} {view : Nat → PteBits}
    (storable : ∀ {i func region}, scope.stores i func region → Storable m limit i func region)
    (effect : Effect scope vm states ret view states') (valid : ValidStates m limit states) :
    ValidStates m limit states' := by
  cases effect with
  | idle plain steps => exact steps.valid storable valid
  | sendRolledBack failed sends sendable steps => exact steps.valid storable valid
  | teeSent success sends sendable steps => exact steps.valid storable valid
  | @sent i state mode success step unsent owner here sends sendable range =>
    have old := step.valid storable (valid i)
    refine valid.update ?_
    rintro _ ⟨⟩
    refine ⟨old.storable, old.fragments, nofun, fun _ => sendable.exclusive,
      fun _ => ⟨sendable.aligned, range⟩, fun _ => ?_, fun _ _ => ?_, fun _ => sendable.allowed⟩
    · rcases here with named | notTee
      · exact named
      · exact old.storable.handle.resolve_right notTee
    · have unretrieved : (state.complete mode).retrievedFragmentCount 0 = 0 := congrFun (old.unsent unsent) 0
      rw [unretrieved]
      exact old.fragments
  | @retrieved i state request permissions mode unmapped success asked lookup held request_ok
      granted converted found isUnmapped =>
    obtain ⟨complete, isReceiver, unretrieved⟩ := retrieveValidateRequest_ok request_ok
    have old := valid i state held
    refine valid.update fun new retrieved => old.retrieve complete (fun donated => ?_) retrieved
    have bound := (ffaMemoryRegionGetReceiver_found isReceiver).1
    rw [old.storable.single donated] at bound
    exact ⟨Nat.lt_one_iff.mp bound, old.fragments⟩
  | @continued i state success held request_ok =>
    obtain ⟨-, complete, -, unfinished⟩ := retrieveContinueValidate_ok request_ok
    exact valid.update fun new retrieved =>
      (valid i state held).retrieve complete (fun _ => ⟨rfl, unfinished⟩) retrieved
  | @relinquished i state clear mode success held request_ok found borrowed =>
    have old := valid i state held
    refine valid.update ?_
    rintro _ ⟨⟩
    refine ⟨old.storable, old.fragments, fun unsent => ?_, old.exclusive, old.sound, old.named,
      fun _ _ => old.fragments, old.allowed⟩
    have complete := (relinquishValidate_ok request_ok).1
    have unsent : state.sendingComplete = false := unsent
    rw [complete] at unsent
    cases unsent
  | relinquishRolledBack => exact valid
  | reclaimed => exact valid.update nofun
  | teeReclaimed => exact valid

/-! ## Transactions -/

/-- A share state as a transaction. -/
def ShareState.deal (state : ShareState) (taken : Bool) : Transaction VmId Nat where
  sender := state.memoryRegion.sender
  receiver := (state.memoryRegion.receivers 0).receiver
  kind := state.shareFunc.kind
  region := { addr | state.fragments.Covers addr }
  taken := taken

/-- A completely sent region is in transaction until it is reclaimed or given away; a donation may
still be described to its receiver after that. -/
def ShareState.transaction (state : ShareState) : Option (Transaction VmId Nat) :=
  if state.sendingComplete = true ∧ ¬(state.shareFunc = .donate ∧ state.retrievedFragmentCount 0 ≠ 0) then
    some (state.deal (decide (state.retrievedFragmentCount 0 ≠ 0)))
  else none

theorem ShareFunc.kind_eq_give {func : ShareFunc} : func.kind = .give ↔ func = .donate := by
  cases func <;> decide

namespace ShareState

theorem transaction_of_unsent (unsent : state.sendingComplete = false) : state.transaction = none :=
  if_neg fun both => by rw [unsent] at both; cases both.1

theorem transaction_of_unretrieved (complete : state.sendingComplete = true)
    (unretrieved : state.retrievedFragmentCount 0 = 0) :
    state.transaction = some (state.deal false) := by
  rw [transaction, if_pos ⟨complete, fun both => both.2 unretrieved⟩, unretrieved]
  rfl

theorem transaction_of_retrieved (complete : state.sendingComplete = true)
    (retrieved : state.retrievedFragmentCount 0 ≠ 0) :
    state.transaction = if state.shareFunc.kind = .give then none else some (state.deal true) := by
  rw [transaction]
  by_cases donated : state.shareFunc = .donate
  · rw [if_neg fun both => both.2 ⟨donated, retrieved⟩, if_pos (ShareFunc.kind_eq_give.mpr donated)]
  · rw [if_pos ⟨complete, fun both => donated both.1⟩,
      if_neg fun give => donated (ShareFunc.kind_eq_give.mp give), decide_eq_true retrieved]

/-- Once the first receiver has got a fragment, the region is taken. -/
theorem transaction_retrieve (complete : state.sendingComplete = true) (positive : count ≠ 0) :
    (state.retrieve 0 count).bind transaction =
      if state.shareFunc.kind = .give then none else some (state.deal true) := by
  rw [ShareState.retrieve]
  split
  · next last => rw [if_pos (ShareFunc.kind_eq_give.mpr last.2)]; rfl
  · exact transaction_of_retrieved complete (by simpa using positive)

/-- An outstanding transaction has all of the region. -/
theorem transaction_region (active : state.transaction = some t) :
    t.region = { addr | state.fragments.Covers addr } := by
  rw [transaction] at active
  split at active <;> cases active
  rfl

end ShareState

theorem ShareState.complete_of_active (active : state.transaction = some t) :
    state.sendingComplete = true := by
  rw [ShareState.transaction] at active
  split at active
  · next both => exact both.1
  · cases active

/-- Steps that change no transaction keep all completely sent share states. -/
theorem SlotStep.kept_of_complete (step : SlotStep scope i slot (some state))
    (complete : state.sendingComplete = true) : slot = some state := by
  cases step with
  | kept => rfl
  | opened stored count unsent unretrieved =>
    rw [unsent] at complete
    cases complete
  | @extended state page fragment length added room unsent =>
    have complete : state.sendingComplete = true := complete
    rw [unsent] at complete
    cases complete

end Hafnium.Ffa
