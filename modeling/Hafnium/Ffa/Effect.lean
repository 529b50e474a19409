import Hafnium.Ffa.Tee

/-! # What the memory-sharing functions do

Every call of a memory-sharing function has one of a few effects on the caller's address space and
on the share states. `Effect` says once what these are; the properties of whole runs are derived
from it. A `Scope` says which regions and descriptors the call can bring in.
-/

namespace Hafnium.Ffa

open Mm Partial Function

variable {m : MmConfig}

/-- What a call can bring in. -/
structure Scope where
  /-- The regions that it may send. -/
  sends : Fragments → Prop
  /-- The descriptors that it may store in a slot. -/
  stores : Fin maxMemShares → ShareFunc → MemoryRegion → Prop
  /-- The lengths of the fragments that it may add. -/
  adds : BitVec 32 → Prop
  /-- The regions that the TEE may give back. -/
  returns : Fragments → Prop
  /-- The retrieve requests that it may make. -/
  asks : MemoryRegion → Prop
  /-- Whether it may be answered with anything but an error and have no effect yet. -/
  pends : Prop

/-- A call that brings in nothing. -/
def Scope.nothing : Scope := ⟨fun _ => False, fun _ _ _ => False, fun _ => False, fun _ => False,
    fun _ => False, False⟩

structure Scope.Le (scope scope' : Scope) : Prop where
  sends : ∀ {f}, scope.sends f → scope'.sends f
  stores : ∀ {i func region}, scope.stores i func region → scope'.stores i func region
  adds : ∀ {length}, scope.adds length → scope'.adds length
  returns : ∀ {f}, scope.returns f → scope'.returns f
  asks : ∀ {request}, scope.asks request → scope'.asks request
  pends : scope.pends → scope'.pends

theorem Scope.nothing_le (scope : Scope) : Scope.nothing.Le scope :=
  ⟨False.elim, False.elim, False.elim, False.elim, False.elim, False.elim⟩

/-- What a call can do with a slot without completing or changing a transaction in it. -/
inductive SlotStep (scope : Scope) (i : Fin maxMemShares) : Option ShareState → Option ShareState → Prop
  | kept (slot : Option ShareState) : SlotStep scope i slot slot
  | opened {state : ShareState} (stored : scope.stores i state.shareFunc state.memoryRegion)
      (count : state.fragments.count = 1) (unsent : state.sendingComplete = false)
      (unretrieved : state.retrievedFragmentCount = fun _ => 0) : SlotStep scope i none (some state)
  | extended {state : ShareState} {page : PageNumber} {fragment : Bytes} {length : BitVec 32}
      (added : scope.adds length)
      (room : state.fragments.count ≠ maxFragments) (unsent : state.sendingComplete = false) :
      SlotStep scope i (some state) (some (state.addFragment page fragment length))
  | dropped {state : ShareState} (unsent : state.sendingComplete = false) : SlotStep scope i (some state) none

def SlotSteps (scope : Scope) (states states' : ShareStates) : Prop :=
  ∀ i, SlotStep scope i (states i) (states' i)

theorem SlotSteps.refl (scope : Scope) (states : ShareStates) : SlotSteps scope states states :=
  fun _ => .kept _

variable {scope : Scope} {states states' : ShareStates} {i : Fin maxMemShares}
  {slot : Option ShareState} {ret : FfaValue} {mode : Mode} {memoryShareLength : BitVec 32}
  {fromVmId : VmId} {fragment : Bytes} {request : MemoryRegion} {f : Fragments} {pool : Mpool}

theorem SlotSteps.update
    (step : SlotStep scope i (states i) slot) : SlotSteps scope states (update states i slot) := by
  intro j
  by_cases same : j = i
  · subst same
    rw [update_self]
    exact step
  · rw [update_of_ne same]
    exact .kept _

variable {scope' : Scope}

theorem SlotStep.mono {slot' : Option ShareState} (le : scope.Le scope')
    (step : SlotStep scope i slot slot') : SlotStep scope' i slot slot' := by
  cases step with
  | kept => exact .kept _
  | opened stored count unsent unretrieved => exact .opened (le.stores stored) count unsent unretrieved
  | extended added room unsent => exact .extended (le.adds added) room unsent
  | dropped unsent => exact .dropped unsent

/-- The region may be sent: the checks of the sender's page table have passed with this mode. -/
structure Sendable (vm : Vm m) (f : Fragments) (receivers : List MemoryAccess) (mode : Mode) : Prop where
  aligned : f.aligned = true
  found : constituentsGetMode vm f = .ok mode
  notDevice : mode &&& mmModeD = 0
  exclusive : mode &&& stateMask = 0
  allowed : sendCheckReceivers mode receivers = .ok (.ok ())

/-- A share state once its region has been taken from the sender. -/
def ShareState.complete (state : ShareState) (mode : Mode) : ShareState :=
  { state with senderOrigMode := mode, sendingComplete := true }

/-- What becomes of a slot when a receiver has got some of the fragments. -/
def ShareState.retrieve (state : ShareState) (receiverIndex count : Nat) : Option ShareState :=
  if count = state.fragments.count ∧ state.shareFunc = .donate then none
  else some
    { state with retrievedFragmentCount := update state.retrievedFragmentCount receiverIndex count }

/-- A share state once its region has been given back. -/
def ShareState.relinquish (state : ShareState) : ShareState :=
  { state with retrievedFragmentCount := update state.retrievedFragmentCount 0 0 }

/-- The share state is known under the handle of its slot, unless the TEE has named it. -/
def ShareState.Here (m : MmConfig) (i : Fin maxMemShares) (state : ShareState) : Prop :=
  state.memoryRegion.handle = platFfaMemoryHandleMake m i ∨
    (state.memoryRegion.receivers 0).receiver ≠ hfTeeVmId

/-- The effect of a memory-sharing call: its value, the caller's new address space and the new
share states. -/
inductive Effect (scope : Scope) (vm : Vm m) (states : ShareStates) (ret : FfaValue) :
    (Nat → PteBits) → ShareStates → Prop
  | idle {states' : ShareStates} (plain : ret.func = ffaError32 ∨ scope.pends)
      (steps : SlotSteps scope states states') :
      Effect scope vm states ret vm.attrsAt states'
  | sendRolledBack {states' : ShareStates} {f : Fragments} {receivers : List MemoryAccess} {mode : Mode}
      (failed : ret.func ≠ ffaSuccess32) (sends : scope.sends f) (sendable : Sendable vm f receivers mode)
      (steps : SlotSteps scope states states') : Effect scope vm states ret (vm.mapped f mode) states'
  | sent {i : Fin maxMemShares} {state : ShareState} {mode : Mode}
      (success : ret = ffaMemSuccess state.memoryRegion.handle)
      (step : SlotStep scope i (states i) (some state)) (unsent : state.sendingComplete = false)
      (owner : state.memoryRegion.sender = vm.id) (here : state.Here m i)
        (sends : scope.sends state.fragments)
      (sendable : Sendable vm state.fragments state.memoryRegion.receiverList mode)
      (range : ∀ p ∈ state.fragments.list, p.2.InPaRange m) :
      Effect scope vm states ret (vm.mapped state.fragments (sentMode state.shareFunc mode))
        (update states i (some (state.complete mode)))
  | teeSent {states' : ShareStates} {f : Fragments} {receivers : List MemoryAccess}
      {func : ShareFunc} {mode : Mode}
      (success : ret.func = ffaSuccess32) (sends : scope.sends f) (sendable : Sendable vm f receivers mode)
      (steps : SlotSteps scope states states') :
        Effect scope vm states ret (vm.mapped f (sentMode func mode)) states'
  | retrieved {i : Fin maxMemShares} {state : ShareState} {request : MemoryRegion} {permissions : Permissions}
      {mode unmapped : Mode} (success : ret.func = ffaMemRetrieveResp32) (asked : scope.asks request)
      (lookup : getShareState m states request.handle = some (i, state)) (held : states i = some state)
      (valid : retrieveValidateRequest state request vm.id = .ok ())
      (granted : ffaMemoryRetrieveValidateMemoryAccessList state.memoryRegion request vm.id =
        .ok (.ok permissions))
      (converted : ffaMemoryPermissionsToMode permissions state.senderOrigMode = .ok mode)
      (found : constituentsGetMode vm state.fragments = .ok unmapped) (isUnmapped : unmapped.IsUnmapped) :
      Effect scope vm states ret (vm.mapped state.fragments
        (mode ||| (MapFunc.retrieve state.shareFunc).state))
        (update states i (state.retrieve (ffaMemoryRegionGetReceiver state.memoryRegion vm.id) 1))
  | continued {i : Fin maxMemShares} {state : ShareState} (success : ret.func = ffaMemFragTx32)
      (held : states i = some state)
      (valid : retrieveContinueValidate state vm.id = .ok ()) :
      Effect scope vm states ret vm.attrsAt
        (update states i (state.retrieve 0 (state.retrievedFragmentCount 0 + 1)))
  | relinquished {i : Fin maxMemShares} {state : ShareState} {clear : Bool} {mode : Mode}
      (success : ret.func = ffaSuccess32)
      (held : states i = some state) (valid : relinquishValidate state vm.id clear = .ok ())
      (found : constituentsGetMode vm state.fragments = .ok mode)
      (borrowed : mode &&& stateMask &&& ~~~mmModeShared = mmModeUnowned) :
      Effect scope vm states ret (vm.mapped state.fragments (relinquishedMode mode))
        (update states i (some state.relinquish))
  | relinquishRolledBack {i : Fin maxMemShares} {state : ShareState} {clear : Bool} {mode : Mode}
      (failed : ret.func = ffaError32) (held : states i = some state)
      (valid : relinquishValidate state vm.id clear = .ok ())
      (found : constituentsGetMode vm state.fragments = .ok mode)
      (borrowed : mode &&& stateMask &&& ~~~mmModeShared = mmModeUnowned) :
      Effect scope vm states ret (vm.mapped state.fragments mode) states
  | reclaimed {i : Fin maxMemShares} {state : ShareState} {mode : Mode} (success : ret.func = ffaSuccess32)
      (held : states i = some state) (valid : reclaimValidate state vm.id = .ok ())
      (found : constituentsGetMode vm state.fragments = .ok mode) (away : mode &&& stateMask ≠ 0) :
      Effect scope vm states ret (vm.mapped state.fragments state.senderOrigMode) (update states i none)
  | teeReclaimed {f : Fragments} {mode : Mode} (success : ret.func = ffaSuccess32) (returns : scope.returns f)
      (found : constituentsGetMode vm f = .ok mode) (away : mode &&& stateMask ≠ 0) :
      Effect scope vm states ret (vm.mapped f (mmModeR ||| mmModeW ||| mmModeX)) states

/-- A call changed the caller and the share states as some effect says. -/
def Effective (scope : Scope) (vm : Vm m) (states : ShareStates) (ret : FfaValue) (vm' : Vm m)
    (states' : ShareStates) : Prop :=
  ∃ view, vm.Becomes view vm' ∧ Effect scope vm states ret view states'

section Effective

variable {vm vm' : Vm m}

theorem Effective.idle (plain : ret.func = ffaError32 ∨ scope.pends)
    (same : vm.Becomes vm.attrsAt vm') (steps : SlotSteps scope states states') :
    Effective scope vm states ret vm' states' := ⟨_, same, .idle plain steps⟩

/-- An error has no effect. -/
theorem Effective.refused (wf : vm.WellFormed) (failed : ret.func = ffaError32) :
    Effective scope vm states ret vm states :=
  .idle (.inl failed) (.refl wf) (.refl _ _)

theorem Effect.mono {view : Nat → PteBits} (le : scope.Le scope')
    (effect : Effect scope vm states ret view states') :
    Effect scope' vm states ret view states' := by
  cases effect with
  | idle plain steps => exact .idle (plain.imp_right le.pends) fun i => (steps i).mono le
  | sendRolledBack failed sends sendable steps =>
    exact .sendRolledBack failed (le.sends sends) sendable fun i => (steps i).mono le
  | sent success step unsent owner here sends sendable range =>
    exact .sent success (step.mono le) unsent owner here (le.sends sends) sendable range
  | teeSent success sends sendable steps =>
    exact .teeSent success (le.sends sends) sendable fun i => (steps i).mono le
  | retrieved success asked lookup held valid granted converted found isUnmapped =>
    exact .retrieved success (le.asks asked) lookup held valid granted converted found isUnmapped
  | continued success held valid => exact .continued success held valid
  | relinquished success held valid found borrowed => exact .relinquished success held valid found borrowed
  | relinquishRolledBack failed held valid found borrowed =>
    exact .relinquishRolledBack failed held valid found borrowed
  | reclaimed success held valid found away => exact .reclaimed success held valid found away
  | teeReclaimed success returns found away => exact .teeReclaimed success (le.returns returns) found away

theorem Effective.mono (le : scope.Le scope') (effective : Effective scope vm states ret vm' states') :
    Effective scope' vm states ret vm' states' := by
  obtain ⟨view, becomes, effect⟩ := effective
  exact ⟨view, becomes, effect.mono le⟩

theorem Effective.id_eq (effective : Effective scope vm states ret vm' states') : vm'.id = vm.id := by
  obtain ⟨view, becomes, -⟩ := effective
  exact becomes.id_eq

end Effective

/-! ## Sending -/

variable {vm vm' : Vm m} {s s' : Sharing m} {state : ShareState}

/-- The two outcomes of completing a transaction in a slot. -/
inductive Completed (vm : Vm m) (states : ShareStates) (i : Fin maxMemShares) (state : ShareState)
    (ret : FfaValue) (mode : Mode) (vm' : Vm m) (states' : ShareStates) : Prop
  | sent (success : ret = ffaMemSuccess state.memoryRegion.handle)
      (sendable : Sendable vm state.fragments state.memoryRegion.receiverList mode)
      (range : ∀ p ∈ state.fragments.list, p.2.InPaRange m)
      (becomes : vm.Becomes (vm.mapped state.fragments (sentMode state.shareFunc mode)) vm')
      (stored : states' = update states i (some (state.complete mode)))
  | failed {e : FfaError} (failure : ret = ffaError e) (freed : states' = update states i none)
      (becomes : vm.Becomes vm.attrsAt vm' ∨
        ∃ mode, Sendable vm state.fragments state.memoryRegion.receiverList mode ∧
        vm.Becomes (vm.mapped state.fragments mode) vm')

variable {func : ShareFunc} {page : PageNumber} {region : MemoryRegion} {fragmentLength : BitVec 32}
  {handle : Handle}

theorem ffaMemorySendComplete_spec (wf : vm.WellFormed) :
    Post (ffaMemorySendComplete vm s i state) fun r =>
      Completed vm s.shareStates i state r.1 r.2.1 r.2.2.1 r.2.2.2.shareStates := by
  refine .step fun ⟨stored, r⟩ update => ?_
  have outcome := ffaSendCheckUpdate_spec wf _ update
  dsimp only
  split
  · next result =>
    cases outcome with
    | refused ret => cases result.symm.trans ret
    | checked kept aligned found notDevice exclusive allowed demoted =>
      subst kept
      cases demoted with
      | done ret range becomes =>
        exact .ok (.sent rfl ⟨aligned, found, notDevice, exclusive, allowed⟩ range becomes rfl)
      | failed ret => cases result.symm.trans ret
      | rolledBack ret => cases result.symm.trans ret
  · next result =>
    refine .ok ?_
    cases outcome with
    | refused ret unchanged =>
      rw [unchanged]
      exact .failed rfl rfl (.inl (.refl wf))
    | checked kept aligned found notDevice exclusive allowed demoted =>
      cases demoted with
      | done ret => cases result.symm.trans ret
      | failed ret becomes => exact .failed rfl rfl (.inl becomes)
      | rolledBack ret cleared becomes =>
        exact .failed rfl rfl (.inr ⟨_, ⟨aligned, found, notDevice, exclusive, allowed⟩, becomes⟩)

/-- A slot that holds no completely sent transaction can be freed. -/
theorem SlotStep.drop (step : SlotStep scope i slot (some state))
    (unsent : state.sendingComplete = false) : SlotStep scope i slot none := by
  cases step with
  | kept => exact .dropped unsent
  | opened => exact .kept none
  | extended added room unsent => exact .dropped unsent

/-- Completing a transaction has an effect as a call of its own. -/
theorem Completed.effective (completed : Completed vm states i state ret mode vm' states')
    (step : SlotStep scope i (states i) (some state)) (unsent : state.sendingComplete = false)
    (owner : state.memoryRegion.sender = vm.id) (here : state.Here m i)
    (sends : scope.sends state.fragments) : Effective scope vm states ret vm' states' := by
  cases completed with
  | sent success sendable range becomes stored =>
    subst stored
    exact ⟨_, becomes, .sent success step unsent owner here sends sendable range⟩
  | failed failure freed becomes =>
    subst failure freed
    have steps := SlotSteps.update (step.drop unsent)
    rcases becomes with same | ⟨mode, sendable, rolled⟩
    · exact .idle (.inl rfl) same steps
    · exact ⟨_, rolled, .sendRolledBack (ffaError_func _) sends sendable steps⟩

/-- Sending a descriptor to a partition. -/
def sendScope (vm : Vm m) (func : ShareFunc) (region : MemoryRegion)
    (memoryShareLength fragmentLength : BitVec 32) : Scope :=
  { Scope.nothing with
    sends := fun f => fragmentLength = memoryShareLength ∧ f = firstFragment region fragmentLength
    stores := fun i func' stored => func' = func ∧ Validated vm func region stored ∧
      stored.handle = platFfaMemoryHandleMake m i
    pends := True }

/-- A share state that was just allocated opens its slot. -/
theorem allocateShareState_opens
    (allocated : allocateShareState m states func page region fragmentLength handle = .ok (some (i, state)))
    (stored : scope.stores i func state.memoryRegion) : SlotStep scope i (states i) (some state) := by
  obtain ⟨free, given, -, rfl⟩ := allocateShareState_some allocated
  rw [free]
  exact .opened stored rfl rfl rfl

theorem ffaMemorySend_effect (wf : vm.WellFormed) :
    Post (ffaMemorySend vm page region memoryShareLength fragmentLength func s) fun r =>
      Effective (sendScope vm func region memoryShareLength fragmentLength)
        vm s.shareStates r.1 r.2.1 r.2.2.shareStates := by
  refine .step fun validated validation => ?_
  split
  · exact .ok (.refused wf rfl)
  have valid := ffaMemorySendValidate_ok validation
  refine .step fun slot allocation => ?_
  split
  · exact .ok (.refused wf rfl)
  next i state =>
  obtain ⟨-, handle, made, state_eq⟩ := allocateShareState_some allocation
  have step : SlotStep (sendScope vm func region memoryShareLength fragmentLength)
      i (s.shareStates i) (some state) := by
    refine allocateShareState_opens allocation ?_
    rw [state_eq]
    exact ⟨rfl, valid.relabel _ _, made rfl⟩
  refine .ite (fun whole => .bind (ffaMemorySendComplete_spec wf) fun _ completed => .ok ?_) fun _ => .ok ?_
  · subst state_eq
    exact completed.effective step rfl (valid.same.sender.trans valid.sender) (.inl (made rfl))
      ⟨whole, valid.firstFragment_eq fragmentLength⟩
  · exact .idle (.inr trivial) (.refl wf) (.update step)

/-- Looking for the share state to continue can only free one that is full. -/
theorem ffaMemorySendContinueValidate_steps {found : Except FfaError (Fin maxMemShares × ShareState)}
    (validation : ffaMemorySendContinueValidate s handle fromVmId = (found, s')) (scope : Scope) :
    SlotSteps scope s.shareStates s'.shareStates := by
  simp only [ffaMemorySendContinueValidate] at validation
  split at validation
  · cases validation
    exact .refl _ _
  · next i state lookup =>
    split at validation
    · cases validation
      exact .refl _ _
    · split at validation
      · cases validation
        exact .refl _ _
      · next sent =>
        split at validation
        · cases validation
          refine .update ?_
          rw [getShareState_some lookup]
          exact .dropped (by simpa using sent)
        · cases validation
          exact .refl _ _

theorem ffaMemorySendContinueValidate_ok
    (validation : ffaMemorySendContinueValidate s handle fromVmId = (.ok (i, state), s')) :
    s' = s ∧ getShareState m s.shareStates handle = some (i, state) ∧ state.memoryRegion.sender = fromVmId ∧
      state.sendingComplete = false ∧ state.fragments.count ≠ maxFragments := by
  simp only [ffaMemorySendContinueValidate] at validation
  split at validation
  · cases validation
  · next lookup =>
    split at validation
    · cases validation
    · next owner =>
      split at validation
      · cases validation
      · next sent =>
        split at validation
        · cases validation
        · next room =>
          cases validation
          exact ⟨rfl, lookup, not_not.mp owner, by simpa using sent, room⟩

/-- Adding a fragment to a transaction. -/
def continueScope (m : MmConfig) (states : ShareStates) (handle : Handle) (fragment : Bytes)
    (fragmentLength : BitVec 32) : Scope :=
  { Scope.nothing with
    sends := fun f => ∃ i state, getShareState m states handle = some (i, state) ∧
      f = state.fragments.add fragment fragmentLength ∧
        shareStateSendingComplete { state with fragments := f } = .ok true
    adds := fun length => length = fragmentLength
    pends := True }

/-- A fragment extends the transaction that it is for. -/
theorem addFragment_step (page : PageNumber) (fragment : Bytes) (fragmentLength : BitVec 32)
    (lookup : getShareState m s.shareStates handle = some (i, state)) (unsent : state.sendingComplete = false)
    (room : state.fragments.count ≠ maxFragments) :
    SlotStep (continueScope m s.shareStates handle fragment fragmentLength) i (s.shareStates i)
      (some (state.addFragment page fragment fragmentLength)) := by
  rw [getShareState_some lookup]
  exact .extended rfl room unsent

theorem ffaMemorySendContinue_effect (wf : vm.WellFormed) :
    Post (ffaMemorySendContinue vm page fragment fragmentLength handle s) fun r =>
      Effective (continueScope m s.shareStates handle fragment fragmentLength)
        vm s.shareStates r.1 r.2.1 r.2.2.shareStates := by
  rw [ffaMemorySendContinue]
  split
  · next validation =>
    have steps := ffaMemorySendContinueValidate_steps validation
    exact .ok (.idle (.inr trivial) (.refl wf) (steps _))
  next i state s₁ validation =>
  obtain ⟨rfl, lookup, owner, unsent, room⟩ := ffaMemorySendContinueValidate_ok validation
  refine .guard (.refused wf rfl) fun notTee => .step fun complete completeness => ?_
  refine .ite (fun last => .bind (ffaMemorySendComplete_spec wf) fun _ completed => .ok ?_) fun _ =>
    .step fun _ _ => .ok ?_
  · exact completed.effective (addFragment_step _ _ _ lookup unsent room) unsent owner (.inr notTee)
      ⟨i, state, lookup, rfl, last ▸ completeness⟩
  · exact .idle (.inr trivial) (.refl wf) (.update (addFragment_step _ _ _ lookup unsent room))

/-! ## Retrieving, relinquishing and reclaiming -/

theorem setRetrieved_shareStates (s : Sharing m) (i : Fin maxMemShares) (state : ShareState)
    (receiverIndex count : Nat) :
    (setRetrieved s i state receiverIndex count).shareStates =
      update s.shareStates i (state.retrieve receiverIndex count) := by
  simp only [setRetrieved, ffaMemoryRetrieveComplete, ShareState.retrieve]
  by_cases last : count = state.fragments.count
  · by_cases donated : state.shareFunc = .donate
    · simp [last, donated, shareStateFree, Sharing.set]
    · simp [last, donated, Sharing.set]
  · simp [last, Sharing.set]

/-- Asking for a region. -/
def retrieveScope (request : MemoryRegion) : Scope :=
  { Scope.nothing with asks := fun asked => asked = request }

theorem ffaMemoryRetrieve_effect {requestLength : BitVec 32} (wf : vm.WellFormed) :
    Post (ffaMemoryRetrieve vm request requestLength s) fun r =>
      Effective (retrieveScope request) vm s.shareStates r.1 r.2.1 r.2.2.shareStates := by
  refine .guard (.refused wf rfl) fun _ => ?_
  split
  · exact .ok (.refused wf rfl)
  next lookup =>
  split
  · exact .ok (.refused wf rfl)
  next valid =>
  refine .step fun list granted => ?_
  split
  · exact .ok (.refused wf rfl)
  split
  · exact .ok (.refused wf rfl)
  · refine .step fun mode converted => .step fun r update => ?_
    cases ffaRetrieveCheckUpdate_spec wf _ update with
    | done found accepted result becomes =>
      rw [result]
      refine .step fun _ _ => .step fun _ _ => .ok ?_
      rw [setRetrieved_shareStates]
      exact ⟨_, becomes.setMailbox _, .retrieved rfl rfl lookup (getShareState_some lookup)
        valid granted converted found accepted⟩
    | failed result becomes =>
      rw [result]
      exact .ok (.idle (.inl rfl) becomes (.refl _ _))

theorem ffaMemoryRetrieveContinue_effect {fragmentOffset : BitVec 32} (wf : vm.WellFormed) :
    Post (ffaMemoryRetrieveContinue vm handle fragmentOffset s) fun r =>
      Effective .nothing vm s.shareStates r.1 r.2.1 r.2.2.shareStates := by
  rw [ffaMemoryRetrieveContinue]
  split
  · exact .ok (.refused wf rfl)
  next lookup =>
  split
  · exact .ok (.refused wf rfl)
  next valid =>
  refine .step fun _ _ => .guard (.refused wf rfl) fun _ => .ite (fun _ => .error) fun _ => .ok ?_
  rw [setRetrieved_shareStates]
  exact ⟨_, (Vm.Becomes.refl wf).setMailbox _, .continued rfl (getShareState_some lookup) valid⟩

theorem ffaMemoryRelinquish_effect {request : RelinquishRequest} (wf : vm.WellFormed) :
    Post (ffaMemoryRelinquish vm request s) fun r =>
      Effective .nothing vm s.shareStates r.1 r.2.1 r.2.2.shareStates := by
  refine .guard (.refused wf rfl) fun _ => .guard (.refused wf rfl) fun _ => ?_
  split
  · exact .ok (.refused wf rfl)
  next lookup =>
  have held := getShareState_some lookup
  dsimp only
  split
  · exact .ok (.refused wf rfl)
  next valid =>
  refine .step fun r update => ?_
  cases ffaRelinquishCheckUpdate_spec wf _ update with
  | refused result unchanged =>
    rw [result, unchanged]
    exact .ok (.refused wf rfl)
  | checked found notDevice borrowed demoted =>
    cases demoted with
    | done result range becomes =>
      rw [result]
      exact .ok ⟨_, becomes, .relinquished rfl held valid found borrowed⟩
    | failed result becomes =>
      rw [result]
      exact .ok (.idle (.inl rfl) becomes (.refl _ _))
    | rolledBack result cleared becomes =>
      rw [result]
      exact .ok ⟨_, becomes, .relinquishRolledBack rfl held valid found borrowed⟩

theorem ffaMemoryReclaim_effect {flags : RegionFlags} (wf : vm.WellFormed) :
    Post (ffaMemoryReclaim vm handle flags s) fun r =>
      Effective .nothing vm s.shareStates r.1 r.2.1 r.2.2.shareStates := by
  rw [ffaMemoryReclaim]
  split
  · exact .ok (.refused wf rfl)
  next state lookup =>
  split
  · exact .ok (.refused wf rfl)
  next valid =>
  refine .step fun r update => ?_
  cases ffaRetrieveCheckUpdate_spec wf _ update with
  | done found accepted result becomes =>
    have same : state.senderOrigMode ||| MapFunc.reclaim.state = state.senderOrigMode := BitVec.or_zero
    rw [same] at becomes
    rw [result]
    exact .ok ⟨_, becomes, .reclaimed rfl (getShareState_some lookup) valid found accepted⟩
  | failed result becomes =>
    rw [result]
    exact .ok (.idle (.inl rfl) becomes (.refl _ _))

/-! ## Transactions with the TEE -/

variable {tee tee' : Vm m} {answers : List TeeAnswer}

/-- The TEE's own partition keeps its page table. -/
def Kept (vm vm' : Vm m) : Prop := ∃ mailbox, vm' = { vm with mailbox }

theorem Kept.refl (vm : Vm m) : Kept vm vm := ⟨vm.mailbox, rfl⟩

/-- A region that was offered to the TEE has been sent or is given back. -/
theorem teeRollBack_effect {vm₁ : Vm m} {receivers : List MemoryAccess} (sends : scope.sends f)
    (sendable : Sendable vm f receivers mode) (becomes : vm.Becomes (vm.mapped f (sentMode func mode)) vm₁)
    (steps : SlotSteps scope states states') :
    Post (teeRollBack vm₁ f mode ret pool) fun r => Effective scope vm states ret r.1 states' := by
  refine .ite (fun refused r ran => ?_) fun accepted => .ok ?_
  · have rolled := commitRegion_becomes becomes (fun _ => Vm.mapped_of_not_covers)
      (constituentsGetMode_within sendable.found) ran
    exact ⟨_, rolled, .sendRolledBack refused sends sendable steps⟩
  · exact ⟨_, becomes, .teeSent (not_not.mp accepted) sends sendable steps⟩

/-- Validation keeps the constituents. -/
theorem Validated.teeFragments_eq {region' : MemoryRegion}
    (validated : Validated vm func region region') : teeFragments region' = teeFragments region := by
  simp only [teeFragments, validated.same.composite, validated.same.bytes]

theorem teeSendWhole_effect (wf : vm.WellFormed) (sends : scope.sends (teeFragments region)) :
    Post (teeSendWhole vm tee region func answers s) fun r =>
      Effective scope vm s.shareStates r.1 r.2.1 r.2.2.2.shareStates ∧ Kept tee r.2.2.1 := by
  refine .step fun _ _ => .step fun ⟨stored, r⟩ update => ?_
  dsimp only
  cases ffaSendCheckUpdate_spec wf _ update with
  | refused result unchanged =>
    rw [result, unchanged]
    exact .ok ⟨.refused wf rfl, .refl _⟩
  | checked kept aligned found notDevice exclusive allowed demoted =>
    have sendable : Sendable vm _ _ _ := ⟨aligned, found, notDevice, exclusive, allowed⟩
    cases demoted with
    | failed result becomes =>
      rw [result]
      exact .ok ⟨.idle (.inl rfl) becomes (.refl _ _), .refl _⟩
    | rolledBack result cleared becomes =>
      rw [result]
      exact .ok ⟨⟨_, becomes, .sendRolledBack (ffaError_func _) sends sendable (.refl _ _)⟩, .refl _⟩
    | done result range becomes =>
      dsimp only at kept
      rw [result, kept]
      refine .step fun _ _ => .bind (teeRollBack_effect sends sendable becomes
        (.refl _ s.shareStates)) fun _ effect => .ok ?_
      exact ⟨effect, _, rfl⟩

/-- Sending a descriptor to the TEE. -/
def teeSendScope (vm : Vm m) (func : ShareFunc) (region : MemoryRegion)
    (memoryShareLength fragmentLength : BitVec 32) : Scope :=
  { Scope.nothing with
    sends := fun f => fragmentLength = memoryShareLength ∧ f = teeFragments region
    stores := fun _ func' stored => func' = func ∧ Validated vm func region stored
    pends := True }

theorem ffaMemoryTeeSend_effect (wf : vm.WellFormed) :
    Post (ffaMemoryTeeSend vm tee page region memoryShareLength fragmentLength func answers s) fun r =>
      Effective (teeSendScope vm func region memoryShareLength fragmentLength)
        vm s.shareStates r.1 r.2.1 r.2.2.2.shareStates ∧ Kept tee r.2.2.1 := by
  refine .step fun validated validation => ?_
  split
  · exact .ok ⟨.refused wf rfl, .refl _⟩
  have valid := ffaMemorySendValidate_ok validation
  refine .ite (fun complete => .bind (teeSendWhole_effect wf ?_) fun _ effect => .ok effect) fun _ =>
    .step fun ⟨answer, rest⟩ _ => ?_
  · exact ⟨complete, valid.teeFragments_eq⟩
  dsimp only
  split
  · exact .ok ⟨.idle (.inr trivial) (.refl wf) (.refl _ _), _, rfl⟩
  refine .step fun slot allocation => ?_
  split
  · exact .ok ⟨.refused wf rfl, _, rfl⟩
  · obtain ⟨-, handle, -, state_eq⟩ := allocateShareState_some allocation
    refine .ok ⟨.idle (.inr trivial) (.refl wf) (.update (allocateShareState_opens allocation ?_)), _, rfl⟩
    rw [state_eq]
    exact ⟨rfl, valid.relabel _ _⟩

theorem teeSendLast_effect (wf : vm.WellFormed) (step : SlotStep scope i (s.shareStates i) (some state))
    (unsent : state.sendingComplete = false) (sends : scope.sends state.fragments) :
    Post (teeSendLast vm tee i state answers s) fun r =>
      Effective scope vm s.shareStates r.1 r.2.1 r.2.2.2.shareStates ∧ Kept tee r.2.2.1 := by
  refine .bind (ffaMemorySendComplete_spec wf) fun ⟨ret₁, mode, vm₁, s₁⟩ completed =>
    .step fun ⟨answer, rest⟩ _ => ?_
  have steps : SlotSteps scope s.shareStates (update s.shareStates i none) := .update (step.drop unsent)
  dsimp only at completed ⊢
  cases completed with
  | failed failure freed becomes =>
    rw [failure, if_neg (ffaError_func _)]
    refine .ok ⟨?_, .refl _⟩
    simp only [freed]
    rcases becomes with same | ⟨mode, sendable, rolled⟩
    · exact .idle (.inl rfl) same steps
    · exact ⟨_, rolled, .sendRolledBack (ffaError_func _) sends sendable steps⟩
  | sent success sendable range becomes stored =>
    have freed : update s₁.shareStates i none = update s.shareStates i none := by
      rw [stored, update_idem]
    rw [success, if_pos (by rfl)]
    refine .bind (teeRollBack_effect sends sendable becomes steps) fun _ effect => .ok ?_
    simp only [shareStateFree, Sharing.set, freed]
    exact ⟨effect, _, rfl⟩

theorem ffaMemoryTeeSendContinue_effect (wf : vm.WellFormed) :
    Post (ffaMemoryTeeSendContinue vm tee page fragment fragmentLength handle answers s) fun r =>
      Effective (continueScope m s.shareStates handle fragment fragmentLength)
        vm s.shareStates r.1 r.2.1 r.2.2.2.shareStates ∧ Kept tee r.2.2.1 := by
  rw [ffaMemoryTeeSendContinue]
  split
  · next validation =>
    have steps := ffaMemorySendContinueValidate_steps validation
    exact .ok ⟨.idle (.inr trivial) (.refl wf) (steps _), .refl _⟩
  next i state s₁ validation =>
  obtain ⟨rfl, lookup, -, unsent, room⟩ := ffaMemorySendContinueValidate_ok validation
  have step := addFragment_step page fragment fragmentLength lookup unsent room
  refine .guard ⟨.refused wf rfl, .refl _⟩ fun _ => .ite (fun _ => .step fun _ _ => .ok ?_) fun _ => ?_
  · exact ⟨.idle (.inr trivial) (.refl wf) (.refl _ _), .refl _⟩
  refine .step fun complete completeness => .ite (fun last => ?_) fun _ => ?_
  · exact teeSendLast_effect wf step unsent ⟨i, state, lookup, rfl, last ▸ completeness⟩
  · refine .step fun _ _ => .step fun _ _ => .ite (fun _ => .ok ?_) fun _ => .ok ?_
    · exact ⟨.idle (.inr trivial) (.refl wf) (.update (step.drop unsent)), _, rfl⟩
    · exact ⟨.idle (.inr trivial) (.refl wf) (.update step), _, rfl⟩

/-- What reclaiming from the TEE does to the caller. -/
inductive TeeReclaimed (vm : Vm m) (f : Fragments) (ret : FfaValue) (vm' : Vm m) : Prop
  | done {mode : Mode} (success : ret.func = ffaSuccess32) (found : constituentsGetMode vm f = .ok mode)
      (accepted : MapFunc.reclaim.Accepts mode)
      (becomes : vm.Becomes (vm.mapped f (mmModeR ||| mmModeW ||| mmModeX ||| MapFunc.reclaim.state)) vm')
  | failed (failure : ret.func ≠ ffaSuccess32) (same : vm.Becomes vm.attrsAt vm')

theorem ffaTeeReclaimCheckUpdate_spec (wf : vm.WellFormed) :
    Post (ffaTeeReclaimCheckUpdate vm f (mmModeR ||| mmModeW ||| mmModeX) answers pool) fun r =>
      TeeReclaimed vm f r.1 r.2.1 := by
  refine .ite (fun _ => .step fun transition checked => ?_) fun _ =>
    .ok (.failed (ffaError_func _) (.refl wf))
  split
  · exact .ok (.failed (ffaError_func _) (.refl wf))
  obtain ⟨rfl, mode, found, accepted⟩ := ffaRetrieveCheckTransition_ok _ checked _ rfl
  obtain ⟨prepared, prepare, same, -⟩ :=
    prepareRegion_spec (f := f) wf _ pool
  have tidied := same.kept (vmPtableDefrag_becomes same.wellFormed prepared.state)
  rw [prepare]
  refine .ite (fun _ => .step fun _ _ => .ite (fun refused => .ok (.failed refused tidied)) fun _ => ?_)
    fun _ => .ok (.failed (ffaError_func _) tidied)
  refine .step fun ⟨vm₁, pool₁⟩ commit => .ok ?_
  have becomes := commitRegion_becomes same (fun _ _ => rfl) (constituentsGetMode_within found) commit
  exact .done rfl found accepted (becomes.kept (vmPtableDefrag_becomes becomes.wellFormed pool₁))

/-- Reclaiming what the TEE describes. -/
def teeReclaimScope (vm tee : Vm m) (handle : Handle) (answers : List TeeAnswer) (buffer : Bytes) : Scope :=
  { Scope.nothing with
    returns := fun f => ∃ region rest, teeReclaimRegion vm tee handle answers buffer =
      .ok (.ok region, rest) ∧ f = teeReturned region
    pends := True }

theorem ffaMemoryTeeReclaim_effect {buffer : Bytes} (wf : vm.WellFormed) :
    Post (ffaMemoryTeeReclaim vm tee handle answers buffer s) fun r =>
      Effective (teeReclaimScope vm tee handle answers buffer)
        vm s.shareStates r.1 r.2.1 r.2.2.shareStates := by
  refine .step fun ⟨described, rest⟩ description => ?_
  cases described with
  | error => exact .ok (.idle (.inr trivial) (.refl wf) (.refl _ _))
  | ok region =>
  refine .step fun _ _ => .bind (ffaTeeReclaimCheckUpdate_spec wf) fun _ reclaimed => .ok ?_
  cases reclaimed with
  | done success found accepted becomes =>
    exact ⟨_, becomes, .teeReclaimed success ⟨_, rest, description, rfl⟩ found accepted⟩
  | failed failure same => exact .idle (.inr trivial) same (.refl _ _)

end Hafnium.Ffa
