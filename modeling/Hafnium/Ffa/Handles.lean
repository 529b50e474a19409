import Hafnium.Ffa.Effect
import Hafnium.Lib.SlotTable

/-! # Handles of memory transactions

Transactions between partitions have handles made from the slot of their share state; those with the
TEE have handles that the TEE chooses. Both kinds are in one table. A handle that looks like one of
our own is taken for an index, and the handle that the slot really has is not compared.
-/

namespace Hafnium.Ffa

open Mm SlotTable Partial Function

variable {m : MmConfig}

/-- The handle of the transaction in a slot. -/
def ShareState.handle (state : ShareState) : Handle := state.memoryRegion.handle

/-! ## Handles that are made here -/

/-- A handle that is made here gives back the slot that it is made from. -/
theorem ffaMemoryHandleGetIndex_make (i : Fin maxMemShares) :
    ffaMemoryHandleGetIndex (platFfaMemoryHandleMake m i) = i := by
  rw [platFfaMemoryHandleMake]
  cases m.features.secureWorld
  · revert i
    decide +kernel
  · revert i
    decide +kernel

variable {i : Fin maxMemShares} {states states' : ShareStates} {handle : Handle}
  {state state' : ShareState} {scope : Scope} {vm : Vm m} {ret : FfaValue} {view : Nat → PteBits}
  {opens : Fin maxMemShares → ShareState → Prop} {func : ShareFunc} {page : PageNumber}
  {region : MemoryRegion} {fragmentLength : BitVec 32}

theorem platFfaMemoryHandleMake_inj {j : Fin maxMemShares}
    (same : platFfaMemoryHandleMake m i = platFfaMemoryHandleMake m j) : i = j := by
  apply Fin.ext
  rw [← ffaMemoryHandleGetIndex_make (m := m) i, same, ffaMemoryHandleGetIndex_make]

theorem platFfaMemoryHandleMake_own (i : Fin maxMemShares) :
    platFfaMemoryHandleAllocatedByCurrentWorld m (platFfaMemoryHandleMake m i) = true := by
  rw [platFfaMemoryHandleMake, platFfaMemoryHandleAllocatedByCurrentWorld]
  cases m.features.secureWorld
  · revert i
    decide +kernel
  · revert i
    decide +kernel

/-! ## Lookup -/

/-- Looking up a handle finds the share state that has it, and no other one. -/
def LookupExact (m : MmConfig) (states : ShareStates) (handle : Handle) : Prop :=
  ∀ i state, getShareState m states handle = some (i, state) ↔ states i = some state ∧ state.handle = handle

/-- A handle of our own names a slot with a transaction that has another handle. -/
def Mistaken (m : MmConfig) (states : ShareStates) (handle : Handle) : Prop :=
  platFfaMemoryHandleAllocatedByCurrentWorld m handle = true ∧
    ∃ i state, ffaMemoryHandleGetIndex handle = (i : Fin maxMemShares).val ∧ states i = some state ∧
      state.handle ≠ handle

/-- A handle of our own whose slot is taken is not searched for. -/
theorem getShareState_index (own : platFfaMemoryHandleAllocatedByCurrentWorld m handle = true)
    (index : ffaMemoryHandleGetIndex handle = i.val) (held : states i = some state) :
    getShareState m states handle = some (i, state) := by
  have bound : ffaMemoryHandleGetIndex handle < maxMemShares := index ▸ i.isLt
  have slot : (⟨ffaMemoryHandleGetIndex handle, bound⟩ : Fin maxMemShares) = i := Fin.ext index
  simp only [getShareState, if_pos own, dif_pos bound, slot, held]

/-- Any other handle is searched for. -/
theorem getShareState_scan (other : platFfaMemoryHandleAllocatedByCurrentWorld m handle = true →
      ∀ i : Fin maxMemShares, ffaMemoryHandleGetIndex handle = i.val → states i = none) :
    getShareState m states handle = scan ShareState.handle states handle := by
  have empty (own : platFfaMemoryHandleAllocatedByCurrentWorld m handle = true)
      (bound : ffaMemoryHandleGetIndex handle < maxMemShares) :
      states ⟨_, bound⟩ = none := other own _ rfl
  simp +contextual only [getShareState, empty, dite_eq_ite, ite_self]
  congr 1
  funext i
  cases states i <;> rfl

/-- With unique handles, a lookup is exact if the handle is not mistaken for an index. -/
theorem lookupExact_iff (unique : Unique ShareState.handle states) (handle : Handle) :
    LookupExact m states handle ↔ ¬Mistaken m states handle := by
  constructor
  · rintro exact_ ⟨own, i, state, index, held, different⟩
    exact different ((exact_ i state).mp (getShareState_index own index held)).2
  · intro sound i state
    by_cases taken : platFfaMemoryHandleAllocatedByCurrentWorld m handle = true ∧
        ∃ j state', ffaMemoryHandleGetIndex handle = (j : Fin maxMemShares).val ∧ states j = some state'
    · obtain ⟨own, j, state', index, held⟩ := taken
      have named : state'.handle = handle := by
        by_contra different
        exact sound ⟨own, j, state', index, held, different⟩
      rw [getShareState_index own index held, Option.some.injEq, Prod.mk.injEq]
      constructor
      · rintro ⟨rfl, rfl⟩
        exact ⟨held, named⟩
      · rintro ⟨here, same⟩
        obtain rfl := unique j i state' state held here (named.trans same.symm)
        exact ⟨rfl, Option.some.inj (held.symm.trans here)⟩
    · rw [getShareState_scan, scan_eq_some_iff unique]
      intro own j index
      by_contra some
      obtain ⟨state', held⟩ := Option.ne_none_iff_exists'.mp some
      exact taken ⟨own, j, state', index, held⟩

/-! ## What calls do to handles -/

/-- Slots may be freed, and all other transactions stay what they are. -/
def KeepsRegions (states states' : ShareStates) : Prop :=
  ∀ i state', states' i = some state' → ∃ state, states i = some state ∧
    state'.memoryRegion = state.memoryRegion

theorem ShareState.retrieve_same {receiverIndex count : Nat}
    (stays : state.retrieve receiverIndex count = some state') :
    state'.memoryRegion = state.memoryRegion ∧ state'.fragments = state.fragments := by
  rw [ShareState.retrieve] at stays
  split at stays
  · cases stays
  · cases stays
    exact ⟨rfl, rfl⟩

section Carries

variable
  (related : ShareState → ShareState → Prop) (stores : ∀ i func region, ¬scope.stores i func region)
  (same : ∀ {state state' : ShareState}, state'.memoryRegion = state.memoryRegion →
    state'.fragments = state.fragments → related state state')
  (added : ∀ {state state' : ShareState} {fragment : Bytes} {length : BitVec 32}, scope.adds length →
    state'.memoryRegion = state.memoryRegion →
  state'.fragments = state.fragments.add fragment length → related state state')
include stores same added

theorem SlotStep.carries {slot : Option ShareState} (step : SlotStep scope i slot (some state))
    (region : state'.memoryRegion = state.memoryRegion)
    (fragments : state'.fragments = state.fragments) :
    ∃ before, slot = some before ∧ related before state' := by
  cases step with
  | kept => exact ⟨_, rfl, same region fragments⟩
  | opened stored => exact absurd stored (stores _ _ _)
  | extended permitted => exact ⟨_, rfl, added permitted region fragments⟩

/-- A call that stores no new transaction frees slots at most, and relates what the others hold to what
they held. -/
theorem Effect.carries (effect : Effect scope vm states ret view states') :
    ∀ i state', states' i = some state' → ∃ state, states i = some state ∧ related state state' := by
  have ofSteps {states' : ShareStates} (steps : SlotSteps scope states states')
      (i : Fin maxMemShares) (state' : ShareState)
      (held : states' i = some state') : ∃ state, states i = some state ∧ related state state' :=
    (held ▸ steps i).carries related stores same added rfl rfl
  have ofUpdate {i : Fin maxMemShares} {slot : Option ShareState}
      (kept : ∀ state', slot = some state' → ∃ state, states i = some state ∧ related state state')
        (j : Fin maxMemShares) (state' : ShareState) (held : update states i slot j = some state') :
      ∃ state, states j = some state ∧ related state state' := by
    rcases eq_or_ne j i with rfl | other
    · rw [update_self] at held
      exact kept state' held
    · rw [update_of_ne other] at held
      exact ⟨state', held, same rfl rfl⟩
  cases effect with
  | idle plain steps => exact ofSteps steps
  | sendRolledBack failed sends sendable steps => exact ofSteps steps
  | teeSent success sends sendable steps => exact ofSteps steps
  | sent success step =>
    apply ofUpdate
    intro state' stored
    cases stored
    exact step.carries related stores same added rfl rfl
  | retrieved success asked lookup held =>
    apply ofUpdate
    intro state' stays
    obtain ⟨region, fragments⟩ := ShareState.retrieve_same stays
    exact ⟨_, held, same region fragments⟩
  | continued success held =>
    apply ofUpdate
    intro state' stays
    obtain ⟨region, fragments⟩ := ShareState.retrieve_same stays
    exact ⟨_, held, same region fragments⟩
  | relinquished success held =>
    apply ofUpdate
    intro state' stored
    cases stored
    exact ⟨_, held, same rfl rfl⟩
  | relinquishRolledBack => exact ofSteps (.refl _ _)
  | reclaimed =>
    apply ofUpdate
    intro state' freed
    cases freed
  | teeReclaimed => exact ofSteps (.refl _ _)

end Carries

/-- The answer to a send request tells the handle. -/
def ReturnsHandle (ret : FfaValue) (handle : Handle) : Prop :=
  ret = ffaMemSuccess handle ∨ ret.func = ffaMemFragRx32 ∧ ffaFragHandle ret = handle

theorem ffaFragHandle_ffaFragRx (handle : Handle) (offset : BitVec 32) :
    ffaFragHandle (ffaFragRx handle offset) = handle := by
  simp only [ffaFragHandle, ffaFragRx, handleLow, handleHigh]
  ext k bound
  rw [← BitVec.getLsbD_eq_getElem, ← BitVec.getLsbD_eq_getElem]
  simp only [BitVec.getLsbD_or, BitVec.getLsbD_setWidth, BitVec.getLsbD_shiftLeft, BitVec.getLsbD_ushiftRight]
  -- The lower half comes from the first register, the upper half from the second.
  rcases Nat.lt_or_ge k 32 with low | high
  · simp [low, bound]
  · rw [Nat.add_sub_cancel' high]
    simp [Nat.not_lt.mpr high, bound, show k - 32 < 32 by omega, show k - 32 < 64 by omega]

/-- A send request leaves the table as it is, or opens one slot. -/
inductive SendSlots (opens : Fin maxMemShares → ShareState → Prop) (states : ShareStates) : ShareStates → Prop
  | same : SendSlots opens states states
  | opened {i : Fin maxMemShares} {state : ShareState} (free : states i = none) (opened : opens i state) :
      SendSlots opens states (update states i (some state))

theorem SendSlots.mono {opens' : Fin maxMemShares → ShareState → Prop}
    (le : ∀ {i state}, opens i state → opens' i state) (slots : SendSlots opens states states') :
    SendSlots opens' states states' := by
  cases slots with
  | same => exact .same
  | opened free opened => exact .opened free (le opened)

/-- What holds of all transactions, if it holds of the new one. -/
theorem SendSlots.forall_held {holds : ShareState → Prop} (slots : SendSlots opens states states')
    (new : ∀ {i state}, opens i state → holds state)
    (old : ∀ i state, states i = some state → holds state) :
    ∀ i state, states' i = some state → holds state := by
  cases slots with
  | same => exact old
  | @opened i opened free opens =>
    intro j state held
    rcases eq_or_ne j i with rfl | other
    · rw [update_self] at held
      cases held
      exact new opens
    · rw [update_of_ne other] at held
      exact old j state held

theorem allocateShareState_region
    (allocated : allocateShareState m states func page region fragmentLength handle = .ok (some (i, state))) :
    states i = none ∧ state.memoryRegion.receivers = region.receivers ∧
      state.fragments = firstFragment region fragmentLength ∧
      state.handle = if handle = ffaMemoryHandleInvalid then platFfaMemoryHandleMake m i else handle := by
  simp only [allocateShareState] at allocated
  split at allocated
  · cases allocated
  · next j free =>
    obtain ⟨offset, -, ⟨⟩⟩ := bind_ok_iff.mp allocated
    have isFree := List.find?_some free
    exact ⟨Option.isNone_iff_eq_none.mp isFree, rfl, rfl, rfl⟩

section Send

variable {vm' tee tee' : Vm m} {s s' : Sharing m}
  {memoryShareLength : BitVec 32} {answers : List TeeAnswer}

/-- A slot holds what comes with a descriptor that has passed the checks. -/
structure StoresFirst (vm : Vm m) (region : MemoryRegion)
    (memoryShareLength fragmentLength : BitVec 32) (func : ShareFunc) (state : ShareState) :
    Prop where
  checked : ∃ region',
    ffaMemorySendValidate vm region memoryShareLength fragmentLength func = .ok (.ok region') ∧
    state.memoryRegion.receivers = region'.receivers ∧ state.fragments = firstFragment region' fragmentLength

theorem StoresFirst.receiver (stores : StoresFirst vm region memoryShareLength fragmentLength func state) :
    (state.memoryRegion.receivers 0).receiver = (region.receivers 0).receiver := by
  obtain ⟨region', validation, receivers, -⟩ := stores.checked
  rw [receivers]
  exact (ffaMemorySendValidate_ok validation).same.receiver 0

theorem ffaMemorySend_slots (wf : vm.WellFormed) :
    Post (ffaMemorySend vm page region memoryShareLength fragmentLength func s) fun r =>
      SendSlots (fun i state => state.handle = platFfaMemoryHandleMake m i ∧ ReturnsHandle r.1 state.handle ∧
        StoresFirst vm region memoryShareLength fragmentLength func state)
          s.shareStates r.2.2.shareStates := by
  refine .step fun validated validation => ?_
  cases validated with
  | error e => exact .ok .same
  | ok region' =>
    refine .step fun slot allocation => ?_
    cases slot with
    | none => exact .ok .same
    | some allocated =>
      obtain ⟨free, receivers, fragments, handle⟩ := allocateShareState_region allocation
      refine .ite (fun _ => .bind (ffaMemorySendComplete_spec wf) fun _ spec => .ok ?_) fun _ => .ok ?_
      · cases spec with
        | sent success sendable range becomes stored =>
          rw [stored]
          exact .opened free ⟨handle, .inl success, ⟨_, validation, receivers, fragments⟩⟩
        | failed failure freed =>
          rw [freed, update_eq_self_iff.mpr free.symm]
          exact .same
      · exact .opened free ⟨handle, .inr ⟨rfl, ffaFragHandle_ffaFragRx _ _⟩,
          ⟨_, validation, receivers, fragments⟩⟩

theorem teeSendAnswer_ok {value : FfaValue} (accepted : teeSendAnswer vm fragmentLength value = .ok handle) :
    value.func = ffaMemFragRx32 ∧ handle = ffaFragHandle value := by
  rw [teeSendAnswer] at accepted
  split at accepted
  · cases accepted
  · split at accepted
    · cases accepted
    · next isFragRx =>
      split at accepted
      · cases accepted
      · split at accepted
        · cases accepted
        · cases accepted
          exact ⟨not_not.mp isFragRx, rfl⟩

theorem teeSendWhole_shareStates
    (ran : teeSendWhole vm tee region func answers s = .ok (ret, vm', tee', s')) :
    s'.shareStates = s.shareStates := by
  simp only [teeSendWhole, bind_ok_iff] at ran
  obtain ⟨composite, -, ⟨stored, r⟩, -, ran⟩ := ran
  split at ran
  · cases ran
    rfl
  · simp only [bind_ok_iff] at ran
    obtain ⟨⟨answer, rest⟩, -, ⟨vm₁, pool⟩, -, ran⟩ := ran
    cases ran
    rfl

/-- The answer of the TEE to a first fragment names the transaction. -/
theorem ffaMemoryTeeSend_slots :
    Post (ffaMemoryTeeSend vm tee page region memoryShareLength fragmentLength func answers s) fun r =>
      SendSlots (fun i state => (∃ answer ∈ answers, r.1 = answer.value) ∧ r.1.func = ffaMemFragRx32 ∧
        StoresFirst vm region memoryShareLength fragmentLength func state ∧
        state.handle =
          if ffaFragHandle r.1 = ffaMemoryHandleInvalid then platFfaMemoryHandleMake m i
          else ffaFragHandle r.1)
        s.shareStates r.2.2.2.shareStates := by
  refine .step fun validated validation => ?_
  cases validated with
  | error e => exact .ok .same
  | ok region' =>
    refine .ite (fun _ => .step fun ⟨ret₁, vm₁, tee₁, s₁⟩ whole => .ok ?_) fun _ =>
      .step fun ⟨answer, rest⟩ asked => ?_
    · rw [teeSendWhole_shareStates whole]
      exact .same
    have given : answer ∈ answers := by
      cases answers with
      | nil => cases asked
      | cons head tail =>
        cases asked
        exact List.mem_cons_self
    dsimp only
    split
    · exact .ok .same
    next handle accepted =>
    refine .step fun slot allocation => ?_
    obtain ⟨isFragRx, rfl⟩ := teeSendAnswer_ok accepted
    cases slot with
    | none => exact .ok .same
    | some allocated =>
      obtain ⟨free, receivers, fragments, named⟩ := allocateShareState_region allocation
      exact .ok (.opened free ⟨⟨answer, given, rfl⟩, isFragRx, ⟨_, validation, receivers, fragments⟩, named⟩)

end Send

end Hafnium.Ffa
