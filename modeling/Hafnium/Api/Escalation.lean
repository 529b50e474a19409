import Hafnium.Api.Tracking
import Hafnium.Ffa.Rights

/-! # Rights along chains of transactions

As long as receivers only ask for rights that the sender has, no chain of transactions gives a
partition a right on a page that none of the page's earlier owners had.
-/

namespace Hafnium.Api

open Mm Ffa Lending Function

variable {m : MmConfig}

/-- All partitions run on processors that support them. -/
def Hyp.Supported (h : Hyp m) : Prop := ∀ {id vm}, h.vms id = some vm → vm.Supported

/-- No partition has rights on a page, or has sent it with rights, that are not allowed there. -/
structure Hyp.Bounded (allowed : Nat → Mode) (h : Hyp m) : Prop where
  mapped : ∀ {id vm addr}, h.vms id = some vm → addr < vm.spaceEnd → vm.attrsAt addr ≠ 0 →
    RightsWithin (vm.modeAt addr) (allowed addr)
  sent : ∀ {i state}, h.sharing.shareStates i = some state → state.sendingComplete = true →
    ∀ addr, state.fragments.Covers addr → RightsWithin state.senderOrigMode (allowed addr)
  readable : ∀ {i state vm}, h.sharing.shareStates i = some state → state.sendingComplete = true →
    h.vms state.memoryRegion.sender = some vm → vm.el0Partition = true → state.senderOrigMode &&& mmModeR ≠ 0

/-- A condition on calls under which no rights are gained: the call is fair, a receiver asks for
what the sender's mode covers, and the TEE gives back only pages on which all rights are allowed. -/
structure Covered (allowed : Nat → Mode) (h : Hyp m) (vm : Vm m) (scope : Scope) : Prop where
  fair : Fair h vm scope
  asks : ∀ {request i state permissions}, scope.asks request →
    getShareState m h.sharing.shareStates request.handle = some (i, state) →
    ffaMemoryRetrieveValidateMemoryAccessList state.memoryRegion request vm.id = .ok (.ok permissions) →
    state.shareFunc.Grantable state.senderOrigMode permissions
  returned : ∀ {f}, scope.returns f → ∀ addr, f.Covers addr →
    RightsWithin (mmModeR ||| mmModeW ||| mmModeX) (allowed addr)

variable {vm vm' : Vm m} {addr : Nat} {scope : Scope} {states : ShareStates} {i : Fin maxMemShares}
  {state state' : ShareState} {allowed : Nat → Mode} {h h' : Hyp m} {view : Nat → PteBits}
  {f : Fragments} {mode : Mode} {ret : FfaValue} {meets : Hyp m → Vm m → CallEnv → MemCall → Prop}

/-- Pages with an exclusive mode are present. -/
theorem attrsAt_ne_zero (mapped : ¬(vm.modeAt addr).IsUnmapped) : vm.attrsAt addr ≠ 0 := by
  intro absent
  rw [Vm.modeAt, absent] at mapped
  exact mapped (attrsToMode_absent m vm.stage)

/-- The same transaction, as far as it does not change once it is sent. -/
structure SameDeal (state state' : ShareState) : Prop where
  region : state'.memoryRegion = state.memoryRegion
  fragments : state'.fragments = state.fragments
  func : state'.shareFunc = state.shareFunc
  mode : state'.senderOrigMode = state.senderOrigMode
  complete : state'.sendingComplete = state.sendingComplete

/-- All completely sent transactions were there before. -/
def Origins (states states' : ShareStates) : Prop :=
  ∀ ⦃i state'⦄, states' i = some state' → state'.sendingComplete = true →
    ∃ state, states i = some state ∧ SameDeal state state'

theorem Origins.of_steps {states' : ShareStates} (steps : SlotSteps scope states states') :
    Origins states states' := by
  intro i state' held complete
  have step := steps i
  rw [held] at step
  exact ⟨state', step.kept_of_complete complete, rfl, rfl, rfl, rfl, rfl⟩

theorem Origins.of_update {slot : Option ShareState}
    (held : states i = some state) (same : ∀ {state'}, slot = some state' → SameDeal state state') :
    Origins states (update states i slot) := by
  intro j state' held' complete
  by_cases here : j = i
  · subst here
    rw [update_self] at held'
    exact ⟨state, held, same held'⟩
  · rw [update_of_ne here] at held'
    exact ⟨state', held', rfl, rfl, rfl, rfl, rfl⟩

theorem SameDeal.retrieve {receiverIndex count : Nat}
    (retrieved : state.retrieve receiverIndex count = some state') : SameDeal state state' := by
  rw [ShareState.retrieve] at retrieved
  split at retrieved <;> cases retrieved
  exact ⟨rfl, rfl, rfl, rfl, rfl⟩

section Steps

theorem SameAddresses.modeAt {before : Option (Vm m)} (same : SameAddresses before (some vm')) :
    ∃ vm, before = some vm ∧ vm'.el0Partition = vm.el0Partition ∧ vm'.spaceEnd = vm.spaceEnd ∧
      ∀ addr, addr < vm.spaceEnd → vm'.attrsAt addr = vm.attrsAt addr ∧ vm'.modeAt addr = vm.modeAt addr := by
  generalize after : some vm' = slot at same
  cases same with
  | none => cases after
  | @some vm _ becomes =>
    cases after
    refine ⟨vm, rfl, becomes.el0Partition_eq, becomes.spaceEnd_eq, fun addr inside => ?_⟩
    rw [Vm.modeAt, becomes.stage_eq, becomes.attrsAt_eq inside]
    exact ⟨rfl, rfl⟩

variable (caller : h.vms vm.id = some vm) (changed : h.Changed vm vm' h') (bounded : h.Bounded allowed)
include caller bounded

/-- The caller's pages keep to the bound after a region was mapped with rights that are allowed
there. -/
theorem Hyp.Bounded.pages_mapped (supported : vm.Supported)
    (within : ¬mode.IsUnmapped → ∀ addr, f.Covers addr → RightsWithin mode (allowed addr))
    (readable : ¬mode.IsUnmapped → vm.el0Partition = true → mode &&& mmModeR ≠ 0) (addr : Nat)
    (inside : addr < vm.spaceEnd) (present : vm.mapped f mode addr ≠ 0) :
    RightsWithin (m.attrsToMode vm.stage (vm.mapped f mode addr)) (allowed addr) := by
  by_cases covers : f.Covers addr
  · rw [Vm.mapped_of_covers covers] at present ⊢
    have mapped : ¬mode.IsUnmapped := by
      intro unmapped
      refine present (if_pos ?_)
      rw [Mode.IsUnmapped, mapMode_and vm mode rfl]
      exact unmapped
    intro right member has
    exact within mapped addr covers right member
      ((mappedAttrs_rights supported mapped (readable mapped) member).mp has)
  · rw [Vm.mapped_of_not_covers covers] at present ⊢
    exact bounded.mapped caller inside present

include changed

omit caller in
/-- Only the caller's pages have changed. -/
theorem Hyp.Bounded.mapped_step (becomes : vm.Becomes view vm')
    (pages : ∀ addr < vm.spaceEnd, view addr ≠ 0 → RightsWithin (m.attrsToMode vm.stage (view addr))
      (allowed addr))
    {id : VmId} {v : Vm m} (found : h'.vms id = some v) (inside : addr < v.spaceEnd)
    (present : v.attrsAt addr ≠ 0) : RightsWithin (v.modeAt addr) (allowed addr) := by
  by_cases isCaller : id = vm.id
  · subst isCaller
    cases found.symm.trans changed.caller
    rw [becomes.spaceEnd_eq] at inside
    rw [becomes.attrsAt_eq inside] at present
    rw [Vm.modeAt, becomes.stage_eq, becomes.attrsAt_eq inside]
    exact pages addr inside present
  · have same := changed.others id isCaller
    rw [found] at same
    obtain ⟨old, foundOld, -, space, pages⟩ := same.modeAt
    rw [space] at inside
    obtain ⟨attrs, modes⟩ := pages addr inside
    rw [attrs] at present
    rw [modes]
    exact bounded.mapped foundOld inside present

/-- Share states that were there before keep to the bound. -/
theorem Hyp.Bounded.sent_step (becomes : vm.Becomes view vm')
    (held : h.sharing.shareStates i = some state) (same : SameDeal state state')
    (complete : state'.sendingComplete = true) :
    (∀ addr, state'.fragments.Covers addr → RightsWithin state'.senderOrigMode (allowed addr)) ∧
      ∀ {v}, h'.vms state'.memoryRegion.sender = some v → v.el0Partition = true →
        state'.senderOrigMode &&& mmModeR ≠ 0 := by
  rw [same.complete] at complete
  rw [same.fragments, same.mode, same.region]
  refine ⟨bounded.sent held complete, fun {v} found unprivileged => ?_⟩
  by_cases isCaller : state.memoryRegion.sender = vm.id
  · rw [isCaller] at found
    cases found.symm.trans changed.caller
    exact bounded.readable held complete (isCaller ▸ caller) (becomes.el0Partition_eq ▸ unprivileged)
  · have same := changed.others _ isCaller
    rw [found] at same
    obtain ⟨old, foundOld, el0, -⟩ := same.modeAt
    exact bounded.readable held complete foundOld (el0 ▸ unprivileged)

/-- A step that completes no transaction. -/
theorem Hyp.Bounded.step (becomes : vm.Becomes view vm')
    (pages : ∀ addr < vm.spaceEnd, view addr ≠ 0 → RightsWithin (m.attrsToMode vm.stage (view addr))
      (allowed addr))
    (origins : Origins h.sharing.shareStates h'.sharing.shareStates) : h'.Bounded allowed where
  mapped := bounded.mapped_step changed becomes pages
  sent := by
    intro i state' held' complete
    obtain ⟨state, held, same⟩ := origins held' complete
    exact (bounded.sent_step caller changed becomes held same complete).1
  readable := by
    intro i state' v held' complete
    obtain ⟨state, held, same⟩ := origins held' complete
    exact (bounded.sent_step caller changed becomes held same complete).2

end Steps

section Effects

variable
  (caller : h.vms vm.id = some vm) (bounded : h.Bounded allowed)
include caller bounded

/-- A region of one mode has rights that are allowed on all of its pages. -/
theorem Hyp.Bounded.region (found : constituentsGetMode vm f = .ok mode)
    (modes : ∀ addr, f.Covers addr → vm.modeAt addr = mode) (mapped : ¬mode.IsUnmapped) :
    (∀ addr, f.Covers addr → RightsWithin mode (allowed addr)) ∧
    (vm.el0Partition = true → mode &&& mmModeR ≠ 0) := by
  refine ⟨fun addr covers => ?_, fun unprivileged => ?_⟩
  · have here := modes addr covers
    rw [← here]
    exact bounded.mapped caller (constituentsGetMode_covers_lt found covers) (attrsAt_ne_zero (here ▸ mapped))
  · obtain ⟨addr, -, here⟩ := constituentsGetMode_covers found
    rw [← here]
    -- Modes that are read from an unprivileged partition's table are readable.
    have stage : vm.stage = .stage1 := by
      rw [Vm.stage, unprivileged]
      rfl
    rw [Vm.modeAt, stage]
    change archMmStage1AttrsToMode m.features (vm.attrsAt addr) &&& mmModeR ≠ 0
    rw [archMmStage1AttrsToMode_readable]
    decide

variable {receivers : List MemoryAccess}

/-- The rights of a region that may be sent. -/
theorem Hyp.Bounded.sendable (sendable : Sendable vm f receivers mode) (uniform : Uniform vm f) :
    (∀ addr, f.Covers addr → RightsWithin mode (allowed addr)) ∧
    (vm.el0Partition = true → mode &&& mmModeR ≠ 0) :=
  bounded.region caller sendable.found (uniform mode sendable.found)
    (not_isUnmapped_of_exclusive sendable.exclusive)

variable (supported : vm.Supported)
include supported

/-- The sender's pages while they are sent. -/
theorem Hyp.Bounded.pages_sent (func : ShareFunc) (sendable : Sendable vm f receivers mode)
    (uniform : Uniform vm f) : ∀ addr < vm.spaceEnd, vm.mapped f (sentMode func mode) addr ≠ 0 →
      RightsWithin (m.attrsToMode vm.stage (vm.mapped f (sentMode func mode) addr)) (allowed addr) := by
  obtain ⟨within, readable⟩ := bounded.sendable caller sendable uniform
  refine bounded.pages_mapped caller supported (fun _ addr covers right member has => ?_)
    fun _ unprivileged => ?_
  · rw [sentMode_rights func mode member] at has
    exact within addr covers right member has
  · rw [sentMode_rights func mode (by decide)]
    exact readable unprivileged

variable (changed : h.Changed vm vm' h')
include changed

/-- Every covered call keeps to the bound. -/
theorem bounded_effect {sharing : ShareStates} (sound : h.Sound) (tracks : h.Tracks)
    (covered : Covered allowed h vm scope) (becomes : vm.Becomes view vm')
    (after : h'.sharing.shareStates = sharing)
    (effect : Effect scope vm h.sharing.shareStates ret view sharing) : h'.Bounded allowed := by
  cases effect with
  | idle plain steps =>
    exact bounded.step caller changed becomes
      (fun addr inside present => bounded.mapped caller inside present)
      (after ▸ .of_steps steps)
  | sendRolledBack failed sends sendable steps =>
    obtain ⟨within, readable⟩ := bounded.sendable caller sendable (covered.fair.uniform sends)
    exact bounded.step caller changed becomes
      (bounded.pages_mapped caller supported (fun _ => within) fun _ => readable)
      (after ▸ .of_steps steps)
  | @sent i state mode success step unsent owner here sends sendable range =>
    have uniform := covered.fair.uniform sends
    obtain ⟨within, readable⟩ := bounded.sendable caller sendable uniform
    have pages := bounded.pages_sent caller supported state.shareFunc sendable uniform
    -- All other completely sent transactions were there before.
    have states {j : Fin maxMemShares} {state' : ShareState} (held' : h'.sharing.shareStates j = some state')
        (complete : state'.sendingComplete = true) :
        (∀ addr, state'.fragments.Covers addr → RightsWithin state'.senderOrigMode (allowed addr)) ∧
          ∀ {v}, h'.vms state'.memoryRegion.sender = some v → v.el0Partition = true →
            state'.senderOrigMode &&& mmModeR ≠ 0 := by
      rw [after] at held'
      by_cases same : j = i
      · subst same
        rw [update_self] at held'
        cases held'
        refine ⟨within, fun {v} found unprivileged => ?_⟩
        have found : h'.vms vm.id = some v := owner ▸ found
        cases found.symm.trans changed.caller
        exact readable (becomes.el0Partition_eq ▸ unprivileged)
      · rw [update_of_ne same] at held'
        exact bounded.sent_step caller changed becomes held' ⟨rfl, rfl, rfl, rfl, rfl⟩ complete
    exact ⟨bounded.mapped_step changed becomes pages, fun held' complete => (states held' complete).1,
      fun held' complete => (states held' complete).2⟩
  | teeSent success sends sendable steps =>
    exact bounded.step caller changed becomes
      (bounded.pages_sent caller supported _ sendable (covered.fair.uniform sends))
      (after ▸ .of_steps steps)
  | @retrieved i state request permissions mode unmapped success asked lookup held requested granted
      converted found isUnmapped =>
    have complete := (retrieveValidateRequest_ok requested).1
    have within := ((sound.valid i state held).rightsWithin_iff requested granted converted).mpr
      (covered.asks asked lookup granted)
    have reads := (granted_rights (ffaMemoryRetrieveValidateMemoryAccessList_granted granted) converted).1
    refine bounded.step caller changed becomes
      (bounded.pages_mapped caller supported (fun _ addr covers right member has => ?_)
      fun _ _ => ?_) (after ▸ .of_update held .retrieve)
    · rw [retrievedMode_rights _ _ member] at has
      exact bounded.sent held complete addr covers right member (within right member has)
    · rw [retrievedMode_rights _ _ (by decide), reads]
      decide
  | continued success held requested =>
    exact bounded.step caller changed becomes
      (fun addr inside present => bounded.mapped caller inside present)
      (after ▸ .of_update held .retrieve)
  | @relinquished i state clear mode success held requested found borrowed =>
    have unmapped := relinquishedMode_isUnmapped mode
    refine bounded.step caller changed becomes
      (bounded.pages_mapped caller supported (fun mapped => absurd unmapped mapped)
      fun mapped => absurd unmapped mapped) (after ▸ .of_update held ?_)
    rintro _ ⟨⟩
    exact ⟨rfl, rfl, rfl, rfl, rfl⟩
  | @relinquishRolledBack i state clear mode failed held requested found borrowed =>
    -- The receiver has all pages of the region in the same way.
    have valid := sound.valid i state held
    obtain ⟨-, receiver, finished⟩ := relinquishValidate_ok requested
    have tracked := tracks held ((lending_slots_of_held held).symm.trans
      (slots_of_relinquish held valid requested))
    have retrieved : state.retrievedFragmentCount 0 ≠ 0 := by
      have := valid.fragments
      omega
    obtain ⟨vm₀, attrs, found₀, region, -⟩ := tracked.receiver retrieved
    rw [receiver] at found₀
    cases found₀.symm.trans caller
    obtain ⟨within, readable⟩ := bounded.region caller found (fun _ => region.modeAt found)
      (not_isUnmapped_of_borrowed borrowed)
    exact bounded.step caller changed becomes
      (bounded.pages_mapped caller supported (fun _ => within) fun _ => readable)
      (after ▸ .of_steps (.refl scope _))
  | @reclaimed i state mode success held requested found away =>
    obtain ⟨owner, complete, -⟩ := reclaimValidate_ok requested
    exact bounded.step caller changed becomes
      (bounded.pages_mapped caller supported (fun _ => bounded.sent held complete)
      fun _ => bounded.readable held complete (owner ▸ caller)) (after ▸ .of_update held nofun)
  | teeReclaimed success returns found away =>
    exact bounded.step caller changed becomes
      (bounded.pages_mapped caller supported (fun _ => covered.returned returns)
      fun _ _ => by decide) (after ▸ .of_steps (.refl scope _))

end Effects

/-! ## Runs -/

/-- A covered call of a partition. -/
def CoveredCall (allowed : Nat → Mode) (h : Hyp m) (vm : Vm m) (env : CallEnv) (call : MemCall) : Prop :=
  Covered allowed h vm (call.scope h vm env)

/-- What holds in every state of a run of covered calls. -/
structure Hyp.Capped (allowed : Nat → Mode) (h : Hyp m) : Prop where
  sound : h.Sound
  tracks : h.Tracks
  supported : h.Supported
  bounded : h.Bounded allowed

theorem Hyp.Quiet.bounded (quiet : h.Quiet h') (bounded : h.Bounded allowed) : h'.Bounded allowed where
  mapped := by
    intro id vm addr found inside present
    obtain ⟨old, foundOld, -, space, pages⟩ :=
      (found ▸ quiet.vms id : SameAddresses (h.vms id) (some vm)).modeAt
    rw [space] at inside
    obtain ⟨attrs, modes⟩ := pages addr inside
    rw [attrs] at present
    rw [modes]
    exact bounded.mapped foundOld inside present
  sent := by
    rw [quiet.shareStates]
    exact bounded.sent
  readable := by
    intro i state vm held complete found unprivileged
    rw [quiet.shareStates] at held
    obtain ⟨old, foundOld, el0, -⟩ := (found ▸ quiet.vms _ : SameAddresses _ (some vm)).modeAt
    exact bounded.readable held complete foundOld (el0 ▸ unprivileged)

theorem Hyp.Step.supported (step : Hyp.Step meets h h') (wf : h.WellFormed)
    (supported : h.Supported) : h'.Supported := by
  have keeps {id : VmId} {vm : Vm m} (same : SameAddresses (h.vms id) (some vm)) : vm.Supported := by
    obtain ⟨old, found, el0, -⟩ := same.modeAt
    intro unprivileged
    exact supported found (el0 ▸ unprivileged)
  intro id v found
  cases step with
  | @call vm env call ret caller world meets ran =>
    obtain ⟨vm', changed, view, becomes, -⟩ := apiMemCall_effect wf caller ran
    by_cases isCaller : id = vm.id
    · subst isCaller
      cases found.symm.trans changed.caller
      intro unprivileged
      exact supported caller (becomes.el0Partition_eq ▸ unprivileged)
    · exact keeps (found ▸ changed.others id isCaller)
  | quiet quiet => exact keeps (found ▸ quiet.vms id)

theorem Hyp.Capped.step (capped : h.Capped allowed) (step : Hyp.Step (CoveredCall allowed) h h') :
    h'.Capped allowed := by
  have fair : Hyp.Step FairCall h h' := by
    cases step with
    | call caller world meets ran => exact .call caller world (Covered.fair meets) ran
    | quiet quiet => exact .quiet quiet
  refine ⟨capped.sound.step fair, capped.sound.tracks_step capped.tracks fair,
    step.supported capped.sound.wellFormed capped.supported, ?_⟩
  cases step with
  | call caller world covered ran =>
    obtain ⟨vm', changed, view, becomes, effect⟩ := apiMemCall_effect capped.sound.wellFormed caller ran
    exact bounded_effect caller capped.bounded (capped.supported caller)
      changed capped.sound capped.tracks covered becomes rfl effect
  | quiet quiet => exact quiet.bounded capped.bounded

theorem Hyp.Capped.run (capped : h.Capped allowed)
    (run : Relation.ReflTransGen (Hyp.Step (CoveredCall allowed)) h h') : h'.Capped allowed := by
  induction run with
  | refl => exact capped
  | tail _ step ih => exact ih.step step

/-- A call without any condition. -/
def AnyCall (_ : Hyp m) (_ : Vm m) (_ : CallEnv) (_ : MemCall) : Prop := True

/-- What holds in every state, whatever the partitions do. -/
theorem Hyp.valid_run (wf : h.WellFormed) (fresh : ∀ i, h.sharing.shareStates i = none)
    (supported : h.Supported) (run : Relation.ReflTransGen (Hyp.Step AnyCall) h h') :
    h'.WellFormed ∧ ValidStates m maxMemShareRecipients h'.sharing.shareStates ∧ h'.Supported := by
  induction run with
  | refl =>
    refine ⟨wf, fun i state held => ?_, supported⟩
    cases held.symm.trans (fresh i)
  | tail _ step ih =>
    obtain ⟨wf, valid, supported⟩ := ih
    exact ⟨step.wellFormed wf, step.valid wf (fun _ => MemCall.scope_storable) valid,
      step.supported wf supported⟩

/-- The request of an accepted retrieve call, the share state that its handle names, what it was granted,
and the caller's new address space. -/
theorem retrieved_of_response {env : CallEnv} {length fragmentLength : BitVec 32} {address : BitVec 64}
    {pageCount : BitVec 32} (wf : h.WellFormed) (caller : h.vms vm.id = some vm)
    (ran : apiMemCall h vm env (.retrieveReq length fragmentLength address pageCount) = .ok (ret, h'))
    (response : ret.func = ffaMemRetrieveResp32) :
    ∃ message i state permissions mode unmapped vm', vm.mailbox.send = some message ∧
      let request := memoryRegionFrom (copyMessage message env.stale length.toNat)
      getShareState m h.sharing.shareStates request.handle = some (i, state) ∧
      retrieveValidateRequest state request vm.id = .ok () ∧
      ffaMemoryRetrieveValidateMemoryAccessList state.memoryRegion request vm.id = .ok (.ok permissions) ∧
      ffaMemoryPermissionsToMode permissions state.senderOrigMode = .ok mode ∧
      constituentsGetMode vm state.fragments = .ok unmapped ∧ h'.vms vm.id = some vm' ∧
      vm.Becomes (vm.mapped state.fragments (mode ||| (MapFunc.retrieve state.shareFunc).state)) vm' := by
  obtain ⟨vm', changed, view, becomes, effect⟩ := apiMemCall_effect wf caller ran
  have different {func : BitVec 64} (other : ret.func = func)
      (distinct : ffaMemRetrieveResp32 ≠ func) : False :=
    distinct (response.symm.trans other)
  have quiet : ¬(MemCall.scope h vm env (.retrieveReq length fragmentLength address pageCount)).pends ∧
      ∀ f, ¬(MemCall.scope h vm env (.retrieveReq length fragmentLength address pageCount)).sends f := by
    simp only [MemCall.scope]
    split <;> exact ⟨id, fun _ => id⟩
  generalize h'.sharing.shareStates = states' at effect
  cases effect with
  | retrieved success asked lookup held requested granted converted found isUnmapped =>
    simp only [MemCall.scope] at asked
    split at asked
    · exact asked.elim
    · next message sends =>
      obtain rfl := asked
      exact ⟨message, _, _, _, _, _, vm', sends, lookup, requested, granted, converted, found,
        changed.caller, becomes⟩
  | idle plain steps =>
    rcases plain with failed | pends
    · exact (different failed (by decide)).elim
    · exact absurd pends quiet.1
  | sendRolledBack failed sends => exact absurd sends (quiet.2 _)
  | sent success step unsent owner here sends => exact absurd sends (quiet.2 _)
  | teeSent success => exact (different success (by decide)).elim
  | continued success => exact (different success (by decide)).elim
  | relinquished success => exact (different success (by decide)).elim
  | relinquishRolledBack failed => exact (different failed (by decide)).elim
  | reclaimed success => exact (different success (by decide)).elim
  | teeReclaimed success => exact (different success (by decide)).elim

/-- The pages of a retrieved region have no rights that the sender's mode does not have, if and
only if the request is covered by that mode. -/
theorem retrieved_rightsWithin_iff {limit : Nat} {request : MemoryRegion}
    {permissions : Permissions} {unmapped : Mode} (supported : vm.Supported) (valid : state.Valid m limit i)
    (requested : retrieveValidateRequest state request vm.id = .ok ())
    (granted : ffaMemoryRetrieveValidateMemoryAccessList state.memoryRegion request vm.id =
      .ok (.ok permissions))
    (converted : ffaMemoryPermissionsToMode permissions state.senderOrigMode = .ok mode)
    (found : constituentsGetMode vm state.fragments = .ok unmapped)
    (becomes : vm.Becomes (vm.mapped state.fragments
      (mode ||| (MapFunc.retrieve state.shareFunc).state)) vm') :
    (∀ addr, state.fragments.Covers addr → RightsWithin (vm'.modeAt addr) state.senderOrigMode) ↔
      state.shareFunc.Grantable state.senderOrigMode permissions := by
  have reads := (granted_rights (ffaMemoryRetrieveValidateMemoryAccessList_granted granted) converted).1
  have mapped : ¬(mode ||| (MapFunc.retrieve state.shareFunc).state).IsUnmapped := by
    rw [Mode.IsUnmapped, BitVec.and_or_distrib_right, ffaMemoryPermissionsToMode_and converted rfl]
    cases state.shareFunc <;> decide
  have page {addr : Nat} (covers : state.fragments.Covers addr) {right : Mode}
      (member : right ∈ [mmModeR, mmModeW, mmModeX]) :
      vm'.modeAt addr &&& right ≠ 0 ↔ mode &&& right ≠ 0 := by
    rw [Vm.modeAt, becomes.stage_eq, becomes.attrsAt_eq
      (constituentsGetMode_covers_lt found covers), Vm.mapped_of_covers covers,
      mappedAttrs_rights supported mapped ?_ member, retrievedMode_rights _ _ member]
    intro _
    rw [retrievedMode_rights _ _ (by decide), reads]
    decide
  rw [← valid.rightsWithin_iff requested granted converted]
  constructor
  · intro pages right member has
    obtain ⟨addr, covers, -⟩ := constituentsGetMode_covers found
    exact pages addr covers right member ((page covers member).mpr has)
  · intro within addr covers right member has
    exact within right member ((page covers member).mp has)

/-- From a state without transactions: whatever the partitions do, an accepted retrieve request maps the
region of the transaction that it names, with the permissions that it is granted there. The caller then
has no rights beyond those of the sender if and only if these are covered by the sender's mode. And in
every run of covered calls, no partition gets a right on a page that no earlier owner of the page had. -/
theorem no_privilege_escalation {h : Hyp m} (wf : h.WellFormed) (exclusive : h.Exclusive)
    (fresh : ∀ i, h.sharing.shareStates i = none) (supported : h.Supported) :
    (∀ {h₁ h₂ vm env length fragmentLength address pageCount ret},
      Relation.ReflTransGen (Hyp.Step AnyCall) h h₁ → h₁.vms vm.id = some vm →
      apiMemCall h₁ vm env (.retrieveReq length fragmentLength address pageCount) = .ok (ret, h₂) →
      ret.func = ffaMemRetrieveResp32 →
      ∃ message i state permissions mode vm', vm.mailbox.send = some message ∧
        let request := memoryRegionFrom (copyMessage message env.stale length.toNat)
        getShareState m h₁.sharing.shareStates request.handle = some (i, state) ∧
        ffaMemoryRetrieveValidateMemoryAccessList state.memoryRegion request vm.id = .ok (.ok permissions) ∧
        ffaMemoryPermissionsToMode permissions state.senderOrigMode = .ok mode ∧
        h₂.vms vm.id = some vm' ∧
        (∀ addr, state.fragments.Covers addr → vm'.attrsAt addr =
          vm.mappedAttrs (vm.mapMode (mode ||| (MapFunc.retrieve state.shareFunc).state))) ∧
        ((∀ addr, state.fragments.Covers addr → RightsWithin (vm'.modeAt addr) state.senderOrigMode) ↔
          state.shareFunc.Grantable state.senderOrigMode permissions)) ∧
    ∀ {allowed h'}, (∀ {id vm addr}, h.vms id = some vm → addr < vm.spaceEnd → vm.attrsAt addr ≠ 0 →
        RightsWithin (vm.modeAt addr) (allowed addr)) →
      Relation.ReflTransGen (Hyp.Step (CoveredCall allowed)) h h' →
      ∀ {id vm addr}, h'.vms id = some vm → addr < vm.spaceEnd → vm.modeAt addr &&& mmModeInvalid = 0 →
        RightsWithin (vm.modeAt addr) (allowed addr) := by
  constructor
  · intro h₁ h₂ vm env length fragmentLength address pageCount ret run caller returned response
    obtain ⟨wf₁, valid, supported₁⟩ := Hyp.valid_run wf fresh supported run
    obtain ⟨message, i, state, permissions, mode, unmapped, vm', sends, lookup, requested, granted,
        converted, found, after, becomes⟩ := retrieved_of_response wf₁ caller returned response
    refine ⟨message, i, state, permissions, mode, vm', sends, lookup, granted, converted, after,
      fun addr covers => ?_, ?_⟩
    · rw [becomes.attrsAt_eq (constituentsGetMode_covers_lt found covers), Vm.mapped_of_covers covers]
    · exact retrieved_rightsWithin_iff (supported₁ caller)
        (valid i state (getShareState_some lookup)) requested granted
        converted found becomes
  · intro allowed h' start run id vm addr found inside isValid
    have none {i : Fin maxMemShares} {state : ShareState}
        (held : h.sharing.shareStates i = some state) : False := by
      cases held.symm.trans (fresh i)
    have capped : h.Capped allowed := ⟨exclusive.sound wf fresh, fun _ _ _ held => (none held).elim,
      supported, start, fun held => (none held).elim, fun held => (none held).elim⟩
    exact (capped.run run).bounded.mapped found inside
      (attrsAt_ne_zero fun unmapped => invalid_of_access (access_of_isUnmapped unmapped) isValid)

/-! ## A chain of two partitions -/

theorem blockPartitions_supported (attrs : PteBits) (send send' : Option Bytes) :
    (blockPartitions attrs send send').Supported := by
  intro id vm found unprivileged
  rcases partitions_cases found with ⟨-, rfl⟩ | ⟨-, rfl⟩ <;> cases unprivileged

/-- The response to a retrieve request of partition 2, and a check of the new state. -/
def retrievesWith (h : Hyp smallConfig) (check : Hyp smallConfig → Bool) : Bool :=
  match h.vms 2 with
  | none => false
  | some vm => returnsWith ffaMemRetrieveResp32 (apiMemCall h vm quietEnv (.retrieveReq 48 48 0 0)) check

theorem retrievesWith_iff {h : Hyp smallConfig} {check : Hyp smallConfig → Bool} :
    retrievesWith h check = true ↔
    ∃ vm ret h', h.vms 2 = some vm ∧ apiMemCall h vm quietEnv (.retrieveReq 48 48 0 0) = .ok (ret, h') ∧
      ret.func = ffaMemRetrieveResp32 ∧ check h' = true := by
  rw [retrievesWith]
  constructor
  · intro retrieved
    split at retrieved
    · cases retrieved
    · next vm found =>
      obtain ⟨ret, h', ran⟩ := returnsWith_iff.mp retrieved
      exact ⟨vm, ret, h', found, ran⟩
  · rintro ⟨vm, ret, h', found, ran⟩
    rw [found]
    exact returnsWith_iff.mpr ⟨ret, h', ran⟩

/-- Partition 2 retrieves what partition 1 sent first, for reading and writing. -/
def retrieveReadWrite : Bytes := messageOf [(0, 1), (15, 0x80), (28, 1), (32, 2), (34, 6)]

/-- Partition 1 donates its block to partition 2. -/
def donateBlock : Bytes := messageOf [(0, 1), (28, 1), (32, 2), (36, 48), (52, 1), (73, 2)]

/-- Partition 1 shares its block with partition 2, for reading and writing. -/
def shareBlock : Bytes := messageOf [(0, 1), (2, 0x2f), (28, 1), (32, 2), (34, 2), (36, 48), (52, 1), (73, 2)]

/-- The attributes of memory that its owner can only read. -/
def readOnlyAttrs : PteBits := archMmModeToStage2Attrs mmModeR

theorem readOnlyAttrs_block : BlockAttrs readOnlyAttrs := archMmModeToStage2Attrs_block _ (by decide)

/-- All transactions share their pages. -/
def allShare (h : Hyp smallConfig) : Bool := (List.finRange maxMemShares).all fun i =>
  (h.sharing.shareStates i).elim true fun state => decide (state.shareFunc = .share)

/-- Partition 2 retrieves a block that partition 1 shares, with rights that partition 1 has. -/
theorem no_privilege_escalation_shared_block :
    let h := blockPartitions ordinaryAttrs (some shareBlock) (some retrieveReadWrite)
    ∃ ret h₁ vm ret' h₂ i state vm',
      apiMemCall h (attrsVm 1 0 ordinaryAttrs (some shareBlock)) quietEnv (.send .share 80 80 0 0) =
        .ok (ret, h₁) ∧
      h₁.vms 2 = some vm ∧ apiMemCall h₁ vm quietEnv (.retrieveReq 48 48 0 0) = .ok (ret', h₂) ∧
      ret'.func = ffaMemRetrieveResp32 ∧ h₁.sharing.shareStates i = some state ∧ h₂.vms 2 = some vm' ∧
      ∀ addr, state.fragments.Covers addr → RightsWithin (vm'.modeAt addr) state.senderOrigMode := by
  have run : returnsWith ffaSuccess32 (apiMemCall (blockPartitions ordinaryAttrs (some shareBlock)
      (some retrieveReadWrite))
      (attrsVm 1 0 ordinaryAttrs (some shareBlock)) quietEnv (.send .share 80 80 0 0))
      (fun h₁ => allShare h₁ && retrievesWith h₁ fun _ => true) = true := by
    decide +kernel
  obtain ⟨ret, h₁, sent, -, checked⟩ := returnsWith_iff.mp run
  obtain ⟨shared, retrieved⟩ := Bool.and_eq_true_iff.mp checked
  obtain ⟨vm, ret', h₂, found, returned, response, -⟩ := retrievesWith_iff.mp retrieved
  have id : vm.id = 2 := h₁.vmIds found
  have step : Hyp.Step AnyCall (blockPartitions ordinaryAttrs (some shareBlock)
      (some retrieveReadWrite)) h₁ :=
    .call rfl (by decide) trivial sent
  obtain ⟨message, i, state, permissions, mode, vm', -, lookup, -, -, after, -, iff⟩ :=
    (no_privilege_escalation (blockPartitions_wellFormed ordinaryAttrs_block _ _)
      (blockPartitions_exclusive ordinaryAttrs_block (by decide) _ _) (fun _ => rfl)
        (blockPartitions_supported _ _ _)).1 (.single step) (id.symm ▸ found) returned response
  have held := getShareState_some lookup
  have func : state.shareFunc = .share := by
    have slot := List.all_eq_true.mp shared i (List.mem_finRange i)
    rw [held] at slot
    exact of_decide_eq_true slot
  refine ⟨ret, h₁, vm, ret', h₂, i, state, vm', sent, found, returned, response, held, id ▸ after,
    iff.mpr ⟨?_, ?_, ?_⟩⟩
  · exact fun other => absurd func other
  · rw [func]
    exact nofun
  · rw [func]
    exact nofun

/-- The page at `0x1000` is in the region of the first slot, and partition 2 can write it though
its sender could not. -/
def escalated (h₁ h₂ : Hyp smallConfig) : Bool :=
  match h₁.sharing.shareStates firstSlot, h₂.vms 2 with
  | some state, some vm => decide (Ffa.Covered state.fragments.list 0x1000) &&
      decide (¬RightsWithin (vm.modeAt 0x1000) state.senderOrigMode)
  | _, _ => false

/-- Partition 1 donates a block that it can only read, and partition 2 retrieves it with the right
to write. -/
theorem no_privilege_escalation_donated_block :
    let h := blockPartitions readOnlyAttrs (some donateBlock) (some retrieveReadWrite)
    h.WellFormed ∧ h.Exclusive ∧ (∀ i, h.sharing.shareStates i = none) ∧ h.Supported ∧
      ∃ ret h₁ vm ret' h₂ state vm',
        apiMemCall h (attrsVm 1 0 readOnlyAttrs (some donateBlock))
          quietEnv (.send .donate 80 80 0 0) = .ok (ret, h₁) ∧
        ret.func = ffaSuccess32 ∧ h₁.vms 2 = some vm ∧
        apiMemCall h₁ vm quietEnv (.retrieveReq 48 48 0 0) = .ok (ret', h₂) ∧
          ret'.func = ffaMemRetrieveResp32 ∧
        h₁.sharing.shareStates firstSlot = some state ∧ state.fragments.Covers 0x1000 ∧ h₂.vms 2 = some vm' ∧
        ¬RightsWithin (vm'.modeAt 0x1000) state.senderOrigMode := by
  refine ⟨blockPartitions_wellFormed readOnlyAttrs_block _ _,
    blockPartitions_exclusive readOnlyAttrs_block (by decide) _ _, fun _ => rfl,
    blockPartitions_supported _ _ _, ?_⟩
  have run : returnsWith ffaSuccess32 (apiMemCall (blockPartitions readOnlyAttrs (some donateBlock)
      (some retrieveReadWrite))
      (attrsVm 1 0 readOnlyAttrs (some donateBlock)) quietEnv (.send .donate 80 80 0 0))
      (fun h₁ => retrievesWith h₁ (escalated h₁)) = true := by
    decide +kernel
  obtain ⟨ret, h₁, sent, success, retrieved⟩ := returnsWith_iff.mp run
  obtain ⟨vm, ret', h₂, found, returned, response, escalation⟩ := retrievesWith_iff.mp retrieved
  rw [escalated] at escalation
  split at escalation
  · next state vm' held after =>
    obtain ⟨covers, more⟩ := Bool.and_eq_true_iff.mp escalation
    exact ⟨ret, h₁, vm, ret', h₂, state, vm', sent, success, found, returned, response, held,
      of_decide_eq_true covers, after, of_decide_eq_true more⟩
  · cases escalation

end Hafnium.Api
