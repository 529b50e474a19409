import Hafnium.Api.Ownership

/-! # The pages of outstanding transactions

While a transaction is outstanding, only calls about it touch its pages. So the sender's pages keep
the mode in which they were sent, and the receiver's pages keep the same attributes throughout the
region, until the region is relinquished or reclaimed.
-/

namespace Hafnium.Api

open Mm Ffa Lending Function

variable {m : MmConfig}

/-- The pages of a region lie in a partition's address space and share these attributes. -/
structure RegionAttrs (vm : Vm m) (f : Fragments) (attrs : PteBits) : Prop where
  within : ∀ p ∈ f.list, p.2.Within vm.spaceEnd
  attrs : ∀ addr, f.Covers addr → vm.attrsAt addr = attrs

variable {vm : Vm m} {f : Fragments} {attrs : PteBits} {mode : Mode} {view : Nat → PteBits} {h h' : Hyp m}

/-- The mode of such a region can be read. -/
theorem RegionAttrs.getMode (region : RegionAttrs vm f attrs) (count : 0 < f.count)
    (counted : 0 < f.counts 0) : constituentsGetMode vm f = .ok (m.attrsToMode vm.stage attrs) := by
  have modeOf {i j : Nat} (iBound : i < f.count) (jBound : j < f.counts i) :
      vm.ModeOf (f.constituents i j) (m.attrsToMode vm.stage attrs) := by
    have member := Fragments.mem_list.mpr ⟨i, iBound, j, jBound, rfl⟩
    exact ⟨attrs, ⟨region.within _ member, fun addr covers => region.attrs addr ⟨_, member, covers⟩⟩, rfl⟩
  exact constituentsGetMode_iff.mpr ⟨count, counted, fun j bound => ⟨_, modeOf count bound⟩,
    modeOf count (by omega), fun i bound _ j jBound => modeOf bound jBound⟩

/-- All pages of such a region have the mode that is read. -/
theorem RegionAttrs.modeAt (region : RegionAttrs vm f attrs)
    (found : constituentsGetMode vm f = .ok mode) {addr : Nat} (covers : f.Covers addr) :
    vm.modeAt addr = mode := by
  obtain ⟨count, counted, -⟩ := constituentsGetMode_iff.mp found
  rw [region.getMode count counted] at found
  cases found
  rw [Vm.modeAt, region.attrs addr covers]

/-- What the partitions of an outstanding transaction have of its region. -/
structure Tracked (h : Hyp m) (state : ShareState) : Prop where
  counted : 0 < state.fragments.counts 0
  sender : ∃ vm, h.vms state.memoryRegion.sender = some vm ∧
    RegionAttrs vm state.fragments (vm.mappedAttrs
      (vm.mapMode (sentMode state.shareFunc state.senderOrigMode)))
  receiver : state.retrievedFragmentCount 0 ≠ 0 →
    ∃ vm attrs, h.vms (state.memoryRegion.receivers 0).receiver = some vm ∧
    RegionAttrs vm state.fragments attrs ∧ m.attrsToMode vm.stage attrs &&& mmModeD = 0

/-- All outstanding transactions are tracked. -/
def Hyp.Tracks (h : Hyp m) : Prop :=
  ∀ ⦃i state t⦄, h.sharing.shareStates i = some state → state.transaction = some t → Tracked h state

/-- A partition that still has a region as it had it. -/
structure SameRegion (f : Fragments) (vm vm' : Vm m) : Prop where
  el0Partition : vm'.el0Partition = vm.el0Partition
  attrs : ∀ attrs, RegionAttrs vm f attrs → RegionAttrs vm' f attrs

theorem SameRegion.of_becomes {vm' : Vm m} (becomes : vm.Becomes view vm')
    (same : ∀ addr, f.Covers addr → view addr = vm.attrsAt addr) : SameRegion f vm vm' := by
  refine ⟨becomes.el0Partition_eq, fun attrs region => ⟨?_, fun addr covers => ?_⟩⟩
  · rw [becomes.spaceEnd_eq]
    exact region.within
  · rw [becomes.attrsAt_eq (covers.lt region.within), same addr covers]
    exact region.attrs addr covers

theorem SameAddresses.sameRegion {slot : Option (Vm m)} (same : SameAddresses (some vm) slot)
    (f : Fragments) : ∃ vm', slot = some vm' ∧ SameRegion f vm vm' := by
  cases same with
  | @some _ vm' kept => exact ⟨vm', rfl, .of_becomes kept fun _ _ => rfl⟩

section Steps

variable {vm' : Vm m}

/-- A partition whose pages of a region do not change. -/
theorem Hyp.Changed.sameRegion (caller : h.vms vm.id = some vm) (changed : h.Changed vm vm' h')
    (becomes : vm.Becomes view vm') {id : VmId} {v : Vm m} (found : h.vms id = some v)
    (same : id = vm.id → ∀ addr, f.Covers addr → view addr = vm.attrsAt addr) :
    ∃ v', h'.vms id = some v' ∧ SameRegion f v v' := by
  by_cases isCaller : id = vm.id
  · subst isCaller
    cases found.symm.trans caller
    exact ⟨vm', changed.caller, .of_becomes becomes (same rfl)⟩
  · exact (found ▸ changed.others id isCaller : SameAddresses (some v) (h'.vms id)).sameRegion f

/-- What the sender keeps of a region. -/
theorem Tracked.sender_of_same {state : ShareState} (tracked : Tracked h state)
    (same : ∀ {sender}, h.vms state.memoryRegion.sender = some sender →
      ∃ sender', h'.vms state.memoryRegion.sender = some sender' ∧
      SameRegion state.fragments sender sender') :
    ∃ sender, h'.vms state.memoryRegion.sender = some sender ∧ RegionAttrs sender state.fragments
      (sender.mappedAttrs (sender.mapMode (sentMode state.shareFunc state.senderOrigMode))) := by
  obtain ⟨sender, found, own⟩ := tracked.sender
  obtain ⟨sender', found', keeps⟩ := same found
  refine ⟨sender', found', ?_⟩
  have attrs := keeps.attrs _ own
  simp only [Vm.mappedAttrs, Vm.mapMode, Vm.stage, keeps.el0Partition] at attrs ⊢
  exact attrs

/-- A transaction whose region nobody touches stays tracked. -/
theorem Tracked.of_same {state : ShareState} (tracked : Tracked h state)
    (same : ∀ {id v}, h.vms id = some v → ∃ v', h'.vms id = some v' ∧
      SameRegion state.fragments v v') : Tracked h' state := by
  refine ⟨tracked.counted, tracked.sender_of_same same, fun retrieved => ?_⟩
  obtain ⟨receiver, attrs, found, own, normal⟩ := tracked.receiver retrieved
  obtain ⟨receiver', found', keeps⟩ := same found
  refine ⟨receiver', attrs, found', keeps.attrs _ own, ?_⟩
  rw [Vm.stage, keeps.el0Partition]
  exact normal

/-- A transaction whose region the caller does not touch stays tracked. -/
theorem Tracked.keep {state : ShareState} (caller : h.vms vm.id = some vm) (changed : h.Changed vm vm' h')
    (becomes : vm.Becomes view vm') (tracked : Tracked h state)
    (same : ∀ addr, state.fragments.Covers addr → view addr = vm.attrsAt addr) : Tracked h' state :=
  tracked.of_same fun found => changed.sameRegion caller becomes found fun _ => same

/-- A region that got new attributes. -/
theorem RegionAttrs.mapped (becomes : vm.Becomes (vm.mapped f mode) vm')
    (within : ∀ p ∈ f.list, p.2.Within vm.spaceEnd) :
    RegionAttrs vm' f (vm.mappedAttrs (vm.mapMode mode)) := by
  refine ⟨fun p member => becomes.spaceEnd_eq ▸ within p member, fun addr covers => ?_⟩
  rw [becomes.attrsAt_eq (covers.lt within), Vm.mapped_of_covers covers]

variable {i : Fin maxMemShares} {scope : Scope}

section Frame

variable {state : ShareState} {t : Transaction VmId Nat} {j : Fin maxMemShares}

/-- Pages of a transaction are not idle. -/
theorem not_covers_of_idle (held : h.sharing.shareStates j = some state) (active : state.transaction = some t)
    (idle : ∀ addr, f.Covers addr → h.lending.Idle addr) {addr : Nat} (covers : state.fragments.Covers addr) :
    ¬f.Covers addr := by
  intro touched
  refine idle addr touched j t ((lending_slots_of_held held).trans active) ?_
  rw [ShareState.transaction_region active]
  exact covers

/-- Different transactions have different pages. -/
theorem not_covers_of_other {other : ShareState} {u : Transaction VmId Nat} (inv : Inv h.lending)
    (held : h.sharing.shareStates i = some state) (active : state.transaction = some t) (different : j ≠ i)
    (heldOther : h.sharing.shareStates j = some other) (activeOther : other.transaction = some u)
    {addr : Nat} (covers : other.fragments.Covers addr) : ¬state.fragments.Covers addr := by
  intro touched
  have slot := (lending_slots_of_held held).trans active
  have slotOther := (lending_slots_of_held heldOther).trans activeOther
  refine different (((inv.pages addr).expects slot ?_).1 slotOther ?_)
  · rw [ShareState.transaction_region active]
    exact touched
  · rw [ShareState.transaction_region activeOther]
    exact covers

variable (caller : h.vms vm.id = some vm) (changed : h.Changed vm vm' h') (tracks : h.Tracks)
include caller changed tracks

/-- A transaction whose pages are not those of the region that changed. -/
theorem Hyp.Tracks.keep (becomes : vm.Becomes (vm.mapped f mode) vm')
    (held : h.sharing.shareStates j = some state) (active : state.transaction = some t)
    (apart : ∀ {addr}, state.fragments.Covers addr → ¬f.Covers addr) : Tracked h' state :=
  (tracks held active).keep caller changed becomes fun _ covers => Vm.mapped_of_not_covers (apart covers)

/-- Steps that change no transaction, and only pages of none. -/
theorem Hyp.Tracks.steps (becomes : vm.Becomes (vm.mapped f mode) vm')
    (idle : ∀ addr, f.Covers addr → h.lending.Idle addr)
    (steps : SlotSteps scope h.sharing.shareStates h'.sharing.shareStates) : h'.Tracks := by
  intro j state t held active
  have before := (held ▸ steps j : SlotStep scope j _ (some state)).kept_of_complete
    (ShareState.complete_of_active active)
  exact tracks.keep caller changed becomes before active (not_covers_of_idle before active idle)

/-- A step about one transaction. -/
theorem Hyp.Tracks.update {slot : Option ShareState} (becomes : vm.Becomes (vm.mapped f mode) vm')
    (apart : ∀ {j state t}, j ≠ i → h.sharing.shareStates j = some state → state.transaction = some t →
      ∀ {addr}, state.fragments.Covers addr → ¬f.Covers addr)
    (stored : h'.sharing.shareStates = update h.sharing.shareStates i slot)
    (new : ∀ {state t}, slot = some state → state.transaction = some t → Tracked h' state) : h'.Tracks := by
  intro j state t held active
  rw [stored] at held
  by_cases same : j = i
  · subst same
    rw [update_self] at held
    exact new held active
  · rw [update_of_ne same] at held
    exact tracks.keep caller changed becomes held active (apart same held active)

end Frame

/-- Nobody else's transaction has pages that the caller may send. -/
theorem idle_of_sendable {receivers : List MemoryAccess} (caller : h.vms vm.id = some vm)
    (inv : Inv h.lending) (sendable : Sendable vm f receivers mode) (uniform : Uniform vm f)
    (addr : Nat) (covers : f.Covers addr) : h.lending.Idle addr :=
  ((inv.pages addr).idle_of_exclusive inv.transactions (access_of_sendable caller sendable uniform covers)).1

/-- Pages that were mapped for a receiver are normal memory. -/
theorem retrieved_normal {permissions : Permissions} {origMode : Mode} (func : ShareFunc)
    (converted : ffaMemoryPermissionsToMode permissions origMode = .ok mode) :
    m.attrsToMode vm.stage (vm.mappedAttrs
      (vm.mapMode (mode ||| (MapFunc.retrieve func).state))) &&& mmModeD = 0 := by
  -- Apart from the rights, the mode only has the ownership state.
  have stateOnly {bits : Mode} (user : (mmModeUser ||| mmModeNg) &&& bits = 0)
      (rights : (mmModeR ||| mmModeW ||| mmModeX) &&& bits = 0) :
      vm.mapMode (mode ||| (MapFunc.retrieve func).state) &&& bits =
        (MapFunc.retrieve func).state &&& bits := by
    rw [mapMode_and vm _ user, BitVec.and_or_distrib_right, ffaMemoryPermissionsToMode_and converted rights]
    exact BitVec.zero_or
  refine attrsToMode_mappedAttrs_device m vm.stage ?_ ?_ ?_
  · rw [Mode.IsUnmapped, stateOnly rfl rfl]
    cases func <;> decide
  · rw [stateOnly rfl rfl]
    cases func <;> decide
  · rw [stateOnly rfl rfl]
    cases func <;> decide

/-- Every fair call keeps track of the outstanding transactions. -/
theorem tracks_effect {ret : FfaValue} {sharing : ShareStates} (caller : h.vms vm.id = some vm)
    (changed : h.Changed vm vm' h') (tracks : h.Tracks) (inv : Inv h.lending)
    (fair : Fair h vm scope)
    (storable : ∀ {i func region}, scope.stores i func region → Storable m 1 i func region)
    (valid : ValidStates m 1 h.sharing.shareStates) (becomes : vm.Becomes view vm')
    (after : h'.sharing.shareStates = sharing)
    (effect : Effect scope vm h.sharing.shareStates ret view sharing) : h'.Tracks := by
  -- The sender of a region that the caller receives keeps it.
  have senderKeeps {i : Fin maxMemShares} {state : ShareState} (held : h.sharing.shareStates i = some state)
      (receiver : (state.memoryRegion.receivers 0).receiver = vm.id) (tracked : Tracked h state) :=
    tracked.sender_of_same fun found => changed.sameRegion caller becomes found fun sends =>
      absurd (receiver.trans sends.symm)
      ((valid i state held).storable.notSender 0 (valid i state held).storable.receivers)
  cases effect with
  | idle plain steps =>
    intro j state t held active
    have before := (held ▸ after ▸ steps j : SlotStep scope j _ (some state)).kept_of_complete
      (ShareState.complete_of_active active)
    exact (tracks before active).keep caller changed becomes fun _ _ => rfl
  | sendRolledBack failed sends sendable steps =>
    exact tracks.steps caller changed becomes
      (idle_of_sendable caller inv sendable (fair.uniform sends)) (after ▸ steps)
  | @sent i state mode success step unsent owner here sends sendable range =>
    refine tracks.update caller changed becomes (fun _ held active =>
      not_covers_of_idle held active (idle_of_sendable caller inv sendable (fair.uniform sends))) after ?_
    rintro _ t ⟨⟩ -
    refine ⟨(constituentsGetMode_iff.mp sendable.found).2.1, ⟨vm', owner ▸ changed.caller, ?_⟩,
      fun retrieved => ?_⟩
    · have region := RegionAttrs.mapped becomes (constituentsGetMode_within sendable.found)
      simp only [Vm.mappedAttrs, Vm.mapMode, Vm.stage, becomes.el0Partition_eq]
      exact region
    · exact absurd (congrFun ((step.valid storable (valid i)).unsent unsent) 0) retrieved
  | teeSent success sends sendable steps =>
    exact tracks.steps caller changed becomes
      (idle_of_sendable caller inv sendable (fair.uniform sends)) (after ▸ steps)
  | @retrieved i state request permissions mode unmapped success asked lookup held requested granted
      converted found isUnmapped =>
    obtain ⟨complete, isReceiver, unretrieved⟩ := retrieveValidateRequest_ok requested
    obtain ⟨bound, receiver⟩ := ffaMemoryRegionGetReceiver_found isReceiver
    have first : ffaMemoryRegionGetReceiver state.memoryRegion vm.id = 0 := by
      have := (valid i state held).storable.limited
      omega
    rw [first] at unretrieved receiver after
    have active := ShareState.transaction_of_unretrieved complete unretrieved
    have tracked := tracks held active
    refine tracks.update caller changed becomes (not_covers_of_other inv held active)
      after fun {after t} retrieved _ => ?_
    rw [ShareState.retrieve] at retrieved
    split at retrieved <;> cases retrieved
    have sender := senderKeeps held receiver tracked
    refine ⟨tracked.counted, sender, fun _ =>
      ⟨vm', _, receiver ▸ changed.caller, .mapped becomes (constituentsGetMode_within found), ?_⟩⟩
    rw [becomes.stage_eq]
    exact retrieved_normal _ converted
  | @continued i state success held requested =>
    obtain ⟨-, complete, begun, -⟩ := retrieveContinueValidate_ok requested
    intro j after_ t heldAfter active
    rw [after] at heldAfter
    by_cases same : j = i
    · subst same
      rw [update_self] at heldAfter
      have retrieved := ShareState.transaction_retrieve complete
        (Nat.succ_ne_zero (state.retrievedFragmentCount 0))
      rw [heldAfter, Option.bind_some, active,
        ← ShareState.transaction_of_retrieved complete begun] at retrieved
      have tracked := (tracks held retrieved.symm).keep caller changed becomes fun _ _ => rfl
      rw [ShareState.retrieve] at heldAfter
      split at heldAfter <;> cases heldAfter
      exact ⟨tracked.counted, tracked.sender, fun _ => tracked.receiver begun⟩
    · rw [update_of_ne same] at heldAfter
      exact (tracks heldAfter active).keep caller changed becomes fun _ _ => rfl
  | @relinquished i state clear mode success held requested found borrowed =>
    obtain ⟨-, receiver, -⟩ := relinquishValidate_ok requested
    have active := (lending_slots_of_held held).symm.trans
      (slots_of_relinquish held (valid i state held) requested)
    have tracked := tracks held active
    refine tracks.update caller changed becomes (not_covers_of_other inv held active) after ?_
    rintro _ t ⟨⟩ -
    have sender := senderKeeps held receiver tracked
    refine ⟨tracked.counted, sender, fun retrieved => ?_⟩
    exact absurd (show update state.retrievedFragmentCount 0 0 0 = 0 by simp) retrieved
  | @relinquishRolledBack i state clear mode failed held requested found borrowed =>
    obtain ⟨-, receiver, -⟩ := relinquishValidate_ok requested
    have valid := valid i state held
    have active := (lending_slots_of_held held).symm.trans (slots_of_relinquish held valid requested)
    have tracked := tracks held active
    have stored : h'.sharing.shareStates = update h.sharing.shareStates i (some state) := by
      rw [after, ← held, update_eq_self]
    refine tracks.update caller changed becomes (not_covers_of_other inv held active) stored ?_
    rintro _ t ⟨⟩ -
    refine ⟨tracked.counted, senderKeeps held receiver tracked, fun retrieved =>
      ⟨vm', _, receiver ▸ changed.caller, .mapped becomes (constituentsGetMode_within found), ?_⟩⟩
    -- The mode that was read is that of normal memory, which mapping keeps.
    obtain ⟨vm₀, attrs, found₀, region, normal⟩ := tracked.receiver retrieved
    rw [receiver] at found₀
    cases found₀.symm.trans caller
    rw [region.getMode valid.fragments tracked.counted] at found
    cases found
    rw [becomes.stage_eq]
    refine attrsToMode_mappedAttrs_device m vm.stage ?_ ?_ ?_
    · rw [Mode.IsUnmapped, mapMode_and vm _ rfl]
      exact not_isUnmapped_of_borrowed borrowed
    · rw [mapMode_and vm _ rfl]
      exact normal
    · rw [mapMode_and vm _ rfl]
      exact attrsToMode_untagged m vm.stage attrs
  | @reclaimed i state mode success held requested found away =>
    obtain ⟨-, complete, unretrieved⟩ := reclaimValidate_ok requested
    exact tracks.update caller changed becomes
      (not_covers_of_other inv held (ShareState.transaction_of_unretrieved complete unretrieved))
        after (by simp)
  | teeReclaimed success returns found away =>
    have steps : SlotSteps scope h.sharing.shareStates h'.sharing.shareStates :=
      after ▸ SlotSteps.refl scope _
    exact tracks.steps caller changed becomes (fun addr covers => (fair.returned returns addr covers).1) steps

end Steps

/-! ## Runs -/

theorem Hyp.Quiet.tracks (quiet : h.Quiet h') (tracks : h.Tracks) : h'.Tracks := by
  intro i state t held active
  rw [quiet.shareStates] at held
  exact (tracks held active).of_same fun {id v} found =>
    (found ▸ quiet.vms id : SameAddresses (some v) (h'.vms id)).sameRegion state.fragments

theorem Hyp.Sound.tracks_step (sound : h.Sound) (tracks : h.Tracks)
    (step : Hyp.Step FairCall h h') : h'.Tracks := by
  cases step with
  | call caller world fair ran =>
    obtain ⟨vm', changed, view, becomes, effect⟩ := apiMemCall_effect sound.wellFormed caller ran
    exact tracks_effect caller changed tracks sound.inv fair fair.storable sound.valid becomes rfl effect
  | quiet quiet => exact quiet.tracks tracks

end Hafnium.Api
