import Hafnium.Api.MemEffect
import Hafnium.Ffa.Atomicity

/-! # Ownership of memory

The partitions and the completely sent share states form a state of the lending protocol, and
memory calls are steps of it as long as every region that is sent has one mode: the mode query
overwrites the mode of the first fragment's constituents instead of comparing it, so that a sender
can pass off pages which are not its own.
-/

namespace Hafnium.Api

open Mm Ffa Lending Function

variable {m : MmConfig}

/-- What a partition has of an address. -/
def vmAccess (vm : Vm m) (addr : Nat) : Access :=
  if addr < vm.spaceEnd then access (vm.modeAt addr) else .nothing

def Hyp.access (h : Hyp m) (id : VmId) (addr : Nat) : Access :=
  (h.vms id).elim .nothing fun vm => vmAccess vm addr

/-- The transaction in a slot. -/
def slotTransaction (slot : Option ShareState) : Option (Transaction VmId Nat) :=
  slot.bind ShareState.transaction

/-- The partitions and the outstanding transactions. -/
def Hyp.lending (h : Hyp m) : Lending.State VmId Nat (Fin maxMemShares) where
  access := h.access
  slots := slotTransaction ∘ h.sharing.shareStates

/-! ## Access after a change -/

variable {h h' : Hyp m} {vm : Vm m} {view : Nat → PteBits} {f : Fragments} {mode mode' : Mode}
  {id : VmId} {addr : Nat} {first second : Vm smallConfig} {attrs : PteBits}

section Access

variable {vm' : Vm m}

theorem vmAccess_of_becomes (becomes : vm.Becomes view vm') (addr : Nat) :
    vmAccess vm' addr =
      if addr < vm.spaceEnd then Ffa.access (m.attrsToMode vm.stage (view addr)) else .nothing := by
  rw [vmAccess, becomes.spaceEnd_eq]
  split
  · next inside => rw [Vm.modeAt, becomes.stage_eq, becomes.attrsAt_eq inside]
  · rfl

theorem SameAddresses.access {before after : Option (Vm m)} (same : SameAddresses before after) (addr : Nat) :
    after.elim Access.nothing (fun vm => vmAccess vm addr) = before.elim .nothing fun vm =>
      vmAccess vm addr := by
  cases same with
  | none => rfl
  | some becomes => exact vmAccess_of_becomes becomes addr

theorem Hyp.access_of_some (found : h.vms vm.id = some vm) (addr : Nat) :
    h.access vm.id addr = vmAccess vm addr := by
  rw [Hyp.access, found]
  rfl

theorem Hyp.Changed.access_others (changed : h.Changed vm vm' h') (other : id ≠ vm.id) (addr : Nat) :
    h'.access id addr = h.access id addr := (changed.others id other).access addr

/-- The caller's access to an address. -/
theorem Hyp.Changed.access_caller (changed : h.Changed vm vm' h') (becomes : vm.Becomes view vm')
    (addr : Nat) :
    h'.access vm.id addr =
      if addr < vm.spaceEnd then Ffa.access (m.attrsToMode vm.stage (view addr)) else .nothing := by
  rw [Hyp.access, changed.caller]
  exact vmAccess_of_becomes becomes addr

theorem Hyp.Changed.access_same (caller : h.vms vm.id = some vm) (changed : h.Changed vm vm' h')
    (becomes : vm.Becomes vm.attrsAt vm') : h'.access = h.access := by
  funext id addr
  by_cases isCaller : id = vm.id
  · rw [isCaller, changed.access_caller becomes, Hyp.access_of_some caller]
    rfl
  · exact changed.access_others isCaller addr

/-- A region that got a new mode. -/
theorem Hyp.Changed.assigned (caller : h.vms vm.id = some vm) (changed : h.Changed vm vm' h')
    (found : constituentsGetMode vm f = .ok mode') (becomes : vm.Becomes (vm.mapped f mode) vm') :
    Assigned vm.id { addr | f.Covers addr } (Ffa.access mode) h.access h'.access := by
  refine ⟨fun addr covers => ?_, fun id addr outside => ?_⟩
  · rw [changed.access_caller becomes, if_pos (constituentsGetMode_covers_lt found covers),
      Vm.mapped_of_covers covers, Vm.mappedAttrs, access_mappedAttrs, access_mapMode]
  · by_cases isCaller : id = vm.id
    · subst isCaller
      rw [changed.access_caller becomes, Vm.mapped_of_not_covers fun covers => outside ⟨rfl, covers⟩,
        Hyp.access_of_some caller]
      rfl
    · exact changed.access_others isCaller addr

end Access

/-! ## Calls are steps of the lending protocol -/

section Steps

variable {vm' : Vm m} {scope : Scope} {states states' : ShareStates} {ret : FfaValue}
  {receivers : List MemoryAccess} {slot : Option ShareState}

theorem slotTransaction_step {i : Fin maxMemShares} {slot' : Option ShareState}
    (step : SlotStep scope i slot slot') : slotTransaction slot' = slotTransaction slot := by
  cases step with
  | kept => rfl
  | opened stored count unsent unretrieved => exact ShareState.transaction_of_unsent unsent
  | @extended state page fragment length added room unsent =>
    have after : (state.addFragment page fragment length).transaction = none :=
      ShareState.transaction_of_unsent unsent
    exact after.trans (ShareState.transaction_of_unsent unsent).symm
  | dropped unsent => exact (ShareState.transaction_of_unsent unsent).symm

theorem slotTransaction_steps (steps : SlotSteps scope states states') :
    slotTransaction ∘ states' = slotTransaction ∘ states := funext fun i => slotTransaction_step (steps i)

/-- A condition on calls under which ownership is safe: one receiver, regions of one mode, and the
TEE gives back nothing that another partition or transaction has. -/
structure Fair (h : Hyp m) (vm : Vm m) (scope : Scope) : Prop where
  single : ∀ {i func region}, scope.stores i func region → region.receiverCount = 1
  uniform : ∀ {f}, scope.sends f → Uniform vm f
  returned : ∀ {f}, scope.returns f → ∀ addr, f.Covers addr →
    h.lending.Idle addr ∧ ∀ id ≠ vm.id, h.access id addr = .nothing

/-- A stuttering step, or a step of the protocol. -/
def Moves (h h' : Hyp m) : Prop := h'.lending = h.lending ∨ Lending.Step h.lending h'.lending

theorem Moves.stutter (access : h'.access = h.access)
    (slots : slotTransaction ∘ h'.sharing.shareStates = slotTransaction ∘ h.sharing.shareStates) :
    Moves h h' := by
  refine .inl ?_
  rw [Hyp.lending, Hyp.lending, access, slots]

/-- Writing a slot. -/
theorem lending_slots_update {i : Fin maxMemShares} {transaction : Option (Transaction VmId Nat)}
    (stored : h'.sharing.shareStates = update h.sharing.shareStates i slot)
    (written : slotTransaction slot = transaction) :
    h'.lending.slots = update h.lending.slots i transaction := by
  rw [← written]
  simp only [Hyp.lending, stored]
  exact comp_update ..

/-- What the caller has of a region that has one mode. -/
theorem access_of_uniform (caller : h.vms vm.id = some vm) (uniform : Uniform vm f)
    (found : constituentsGetMode vm f = .ok mode) (covers : f.Covers addr) :
    h.access vm.id addr = Ffa.access mode := by
  rw [Hyp.access_of_some caller, vmAccess, if_pos (constituentsGetMode_covers_lt found covers),
    uniform mode found addr covers]

/-- The sender owns what it sends. -/
theorem access_of_sendable (caller : h.vms vm.id = some vm)
    (sendable : Sendable vm f receivers mode) (uniform : Uniform vm f) (covers : f.Covers addr) :
    h.access vm.id addr = .exclusive := by
  rw [access_of_uniform caller uniform sendable.found covers, access_of_exclusive sendable.exclusive]

section Slot

variable {i : Fin maxMemShares} {state : ShareState} (held : h.sharing.shareStates i = some state)
include held

/-- The transaction of a slot that is in use. -/
theorem lending_slots_of_held : h.lending.slots i = state.transaction := by
  simp only [Hyp.lending, comp_apply, held]
  rfl

/-- The transaction that a relinquish request is about. -/
theorem slots_of_relinquish {limit : Nat} {clear : Bool} (valid : state.Valid m limit i)
    (requested : relinquishValidate state vm.id clear = .ok ()) :
    h.lending.slots i = some (state.deal true) := by
  obtain ⟨complete, -, finished⟩ := relinquishValidate_ok requested
  have retrieved : state.retrievedFragmentCount 0 ≠ 0 := by
    have := valid.fragments
    omega
  rw [lending_slots_of_held held, ShareState.transaction_of_retrieved complete retrieved, if_neg]
  intro give
  have := valid.given complete (ShareFunc.kind_eq_give.mp give)
  omega

end Slot

/-- The effect of a fair call is a step of the lending protocol, or none. -/
theorem Effect.moves {sharing : ShareStates} (caller : h.vms vm.id = some vm)
    (changed : h.Changed vm vm' h') (fair : Fair h vm scope)
    (storable : ∀ {i func region}, scope.stores i func region → Storable m 1 i func region)
    (inv : Inv h.lending) (valid : ValidStates m 1 h.sharing.shareStates)
    (becomes : vm.Becomes view vm') (after : h'.sharing.shareStates = sharing)
    (effect : Effect scope vm h.sharing.shareStates ret view sharing) : Moves h h' := by
  cases effect with
  | idle plain steps =>
    exact .stutter (changed.access_same caller becomes) (slotTransaction_steps (after ▸ steps))
  | sendRolledBack failed sends sendable steps =>
    refine .stutter ((changed.assigned caller sendable.found becomes).same fun addr covers => ?_)
      (slotTransaction_steps (after ▸ steps))
    exact access_of_uniform caller (fair.uniform sends) sendable.found covers
  | @sent i state mode success step unsent owner here sends sendable range =>
    have valid := step.valid storable (valid i)
    have assigned := changed.assigned caller sendable.found becomes
    have owned (addr : Nat) (covers : state.fragments.Covers addr) :=
      access_of_sendable caller sendable (fair.uniform sends) covers
    rw [← owner] at assigned owned
    rw [access_sentMode] at assigned
    have free : slotTransaction (h.sharing.shareStates i) = none :=
      (slotTransaction_step step).symm.trans (ShareState.transaction_of_unsent unsent)
    have opened : slotTransaction (some (state.complete mode)) = some (state.deal false) :=
      ShareState.transaction_of_unretrieved rfl (congrFun (valid.unsent unsent) 0)
    exact .inr (.send (t := state.deal false)
      free rfl (valid.storable.notSender 0 valid.storable.receivers) owned assigned
      (lending_slots_update after opened))
  | teeSent success sends sendable steps =>
    have assigned := changed.assigned caller sendable.found becomes
    rw [access_sentMode] at assigned
    exact .inr (.sendOut (fun addr covers => access_of_sendable caller sendable (fair.uniform sends)
      covers) assigned (slotTransaction_steps (after ▸ steps)))
  | @retrieved i state request permissions mode unmapped success asked lookup held requested granted
      converted found isUnmapped =>
    -- The caller is the only receiver.
    obtain ⟨complete, isReceiver, unretrieved⟩ := retrieveValidateRequest_ok requested
    obtain ⟨bound, receiver⟩ := ffaMemoryRegionGetReceiver_found isReceiver
    have first : ffaMemoryRegionGetReceiver state.memoryRegion vm.id = 0 := by
      have := (valid i state held).storable.limited
      omega
    rw [first] at unretrieved receiver after
    have assigned := changed.assigned caller found becomes
    rw [access_retrievedMode (ffaMemoryPermissionsToMode_and converted rfl), ← receiver] at assigned
    have slot := (lending_slots_of_held held).trans
      (ShareState.transaction_of_unretrieved complete unretrieved)
    exact .inr (.take slot rfl assigned
      (lending_slots_update after (ShareState.transaction_retrieve complete Nat.one_ne_zero)))
  | @continued i state success held requested =>
    -- Fetching further fragments of the description is no step.
    obtain ⟨-, complete, begun, -⟩ := retrieveContinueValidate_ok requested
    have same : slotTransaction (state.retrieve 0 (state.retrievedFragmentCount 0 + 1)) =
        h.lending.slots i := by
      rw [lending_slots_of_held held, ShareState.transaction_of_retrieved complete begun]
      exact ShareState.transaction_retrieve complete (Nat.succ_ne_zero _)
    exact .stutter (changed.access_same caller becomes)
      ((lending_slots_update after same).trans (update_eq_self ..))
  | @relinquished i state clear mode success held requested found borrowed =>
    obtain ⟨complete, receiver, -⟩ := relinquishValidate_ok requested
    have assigned := changed.assigned caller found becomes
    rw [access_relinquishedMode, ← receiver] at assigned
    have back : slotTransaction (some state.relinquish) = some (state.deal false) :=
      ShareState.transaction_of_unretrieved complete
        (show update state.retrievedFragmentCount 0 0 0 = 0 by simp)
    exact .inr (.giveBack (slots_of_relinquish held (valid i state held) requested)
      rfl assigned (lending_slots_update after back))
  | @relinquishRolledBack i state clear mode failed held requested found =>
    -- The receiver has all of the region in the same way, so writing back the mode of one page is no step.
    have slot := slots_of_relinquish held (valid i state held) requested
    have receiver := (relinquishValidate_ok requested).2.1
    have borrowed (addr : Nat) (covers : state.fragments.Covers addr) :
        h.access vm.id addr = state.shareFunc.kind.got :=
      (((inv.pages addr).expects slot covers).2 vm.id).2.1 receiver.symm
    have mode_access : Ffa.access mode = state.shareFunc.kind.got := by
      obtain ⟨addr, covers, rfl⟩ := constituentsGetMode_covers found
      rw [← borrowed addr covers, Hyp.access_of_some caller, vmAccess,
        if_pos (constituentsGetMode_covers_lt found covers)]
    refine .stutter ((changed.assigned caller found becomes).same fun addr covers => ?_) (congrArg _ after)
    rw [borrowed addr covers, mode_access]
  | @reclaimed i state mode success held requested found away =>
    obtain ⟨owner, complete, unretrieved⟩ := reclaimValidate_ok requested
    have assigned := changed.assigned caller found becomes
    rw [access_of_exclusive ((valid i state held).exclusive complete), owner] at assigned
    have slot := (lending_slots_of_held held).trans
      (ShareState.transaction_of_unretrieved complete unretrieved)
    exact .inr (.recover slot rfl assigned (lending_slots_update after rfl))
  | teeReclaimed success returns found away =>
    have free := fair.returned returns
    have assigned := changed.assigned caller found becomes
    exact .inr (.comeBack (fun addr covers => (free addr covers).1)
      (fun addr covers => (free addr covers).2) assigned (congrArg (slotTransaction ∘ ·) after))

end Steps

/-! ## Runs -/

/-- What holds in every state of a run of fair calls. -/
structure Hyp.Sound (h : Hyp m) : Prop where
  wellFormed : h.WellFormed
  valid : ValidStates m 1 h.sharing.shareStates
  inv : Inv h.lending

/-- Nothing that matters for the lending protocol. -/
theorem Hyp.Quiet.lending_eq (quiet : h.Quiet h') : h'.lending = h.lending := by
  have access : h'.access = h.access := funext fun id => funext fun addr => (quiet.vms id).access addr
  rw [Hyp.lending, Hyp.lending, access, quiet.shareStates]

/-- A fair call of a partition. -/
def FairCall (h : Hyp m) (vm : Vm m) (env : CallEnv) (call : MemCall) : Prop :=
  Fair h vm (call.scope h vm env)

theorem FairCall.storable {env : CallEnv} {call : MemCall} (fair : FairCall h vm env call)
    {i : Fin maxMemShares} {func : ShareFunc} {region : MemoryRegion}
    (stored : (call.scope h vm env).stores i func region) : Storable m 1 i func region :=
  { MemCall.scope_storable stored with limited := by rw [fair.single stored]; decide }

/-- Every step keeps the partitions in the lending protocol. -/
theorem Hyp.Sound.step (sound : h.Sound) (step : Hyp.Step FairCall h h') : h'.Sound := by
  refine ⟨step.wellFormed sound.wellFormed, step.valid sound.wellFormed FairCall.storable sound.valid, ?_⟩
  cases step with
  | call caller world fair ran =>
    obtain ⟨vm', changed, view, becomes, effect⟩ := apiMemCall_effect sound.wellFormed caller ran
    rcases Effect.moves caller changed fair fair.storable sound.inv sound.valid becomes rfl
        effect with same | step
    · rw [same]
      exact sound.inv
    · exact sound.inv.step step
  | quiet quiet =>
    rw [quiet.lending_eq]
    exact sound.inv

theorem Hyp.Sound.run (sound : h.Sound) (run : Relation.ReflTransGen (Hyp.Step FairCall) h h') :
    h'.Sound := by
  induction run with
  | refl => exact sound
  | tail _ step ih => exact ih.step step

/-! ## Ownership -/

/-- Every page is owned and exclusively mapped by at most one partition, and absent from all others. -/
def Hyp.Exclusive (h : Hyp m) : Prop :=
  ∀ {id vm addr}, h.vms id = some vm → addr < vm.spaceEnd → vm.attrsAt addr = 0 ∨
    (vm.modeAt addr &&& stateMask = 0 ∧
      ∀ {other vm'}, other ≠ id → h.vms other = some vm' → addr < vm'.spaceEnd → vm'.attrsAt addr = 0)

/-- No page has two owners, and a page that is valid, owned and exclusive in one partition is not
valid in any other. -/
structure Hyp.Owned (h : Hyp m) : Prop where
  unique : ∀ {id id' vm vm' addr}, h.vms id = some vm → h.vms id' = some vm' →
    addr < vm.spaceEnd → addr < vm'.spaceEnd →
    vm.modeAt addr &&& mmModeUnowned = 0 → vm'.modeAt addr &&& mmModeUnowned = 0 → id = id'
  alone : ∀ {id id' vm vm' addr}, h.vms id = some vm → h.vms id' = some vm' →
    addr < vm.spaceEnd → addr < vm'.spaceEnd →
    vm.modeAt addr &&& stateMask = 0 → id' ≠ id → vm'.modeAt addr &&& mmModeInvalid ≠ 0

theorem Hyp.access_eq (found : h.vms id = some vm) (inside : addr < vm.spaceEnd) :
    h.access id addr = Ffa.access (vm.modeAt addr) := by
  rw [Hyp.access, found]
  exact if_pos inside

/-- An absent page gives nothing. -/
theorem Hyp.access_absent
    (absent : ∀ {vm}, h.vms id = some vm → addr < vm.spaceEnd → vm.attrsAt addr = 0) :
    h.access id addr = .nothing := by
  rw [Hyp.access]
  cases found : h.vms id with
  | none => rfl
  | some vm =>
    change vmAccess vm addr = .nothing
    rw [vmAccess]
    split
    · next inside =>
      rw [Vm.modeAt, absent found inside]
      exact access_of_isUnmapped (attrsToMode_absent m vm.stage)
    · rfl

/-- The start of a run: no transaction is in progress. -/
theorem Hyp.Exclusive.sound (exclusive : h.Exclusive) (wf : h.WellFormed)
    (fresh : ∀ i, h.sharing.shareStates i = none) : h.Sound := by
  have free (i : Fin maxMemShares) : h.lending.slots i = none := by
    simp only [Hyp.lending, comp_apply, fresh]
    rfl
  refine ⟨wf, fun i state held => ?_, fun {i t} held => ?_, fun addr => .idle (fun i t held => ?_)
    fun id => ?_⟩
  · cases held.symm.trans (fresh i)
  · cases held.symm.trans (free i)
  · cases held.symm.trans (free i)
  · by_cases absent : ∀ {vm}, h.vms id = some vm → addr < vm.spaceEnd → vm.attrsAt addr = 0
    · exact .inl (Hyp.access_absent absent)
    · push Not at absent
      obtain ⟨vm, found, inside, present⟩ := absent
      obtain ⟨owned, others⟩ := (exclusive found inside).resolve_left present
      refine .inr ⟨?_, fun other different => Hyp.access_absent fun found' inside' =>
        others different found' inside'⟩
      change (h.access id addr).Owns
      rw [Hyp.access_eq found inside, access_of_exclusive owned]
      trivial

theorem Hyp.Sound.owned (sound : h.Sound) : h.Owned where
  unique := by
    intro id id' vm vm' addr found found' inside inside' owned owned'
    refine sound.inv.owner_unique (p := addr) ?_ ?_
    · change (h.access id addr).Owns
      rw [Hyp.access_eq found inside]
      exact access_owns owned
    · change (h.access id' addr).Owns
      rw [Hyp.access_eq found' inside']
      exact access_owns owned'
  alone := by
    intro id id' vm vm' addr found found' inside inside' exclusive different
    have mine : h.lending.access id addr = .exclusive :=
      (Hyp.access_eq found inside).trans (access_of_exclusive exclusive)
    exact invalid_of_access ((Hyp.access_eq found' inside').symm.trans (sound.inv.alone mine different))

/-- Ownership is safe in every run of fair calls, whatever else the partitions do: from a state
where every page has at most one owner, which has it to itself, no run leads to a page with two
owners or to one that is exclusive here and valid there. -/
theorem memory_ownership {h h' : Hyp m} (wf : h.WellFormed) (exclusive : h.Exclusive)
    (fresh : ∀ i, h.sharing.shareStates i = none)
    (run : Relation.ReflTransGen (Hyp.Step FairCall) h h') : h'.Owned :=
  ((exclusive.sound wf fresh).run run).owned

/-! ## Two partitions -/

/-- Two partitions, some free pages and no share states. -/
def partitions (first second : Vm smallConfig) : Hyp smallConfig where
  vms := fun id => if id = first.id then some first else if id = second.id then some second else none
  vmIds := by
    intro id vm found
    split at found
    · next isFirst =>
      cases found
      exact isFirst.symm
    · split at found
      · next isSecond =>
        cases found
        exact isSecond.symm
      · cases found
  sharing := ⟨fun _ => none, ⟨⟨0, fun _ _ => .leaf archMmAbsentPte⟩, fun _ => 0⟩,
    [⟨[10, 11, 12, 13, 14, 15], []⟩]⟩

theorem partitions_cases {vm : Vm smallConfig}
    (found : (partitions first second).vms id = some vm) : (id = first.id ∧ vm = first) ∨
      (id = second.id ∧ vm = second) := by
  simp only [partitions] at found
  split at found
  · next isFirst =>
    cases found
    exact .inl ⟨isFirst, rfl⟩
  · split at found
    · next isSecond =>
      cases found
      exact .inr ⟨isSecond, rfl⟩
    · cases found

theorem partitions_wellFormed (one : first.WellFormed) (two : second.WellFormed) :
    (partitions first second).WellFormed := by
  intro id vm found
  rcases partitions_cases found with ⟨-, rfl⟩ | ⟨-, rfl⟩
  · exact one
  · exact two

/-- Partition 1 with the first block and partition 2 with the second. -/
def blockPartitions (attrs : PteBits) (send send' : Option Bytes) : Hyp smallConfig :=
  partitions (attrsVm 1 0 attrs send) (attrsVm 2 1 ordinaryAttrs send')

theorem blockPartitions_wellFormed (isBlock : BlockAttrs attrs) (send send' : Option Bytes) :
    (blockPartitions attrs send send').WellFormed :=
  partitions_wellFormed (attrsVm_wellFormed 1 0 isBlock send)
    (attrsVm_wellFormed 2 1 ordinaryAttrs_block send')

theorem blockPartitions_exclusive (isBlock : BlockAttrs attrs)
    (owned : archMmStage2AttrsToMode attrs &&& stateMask = 0) (send send' : Option Bytes) :
    (blockPartitions attrs send send').Exclusive := by
  intro id vm addr found inside
  rcases partitions_cases found with ⟨rfl, rfl⟩ | ⟨rfl, rfl⟩
  · by_cases mine : mmIndex addr 2 = 0 ∧ mmIndex addr 1 = 0
    · refine .inr ⟨?_, fun {other vm'} different found' inside' => ?_⟩
      · rw [Vm.modeAt, attrsVm_attrsAt _ isBlock _ (by decide), if_pos mine]
        exact owned
      · rcases partitions_cases found' with ⟨rfl, rfl⟩ | ⟨rfl, rfl⟩
        · exact absurd rfl different
        · rw [attrsVm_attrsAt _ ordinaryAttrs_block _ (by decide), if_neg (by omega)]
    · exact .inl (by rw [attrsVm_attrsAt _ isBlock _ (by decide), if_neg mine])
  · by_cases mine : mmIndex addr 2 = 0 ∧ mmIndex addr 1 = 1
    · refine .inr ⟨?_, fun {other vm'} different found' inside' => ?_⟩
      · rw [Vm.modeAt, attrsVm_attrsAt _ ordinaryAttrs_block _ (by decide), if_pos mine]
        exact show archMmStage2AttrsToMode ordinaryAttrs &&& stateMask = 0 by decide
      · rcases partitions_cases found' with ⟨rfl, rfl⟩ | ⟨rfl, rfl⟩
        · rw [attrsVm_attrsAt _ isBlock _ (by decide), if_neg (by omega)]
        · exact absurd rfl different
    · exact .inl (by rw [attrsVm_attrsAt _ ordinaryAttrs_block _ (by decide), if_neg mine])

/-- Partition 1 with the first block and a message in its send buffer, and partition 2 with the
second block. -/
def twoPartitions (message : Bytes) : Hyp smallConfig := blockPartitions ordinaryAttrs (some message) none

theorem twoPartitions_wellFormed (message : Bytes) : (twoPartitions message).WellFormed :=
  blockPartitions_wellFormed ordinaryAttrs_block (some message) none

theorem twoPartitions_exclusive (message : Bytes) : (twoPartitions message).Exclusive :=
  blockPartitions_exclusive ordinaryAttrs_block (by decide) (some message) none

/-- What a call reads besides the state when there is nothing to read. -/
def quietEnv : CallEnv := ⟨fun _ => 0, [], fun _ => 0⟩

/-- Partition 1 asks to share the first page of partition 2's block and a page of its own with
partition 2, for reading and writing. -/
def shareForeignPage : Bytes :=
  messageOf [(0, 1), (2, 0x2f), (28, 1), (32, 2), (34, 2), (36, 48), (52, 2), (66, 0x20), (72, 1),
    (81, 0x10), (88, 1)]

/-- The same with a page of its own only. -/
def shareOwnPage : Bytes :=
  messageOf [(0, 1), (2, 0x2f), (28, 1), (32, 2), (34, 2), (36, 48), (52, 1), (65, 0x10), (72, 1)]

/-- The call returns a value of this function and a state that passes a check. -/
def returnsWith (func : BitVec 64) (r : Run (FfaValue × Hyp smallConfig))
    (check : Hyp smallConfig → Bool) : Bool :=
  match r with
  | .ok (ret, h) => decide (ret.func = func) && check h
  | .error _ => false

theorem returnsWith_iff {func : BitVec 64} {r : Run (FfaValue × Hyp smallConfig)}
    {check : Hyp smallConfig → Bool} :
    returnsWith func r check = true ↔ ∃ ret h, r = .ok (ret, h) ∧ ret.func = func ∧ check h = true := by
  cases r with
  | error e => simp [returnsWith]
  | ok result =>
    obtain ⟨ret, h⟩ := result
    simp [returnsWith]

/-- Partition 1 shares a page of its own with partition 2. -/
def shareOwn : Run (FfaValue × Hyp smallConfig) :=
  apiMemCall (twoPartitions shareOwnPage) (blockVm 1 0 (some shareOwnPage)) quietEnv (.send .share 80 80 0 0)

theorem shareOwn_fair :
    FairCall (twoPartitions shareOwnPage) (blockVm 1 0 (some shareOwnPage))
      quietEnv (.send .share 80 80 0 0) := by
  refine ⟨fun stored => ?_, fun sends => ?_, fun returns => returns.elim⟩
  · obtain ⟨-, -, validated, -⟩ := stored
    rw [validated.same.receiverCount]
    decide +kernel
  · obtain ⟨-, rfl⟩ := sends
    exact uniform_of_single (by decide +kernel) (by decide +kernel)

theorem shareOwn_returns : ∃ ret h', shareOwn = .ok (ret, h') ∧ ret.func = ffaSuccess32 := by
  have run : returnsWith ffaSuccess32 shareOwn (fun _ => true) = true := by
    decide +kernel
  obtain ⟨ret, h', returned, success, -⟩ := returnsWith_iff.mp run
  exact ⟨ret, h', returned, success⟩

/-- Ownership stays safe when partition 1 shares a page of its own. -/
theorem memory_ownership_own_page :
    let h := twoPartitions shareOwnPage
    ∃ ret h', apiMemCall h (blockVm 1 0 (some shareOwnPage)) quietEnv (.send .share 80 80 0 0) =
      .ok (ret, h') ∧ ret.func = ffaSuccess32 ∧ h'.Owned := by
  obtain ⟨ret, h', returned, success⟩ := shareOwn_returns
  have step : Hyp.Step FairCall (twoPartitions shareOwnPage) h' :=
    .call rfl (by decide) shareOwn_fair returned
  exact ⟨ret, h', returned, success, memory_ownership (twoPartitions_wellFormed _)
    (twoPartitions_exclusive _) (fun _ => rfl) (.single step)⟩

/-- The first page of partition 2. -/
def foreignPage : Nat := 0x200000

/-- Both partitions own the page. -/
def ownedByBoth (h : Hyp smallConfig) : Bool :=
  match h.vms 1, h.vms 2 with
  | some vm, some vm' => decide (foreignPage < vm.spaceEnd ∧ vm.modeAt foreignPage &&& mmModeUnowned = 0 ∧
      foreignPage < vm'.spaceEnd ∧ vm'.modeAt foreignPage &&& mmModeUnowned = 0)
  | _, _ => false

theorem not_owned_of_ownedByBoth {h : Hyp smallConfig} (both : ownedByBoth h = true) : ¬h.Owned := by
  intro owned
  rw [ownedByBoth] at both
  split at both
  · next vm vm' first second =>
    obtain ⟨inside, owns, inside', owns'⟩ := of_decide_eq_true both
    exact absurd (owned.unique first second inside inside' owns owns') (by decide)
  · cases both

/-- Sharing a page of partition 2 in front of a page of its own succeeds for partition 1 and
leaves the page with two owners. -/
theorem memory_ownership_foreign_page :
    let h := twoPartitions shareForeignPage
    h.WellFormed ∧ h.Exclusive ∧ (∀ i, h.sharing.shareStates i = none) ∧
      ∃ ret h', apiMemCall h (blockVm 1 0 (some shareForeignPage))
        quietEnv (.send .share 96 96 0 0) = .ok (ret, h') ∧ ret.func = ffaSuccess32 ∧ ¬h'.Owned := by
  refine ⟨twoPartitions_wellFormed _, twoPartitions_exclusive _, fun _ => rfl, ?_⟩
  have run : returnsWith ffaSuccess32 (apiMemCall (twoPartitions shareForeignPage)
      (blockVm 1 0 (some shareForeignPage)) quietEnv (.send .share 96 96 0 0)) ownedByBoth = true := by
    decide +kernel
  obtain ⟨ret, h', returned, success, owners⟩ := returnsWith_iff.mp run
  exact ⟨ret, h', returned, success, not_owned_of_ownedByBoth owners⟩

end Hafnium.Api
