import Hafnium.Ffa.Effect
import Hafnium.Mm.Modes

/-! # Failed memory calls

A memory-sharing function that returns an error has left every page table as it was, or has rolled
back: it has written the mode that was read from the region back to all of the region. It gets that far
if the memory cannot be cleared or the TEE refuses it, and then restores the pages that had this mode,
and only those.
-/

namespace Hafnium.Ffa

open Mm Partial

variable {m : MmConfig}

/-- The same modes and the same translation everywhere. -/
def SamePages (vm vm' : Vm m) : Prop :=
  ∀ addr < vm.spaceEnd, vm'.modeAt addr = vm.modeAt addr ∧
    (vm'.ptable.lookup addr).map Prod.fst = (vm.ptable.lookup addr).map Prod.fst

/-- Mapping a region in some mode gives its pages the mode and the translation that they have. -/
def Restores (vm : Vm m) (f : Fragments) (mode : Mode) : Prop :=
  ∀ addr, f.Covers addr → m.attrsToMode vm.stage (vm.mappedAttrs (vm.mapMode mode)) = vm.modeAt addr ∧
    (vm.mappedAttrs (vm.mapMode mode) = 0 ↔ vm.attrsAt addr = 0)

variable {view : Nat → PteBits} {f : Fragments} {mode : Mode} {ret : FfaValue}
  {states : ShareStates} {attrs : PteBits}

section Pages

variable {vm vm' : Vm m} {addr : Nat}

theorem lookup_fst (wf : vm.WellFormed) (inside : addr < vm.spaceEnd) :
    (vm.ptable.lookup addr).map Prod.fst = if vm.attrsAt addr = 0 then none else some addr := by
  rw [MmPtable.lookup_eq wf inside]
  change Option.map Prod.fst (if vm.attrsAt addr = 0 then none else some (addr, vm.attrsAt addr)) = _
  split <;> rfl

private theorem present_iff {p q : Prop} [Decidable p] [Decidable q] :
    ((if p then none else some addr) = if q then none else some addr) ↔ (p ↔ q) := by
  by_cases left : p <;> by_cases right : q <;> simp [left, right]

/-- What it takes for the pages to be the same after a change. -/
theorem samePages_iff (wf : vm.WellFormed) (becomes : vm.Becomes view vm') :
    SamePages vm vm' ↔ ∀ addr < vm.spaceEnd,
      m.attrsToMode vm.stage (view addr) = vm.modeAt addr ∧ (view addr = 0 ↔ vm.attrsAt addr = 0) := by
  refine forall₂_congr fun addr inside => and_congr ?_ ?_
  · rw [Vm.modeAt, becomes.stage_eq, becomes.attrsAt_eq inside]
  · rw [lookup_fst wf inside, lookup_fst becomes.wellFormed (becomes.spaceEnd_eq ▸ inside),
      becomes.attrsAt_eq inside]
    exact present_iff

theorem SamePages.of_idle (wf : vm.WellFormed) (becomes : vm.Becomes vm.attrsAt vm') : SamePages vm vm' :=
  (samePages_iff wf becomes).mpr fun _ _ => ⟨rfl, Iff.rfl⟩

/-- A roll-back restores the pages if and only if it writes what they were. -/
theorem samePages_iff_restores {read : Mode} (wf : vm.WellFormed)
    (found : constituentsGetMode vm f = .ok read) (becomes : vm.Becomes (vm.mapped f mode) vm') :
    SamePages vm vm' ↔ Restores vm f mode := by
  rw [samePages_iff wf becomes]
  constructor
  · intro same addr covers
    have page := same addr (constituentsGetMode_covers_lt found covers)
    rw [Vm.mapped_of_covers covers] at page
    exact page
  · intro restores addr inside
    by_cases covers : f.Covers addr
    · rw [Vm.mapped_of_covers covers]
      exact restores addr covers
    · rw [Vm.mapped_of_not_covers covers]
      exact ⟨rfl, Iff.rfl⟩

end Pages

/-! ## The functions -/

/-- The memory-sharing functions with their arguments. -/
inductive SharingCall
  | send (page : PageNumber) (region : MemoryRegion) (length fragmentLength : BitVec 32) (func : ShareFunc)
  | sendContinue (page : PageNumber) (fragment : Bytes) (fragmentLength : BitVec 32) (handle : Handle)
  | teeSend (page : PageNumber) (region : MemoryRegion) (length fragmentLength : BitVec 32) (func : ShareFunc)
      (answers : List TeeAnswer)
  | teeSendContinue (page : PageNumber) (fragment : Bytes) (fragmentLength : BitVec 32) (handle : Handle)
      (answers : List TeeAnswer)
  | retrieve (request : MemoryRegion) (length : BitVec 32)
  | relinquish (request : RelinquishRequest)
  | reclaim (handle : Handle) (flags : RegionFlags)
  | teeReclaim (handle : Handle) (answers : List TeeAnswer) (buffer : Bytes)

/-- The answer to a call, its caller and the TEE afterwards. -/
def SharingCall.run (vm tee : Vm m) (s : Sharing m) : SharingCall → Run (FfaValue × Vm m × Vm m)
  | .send page region length fragmentLength func => do
    let (ret, vm, _) ← ffaMemorySend vm page region length fragmentLength func s
    .ok (ret, vm, tee)
  | .sendContinue page fragment fragmentLength handle => do
    let (ret, vm, _) ← ffaMemorySendContinue vm page fragment fragmentLength handle s
    .ok (ret, vm, tee)
  | .teeSend page region length fragmentLength func answers => do
    let (ret, vm, tee, _) ← ffaMemoryTeeSend vm tee page region length fragmentLength func answers s
    .ok (ret, vm, tee)
  | .teeSendContinue page fragment fragmentLength handle answers => do
    let (ret, vm, tee, _) ← ffaMemoryTeeSendContinue vm tee page fragment fragmentLength handle answers s
    .ok (ret, vm, tee)
  | .retrieve request length => do
    let (ret, vm, _) ← ffaMemoryRetrieve vm request length s
    .ok (ret, vm, tee)
  | .relinquish request => do
    let (ret, vm, _) ← ffaMemoryRelinquish vm request s
    .ok (ret, vm, tee)
  | .reclaim handle flags => do
    let (ret, vm, _) ← ffaMemoryReclaim vm handle flags s
    .ok (ret, vm, tee)
  | .teeReclaim handle answers buffer => do
    let (ret, vm, _) ← ffaMemoryTeeReclaim vm tee handle answers buffer s
    .ok (ret, vm, tee)

/-- A region with a request to send it: what `ffa_send_check_update` is called with. -/
structure Offer (m : MmConfig) where
  f : Fragments
  func : ShareFunc
  receivers : List MemoryAccess
  memory : HypMemory m
  pool : Mpool
  clear : Bool

/-- The region of a share state. -/
def ShareState.offer (state : ShareState) (memory : HypMemory m) (pool : Mpool) : Offer m :=
  ⟨state.fragments, state.shareFunc, state.memoryRegion.receiverList, memory, pool,
    decide (state.memoryRegion.flags &&& ffaMemoryRegionFlagClear ≠ 0)⟩

/-- The offer that a call makes once its request has passed all checks. -/
inductive SharingCall.Offers (vm tee : Vm m) (s : Sharing m) : SharingCall → Offer m → Prop
  | send {page : PageNumber} {region region' : MemoryRegion} {length : BitVec 32} {func : ShareFunc}
      {i : Fin maxMemShares} {state : ShareState}
      (valid : ffaMemorySendValidate vm region length length func = .ok (.ok region'))
      (allocated : allocateShareState m s.shareStates func page
        { region' with flags := region'.flags ||| func.transactionType }
        length ffaMemoryHandleInvalid = .ok (some (i, state))) :
      Offers vm tee s (.send page region length length func) (state.offer s.memory s.pool)
  | sendContinue {page : PageNumber} {fragment : Bytes} {length : BitVec 32} {handle : Handle}
      {i : Fin maxMemShares} {state : ShareState}
      (found : ffaMemorySendContinueValidate s handle vm.id = (.ok (i, state), s))
      (receiver : (state.memoryRegion.receivers 0).receiver ≠ hfTeeVmId)
      (complete : shareStateSendingComplete (state.addFragment page fragment length) = .ok true) :
      Offers vm tee s (.sendContinue page fragment length handle)
        ((state.addFragment page fragment length).offer s.memory s.pool)
  | teeSend {page : PageNumber} {region region' : MemoryRegion} {length : BitVec 32} {func : ShareFunc}
      {answers : List TeeAnswer}
      (valid : ffaMemorySendValidate vm region length length func = .ok (.ok region')) :
      Offers vm tee s (.teeSend page region length length func answers)
        ⟨teeFragments region', func, region'.receiverList, s.memory, mpoolInitWithFallback s.pool,
          decide (region'.flags &&& ffaMemoryRegionFlagClear ≠ 0)⟩
  | teeSendContinue {page : PageNumber} {fragment : Bytes} {length : BitVec 32} {handle : Handle}
      {answers : List TeeAnswer} {i : Fin maxMemShares} {state : ShareState}
      (found : ffaMemorySendContinueValidate s handle vm.id = (.ok (i, state), s))
      (receiver : (state.memoryRegion.receivers 0).receiver = hfTeeVmId)
      (free : tee.mailbox.state = .empty ∧ tee.mailbox.recv = true)
      (complete : shareStateSendingComplete (state.addFragment page fragment length) = .ok true) :
      Offers vm tee s (.teeSendContinue page fragment length handle answers)
        ((state.addFragment page fragment length).offer s.memory (mpoolInitWithFallback s.pool))

def SharingCall.isRelinquish : SharingCall → Bool
  | .relinquish _ => true
  | _ => false

/-- What the TEE answers to a call. -/
def SharingCall.teeAnswer : SharingCall → Option FfaValue
  | .teeSend _ _ _ _ _ answers | .teeSendContinue _ _ _ _ answers => answers.head?.map TeeAnswer.value
  | _ => none

/-- The region that a call rolls back, with the mode that it writes: an offer that it takes from its caller
but cannot clear or that the TEE refuses, or a region that the caller relinquishes and that cannot be
cleared. -/
inductive SharingCall.RollsBack (vm tee : Vm m) (s : Sharing m) (call : SharingCall) : Fragments → Mode → Prop
  | send {offer : Offer m} {mode : Mode} (offers : call.Offers vm tee s offer)
      (aligned : offer.f.aligned = true)
      (checked : ffaSendCheckTransition vm offer.func offer.receivers offer.f =
        .ok (.ok (mode, sentMode offer.func mode)))
      (fails : ClearingFails vm offer.f (sentMode offer.func mode) offer.memory offer.pool offer.clear) :
      RollsBack vm tee s call offer.f mode
  | refused {offer : Offer m} {mode : Mode} {r : UpdateResult m} {answer : FfaValue}
      (offers : call.Offers vm tee s offer)
      (sent : ffaSendCheckUpdate vm offer.f offer.func offer.receivers offer.memory offer.pool
        offer.clear = .ok (some mode, r))
      (taken : r.ret = .ok ()) (answered : call.teeAnswer = some answer)
      (refusal : answer.func ≠ ffaSuccess32) :
      RollsBack vm tee s call offer.f mode
  | relinquish {request : RelinquishRequest} {i : Fin maxMemShares} {state : ShareState} {mode : Mode}
      (is : call = .relinquish request) (own : request.endpointCount = 1 ∧ request.endpoint = vm.id)
      (found : getShareState m s.shareStates request.handle = some (i, state))
      (valid : relinquishValidate state vm.id
        (decide (request.flags &&& ffaMemoryRegionFlagClear ≠ 0)) = .ok ())
      (checked : ffaRelinquishCheckTransition vm state.fragments = .ok (mode, relinquishedMode mode))
      (fails : ClearingFails vm state.fragments (relinquishedMode mode) s.memory s.pool
        (decide (request.flags &&& ffaMemoryRegionFlagClear ≠ 0))) :
      RollsBack vm tee s call state.fragments mode

section Path

variable {vm tee : Vm m} {s : Sharing m} {call : SharingCall} {offer offer' : Offer m}
  {f f' : Fragments} {mode mode' : Mode}

/-- A call makes one offer at most. -/
theorem SharingCall.Offers.unique (offers : call.Offers vm tee s offer)
    (offers' : call.Offers vm tee s offer') : offer' = offer := by
  cases offers with
  | send valid allocated =>
    cases offers' with
    | send valid' allocated' =>
      cases valid.symm.trans valid'
      cases allocated.symm.trans allocated'
      rfl
  | sendContinue found =>
    cases offers' with
    | sendContinue found' =>
      cases found.symm.trans found'
      rfl
  | teeSend valid =>
    cases offers' with
    | teeSend valid' =>
      cases valid.symm.trans valid'
      rfl
  | teeSendContinue found =>
    cases offers' with
    | teeSendContinue found' =>
      cases found.symm.trans found'
      rfl

/-- A call that makes an offer rolls back no other region. -/
theorem SharingCall.Offers.region (offers : call.Offers vm tee s offer)
    (rollsBack : call.RollsBack vm tee s f mode) : f = offer.f := by
  cases rollsBack with
  | send offers' | refused offers' => rw [offers.unique offers']
  | relinquish is =>
    subst is
    cases offers

/-- The mode is that which was read; a region that is sent is exclusive to the caller. -/
theorem SharingCall.RollsBack.found (rollsBack : call.RollsBack vm tee s f mode) (wf : vm.WellFormed) :
    constituentsGetMode vm f = .ok mode ∧
    (mode &&& stateMask = 0 ∨ ∃ request, call = .relinquish request) := by
  cases rollsBack with
  | send offers aligned checked =>
    obtain ⟨found, -, exclusive, -⟩ := ffaSendCheckTransition_ok _ checked _ _ rfl
    exact ⟨found, .inl exclusive⟩
  | refused offers sent taken =>
    cases ffaSendCheckUpdate_spec wf _ sent with
    | refused ret => cases taken.symm.trans ret
    | checked stored aligned found notDevice exclusive =>
      cases stored
      exact ⟨found, .inl exclusive⟩
  | relinquish is own found valid checked => exact ⟨(ffaRelinquishCheckTransition_ok checked).1, .inr ⟨_, is⟩⟩

/-- A call rolls back one region at most. -/
theorem SharingCall.RollsBack.unique (wf : vm.WellFormed) (rollsBack : call.RollsBack vm tee s f mode)
    (rollsBack' : call.RollsBack vm tee s f' mode') : f' = f ∧ mode' = mode := by
  have region : f' = f := by
    cases rollsBack with
    | send offers | refused offers => exact offers.region rollsBack'
    | relinquish is own found =>
      subst is
      cases rollsBack' with
      | send offers | refused offers => cases offers
      | relinquish is' own' found' =>
        cases is'
        cases found.symm.trans found'
        rfl
  subst region
  exact ⟨rfl, Except.ok.inj ((rollsBack'.found wf).1.symm.trans (rollsBack.found wf).1)⟩

theorem SharingCall.RollsBack.offered (rollsBack : call.RollsBack vm tee s f mode)
    (other : call.isRelinquish = false) : ∃ offer, call.Offers vm tee s offer ∧ offer.f = f := by
  cases rollsBack with
  | send offers | refused offers => exact ⟨_, offers, rfl⟩
  | relinquish is =>
    subst is
    cases other

/-- What a failed call has done to the pages of its caller. -/
inductive SharingCall.Reverts (vm tee : Vm m) (s : Sharing m) (call : SharingCall) (vm' : Vm m) : Prop
  | same (path : ∀ f mode, ¬call.RollsBack vm tee s f mode) (becomes : vm.Becomes vm.attrsAt vm')
  | rolledBack {f : Fragments} {mode : Mode} (path : call.RollsBack vm tee s f mode)
      (becomes : vm.Becomes (vm.mapped f mode) vm')

variable {vm' : Vm m}

theorem SharingCall.Reverts.samePages_iff (reverts : call.Reverts vm tee s vm') (wf : vm.WellFormed) :
    SamePages vm vm' ↔ ∀ f mode, call.RollsBack vm tee s f mode → Restores vm f mode := by
  cases reverts with
  | same path becomes =>
    exact iff_of_true (.of_idle wf becomes) fun f mode rollsBack => absurd rollsBack (path f mode)
  | rolledBack path becomes =>
    rw [samePages_iff_restores wf (path.found wf).1 becomes]
    constructor
    · intro restores f mode rollsBack
      obtain ⟨rfl, rfl⟩ := path.unique wf rollsBack
      exact restores
    · exact fun all => all _ _ path

/-- A call that makes no offer rolls nothing back. -/
theorem SharingCall.Reverts.early (none_ : ∀ offer, ¬call.Offers vm tee s offer)
    (other : call.isRelinquish = false) (becomes : vm.Becomes vm.attrsAt vm') :
    call.Reverts vm tee s vm' := by
  refine .same (fun f mode rollsBack => ?_) becomes
  obtain ⟨offer, offers, -⟩ := rollsBack.offered other
  exact none_ offer offers

/-- The update that an offer leads to: it fails and the pages are as its path says, or the region is taken. -/
theorem ffaSendCheckUpdate_reverts (wf : vm.WellFormed) (offers : call.Offers vm tee s offer) :
    Post (ffaSendCheckUpdate vm offer.f offer.func offer.receivers offer.memory offer.pool
      offer.clear) fun r =>
      (∃ e, r.2.ret = .error e) ∧ call.Reverts vm tee s r.2.vm ∨
        r.2.ret = .ok () ∧ ∃ mode, r.1 = some mode ∧ constituentsGetMode vm offer.f = .ok mode ∧
          vm.Becomes (vm.mapped offer.f (sentMode offer.func mode)) r.2.vm := by
  rintro ⟨stored, r⟩ ran
  -- Without a roll-back of its own, a failed update shows that there is none.
  have same (failed : ∃ e, r.ret = .error e) (becomes : vm.Becomes vm.attrsAt r.vm)
      (path : ∀ mode, offer.f.aligned = true →
        ffaSendCheckTransition vm offer.func offer.receivers offer.f =
          .ok (.ok (mode, sentMode offer.func mode)) →
        ¬ClearingFails vm offer.f (sentMode offer.func mode) offer.memory offer.pool offer.clear) :
      call.Reverts vm tee s r.vm := by
    refine .same (fun f mode rollsBack => ?_) becomes
    cases rollsBack with
    | send offers' aligned checked fails =>
      cases offers.unique offers'
      exact path mode aligned checked fails
    | refused offers' sent taken =>
      cases offers.unique offers'
      cases ran.symm.trans sent
      obtain ⟨e, failed⟩ := failed
      cases taken.symm.trans failed
    | relinquish is =>
      subst is
      cases offers
  cases ffaSendCheckUpdate_spec wf _ ran with
  | refused ret unchanged path =>
    refine .inl ⟨⟨_, ret⟩, same ⟨_, ret⟩ ?_ fun mode aligned checked => absurd checked (path aligned _)⟩
    simp only at unchanged
    rw [unchanged]
    exact .refl wf
  | @checked mode kept aligned found notDevice exclusive allowed demoted checked =>
    cases demoted with
    | done ret range becomes => exact .inr ⟨ret, mode, kept, found, becomes⟩
    | failed ret becomes path =>
      refine .inl ⟨⟨_, ret⟩, same ⟨_, ret⟩ becomes fun mode' _ checked' => ?_⟩
      cases checked.symm.trans checked'
      exact path
    | rolledBack ret cleared becomes path =>
      exact .inl ⟨⟨_, ret⟩, .rolledBack (.send offers aligned checked path) becomes⟩

/-! ### Sending -/

variable {page : PageNumber} {region : MemoryRegion} {length fragmentLength : BitVec 32}
  {func : ShareFunc} {fragment : Bytes} {handle : Handle} {answers : List TeeAnswer}
  {state : ShareState}

theorem ffaMemorySendComplete_reverts (wf : vm.WellFormed) {s₁ : Sharing m} {i : Fin maxMemShares}
    (offers : call.Offers vm tee s (state.offer s₁.memory s₁.pool)) :
    Post (ffaMemorySendComplete vm s₁ i state) fun r =>
      (r.1.func = ffaError32 ∧ call.Reverts vm tee s r.2.2.1) ∨
        r.1.func = ffaSuccess32 ∧ constituentsGetMode vm state.fragments = .ok r.2.1 ∧
          vm.Becomes (vm.mapped state.fragments (sentMode state.shareFunc r.2.1)) r.2.2.1 ∧
          ∀ answer, call.teeAnswer = some answer → answer.func ≠ ffaSuccess32 →
            call.RollsBack vm tee s state.fragments r.2.1 := by
  refine .step fun ⟨stored, r⟩ ran => ?_
  dsimp only
  rcases ffaSendCheckUpdate_reverts wf offers _ ran with ⟨⟨e, failed⟩, reverts⟩ | ⟨taken, mode,
      kept, found, becomes⟩
  · rw [failed]
    exact .ok (.inl ⟨rfl, reverts⟩)
  · dsimp only at taken kept
    subst kept
    rw [taken]
    exact .ok (.inr ⟨rfl, found, becomes,
      fun answer answered refusal => .refused offers ran taken answered refusal⟩)

theorem ffaMemorySend_reverts (wf : vm.WellFormed) :
    Post (ffaMemorySend vm page region length fragmentLength func s) fun r => r.1.func = ffaError32 →
      (SharingCall.send page region length fragmentLength func).Reverts vm tee s r.2.1 := by
  refine .step fun validated validation => ?_
  split
  · refine .ok fun _ => .early (fun offer offers => ?_) rfl (.refl wf)
    cases offers with
    | send valid => cases validation.symm.trans valid
  refine .step fun slot allocation => ?_
  split
  · refine .ok fun _ => .early (fun offer offers => ?_) rfl (.refl wf)
    cases offers with
    | send valid allocated =>
      cases validation.symm.trans valid
      cases allocation.symm.trans allocated
  next i state =>
  refine .ite (fun whole => ?_) fun _ => .ok fun error => by cases error
  subst whole
  have offers : (SharingCall.send page region fragmentLength fragmentLength func).Offers vm tee s
      _ := .send validation allocation
  refine .bind (ffaMemorySendComplete_reverts wf offers) fun _ completed => .ok fun error => ?_
  rcases completed with ⟨-, reverts⟩ | ⟨success, -⟩
  · exact reverts
  · cases success.symm.trans error

theorem ffaMemorySendContinue_reverts (wf : vm.WellFormed) :
    Post (ffaMemorySendContinue vm page fragment fragmentLength handle s) fun r => r.1.func = ffaError32 →
      (SharingCall.sendContinue page fragment fragmentLength handle).Reverts vm tee s r.2.1 := by
  rw [ffaMemorySendContinue]
  split
  · next validation =>
    refine .ok fun _ => .early (fun offer offers => ?_) rfl (.refl wf)
    cases offers with
    | sendContinue found => cases validation.symm.trans found
  next i state s₁ validation =>
  obtain ⟨unchanged, -⟩ := ffaMemorySendContinueValidate_ok validation
  subst s₁
  refine .ite (fun isTee => .ok fun _ => .early (fun offer offers => ?_) rfl (.refl wf))
    fun notTee => ?_
  · cases offers with
    | sendContinue found receiver =>
      cases validation.symm.trans found
      exact receiver isTee
  refine .step fun complete completeness => .ite (fun last => ?_) fun _ => .step fun _ _ =>
    .ok fun error => by cases error
  subst last
  have offers : (SharingCall.sendContinue page fragment fragmentLength handle).Offers vm tee s _ :=
    .sendContinue validation notTee completeness
  refine .bind (ffaMemorySendComplete_reverts wf offers) fun _ completed => .ok fun error => ?_
  rcases completed with ⟨-, reverts⟩ | ⟨success, -⟩
  · exact reverts
  · cases success.symm.trans error

/-! ### Sending to the TEE -/

/-- A region that was taken from the caller is given back if the TEE refuses it. -/
theorem teeRollBack_reverts {vm₁ : Vm m} {fromMode : Mode} {value : FfaValue} {pool : Mpool}
    (found : constituentsGetMode vm f = .ok mode) (becomes : vm.Becomes (vm.mapped f fromMode) vm₁)
    (path : value.func ≠ ffaSuccess32 → call.RollsBack vm tee s f mode) :
    Post (teeRollBack vm₁ f mode value pool) fun r => value.func = ffaError32 →
      call.Reverts vm tee s r.1 := by
  refine .ite (fun refused r ran _ => ?_) fun accepted => .ok fun error => ?_
  · exact .rolledBack (path refused)
      (commitRegion_becomes becomes (fun _ => Vm.mapped_of_not_covers) (constituentsGetMode_within found) ran)
  · cases (not_not.mp accepted).symm.trans error

theorem otherWorldCall_ok {answer : TeeAnswer} {rest : List TeeAnswer}
    (answered : otherWorldCall answers = .ok (answer, rest)) :
    answers.head?.map TeeAnswer.value = some answer.value := by
  cases answers with
  | nil => cases answered
  | cons _ _ =>
    cases answered
    rfl

theorem ffaMemoryTeeSend_reverts (wf : vm.WellFormed) :
    Post (ffaMemoryTeeSend vm tee page region length fragmentLength func answers s) fun r =>
      r.1.func = ffaError32 →
      (SharingCall.teeSend page region length fragmentLength func answers).Reverts vm tee s r.2.1 := by
  refine .step fun validated validation => ?_
  split
  · refine .ok fun _ => .early (fun offer offers => ?_) rfl (.refl wf)
    cases offers with
    | teeSend valid => cases validation.symm.trans valid
  refine .ite (fun whole => ?_) fun partly => ?_
  · subst whole
    refine .bind (.step fun _ _ => .step fun ⟨stored, r⟩ ran => ?_) fun _ reverts => .ok reverts
    have offers : (SharingCall.teeSend page region fragmentLength fragmentLength func
        answers).Offers vm tee s _ :=
      .teeSend validation
    dsimp only
    rcases ffaSendCheckUpdate_reverts wf offers _ ran with ⟨⟨e, failed⟩, reverts⟩ | ⟨taken, mode,
        kept, found, becomes⟩
    · rw [failed]
      exact .ok fun _ => reverts
    · dsimp only at taken kept
      subst kept
      rw [taken]
      refine .step fun ⟨answer, rest⟩ answered =>
        .bind (teeRollBack_reverts found becomes fun refusal => ?_) fun _ reverts => .ok reverts
      exact .refused offers ran taken (otherWorldCall_ok answered) refusal
  · have early {vm' : Vm m} (becomes : vm.Becomes vm.attrsAt vm') :
        (SharingCall.teeSend page region length fragmentLength func answers).Reverts vm tee s vm' := by
      refine .early (fun offer offers => ?_) rfl becomes
      cases offers with
      | teeSend => exact partly rfl
    refine .step fun ⟨answer, rest⟩ _ => ?_
    dsimp only
    split
    · exact .ok fun _ => early (.refl wf)
    refine .step fun slot _ => ?_
    split <;> exact .ok fun _ => early (.refl wf)

theorem ffaMemoryTeeSendContinue_reverts (wf : vm.WellFormed) :
    Post (ffaMemoryTeeSendContinue vm tee page fragment fragmentLength handle answers s) fun r =>
      r.1.func = ffaError32 →
      (SharingCall.teeSendContinue page fragment fragmentLength handle answers).Reverts vm tee s r.2.1 := by
  rw [ffaMemoryTeeSendContinue]
  split
  · next validation =>
    refine .ok fun _ => .early (fun offer offers => ?_) rfl (.refl wf)
    cases offers with
    | teeSendContinue found => cases validation.symm.trans found
  next i state s₁ validation =>
  obtain ⟨unchanged, -⟩ := ffaMemorySendContinueValidate_ok validation
  subst s₁
  refine .ite (fun other => .ok fun _ => .early (fun offer offers => ?_) rfl (.refl wf))
    fun isTee => ?_
  · cases offers with
    | teeSendContinue found receiver =>
      cases validation.symm.trans found
      exact other receiver
  refine .ite (fun _ => .step fun _ _ => .ok fun error => by cases error) fun free =>
    .step fun complete completeness => ?_
  have free : tee.mailbox.state = .empty ∧ tee.mailbox.recv = true := by simpa using free
  refine .ite (fun last => ?_) fun partly => ?_
  · subst last
    have offers : (SharingCall.teeSendContinue page fragment fragmentLength handle answers).Offers
        vm tee s _ :=
      .teeSendContinue validation (not_not.mp isTee) free completeness
    refine .bind (ffaMemorySendComplete_reverts wf offers) fun result completed => ?_
    obtain ⟨ret, mode, vm₁, s₁⟩ := result
    refine .step fun reply answered => ?_
    obtain ⟨answer, rest⟩ := reply
    dsimp only at completed ⊢
    rcases completed with ⟨error, reverts⟩ | ⟨success, found, becomes, path⟩
    · rw [if_neg (by rw [error]; decide)]
      exact .ok fun _ => reverts
    · rw [if_pos success]
      exact .bind (teeRollBack_reverts found becomes (path _ (otherWorldCall_ok answered)))
        fun _ reverts => .ok reverts
  · have early : (SharingCall.teeSendContinue page fragment fragmentLength handle answers).Reverts
        vm tee s vm := by
      refine .early (fun offer offers => ?_) rfl (.refl wf)
      cases offers with
      | teeSendContinue found receiver free complete =>
        cases validation.symm.trans found
        cases completeness.symm.trans complete
        exact partly rfl
    exact .step fun _ _ => .step fun _ _ => .ite (fun _ => .ok fun _ => early) fun _ =>
      .ok fun error => by cases error

/-! ### The other functions -/

theorem ffaMemoryRelinquish_reverts {request : RelinquishRequest} (wf : vm.WellFormed) :
    Post (ffaMemoryRelinquish vm request s) fun r => r.1.func = ffaError32 →
      (SharingCall.relinquish request).Reverts vm tee s r.2.1 := by
  have same {vm' : Vm m} (becomes : vm.Becomes vm.attrsAt vm')
      (path : ∀ {i state mode}, request.endpointCount = 1 ∧ request.endpoint = vm.id →
        getShareState m s.shareStates request.handle = some (i, state) →
        relinquishValidate state vm.id (decide (request.flags &&& ffaMemoryRegionFlagClear ≠ 0)) = .ok () →
        ffaRelinquishCheckTransition vm state.fragments = .ok (mode, relinquishedMode mode) →
        ¬ClearingFails vm state.fragments (relinquishedMode mode) s.memory s.pool
          (decide (request.flags &&& ffaMemoryRegionFlagClear ≠ 0))) :
      (SharingCall.relinquish request).Reverts vm tee s vm' := by
    refine .same (fun f mode rollsBack => ?_) becomes
    cases rollsBack with
    | send offers | refused offers => cases offers
    | relinquish is own found valid checked fails =>
      cases is
      exact path own found valid checked fails
  refine .ite (fun other => .ok fun _ => same (.refl wf) fun own => absurd own.1 other) fun single => ?_
  refine .ite (fun other => .ok fun _ => same (.refl wf) fun own => absurd own.2 other) fun own => ?_
  split
  · next missing => exact .ok fun _ => same (.refl wf) fun _ found => by cases missing.symm.trans found
  next i state lookup =>
  dsimp only
  split
  · next refused =>
    refine .ok fun _ => same (.refl wf) fun _ found valid => ?_
    cases lookup.symm.trans found
    cases refused.symm.trans valid
  next valid =>
  refine .step fun r update => .ok fun error => ?_
  cases ffaRelinquishCheckUpdate_spec wf _ update with
  | refused ret unchanged path =>
    rw [unchanged]
    refine same (.refl wf) fun _ found _ checked => ?_
    cases lookup.symm.trans found
    exact absurd checked (path _)
  | checked found notDevice borrowed demoted checked =>
    cases demoted with
    | done ret =>
      rw [ret] at error
      cases error
    | failed ret becomes path =>
      refine same becomes fun _ found _ checked' => ?_
      cases lookup.symm.trans found
      cases checked.symm.trans checked'
      exact path
    | rolledBack ret cleared becomes path =>
      exact .rolledBack (.relinquish rfl ⟨not_not.mp single, not_not.mp own⟩
        lookup valid checked path) becomes

theorem ffaMemoryRetrieve_same {request : MemoryRegion} (wf : vm.WellFormed) :
    Post (ffaMemoryRetrieve vm request length s) fun r => r.1.func = ffaError32 →
      vm.Becomes vm.attrsAt r.2.1 := by
  refine .guard (fun _ => .refl wf) fun _ => ?_
  split
  · exact .ok fun _ => .refl wf
  split
  · exact .ok fun _ => .refl wf
  refine .step fun list _ => ?_
  split
  · exact .ok fun _ => .refl wf
  split
  · exact .ok fun _ => .refl wf
  refine .step fun mode _ => .step fun r update => ?_
  cases ffaRetrieveCheckUpdate_spec wf _ update with
  | done found accepted ret becomes =>
    rw [ret]
    exact .step fun _ _ => .step fun _ _ => .ok fun error => by cases error
  | failed ret becomes =>
    rw [ret]
    exact .ok fun _ => becomes

theorem ffaMemoryReclaim_same {flags : RegionFlags} (wf : vm.WellFormed) :
    Post (ffaMemoryReclaim vm handle flags s) fun r => r.1.func = ffaError32 →
      vm.Becomes vm.attrsAt r.2.1 := by
  rw [ffaMemoryReclaim]
  split
  · exact .ok fun _ => .refl wf
  split
  · exact .ok fun _ => .refl wf
  refine .step fun r update => ?_
  cases ffaRetrieveCheckUpdate_spec wf _ update with
  | done found accepted ret becomes =>
    rw [ret]
    exact .ok fun error => by cases error
  | failed ret becomes =>
    rw [ret]
    exact .ok fun _ => becomes

theorem ffaMemoryTeeReclaim_same {buffer : Bytes} (wf : vm.WellFormed) :
    Post (ffaMemoryTeeReclaim vm tee handle answers buffer s) fun r => r.1.func = ffaError32 →
      vm.Becomes vm.attrsAt r.2.1 := by
  refine .step fun ⟨described, rest⟩ _ => ?_
  cases described with
  | error => exact .ok fun _ => .refl wf
  | ok region =>
    refine .step fun _ _ => .bind (ffaTeeReclaimCheckUpdate_spec wf) fun _ reclaimed => .ok fun error => ?_
    cases reclaimed with
    | done success => cases success.symm.trans error
    | failed failure same => exact same

end Path

theorem SharingCall.run_reverts {vm tee : Vm m} {s : Sharing m} (wf : vm.WellFormed) (call : SharingCall) :
    Post (call.run vm tee s) fun r => Kept tee r.2.2 ∧
    (r.1.func = ffaError32 → call.Reverts vm tee s r.2.1) := by
  cases call with
  | send => exact .bind (ffaMemorySend_reverts wf) fun _ reverts => .ok ⟨.refl _, reverts⟩
  | sendContinue => exact .bind (ffaMemorySendContinue_reverts wf) fun _ reverts => .ok ⟨.refl _, reverts⟩
  | teeSend =>
    exact .step fun _ ran => .ok ⟨(ffaMemoryTeeSend_effect wf _ ran).2, ffaMemoryTeeSend_reverts wf _ ran⟩
  | teeSendContinue =>
    exact .step fun _ ran => .ok ⟨(ffaMemoryTeeSendContinue_effect wf _ ran).2,
      ffaMemoryTeeSendContinue_reverts wf _ ran⟩
  | retrieve =>
    exact .bind (ffaMemoryRetrieve_same wf) fun _ same =>
      .ok ⟨.refl _, fun error => .early (fun _ offers => by cases offers) rfl (same error)⟩
  | relinquish => exact .bind (ffaMemoryRelinquish_reverts wf) fun _ reverts => .ok ⟨.refl _, reverts⟩
  | reclaim =>
    exact .bind (ffaMemoryReclaim_same wf) fun _ same =>
      .ok ⟨.refl _, fun error => .early (fun _ offers => by cases offers) rfl (same error)⟩
  | teeReclaim =>
    exact .bind (ffaMemoryTeeReclaim_same wf) fun _ same =>
      .ok ⟨.refl _, fun error => .early (fun _ offers => by cases offers) rfl (same error)⟩

/-- A memory-sharing function that returns an error leaves the pages of the TEE as they were, and those of its
caller if and only if it rolls back no region, or one that mapping it in the mode that was read restores. -/
theorem memory_sharing_error_atomic {vm vm' tee tee' : Vm m} {s : Sharing m} {call : SharingCall}
    {ret : FfaValue} (wf : vm.WellFormed) (returned : call.run vm tee s = .ok (ret, vm', tee'))
    (error : ret.func = ffaError32) :
    SamePages tee tee' ∧
      (SamePages vm vm' ↔ ∀ f mode, call.RollsBack vm tee s f mode → Restores vm f mode) := by
  obtain ⟨⟨mailbox, rfl⟩, reverts⟩ := call.run_reverts wf _ returned
  exact ⟨fun _ _ => ⟨rfl, rfl⟩, (reverts error).samePages_iff wf⟩

theorem not_isUnmapped_of_exclusive (exclusive : mode &&& stateMask = 0) : ¬mode.IsUnmapped := by
  intro unmapped
  have state : mode &&& mmModeUnmappedMask = mode &&& stateMask &&& mmModeUnmappedMask := by
    rw [BitVec.and_assoc]
    rfl
  rw [Mode.IsUnmapped, state, exclusive] at unmapped
  exact absurd unmapped (by decide)

/-- In stage 2, regions of one mode are restored. -/
theorem restores_of_uniform {vm : Vm m} (stage : vm.el0Partition = false) (uniform : Uniform vm f)
    (found : constituentsGetMode vm f = .ok mode) (mapped : ¬mode.IsUnmapped) : Restores vm f mode := by
  intro addr covers
  have own := uniform mode found addr covers
  have stage2 : vm.stage = .stage2 := by rw [Vm.stage, stage]; rfl
  have read : archMmStage2AttrsToMode (vm.attrsAt addr) = mode := by
    rw [← own, Vm.modeAt, stage2]
    rfl
  have written : vm.mappedAttrs (vm.mapMode mode) = archMmModeToStage2Attrs mode := by
    rw [Vm.mapMode, if_neg (by simp [stage]), Vm.mappedAttrs, MmConfig.mappedAttrs, if_neg mapped, stage2]
    rfl
  rw [written, own, stage2]
  refine ⟨?_, iff_of_false (archMmModeToStage2Attrs_block mode mapped).ne_zero fun absent => mapped ?_⟩
  · change archMmStage2AttrsToMode (archMmModeToStage2Attrs mode) = mode
    rw [archMmStage2AttrsToMode_of_mode, ← read, archMmStage2AttrsToMode_low]
  · rw [← read, absent]
    decide

/-! ## A partition with one block of memory -/

/-- The attributes of ordinary memory of a partition. -/
def ordinaryAttrs : PteBits := archMmModeToStage2Attrs (mmModeR ||| mmModeW ||| mmModeX)

theorem ordinaryAttrs_block : BlockAttrs ordinaryAttrs := archMmModeToStage2Attrs_block _ (by decide)

/-- A page table with one block of 2 MiB. -/
def blockTable (block : Nat) (attrs : PteBits) : VmPtable smallConfig where
  root := 0
  tables := fun i j =>
    if i = 0 ∧ j = block then .leaf (archMmBlockPte 1 (block * 2 ^ 21) attrs) else .leaf archMmAbsentPte

/-- A partition that has one block of memory with these attributes. -/
def attrsVm (id : VmId) (block : Nat) (attrs : PteBits) (send : Option Bytes) : Vm smallConfig where
  id := id
  el0Partition := false
  ptable := blockTable block attrs
  mailbox := ⟨.empty, true, send⟩

variable (id : VmId)

theorem attrsVm_wellFormed (block : Nat) (isBlock : BlockAttrs attrs) (send : Option Bytes) :
    (attrsVm id block attrs send).WellFormed := by
  intro i _ j _
  change Pte.WellFormed (if i = 0 ∧ j = block then Pte.leaf (archMmBlockPte 1 (block * 2 ^ 21) attrs)
    else Pte.leaf archMmAbsentPte) _
  split
  · next here =>
    rw [here.1, here.2, Nat.zero_mul, Nat.zero_add]
    exact LeafFor.block (show 1 ≤ 2 by decide) isBlock
  · exact LeafFor.absent

theorem attrsVm_attrsAt {block : Nat} (isBlock : BlockAttrs attrs) (send : Option Bytes)
    (bound : block < 512) (addr : Nat) :
    (attrsVm id block attrs send).attrsAt addr =
      if mmIndex addr 2 = 0 ∧ mmIndex addr 1 = block then attrs else 0 := by
  change Pte.attrsAt (if mmIndex addr 2 = 0 ∧ mmIndex addr 1 = block then
    Pte.leaf _ else Pte.leaf archMmAbsentPte : Pte 1) addr = _
  split
  · have page : block * 2 ^ 21 % pageSize = 0 := by
      simp only [pageSize]
      omega
    exact archMmPteAttrs_archMmBlockPte page (by omega) isBlock 1
  · rfl

/-- A partition that owns one block of memory. -/
def blockVm (id : VmId) (block : Nat) (send : Option Bytes) : Vm smallConfig :=
  attrsVm id block ordinaryAttrs send

theorem blockVm_wellFormed (block : Nat) (send : Option Bytes) : (blockVm id block send).WellFormed :=
  attrsVm_wellFormed id block ordinaryAttrs_block send

/-- A message given by its nonzero bytes. -/
def messageOf (bytes : List (Nat × Nat)) : Bytes := fun k => BitVec.ofNat 8 ((bytes.lookup k).getD 0)

/-- No share states, and some free pages. -/
def freshSharing : Sharing smallConfig where
  shareStates := fun _ => none
  memory := ⟨⟨0, fun _ _ => .leaf archMmAbsentPte⟩, fun _ => 0⟩
  pool := [⟨[10, 11, 12, 13, 14, 15], []⟩]

/-- The slot of the first transaction. -/
def firstSlot : Fin maxMemShares := ⟨0, by decide⟩

/-- Partition 1 offers a page of its own to the TEE. -/
def lendOwnPage : Bytes := messageOf [(0, 1), (28, 1), (33, 0x80), (34, 2), (36, 48), (52, 1),
    (65, 0x10), (72, 1)]

/-- Partition 1 offers a page that it does not have and one of its own to the TEE. -/
def lendForeignPage : Bytes :=
  messageOf [(0, 1), (28, 1), (33, 0x80), (34, 2), (36, 48), (52, 2), (66, 0x20), (72, 1),
    (81, 0x10), (88, 1)]

/-- Partition 1 lends memory to a TEE that refuses it. -/
def lendToRefusingTee (message : Bytes) (length : BitVec 32) :
    Run (FfaValue × Vm smallConfig × Vm smallConfig × Sharing smallConfig) :=
  ffaMemoryTeeSend (blockVm 1 0 none) (blockVm 0x8000 5 none) 3 (memoryRegionFrom message) length length .lend
    [⟨ffaError .denied, fun _ => 0⟩] freshSharing

/-- The call returns an error and a caller that passes a check. -/
def failsWith (r : Run (FfaValue × Vm smallConfig × Vm smallConfig × Sharing smallConfig))
    (check : Vm smallConfig → Bool) : Bool :=
  match r with
  | .ok (ret, vm, _) => decide (ret.func = ffaError32) && check vm
  | .error _ => false

theorem failsWith_iff {r : Run (FfaValue × Vm smallConfig × Vm smallConfig × Sharing smallConfig)}
    {check : Vm smallConfig → Bool} :
    failsWith r check = true ↔ ∃ ret vm tee s, r = .ok (ret, vm, tee, s) ∧ ret.func = ffaError32 ∧
    check vm = true := by
  cases r with
  | error e => simp [failsWith]
  | ok result =>
    obtain ⟨ret, vm, tee, s⟩ := result
    simp [failsWith]

/-- A page of its own that the TEE refuses is as before. -/
theorem memory_sharing_error_atomic_own_page :
    ∃ ret vm' tee' s', lendToRefusingTee lendOwnPage 80 = .ok (ret, vm', tee', s') ∧ ret.func = ffaError32 ∧
      SamePages (blockVm 1 0 none) vm' := by
  have run : failsWith (lendToRefusingTee lendOwnPage 80) (fun _ => true) = true := by
    decide +kernel
  obtain ⟨ret, vm', tee', s', returned, error, -⟩ := failsWith_iff.mp run
  have wf := blockVm_wellFormed 1 0 none
  have ran : (SharingCall.teeSend 3 (memoryRegionFrom lendOwnPage)
      80 80 .lend [⟨ffaError .denied, fun _ => 0⟩]).run
      (blockVm 1 0 none) (blockVm 0x8000 5 none) freshSharing = .ok (ret, vm', tee') :=
    bind_ok_iff.mpr ⟨_, returned, rfl⟩
  refine ⟨ret, vm', tee', s', returned, error,
    (memory_sharing_error_atomic wf ran error).2.mpr fun f mode rollsBack => ?_⟩
  obtain ⟨found, exclusive | ⟨request, other⟩⟩ := rollsBack.found wf
  · refine restores_of_uniform rfl ?_ found (not_isUnmapped_of_exclusive exclusive)
    have region : f = teeFragments (memoryRegionFrom lendOwnPage) := by
      obtain ⟨offer, offers, rfl⟩ := rollsBack.offered rfl
      cases offers with
      | teeSend valid => exact (ffaMemorySendValidate_ok valid).teeFragments_eq
    subst region
    exact uniform_of_single rfl (by decide +kernel)
  · cases other

/-- Offering a page that it does not have in front of one of its own leaves partition 1 with the
former, though the TEE has refused both. -/
theorem memory_sharing_error_atomic_foreign_page :
    ∃ ret vm' tee' s', lendToRefusingTee lendForeignPage 96 = .ok (ret, vm', tee', s') ∧
      ret.func = ffaError32 ∧ ¬SamePages (blockVm 1 0 none) vm' := by
  have run : failsWith (lendToRefusingTee lendForeignPage 96)
      (fun vm => decide (vm.modeAt 0x200000 ≠ (blockVm 1 0 none).modeAt 0x200000)) = true := by
    decide +kernel
  obtain ⟨ret, vm', tee', s', returned, error, changed⟩ := failsWith_iff.mp run
  refine ⟨ret, vm', tee', s', returned, error, fun same => of_decide_eq_true changed (same 0x200000 ?_).1⟩
  decide +kernel

end Hafnium.Ffa
