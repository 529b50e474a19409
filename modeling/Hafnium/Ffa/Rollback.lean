import Hafnium.Ffa.Access
import Hafnium.Ffa.Atomicity
import Hafnium.Ffa.Stops
import Hafnium.Ffa.Pages
import Hafnium.Mm.Funding

/-! # Roll-backs are paid for

Memory that is sent or relinquished is taken from the caller's address space before it is known
whether the call succeeds. Undoing that may split the same blocks again, which takes pages for
tables. A region of one mode always finds those pages in the local pool: committing and
defragmenting put one page there for every table they remove, so nothing is taken from the shared
pool, which other CPUs may have emptied meanwhile.
-/

namespace Hafnium.Ffa

open Mm Partial

variable {m : MmConfig} {vm : Vm m} {f : Fragments} {shared pool : Mpool}

/-- The ranges of a region, as the page-table code rounds them. -/
def Vm.ranges (vm : Vm m) (f : Fragments) : List (Nat × Nat) :=
  f.list.map fun p => (mmMapBegin p.2.begin_, mmMapEnd (m.levels vm.stage) p.2.end_)

/-- The tables that a partition lacks to have a region mapped range by range. -/
def Vm.missing (vm : Vm m) (f : Fragments) : Nat := vm.ptable.missing (vm.ranges f)

/-! ## Commits that are paid for -/

variable {mode origMode fromMode : Mode} {own : MpoolLevel} {r : Updated (Vm m)} {func : ShareFunc}
  {receivers : List MemoryAccess} {s : HypMemory m} {clear : Bool} {n : Nat} {state : ShareState}
  {i : Fin maxMemShares}

theorem regionIdentityMap_funded (vm : Vm m) {l : List (Nat × Constituent)} {ranges : List (Nat × Nat)}
    (ranged : ∀ p ∈ l, p.2.InPaRange m ∧
      (mmMapBegin p.2.begin_, mmMapEnd (m.levels vm.stage) p.2.end_) ∈ ranges)
    (front : InFront shared pool) (funded : vm.ptable.missing ranges ≤ pool.ownCount) :
    ∃ t pool', regionIdentityMap mode true l vm pool = .ok ⟨true, { vm with ptable := t }, pool'⟩ ∧
      InFront shared pool' ∧ t.missing ranges ≤ pool'.ownCount := by
  induction l generalizing vm pool with
  | nil => exact ⟨vm.ptable, pool, rfl, front, funded⟩
  | cons p rest ih =>
    obtain ⟨i, c⟩ := p
    rw [List.forall_mem_cons] at ranged
    obtain ⟨t, pool', committed, front', funded'⟩ := mmPtableIdentityCommit_funded ranged.1.2 _
      _ vm.ptable front funded
    have committed : vmIdentityCommit vm c.begin_ c.end_ mode pool = .ok ({ vm with ptable := t },
      pool') := by
      have committed : stageIdentityCommit vm.ptable c.begin_ c.end_ mode pool = some (t, pool') := committed
      rw [vmIdentityCommit, committed]
    obtain ⟨t', pool'', ran, front'', funded''⟩ := ih { vm with ptable := t } ranged.2 front' funded'
    refine ⟨t', pool'', ?_, front'', funded''⟩
    rw [regionIdentityMap, if_neg (inPaRange_iff.mp ranged.1.1), if_pos rfl, committed]
    exact ran

theorem commitRegion_funded (mode : Mode) (range : ∀ p ∈ f.list, p.2.InPaRange m)
    (front : InFront shared pool) (funded : vm.missing f ≤ pool.ownCount) :
    ∃ vm' pool', commitRegion vm f mode pool = .ok (vm', pool') ∧ InFront shared pool' ∧
    vm'.missing f ≤ pool'.ownCount := by
  obtain ⟨t, pool', ran, front', funded'⟩ := regionIdentityMap_funded vm
    (fun p member => ⟨range p member, List.mem_map_of_mem member⟩) front funded
  have ran : ffaRegionGroupIdentityMap vm f mode pool true = .ok _ := ran
  exact ⟨{ vm with ptable := t }, pool', by rw [commitRegion, ran]; rfl, front', funded'⟩

/-- The local pool alone pays for mapping a region in a mode: whatever is left of the shared pool,
the `CHECK` around the mapping passes and nothing is taken from there. -/
def RollBackPaid (vm : Vm m) (f : Fragments) (mode : Mode) (own : MpoolLevel) : Prop :=
  ∀ shared : Mpool, ∃ vm' own', commitRegion vm f mode (own :: shared) = .ok (vm', own' :: shared)

theorem rollBackPaid_of_missing (range : ∀ p ∈ f.list, p.2.InPaRange m)
    (funded : vm.missing f ≤ own.freeCount) (mode : Mode) : RollBackPaid vm f mode own := by
  intro shared
  obtain ⟨vm', pool', ran, ⟨own', rfl⟩, -⟩ := commitRegion_funded mode range ⟨own, rfl⟩ funded
  exact ⟨vm', own', ran⟩

theorem finishUpdate_funded (f : Fragments) (ret : Except FfaError Unit) (s : HypMemory m)
    (front : InFront shared pool) (funded : vm.missing f ≤ pool.ownCount) :
    InFront shared (finishUpdate ret vm s pool).pool ∧
      (finishUpdate ret vm s pool).vm.missing f ≤ (finishUpdate ret vm s pool).pool.ownCount := by
  obtain ⟨front', paid⟩ := mmPtableDefrag_funded (vm.ranges f) m.features vm.ptable front
  refine ⟨front', ?_⟩
  have paid : (finishUpdate ret vm s pool).vm.missing f + pool.ownCount ≤
      vm.missing f + (finishUpdate ret vm s pool).pool.ownCount := paid
  omega

/-! ## A prepared region of one mode -/

/-- No page of a region has what another access would leave. -/
theorem attrsAt_ne_of_access (uniform : Uniform vm f) (found : constituentsGetMode vm f = .ok origMode)
    (differs : access mode ≠ access origMode) {addr : Nat} (covers : f.Covers addr) :
    vm.attrsAt addr ≠ vm.mappedAttrs (vm.mapMode mode) := by
  intro same
  have own := uniform origMode found addr covers
  rw [Vm.modeAt, same, Vm.mappedAttrs] at own
  have written := access_mappedAttrs m vm.stage (vm.mapMode mode)
  rw [own, access_mapMode] at written
  exact differs written.symm

theorem targetAttrs_mode (stage : Stage) (mode : Mode) :
    targetAttrs (m.modeToAttrs stage mode) (mmModeToFlags mode) = m.mappedAttrs stage mode := by
  simp only [targetAttrs, mmModeToFlags, MmConfig.mappedAttrs, decide_eq_true_eq]

/-- A prepared region in which no page has the new attributes yet lacks no table. -/
theorem prepared_missing (wf : vm.WellFormed) (found : constituentsGetMode vm f = .ok origMode)
    (differs : ∀ addr, f.Covers addr → vm.attrsAt addr ≠ vm.mappedAttrs (vm.mapMode mode))
    (ran : ffaRegionGroupIdentityMap vm f mode pool false = .ok r) (ok : r.ok = true) :
    (∀ p ∈ f.list, p.2.InPaRange m) ∧ r.value.missing f = 0 := by
  obtain ⟨r', same, ⟨t, mailbox, value, tWf, attrs⟩, ready⟩ := prepareRegion_spec (f := f) wf mode pool
  cases ran.symm.trans same
  obtain ⟨range, prepared⟩ := ready ok
  refine ⟨range, ?_⟩
  rw [value] at prepared ⊢
  have space := vm.spaceEnd_le
  have bounds (p : Nat × Constituent) (member : p ∈ f.list) : mmMapBegin p.2.begin_ = p.2.begin_ ∧
      mmMapEnd (m.levels vm.stage) p.2.end_ = p.2.begin_ + p.2.size ∧ 0 < p.2.size := by
    have within := constituentsGetMode_within found p member
    have inside := within.inside
    have nonempty := within.nonempty
    have ends := within.end_eq space
    refine ⟨mmMapBegin_of_page within.aligned (by omega), ?_, nonempty⟩
    rw [mmMapEnd_of_page (Constituent.end_page within.aligned) (by rw [ends]; exact inside), ends]
  refine MmPtable.missing_eq_zero (attrsFor_modeToAttrs m vm.stage (vm.mapMode mode)) tWf ?_ ?_
  · intro range member
    obtain ⟨p, inList, rfl⟩ := List.mem_map.mp member
    obtain ⟨begins, ends, nonempty⟩ := bounds p inList
    refine ⟨?_, prepared p inList⟩
    change mmMapBegin p.2.begin_ < mmMapEnd (m.levels vm.stage) p.2.end_
    omega
  · intro range member addr inside lower upper
    obtain ⟨p, inList, rfl⟩ := List.mem_map.mp member
    obtain ⟨begins, ends, -⟩ := bounds p inList
    have upper : addr < mmMapEnd (m.levels vm.stage) p.2.end_ := upper
    rw [targetAttrs_mode, attrs addr inside]
    exact differs addr ⟨p, inList, by omega, by omega⟩

/-- Taking a prepared region away leaves the pages for undoing it in the local pool. -/
theorem commit_paid (wf : vm.WellFormed) (uniform : Uniform vm f)
    (found : constituentsGetMode vm f = .ok origMode) (differs : access mode ≠ access origMode)
    (ran : ffaRegionGroupIdentityMap vm f mode pool false = .ok r) (ok : r.ok = true) :
    (∀ p ∈ f.list, p.2.InPaRange m) ∧ ∃ vm' own, commitRegion r.value f mode (mpoolInitWithFallback r.state) =
      .ok (vm', own :: r.state) ∧ vm'.missing f ≤ own.freeCount := by
  obtain ⟨range, missing⟩ := prepared_missing wf found
    (fun _ covers => attrsAt_ne_of_access uniform found differs covers)
    ran ok
  obtain ⟨vm', pool', committed, ⟨own, rfl⟩, funded⟩ := commitRegion_funded mode range
    (⟨{}, rfl⟩) (missing ▸ Nat.zero_le _)
  exact ⟨range, vm', own, committed, funded⟩

theorem ffaSendCheckTransition_differs
    (checked : ffaSendCheckTransition vm func receivers f = .ok (.ok (origMode, fromMode))) :
    constituentsGetMode vm f = .ok origMode ∧ access fromMode ≠ access origMode := by
  obtain ⟨found, -, exclusive, -, rfl⟩ := ffaSendCheckTransition_ok _ checked _ _ rfl
  refine ⟨found, ?_⟩
  rw [access_sentMode, access_of_exclusive exclusive]
  cases func <;> decide

theorem ffaRelinquishCheckTransition_differs
    (checked : ffaRelinquishCheckTransition vm f = .ok (origMode, fromMode)) :
    constituentsGetMode vm f = .ok origMode ∧ access fromMode ≠ access origMode := by
  obtain ⟨found, -, borrowed, rfl⟩ := ffaRelinquishCheckTransition_ok checked
  refine ⟨found, fun same => ?_⟩
  rw [access_relinquishedMode] at same
  apply invalid_of_access same.symm
  have kept : origMode &&& mmModeInvalid = origMode &&& stateMask &&& ~~~mmModeShared &&& mmModeInvalid := by
    rw [BitVec.and_assoc, BitVec.and_assoc]
    rfl
  rw [kept, borrowed]
  rfl

/-! ## After the update -/

/-- A region that was sent out of a local pool can be taken back with what that pool holds then. -/
theorem demoteRegion_paid {r : UpdateResult m}
    (wf : vm.WellFormed) (uniform : Uniform vm f) (found : constituentsGetMode vm f = .ok origMode)
    (differs : access mode ≠ access origMode) (sound : pool.Sound n)
    (ran : demoteRegion vm f origMode mode s pool clear = .ok r) (done : r.ret = .ok ()) :
    ∃ own rest, r.pool = own :: rest ∧ RollBackPaid r.vm f origMode own := by
  simp only [demoteRegion, bind_ok_iff] at ran
  obtain ⟨prepared, prepare, ran⟩ := ran
  split at ran
  · next ok =>
    obtain ⟨range, vm₁, own, commit, funded⟩ := commit_paid wf uniform found differs prepare ok
    simp only [bind_ok_iff, commit, Except.ok.injEq, exists_eq_left'] at ran
    obtain ⟨⟨cleared, s₁, pool₁⟩, clearing, ran⟩ := ran
    split at ran
    · cases ran
      have sound₁ := (clearRegion_moves _ clearing n (regionIdentityMap_moves _ prepare n sound).1).1
      obtain ⟨next, rest, rfl⟩ : ∃ next rest, pool₁ = next :: rest :=
        List.exists_cons_of_length_eq_add_one sound₁.fallbacks
      obtain ⟨front, count⟩ := mpoolFini_own own next rest
      obtain ⟨⟨own', pools⟩, paid⟩ := finishUpdate_funded f (.ok ())
        s₁ front (show vm₁.missing f ≤ _ by omega)
      refine ⟨own', rest, pools, rollBackPaid_of_missing range ?_ origMode⟩
      rw [pools] at paid
      exact paid
    · obtain ⟨_, -, ⟨⟩⟩ := bind_ok_iff.mp ran
      cases done
  · cases ran
    cases done

/-! ## The checks around mappings -/

/-- A `CHECK` on a mapping that is committed. -/
def Abort.IsCommitCheck (abort : Abort) : Prop := abort = .regionGroupIdentityMap ∨ abort = .identityCommit

instance (abort : Abort) : Decidable abort.IsCommitCheck := inferInstanceAs (Decidable (_ ∨ _))

/-- All mappings that a computation commits succeed. -/
abbrev CommitSafe {α : Type} (x : Run α) : Prop := Avoids Abort.IsCommitCheck x

section Clear

variable (wf : s.stage1.WellFormed)

theorem commitSafe_memsetS (t : MmPtable (m.levels .stage1)) (dest size : Nat) (bytes : Nat → BitVec 8) :
    CommitSafe (memsetS t dest size bytes) := by
  rw [memsetS]
  split
  · exact .error (by decide)
  · split
    · exact .error (by decide)
    · exact .ok _

include wf

theorem commitSafe_clearMemory (begin_ size : Nat) (pool : Mpool) (extra : Mode) :
    CommitSafe (clearMemory s begin_ size pool extra) := by
  obtain ⟨ptr, t, pool₁, mapped, tWf, -⟩ := mmIdentityMap_returns wf begin_ _ _ pool
  rw [clearMemory, mapped]
  change CommitSafe (if ptr = 0 then _ else _)
  split
  · exact .ok _
  · apply Avoids.bind (commitSafe_memsetS _ _ _ _)
    intro bytes
    obtain ⟨ptr', t', pool₂, unmapped, -⟩ := mmIdentityMap_returns tWf begin_ _ mmModeUnmappedMask pool₁
    rw [unmapped]
    exact .ok _

theorem commitSafe_clearConstituents (extra : Mode) (l : List (Nat × Constituent)) (pool : Mpool) :
    CommitSafe (clearConstituents extra l s pool) := by
  induction l generalizing s pool with
  | nil => exact .ok _
  | cons p rest ih =>
    apply Avoids.bind_ok (commitSafe_clearMemory wf _ _ _ _)
    rintro ⟨ok, s₁, pool₁⟩ cleared
    simp only
    split
    · exact ih (clearMemory_spec wf cleared).1 _
    · exact .ok _

theorem commitSafe_clearRegion (owner : VmId) (f : Fragments) (clear : Bool) (pool : Mpool) :
    CommitSafe (clearRegion owner f clear s pool) := by
  rw [clearRegion]
  split
  · apply Avoids.bind (commitSafe_clearConstituents wf _ _ _)
    rintro ⟨ok, s₁, pool₁⟩
    simp only
    split
    · exact .ok _
    · exact .ok _
  · exact .ok _

end Clear

section Update

variable (sWf : s.stage1.WellFormed) (wf : vm.WellFormed) (uniform : Uniform vm f)
include sWf wf uniform

theorem commitSafe_demoteRegion (found : constituentsGetMode vm f = .ok origMode)
    (differs : access mode ≠ access origMode) (clear : Bool) :
    CommitSafe (demoteRegion vm f origMode mode s pool clear) := by
  obtain ⟨prepared, prepare, -⟩ := prepareRegion_spec (f := f) wf mode pool
  rw [demoteRegion, prepare]
  change CommitSafe (if prepared.ok = true then _ else _)
  split
  · next ok =>
    obtain ⟨range, vm₁, own, commit, funded⟩ := commit_paid wf uniform found differs prepare ok
    rw [commit]
    apply Avoids.bind (commitSafe_clearRegion sWf _ _ _ _)
    rintro ⟨cleared, s₁, pool₁⟩
    simp only
    split
    · exact .ok _
    · obtain ⟨vm₂, own', rolledBack⟩ := rollBackPaid_of_missing range funded origMode pool₁
      have rolledBack : commitRegion vm₁ f origMode (List.take 1 (own :: prepared.state) ++ pool₁) =
          .ok _ := rolledBack
      rw [rolledBack]
      exact .ok _
  · exact .ok _

theorem commitSafe_sendCheckUpdate (func : ShareFunc) (receivers : List MemoryAccess) (clear : Bool) :
    CommitSafe (ffaSendCheckUpdate vm f func receivers s pool clear) := by
  rw [ffaSendCheckUpdate]
  split
  · apply Avoids.bind_ok (avoids_sendCheckTransition (by decide) _ _ _ _)
    intro transition checked
    cases transition with
    | error e => exact .ok _
    | ok modes =>
      obtain ⟨found, differs⟩ := ffaSendCheckTransition_differs checked
      exact .bind (commitSafe_demoteRegion sWf wf uniform found differs clear) fun _ => .ok _
  · exact .ok _

end Update

theorem ffaSendCheckUpdate_paid {stored : Option Mode} {r : UpdateResult m} (wf : vm.WellFormed)
    (uniform : Uniform vm f) (sound : pool.Sound n)
    (ran : ffaSendCheckUpdate vm f func receivers s pool clear = .ok (stored, r))
    (done : r.ret = .ok ()) :
    ∃ origMode own rest, stored = some origMode ∧ r.pool = own :: rest ∧
    RollBackPaid r.vm f origMode own := by
  rw [ffaSendCheckUpdate] at ran
  split at ran
  · rw [bind_ok_iff] at ran
    obtain ⟨transition, checked, ran⟩ := ran
    cases transition with
    | error e =>
      cases ran
      cases done
    | ok modes =>
      obtain ⟨origMode, fromMode⟩ := modes
      obtain ⟨r', demoted, ⟨⟩⟩ := bind_ok_iff.mp ran
      obtain ⟨found, differs⟩ := ffaSendCheckTransition_differs checked
      obtain ⟨own, rest, pools, paid⟩ := demoteRegion_paid wf uniform found differs sound demoted done
      exact ⟨origMode, own, rest, rfl, pools, paid⟩
  · cases ran
    cases done

theorem teeRollBack_paid (paid : RollBackPaid vm f origMode own) (value : FfaValue)
    (shared : Mpool) : ∃ vm' own', teeRollBack vm f origMode value (own :: shared) = .ok (vm',
      own' :: shared) := by
  rw [teeRollBack]
  split
  · exact paid shared
  · exact ⟨vm, own, rfl⟩

variable {s : Sharing m}

section Complete

theorem commitSafe_sendComplete (sWf : s.memory.stage1.WellFormed) (wf : vm.WellFormed)
    (uniform : Uniform vm state.fragments) (i : Fin maxMemShares) :
    CommitSafe (ffaMemorySendComplete vm s i state) := by
  apply Avoids.bind (commitSafe_sendCheckUpdate sWf wf uniform _ _ _)
  rintro ⟨stored, r⟩
  dsimp only
  split
  · exact .ok _
  · exact .ok _

theorem ffaMemorySendComplete_paid {ret : FfaValue} {vm' : Vm m} {s' : Sharing m}
    (sound : s.pool.Sound n) (wf : vm.WellFormed) (uniform : Uniform vm state.fragments)
    (ran : ffaMemorySendComplete vm s i state = .ok (ret, origMode, vm', s'))
    (success : ret.func = ffaSuccess32) :
    ∃ own rest, s'.pool = own :: rest ∧ RollBackPaid vm' state.fragments origMode own := by
  simp only [ffaMemorySendComplete, bind_ok_iff] at ran
  obtain ⟨⟨stored, r⟩, updated, ran⟩ := ran
  split at ran
  · next done =>
    cases ran
    obtain ⟨mode, own, rest, rfl, pools, paid⟩ := ffaSendCheckUpdate_paid wf uniform sound updated done
    exact ⟨own, rest, pools, paid⟩
  · cases ran
    exact absurd success (by decide : ffaError32 ≠ ffaSuccess32)

end Complete

theorem commitSafe_sendValidate (vm : Vm m) (region : MemoryRegion)
    (memoryShareLength fragmentLength : BitVec 32) (func : ShareFunc) :
    CommitSafe (ffaMemorySendValidate vm region memoryShareLength fragmentLength func) := by
  rw [ffaMemorySendValidate]
  split
  · exact .ok _
  · apply Avoids.bind (avoids_compositeConstituentOffset (by decide) _ _)
    intro offset
    dsimp only
    split
    · exact .ok _
    · apply Avoids.bind (avoids_getComposite (by decide) _ _ _)
      intro composite
      split
      · exact .ok _
      · exact .ok _

theorem commitSafe_allocateShareState (states : ShareStates) (func : ShareFunc) (page : PageNumber)
    (region : MemoryRegion) (fragmentLength : BitVec 32) (handle : Handle) :
    CommitSafe (allocateShareState m states func page region fragmentLength handle) := by
  rw [allocateShareState]
  split
  · exact .ok _
  · exact .bind (avoids_compositeConstituentOffset (by decide) _ _) fun _ => .ok _

section Tee

variable (sWf : s.memory.stage1.WellFormed) (sound : s.pool.Sound n) (wf : vm.WellFormed)
include sWf sound wf

variable {region : MemoryRegion} (tee : Vm m)

theorem commitSafe_teeSendWhole (uniform : Uniform vm (teeFragments region)) (func : ShareFunc)
    (answers : List TeeAnswer) : CommitSafe (teeSendWhole vm tee region func answers s) := by
  have localSound := (mpoolInitWithFallback_sound sound).1
  apply Avoids.bind (avoids_getComposite (by decide) _ _ _)
  intro _
  apply Avoids.bind_ok (commitSafe_sendCheckUpdate sWf wf uniform _ _ _)
  rintro ⟨stored, r⟩ ran
  dsimp only
  cases done : r.ret with
  | error e => exact .ok _
  | ok _ =>
    obtain ⟨origMode, own, rest, rfl, pools, paid⟩ := ffaSendCheckUpdate_paid wf uniform localSound ran done
    apply Avoids.bind (avoids_otherWorldCall (by decide) _)
    rintro ⟨answer, _⟩
    obtain ⟨vm', own', rolledBack⟩ := teeRollBack_paid paid answer.value rest
    dsimp only [Option.getD_some]
    rw [pools, rolledBack]
    exact .ok _

theorem commitSafe_teeSendLast (uniform : Uniform vm state.fragments)
    (answers : List TeeAnswer) : CommitSafe (teeSendLast vm tee i state answers s) := by
  have localSound := (mpoolInitWithFallback_sound sound).1
  apply Avoids.bind_ok (commitSafe_sendComplete
    (s := { s with pool := mpoolInitWithFallback s.pool }) sWf wf uniform i)
  rintro ⟨ret, origMode, vm', s'⟩ completed
  apply Avoids.bind (avoids_otherWorldCall (by decide) _)
  rintro ⟨answer, _⟩
  dsimp only
  split
  · next success =>
    obtain ⟨own, rest, pools, paid⟩ := ffaMemorySendComplete_paid localSound wf uniform completed success
    obtain ⟨vm'', own', rolledBack⟩ := teeRollBack_paid paid answer.value rest
    rw [pools, rolledBack]
    exact .ok _
  · exact .ok _

/-- The mappings of `ffa_memory_tee_send` succeed for a region of one mode. -/
theorem commitSafe_teeSend (page : PageNumber) {memoryShareLength fragmentLength : BitVec 32}
    (uniform : ∀ {region'}, ffaMemorySendValidate vm region memoryShareLength fragmentLength func =
      .ok (.ok region') → Uniform vm (teeFragments region')) (answers : List TeeAnswer) :
    CommitSafe (ffaMemoryTeeSend vm tee page region memoryShareLength fragmentLength func answers s) := by
  apply Avoids.bind_ok (commitSafe_sendValidate _ _ _ _ _)
  intro validated checked
  cases validated with
  | error e => exact .ok _
  | ok region' =>
    dsimp only
    split
    · exact .bind (commitSafe_teeSendWhole sWf sound wf tee (uniform checked) func answers) fun _ => .ok _
    · apply Avoids.bind (avoids_otherWorldCall (by decide) _)
      rintro ⟨answer, _⟩
      split
      · exact .ok _
      · apply Avoids.bind (commitSafe_allocateShareState _ _ _ _ _ _)
        intro allocated
        split
        · exact .ok _
        · exact .ok _

/-- The mappings of `ffa_memory_tee_send_continue` succeed for a region of one mode. -/
theorem commitSafe_teeSendContinue (page : PageNumber) (fragment : Bytes) (fragmentLength : BitVec 32)
    {handle : Handle} (uniform : ∀ {i state}, getShareState m s.shareStates handle = some (i, state) →
      Uniform vm (state.addFragment page fragment fragmentLength).fragments) (answers : List TeeAnswer) :
    CommitSafe (ffaMemoryTeeSendContinue vm tee page fragment fragmentLength handle answers s) := by
  rw [ffaMemoryTeeSendContinue]
  split
  · exact .ok _
  · next i state s' validation =>
    obtain ⟨rfl, found, -⟩ := ffaMemorySendContinueValidate_ok validation
    split
    · exact .ok _
    · split
      · exact .bind (avoids_nextFragmentOffset (by decide) _) fun _ => .ok _
      · apply Avoids.bind (avoids_sendingComplete (by decide) _)
        intro complete
        split
        · exact commitSafe_teeSendLast sWf sound wf tee (uniform found) answers
        · apply Avoids.bind (avoids_nextFragmentOffset (by decide) _)
          intro offset
          apply Avoids.bind (avoids_otherWorldCall (by decide) _)
          rintro ⟨⟨value, send⟩, _⟩
          dsimp only
          split
          · exact .ok _
          · exact .ok _

end Tee

/-! ## All roll-backs -/

/-- What the roll-backs of a region of one mode rely on. -/
structure RollBackSafe (vm : Vm m) (f : Fragments) : Prop where
  /-- `ffa_send_check_update`, from its successful preparation on. -/
  send : ∀ {func receivers origMode fromMode pool r},
    ffaSendCheckTransition vm func receivers f = .ok (.ok (origMode, fromMode)) →
    ffaRegionGroupIdentityMap vm f fromMode pool false = .ok r → r.ok = true →
    ∃ vm' own, commitRegion r.value f fromMode (mpoolInitWithFallback r.state) = .ok (vm', own :: r.state) ∧
      RollBackPaid vm' f origMode own
  /-- `ffa_relinquish_check_update`, from its successful preparation on. -/
  relinquish : ∀ {origMode fromMode pool r},
    ffaRelinquishCheckTransition vm f = .ok (origMode, fromMode) →
    ffaRegionGroupIdentityMap vm f fromMode pool false = .ok r → r.ok = true →
    ∃ vm' own, commitRegion r.value f fromMode (mpoolInitWithFallback r.state) = .ok (vm', own :: r.state) ∧
      RollBackPaid vm' f origMode own
  /-- `ffa_memory_tee_send` and `ffa_memory_tee_send_continue`, after the region was sent and the
  tables were defragmented. -/
  tee : ∀ {func receivers s n pool clear stored r}, Mpool.Sound n pool →
    ffaSendCheckUpdate vm f func receivers s (mpoolInitWithFallback pool) clear = .ok (stored, r) →
      r.ret = .ok () →
    ∃ origMode own rest, stored = some origMode ∧ r.pool = own :: rest ∧ RollBackPaid r.vm f origMode own

/-- Roll-backs of a region of one mode never fail. The pages they need are in the local pool, also
if other CPUs have taken all pages of the shared one in between, and so all four functions pass the
checks around their mappings whatever the pool holds. -/
theorem rollBack_never_fails {vm : Vm m} (wf : vm.WellFormed) :
    (∀ f, Uniform vm f → RollBackSafe vm f) ∧
    (∀ s : HypMemory m, s.stage1.WellFormed → ∀ f, Uniform vm f → ∀ pool clear,
      (∀ func receivers, CommitSafe (ffaSendCheckUpdate vm f func receivers s pool clear)) ∧
      CommitSafe (ffaRelinquishCheckUpdate vm f s pool clear)) ∧
    ∀ (s : Sharing m) (n : Nat), s.memory.stage1.WellFormed → s.pool.Sound n →
      ∀ tee page answers fragmentLength, (∀ region memoryShareLength func,
        (∀ region', ffaMemorySendValidate vm region memoryShareLength fragmentLength func =
          .ok (.ok region') → Uniform vm (teeFragments region')) →
        CommitSafe (ffaMemoryTeeSend vm tee page region memoryShareLength fragmentLength func answers s)) ∧
      ∀ fragment handle,
        (∀ i state, getShareState m s.shareStates handle = some (i, state) →
          Uniform vm (state.addFragment page fragment fragmentLength).fragments) →
        CommitSafe (ffaMemoryTeeSendContinue vm tee page fragment fragmentLength handle answers s) := by
  refine ⟨fun f uniform => ⟨?_, ?_, ?_⟩, fun s sWf f uniform pool clear => ⟨?_, ?_⟩,
    fun s n sWf sound tee page answers length => ⟨?_, ?_⟩⟩
  · intro func receivers origMode fromMode pool r checked returned ok
    obtain ⟨found, differs⟩ := ffaSendCheckTransition_differs checked
    obtain ⟨range, vm', own, committed, funded⟩ := commit_paid wf uniform found differs returned ok
    exact ⟨vm', own, committed, rollBackPaid_of_missing range funded origMode⟩
  · intro origMode fromMode pool r checked returned ok
    obtain ⟨found, differs⟩ := ffaRelinquishCheckTransition_differs checked
    obtain ⟨range, vm', own, committed, funded⟩ := commit_paid wf uniform found differs returned ok
    exact ⟨vm', own, committed, rollBackPaid_of_missing range funded origMode⟩
  · intro func receivers s n pool clear stored r sound returned done
    exact ffaSendCheckUpdate_paid wf uniform (mpoolInitWithFallback_sound sound).1 returned done
  · exact fun func receivers => commitSafe_sendCheckUpdate sWf wf uniform func receivers clear
  · rw [ffaRelinquishCheckUpdate]
    split
    · exact .ok _
    · next checked =>
      obtain ⟨found, differs⟩ := ffaRelinquishCheckTransition_differs checked
      exact commitSafe_demoteRegion sWf wf uniform found differs clear
  · exact fun region memoryShareLength func uniform =>
      commitSafe_teeSend sWf sound wf tee page (fun checked => uniform _ checked) answers
  · exact fun fragment handle uniform =>
      commitSafe_teeSendContinue sWf sound wf tee page fragment length
        (fun found => uniform _ _ found) answers

/-- One page of partition 1. -/
def onePage : Fragments where
  constituents := fun _ _ => ⟨0x100000, 1⟩
  counts := fun _ => 1
  count := 1
  offsets := fun _ => 0

/-- Lending one page splits a block, so that undoing it cannot run out of pages. -/
theorem rollBack_never_fails_one_page :
    ∃ origMode fromMode r, ffaSendCheckTransition (blockVm 1 0 none) .lend []
      onePage = .ok (.ok (origMode, fromMode)) ∧
      ffaRegionGroupIdentityMap (blockVm 1 0 none) onePage fromMode [⟨[5], []⟩] false = .ok r ∧ r.ok = true ∧
      ∃ vm' own,
        commitRegion r.value onePage fromMode (mpoolInitWithFallback r.state) = .ok (vm', own :: r.state) ∧
        RollBackPaid vm' onePage origMode own := by
  have checked : returns (ffaSendCheckTransition (blockVm 1 0 none) .lend [] onePage)
      (fun r => r.toOption == some (7, 7 ||| mmModeInvalid)) = true := by decide +kernel
  have prepared : returns (ffaRegionGroupIdentityMap (blockVm 1 0 none)
      onePage (7 ||| mmModeInvalid) [⟨[5], []⟩] false) (fun r => r.ok) = true := by decide +kernel
  obtain ⟨modes, transition, same⟩ := returns_iff.mp checked
  obtain ⟨r, returned, ok⟩ := returns_iff.mp prepared
  cases modes with
  | error e => cases same
  | ok modes =>
    obtain rfl : modes = (7, 7 ||| mmModeInvalid) := by simpa [Except.toOption] using same
    have safe := (rollBack_never_fails (blockVm_wellFormed 1 0 none)).1 onePage (uniform_of_single rfl rfl)
    exact ⟨_, _, r, transition, returned, ok, safe.send transition returned ok⟩

end Hafnium.Ffa
