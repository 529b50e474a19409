import Hafnium.Ffa.Effect
import Hafnium.Mm.Pages

/-! # Custody of descriptor pages

The descriptor and the fragments of a memory transaction are kept in pages of the page pool. A page is
handed over from the call that takes it to a share state, or goes back to the pool. Page tables take
their pages from the same pool, partly through local pools, so the accounts are kept together.
-/

namespace Hafnium.Ffa

open Mm Custody Partial Function

variable {m : MmConfig}

/-! ## Page tables -/

/-- The pages of a partition's tables. -/
def Vm.pages (vm : Vm m) : Multiset PageNumber := vm.ptable.pages

/-- The pages of the hypervisor's own tables. -/
def HypMemory.pages (s : HypMemory m) : Multiset PageNumber := s.stage1.pages

variable {vm' : Vm m} {pool : Mpool} {f : Fragments} {origMode : Mode} {func : ShareFunc}
  {answers : List TeeAnswer} {states : ShareStates} {i : Fin maxMemShares} {state : ShareState}
  {s : Sharing m} {passed : Multiset PageNumber} {memory : HypMemory m} {ret : FfaValue}
  {handle : Handle} {vm : Vm m} {s' : Sharing m}

section Tables

variable {pool' : Mpool} {mode : Mode} {s s' : HypMemory m} {begin_ : Nat} {clear : Bool}
  {end_ : Nat} {l : List (Nat × Constituent)} {extra : Mode}

theorem vmIdentityCommit_moves :
    Post (vmIdentityCommit vm begin_ end_ mode pool) fun r => pool.Moves r.2 vm.pages r.1.pages := by
  rw [vmIdentityCommit]
  split
  · exact .error
  · next committed => exact .ok (stageIdentityCommit_moves committed)

theorem vmPtableDefrag_moves (vm : Vm m) (pool : Mpool) :
    pool.Moves (vmPtableDefrag vm pool).2 vm.pages (vmPtableDefrag vm pool).1.pages :=
  mmPtableDefrag_moves m.features vm.ptable pool

/-- The loop over the constituents of a region. -/
theorem regionIdentityMap_moves {commit : Bool} :
    Post (regionIdentityMap mode commit l vm pool) fun r => pool.Moves r.state vm.pages r.value.pages := by
  induction l generalizing vm pool with
  | nil => exact .ok (.refl _ _)
  | cons head rest ih =>
    refine .guard (.refl _ _) fun _ => .ite (fun _ => ?_) fun _ => ?_
    · split
      · exact .error
      · next committed =>
        intro r mapped
        exact (vmIdentityCommit_moves _ committed).trans (ih r mapped)
    · have prepare : pool.Moves (vmIdentityPrepare vm head.2.begin_ head.2.end_ mode pool).state vm.pages
          (vmIdentityPrepare vm head.2.begin_ head.2.end_ mode pool).value.pages :=
        stageIdentityPrepare_moves vm.ptable head.2.begin_ head.2.end_ mode pool
      exact .ite (fun _ r mapped => prepare.trans (ih r mapped)) fun _ => .ok prepare

theorem commitRegion_moves : Post (commitRegion vm f mode pool) fun r =>
      pool.Moves r.2 vm.pages r.1.pages := by
  exact .bind regionIdentityMap_moves fun r moves => .ite (fun _ => .ok moves) fun _ => .error

theorem mmIdentityMap_moves {t : MmPtable (m.levels .stage1)} :
    Post (mmIdentityMap t begin_ end_ mode pool) fun r => pool.Moves r.2.2 t.pages r.2.1.pages := by
  rw [mmIdentityMap]
  split
  · exact .error
  · next mapped => exact .ok (stageIdentityMap_moves mapped)

theorem clearMemory_moves {size : Nat} :
    Post (clearMemory s begin_ size pool extra) fun r => pool.Moves r.2.2 s.pages r.2.1.pages := by
  refine .bind mmIdentityMap_moves fun ⟨ptr, stage1, pool₁⟩ mapped => .guard ?_ fun _ => ?_
  · exact mapped.trans (mmPtableDefrag_moves _ _ _)
  · exact .step fun _ _ => .bind mmIdentityMap_moves fun _ unmapped => .ok (mapped.trans unmapped)

theorem clearConstituents_moves : Post (clearConstituents extra l s pool) fun r =>
      pool.Moves r.2.2 s.pages r.2.1.pages := by
  induction l generalizing s pool with
  | nil => exact .ok (.refl _ _)
  | cons head rest ih =>
    refine .bind clearMemory_moves fun _ one => .ite (fun _ r cleared => ?_) fun _ => .ok one
    exact one.trans (ih r cleared)

theorem ffaClearMemoryConstituents_moves :
    Post (ffaClearMemoryConstituents mode f s pool) fun r => pool.Moves r.2.2 s.pages r.2.1.pages := by
  rintro ⟨ok, s', pool'⟩ ran
  show pool.Moves pool' s.pages s'.pages
  simp only [ffaClearMemoryConstituents, bind_ok_iff] at ran
  obtain ⟨⟨done, s₁, pool₁⟩, cleared, ran⟩ := ran
  have loop : Mpool.Moves _ pool₁ s.pages s₁.pages := clearConstituents_moves _ cleared
  split at ran
  · cases ran
    exact (Mpool.Moves.toLocal (loop.trans (mmPtableDefrag_moves _ _ _))).scope
  · cases ran
    exact loop.toLocal.scope

theorem clearRegion_moves {owner : VmId} :
    Post (clearRegion owner f clear s pool) fun r => pool.Moves r.2.2 s.pages r.2.1.pages := by
  exact .ite (fun _ => ffaClearMemoryConstituents_moves) fun _ => .ok (.refl _ _)

/-- The accounts of a checked update. -/
def UpdateResult.Balances (r : UpdateResult m) (vm : Vm m) (s : HypMemory m) (pool : Mpool) : Prop :=
  pool.Moves r.pool (vm.pages + s.pages) (r.vm.pages + r.memory.pages)

theorem finishUpdate_balances {ret : Except FfaError Unit}
    (moves : pool.Moves pool' (vm.pages + s.pages) (vm'.pages + s'.pages)) :
    (finishUpdate ret vm' s' pool').Balances vm s pool :=
  moves.trans ((vmPtableDefrag_moves vm' pool').frame _)

theorem demoteRegion_balances {fromMode : Mode} :
    Post (demoteRegion vm f origMode fromMode s pool clear) fun r => r.Balances vm s pool := by
  refine .bind regionIdentityMap_moves fun prepared moves => ?_
  have prepare := moves.frame s.pages
  refine .ite (fun _ => .bind commitRegion_moves fun ⟨vm₁, localPool⟩ committed => ?_) fun _ =>
    .ok (finishUpdate_balances prepare)
  refine .bind clearRegion_moves fun ⟨cleared, s₁, pool₁⟩ clearing => ?_
  have commit := committed.toLocal.frame s.pages
  have clear : localPool.LocalMoves (localPool.take 1 ++ pool₁) (vm₁.pages + s.pages)
      (vm₁.pages + s₁.pages) :=
    (clearing.behind.frame vm₁.pages).cast (add_comm _ _) (add_comm _ _)
  refine .ite (fun _ => .ok ?_) fun _ => .bind commitRegion_moves fun _ rolledBack => .ok ?_
  · exact finishUpdate_balances (prepare.trans (Mpool.LocalMoves.scope (commit.trans clear)))
  · have rollBack := rolledBack.toLocal.frame s₁.pages
    exact finishUpdate_balances (prepare.trans (Mpool.LocalMoves.scope ((commit.trans clear).trans rollBack)))

theorem ffaSendCheckUpdate_balances {receivers : List MemoryAccess} :
    Post (ffaSendCheckUpdate vm f func receivers s pool clear) fun r => r.2.Balances vm s pool := by
  refine .ite (fun _ => .step fun transition _ => ?_) fun _ => .ok (.refl _ _)
  split
  · exact .ok (.refl _ _)
  · exact .bind demoteRegion_balances fun _ demoted => .ok demoted

theorem ffaRelinquishCheckUpdate_balances :
    Post (ffaRelinquishCheckUpdate vm f s pool clear) fun r => r.Balances vm s pool := by
  rw [ffaRelinquishCheckUpdate]
  split
  · exact .ok (.refl _ _)
  · exact demoteRegion_balances

theorem ffaRetrieveCheckUpdate_balances {sender : VmId} {func : MapFunc} :
    Post (ffaRetrieveCheckUpdate vm sender f mode func clear s pool) fun r => r.Balances vm s pool := by
  refine .ite (fun _ => .step fun transition _ => ?_) fun _ => .ok (.refl _ _)
  split
  · exact .ok (.refl _ _)
  refine .bind regionIdentityMap_moves fun prepared moves => ?_
  have prepare := moves.frame s.pages
  refine .ite (fun _ => .bind clearRegion_moves fun ⟨cleared, s₁, pool₁⟩ clearing => ?_) fun _ =>
    .ok (finishUpdate_balances prepare)
  have clear := (clearing.frame prepared.value.pages).cast (add_comm _ _) (add_comm _ _)
  refine .ite (fun _ => .bind commitRegion_moves fun _ committed => .ok ?_) fun _ =>
    .ok (finishUpdate_balances (prepare.trans clear))
  exact finishUpdate_balances ((prepare.trans clear).trans (committed.frame _))

theorem ffaTeeReclaimCheckUpdate_moves :
    Post (ffaTeeReclaimCheckUpdate vm f mode answers pool) fun r =>
      pool.Moves r.2.2 vm.pages r.2.1.pages := by
  refine .ite (fun _ => .step fun transition _ => ?_) fun _ => .ok (.refl _ _)
  split
  · exact .ok (.refl _ _)
  refine .bind regionIdentityMap_moves fun prepared prepare => ?_
  refine .ite (fun _ => .step fun answer _ => .ite (fun _ => .ok ?_)
    fun _ => .bind commitRegion_moves fun _ committed => .ok ?_)
    fun _ => .ok ?_
  · exact prepare.trans (vmPtableDefrag_moves _ _)
  · exact (prepare.trans committed).trans (vmPtableDefrag_moves _ _)
  · exact prepare.trans (vmPtableDefrag_moves _ _)

end Tables

/-! ## Share states -/

/-- The pages of a share state: that of the descriptor and those of further fragments. -/
def ShareState.held (state : ShareState) : Multiset PageNumber :=
  {state.pages 0} + ((List.range state.fragments.count).tail.map state.pages : List PageNumber)

def slotPages : Option ShareState → Multiset PageNumber
  | none => 0
  | some state => state.held

/-- The pages of all share states. -/
def ShareStates.held (states : ShareStates) : Multiset PageNumber := ∑ i, slotPages (states i)

/-- A share state has the fragment of its descriptor at least. -/
def ShareStates.Filled (states : ShareStates) : Prop :=
  ∀ i state, states i = some state → 0 < state.fragments.count

theorem ShareStates.held_update (states : ShareStates) (i : Fin maxMemShares) (slot : Option ShareState) :
    ShareStates.held (update states i slot) + slotPages (states i) = states.held + slotPages slot := by
  obtain ⟨rest, before, after⟩ := sum_update (fun _ => slotPages) states (Finset.mem_univ i)
  rw [ShareStates.held, ShareStates.held, before, after]
  abel

theorem ShareStates.Filled.update (filled : states.Filled)
    {slot : Option ShareState} (new : ∀ state, slot = some state → 0 < state.fragments.count) :
    ShareStates.Filled (update states i slot) := by
  intro j state held
  by_cases same : j = i
  · rw [same, update_self] at held
    exact new state held
  · rw [update_of_ne same] at held
    exact filled j state held

/-- One more fragment brings its page. -/
theorem ShareState.held_addFragment (filled : 0 < state.fragments.count) (page : PageNumber)
    (fragment : Bytes) (length : BitVec 32) :
    (state.addFragment page fragment length).held = state.held + {page} := by
  obtain ⟨count, succ⟩ := Nat.exists_eq_succ_of_ne_zero filled.ne'
  have first : (state.addFragment page fragment length).pages 0 = state.pages 0 :=
    update_of_ne filled.ne _ _
  have last : (state.addFragment page fragment length).pages (count + 1) = page := by
    simp only [ShareState.addFragment, succ, Nat.succ_eq_add_one, update_self]
  have others : (List.range (count + 1)).tail.map (state.addFragment page fragment length).pages =
      (List.range (count + 1)).tail.map state.pages := by
    refine List.map_congr_left fun j member => ?_
    have below := List.mem_range.mp (List.mem_of_mem_tail member)
    exact update_of_ne (by omega) _ _
  have total : (state.addFragment page fragment length).fragments.count = count + 1 + 1 := by
    rw [← Nat.succ_eq_add_one count, ← succ]
    rfl
  have split : (List.range (count + 1 + 1)).tail = (List.range (count + 1)).tail ++ [count + 1] := by
    rw [List.range_succ, List.tail_append_of_ne_nil (by simp)]
  rw [ShareState.held, ShareState.held, first, total, split, List.map_append, others, succ,
    List.map_singleton, last, ← Multiset.coe_add, Multiset.coe_singleton, add_assoc]

/-! ## Accounts of the memory-sharing functions -/

/-- All pages that the memory-sharing functions have in their custody, but for those of the partitions. -/
def Sharing.pages (s : Sharing m) : Multiset PageNumber :=
  s.pool.pages + (s.memory.pages + s.shareStates.held)

structure Sharing.Sound (n : Nat) (s : Sharing m) : Prop where
  pool : s.pool.Sound n
  filled : s.shareStates.Filled

/-- A step during which the pages of the caller go from `x` to `y`. -/
def Sharing.Moves (s s' : Sharing m) (x y : Multiset PageNumber) : Prop :=
  Balanced Sharing.Sound Sharing.pages s s' x y

/-- A call that was passed pages for descriptors, while the tables of the caller go from `x` to `y`. No
page is lost or duplicated, and each page that was passed or was in a share state is in a share state or
back in the pool. -/
structure Sharing.Settles (s s' : Sharing m) (x y passed : Multiset PageNumber) : Prop where
  moves : s.Moves s' (x + passed) y
  back : ∀ n, s.Sound n → ∃ freed, s.shareStates.held + passed = s'.shareStates.held + freed ∧
    freed ≤ s'.pool.pages

/-- Freeing the pages of a share state. -/
theorem shareStateFree_pool (s : Sharing m) (i : Fin maxMemShares) (state : ShareState) :
    s.pool.Moves (shareStateFree s i state).pool state.held 0 := by
  have first := (mpoolFree_moves s.pool (state.pages 0)).frame
    ((List.range state.fragments.count).tail.map state.pages : List PageNumber)
  rw [zero_add] at first
  have rest : Mpool.Moves _ (shareStateFree s i state).pool
      ((List.range state.fragments.count).tail.map fun j => ({state.pages j} : Multiset PageNumber)).sum 0 :=
    Balanced.foldl (fun j _ pool => mpoolFree_moves pool (state.pages j)) _
  refine first.trans (rest.cast ?_ rfl)
  rw [← sum_singletons, List.map_map]
  rfl

section Settles

variable {s₁ : Sharing m} {x y freed : Multiset PageNumber}

/-- Page tables and share states are updated, and some of the pages of the share states are freed. -/
theorem Sharing.Settles.of_pool
    (moves : GivesBack Mpool.Sound Mpool.pages s.pool pool (x + s.memory.pages) (y + memory.pages) freed)
    (kept : s.shareStates.Filled → states.Filled ∧ s.shareStates.held + passed = states.held + freed) :
    s.Settles { shareStates := states, memory, pool } x y passed := by
  refine ⟨fun n sound => ?_, fun n sound => ⟨freed, (kept sound.filled).2, ?_⟩⟩
  · obtain ⟨sound', same⟩ := moves.balanced n sound.pool
    obtain ⟨filled, held⟩ := kept sound.filled
    refine ⟨⟨sound', filled⟩, ?_⟩
    calc s.pages + (x + passed) = s.pool.pages + (x + s.memory.pages) + (s.shareStates.held + passed) := by
          rw [Sharing.pages]
          abel
      _ = s.pool.pages + (x + s.memory.pages + freed) + states.held := by
          rw [held]
          abel
      _ = pool.pages + (y + memory.pages) + states.held := by rw [same]
      _ = Sharing.pages { shareStates := states, memory, pool } + y := by
          rw [Sharing.pages]
          abel
  · obtain ⟨rest, same⟩ := moves.back n sound.pool
    rw [same]
    exact Multiset.le_add_left _ _

/-- Updates of page tables leave the share states alone. -/
theorem Sharing.Settles.idle (moves : s.pool.Moves pool (x + s.memory.pages) (y + memory.pages)) :
    s.Settles { s with memory, pool } x y 0 :=
  .of_pool (moves.givesBack (.refl _ _)) fun filled => ⟨filled, rfl⟩

theorem Sharing.Settles.unchanged (s : Sharing m) (x : Multiset PageNumber) : s.Settles s x x 0 :=
  .idle (.refl _ _)

/-- A share state takes over what was passed. -/
theorem Sharing.Settles.store (moves : s.pool.Moves pool (x + s.memory.pages) (y + memory.pages))
    (takes : s.shareStates.Filled → 0 < state.fragments.count ∧
      state.held = slotPages (s.shareStates i) + passed) :
    s.Settles (Sharing.set { s with memory, pool } i (some state)) x y passed := by
  refine .of_pool (moves.givesBack (.refl _ _)) fun filled => ⟨filled.update fun _ this => ?_, ?_⟩
  · cases this
    exact (takes filled).1
  · have update := s.shareStates.held_update i (some state)
    rw [slotPages, (takes filled).2, ← add_assoc, add_right_comm] at update
    rw [add_zero]
    exact (add_right_cancel update).symm

/-- A share state is freed with its pages and what was passed. -/
theorem Sharing.Settles.free
    (moves : GivesBack Mpool.Sound Mpool.pages s.pool pool (x + s.memory.pages) (y + memory.pages) state.held)
    (takes : s.shareStates.Filled → state.held = slotPages (s.shareStates i) + passed) :
    s.Settles { shareStates := update s.shareStates i none, memory, pool } x y passed := by
  refine .of_pool moves fun filled => ⟨filled.update nofun, ?_⟩
  have update := s.shareStates.held_update i none
  rw [slotPages, add_zero] at update
  rw [takes filled, ← add_assoc, update]

theorem Sharing.Settles.shareStateFree (moves : s.pool.Moves pool (x + s.memory.pages) (y + memory.pages))
    (takes : s.shareStates.Filled → state.held = slotPages (s.shareStates i) + passed) :
    s.Settles (shareStateFree { s with memory, pool } i state) x y passed :=
  .free (moves.givesBack (shareStateFree_pool { s with memory, pool } i state)) takes

/-- A page that was passed goes back to the pool. -/
theorem Sharing.Settles.refuse (settles : s.Settles s₁ x y 0) (page : PageNumber) :
    s.Settles { s₁ with pool := mpoolFree s₁.pool page } x y {page} := by
  have gone (n : Nat) (sound : s₁.Sound n) : (mpoolFree s₁.pool page).Sound n ∧
      (mpoolFree s₁.pool page).pages = s₁.pool.pages + {page} := by
    obtain ⟨sound', same⟩ := mpoolFree_moves s₁.pool page n sound.pool
    exact ⟨sound', by rw [same, add_zero]⟩
  refine ⟨fun n sound => ?_, fun n sound => ?_⟩
  · obtain ⟨sound₁, same⟩ := settles.moves n sound
    obtain ⟨sound', pages⟩ := gone n sound₁
    refine ⟨⟨sound', sound₁.filled⟩, ?_⟩
    rw [add_zero] at same
    rw [← add_assoc, same, Sharing.pages, Sharing.pages, pages]
    abel
  · obtain ⟨freed, held, back⟩ := settles.back n sound
    refine ⟨freed + {page}, ?_, ?_⟩
    · rw [add_zero] at held
      rw [held, add_assoc]
    · rw [(gone n (settles.moves n sound).1).2]
      exact Multiset.add_le_add_right back

end Settles

/-! ## Sending -/

section Send

variable {tee tee' : Vm m} {page : PageNumber} {fragmentLength : BitVec 32} {region : MemoryRegion}

/-- A transaction is completed in its share state, which is freed if that fails. -/
theorem ffaMemorySendComplete_pages :
    Post (ffaMemorySendComplete vm s i state) fun (ret, mode, vm', s') =>
      ∃ memory pool, s.pool.Moves pool (vm.pages + s.memory.pages) (vm'.pages + memory.pages) ∧
        (ret.func = ffaSuccess32 ∧ s' = Sharing.set { s with memory, pool } i
            (some { state with senderOrigMode := mode, sendingComplete := true }) ∨
          ret.func ≠ ffaSuccess32 ∧ s' = shareStateFree { s with memory, pool } i state) := by
  refine .bind ffaSendCheckUpdate_balances fun ⟨origMode, r⟩ moves => ?_
  dsimp only
  split
  · exact .ok ⟨r.memory, r.pool, moves, .inl ⟨rfl, rfl⟩⟩
  · exact .ok ⟨r.memory, r.pool, moves, .inr ⟨ffaError_func _, rfl⟩⟩

theorem ffaMemorySendComplete_settles
    (takes : s.shareStates.Filled → 0 < state.fragments.count ∧
      state.held = slotPages (s.shareStates i) + passed) :
    Post (ffaMemorySendComplete vm s i state) fun r => s.Settles r.2.2.2 vm.pages r.2.2.1.pages passed := by
  rintro ⟨ret, mode, vm', s'⟩ ran
  obtain ⟨memory, pool, moves, ⟨-, rfl⟩ | ⟨-, rfl⟩⟩ := ffaMemorySendComplete_pages _ ran
  · exact .store moves takes
  · exact .shareStateFree moves fun filled => (takes filled).2

/-- A share state is allocated with the page of the descriptor. -/
theorem allocateShareState_takes
    (allocated : allocateShareState m s.shareStates func page region fragmentLength handle =
      .ok (some (i, state))) :
    0 < state.fragments.count ∧ state.held = slotPages (s.shareStates i) + {page} := by
  obtain ⟨isFree, given, -, rfl⟩ := allocateShareState_some allocated
  refine ⟨Nat.one_pos, ?_⟩
  rw [isFree, slotPages, zero_add]
  rfl

variable {memoryShareLength : BitVec 32} {fragment : Bytes}

theorem ffaMemorySend_settles : Post (ffaMemorySend vm page region memoryShareLength fragmentLength
      func s) fun r =>
      s.Settles r.2.2 vm.pages r.2.1.pages {page} := by
  refine .step fun validated _ => ?_
  split
  · exact .ok (.refuse (.unchanged s _) page)
  refine .step fun slot allocated => ?_
  split
  · exact .ok (.refuse (.unchanged s _) page)
  have takes := allocateShareState_takes allocated
  refine .ite (fun _ => ?_) fun _ => .ok (.store (.refl _ _) fun _ => takes)
  exact .bind (ffaMemorySendComplete_settles fun _ => takes) fun _ settles => .ok settles

/-- A transaction that cannot be continued; its share state is freed if it is full. -/
theorem ffaMemorySendContinueValidate_settles {fromVmId : VmId} {e : FfaError} (x : Multiset PageNumber)
    (validation : ffaMemorySendContinueValidate s handle fromVmId = (.error e, s')) : s.Settles s' x x 0 := by
  simp only [ffaMemorySendContinueValidate] at validation
  split at validation
  · cases validation
    exact .unchanged s x
  · next found =>
    split at validation
    · cases validation
      exact .unchanged s x
    · split at validation
      · cases validation
        exact .unchanged s x
      · split at validation
        · cases validation
          refine .shareStateFree (.refl _ _) fun _ => ?_
          rw [getShareState_some found, add_zero]
          rfl
        · cases validation

/-- A share state takes over the page of a further fragment. -/
theorem addFragment_takes (held : s.shareStates i = some state) (page : PageNumber) (fragment : Bytes)
    (fragmentLength : BitVec 32) (filled : s.shareStates.Filled) :
    0 < (state.addFragment page fragment fragmentLength).fragments.count ∧
      (state.addFragment page fragment fragmentLength).held = slotPages (s.shareStates i) + {page} := by
  refine ⟨Nat.succ_pos _, ?_⟩
  rw [ShareState.held_addFragment (filled i state held), held]
  rfl

theorem ffaMemorySendContinue_settles :
    Post (ffaMemorySendContinue vm page fragment fragmentLength handle s) fun r =>
      s.Settles r.2.2 vm.pages r.2.1.pages {page} := by
  rw [ffaMemorySendContinue]
  split
  · next validation => exact .ok (.refuse (ffaMemorySendContinueValidate_settles _ validation) page)
  · next validation =>
    obtain ⟨rfl, lookup, -⟩ := ffaMemorySendContinueValidate_ok validation
    have takes := addFragment_takes (getShareState_some lookup) page fragment fragmentLength
    refine .guard (.refuse (.unchanged _ _) page) fun _ => .step fun complete _ =>
      .ite (fun _ => ?_) fun _ => ?_
    · exact .bind (ffaMemorySendComplete_settles takes) fun _ settles => .ok settles
    · exact .step fun _ _ => .ok (.store (.refl _ _) takes)

/-! ## Sending to the TEE -/

theorem teeRollBack_moves {value : FfaValue} :
    Post (teeRollBack vm f origMode value pool) fun r => pool.Moves r.2 vm.pages r.1.pages := by
  exact .ite (fun _ => commitRegion_moves) fun _ => .ok (.refl _ _)

theorem teeSendWhole_settles :
    Post (teeSendWhole vm tee region func answers s) fun r =>
      s.Settles r.2.2.2 vm.pages r.2.1.pages 0 ∧ r.2.2.1.pages = tee.pages := by
  refine .step fun composite _ => .bind ffaSendCheckUpdate_balances fun ⟨origMode, r⟩
    (moves : Mpool.Moves ..) => ?_
  dsimp only
  split
  · exact .ok ⟨.idle (Mpool.LocalMoves.scope (Mpool.Moves.toLocal moves)), rfl⟩
  · refine .step fun _ _ => .bind teeRollBack_moves fun _ rolledBack => .ok ⟨?_, rfl⟩
    have back := rolledBack.frame r.memory.pages
    exact .idle (Mpool.LocalMoves.scope (Mpool.Moves.toLocal (moves.trans back)))

theorem ffaMemoryTeeSend_settles :
    Post (ffaMemoryTeeSend vm tee page region memoryShareLength fragmentLength func answers s) fun r =>
      s.Settles r.2.2.2 vm.pages r.2.1.pages {page} ∧ r.2.2.1.pages = tee.pages := by
  have refused : s.Settles { s with pool := mpoolFree s.pool page } vm.pages vm.pages {page} :=
    .refuse (.unchanged s _) page
  refine .step fun validated _ => ?_
  split
  · exact .ok ⟨refused, rfl⟩
  refine .ite (fun _ => .bind teeSendWhole_settles fun _ whole => .ok ⟨.refuse whole.1 page,
    whole.2⟩) fun _ =>
    .step fun ⟨answer, rest⟩ _ => ?_
  dsimp only
  split
  · exact .ok ⟨refused, rfl⟩
  refine .step fun slot allocated => ?_
  split
  · exact .ok ⟨refused, rfl⟩
  · exact .ok ⟨.store (.refl _ _) fun _ => allocateShareState_takes allocated, rfl⟩

/-- The last fragment: the share state is freed to the pool if the region was sent, else to the local one. -/
theorem teeSendLast_settles
    (takes : s.shareStates.Filled → state.held = slotPages (s.shareStates i) + passed) :
    Post (teeSendLast vm tee i state answers s) fun r =>
      s.Settles r.2.2.2 vm.pages r.2.1.pages passed ∧ r.2.2.1.pages = tee.pages := by
  refine .bind ffaMemorySendComplete_pages fun ⟨result, mode, vm₁, s₁⟩ completed =>
    .step fun ⟨answer, rest⟩ _ => ?_
  obtain ⟨memory, pool, moves, ⟨sent, rfl⟩ | ⟨failed, rfl⟩⟩ := completed
  · dsimp only
    rw [if_pos sent]
    refine .bind teeRollBack_moves fun ⟨vm₂, pool₂⟩ rolledBack => .ok ⟨?_, rfl⟩
    have back := rolledBack.frame memory.pages
    have freed := Mpool.Moves.behind (shareStateFree_pool { s with memory, pool := pool₂.tail } i state)
    have moves := Mpool.scope_givesBack ((Mpool.Moves.toLocal (moves.trans back)).givesBack freed)
    have settles := Sharing.Settles.free moves takes
    have cleared : update (update s.shareStates i
        (some { state with senderOrigMode := mode, sendingComplete := true }))
          i none = update s.shareStates i none :=
      update_idem ..
    rw [← cleared] at settles
    exact settles
  · dsimp only
    rw [if_neg failed]
    have freed := Mpool.Moves.toLocal (shareStateFree_pool { s with memory, pool } i state)
    have moves := Mpool.scope_givesBack ((Mpool.Moves.toLocal moves).givesBack freed)
    exact .ok ⟨.free moves takes, rfl⟩

theorem teeSendMore_settles
    (takes : s.shareStates.Filled → 0 < state.fragments.count ∧
      state.held = slotPages (s.shareStates i) + passed) :
    Post (teeSendMore vm tee handle i state answers s) fun r =>
      s.Settles r.2.2.2 vm.pages r.2.1.pages passed ∧ r.2.2.1.pages = tee.pages := by
  refine .step fun _ _ => .step fun _ _ => .ite (fun _ => .ok ⟨?_, rfl⟩) fun _ =>
    .ok ⟨.store (.refl _ _) takes, rfl⟩
  exact .shareStateFree (.refl _ _) fun filled => (takes filled).2

theorem ffaMemoryTeeSendContinue_settles :
    Post (ffaMemoryTeeSendContinue vm tee page fragment fragmentLength handle answers s) fun r =>
      s.Settles r.2.2.2 vm.pages r.2.1.pages {page} ∧ r.2.2.1.pages = tee.pages := by
  rw [ffaMemoryTeeSendContinue]
  split
  · next validation => exact .ok ⟨.refuse (ffaMemorySendContinueValidate_settles _ validation) page, rfl⟩
  · next validation =>
    obtain ⟨rfl, lookup, -⟩ := ffaMemorySendContinueValidate_ok validation
    have takes := addFragment_takes (getShareState_some lookup) page fragment fragmentLength
    refine .guard ⟨.refuse (.unchanged _ _) page, rfl⟩ fun _ =>
      .ite (fun _ => .step fun _ _ => .ok ⟨.refuse (.unchanged _ _) page, rfl⟩)
      fun _ => .step fun complete _ => ?_
    exact .ite (fun _ => teeSendLast_settles fun filled => (takes filled).2) fun _ =>
      teeSendMore_settles takes

end Send

/-! ## Retrieving, relinquishing and reclaiming -/

section Return

variable {tee : Vm m} {x y : Multiset PageNumber}

/-- How much was retrieved is stored, and a donation that is complete is freed. -/
theorem setRetrieved_settles (moves : s.pool.Moves pool (x + s.memory.pages) (y + memory.pages))
    (held : s.shareStates i = some state) (receiverIndex count : Nat) :
    s.Settles (setRetrieved { s with memory, pool } i state receiverIndex count) x y 0 := by
  have same : state.held = slotPages (s.shareStates i) + 0 := by
    rw [held, add_zero]
    rfl
  have stored : s.Settles (Sharing.set { s with memory, pool } i (some
      { state with
        retrievedFragmentCount := update state.retrievedFragmentCount receiverIndex count })) x y 0 :=
    .store moves fun filled => ⟨filled i state held, same⟩
  simp only [setRetrieved, ffaMemoryRetrieveComplete, shareStateFree, Sharing.set, update_idem]
  split
  · split
    · exact .shareStateFree moves fun _ => same
    · exact stored
  · exact stored

theorem ffaMemoryRetrieve_settles {request : MemoryRegion} {requestLength : BitVec 32} :
    Post (ffaMemoryRetrieve vm request requestLength s) fun r => s.Settles r.2.2 vm.pages r.2.1.pages 0 := by
  have same : s.Settles s vm.pages vm.pages 0 := .unchanged s _
  refine .guard same fun _ => ?_
  split
  · exact .ok same
  next found =>
  split
  · exact .ok same
  refine .step fun granted _ => ?_
  split
  · exact .ok same
  split
  · exact .ok same
  · refine .step fun mode _ => .bind ffaRetrieveCheckUpdate_balances fun r moves => ?_
    split
    · exact .ok (.idle moves)
    · exact .step fun _ _ => .step fun _ _ => .ok (setRetrieved_settles moves (getShareState_some found) _ _)

theorem ffaMemoryRetrieveContinue_settles {fragmentOffset : BitVec 32} :
    Post (ffaMemoryRetrieveContinue vm handle fragmentOffset s) fun r =>
      s.Settles r.2.2 vm.pages r.2.1.pages 0 := by
  have same : s.Settles s vm.pages vm.pages 0 := .unchanged s _
  rw [ffaMemoryRetrieveContinue]
  split
  · exact .ok same
  next found =>
  split
  · exact .ok same
  refine .step fun offset _ => .guard same fun _ => .ite (fun _ => .error) fun _ => .ok ?_
  exact setRetrieved_settles (.refl _ _) (getShareState_some found) _ _

theorem ffaMemoryRelinquish_settles {request : RelinquishRequest} :
    Post (ffaMemoryRelinquish vm request s) fun r => s.Settles r.2.2 vm.pages r.2.1.pages 0 := by
  have same : s.Settles s vm.pages vm.pages 0 := .unchanged s _
  refine .guard same fun _ => .guard same fun _ => ?_
  split
  · exact .ok same
  next i state found =>
  have held := getShareState_some found
  dsimp only
  split
  · exact .ok same
  refine .bind ffaRelinquishCheckUpdate_balances fun r moves => .ok ?_
  split
  · refine .store moves fun filled => ⟨filled i state held, ?_⟩
    rw [held, add_zero]
    rfl
  · exact .idle moves

theorem ffaMemoryReclaim_settles {flags : RegionFlags} :
    Post (ffaMemoryReclaim vm handle flags s) fun r => s.Settles r.2.2 vm.pages r.2.1.pages 0 := by
  rw [ffaMemoryReclaim]
  split
  · exact .ok (.unchanged s _)
  next found =>
  split
  · exact .ok (.unchanged s _)
  refine .bind ffaRetrieveCheckUpdate_balances fun r moves => .ok ?_
  split
  · refine .shareStateFree moves fun _ => ?_
    rw [getShareState_some found, add_zero]
    rfl
  · exact .idle moves

theorem ffaMemoryTeeReclaim_settles {buffer : Bytes} :
    Post (ffaMemoryTeeReclaim vm tee handle answers buffer s) fun r =>
      s.Settles r.2.2 vm.pages r.2.1.pages 0 := by
  refine .step fun _ _ => ?_
  split
  · exact .ok (.unchanged s _)
  · refine .step fun _ _ => .bind ffaTeeReclaimCheckUpdate_moves fun _ updated => .ok ?_
    exact .idle (updated.frame s.memory.pages)

end Return

end Hafnium.Ffa
