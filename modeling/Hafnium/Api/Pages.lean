import Hafnium.Api.Ownership
import Hafnium.Ffa.Pages

/-! # Conservation of descriptor pages

Over whole runs of the memory calls, no page is lost or duplicated. A page that a call has taken from
the pool for a descriptor or a fragment is afterwards in exactly one share state or back in the pool.
-/

namespace Hafnium.Api

open Mm Ffa Custody Partial

variable {m : MmConfig}

/-! ## All pages -/

@[irreducible]
def allVmIds : Finset VmId := (Finset.range (2 ^ 16)).image (BitVec.ofNat 16)

variable (id : VmId) {h' : Hyp m}

theorem mem_allVmIds : id ∈ allVmIds := by
  rw [allVmIds]
  exact Finset.mem_image.mpr ⟨id.toNat, Finset.mem_range.mpr id.isLt, BitVec.ofNat_toNat ..⟩

/-- The pages of a partition's tables, if there is one. -/
def vmPages (vm : Option (Vm m)) : Multiset PageNumber := vm.elim 0 Vm.pages

/-- The pages of the partitions' tables. -/
def Hyp.tablePages (h : Hyp m) : Multiset PageNumber := ∑ id ∈ allVmIds, vmPages (h.vms id)

/-- All pages that are free or in use. -/
def Hyp.pages (h : Hyp m) : Multiset PageNumber := h.sharing.pages + h.tablePages

variable {h : Hyp m} {page : PageNumber}

theorem Hyp.tablePages_setVm {vm vm' : Vm m} (found : h.vms vm'.id = some vm) :
    (h.setVm vm').tablePages + vm.pages = h.tablePages + vm'.pages := by
  obtain ⟨rest, before, after⟩ := sum_update (fun _ => vmPages) h.vms (mem_allVmIds vm'.id)
  have before : h.tablePages = vm.pages + rest := by
    rw [Hyp.tablePages, before, found]
    rfl
  have after : (h.setVm vm').tablePages = vm'.pages + rest := after (some vm')
  rw [before, after]
  abel

/-- The TEE's receive buffer may change as well. -/
theorem Hyp.tablePages_setVms {vm vm' tee tee' : Vm m} (caller : h.vms vm.id = some vm)
    (same : vm'.id = vm.id) (found : h.vms tee.id = some tee) (kept : Kept tee tee') :
    ((h.setVm tee').setVm vm').tablePages + vm.pages = h.tablePages + vm'.pages := by
  obtain ⟨mailbox, rfl⟩ := kept
  have moved : (h.setVm { tee with mailbox }).tablePages + tee.pages = h.tablePages +
      Vm.pages { tee with mailbox } :=
    Hyp.tablePages_setVm found
  have first : (h.setVm { tee with mailbox }).tablePages = h.tablePages := add_right_cancel moved
  rw [← first]
  by_cases isTee : vm.id = tee.id
  · cases (isTee ▸ caller).symm.trans found
    have here : (h.setVm { vm with mailbox }).vms vm'.id = some { vm with mailbox } := by
      rw [same]
      exact Function.update_self ..
    have second := Hyp.tablePages_setVm here
    exact second
  · refine Hyp.tablePages_setVm ?_
    rw [same]
    exact (Function.update_of_ne isTee ..).trans caller

/-! ## Calls -/

/-- What a call that takes pages `taken` for a descriptor does to all pages. -/
structure Hyp.Keeps (h h' : Hyp m) (taken : Multiset PageNumber) : Prop where
  conserved : ∀ n, h.sharing.Sound n → h'.sharing.Sound n ∧ h'.pages = h.pages
  back : ∀ n, h.sharing.Sound n → ∀ page ∈ h.sharing.shareStates.held + taken,
    page ∈ h'.sharing.shareStates.held ∨ page ∈ h'.sharing.pool.pages

section Calls

variable {vm vm' tee tee' : Vm m} {s : Sharing m} {pool : Mpool} {env : CallEnv}
  {ret : FfaValue} {call : MemCall} {fragmentLength length : BitVec 32} {handle : Handle}

theorem Hyp.Keeps.refl (h : Hyp m) : h.Keeps h 0 := by
  refine ⟨fun n sound => ⟨sound, rfl⟩, fun n _ page held => .inl ?_⟩
  rwa [add_zero] at held

/-- A call that is settled by one of the memory-sharing functions. -/
theorem Hyp.Keeps.of_settles {given : Sharing m} {taken : Multiset PageNumber} {h₁ : Hyp m}
    (takes : h.sharing.Moves given 0 taken) (same : given.shareStates = h.sharing.shareStates)
    (settles : given.Settles s vm.pages vm'.pages taken)
    (tables : h₁.tablePages + vm.pages = h.tablePages + vm'.pages) :
    h.Keeps { h₁ with sharing := s } taken := by
  refine ⟨fun n sound => ?_, fun n sound page held => ?_⟩
  · obtain ⟨sound₁, pages₁⟩ := takes n sound
    obtain ⟨sound₂, pages₂⟩ := settles.moves n sound₁
    refine ⟨sound₂, add_right_cancel (b := vm.pages) ?_⟩
    calc s.pages + h₁.tablePages + vm.pages = s.pages + vm'.pages + h.tablePages := by
          rw [add_assoc, tables]
          abel
      _ = given.pages + taken + vm.pages + h.tablePages := by
          rw [← pages₂]
          abel
      _ = h.sharing.pages + h.tablePages + vm.pages := by
          rw [← pages₁]
          abel
  · obtain ⟨freed, kept, inPool⟩ := settles.back n (takes n sound).1
    rw [← same, kept, Multiset.mem_add] at held
    exact held.imp_right (Multiset.mem_of_le inPool)

theorem Hyp.Keeps.setVm (caller : h.vms vm.id = some vm) (same : vm'.id = vm.id)
    (settles : h.sharing.Settles s vm.pages vm'.pages 0) : h.Keeps { h.setVm vm' with sharing := s } 0 :=
  .of_settles (.refl _ _) rfl settles (Hyp.tablePages_setVm (same ▸ caller))

theorem takes_of_mpoolAlloc (allocated : mpoolAlloc h.sharing.pool = some (page, pool)) :
    h.sharing.Moves { h.sharing with pool } 0 {page} :=
  (Sharing.Settles.idle ((mpoolAlloc_moves allocated).frame h.sharing.memory.pages)).moves

/-! ### Pages that are taken -/

/-- A call that takes a page, if there is one, to copy its message to. -/
def MemCall.copies (vm : Vm m) : MemCall → Bool
  | .send _ length fragmentLength address pageCount =>
    ¬(address ≠ 0 ∨ pageCount ≠ 0) ∧ ¬fragmentLength > length ∧ ¬fragmentLength < 48 ∧
      vm.mailbox.send.isSome ∧ ¬fragmentLength.toNat > hfMailboxSize
  | .fragTx _ fragmentLength senderVmId =>
    ¬senderVmId ≠ 0 ∧ vm.mailbox.send.isSome ∧ ¬fragmentLength.toNat > hfMailboxSize ∧
      ¬(fragmentLength.toNat < 16 ∨ fragmentLength.toNat % 16 ≠ 0)
  | .retrieveReq .. | .fragRx .. | .relinquish | .reclaim .. => false

/-- The page that a call takes from the pool for a descriptor or a fragment. -/
def Hyp.takenPage (h : Hyp m) (vm : Vm m) (call : MemCall) : Multiset PageNumber :=
  if call.copies vm then (mpoolAlloc h.sharing.pool).elim 0 fun taken => {taken.1} else 0

theorem Hyp.takenPage_of_not_copies (no : call.copies vm = false) : h.takenPage vm call = 0 := by
  rw [Hyp.takenPage, no]
  rfl

theorem Hyp.takenPage_of_copies (yes : call.copies vm = true)
    (allocated : mpoolAlloc h.sharing.pool = some (page, pool)) : h.takenPage vm call = {page} := by
  rw [Hyp.takenPage, if_pos yes, allocated]
  rfl

variable (wf : h.WellFormed) (caller : h.vms vm.id = some vm)
include wf caller

variable {func : ShareFunc} {address : BitVec 64} {pageCount : BitVec 32} {senderVmId : VmId}

omit wf caller in
/-- A call that is refused before it takes a page. -/
theorem Hyp.Keeps.notCopied (no : call.copies vm = false) : h.Keeps h (h.takenPage vm call) := by
  rw [Hyp.takenPage_of_not_copies no]
  exact .refl h

theorem apiFfaMemSend_keeps : Post (apiFfaMemSend h vm func length fragmentLength address pageCount
      env) fun r =>
      h.Keeps r.2 (h.takenPage vm (.send func length fragmentLength address pageCount)) := by
  refine .ite (fun registers => .ok (.notCopied (decide_eq_false fun ok => ok.1 registers)))
    fun registers => ?_
  refine .ite (fun long => .ok (.notCopied (decide_eq_false fun ok => ok.2.1 long))) fun long => ?_
  refine .ite (fun short => .ok (.notCopied (decide_eq_false fun ok => ok.2.2.1 short))) fun short => ?_
  split
  · next noBuffer => exact .ok (.notCopied (decide_eq_false fun ok => by simp [noBuffer] at ok))
  next message buffer =>
  refine .ite (fun large => .ok (.notCopied (decide_eq_false fun ok => ok.2.2.2.2 large))) fun fits => ?_
  have copies : MemCall.copies vm (.send func length fragmentLength address pageCount) = true :=
    decide_eq_true ⟨registers, long, short, by rw [buffer]; rfl, fits⟩
  split
  · next empty =>
    rw [Hyp.takenPage, if_pos copies, empty]
    exact .ok (.refl h)
  · next page pool allocated =>
    rw [Hyp.takenPage_of_copies copies allocated]
    dsimp only
    split
    · exact .ok (.of_settles (takes_of_mpoolAlloc allocated) rfl (.refuse (.unchanged _ vm.pages) page) rfl)
    · have takes := takes_of_mpoolAlloc allocated
      refine .ite (fun _ => .ite (fun _ => .error) fun _ => ?_) fun _ => .step fun ⟨ret, vm₁, s₁⟩
        sent => .ok ?_
      · split
        · exact .error
        next tee found =>
        refine .ite (fun _ => .error) fun _ => .guard ?_ fun _ => .step fun ⟨ret, vm₁, tee₁, s₁⟩
          sent => .ok ?_
        · exact .of_settles takes rfl (.refuse (.unchanged _ vm.pages) page) rfl
        · obtain ⟨effect, kept⟩ := ffaMemoryTeeSend_effect (wf caller) _ sent
          have found : h.vms tee.id = some tee := by rw [h.vmIds found, found]
          exact .of_settles takes rfl (ffaMemoryTeeSend_settles _ sent).1
            (Hyp.tablePages_setVms caller effect.id_eq found kept)
      · have same := (ffaMemorySend_effect (wf caller) _ sent).id_eq
        exact .of_settles takes rfl (ffaMemorySend_settles _ sent) (Hyp.tablePages_setVm (same ▸ caller))

theorem apiFfaMemFragTx_keeps : Post (apiFfaMemFragTx h vm handle fragmentLength senderVmId env) fun r =>
      h.Keeps r.2 (h.takenPage vm (.fragTx handle fragmentLength senderVmId)) := by
  refine .ite (fun sender => .ok (.notCopied (decide_eq_false fun ok => ok.1 sender))) fun sender => ?_
  split
  · next noBuffer => exact .ok (.notCopied (decide_eq_false fun ok => by simp [noBuffer] at ok))
  next message buffer =>
  refine .ite (fun large => .ok (.notCopied (decide_eq_false fun ok => ok.2.2.1 large))) fun fits => ?_
  refine .ite (fun ragged => .ok (.notCopied (decide_eq_false fun ok => ok.2.2.2 ragged))) fun whole => ?_
  have copies : MemCall.copies vm (.fragTx handle fragmentLength senderVmId) = true :=
    decide_eq_true ⟨sender, by rw [buffer]; rfl, fits, whole⟩
  split
  · next empty =>
    rw [Hyp.takenPage, if_pos copies, empty]
    exact .ok (.refl h)
  next page pool allocated =>
  rw [Hyp.takenPage_of_copies copies allocated]
  have takes := takes_of_mpoolAlloc allocated
  refine .ite (fun _ => .step fun ⟨ret, vm₁, s₁⟩ sent => .ok ?_) fun _ => ?_
  · have same := (ffaMemorySendContinue_effect (wf caller) _ sent).id_eq
    exact .of_settles takes rfl (ffaMemorySendContinue_settles _ sent) (Hyp.tablePages_setVm (same ▸ caller))
  · split
    · exact .error
    next tee found =>
    refine .step fun ⟨ret, vm₁, tee₁, s₁⟩ sent => .ok ?_
    obtain ⟨effect, kept⟩ := ffaMemoryTeeSendContinue_effect (wf caller) _ sent
    have found : h.vms tee.id = some tee := by rw [h.vmIds found, found]
    exact .of_settles takes rfl (ffaMemoryTeeSendContinue_settles _ sent).1
      (Hyp.tablePages_setVms caller effect.id_eq found kept)

theorem apiFfaMemRetrieveReq_keeps :
    Post (apiFfaMemRetrieveReq h vm length fragmentLength address pageCount env) fun r => h.Keeps r.2 0 := by
  refine .guard (.refl h) fun _ => .guard (.refl h) fun _ => .guard (.refl h) fun _ => ?_
  split
  · exact .ok (.refl h)
  · refine .guard (.refl h) fun _ => .step fun ⟨ret, vm₁, s₁⟩ retrieved => .ok ?_
    exact .setVm caller (ffaMemoryRetrieve_effect (wf caller) _ retrieved).id_eq
      (ffaMemoryRetrieve_settles _ retrieved)

theorem apiFfaMemRelinquish_keeps : Post (apiFfaMemRelinquish h vm env) fun r => h.Keeps r.2 0 := by
  rw [apiFfaMemRelinquish]
  split
  · exact .ok (.refl h)
  · refine .guard (.refl h) fun _ => .guard (.refl h) fun _ => .step fun r relinquished => .ok ?_
    exact .setVm caller (ffaMemoryRelinquish_effect (wf caller) _ relinquished).id_eq
      (ffaMemoryRelinquish_settles _ relinquished)

theorem apiFfaMemReclaim_keeps {flags : RegionFlags} :
    Post (apiFfaMemReclaim h vm handle flags env) fun r => h.Keeps r.2 0 := by
  refine .ite (fun _ => .step fun ⟨ret, vm₁, s₁⟩ reclaimed => .ok ?_) fun _ => ?_
  · exact .setVm caller (ffaMemoryReclaim_effect (wf caller) _ reclaimed).id_eq
      (ffaMemoryReclaim_settles _ reclaimed)
  · split
    · exact .error
    · refine .step fun ⟨ret, vm₁, s₁⟩ reclaimed => .ok ?_
      exact .setVm caller (ffaMemoryTeeReclaim_effect (wf caller) _ reclaimed).id_eq
        (ffaMemoryTeeReclaim_settles _ reclaimed)

theorem apiFfaMemFragRx_keeps {fragmentOffset : BitVec 32} :
    Post (apiFfaMemFragRx h vm handle fragmentOffset senderVmId) fun r => h.Keeps r.2 0 := by
  refine .guard (.refl h) fun _ => .guard (.refl h) fun _ => .step fun ⟨ret, vm₁, s₁⟩ fetched => .ok ?_
  exact .setVm caller (ffaMemoryRetrieveContinue_effect (wf caller) _ fetched).id_eq
    (ffaMemoryRetrieveContinue_settles _ fetched)

/-- No memory call loses or duplicates a page. -/
theorem apiMemCall_keeps (ran : apiMemCall h vm env call = .ok (ret, h')) :
    h.Keeps h' (h.takenPage vm call) := by
  cases call with
  | send => exact apiFfaMemSend_keeps wf caller _ ran
  | fragTx => exact apiFfaMemFragTx_keeps wf caller _ ran
  | retrieveReq => exact apiFfaMemRetrieveReq_keeps wf caller _ ran
  | fragRx => exact apiFfaMemFragRx_keeps wf caller _ ran
  | relinquish => exact apiFfaMemRelinquish_keeps wf caller _ ran
  | reclaim => exact apiFfaMemReclaim_keeps wf caller _ ran

end Calls

/-! ## Runs -/

/-- Runs of memory calls; between two calls the partitions may do anything with their buffers. The set
is that of the pages that were taken for a descriptor or a fragment and were not seen back in the pool
before the last call. -/
inductive MemRun (h₀ : Hyp m) : Set PageNumber → Hyp m → Prop
  | start : MemRun h₀ ∅ h₀
  | buffers {taken : Set PageNumber} {h h' : Hyp m} (run : MemRun h₀ taken h)
      (vms : ∀ id, Option.Rel Kept (h.vms id) (h'.vms id)) (sharing : h'.sharing = h.sharing) :
        MemRun h₀ taken h'
  | call {taken : Set PageNumber} {h h' : Hyp m} {vm : Vm m} {env : CallEnv} {call : MemCall} {ret : FfaValue}
      (run : MemRun h₀ taken h) (caller : h.vms vm.id = some vm)
        (returned : apiMemCall h vm env call = .ok (ret, h')) :
      MemRun h₀ ({ page ∈ taken | page ∉ h.sharing.pool.pages } ∪ { page | page ∈ h.takenPage vm call }) h'

/-- A page is in the pool exactly once and in no share state. -/
def Hyp.Free (h : Hyp m) (page : PageNumber) : Prop :=
  h.sharing.pool.pages.count page = 1 ∧ ∀ i, page ∉ slotPages (h.sharing.shareStates i)

/-- A page is in exactly one share state and not in the pool. -/
def Hyp.Stored (h : Hyp m) (page : PageNumber) : Prop :=
  page ∉ h.sharing.pool.pages ∧ ∃! i, page ∈ slotPages (h.sharing.shareStates i)

/-- If all pages are distinct, a free one is free once and not in use. -/
theorem Hyp.free_of_mem (distinct : h.pages.Nodup) (inPool : page ∈ h.sharing.pool.pages) : h.Free page := by
  have all : h.pages = h.sharing.pool.pages +
      (h.sharing.memory.pages + h.sharing.shareStates.held + h.tablePages) :=
    add_assoc ..
  rw [all, Multiset.nodup_add] at distinct
  obtain ⟨once, -, apart⟩ := distinct
  refine ⟨Multiset.count_eq_one_of_mem once inPool, fun i stored => ?_⟩
  have held : page ∈ h.sharing.shareStates.held := Multiset.mem_sum.mpr ⟨i, Finset.mem_univ i, stored⟩
  have inUse : page ∈ h.sharing.memory.pages + h.sharing.shareStates.held + h.tablePages := by
    rw [Multiset.mem_add, Multiset.mem_add]
    exact .inl (.inr held)
  exact Multiset.disjoint_left.mp apart inPool inUse

/-- If all pages are distinct, one of a share state is in no other one and not free. -/
theorem Hyp.stored_of_mem (distinct : h.pages.Nodup) (held : page ∈ h.sharing.shareStates.held) :
    h.Stored page := by
  obtain ⟨i, -, stored⟩ := Multiset.mem_sum.mp held
  refine ⟨fun inPool => (Hyp.free_of_mem distinct inPool).2 i stored, i, stored, fun j again => ?_⟩
  by_contra other
  have part : h.sharing.shareStates.held ≤ h.pages := by
    rw [Hyp.pages, Sharing.pages, ← add_assoc]
    exact (Multiset.le_add_left _ _).trans (Multiset.le_add_right _ _)
  have twice := Multiset.nodup_of_le part distinct
  rw [ShareStates.held, ← Finset.add_sum_erase _ _ (Finset.mem_univ i), Multiset.nodup_add] at twice
  have rest : page ∈ ∑ k ∈ Finset.univ.erase i, slotPages (h.sharing.shareStates k) :=
    Multiset.mem_sum.mpr ⟨j, Finset.mem_erase.mpr ⟨other, Finset.mem_univ j⟩, again⟩
  exact Multiset.disjoint_left.mp twice.2.2 stored rest

section Runs

variable {h₀ : Hyp m} {taken : Set PageNumber} {n : Nat}

/-- What partitions do with their buffers does not change their tables. -/
theorem vmPages_of_kept {before after : Option (Vm m)} (kept : Option.Rel Kept before after) :
    vmPages after = vmPages before := by
  cases kept with
  | none => rfl
  | some kept =>
    obtain ⟨mailbox, rfl⟩ := kept
    rfl

theorem Hyp.WellFormed.buffers (wf : h.WellFormed)
    (vms : ∀ id, Option.Rel Kept (h.vms id) (h'.vms id)) : h'.WellFormed := by
  intro id vm found
  have kept := vms id
  rw [found] at kept
  cases before : h.vms id with
  | none =>
    rw [before] at kept
    cases kept
  | some vm₀ =>
    rw [before] at kept
    cases kept with
    | some kept =>
      obtain ⟨mailbox, rfl⟩ := kept
      have table : vm₀.WellFormed := wf before
      exact table

/-- The invariant of runs. -/
structure Hyp.Accounted (h₀ : Hyp m) (n : Nat) (taken : Set PageNumber) (h : Hyp m) : Prop where
  wellFormed : h.WellFormed
  sound : h.sharing.Sound n
  conserved : h.pages = h₀.pages
  found : ∀ page ∈ taken, page ∈ h.sharing.shareStates.held ∨ page ∈ h.sharing.pool.pages

theorem MemRun.accounted (wf : h₀.WellFormed) (sound : h₀.sharing.Sound n) (run : MemRun h₀ taken h) :
    h₀.Accounted n taken h := by
  induction run with
  | start => exact ⟨wf, sound, rfl, fun page none => none.elim⟩
  | @buffers taken h h' run vms sharing ih =>
    refine ⟨Hyp.WellFormed.buffers ih.wellFormed vms, sharing ▸ ih.sound, ?_, sharing ▸ ih.found⟩
    have tables : h'.tablePages = h.tablePages := Finset.sum_congr rfl fun id _ => vmPages_of_kept (vms id)
    rw [Hyp.pages, sharing, tables]
    exact ih.conserved
  | @call taken h h' vm env call ret run caller ran ih =>
    have keeps := apiMemCall_keeps ih.wellFormed caller ran
    obtain ⟨vm', changed, view, becomes, -⟩ := apiMemCall_effect ih.wellFormed caller ran
    obtain ⟨sound', same⟩ := keeps.conserved n ih.sound
    refine ⟨changed.wellFormed becomes.wellFormed, sound', same.trans ih.conserved, ?_⟩
    rintro page (⟨before, gone⟩ | new)
    · have held := (ih.found page before).resolve_right gone
      exact keeps.back n ih.sound page (Multiset.mem_add.mpr (.inl held))
    · exact keeps.back n ih.sound page (Multiset.mem_add.mpr (.inr new))

/-- In every run of memory calls no page is lost or duplicated, and each page that was taken for a
descriptor or a fragment is back in the pool exactly once or in exactly one share state, never both. -/
theorem descriptor_pages_conserved (wf : h₀.WellFormed) (sound : h₀.sharing.Sound n)
    (distinct : h₀.pages.Nodup) (run : MemRun h₀ taken h) :
    h.pages = h₀.pages ∧ ∀ page ∈ taken, h.Free page ∨ h.Stored page := by
  have accounts := run.accounted wf sound
  have distinct : h.pages.Nodup := by
    rw [accounts.conserved]
    exact distinct
  refine ⟨accounts.conserved, fun page member => ?_⟩
  rcases accounts.found page member with held | inPool
  · exact .inr (Hyp.stored_of_mem distinct held)
  · exact .inl (Hyp.free_of_mem distinct inPool)

/-! ### A run -/

theorem attrsVm_pages (block : Nat) (attrs : PteBits) (send : Option Bytes) :
    (attrsVm id block attrs send).pages = 0 := by
  refine MmPtable.pages_of_leaves fun i j => ?_
  rw [attrsVm, blockTable]
  dsimp only
  split
  · rfl
  · rfl

variable (message : Bytes)

/-- The tables of the two partitions are root tables. -/
theorem twoPartitions_pages : (twoPartitions message).pages =
      ([10, 11, 12, 13, 14, 15] : List PageNumber) := by
  have tables : (twoPartitions message).tablePages = 0 := by
    refine Finset.sum_eq_zero fun id _ => ?_
    cases found : (twoPartitions message).vms id with
    | none => rfl
    | some vm =>
      rcases partitions_cases found with ⟨-, rfl⟩ | ⟨-, rfl⟩
      all_goals exact attrsVm_pages ..
  have states : (twoPartitions message).sharing.shareStates.held = 0 := Finset.sum_eq_zero fun _ _ => rfl
  have memory : (twoPartitions message).sharing.memory.pages = 0 := MmPtable.pages_of_leaves fun _ _ => rfl
  rw [Hyp.pages, Sharing.pages, tables, states, memory]
  rfl

theorem twoPartitions_sound : (twoPartitions message).sharing.Sound 0 := by
  refine ⟨⟨rfl, List.forall_mem_cons.mpr ⟨nofun, nofun⟩⟩, fun i state held => ?_⟩
  cases held

/-- Partition 1 shares a page of its own; the page for the descriptor is in a share state then. -/
theorem descriptor_pages_own_page :
    let h := twoPartitions shareOwnPage
    ∃ taken h', MemRun h taken h' ∧ 10 ∈ taken ∧ h'.pages = h.pages ∧ h'.Stored 10 := by
  have run : returnsWith ffaSuccess32 shareOwn (fun h => decide (10 ∉ h.sharing.pool.pages)) = true := by
    decide +kernel
  obtain ⟨ret, h', returned, -, gone⟩ := returnsWith_iff.mp run
  have steps : MemRun (twoPartitions shareOwnPage) _ h' := .call .start rfl returned
  have taken : 10 ∈ (twoPartitions shareOwnPage).takenPage (blockVm 1 0 (some shareOwnPage))
      (.send .share 80 80 0 0) := by
    decide +kernel
  have distinct : (twoPartitions shareOwnPage).pages.Nodup := by
    rw [twoPartitions_pages]
    decide
  obtain ⟨conserved, kept⟩ := descriptor_pages_conserved (twoPartitions_wellFormed _)
    (twoPartitions_sound _) distinct steps
  refine ⟨_, h', steps, .inr taken, conserved, (kept 10 (.inr taken)).resolve_left fun free => ?_⟩
  exact of_decide_eq_true gone (Multiset.one_le_count_iff_mem.mp free.1.ge)

end Runs

end Hafnium.Api
