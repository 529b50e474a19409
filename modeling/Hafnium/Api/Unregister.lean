import Hafnium.Api.BufferIsolation
import Hafnium.Ffa.Atomicity
import Hafnium.Mm.PageCost

/-! # Giving buffers back

FFA_RXTX_UNMAP maps the two pages of a partition in one fixed mode and removes them from the tables
of the partition manager, whatever they were before FFA_RXTX_MAP. So it undoes the registration
exactly for pages that had this mode and that the manager had not mapped. Each of the mappings must
succeed; they do if the pool can pay for the blocks that defragmentation has merged since.
-/

namespace Hafnium.Mm

variable {c : StageConfig} {addr page : Nat}

/-- A page of the address space. -/
structure PageOf (c : StageConfig) (page : Nat) : Prop where
  aligned : page % pageSize = 0
  inside : page + pageSize ≤ mmPtableAddrSpaceEnd c

theorem PageOf.mapBegin (isPage : PageOf c page) : mmMapBegin page = page := by
  have inside := isPage.inside
  have space : mmPtableAddrSpaceEnd c ≤ 2 ^ 48 := c.space_le
  exact mmMapBegin_of_page isPage.aligned (by simp only [pageSize] at inside; omega)

theorem PageOf.mapEnd (isPage : PageOf c page) : mmMapEnd c (page + pageSize) = page + pageSize := by
  refine mmMapEnd_of_page ?_ isPage.inside
  have aligned := isPage.aligned
  simp only [pageSize] at aligned ⊢
  omega

/-- What the hardware finds for an address: the entry of the walk, if it is valid. -/
def MmPtable.resolve {c : StageConfig} (t : MmPtable c) (addr : Nat) : Option (Nat × PteBits) :=
  (t.lookup addr).filter fun entry => decide (entry.2 &&& pteValid ≠ 0)

variable {t : MmPtable c}

/-- Pages without attributes do not translate. -/
theorem MmPtable.resolve_absent (wf : t.WellFormed)
    (inside : addr < mmPtableAddrSpaceEnd c) (absent : t.attrsAt addr = 0) : t.resolve addr = none := by
  rw [MmPtable.resolve, MmPtable.lookup_eq wf inside, if_pos absent]
  rfl

/-- Every address space is part of that of the partition manager. -/
theorem spaceEnd_le_stage1 (m : MmConfig) (stage : Stage) :
    mmPtableAddrSpaceEnd (m.levels stage) ≤ mmPtableAddrSpaceEnd (m.levels .stage1) := by
  have supported := m.pa.supported
  simp only [mmPtableAddrSpaceEnd, MmConfig.levels, MmConfig.mmMaxLevel, MmConfig.mmRootTableCount,
    PaSize.bits]
  generalize m.pa.range = range at supported
  cases stage
  all_goals
    revert range
    decide

theorem PageOf.stage1 {m : MmConfig} {stage : Stage} (isPage : PageOf (m.levels stage) page) :
    PageOf (m.levels .stage1) page :=
  ⟨isPage.aligned, isPage.inside.trans (spaceEnd_le_stage1 m stage)⟩

end Hafnium.Mm

namespace Hafnium.Api

open Mm Ffa Relation Partial

variable {m : MmConfig} {stage : Stage} {c : StageConfig} {addr page : Nat}

/-! ## Single pages -/

/-- The addresses of a page. -/
def OnPage (page addr : Nat) : Prop := page ≤ addr ∧ addr < page + pageSize

instance (page addr : Nat) : Decidable (OnPage page addr) := inferInstanceAs (Decidable (_ ∧ _))

/-- The addresses of a pair of buffers. -/
def OnPair (send recv addr : Nat) : Prop := OnPage send addr ∨ OnPage recv addr

instance (send recv addr : Nat) : Decidable (OnPair send recv addr) := inferInstanceAs (Decidable (_ ∨ _))

theorem bufferEnd_eq (isPage : PageOf c page) : bufferEnd page = page + pageSize := by
  have inside := isPage.inside
  have space : mmPtableAddrSpaceEnd c ≤ 2 ^ 48 := c.space_le
  exact Nat.mod_eq_of_lt (by simp only [hfMailboxSize, pageSize] at *; omega)

variable {mode : Mode} {pool : Mpool} {begin_ end_ send recv : Nat} {e : Endpoint m}
  {memory memory' : HypMemory m} {attrs : PteBits} {pool' : Mpool}

section Page

/-- An update of a page takes effect on the page, or on nothing. -/
theorem stageIdentityMap_page {t : MmPtable (m.levels stage)} (wf : t.WellFormed)
    (isPage : PageOf (m.levels stage) page) (mode : Mode) (pool : Mpool) :
    ∃ r, stageIdentityMap t page (bufferEnd page) mode pool = some r ∧ r.value.WellFormed ∧
      ∀ addr < mmPtableAddrSpaceEnd (m.levels stage),
        r.value.attrsAt addr =
          if r.ok = true ∧ OnPage page addr then m.mappedAttrs stage mode else t.attrsAt addr := by
  obtain ⟨r, mapped, rWf, success, failure⟩ := stageIdentityMap_spec wf page (bufferEnd page) mode pool
  refine ⟨r, mapped, rWf, fun addr inside => ?_⟩
  cases ok : r.ok with
  | true =>
    rw [success ok addr inside, bufferEnd_eq isPage, isPage.mapBegin, isPage.mapEnd]
    simp only [OnPage, true_and]
  | false =>
    rw [failure ok addr inside, if_neg]
    rintro ⟨absurd, -⟩
    cases absurd

variable {vm : Vm m}

theorem vmIdentityMap_of_stage {r : Updated (MmPtable (m.levels vm.stage))}
    (mapped : stageIdentityMap vm.ptable begin_ end_ mode pool = some r) :
    vmIdentityMap vm begin_ end_ mode pool = .ok ⟨r.ok, { vm with ptable := r.value }, r.state⟩ := by
  have unfolded : stageIdentityMap vm.ptable begin_ end_ mode pool =
      if (vmIdentityPrepare vm begin_ end_ mode pool).ok then
        (stageIdentityCommit (vmIdentityPrepare vm begin_ end_ mode pool).value.ptable begin_ end_ mode
          (vmIdentityPrepare vm begin_ end_ mode pool).state).map fun (t, pool) => ⟨true, t, pool⟩
      else some (stageIdentityPrepare vm.ptable begin_ end_ mode pool) := rfl
  rw [unfolded] at mapped
  rw [vmIdentityMap]
  split at mapped
  · next ok =>
    obtain ⟨⟨t, pool'⟩, committed, rfl⟩ := Option.map_eq_some_iff.mp mapped
    rw [if_pos ok, vmIdentityCommit, committed]
    rfl
  · next failed =>
    cases mapped
    rw [if_neg failed]
    rfl

/-- `CHECK(vm_identity_map(...))` of a page. -/
theorem remap_page {e' : Endpoint m} (wf : e.vm.WellFormed) (isPage : PageOf (m.levels e.vm.stage) page)
    (ran : remap e page (bufferEnd page) mode pool = .ok (e', pool')) :
    ∃ t, e' = { e with vm := { e.vm with ptable := t } } ∧ t.WellFormed ∧
      ∀ addr < e.vm.spaceEnd, t.attrsAt addr =
        if OnPage page addr then e.vm.mappedAttrs mode else e.vm.attrsAt addr := by
  obtain ⟨r, mapped, rWf, attrs⟩ := stageIdentityMap_page wf isPage mode pool
  simp only [remap, vmIdentityMap_of_stage mapped, bind_ok_iff, Except.ok.injEq, exists_eq_left'] at ran
  split at ran
  · next ok =>
    cases ran
    refine ⟨r.value, rfl, rWf, fun addr inside => ?_⟩
    have here := attrs addr inside
    simp only [ok, true_and] at here
    exact here
  · cases ran

/-- `CHECK(mm_unmap(...))` of a page. -/
theorem unmapStage1_page (wf : memory.stage1.WellFormed) (isPage : PageOf (m.levels .stage1) page)
    (ran : unmapStage1 memory page (bufferEnd page) pool = .ok (memory', pool')) :
    memory'.stage1.WellFormed ∧ ∀ addr < mmPtableAddrSpaceEnd (m.levels .stage1),
      memory'.stage1.attrsAt addr = if OnPage page addr then 0 else memory.stage1.attrsAt addr := by
  obtain ⟨r, mapped, rWf, attrs⟩ := stageIdentityMap_page wf isPage mmModeUnmappedMask pool
  simp only [unmapStage1, mmIdentityMap, mapped, bind_ok_iff, Except.ok.injEq, exists_eq_left'] at ran
  cases ok : r.ok with
  | false => simp [ok] at ran
  | true =>
    rw [ok, if_pos rfl] at ran
    split at ran
    · cases ran
      refine ⟨rWf, fun addr inside => ?_⟩
      have here := attrs addr inside
      simp only [ok, true_and] at here
      exact here
    · cases ran

/-- A page that a partition may register lies in its address space and has one mode. -/
theorem bufferMode_page {rights : List Mode} (aligned : page % pageSize = 0)
    (found : bufferMode vm page rights = some mode) :
    PageOf (m.levels vm.stage) page ∧ (∀ addr, OnPage page addr → vm.modeAt addr = mode) ∧
      apiModeValidOwnedAndExclusive mode = true := by
  simp only [bufferMode, Option.filter_eq_some_iff, Bool.and_eq_true] at found
  obtain ⟨found, valid, -⟩ := found
  simp only [vmMemGetMode, stageGetMode, Option.map_eq_some_iff] at found
  obtain ⟨attrs, found, rfl⟩ := found
  obtain ⟨inside, nonempty, values⟩ := (mmGetAttrs_iff ..).mp found
  have ends : bufferEnd page % pageSize = 0 := by
    simp only [bufferEnd, hfMailboxSize, pageSize] at aligned ⊢
    omega
  rw [mmRoundDownToPage_of_page aligned,
    mmRoundUpToPage_of_page ends (Nat.mod_lt _ (by decide))] at nonempty values
  rw [mmRoundUpToPage_of_page ends (Nat.mod_lt _ (by decide))] at inside
  have ends : bufferEnd page = page + pageSize := by
    simp only [bufferEnd, hfMailboxSize, pageSize] at nonempty ⊢
    omega
  rw [ends] at inside values
  refine ⟨⟨aligned, inside⟩, fun addr on => ?_, valid⟩
  rw [Vm.modeAt, Vm.attrsAt, values addr on.1 on.2]
  rfl

end Page

/-! ## Undoing a registration -/

section Admissible

variable {pageCount : BitVec 32}

/-- The arguments pass the checks that need no table. -/
structure Admissible (e : Endpoint m) (send recv : Nat) (pageCount : BitVec 32) : Prop where
  unset : e.send = 0 ∧ e.recv = 0
  single : pageCount = 1
  aligned : send % pageSize = 0 ∧ recv % pageSize = 0
  distinct : send ≠ recv

/-- The attributes that the manager's mappings of the buffers get besides their rights. -/
def extraAttributes (vm : Vm m) : Mode :=
  archMmExtraAttributesFromVm vm.id ||| if vm.el0Partition then mmModeNg else 0

theorem apiVmConfigurePages_refused (refused : ¬Admissible e send recv pageCount)
    (memory : HypMemory m) (pool : Mpool) :
    ∃ error, apiVmConfigurePages e memory send recv pageCount pool = .ok (.error error, e, memory, pool) := by
  rw [apiVmConfigurePages]
  split
  · exact ⟨_, rfl⟩
  · next unset =>
    split
    · exact ⟨_, rfl⟩
    · next single =>
      split
      · exact ⟨_, rfl⟩
      · next aligned =>
        split
        · exact ⟨_, rfl⟩
        · next distinct =>
          simp only [not_or, not_not] at unset single aligned
          exact absurd ⟨unset, single, aligned, distinct⟩ refused

/-- An admissible registration takes the pages and goes on with the manager's table. -/
theorem apiVmConfigurePages_admitted (admissible : Admissible e send recv pageCount) :
    apiVmConfigurePages e memory send recv pageCount pool = (do
      let (orig, e, pool) ← takeBuffers e send recv pool
      match orig with
      | .error error => .ok (.error error, e, memory, pool)
      | .ok orig => do
        let (mapped, e, memory, pool) ← apiVmConfigureStage1 e memory send recv (extraAttributes e.vm) pool
        if mapped then .ok (.ok (), e, memory, pool)
        else do
          let (e, pool) ← giveBackBuffers e send recv orig pool
          .ok (.error .noMemory, e, memory, pool)) := by
  rw [apiVmConfigurePages, if_neg (by simp [admissible.unset]), if_neg (by simp [admissible.single]),
    if_neg (by simp [admissible.aligned]), if_neg admissible.distinct]
  rfl

end Admissible

section Current

variable {s s' : Manager m} {vm : Endpoint m} (current : vmIdIsCurrentWorld m vm.vm.id = true)
  (held : s.vms vm.vm.id = some vm)
include current

variable {pageCount : BitVec 32} {answer : FfaValue}

/-- A partition of this world only gets buffers registered that it may register. -/
theorem apiVmConfigurePages_accepts
    {vm' : Endpoint m} (ran : apiVmConfigurePages vm memory send recv pageCount pool = .ok (.ok (),
      vm', memory', pool')) :
    Admissible vm send recv pageCount ∧ send ≠ 0 ∧ PageOf (m.levels vm.vm.stage) send ∧
      PageOf (m.levels vm.vm.stage) recv := by
  by_cases admissible : Admissible vm send recv pageCount
  · rw [apiVmConfigurePages_admitted admissible] at ran
    obtain ⟨⟨orig, e, pool₁⟩, taken, ran⟩ := bind_ok_iff.mp ran
    obtain ⟨vm₁, rfl, -⟩ := takeBuffers_ok _ taken
    cases orig with
    | error error => cases ran
    | ok orig =>
      obtain ⟨⟨mapped, e', memory₁, pool₂⟩, configured, ran⟩ := bind_ok_iff.mp ran
      obtain ⟨-, notNull, -⟩ := apiVmConfigureStage1_ok
        (show ({ vm with vm := vm₁ } : Endpoint m).recv = 0 from admissible.unset.2) _ configured
      cases mapped with
      | false =>
        obtain ⟨_, -, ran⟩ := bind_ok_iff.mp ran
        cases ran
      | true =>
        refine ⟨admissible, (notNull rfl).1, ?_⟩
        rw [takeBuffers, if_neg (by rw [current]; exact Bool.false_ne_true.symm)] at taken
        split at taken
        · next sendFound recvFound =>
          exact ⟨(bufferMode_page admissible.aligned.1 sendFound).1,
            (bufferMode_page admissible.aligned.2 recvFound).1⟩
        · cases taken
  · obtain ⟨error, refused⟩ := apiVmConfigurePages_refused admissible memory pool
    cases refused.symm.trans ran

include held

variable {ret : FfaValue}

/-- What FFA_RXTX_MAP leaves behind for a partition of this world. -/
theorem apiFfaRxtxMap_registers {send recv : BitVec 64}
    (ran : apiFfaRxtxMap s vm send recv pageCount answer = .ok (ret, s'))
    (success : ret.func = ffaSuccess32) :
    ∃ e, s'.vms vm.vm.id = some e ∧ e.send = send.toNat ∧ e.recv = recv.toNat ∧ e.send ≠ 0 ∧ e.recv ≠ 0 ∧
      PageOf (m.levels vm.vm.stage) send.toNat ∧ PageOf (m.levels vm.vm.stage) recv.toNat ∧
      vm.vm.ChangesWithin (PairTouches send.toNat recv.toNat) e.vm ∧
      (s.memory.stage1.WellFormed →
        s.memory.stage1.ChangesWithin (PairTouches send.toNat recv.toNat) s'.memory.stage1) ∧
      Admissible vm send.toNat recv.toNat pageCount := by
  have described : apiGetRxtxDescription s.memory vm send recv pageCount =
      .ok ⟨send, recv, pageCount, vm.vm.id⟩ :=
    if_neg fun other => vmIdIsCurrentWorld_ne current other.1
  have found : platFfaVmFindLockedCreate s vm.vm.id = some (.vm vm.vm.id, vm) := by
    rw [platFfaVmFindLockedCreate, if_pos (.inl current), vmFindLocked, held]
    rfl
  simp only [apiFfaRxtxMap, described, found, bind_ok_iff, Except.ok.injEq, exists_eq_left'] at ran
  obtain ⟨⟨result, e, memory, pool⟩, configured, ran⟩ := ran
  obtain ⟨changes, vm', table, outcome⟩ := apiVmConfigurePages_ok _ configured
  rcases outcome with ⟨error, rfl, -, -⟩ | ⟨rfl, -, -, recvSet, -, -, rfl⟩
  · cases ran
    cases success
  · obtain ⟨admissible, sendSet, sendPage, recvPage⟩ := apiVmConfigurePages_accepts current configured
    simp only [bind_ok_iff] at ran
    obtain ⟨memory', forwarded, ran⟩ := ran
    cases ran
    have sameStage1 : memory'.stage1 = memory.stage1 := platFfaRxtxMapForward_stage1 forwarded
    refine ⟨{ vm with vm := vm', send := send.toNat, recv := recv.toNat }, ?_, rfl, rfl, sendSet,
      recvSet, sendPage, recvPage, table, sameStage1 ▸ changes.stage1, admissible⟩
    rw [← table.id_eq]
    exact Function.update_self ..

/-- What FFA_RXTX_UNMAP leaves behind for a partition of this world. -/
theorem apiFfaRxtxUnmap_returns (wf : vm.vm.WellFormed) (stage1 : s.memory.stage1.WellFormed)
    (sendPage : PageOf (m.levels vm.vm.stage) vm.send) (recvPage : PageOf (m.levels vm.vm.stage) vm.recv)
    (ran : apiFfaRxtxUnmap s vm 0 answer = .ok (ret, s')) (success : ret.func = ffaSuccess32) :
    ∃ e t, s'.vms vm.vm.id = some e ∧ e.vm = { vm.vm with ptable := t } ∧
      (∀ addr < vm.vm.spaceEnd, t.attrsAt addr =
        if OnPair vm.send vm.recv addr then
          vm.vm.mappedAttrs (mmModeR ||| mmModeW ||| mmModeX)
        else vm.vm.attrsAt addr) ∧
      s'.memory.stage1.WellFormed ∧ ∀ addr < mmPtableAddrSpaceEnd (m.levels .stage1),
        s'.memory.stage1.attrsAt addr =
        if OnPair vm.send vm.recv addr then 0 else s.memory.stage1.attrsAt addr := by
  have owner : unmapOwner vm 0 = vm.vm.id := rfl
  have found : platFfaVmFindLocked s vm.vm.id = some (.vm vm.vm.id, vm) := by
    rw [platFfaVmFindLocked, if_pos (.inl current), vmFindLocked, held]
    rfl
  rw [apiFfaRxtxUnmap, if_neg (fun refused => refused.2 rfl), owner, found] at ran
  dsimp only at ran
  split at ran
  · cases ran
    cases success
  · simp only [bind_ok_iff] at ran
    obtain ⟨⟨e, pool⟩, given, ⟨memory₁, pool₁⟩, sendUnmapped, ⟨memory₂, pool₂⟩, recvUnmapped, ⟨⟩, -,
        ran⟩ := ran
    cases ran
    rw [returnBuffers, if_neg (by rw [current]; exact Bool.false_ne_true.symm)] at given
    simp only [bind_ok_iff] at given
    obtain ⟨⟨e₁, pool₃⟩, sendBack, recvBack⟩ := given
    obtain ⟨t₁, rfl, wf₁, attrs₁⟩ := remap_page wf sendPage sendBack
    let e₁ : Endpoint m := { vm with vm := { vm.vm with ptable := t₁ } }
    obtain ⟨t₂, rfl, -, attrs₂⟩ := remap_page (show e₁.vm.WellFormed from wf₁) recvPage recvBack
    obtain ⟨stage₁, unmapped₁⟩ := unmapStage1_page stage1 sendPage.stage1 sendUnmapped
    obtain ⟨stage₂, unmapped₂⟩ := unmapStage1_page stage₁ recvPage.stage1 recvUnmapped
    have kept : platFfaVmDestroy
        ({ vm with vm := { vm.vm with ptable := t₂ }, send := 0, recv := 0 } : Endpoint m) =
        { vm with vm := { vm.vm with ptable := t₂ }, send := 0, recv := 0 } := if_neg fun freed => by
      have other : vmIdIsCurrentWorld m vm.vm.id = false := freed.2.1
      rw [current] at other
      cases other
    refine ⟨{ vm with vm := { vm.vm with ptable := t₂ }, send := 0, recv := 0 }, t₂, ?_, rfl,
      fun addr inside => ?_, stage₂, fun addr inside => ?_⟩
    · rw [kept]
      exact Function.update_self ..
    · rw [attrs₂ addr inside]
      have first := attrs₁ addr inside
      by_cases onRecv : OnPage vm.recv addr
      · rw [if_pos onRecv, if_pos (.inr onRecv)]
        rfl
      · rw [if_neg onRecv]
        exact first.trans (by simp only [OnPair, onRecv, or_false])
    · rw [unmapped₂ addr inside, unmapped₁ addr inside]
      by_cases onRecv : OnPage vm.recv addr
      · rw [if_pos onRecv, if_pos (.inr onRecv)]
      · simp only [OnPair, onRecv, if_false, or_false]

end Current

/-- The mode that a partition gets its pages back with is read back as it was written. -/
theorem mappedAttrs_default (vm : Vm m) :
    m.attrsToMode vm.stage (vm.mappedAttrs (mmModeR ||| mmModeW ||| mmModeX)) =
      mmModeR ||| mmModeW ||| mmModeX := by
  have mapped : ¬(mmModeR ||| mmModeW ||| mmModeX).IsUnmapped := by decide
  rw [Vm.mappedAttrs, MmConfig.mappedAttrs, if_neg mapped]
  cases vm.stage with
  | stage1 =>
    simp only [MmConfig.attrsToMode, MmConfig.modeToAttrs, archMmStage1AttrsToMode_of_mode, stage1ModeMask]
    cases m.features.hasVheSupport <;> cases m.features.secureWorld <;> rfl
  | stage2 => exact archMmStage2AttrsToMode_of_mode _

/-- The addresses that mapping a pair of pages reaches are those of the pages. -/
theorem pairTouches_iff (sendPage : PageOf c send) (recvPage : PageOf c recv) (addr : Nat) :
    PairTouches send recv addr ↔ OnPair send recv addr := by
  have space : mmPtableAddrSpaceEnd c ≤ 2 ^ 48 := c.space_le
  rw [PairTouches, BufferTouches, BufferTouches, bufferEnd_eq sendPage, bufferEnd_eq recvPage,
    touches_page sendPage.aligned (sendPage.inside.trans space),
    touches_page recvPage.aligned (recvPage.inside.trans space)]
  rfl

theorem OnPair.lt (sendPage : PageOf c send) (recvPage : PageOf c recv)
    (on : OnPair send recv addr) : addr < mmPtableAddrSpaceEnd c := by
  rcases on with on | on
  · exact Nat.lt_of_lt_of_le on.2 sendPage.inside
  · exact Nat.lt_of_lt_of_le on.2 recvPage.inside

/-- Calls that change no table: the partition still has its buffers, only the state of its mailbox and
the free pages may be others. -/
structure Manager.Idle (id : VmId) (s s' : Manager m) : Prop where
  stage1 : s'.memory.stage1 = s.memory.stage1
  buffers : ∀ e, s.vms id = some e →
    ∃ e' mailbox, s'.vms id = some e' ∧ e'.vm = { e.vm with mailbox } ∧ e'.send = e.send ∧ e'.recv = e.recv

/-- The partition has its pages back as they were, and nothing else has changed. -/
structure Undone (send recv : Nat) (vm vm' : Vm m) (t t' : MmPtable (m.levels .stage1)) : Prop where
  pages : ∀ addr, OnPair send recv addr → vm'.modeAt addr = vm.modeAt addr
  others : ∀ addr < vm.spaceEnd, ¬OnPair send recv addr → vm'.attrsAt addr = vm.attrsAt addr
  stage1 : ∀ addr < mmPtableAddrSpaceEnd (m.levels .stage1), t'.resolve addr = t.resolve addr

/-- FFA_RXTX_UNMAP undoes FFA_RXTX_MAP for pages that had all rights and no other attribute, and that the
partition manager had not mapped, and for no other pages. -/
theorem rxtxUnmap_undoes_rxtxMap_iff {s s₁ s₁' s₂ : Manager m} {vm vm₁ : Endpoint m}
    (current : vmIdIsCurrentWorld m vm.vm.id = true) (held : s.vms vm.vm.id = some vm)
    (wf : vm.vm.WellFormed) (stage1 : s.memory.stage1.WellFormed) {send recv : BitVec 64}
    {pageCount : BitVec 32} {answer answer' ret ret' : FfaValue}
    (mapped : apiFfaRxtxMap s vm send recv pageCount answer = .ok (ret, s₁))
    (success : ret.func = ffaSuccess32) (idle : s₁.Idle vm.vm.id s₁')
    (caller : s₁'.vms vm.vm.id = some vm₁)
    (unmapped : apiFfaRxtxUnmap s₁' vm₁ 0 answer' = .ok (ret', s₂))
    (success' : ret'.func = ffaSuccess32) :
    (∃ vm₂, s₂.vms vm.vm.id = some vm₂ ∧
        Undone send.toNat recv.toNat vm.vm vm₂.vm s.memory.stage1 s₂.memory.stage1) ↔
      ∀ addr, OnPair send.toNat recv.toNat addr →
        vm.vm.modeAt addr = mmModeR ||| mmModeW ||| mmModeX ∧ s.memory.stage1.resolve addr = none := by
  obtain ⟨e, heldE, sendIs, recvIs, -, -, sendPage, recvPage, ⟨t, vmIs, table⟩, memory, -⟩ :=
    apiFfaRxtxMap_registers current held mapped success
  obtain ⟨e', mailbox, heldE', vmIs', sendIs', recvIs'⟩ := idle.buffers e heldE
  cases caller.symm.trans heldE'
  have table := table wf
  have memory := memory stage1
  rw [← idle.stage1] at memory
  obtain ⟨vm', send', recv', _, _, _, _, _, _, _⟩ := vm₁
  obtain rfl : vm' = { vm.vm with ptable := t, mailbox } := by
    rw [vmIs] at vmIs'
    exact vmIs'
  obtain rfl : send' = send.toNat := sendIs'.trans sendIs
  obtain rfl : recv' = recv.toNat := recvIs'.trans recvIs
  obtain ⟨vm₂, t₂, held₂, vm₂Is, attrs, stage₂, attrs₁⟩ :=
    apiFfaRxtxUnmap_returns (by exact current) (by exact caller) (by exact table.wellFormed)
      memory.wellFormed sendPage recvPage unmapped success'
  -- The two calls together: the pages get the default mode and are unmapped from the manager.
  have vmAttrs (addr : Nat) (inside : addr < vm.vm.spaceEnd) : vm₂.vm.attrsAt addr =
      if OnPair send.toNat recv.toNat addr then vm.vm.mappedAttrs (mmModeR ||| mmModeW ||| mmModeX)
      else vm.vm.attrsAt addr := by
    rw [vm₂Is]
    refine (attrs addr inside).trans ?_
    split
    · rfl
    · next off =>
      exact table.attrs addr inside fun touched => off ((pairTouches_iff sendPage recvPage addr).mp touched)
  have vmStage : vm₂.vm.stage = vm.vm.stage := by rw [vm₂Is]; rfl
  have managerAttrs (addr : Nat) (inside : addr < mmPtableAddrSpaceEnd (m.levels .stage1)) :
      s₂.memory.stage1.attrsAt addr =
        if OnPair send.toNat recv.toNat addr then 0 else s.memory.stage1.attrsAt addr := by
    refine (attrs₁ addr inside).trans ?_
    split
    · rfl
    · next off =>
      exact memory.attrs addr inside fun touched => off ((pairTouches_iff sendPage recvPage addr).mp touched)
  have given (addr : Nat) (on : OnPair send.toNat recv.toNat addr) :
      vm₂.vm.modeAt addr = mmModeR ||| mmModeW ||| mmModeX := by
    rw [Vm.modeAt, vmAttrs addr (on.lt sendPage recvPage), if_pos on, vmStage, mappedAttrs_default]
  have gone (addr : Nat) (on : OnPair send.toNat recv.toNat addr) : s₂.memory.stage1.resolve addr = none := by
    have inside := on.lt sendPage.stage1 recvPage.stage1
    exact MmPtable.resolve_absent stage₂ inside ((managerAttrs addr inside).trans (if_pos on))
  constructor
  · rintro ⟨vm₂', held₂', undone⟩ addr on
    cases held₂.symm.trans held₂'
    exact ⟨(undone.pages addr on).symm.trans (given addr on),
      (undone.stage1 addr (on.lt sendPage.stage1 recvPage.stage1)).symm.trans (gone addr on)⟩
  · intro before
    refine ⟨vm₂, held₂, fun addr on => (given addr on).trans (before addr on).1.symm,
      fun addr inside off => (vmAttrs addr inside).trans (if_neg off), fun addr inside => ?_⟩
    by_cases on : OnPair send.toNat recv.toNat addr
    · rw [gone addr on, (before addr on).2]
    · rw [MmPtable.resolve, MmPtable.resolve, MmPtable.lookup_eq stage1 inside,
        MmPtable.lookup_eq stage₂ inside, ((managerAttrs addr inside).trans (if_neg on))]

/-- A partition with 2 MiB of memory with these attributes, on a 32-bit platform where nothing else is
mapped. -/
def oneBlockManager (attrs : PteBits) : Manager smallConfig :=
  .ofPair (.new (emptyVm smallConfig 2 .empty)) (.new (attrsVm 1 0 attrs none))
    ⟨emptyTable smallConfig .stage1, fun _ => 0⟩ (ampleMpool 8)

/-- The partition registers the second and the third page, and gives them back when no page is free. -/
structure MapsAndUnmaps (attrs : PteBits) (s₁ : Manager smallConfig) (vm₁ : Endpoint smallConfig)
    (s₂ : Manager smallConfig) : Prop where
  map : ∃ ret, apiFfaRxtxMap (oneBlockManager attrs) (.new (attrsVm 1 0 attrs none))
    0x1000 0x2000 1 ⟨0, 0, 0, 0, 0⟩ = .ok (ret, s₁) ∧ ret.func = ffaSuccess32
  caller : s₁.vms 1 = some vm₁
  unmap : ∃ ret, apiFfaRxtxUnmap { s₁ with pool := [{}] } vm₁ 0 ⟨0, 0, 0, 0, 0⟩ = .ok (ret, s₂) ∧
    ret.func = ffaSuccess32

def mapAndUnmap (attrs : PteBits) : Run (FfaValue × FfaValue × Manager smallConfig) := do
  let (ret, s₁) ← apiFfaRxtxMap (oneBlockManager attrs) (.new (attrsVm 1 0 attrs none))
      0x1000 0x2000 1 ⟨0, 0, 0, 0, 0⟩
  match s₁.vms 1 with
  | none => .error .nullVm
  | some vm₁ => do
    let (ret', s₂) ← apiFfaRxtxUnmap { s₁ with pool := [{}] } vm₁ 0 ⟨0, 0, 0, 0, 0⟩
    .ok (ret, ret', s₂)

theorem mapAndUnmap_ok (check : Manager smallConfig → Bool)
    (run : Partial.returns (mapAndUnmap attrs) (fun r => decide (r.1.func = ffaSuccess32 ∧
      r.2.1.func = ffaSuccess32 ∧ check r.2.2 = true)) = true) :
    ∃ s₁ vm₁ s₂, MapsAndUnmaps attrs s₁ vm₁ s₂ ∧ check s₂ = true := by
  obtain ⟨⟨ret, ret', s₂⟩, ran, checked⟩ := returns_iff.mp run
  obtain ⟨success, success', checked⟩ := of_decide_eq_true checked
  simp only [mapAndUnmap, bind_ok_iff] at ran
  obtain ⟨⟨_, s₁⟩, mapped, ran⟩ := ran
  split at ran
  · cases ran
  · next vm₁ found =>
    obtain ⟨⟨_, _⟩, unmapped, ran⟩ := bind_ok_iff.mp ran
    obtain ⟨rfl, rfl, rfl⟩ := ran
    exact ⟨s₁, vm₁, _, ⟨⟨_, mapped, success⟩, found, _, unmapped, success'⟩, checked⟩

theorem mapAndUnmap_ordinary : ∃ s₁ vm₁ s₂, MapsAndUnmaps ordinaryAttrs s₁ vm₁ s₂ := by
  have run : Partial.returns (mapAndUnmap ordinaryAttrs)
      (fun r => decide (r.1.func = ffaSuccess32 ∧ r.2.1.func = ffaSuccess32 ∧
      true = true)) = true := by
    decide +kernel
  obtain ⟨s₁, vm₁, s₂, calls, -⟩ := mapAndUnmap_ok (fun _ => true) run
  exact ⟨s₁, vm₁, s₂, calls⟩

theorem oneBlockManager_held (attrs : PteBits) :
    (oneBlockManager attrs).vms (attrsVm 1 0 attrs none).id =
      some (.new (attrsVm 1 0 attrs none)) := Manager.ofPair_second ..

theorem oneBlockManager_wellFormed (attrs : PteBits) : (oneBlockManager attrs).memory.stage1.WellFormed :=
  emptyTable_wellFormed smallConfig .stage1

/-- Two pages of ordinary memory. -/
theorem rxtxUnmap_undoes_rxtxMap_ordinary : ∃ s₁ vm₁ s₂ vm₂, MapsAndUnmaps ordinaryAttrs s₁ vm₁ s₂ ∧
    s₂.vms 1 = some vm₂ ∧
    Undone 0x1000 0x2000 (blockVm 1 0 none) vm₂.vm (emptyTable smallConfig .stage1) s₂.memory.stage1 := by
  obtain ⟨s₁, vm₁, s₂, calls⟩ := mapAndUnmap_ordinary
  obtain ⟨ret, mapped, success⟩ := calls.map
  obtain ⟨ret', unmapped, success'⟩ := calls.unmap
  have idle : s₁.Idle 1 { s₁ with pool := [{}] } :=
    ⟨rfl, fun e held => ⟨e, e.vm.mailbox, held, rfl, rfl, rfl⟩⟩
  obtain ⟨vm₂, held₂, undone⟩ := (rxtxUnmap_undoes_rxtxMap_iff (by decide)
    (oneBlockManager_held _) (blockVm_wellFormed 1 0 none) (oneBlockManager_wellFormed _)
      mapped success idle calls.caller unmapped success').mpr fun addr on => by
      have below : addr < 0x3000 := by
        rcases on with ⟨-, upper⟩ | ⟨-, upper⟩
        · exact upper.trans (by decide)
        · exact upper.trans_le (by decide)
      refine ⟨?_, MmPtable.resolve_absent (oneBlockManager_wellFormed _) (below.trans (by decide)) rfl⟩
      have first : mmIndex addr 2 = 0 ∧ mmIndex addr 1 = 0 := by
        simp only [mmIndex, mmEntrySize, mmPtePerPage]
        omega
      have attrs := attrsVm_attrsAt 1 ordinaryAttrs_block none (show 0 < 512 by decide) addr
      rw [if_pos first] at attrs
      show smallConfig.attrsToMode .stage2 ((attrsVm 1 0 ordinaryAttrs none).attrsAt addr) = _
      rw [attrs]
      decide
  exact ⟨s₁, vm₁, s₂, vm₂, calls, held₂, undone⟩

/-- Two pages that the partition may not execute: afterwards it may. -/
theorem rxtxUnmap_adds_execute_right :
    let attrs := archMmModeToStage2Attrs (mmModeR ||| mmModeW)
    ∃ s₁ vm₁ s₂ vm₂, MapsAndUnmaps attrs s₁ vm₁ s₂ ∧ s₂.vms 1 = some vm₂ ∧
      (attrsVm 1 0 attrs none).modeAt 0x1000 = mmModeR ||| mmModeW ∧
        vm₂.vm.modeAt 0x1000 = mmModeR ||| mmModeW ||| mmModeX ∧
      ¬Undone 0x1000 0x2000 (attrsVm 1 0 attrs none) vm₂.vm (emptyTable smallConfig .stage1)
        s₂.memory.stage1 := by
  intro attrs
  let executable (s : Manager smallConfig) : Bool :=
    (s.vms 1).any fun vm₂ => decide (vm₂.vm.modeAt 0x1000 = mmModeR ||| mmModeW ||| mmModeX)
  have run : Partial.returns (mapAndUnmap attrs)
      (fun r => decide (r.1.func = ffaSuccess32 ∧ r.2.1.func = ffaSuccess32 ∧
      executable r.2.2 = true)) = true := by
    decide +kernel
  obtain ⟨s₁, vm₁, s₂, calls, checked⟩ := mapAndUnmap_ok executable run
  obtain ⟨vm₂, held₂, after⟩ := (Option.any_eq_true _ _).mp checked
  have after : vm₂.vm.modeAt 0x1000 = mmModeR ||| mmModeW ||| mmModeX := of_decide_eq_true after
  have before : (attrsVm 1 0 attrs none).modeAt 0x1000 = mmModeR ||| mmModeW := by decide +kernel
  refine ⟨s₁, vm₁, s₂, vm₂, calls, held₂, before, after, fun undone => ?_⟩
  have same := undone.pages 0x1000 (.inl ⟨le_rfl, by decide⟩)
  rw [before, after] at same
  exact absurd same (by decide)

/-! ## The checks -/

/-- The `CHECK`s in `api_ffa_rxtx_unmap` and the functions that it calls. -/
def IsUnmapCheck (abort : Abort) : Prop := abort = .identityCommit ∨ abort = .vmIdentityMap ∨ abort = .mmUnmap

/-- The interval that the code takes for the page of a buffer. -/
def bufferInterval (page : Nat) : Nat × Nat := (page, bufferEnd page)

/-- With this many free pages the buffers of an endpoint can be given back: first there are the
tables to add for both pages of a partition of this world, then those for the TX buffer in the table
of the manager, and then those for the RX buffer, when the tables that the TX buffer replaces have
been freed. -/
def Endpoint.CanReturn (e : Endpoint m) (t : MmPtable (m.levels .stage1)) (free : Nat) : Prop :=
  let send := bufferInterval e.send
  let recv := bufferInterval e.recv
  let own :=
    if vmIdIsCurrentWorld m e.vm.id then
      e.vm.ptable.tablesToAdd (mmModeR ||| mmModeW ||| mmModeX) [send, recv]
    else 0
  own + t.tablesToAdd mmModeUnmappedMask [send] ≤ free ∧
    own + t.tablesToAdd mmModeUnmappedMask [send, recv] ≤ free + t.tablesToReplace mmModeUnmappedMask send

section Checks

variable {n : Nat}

/-- A checked mapping passes or stops with its own reason. -/
theorem remap_of_stage {r : Updated (MmPtable (m.levels e.vm.stage))}
    (mapped : stageIdentityMap e.vm.ptable begin_ end_ mode pool = some r) :
    remap e begin_ end_ mode pool =
      if r.ok then .ok ({ e with vm := { e.vm with ptable := r.value } }, r.state) else .error
        .vmIdentityMap := by
  rw [remap, vmIdentityMap_of_stage mapped]
  rfl

theorem unmapStage1_of_stage (notNull : begin_ ≠ 0) {r : Updated (MmPtable (m.levels .stage1))}
    (mapped : stageIdentityMap memory.stage1 begin_ end_ mmModeUnmappedMask pool = some r) :
    unmapStage1 memory begin_ end_ pool =
      if r.ok then .ok ({ memory with stage1 := r.value }, r.state) else .error .mmUnmap := by
  obtain ⟨_ | _, t, pool'⟩ := r
  · rw [unmapStage1, mmIdentityMap, mapped]
    rfl
  · rw [unmapStage1, mmIdentityMap, mapped]
    exact if_pos notNull

/-- Mapping the page of a buffer takes the pages for the tables to add, and gives nothing back. -/
theorem bufferInterval_costs {t : MmPtable (m.levels stage)} (wf : t.WellFormed) (sound : pool.Sound n)
    (isPage : PageOf (m.levels stage) page) (mode : Mode) :
    ∃ r, stageIdentityMap t page (bufferEnd page) mode pool = some r ∧ r.value.WellFormed ∧ r.state.Sound n ∧
      (r.ok = true ↔ t.tablesToAdd mode [bufferInterval page] ≤ pool.freeCount) ∧
      (r.ok = true → ∀ rest, r.value.tablesToAdd mode rest + pool.freeCount =
        t.tablesToAdd mode (bufferInterval page :: rest) + r.state.freeCount) := by
  have nothing : t.tablesToReplace mode (page, bufferEnd page) = 0 :=
    t.tablesToReplace_page mode (by rw [bufferEnd_eq isPage, isPage.mapBegin, isPage.mapEnd])
  obtain ⟨r, mapped, rWf, rSound, succeeds, paid⟩ :=
    stageIdentityMap_costs wf sound page (bufferEnd page) mode
  simp only [nothing, Nat.add_zero] at paid
  exact ⟨r, mapped, rWf, rSound, succeeds, paid⟩

/-- The pages of a partition of this world are remapped if the pool can pay for it. -/
theorem returnBuffers_cases (current : vmIdIsCurrentWorld m e.vm.id = true) (wf : e.vm.WellFormed)
    (sendPage : PageOf (m.levels e.vm.stage) e.send)
    (recvPage : PageOf (m.levels e.vm.stage) e.recv) (sound : pool.Sound n) :
    let own := e.vm.ptable.tablesToAdd (mmModeR ||| mmModeW ||| mmModeX)
      [bufferInterval e.send, bufferInterval e.recv]
    (returnBuffers e pool = .error .vmIdentityMap ∧ pool.freeCount < own) ∨
      ∃ e' pool', returnBuffers e pool = .ok (e', pool') ∧ pool'.Sound n ∧
        pool.freeCount = own + pool'.freeCount := by
  intro own
  have notOther : ¬vmIdIsCurrentWorld m e.vm.id = false := by rw [current]; exact Bool.false_ne_true.symm
  obtain ⟨r, sendMapped, rWf, rSound, succeeds, paid⟩ :=
    bufferInterval_costs wf sound sendPage (mmModeR ||| mmModeW ||| mmModeX)
  have fewer := e.vm.ptable.tablesToAdd_le (mmModeR ||| mmModeW ||| mmModeX)
    (bufferInterval e.send) [bufferInterval e.recv]
  rw [returnBuffers, if_neg notOther]
  dsimp only
  rw [remap_of_stage sendMapped]
  by_cases ok : r.ok = true
  · let e₁ : Endpoint m := { e with vm := { e.vm with ptable := r.value } }
    obtain ⟨r', recvMapped, -, rSound', succeeds', paid'⟩ :=
      bufferInterval_costs rWf rSound recvPage (mmModeR ||| mmModeW ||| mmModeX)
    have second : remap e₁ e₁.recv (bufferEnd e₁.recv) (mmModeR ||| mmModeW ||| mmModeX) r.state = _ :=
      remap_of_stage recvMapped
    have paid := paid ok [bufferInterval e.recv]
    rw [if_pos ok]
    by_cases ok' : r'.ok = true
    · have paid' := paid' ok' []
      rw [MmPtable.tablesToAdd_nil] at paid'
      rw [if_pos ok'] at second
      exact .inr ⟨_, _, second, rSound', by omega⟩
    · rw [if_neg ok'] at second
      have few := mt succeeds'.mpr ok'
      exact .inl ⟨second, by omega⟩
  · have few := mt succeeds.mpr ok
    exact .inl ⟨by rw [if_neg ok]; rfl, by omega⟩

/-- The buffers are unmapped from the partition manager if the pool can pay for it. -/
theorem unmapBuffers_cases (sendSet : send ≠ 0) (recvSet : recv ≠ 0) (wf : memory.stage1.WellFormed)
    (sound : pool.Sound n) :
    (unmapStage1 memory send (bufferEnd send) pool = .error .mmUnmap ∧
      ¬memory.stage1.tablesToAdd mmModeUnmappedMask [bufferInterval send] ≤ pool.freeCount) ∨
    ∃ memory₁ pool₁, unmapStage1 memory send (bufferEnd send) pool = .ok (memory₁, pool₁) ∧
      memory.stage1.tablesToAdd mmModeUnmappedMask [bufferInterval send] ≤ pool.freeCount ∧
      let both := memory.stage1.tablesToAdd mmModeUnmappedMask [bufferInterval send, bufferInterval recv]
      let replaced := memory.stage1.tablesToReplace mmModeUnmappedMask (bufferInterval send)
      ((∃ result, unmapStage1 memory₁ recv (bufferEnd recv) pool₁ = .ok result) ∧
        both ≤ pool.freeCount + replaced ∨
        unmapStage1 memory₁ recv (bufferEnd recv) pool₁ = .error .mmUnmap ∧
          ¬both ≤ pool.freeCount + replaced) := by
  obtain ⟨r, sendMapped, outcome⟩ := stageIdentityMap_pair wf sound (bufferInterval send)
    (bufferInterval recv) mmModeUnmappedMask
  have first : unmapStage1 memory send (bufferEnd send) pool = _ := unmapStage1_of_stage sendSet sendMapped
  rw [first]
  rcases outcome with ⟨failed, few⟩ | ⟨ok, enough, r', recvMapped, -, outcome⟩
  · exact .inl ⟨by rw [failed]; rfl, few⟩
  · let memory₁ : HypMemory m := { memory with stage1 := r.value }
    have second : unmapStage1 memory₁ recv (bufferEnd recv) r.state = _ :=
      unmapStage1_of_stage recvSet recvMapped
    rw [ok, if_pos rfl]
    refine .inr ⟨memory₁, r.state, rfl, enough, ?_⟩
    rw [second]
    by_cases ok' : r'.ok = true
    · exact .inl ⟨⟨_, if_pos ok'⟩, outcome.mp ok'⟩
    · exact .inr ⟨if_neg ok', mt outcome.mpr ok'⟩

/-- The forwarded call is the only other reason to stop. -/
theorem platFfaRxtxUnmapForward_avoids (s : Manager m) (answer : FfaValue) :
    Partial.Avoids IsUnmapCheck (platFfaRxtxUnmapForward s answer) := by
  rw [platFfaRxtxUnmapForward]
  split
  · exact .ok ()
  · split
    · exact .ok ()
    · exact .error (by simp [IsUnmapCheck])

/-- All checks of FFA_RXTX_UNMAP pass if and only if the pool has the pages for the tables to add. -/
theorem rxtxUnmap_checks_pass_iff {s : Manager m} {vm owner : Endpoint m} {place : Place} {allocatorId : VmId}
    (allowed : ¬(vmIdIsCurrentWorld m vm.vm.id = true ∧ allocatorId ≠ 0))
    (found : platFfaVmFindLocked s (unmapOwner vm allocatorId) = some (place, owner))
    (registered : owner.send ≠ 0 ∧ owner.recv ≠ 0)
    (managed : vmIdIsCurrentWorld m owner.vm.id = true → owner.vm.WellFormed ∧
      PageOf (m.levels owner.vm.stage) owner.send ∧ PageOf (m.levels owner.vm.stage) owner.recv)
    (wf : s.memory.stage1.WellFormed) (sound : s.pool.Sound n) (answer : FfaValue) :
    Partial.Avoids IsUnmapCheck (apiFfaRxtxUnmap s vm allocatorId answer) ↔
      owner.CanReturn s.memory.stage1 s.pool.freeCount := by
  have notUnset : ¬(owner.send = 0 ∨ owner.recv = 0) := not_or.mpr registered
  rw [apiFfaRxtxUnmap, if_neg allowed, found, Endpoint.CanReturn]
  dsimp only
  rw [if_neg notUnset]
  obtain ⟨own, isOwn, returned⟩ : ∃ own, (if vmIdIsCurrentWorld m owner.vm.id then
        owner.vm.ptable.tablesToAdd (mmModeR ||| mmModeW ||| mmModeX) [bufferInterval owner.send,
          bufferInterval owner.recv]
      else 0) = own ∧
      ((returnBuffers owner s.pool = .error .vmIdentityMap ∧ s.pool.freeCount < own) ∨
        ∃ e pool, returnBuffers owner s.pool = .ok (e, pool) ∧ pool.Sound n ∧
          s.pool.freeCount = own + pool.freeCount) := by
    cases current : vmIdIsCurrentWorld m owner.vm.id with
    | true =>
      obtain ⟨ownerWf, ownSend, ownRecv⟩ := managed current
      exact ⟨_, if_pos rfl, returnBuffers_cases current ownerWf ownSend ownRecv sound⟩
    | false =>
      exact ⟨0, if_neg Bool.false_ne_true, .inr ⟨owner, s.pool, if_pos current, sound, (Nat.zero_add _).symm⟩⟩
  rw [isOwn]
  rcases returned with ⟨failed, few⟩ | ⟨e, pool₁, given, sound₁, paid⟩
  · exact iff_of_false (Partial.not_avoids_bind failed (.inr (.inl rfl))) (by omega)
  · rw [Partial.avoids_bind_iff given]
    rcases unmapBuffers_cases registered.1 registered.2 wf sound₁ with ⟨failed, few⟩ | ⟨memory₁,
        pool₂, sendGone, enough, outcome⟩
    · exact iff_of_false (Partial.not_avoids_bind failed (.inr (.inr rfl))) (by omega)
    · rw [Partial.avoids_bind_iff sendGone]
      rcases outcome with ⟨⟨result, recvGone⟩, both⟩ | ⟨failed, few⟩
      · rw [Partial.avoids_bind_iff recvGone]
        exact iff_of_true (.bind (platFfaRxtxUnmapForward_avoids s answer) fun _ => .ok _) (by omega)
      · exact iff_of_false (Partial.not_avoids_bind failed (.inr (.inr rfl))) (by omega)

end Checks

/-- Right after their registration, the pages of a partition are given back without any free page. -/
theorem rxtxUnmap_checks_pass_after_rxtxMap : ∃ s₁ vm₁ s₂, MapsAndUnmaps ordinaryAttrs s₁ vm₁ s₂ ∧
    vm₁.CanReturn s₁.memory.stage1 0 := by
  obtain ⟨s₁, vm₁, s₂, calls⟩ := mapAndUnmap_ordinary
  obtain ⟨ret, mapped, success⟩ := calls.map
  obtain ⟨ret', unmapped, -⟩ := calls.unmap
  have current : vmIdIsCurrentWorld smallConfig 1 = true := by decide
  obtain ⟨e, held, sendIs, recvIs, sendSet, recvSet, sendPage, recvPage, table, memory, -⟩ :=
    apiFfaRxtxMap_registers current (oneBlockManager_held _) mapped success
  cases calls.caller.symm.trans held
  have stage : vm₁.vm.stage = .stage2 := by
    obtain ⟨t, same, -⟩ := table
    rw [same]
    rfl
  have wf : vm₁.vm.WellFormed := by
    obtain ⟨t, same, table⟩ := table
    rw [same]
    exact (table (blockVm_wellFormed 1 0 none)).wellFormed
  have isOne : vm₁.vm.id = 1 := table.id_eq
  let s : Manager smallConfig := { s₁ with pool := [{}] }
  have found : platFfaVmFindLocked s (unmapOwner vm₁ 0) = some (.vm 1, vm₁) := by
    rw [show unmapOwner vm₁ 0 = 1 from isOne, platFfaVmFindLocked, if_pos (.inl current),
      vmFindLocked, show s.vms 1 = _ from held]
    rfl
  have passes := (rxtxUnmap_checks_pass_iff (fun refused => refused.2 rfl) found
    ⟨sendSet, recvSet⟩
    (fun _ => ⟨wf, by rw [stage, sendIs]; exact sendPage, by rw [stage, recvIs]; exact recvPage⟩)
    (memory (oneBlockManager_wellFormed _)).wellFormed (⟨rfl, by simp [s]⟩) ⟨0, 0, 0, 0, 0⟩).mp
    (by rw [unmapped]; exact .ok _)
  exact ⟨s₁, vm₁, s₂, calls, passes⟩

/-! ## A block that is merged in between -/

/-- The mailbox calls of partitions, one after the other. -/
def runCalls : List (VmId × MailboxCall) → Manager m → Run (Manager m)
  | [], s => .ok s
  | (id, call) :: rest, s =>
    match s.vms id with
    | none => .error .nullVm
    | some vm => do
      let (_, s) ← call.run s vm ⟨0, 0, 0, 0, 0⟩
      runCalls rest s

theorem runCalls_steps {calls : List (VmId × MailboxCall)} {s s' : Manager m}
    (ran : runCalls calls s = .ok s') : ReflTransGen (Manager.Step fun _ _ _ => True) s s' := by
  induction calls generalizing s with
  | nil =>
    cases ran
    exact .refl
  | cons first rest ih =>
    rw [runCalls] at ran
    split at ran
    · cases ran
    · next vm found =>
      obtain ⟨⟨ret, s₁⟩, step, ran⟩ := bind_ok_iff.mp ran
      have caller : s.vms vm.vm.id = some vm := by rw [s.vmIds found]; exact found
      exact .head (.call caller trivial step) (ih ran)

/-- A table of pages, the ones that pass the test with the given attributes. -/
def pagesTable (base : Nat) (attrs : PteBits) (mapped : Nat → Bool) : PageTable 0 :=
  fun k => .leaf (if mapped k then archMmBlockPte 0 (base + k * mmEntrySize 0) attrs else archMmAbsentPte)

theorem pagesTable_wellFormed (isBlock : BlockAttrs attrs) (base : Nat) (mapped : Nat → Bool) :
    (pagesTable base attrs mapped).WellFormed base := by
  intro k _
  rw [pagesTable]
  split
  · exact LeafFor.block (Nat.zero_le 2) isBlock
  · exact LeafFor.absent

/-- A hypervisor whose writable data fills the 2 MiB from 0x200000 up to their last page. -/
def imageTable : MmPtable (smallConfig.levels .stage1) where
  root := 0x40
  tables := fun _ i => if i = 0 then .table 0x41 blocks else .leaf archMmAbsentPte
where
  blocks : PageTable 1 := fun j => if j = 1 then
    .table 0x42 (pagesTable 0x200000 (smallConfig.modeToAttrs .stage1 (mmModeR ||| mmModeW))
      fun k => decide (k < 511))
    else .leaf archMmAbsentPte

theorem imageTable_wellFormed : imageTable.WellFormed := by
  intro r root i _
  obtain rfl : r = 0 := by
    have single : r < 1 := root
    omega
  change Pte.WellFormed (if i = 0 then .table 0x41 imageTable.blocks else .leaf archMmAbsentPte)
    (0 * 2 ^ 39 + i * 2 ^ 30)
  split
  · next first =>
    subst first
    intro j _
    rw [imageTable.blocks]
    split
    · next second =>
      subst second
      exact pagesTable_wellFormed (attrsFor_modeToAttrs smallConfig .stage1 _ (by decide)) _ _
    · exact LeafFor.absent
  · exact LeafFor.absent

/-- A partition that owns the last page of the 2 MiB from 0x200000 and the 2 MiB after them. -/
def tailVm : Vm smallConfig where
  id := 1
  el0Partition := false
  ptable := ⟨0, fun i j => if i = 0 ∧ j = 1 then
    .table 0x50 (pagesTable 0x200000 ordinaryAttrs fun k => decide (k = 511))
    else .leaf (if i = 0 ∧ j = 2 then archMmBlockPte 1 (2 * 2 ^ 21) ordinaryAttrs else archMmAbsentPte)⟩
  mailbox := ⟨.empty, true, none⟩

theorem tailVm_wellFormed : tailVm.WellFormed := by
  intro i _ j _
  change Pte.WellFormed (if i = 0 ∧ j = 1 then
    .table 0x50 (pagesTable 0x200000 ordinaryAttrs fun k => decide (k = 511)) else .leaf _) _
  split
  · next here =>
    rw [here.1, here.2]
    exact pagesTable_wellFormed ordinaryAttrs_block _ _
  · split
    · next here =>
      rw [here.1, here.2]
      exact LeafFor.block (by decide) ordinaryAttrs_block
    · exact LeafFor.absent

def imageManager : Manager smallConfig :=
  .ofPair (.new tailVm) (.new (blockVm 2 4 none))
    ⟨imageTable, fun _ => 0⟩ [⟨[1, 2, 3], []⟩]

/-- The first partition registers the last page of the 2 MiB as its RX buffer. The registration of
the second one runs out of pages, and what it frees is one block for the 2 MiB, which has the
attributes of the RX buffer; its second try takes the page of the table that is now free. -/
def imageCalls : List (VmId × MailboxCall) :=
  [(1, .rxtxMap 0x400000 0x3ff000 1), (2, .rxtxMap 0x800000 0x801000 1), (2, .rxtxMap 0x800000 0x801000 1)]

/-- No page is left to take the RX buffer out of the block again. -/
theorem rxtxUnmap_check_fails : imageManager.memory.stage1.WellFormed ∧ tailVm.WellFormed ∧
    (blockVm 2 4 none).WellFormed ∧
    ∃ s vm, ReflTransGen (Manager.Step fun _ _ _ => True) imageManager s ∧ s.vms 1 = some vm ∧
      vm.send = 0x400000 ∧ vm.recv = 0x3ff000 ∧ apiFfaRxtxUnmap s vm 0 ⟨0, 0, 0, 0, 0⟩ = .error .mmUnmap := by
  have run : Partial.returns (runCalls imageCalls imageManager)
      (fun s => (s.vms 1).any fun vm => vm.send == 0x400000 &&
      vm.recv == 0x3ff000 && Partial.stops (apiFfaRxtxUnmap s vm 0 ⟨0, 0, 0, 0, 0⟩) .mmUnmap) = true := by
    decide +kernel
  obtain ⟨s, returned, checked⟩ := returns_iff.mp run
  obtain ⟨vm, held, checked⟩ := (Option.any_eq_true _ _).mp checked
  simp only [Bool.and_eq_true, beq_iff_eq, Partial.stops_iff] at checked
  obtain ⟨⟨sendIs, recvIs⟩, stopped⟩ := checked
  exact ⟨imageTable_wellFormed, tailVm_wellFormed, blockVm_wellFormed 2 4 none, s, vm,
    runCalls_steps returned, held, sendIs, recvIs, stopped⟩

end Hafnium.Api
