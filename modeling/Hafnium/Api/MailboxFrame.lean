import Hafnium.Api.RxtxSpec

/-! # The mailboxes of secure partitions

The normal world reaches the SPMC's mailbox calls through the partition that stands for the other
world, and names the endpoint it calls for. Of the four calls only FFA_RX_ACQUIRE checks that this
is not a secure partition; with the others the normal world can set up, take away and release the
buffers of a secure partition.
-/

namespace Hafnium.Api

open Mm Ffa Partial Function

variable {m : MmConfig}

/-- Nothing of a secure partition has changed, in particular not its mailbox and its page table. -/
def Manager.SameSps (s s' : Manager m) : Prop := ∀ id, vmIdIsCurrentWorld m id = true → s'.vms id = s.vms id

variable {s : Manager m} {vm e second : Endpoint m} {call : MailboxCall} {id : VmId} {place : Place}
  {pool : Mpool} {memory : HypMemory m}

/-- A call is made for one endpoint. -/
theorem MailboxCall.Names.unique {id' : VmId} (named : call.Names s vm id)
    (named' : call.Names s vm id') : id = id' := by
  cases call with
  | rxtxMap send recv pageCount =>
    obtain ⟨desc, described, rfl⟩ := named
    obtain ⟨desc', described', rfl⟩ := named'
    cases described.symm.trans described'
    rfl
  | rxtxUnmap allocatorId => exact named.symm.trans named'
  | rxRelease receiverId => exact named.symm.trans named'
  | rxAcquire receiverId => exact named.symm.trans named'

variable {sp : VmId} {first : Endpoint m}

theorem Placed.ne_vm (placed : Placed m id place) (other : sp ≠ id) : Place.vm sp ≠ place := by
  rintro rfl
  cases placed with
  | vm kept => exact other rfl

section Effect

variable {s' : Manager m}

/-- A call changes no other partition than the one it is made for. -/
theorem MailboxEffect.others (effect : MailboxEffect s vm call s') (named : call.Names s vm id)
    (other : sp ≠ id) : s'.vms sp = s.vms sp := by
  have keep {place : Place} {e e' : Endpoint m} (placed : Placed m id place)
      (replaces : s.Replaces place e e' s') :
      s'.vms sp = s.vms sp := (replaces.get (.vm sp)).trans (if_neg (placed.ne_vm other))
  cases effect with
  | refused => rfl
  | map described found placed replaces memory table buffers =>
    cases MailboxCall.Names.unique named ⟨_, described, rfl⟩
    exact keep placed replaces
  | unmap placed replaces registered memory table buffers =>
    cases named
    exact keep placed replaces
  | mark state named' placed replaces memory acquires =>
    cases named.unique named'
    exact keep placed replaces

end Effect

/-! ## Enough pages -/

section Pages

variable {begin_ end_ : Nat} {mode : Mode}

/-- The pages that mapping a range takes at most. -/
def mapPages (m : MmConfig) (stage : Stage) (mode : Mode) (begin_ end_ : Nat) : Nat :=
  2 * mmPtableUpdatePages (m.levels stage) (mmModeToFlags mode) begin_ end_

theorem vmIdentityMap_pages (vm : Vm m) (pages : mapPages m vm.stage mode begin_ end_ ≤ pool.freeCount) :
    ∃ r, vmIdentityMap vm begin_ end_ mode pool = .ok r ∧ r.ok = true ∧
      pool.freeCount ≤ r.state.freeCount + mapPages m vm.stage mode begin_ end_ := by
  simp only [mapPages] at pages ⊢
  obtain ⟨prepared, left⟩ := mmPtableIdentityPrepare_pages vm.ptable _
    (show mmPtableUpdatePages (m.levels vm.stage) (mmModeToFlags mode) begin_ end_ ≤ pool.freeCount by omega)
  have prepared : (vmIdentityPrepare vm begin_ end_ mode pool).ok = true := prepared
  have left : pool.freeCount ≤ (vmIdentityPrepare vm begin_ end_ mode pool).state.freeCount +
    mmPtableUpdatePages (m.levels vm.stage) (mmModeToFlags mode) begin_ end_ := left
  obtain ⟨t, pool', committed, rest⟩ :=
    mmPtableIdentityCommit_pages (vmIdentityPrepare vm begin_ end_ mode pool).value.ptable
    _
    (show mmPtableUpdatePages (m.levels vm.stage) (mmModeToFlags mode) begin_ end_ ≤
      (vmIdentityPrepare vm begin_ end_ mode pool).state.freeCount by omega)
  have committed : stageIdentityCommit (vmIdentityPrepare vm begin_ end_ mode pool).value.ptable
      begin_ end_ mode
    (vmIdentityPrepare vm begin_ end_ mode pool).state = some (t, pool') := committed
  have rest : (vmIdentityPrepare vm begin_ end_ mode pool).state.freeCount ≤
    pool'.freeCount + mmPtableUpdatePages (m.levels vm.stage) (mmModeToFlags mode) begin_ end_ := rest
  refine ⟨⟨true, { vm with ptable := t }, pool'⟩, ?_, rfl, by simp only; omega⟩
  rw [vmIdentityMap, if_pos prepared, vmIdentityCommit, committed]
  rfl

theorem remap_pages (e : Endpoint m) (pages : mapPages m e.vm.stage mode begin_ end_ ≤ pool.freeCount) :
    ∃ e' pool', remap e begin_ end_ mode pool = .ok (e', pool') ∧
      pool.freeCount ≤ pool'.freeCount + mapPages m e.vm.stage mode begin_ end_ := by
  obtain ⟨r, mapped, ok, left⟩ := vmIdentityMap_pages e.vm pages
  refine ⟨{ e with vm := r.value }, r.state, ?_, left⟩
  simp only [remap, bind_ok_iff]
  exact ⟨r, mapped, if_pos ok⟩

theorem mmIdentityMap_pages (t : MmPtable (m.levels .stage1))
    (pages : mapPages m .stage1 mode begin_ end_ ≤ pool.freeCount) :
    ∃ t' pool', mmIdentityMap t begin_ end_ mode pool = .ok (begin_, t', pool') ∧
      pool.freeCount ≤ pool'.freeCount + mapPages m .stage1 mode begin_ end_ := by
  obtain ⟨r, mapped, ok, left⟩ := mmPtableIdentityUpdate_pages t _ pages
  have mapped : stageIdentityMap t begin_ end_ mode pool = some r := mapped
  refine ⟨r.value, r.state, ?_, left⟩
  simp only [mmIdentityMap, mapped, ok, if_true]

theorem unmapStage1_pages (memory : HypMemory m) (notNull : begin_ ≠ 0)
    (pages : mapPages m .stage1 mmModeUnmappedMask begin_ end_ ≤ pool.freeCount) :
    ∃ memory' pool', unmapStage1 memory begin_ end_ pool = .ok (memory', pool') ∧
      pool.freeCount ≤ pool'.freeCount + mapPages m .stage1 mmModeUnmappedMask begin_ end_ := by
  obtain ⟨t, pool', mapped, left⟩ := mmIdentityMap_pages memory.stage1 pages
  refine ⟨{ memory with stage1 := t }, pool', ?_, left⟩
  simp only [unmapStage1, bind_ok_iff]
  exact ⟨_, mapped, if_pos notNull⟩

/-- The pages that mapping a buffer takes at most. -/
def bufferPages (m : MmConfig) (stage : Stage) (mode : Mode) (page : Nat) : Nat :=
  mapPages m stage mode page (bufferEnd page)

theorem takeBuffers_pages {send recv : Nat} {sendMode recvMode : Mode}
    (current : vmIdIsCurrentWorld m e.vm.id = true)
    (sendFound : bufferMode e.vm send [mmModeR, mmModeW] = some sendMode)
    (recvFound : bufferMode e.vm recv [mmModeR] = some recvMode)
    (pages : bufferPages m e.vm.stage (sharedBufferMode e.vm (mmModeR ||| mmModeW)) send +
      bufferPages m e.vm.stage (sharedBufferMode e.vm mmModeR) recv ≤ pool.freeCount) :
    ∃ vm pool', takeBuffers e send recv pool = .ok (.ok ⟨sendMode, recvMode⟩, { e with vm }, pool') ∧
      pool.freeCount ≤ pool'.freeCount +
        (bufferPages m e.vm.stage (sharedBufferMode e.vm (mmModeR ||| mmModeW)) send +
        bufferPages m e.vm.stage (sharedBufferMode e.vm mmModeR) recv) := by
  simp only [bufferPages] at pages ⊢
  obtain ⟨r, sendMapped, sendOk, left⟩ := vmIdentityMap_pages e.vm (show mapPages m e.vm.stage
    (sharedBufferMode e.vm (mmModeR ||| mmModeW)) send (bufferEnd send) ≤ pool.freeCount by omega)
  have stage : r.value.stage = e.vm.stage := by
    obtain ⟨t, same, -⟩ := vmIdentityMap_changesWithin sendMapped
    rw [same]
    rfl
  obtain ⟨r', recvMapped, recvOk, rest⟩ := vmIdentityMap_pages r.value (show mapPages m r.value.stage
    (sharedBufferMode e.vm mmModeR) recv (bufferEnd recv) ≤ r.state.freeCount by rw [stage]; omega)
  rw [stage] at rest
  refine ⟨r'.value, r'.state, ?_, by omega⟩
  simp only [takeBuffers, current, Bool.true_eq_false, if_false, sendFound, recvFound, bind_ok_iff]
  refine ⟨r, sendMapped, (if_pos sendOk).trans ?_⟩
  simp only [bind_ok_iff]
  exact ⟨r', recvMapped, if_pos recvOk⟩

theorem apiVmConfigureStage1_pages (e : Endpoint m) (memory : HypMemory m) {send recv : Nat}
    {extra : Mode} (sendSet : send ≠ 0) (recvSet : recv ≠ 0)
    (pages : bufferPages m .stage1 (mmModeR ||| extra) send +
      bufferPages m .stage1 (mmModeW ||| extra) recv ≤ pool.freeCount) :
    ∃ memory' pool', apiVmConfigureStage1 e memory send recv extra pool = .ok (true,
      { e with send, recv }, memory', pool') := by
  simp only [bufferPages] at pages
  obtain ⟨t, pool', sendMapped, left⟩ :=
    mmIdentityMap_pages memory.stage1 (show mapPages m .stage1 (mmModeR ||| extra) send
    (bufferEnd send) ≤ pool.freeCount by omega)
  obtain ⟨t', pool'', recvMapped, -⟩ :=
    mmIdentityMap_pages t (show mapPages m .stage1 (mmModeW ||| extra) recv
    (bufferEnd recv) ≤ pool'.freeCount by omega)
  refine ⟨{ memory with stage1 := t' }, pool'', ?_⟩
  simp only [apiVmConfigureStage1, bind_ok_iff]
  refine ⟨_, sendMapped, (if_neg sendSet).trans ?_⟩
  simp only [bind_ok_iff]
  exact ⟨_, recvMapped, if_neg recvSet⟩

end Pages

/-! ## A secure partition at the mercy of the normal world -/

/-- An endpoint without buffers. -/
def Endpoint.new (vm : Vm m) : Endpoint m where
  vm
  send := 0
  recv := 0
  recvSender := 0
  recvSize := 0
  recvFunc := 0
  ffaVersion := ffaVersion11
  messagingMethod := 7
  notificationsEnabled := false
  frameworkPending := 0

/-- Two partitions and nothing else. -/
def Manager.ofPair (first second : Endpoint m) (memory : HypMemory m) (pool : Mpool) : Manager m where
  vms := update (update (fun _ => none) first.vm.id (some first)) second.vm.id (some second)
  vmIds := by
    intro id e found
    by_cases isSecond : id = second.vm.id
    · rw [isSecond, update_self] at found
      exact (Option.some.inj found) ▸ isSecond.symm
    · rw [update_of_ne isSecond] at found
      by_cases isFirst : id = first.vm.id
      · rw [isFirst, update_self] at found
        exact (Option.some.inj found) ▸ isFirst.symm
      · rw [update_of_ne isFirst] at found
        cases found
  nwdVms := []
  memory
  pool
  teeEnabled := false

theorem Manager.ofPair_second (first second : Endpoint m) (memory : HypMemory m) (pool : Mpool) :
    (Manager.ofPair first second memory pool).vms second.vm.id = some second := update_self ..

theorem Manager.ofPair_get (held : (Manager.ofPair first second memory pool).get place = some e) :
    e = first ∨ e = second := by
  cases place with
  | nwdVm i => cases held
  | vm id =>
    simp only [Manager.get, Manager.ofPair, update_apply] at held
    split at held
    · cases held
      exact .inr rfl
    · split at held
      · cases held
        exact .inl rfl
      · cases held

/-- A table in which nothing is mapped. -/
def emptyTable (m : MmConfig) (stage : Stage) : MmPtable (m.levels stage) :=
  ⟨0, fun _ _ => .leaf archMmAbsentPte⟩

theorem emptyTable_wellFormed (m : MmConfig) (stage : Stage) : (emptyTable m stage).WellFormed :=
  fun _ _ _ _ => LeafFor.absent

def emptyVm (m : MmConfig) (id : VmId) (state : MailboxState) : Vm m :=
  ⟨id, false, emptyTable m .stage2, ⟨state, false, none⟩⟩

inductive MailboxFunc
  | rxtxMap
  | rxtxUnmap
  | rxRelease
  | rxAcquire
deriving DecidableEq, Repr

def MailboxCall.func : MailboxCall → MailboxFunc
  | .rxtxMap .. => .rxtxMap
  | .rxtxUnmap _ => .rxtxUnmap
  | .rxRelease _ => .rxRelease
  | .rxAcquire _ => .rxAcquire

/-- Whatever the state, the registers and the memory, this call of the normal world for this
endpoint leaves the secure partitions alone. -/
def KeepsSps (m : MmConfig) (func : MailboxFunc) (id : VmId) : Prop :=
  ∀ (s s' : Manager m) (vm : Endpoint m) (call : MailboxCall) (answer ret : FfaValue),
    s.vms (hfOtherWorldId m) = some vm →
    call.func = func → call.Names s vm id → call.run s vm answer = .ok (ret, s') → s.SameSps s'

section Sp

variable (spmc : m.features.secureWorld = true) (current : vmIdIsCurrentWorld m id = true)
include spmc

theorem hfOtherWorldId_spmc : hfOtherWorldId m = hfHypervisorVmId := if_pos spmc

theorem hypervisor_not_current : vmIdIsCurrentWorld m hfHypervisorVmId = false := by
  simp [vmIdIsCurrentWorld, hfOtherWorldId_spmc spmc]

include current

theorem ne_hypervisor : id ≠ hfHypervisorVmId := by
  rintro rfl
  rw [hypervisor_not_current spmc] at current
  cases current

/-- The normal world with one secure partition. -/
theorem ofPair_find (nwd sp : Endpoint m) (nwdId : nwd.vm.id = hfHypervisorVmId)
    (spId : sp.vm.id = id) (memory : HypMemory m) (pool : Mpool) :
    let s := Manager.ofPair nwd sp memory pool
    s.vms (hfOtherWorldId m) = some nwd ∧ platFfaVmFindLocked s id = some (.vm id, sp) ∧
      platFfaVmFindLockedCreate s id = some (.vm id, sp) := by
  intro s
  have other : nwd.vm.id ≠ sp.vm.id := by
    rw [nwdId, spId]
    exact (ne_hypervisor spmc current).symm
  have held : s.vms id = some sp := spId ▸ Manager.ofPair_second nwd sp memory pool
  have found : vmFindLocked s id = some (.vm id, sp) := by rw [vmFindLocked, held]; rfl
  refine ⟨?_, (if_pos (.inl current)).trans found, (if_pos (.inl current)).trans found⟩
  rw [hfOtherWorldId_spmc spmc, ← nwdId]
  exact (update_of_ne other ..).trans (update_self ..)

/-- A mailbox that the partition has read but not released is released. -/
theorem not_keepsSps_rxRelease : ¬KeepsSps m .rxRelease id := by
  intro keeps
  let sp : Endpoint m := .new (emptyVm m id .read)
  let nwd : Endpoint m := .new (emptyVm m hfHypervisorVmId .empty)
  let s : Manager m := .ofPair nwd sp ⟨emptyTable m .stage1, fun _ => 0⟩ []
  obtain ⟨held, found, -⟩ := ofPair_find spmc current nwd sp rfl rfl ⟨emptyTable m .stage1, fun _ => 0⟩ []
  have notCurrent : vmIdIsCurrentWorld m nwd.vm.id = false := hypervisor_not_current spmc
  have named : releaseVmId nwd id = id := by
    rw [releaseVmId, if_neg]
    rintro (absurd | zero)
    · rw [notCurrent] at absurd
      cases absurd
    · exact ne_hypervisor spmc current zero
  have ran : apiFfaRxRelease s nwd id ⟨0, 0, 0, 0, 0⟩ = .ok ({ func := ffaSuccess32 },
    s.put (.vm id) (sp.setState .empty)) := by
    have local_ : rxOwnedBySpmc s sp = false := by simp [rxOwnedBySpmc, spmc]
    rw [apiFfaRxRelease, if_neg (fun refused => by rw [notCurrent] at refused; cases refused.1), named, found]
    simp only [local_, Bool.false_eq_true, if_false]
    rfl
  have same := keeps s _ nwd (.rxRelease id) _ _ held rfl named ran id current
  have before : s.vms id = some sp := Manager.ofPair_second nwd sp _ _
  have after : (s.put (.vm id) (sp.setState .empty)).vms id = some (sp.setState .empty) := update_self ..
  rw [after, before] at same
  have states := congrArg (fun e : Endpoint m => e.vm.mailbox.state) (Option.some.inj same)
  cases states

/-- A pool with many free pages. -/
def ampleMpool (n : Nat) : Mpool := [⟨[], [(0, n)]⟩]

omit spmc current in
theorem freeCount_ampleMpool (n : Nat) : (ampleMpool n).freeCount = n := by
  simp [ampleMpool, Mpool.freeCount, MpoolLevel.freeCount]

/-- A registered pair of buffers is unmapped. -/
theorem not_keepsSps_rxtxUnmap : ¬KeepsSps m .rxtxUnmap id := by
  intro keeps
  let mode := mmModeR ||| mmModeW ||| mmModeX
  let cost (stage : Stage) (mode : Mode) (page : Nat) := bufferPages m stage mode page
  let pages := cost .stage2 mode 0x1000 + cost .stage2 mode 0x2000 + cost .stage1 mmModeUnmappedMask 0x1000 +
    cost .stage1 mmModeUnmappedMask 0x2000
  let sp : Endpoint m := { Endpoint.new (emptyVm m id .empty) with send := 0x1000, recv := 0x2000 }
  let nwd : Endpoint m := .new (emptyVm m hfHypervisorVmId .empty)
  let memory : HypMemory m := ⟨emptyTable m .stage1, fun _ => 0⟩
  let s : Manager m := .ofPair nwd sp memory (ampleMpool pages)
  obtain ⟨held, found, -⟩ := ofPair_find spmc current nwd sp rfl rfl memory _
  have notCurrent : vmIdIsCurrentWorld m nwd.vm.id = false := hypervisor_not_current spmc
  have named : unmapOwner nwd id = id := if_pos (ne_hypervisor spmc current)
  have free := freeCount_ampleMpool pages
  -- The two pages are given back to the partition and unmapped in the SPMC.
  obtain ⟨e₁, pool₁, sendBack, left₁⟩ := remap_pages sp
    (show cost .stage2 mode 0x1000 ≤ (ampleMpool pages).freeCount by omega)
  have left₁ : (ampleMpool pages).freeCount ≤ pool₁.freeCount + cost .stage2 mode 0x1000 := left₁
  obtain ⟨vm₁, rfl, t₁, rfl, -⟩ := remap_ok sendBack
  obtain ⟨e₂, pool₂, recvBack, left₂⟩ := remap_pages { sp with vm := { sp.vm with ptable := t₁ } }
    (show cost .stage2 mode 0x2000 ≤ pool₁.freeCount by omega)
  have left₂ : pool₁.freeCount ≤ pool₂.freeCount + cost .stage2 mode 0x2000 := left₂
  obtain ⟨vm₂, rfl, t₂, rfl, -⟩ := remap_ok recvBack
  obtain ⟨memory₁, pool₃, sendUnmapped, left₃⟩ := unmapStage1_pages memory (by decide)
    (show cost .stage1 mmModeUnmappedMask 0x1000 ≤ pool₂.freeCount by omega)
  have left₃ : pool₂.freeCount ≤ pool₃.freeCount + cost .stage1 mmModeUnmappedMask 0x1000 := left₃
  obtain ⟨memory₂, pool₄, recvUnmapped, -⟩ := unmapStage1_pages memory₁ (by decide)
    (show cost .stage1 mmModeUnmappedMask 0x2000 ≤ pool₃.freeCount by omega)
  let e : Endpoint m := { Endpoint.new (emptyVm m id .empty) with vm := { sp.vm with ptable := t₂ } }
  have destroyed : platFfaVmDestroy e = e := by
    rw [platFfaVmDestroy, if_neg]
    rintro ⟨-, other, -⟩
    rw [show e.vm.id = id from rfl, current] at other
    cases other
  have ran : apiFfaRxtxUnmap s nwd id ⟨0, 0, 0, 0, 0⟩ =
      .ok ({ func := ffaSuccess32 }, { s.put (.vm id) e with memory := memory₂, pool := pool₄ }) := by
    rw [apiFfaRxtxUnmap, if_neg (fun refused => by rw [notCurrent] at refused; cases refused.1), named, found]
    have given : returnBuffers sp s.pool = .ok ({ sp with vm := { sp.vm with ptable := t₂ } }, pool₂) := by
      rw [returnBuffers, if_neg (by rw [show sp.vm.id = id from rfl, current]; decide), bind_ok_iff]
      exact ⟨_, sendBack, recvBack⟩
    have forwarded : platFfaRxtxUnmapForward s ⟨0, 0, 0, 0, 0⟩ = .ok () := if_pos (.inl spmc)
    refine (if_neg (show ¬((0x1000 : Nat) = 0 ∨ (0x2000 : Nat) = 0) by decide)).trans ?_
    simp only [bind_ok_iff]
    refine ⟨_, given, _, sendUnmapped, _, recvUnmapped, _, forwarded, ?_⟩
    exact congrArg
      (fun e => Except.ok (_, { s.put (.vm id) e with memory := memory₂, pool := pool₄ })) destroyed
  have same := keeps s _ nwd (.rxtxUnmap id) _ _ held rfl named ran id current
  have before : s.vms id = some sp := Manager.ofPair_second nwd sp _ _
  have after : (s.put (.vm id) e).vms id = some e := update_self ..
  have sends := congrArg (fun e : Endpoint m => e.send)
    (Option.some.inj (after.symm.trans (same.trans before)))
  cases sends

/-- A table with one range of pages. -/
def mappedTable (m : MmConfig) (stage : Stage) (begin_ end_ : Nat) (mode : Mode) :
    MmPtable (m.levels stage) :=
  ((stageIdentityMap (emptyTable m stage)
    begin_ end_ mode (ampleMpool (mapPages m stage mode begin_ end_))).map
    fun r => r.value).getD (emptyTable m stage)

omit spmc current in
theorem mappedTable_spec (m : MmConfig) (stage : Stage) {begin_ end_ : Nat}
    (beginPage : begin_ % pageSize = 0) (endPage : end_ % pageSize = 0) (order : begin_ ≤ end_)
    (bound : end_ ≤ 2 ^ 30) (mode : Mode) :
    (mappedTable m stage begin_ end_ mode).WellFormed ∧ ∀ addr, begin_ ≤ addr → addr < end_ →
      (mappedTable m stage begin_ end_ mode).attrsAt addr = m.mappedAttrs stage mode := by
  have space := space_ge (m.levels stage)
  obtain ⟨r, mapped, ok, -⟩ := mmPtableIdentityUpdate_pages _ _
    (freeCount_ampleMpool (mapPages m stage mode begin_ end_)).ge
  obtain ⟨r', same, wf, update, -⟩ := stageIdentityMap_spec (emptyTable_wellFormed m stage) begin_ end_ mode
    (ampleMpool (mapPages m stage mode begin_ end_))
  cases mapped.symm.trans same
  rw [mappedTable, same]
  refine ⟨wf, fun addr lower upper => (update ok addr (by omega)).trans ?_⟩
  rw [mmMapBegin_of_page beginPage (by omega), mmMapEnd_of_page endPage (by omega), if_pos ⟨lower, upper⟩]

omit spmc current in
theorem exists_table (m : MmConfig) (stage : Stage) (begin_ end_ : Nat) (beginPage : begin_ % pageSize = 0)
    (endPage : end_ % pageSize = 0) (order : begin_ ≤ end_) (bound : end_ ≤ 2 ^ 30) (mode : Mode) :
    ∃ t : MmPtable (m.levels stage), t.WellFormed ∧
      ∀ addr, begin_ ≤ addr → addr < end_ → t.attrsAt addr = m.mappedAttrs stage mode :=
  ⟨_, mappedTable_spec m stage beginPage endPage order bound mode⟩

variable {t : MmPtable (m.levels .stage1)}

omit spmc current in
/-- A load from a readable page. -/
theorem loadTarget_of_attrs (wf : t.WellFormed) {va : Nat} (bound : va < 2 ^ 30)
    (valid : t.attrsAt va &&& pteValid ≠ 0) : loadTarget t va = some va := by
  have space := space_ge (m.levels .stage1)
  have mapped : t.attrsAt va ≠ 0 := by
    intro absent
    rw [absent] at valid
    exact valid (by simp)
  have untagged : va % 2 ^ 56 = va := by omega
  simp only [loadTarget, untagged, MmPtable.lookup_eq wf
    (show va < mmPtableAddrSpaceEnd (m.levels .stage1) by omega)]
  rw [if_pos (by omega), if_neg mapped]
  exact if_pos valid

omit spmc current in
/-- A load from readable pages. -/
theorem load_of_attrs (wf : memory.stage1.WellFormed) {va size : Nat} (bound : va + size ≤ 2 ^ 30)
    (valid : ∀ addr, va ≤ addr → addr < va + size → memory.stage1.attrsAt addr &&& pteValid ≠ 0) :
    ∃ bytes, load memory va size = .ok bytes ∧ ∀ k < size, bytes k = memory.bytes (va + k) := by
  have target (k : Nat) (small : k < size) : loadTarget memory.stage1 (va + k) = some (va + k) :=
    loadTarget_of_attrs wf (by omega) (valid (va + k) (by omega) (by omega))
  refine ⟨_, if_pos fun k small => by rw [target k small]; rfl, fun k small => ?_⟩
  rw [target k small]
  rfl

omit spmc current in
/-- The attributes of the manager's own mapping of a TX buffer. -/
theorem mappedAttrs_readable (m : MmConfig) : m.mappedAttrs .stage1 mmModeR &&& pteValid ≠ 0 := by
  obtain ⟨⟨vhe, secure, protection⟩, pa⟩ := m
  simp only [MmConfig.mappedAttrs, MmConfig.modeToAttrs]
  cases vhe <;> cases secure <;> cases protection <;> decide

/-- An endpoint RX/TX descriptor that names the pages 0x1000 and 0x2000. -/
def descriptorBytes (id : VmId) (k : Nat) : BitVec 8 :=
  match k with
  | 0 => id.setWidth 8
  | 1 => (id >>> 8).setWidth 8
  | 4 => 16
  | 8 => 48
  | 33 => 0x20
  | 40 => 1
  | 65 => 0x10
  | _ => 0

/-- A memory with the descriptor at 0x3000. -/
def descriptorMemory (id : VmId) (t : MmPtable (m.levels .stage1)) : HypMemory m :=
  ⟨t, fun addr => descriptorBytes id (addr - 0x3000)⟩

omit spmc current in
theorem descriptorBytes_id (id : VmId) : LittleEndian.u16 (descriptorBytes id) 0 = id := by
  apply BitVec.eq_of_toNat_eq
  simp only [LittleEndian.u16, LittleEndian.read, descriptorBytes, BitVec.toNat_ofNat, BitVec.toNat_setWidth,
    BitVec.toNat_ushiftRight, Nat.shiftRight_eq_div_pow]
  omega

omit current in
/-- The description of a forwarded call. -/
theorem apiGetRxtxDescription_forwarded (wf : t.WellFormed)
    (attrs : ∀ addr, 0x3000 ≤ addr → addr < 0x4000 → t.attrsAt addr = m.mappedAttrs .stage1 mmModeR)
    {nwd : Endpoint m} (nwdId : nwd.vm.id = hfHypervisorVmId) (send : nwd.send = 0x3000) :
    apiGetRxtxDescription (descriptorMemory id t) nwd 0 0 0 = .ok ⟨0x1000, 0x2000, 1, id⟩ := by
  have valid := mappedAttrs_readable m
  have loads (offset size : Nat) (inside : offset + size ≤ 0x1000) : ∃ bytes,
      load (descriptorMemory id t) (0x3000 + offset) size = .ok bytes ∧
        ∀ k < size, bytes k = descriptorBytes id (offset + k) := by
    obtain ⟨bytes, loaded, same⟩ := load_of_attrs (wf)
      (show 0x3000 + offset + size ≤ 2 ^ 30 by omega) fun addr lower upper => by
        rw [show (descriptorMemory id t).stage1.attrsAt addr = _ from attrs addr (by omega) (by omega)]
        exact valid
    refine ⟨bytes, loaded, fun k small => (same k small).trans ?_⟩
    simp only [descriptorMemory]
    rw [show 0x3000 + offset + k - 0x3000 = offset + k by omega]
  obtain ⟨desc, loaded, descBytes⟩ := loads 0 12 (by decide)
  obtain ⟨rx, rxLoaded, rxBytes⟩ := loads 32 12 (by decide)
  obtain ⟨tx, txLoaded, txBytes⟩ := loads 64 8 (by decide)
  have field {bytes : Bytes} {size base : Nat}
      (same : ∀ k < size, bytes k = descriptorBytes id (base + k)) (offset n : Nat)
      (inside : offset + n ≤ size) : LittleEndian.read bytes offset n =
        LittleEndian.read (descriptorBytes id) (base + offset) n :=
    LittleEndian.read_congr fun k small => by rw [same (offset + k) (by omega), Nat.add_assoc]
  have rxOffset : LittleEndian.u32 desc 4 = 16 := by
    rw [LittleEndian.u32, field descBytes 4 4 (by decide)]
    rfl
  have txOffset : LittleEndian.u32 desc 8 = 48 := by
    rw [LittleEndian.u32, field descBytes 8 4 (by decide)]
    rfl
  have owner : LittleEndian.u16 desc 0 = id := by
    rw [LittleEndian.u16, field descBytes 0 2 (by decide)]
    exact descriptorBytes_id id
  have rxAddress : LittleEndian.u64 rx 0 = 0x2000 := by
    rw [LittleEndian.u64, field rxBytes 0 8 (by decide)]
    simp [LittleEndian.read, descriptorBytes]
  have rxPages : LittleEndian.u32 rx 8 = 1 := by
    rw [LittleEndian.u32, field rxBytes 8 4 (by decide)]
    rfl
  have txAddress : LittleEndian.u64 tx 0 = 0x1000 := by
    rw [LittleEndian.u64, field txBytes 0 8 (by decide)]
    simp [LittleEndian.read, descriptorBytes]
  rw [apiGetRxtxDescription, rxtxDescriptionVia,
    if_pos ⟨nwdId.trans (hfOtherWorldId_spmc spmc).symm, rfl, rfl, rfl⟩, send]
  simp only [bind_ok_iff]
  refine ⟨desc, loaded, rx, ?_, tx, ?_, ?_⟩
  · rw [rxOffset]
    exact rxLoaded
  · rw [txOffset]
    exact txLoaded
  · rw [txAddress, rxAddress, rxPages, owner]

omit spmc current in
/-- A page of a partition that it may register. -/
theorem bufferMode_some {t : MmPtable (m.levels .stage2)} {mailbox : Mailbox}
    (attrs : ∀ addr, 0x1000 ≤ addr → addr < 0x3000 →
      t.attrsAt addr = m.mappedAttrs .stage2 (mmModeR ||| mmModeW))
    {page : BitVec 64} (isPage : page = 0x1000 ∨ page = 0x2000) (rights : List Mode)
    (among : ∀ right ∈ rights, right = mmModeR ∨ right = mmModeW) :
    ∃ mode, bufferMode (⟨id, false, t, mailbox⟩ : Vm m) page.toNat rights = some mode := by
  let mode := archMmStage2AttrsToMode (archMmModeToStage2Attrs (mmModeR ||| mmModeW))
  have space := space_ge (m.levels .stage2)
  have aligned : page.toNat % pageSize = 0 := by rcases isPage with rfl | rfl <;> rfl
  have bounds : 0x1000 ≤ page.toNat ∧ page.toNat ≤ 0x2000 := by rcases isPage with rfl | rfl <;> simp
  let c : Constituent := ⟨page, 1⟩
  have size : c.size = 0x1000 := by simp [c, Constituent.size, pageSize]
  have ends : bufferEnd page.toNat = c.end_ := by rw [bufferEnd, Constituent.end_, size, hfMailboxSize]
  have found : vmMemGetMode (⟨id, false, t, mailbox⟩ : Vm m) page.toNat (bufferEnd page.toNat) =
      some mode := by
    rw [ends]
    refine (vmMemGetMode_iff (show c.begin_ % pageSize = 0 from aligned)).mpr
      ⟨m.mappedAttrs .stage2 (mmModeR ||| mmModeW), ⟨⟨aligned, by rw [size]; decide, ?_⟩, ?_⟩, rfl⟩
    · rw [size]
      have inside : page.toNat + 0x1000 ≤ mmPtableAddrSpaceEnd (m.levels .stage2) := by omega
      exact inside
    · rintro addr ⟨lower, upper⟩
      have lower : page.toNat ≤ addr := lower
      rw [size] at upper
      have upper : addr < page.toNat + 0x1000 := upper
      exact attrs addr (by omega) (by omega)
  refine ⟨mode, ?_⟩
  rw [bufferMode, found]
  refine Option.filter_some_pos ?_
  simp only [Bool.and_eq_true, List.all_eq_true, decide_eq_true_eq]
  refine ⟨by decide, fun right member => ?_⟩
  rcases among right member with rfl | rfl <;> decide

/-- A pair of buffers is registered for a partition that has none. -/
theorem not_keepsSps_rxtxMap : ¬KeepsSps m .rxtxMap id := by
  intro keeps
  obtain ⟨t₁, wf₁, attrs₁⟩ := exists_table m .stage1 0x3000 0x4000 rfl rfl (by decide) (by decide) mmModeR
  obtain ⟨t₂, -, attrs₂⟩ := exists_table m .stage2 0x1000 0x3000 rfl rfl (by decide) (by decide) _
  let sp : Endpoint m := .new ⟨id, false, t₂, ⟨.empty, false, none⟩⟩
  let nwd : Endpoint m :=
    { Endpoint.new (emptyVm m hfHypervisorVmId .empty) with send := 0x3000, recv := 0x4000 }
  let memory := descriptorMemory id t₁
  let extra := archMmExtraAttributesFromVm id ||| 0
  let tablePages := bufferPages m .stage2 (sharedBufferMode sp.vm (mmModeR ||| mmModeW)) 0x1000 +
    bufferPages m .stage2 (sharedBufferMode sp.vm mmModeR) 0x2000
  let stage1Pages := bufferPages m .stage1 (mmModeR ||| extra) 0x1000 +
    bufferPages m .stage1 (mmModeW ||| extra) 0x2000
  let pool := ampleMpool (tablePages + stage1Pages)
  let s : Manager m := .ofPair nwd sp memory pool
  obtain ⟨held, -, found⟩ := ofPair_find spmc current nwd sp rfl rfl memory pool
  have described : apiGetRxtxDescription memory nwd 0 0 0 = .ok ⟨0x1000, 0x2000, 1, id⟩ :=
    apiGetRxtxDescription_forwarded spmc wf₁ attrs₁ rfl rfl
  have free : (mpoolInitWithFallback pool).freeCount = tablePages + stage1Pages := by
    rw [freeCount_mpoolInitWithFallback, freeCount_ampleMpool]
  -- The pages are taken from the partition and mapped into the SPMC.
  obtain ⟨sendMode, sendFound⟩ :
      ∃ mode, bufferMode sp.vm (0x1000 : BitVec 64).toNat [mmModeR, mmModeW] = some mode :=
    bufferMode_some attrs₂ (.inl rfl) _ (by simp)
  obtain ⟨recvMode, recvFound⟩ : ∃ mode, bufferMode sp.vm (0x2000 : BitVec 64).toNat [mmModeR] = some mode :=
    bufferMode_some attrs₂ (.inr rfl) _ (by simp)
  obtain ⟨vm, pool₁, taken, left⟩ := takeBuffers_pages current sendFound recvFound
    (show tablePages ≤ (mpoolInitWithFallback pool).freeCount by omega)
  have left : (mpoolInitWithFallback pool).freeCount ≤ pool₁.freeCount + tablePages := left
  obtain ⟨memory', pool₂, mapped⟩ := apiVmConfigureStage1_pages { sp with vm } memory
    (by decide) (by decide)
    (show stage1Pages ≤ pool₁.freeCount by omega)
  obtain ⟨t, rfl, -⟩ : ∃ t, vm = { sp.vm with ptable := t } ∧ _ := by
    obtain ⟨vm', same, t, rfl, -⟩ := takeBuffers_ok _ taken
    exact ⟨t, congrArg Endpoint.vm same, trivial⟩
  let e : Endpoint m := { sp with vm := { sp.vm with ptable := t }, send := 0x1000, recv := 0x2000 }
  have configured : apiVmConfigurePages sp memory (0x1000 : BitVec 64).toNat (0x2000 : BitVec 64).toNat 1
      (mpoolInitWithFallback pool) = .ok (.ok (), e, memory', pool₂) := by
    rw [apiVmConfigurePages, if_neg (by simp [sp, Endpoint.new]), if_neg (by decide),
      if_neg (by decide), if_neg (by decide), bind_ok_iff]
    refine ⟨_, taken, ?_⟩
    simp only [bind_ok_iff]
    exact ⟨_, mapped, rfl⟩
  have ran : apiFfaRxtxMap s nwd 0 0 0 ⟨0, 0, 0, 0, 0⟩ =
      .ok ({ func := ffaSuccess32 },
        { s.put (.vm id) e with memory := memory', pool := mpoolFini pool₂ }) := by
    simp only [apiFfaRxtxMap, bind_ok_iff]
    refine ⟨⟨0x1000, 0x2000, 1, id⟩, described, ?_⟩
    rw [show platFfaVmFindLockedCreate s id = some (.vm id, sp) from found]
    simp only [bind_ok_iff]
    exact ⟨_, configured, bind_ok_iff.mpr ⟨_, if_pos (.inl spmc), rfl⟩⟩
  have same := keeps s _ nwd (.rxtxMap 0 0 0) _ _ held rfl ⟨_, described, rfl⟩ ran id current
  have before : s.vms id = some sp := Manager.ofPair_second nwd sp _ _
  have after : (s.put (.vm id) e).vms id = some e := update_self ..
  have sends := congrArg (fun e : Endpoint m => e.send)
    (Option.some.inj (after.symm.trans (same.trans before)))
  cases sends

end Sp

/-- On behalf of which endpoints the normal world's mailbox calls leave all secure partitions alone:
those of the normal world, and with FFA_RX_ACQUIRE all. -/
theorem nwd_mailbox_call_keeps_sps_iff (spmc : m.features.secureWorld = true) (func : MailboxFunc)
    (id : VmId) : KeepsSps m func id ↔ vmIdIsCurrentWorld m id = false ∨ func = .rxAcquire := by
  constructor
  · intro keeps
    cases current : vmIdIsCurrentWorld m id with
    | false => exact .inl rfl
    | true =>
      cases func with
      | rxtxMap => exact absurd keeps (not_keepsSps_rxtxMap spmc current)
      | rxtxUnmap => exact absurd keeps (not_keepsSps_rxtxUnmap spmc current)
      | rxRelease => exact absurd keeps (not_keepsSps_rxRelease spmc current)
      | rxAcquire => exact .inr rfl
  · intro allowed s s' vm call answer ret caller isFunc named returned
    have effect := MailboxCall.run_effect returned
    rcases allowed with other | acquire
    · intro sp current
      refine effect.others named ?_
      rintro rfl
      rw [current] at other
      cases other
    · rw [acquire] at isFunc
      cases call with
      | rxAcquire receiverId =>
        -- The SPMC hands over the RX buffers of normal-world VMs only.
        intro sp current
        by_cases same : sp = receiverId
        · cases effect with
          | refused => rfl
          | mark state named placed replaces memory acquires =>
            have isVm := acquires _ rfl
            rw [platFfaIsVmId, if_pos spmc, ← same, current] at isVm
            cases isVm
        · exact effect.others (rfl) same
      | rxtxMap send recv pageCount => cases isFunc
      | rxtxUnmap allocatorId => cases isFunc
      | rxRelease receiverId => cases isFunc

/-- An SPMC on a 32-bit platform. -/
def spmcConfig : MmConfig := ⟨⟨false, true, false⟩, ⟨32, least_supported⟩⟩

/-- Calls for the partition 0x8001 and for the VM 1. -/
theorem nwd_mailbox_call_keeps_sps_iff_first_sp : spmcConfig.features.secureWorld = true ∧
    ¬KeepsSps spmcConfig .rxtxMap 0x8001 ∧ KeepsSps spmcConfig .rxAcquire 0x8001 ∧
    KeepsSps spmcConfig .rxtxMap 1 := by
  have iff := nwd_mailbox_call_keeps_sps_iff (show spmcConfig.features.secureWorld = true from rfl)
  exact ⟨rfl, fun keeps => absurd ((iff .rxtxMap 0x8001).mp keeps) (by decide),
    (iff .rxAcquire 0x8001).mpr (by decide), (iff .rxtxMap 1).mpr (by decide)⟩

/-- The normal world releases a message that the secure partition 0x8001 is still reading. -/
theorem nwd_rxRelease_empties_sp_mailbox :
    let sp : Endpoint spmcConfig := .new (emptyVm spmcConfig 0x8001 .read)
    let nwd : Endpoint spmcConfig := .new (emptyVm spmcConfig hfHypervisorVmId .empty)
    let s : Manager spmcConfig := .ofPair nwd sp ⟨emptyTable spmcConfig .stage1, fun _ => 0⟩ []
    let mailboxState (s : Manager spmcConfig) := (s.vms 0x8001).map fun e => e.vm.mailbox.state
    ∃ s', (MailboxCall.rxRelease 0x8001).run s nwd ⟨0, 0, 0, 0, 0⟩ = .ok ({ func := ffaSuccess32 }, s') ∧
      mailboxState s = some .read ∧ mailboxState s' = some .empty :=
  ⟨_, rfl, rfl, rfl⟩

end Hafnium.Api
