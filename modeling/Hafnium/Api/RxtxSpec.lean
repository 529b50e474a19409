import Hafnium.Api.Rxtx
import Hafnium.Mm.Frame

/-! # What registering buffers changes

One specification per function: registering and unregistering buffers replaces one endpoint, of
which only the page table and the buffer addresses change, and touches the tables only where the
two pages are.
-/

namespace Hafnium.Ffa

open Mm Partial

variable {m : MmConfig} {touched touched' : Nat → Prop}

/-- Of the partition only the page table changes, and only at the touched addresses. -/
def Vm.ChangesWithin (touched : Nat → Prop) (vm vm' : Vm m) : Prop :=
  ∃ t, vm' = { vm with ptable := t } ∧ (vm.WellFormed → vm.ptable.ChangesWithin touched t)

namespace Vm.ChangesWithin

variable {vm vm' vm'' : Vm m}

theorem refl : vm.ChangesWithin touched vm := ⟨vm.ptable, rfl, .refl⟩

theorem trans (first : vm.ChangesWithin touched vm') (second : vm'.ChangesWithin touched vm'') :
    vm.ChangesWithin touched vm'' := by
  obtain ⟨t, rfl, first⟩ := first
  obtain ⟨t', rfl, second⟩ := second
  exact ⟨t', rfl, fun wf => (first wf).trans (second (first wf).wellFormed)⟩

theorem mono (changes : vm.ChangesWithin touched vm') (more : ∀ addr, touched addr → touched' addr) :
    vm.ChangesWithin touched' vm' := by
  obtain ⟨t, rfl, changes⟩ := changes
  exact ⟨t, rfl, fun wf => (changes wf).mono more⟩

theorem defrag (pool : Mpool) : vm.ChangesWithin touched (vmPtableDefrag vm pool).1 :=
  ⟨_, rfl, fun wf => mmPtableDefrag_changesWithin wf⟩

theorem id_eq (changes : vm.ChangesWithin touched vm') : vm'.id = vm.id := by
  obtain ⟨t, rfl, -⟩ := changes
  rfl

end Vm.ChangesWithin

/-- Of the memory only the stage-1 table changes, and only at the touched addresses. -/
structure HypMemory.ChangesWithin (touched : Nat → Prop) (s s' : HypMemory m) : Prop where
  bytes : s'.bytes = s.bytes
  stage1 : s.stage1.WellFormed → s.stage1.ChangesWithin touched s'.stage1

namespace HypMemory.ChangesWithin

variable {s s' s'' : HypMemory m}

theorem refl : s.ChangesWithin touched s := ⟨rfl, .refl⟩

theorem trans (first : s.ChangesWithin touched s') (second : s'.ChangesWithin touched s'') :
    s.ChangesWithin touched s'' :=
  ⟨second.bytes.trans first.bytes, fun wf => (first.stage1 wf).trans
    (second.stage1 (first.stage1 wf).wellFormed)⟩

theorem mono (changes : s.ChangesWithin touched s') (more : ∀ addr, touched addr → touched' addr) :
    s.ChangesWithin touched' s' := ⟨changes.bytes, fun wf => (changes.stage1 wf).mono more⟩

theorem defrag (pool : Mpool) :
    s.ChangesWithin touched { s with stage1 := (mmPtableDefrag m.features s.stage1 pool).1 } :=
  ⟨rfl, fun wf => mmPtableDefrag_changesWithin wf⟩

end HypMemory.ChangesWithin

end Hafnium.Ffa

namespace Hafnium.Api

open Mm Ffa Partial

variable {m : MmConfig}

/-! ## Mapping -/

variable {pool pool' : Mpool} {e e' : Endpoint m} {memory memory' : HypMemory m}
  {pageCount : BitVec 32} {s : Manager m} {place : Place}

section Map

variable {begin_ end_ : Nat} {mode : Mode}

theorem vmIdentityMap_changesWithin {vm : Vm m} {r : Updated (Vm m)}
    (ran : vmIdentityMap vm begin_ end_ mode pool = .ok r) :
    vm.ChangesWithin (Touches begin_ end_) r.value := by
  have prepares : vm.ChangesWithin (Touches begin_ end_) (vmIdentityPrepare vm begin_ end_ mode pool).value :=
    ⟨_, rfl, fun wf => stageIdentityPrepare_changesWithin wf⟩
  rw [vmIdentityMap] at ran
  split at ran
  · obtain ⟨⟨vm', pool'⟩, commit, ⟨⟩⟩ := bind_ok_iff.mp ran
    obtain ⟨t, committed, rfl⟩ := vmIdentityCommit_ok commit
    exact prepares.trans ⟨t, rfl, fun wf => stageIdentityCommit_changesWithin wf committed⟩
  · cases ran
    exact prepares

theorem remap_ok (ran : remap e begin_ end_ mode pool = .ok (e', pool')) :
    ∃ vm, e' = { e with vm } ∧ e.vm.ChangesWithin (Touches begin_ end_) vm := by
  simp only [remap, bind_ok_iff] at ran
  obtain ⟨r, mapped, ran⟩ := ran
  split at ran
  · cases ran
    exact ⟨r.value, rfl, vmIdentityMap_changesWithin mapped⟩
  · cases ran

theorem mmIdentityMap_changesWithin {ptr : Nat} {t : MmPtable (m.levels .stage1)}
    (ran : mmIdentityMap memory.stage1 begin_ end_ mode pool = .ok (ptr, t, pool')) :
    (ptr ≠ 0 → ptr = begin_) ∧ memory.ChangesWithin (Touches begin_ end_) { memory with stage1 := t } := by
  simp only [mmIdentityMap] at ran
  split at ran
  · cases ran
  · next r mapped =>
    cases ran
    refine ⟨fun notNull => ?_, rfl, fun wf => stageIdentityMap_changesWithin wf mapped⟩
    split at notNull
    · next ok => exact if_pos ok
    · exact absurd rfl notNull

theorem unmapStage1_ok (ran : unmapStage1 memory begin_ end_ pool = .ok (memory', pool')) :
    memory.ChangesWithin (Touches begin_ end_) memory' := by
  simp only [unmapStage1, bind_ok_iff] at ran
  obtain ⟨⟨ptr, t, pool₁⟩, unmapped, ran⟩ := ran
  split at ran
  · cases ran
    exact (mmIdentityMap_changesWithin unmapped).2
  · cases ran

end Map

/-! ## Registering -/

/-- The addresses that mapping a buffer reaches. -/
def BufferTouches (page addr : Nat) : Prop := Touches page (bufferEnd page) addr

/-- The addresses that mapping a pair of buffers reaches. -/
def PairTouches (send recv addr : Nat) : Prop := BufferTouches send addr ∨ BufferTouches recv addr

section Configure

variable {send recv : Nat}

/-- Either both pages are mapped or no buffer is set up. -/
theorem apiVmConfigureStage1_ok {extra : Mode} (unset : e.recv = 0) :
    Post (apiVmConfigureStage1 e memory send recv extra pool) fun r =>
    memory.ChangesWithin (PairTouches send recv) r.2.2.1 ∧ (r.1 = true → send ≠ 0 ∧ recv ≠ 0) ∧
      r.2.1 = if r.1 then { e with send, recv } else { e with send := 0 } := by
  refine .step fun ⟨ptr, t, pool₁⟩ sendMapped => ?_
  obtain ⟨sendPtr, first⟩ := mmIdentityMap_changesWithin sendMapped
  have first : memory.ChangesWithin (PairTouches send recv) { memory with stage1 := t } :=
    first.mono fun _ => .inl
  refine .ite (fun null => .ok ⟨first.trans (.defrag pool₁), nofun, ?_⟩) fun notNull =>
    .step fun ⟨ptr', t', pool₂⟩ recvMapped => ?_
  · dsimp only at null ⊢
    rw [null, if_neg Bool.false_ne_true]
  cases sendPtr notNull
  obtain ⟨recvPtr, second⟩ := mmIdentityMap_changesWithin
    (show mmIdentityMap ({ memory with stage1 := t } : HypMemory m).stage1 _ _ _ _ = _ from recvMapped)
  have both := first.trans (second.mono fun _ => .inr)
  refine .ite (fun null => .step fun ⟨memory₁, pool₃⟩ unmapped => .ok ⟨?_, nofun, ?_⟩) fun notNull' => .ok ?_
  · exact (both.trans (.defrag pool₂)).trans ((unmapStage1_ok unmapped).mono fun _ => .inl)
  · rw [null, unset, if_neg Bool.false_ne_true]
  · cases recvPtr notNull'
    exact ⟨both, fun _ => ⟨notNull, notNull'⟩, rfl⟩

theorem takeBuffers_ok : Post (takeBuffers e send recv pool) fun r =>
    ∃ vm, r.2.1 = { e with vm } ∧ e.vm.ChangesWithin (PairTouches send recv) vm := by
  rw [takeBuffers]
  split
  · exact .ok ⟨_, rfl, .refl⟩
  split
  rotate_left
  · exact .ok ⟨_, rfl, .refl⟩
  refine .step fun r sendMapped => ?_
  have first : e.vm.ChangesWithin (PairTouches send recv) r.value :=
    (vmIdentityMap_changesWithin sendMapped).mono fun _ => .inl
  refine .ite (fun _ => .step fun r' recvMapped => ?_) fun _ => .ok ⟨_, rfl, first⟩
  have both := first.trans ((vmIdentityMap_changesWithin recvMapped).mono fun _ => .inr)
  refine .guard ⟨_, rfl, both⟩ fun _ => .step fun ⟨e₁, pool₁⟩ undone => .ok ?_
  obtain ⟨vm, rfl, undo⟩ := remap_ok undone
  exact ⟨vm, rfl, (both.trans (.defrag r'.state)).trans (undo.mono fun _ => .inl)⟩

theorem giveBackBuffers_ok {orig : OrigModes}
    (ran : giveBackBuffers e send recv orig pool = .ok (e', pool')) :
    ∃ vm, e' = { e with vm } ∧ e.vm.ChangesWithin (PairTouches send recv) vm := by
  rw [giveBackBuffers] at ran
  split at ran
  · obtain ⟨⟨e₁, pool₁⟩, recvBack, sendBack⟩ := bind_ok_iff.mp ran
    obtain ⟨vm₁, rfl, first⟩ := remap_ok recvBack
    obtain ⟨vm₂, rfl, second⟩ := remap_ok sendBack
    exact ⟨vm₂, rfl, (first.mono fun _ => .inr).trans (second.mono fun _ => .inl)⟩
  · cases ran

/-- A pair of buffers is registered, or the addresses stay as they are. With buffers already
registered nothing is touched. -/
theorem apiVmConfigurePages_ok : Post (apiVmConfigurePages e memory send recv pageCount pool) fun r =>
    memory.ChangesWithin (PairTouches send recv) r.2.2.1 ∧
    ∃ vm, e.vm.ChangesWithin (PairTouches send recv) vm ∧
      ((∃ error, r.1 = .error error ∧ r.2.1 = { e with vm } ∧ (e.send ≠ 0 ∨ e.recv ≠ 0 → r.2.2.1 = memory)) ∨
        r.1 = .ok () ∧ e.send = 0 ∧ e.recv = 0 ∧ recv ≠ 0 ∧ send % pageSize = 0 ∧ recv % pageSize = 0 ∧
          r.2.1 = { e with vm, send, recv }) := by
  refine .guard ⟨.refl, _, .refl, .inl ⟨_, rfl, rfl, fun _ => rfl⟩⟩ fun unset =>
    .guard ⟨.refl, _, .refl, .inl ⟨_, rfl, rfl, fun _ => rfl⟩⟩
    fun _ => .guard ⟨.refl, _, .refl, .inl ⟨_, rfl, rfl, fun _ => rfl⟩⟩ fun pages =>
    .guard ⟨.refl, _, .refl, .inl ⟨_, rfl, rfl, fun _ => rfl⟩⟩ fun _ => .bind takeBuffers_ok ?_
  simp only [not_or, not_not] at unset pages
  rintro ⟨orig, e₁, pool₁⟩ ⟨vm₁, taken, tables⟩
  dsimp only at taken ⊢
  subst taken
  split
  · exact .ok ⟨.refl, vm₁, tables, .inl ⟨_, rfl, rfl, fun _ => rfl⟩⟩
  refine .bind (apiVmConfigureStage1_ok unset.2) ?_
  rintro ⟨mapped, e₂, memory₁, pool₂⟩ ⟨changes, notNull, configured⟩
  cases mapped with
  | true =>
    obtain rfl : e₂ = { e with vm := vm₁, send, recv } := configured
    exact .ok ⟨changes, vm₁, tables, .inr ⟨rfl, unset.1, unset.2, (notNull rfl).2, pages.1, pages.2, rfl⟩⟩
  | false =>
    obtain rfl : e₂ = { e with vm := vm₁, send := 0 } := configured
    refine .step fun ⟨e₃, pool₃⟩ given => .ok ?_
    obtain ⟨vm₂, rfl, back⟩ := giveBackBuffers_ok given
    refine ⟨changes, vm₂, tables.trans back, .inl ⟨_, rfl, ?_, ?_⟩⟩
    · simp only [unset.1]
    · rintro (set | set)
      · exact absurd unset.1 set
      · exact absurd unset.2 set

end Configure

theorem returnBuffers_ok (ran : returnBuffers e pool = .ok (e', pool')) :
    ∃ vm, e' = { e with vm } ∧ e.vm.ChangesWithin (PairTouches e.send e.recv) vm := by
  rw [returnBuffers] at ran
  split at ran
  · cases ran
    exact ⟨_, rfl, .refl⟩
  · obtain ⟨⟨e₁, pool₁⟩, sendBack, recvBack⟩ := bind_ok_iff.mp ran
    obtain ⟨vm₁, rfl, first⟩ := remap_ok sendBack
    obtain ⟨vm₂, rfl, second⟩ := remap_ok recvBack
    exact ⟨vm₂, rfl, (first.mono fun _ => .inl).trans (second.mono fun _ => .inr)⟩

/-! ## Endpoints -/

section Lookup

variable {id : VmId}

theorem vmIdIsCurrentWorld_ne (current : vmIdIsCurrentWorld m id = true) : id ≠ hfOtherWorldId m := by
  rintro rfl
  simp [vmIdIsCurrentWorld] at current

/-- A partition of this world or the other world itself has its own place; a normal-world VM has
one in the table of the SPMC. -/
inductive Placed (m : MmConfig) (id : VmId) : Place → Prop
  | vm (kept : vmIdIsCurrentWorld m id = true ∨ id = hfOtherWorldId m) : Placed m id (.vm id)
  | nwdVm (i : Nat) (other : vmIdIsCurrentWorld m id = false) : Placed m id (.nwdVm i)

theorem vmFindLocked_some (found : vmFindLocked s id = some (place, e)) :
    place = .vm id ∧ s.vms id = some e := by
  simp only [vmFindLocked, Option.map_eq_some_iff, Prod.mk.injEq] at found
  obtain ⟨e', held, rfl, rfl⟩ := found
  exact ⟨rfl, held⟩

theorem platFfaNwdVmFindLocked_some (found : platFfaNwdVmFindLocked s id = some (place, e)) :
    ∃ i, place = .nwdVm i ∧ s.nwdVms[i]? = some e := by
  simp only [platFfaNwdVmFindLocked, Option.bind_eq_some_iff, Option.map_eq_some_iff, Prod.mk.injEq] at found
  obtain ⟨i, -, e', held, rfl, rfl⟩ := found
  exact ⟨i, rfl, held⟩

theorem platFfaVmFindLocked_some (found : platFfaVmFindLocked s id = some (place, e)) :
    Placed m id place ∧ s.get place = some e := by
  rw [platFfaVmFindLocked] at found
  split at found
  · next kept =>
    obtain ⟨rfl, held⟩ := vmFindLocked_some found
    exact ⟨.vm kept, held⟩
  · next notKept =>
    simp only [not_or, Bool.not_eq_true] at notKept
    split at found
    · obtain ⟨i, rfl, held⟩ := platFfaNwdVmFindLocked_some found
      exact ⟨.nwdVm i notKept.1, held⟩
    · cases found

theorem platFfaNwdVmFindLocked_id (found : platFfaNwdVmFindLocked s id = some (place, e)) : e.vm.id = id := by
  simp only [platFfaNwdVmFindLocked, Option.bind_eq_some_iff, Option.map_eq_some_iff, Prod.mk.injEq] at found
  obtain ⟨i, index, e', held, -, rfl⟩ := found
  obtain ⟨bound, isId, -⟩ := List.findIdx?_eq_some_iff_getElem.mp index
  rw [List.getElem?_eq_getElem bound, Option.some.injEq] at held
  rw [← held]
  exact of_decide_eq_true isId

/-- The endpoint that is found is the one that was asked for. -/
theorem platFfaVmFindLocked_id (found : platFfaVmFindLocked s id = some (place, e)) : e.vm.id = id := by
  rw [platFfaVmFindLocked] at found
  split at found
  · exact s.vmIds (vmFindLocked_some found).2
  · split at found
    · exact platFfaNwdVmFindLocked_id found
    · cases found

/-- A slot that is allocated only gets a new identifier. -/
theorem platFfaVmFindLockedCreate_some (found : platFfaVmFindLockedCreate s id = some (place, e)) :
    Placed m id place ∧ ∃ e₀ id', s.get place = some e₀ ∧ e = { e₀ with vm := { e₀.vm with id := id' } } ∧
      (∀ id, place = .vm id → id' = id) := by
  rw [platFfaVmFindLockedCreate] at found
  split at found
  · next kept =>
    obtain ⟨rfl, held⟩ := vmFindLocked_some found
    refine ⟨.vm kept, e, e.vm.id, held, rfl, ?_⟩
    rintro _ ⟨⟩
    exact s.vmIds held
  · next notKept =>
    simp only [not_or, Bool.not_eq_true] at notKept
    split at found
    · rw [platFfaNwdVmCreate] at found
      split at found
      · next found' exists_ =>
        cases found
        obtain ⟨i, rfl, held⟩ := platFfaNwdVmFindLocked_some exists_
        exact ⟨.nwdVm i notKept.1, e, e.vm.id, held, rfl, nofun⟩
      · simp only [Option.map_eq_some_iff, Prod.mk.injEq, Prod.exists] at found
        obtain ⟨_, e₀, free, rfl, rfl⟩ := found
        obtain ⟨i, rfl, held⟩ := platFfaNwdVmFindLocked_some free
        exact ⟨.nwdVm i notKept.1, e₀, id, held, rfl, nofun⟩
    · cases found

end Lookup

/-- Replacing an endpoint of a place, with the identifier that its place asks for. -/
theorem Manager.get_put {e₀ : Endpoint m} (held : s.get place = some e₀)
    (sameId : ∀ id, place = .vm id → e.vm.id = id) (q : Place) :
    (s.put place e).get q = if q = place then some e else s.get q := by
  cases place with
  | vm id =>
    cases sameId id rfl
    cases q with
    | vm id' =>
      by_cases here : id' = e.vm.id
      · subst here
        rw [if_pos rfl]
        exact Function.update_self ..
      · rw [if_neg (fun same => here (Place.vm.inj same))]
        exact Function.update_of_ne here ..
    | nwdVm i => rfl
  | nwdVm i =>
    cases q with
    | vm id' => rfl
    | nwdVm j =>
      have bound : i < s.nwdVms.length := (List.getElem?_eq_some_iff.mp held).1
      by_cases here : j = i
      · subst here
        rw [if_pos rfl]
        exact List.getElem?_set_self bound
      · rw [if_neg (fun same => here (Place.nwdVm.inj same))]
        exact List.getElem?_set_ne (Ne.symm here)

theorem Manager.put_teeEnabled (s : Manager m) (place : Place) (e : Endpoint m) :
    (s.put place e).teeEnabled = s.teeEnabled := by
  cases place <;> rfl

/-- Another endpoint takes the place of one. -/
structure Manager.Replaces (s : Manager m) (place : Place) (e e' : Endpoint m) (s' : Manager m) : Prop where
  held : s.get place = some e
  get : ∀ q, s'.get q = if q = place then some e' else s.get q
  enabled : s'.teeEnabled = s.teeEnabled

theorem Manager.Replaces.withMemory {e' : Endpoint m} {s' : Manager m} (replaces : s.Replaces place e e' s')
    (memory : HypMemory m) : s.Replaces place e e' { s' with memory } := by
  refine ⟨replaces.held, fun q => Eq.trans ?_ (replaces.get q), replaces.enabled⟩
  cases q <;> rfl

/-- At most the identifier, the mailbox and, at the touched addresses, the page table change. -/
def Endpoint.ChangesWithin (touched : Nat → Prop) (e e' : Endpoint m) : Prop :=
  ∃ id mailbox t, e'.vm = { e.vm with id, mailbox, ptable := t } ∧
    (e.vm.WellFormed → e.vm.ptable.ChangesWithin touched t)

/-! ## The calls -/

/-- What a call does, if anything. -/
inductive MailboxEffect (s : Manager m) (vm : Endpoint m) : MailboxCall → Manager m → Prop
  | refused {call : MailboxCall} : MailboxEffect s vm call s
  | map {send recv : BitVec 64} {pageCount : BitVec 32} {desc : RxtxDescription} {place : Place}
      {e e' : Endpoint m}
      {s' : Manager m} (described : apiGetRxtxDescription s.memory vm send recv pageCount = .ok desc)
      (found : ∃ owner, platFfaVmFindLockedCreate s desc.ownerVmId = some (place, owner))
      (placed : Placed m desc.ownerVmId place) (replaces : s.Replaces place e e' s')
      (stage1 : s.memory.stage1.WellFormed →
        s.memory.stage1.ChangesWithin (PairTouches desc.send.toNat desc.recv.toNat) s'.memory.stage1)
      (table : e.ChangesWithin (PairTouches desc.send.toNat desc.recv.toNat) e')
      (buffers : e'.send = e.send ∧ e'.recv = e.recv ∧ (e.send ≠ 0 ∨ e.recv ≠ 0 → s'.memory = s.memory) ∨
        e.send = 0 ∧ e.recv = 0 ∧ e'.send = desc.send.toNat ∧ e'.recv = desc.recv.toNat ∧
          desc.send.toNat % pageSize = 0 ∧ desc.recv.toNat % pageSize = 0) :
      MailboxEffect s vm (.rxtxMap send recv pageCount) s'
  | unmap {allocatorId : VmId} {place : Place} {e e' : Endpoint m} {s' : Manager m}
      (placed : Placed m (unmapOwner vm allocatorId) place) (replaces : s.Replaces place e e' s')
      (registered : e.send ≠ 0 ∧ e.recv ≠ 0)
        (memory : s.memory.ChangesWithin (PairTouches e.send e.recv) s'.memory)
      (table : e.ChangesWithin (PairTouches e.send e.recv) e') (buffers : e'.send = 0 ∧ e'.recv = 0) :
      MailboxEffect s vm (.rxtxUnmap allocatorId) s'
  | mark {call : MailboxCall} {id : VmId} {place : Place} {e : Endpoint m} (state : MailboxState)
      {s' : Manager m}
      (named : call.Names s vm id) (placed : Placed m id place)
        (replaces : s.Replaces place e (e.setState state) s')
      (memory : s'.memory = s.memory) (acquires : ∀ receiverId, call = .rxAcquire receiverId →
        platFfaIsVmId m receiverId = true) :
      MailboxEffect s vm call s'

section Effect

variable {s' : Manager m} {vm : Endpoint m} {ret answer : FfaValue}
  {send recv : BitVec 64} {allocatorId receiverId : VmId}

theorem store_stage1 {content : Bytes} {dest count : Nat}
    (ran : store memory dest content count = .ok memory') : memory'.stage1 = memory.stage1 := by
  rw [store] at ran
  split at ran
  · cases ran
  · cases ran
    rfl

/-- A registration is not forwarded, or its descriptor is stored in the SPMC's RX buffer. -/
theorem platFfaRxtxMapForward_ok (ran : platFfaRxtxMapForward s e answer = .ok memory') :
    memory' = s.memory ∨ m.features.secureWorld = false ∧ s.teeEnabled = true ∧
      ∃ otherWorld content, s.vms (hfOtherWorldId m) = some otherWorld ∧
        store s.memory otherWorld.recv content endpointRxTxDescriptorSize = .ok memory' := by
  rw [platFfaRxtxMapForward] at ran
  split at ran
  · cases ran
    exact .inl rfl
  next forwarded =>
  split at ran
  · cases ran
  next otherWorld found =>
  obtain ⟨memory₁, stored, ran⟩ := bind_ok_iff.mp ran
  split at ran
  · cases ran
    simp only [not_or, Bool.not_eq_true, Bool.not_eq_false] at forwarded
    exact .inr ⟨forwarded.1, forwarded.2.1, otherWorld, _, found, stored⟩
  · cases ran

theorem platFfaRxtxMapForward_stage1 (ran : platFfaRxtxMapForward s e answer = .ok memory') :
    memory'.stage1 = s.memory.stage1 := by
  rcases platFfaRxtxMapForward_ok ran with rfl | ⟨-, -, otherWorld, content, -, stored⟩
  · rfl
  · exact store_stage1 stored

/-- The endpoint that is found is stored back with new tables, whatever the result. On success it has its
buffers, and the registration may be forwarded. -/
theorem apiFfaRxtxMap_cases (ran : apiFfaRxtxMap s vm send recv pageCount answer = .ok (ret, s')) :
    s' = s ∨ ∃ desc place owner e id t e' s₁,
      apiGetRxtxDescription s.memory vm send recv pageCount = .ok desc ∧
      platFfaVmFindLockedCreate s desc.ownerVmId = some (place, owner) ∧ Placed m desc.ownerVmId place ∧
      s.Replaces place e e' s₁ ∧ s.memory.ChangesWithin
        (PairTouches desc.send.toNat desc.recv.toNat) s₁.memory ∧
      (e.vm.WellFormed → e.vm.ptable.ChangesWithin (PairTouches desc.send.toNat desc.recv.toNat) t) ∧
      (s' = s₁ ∧ e' = { e with vm := { e.vm with id, ptable := t } } ∧
          (e.send ≠ 0 ∨ e.recv ≠ 0 → s'.memory = s.memory) ∨
        e.send = 0 ∧ e.recv = 0 ∧ desc.recv.toNat ≠ 0 ∧ desc.send.toNat % pageSize = 0 ∧
          desc.recv.toNat % pageSize = 0 ∧
          e' = { e with
            vm := { e.vm with id, ptable := t }, send := desc.send.toNat, recv := desc.recv.toNat } ∧
          ∃ memory, platFfaRxtxMapForward s₁ e' answer = .ok memory ∧ s' = { s₁ with memory }) := by
  simp only [apiFfaRxtxMap, bind_ok_iff] at ran
  obtain ⟨desc, described, ran⟩ := ran
  split at ran
  · cases ran
    exact .inl rfl
  · next place owner found =>
    simp only [bind_ok_iff] at ran
    obtain ⟨⟨result, owner', memory, pool⟩, configured, ran⟩ := ran
    obtain ⟨placed, e, id, held, rfl, sameId⟩ := platFfaVmFindLockedCreate_some found
    obtain ⟨changes, vm', table, outcome⟩ := apiVmConfigurePages_ok _ configured
    obtain ⟨t, rfl, table⟩ := table
    refine .inr ⟨desc, place, _, e, id, t, owner',
      { s.put place owner' with memory, pool := mpoolFini pool }, described,
      found, placed, ?_, changes, table, ?_⟩
    · refine ⟨held, Manager.get_put held ?_, s.put_teeEnabled ..⟩
      rcases outcome with ⟨error, rfl, rfl, kept⟩ | ⟨rfl, -, -, -, -, -, rfl⟩
      · exact sameId
      · exact sameId
    · rcases outcome with ⟨error, rfl, rfl, kept⟩ | ⟨rfl, unsetSend, unsetRecv, notNull, sendPage,
          recvPage, rfl⟩
      · cases ran
        exact .inl ⟨rfl, rfl, kept⟩
      · obtain ⟨memory', forwarded, ⟨⟩⟩ := bind_ok_iff.mp ran
        exact .inr ⟨unsetSend, unsetRecv, notNull, sendPage, recvPage, rfl, memory', forwarded, rfl⟩

/-- Only slots of the table of normal-world VMs are freed. -/
theorem platFfaVmDestroy_eq (e : Endpoint m) : ∃ id, platFfaVmDestroy e = { e with vm := { e.vm with id } } ∧
    (vmIdIsCurrentWorld m e.vm.id = true ∨ e.vm.id = hfOtherWorldId m → id = e.vm.id) := by
  rw [platFfaVmDestroy]
  split
  · next freed =>
    refine ⟨hfInvalidVmId, rfl, ?_⟩
    rintro (current | other)
    · rw [freed.2.1] at current
      cases current
    · rw [hfOtherWorldId, if_pos freed.1] at other
      exact absurd other freed.2.2.1
  · exact ⟨e.vm.id, rfl, fun _ => rfl⟩

/-- A pair of buffers is given back. -/
theorem apiFfaRxtxUnmap_cases : Post (apiFfaRxtxUnmap s vm allocatorId answer) fun r =>
    r.2 = s ∨ ∃ place e id t, ¬(vmIdIsCurrentWorld m vm.vm.id = true ∧ allocatorId ≠ 0) ∧
      platFfaVmFindLocked s (unmapOwner vm allocatorId) = some (place, e) ∧ e.send ≠ 0 ∧ e.recv ≠ 0 ∧
      s.Replaces place e { e with vm := { e.vm with id, ptable := t }, send := 0, recv := 0 } r.2 ∧
      s.memory.ChangesWithin (PairTouches e.send e.recv) r.2.memory ∧
      (e.vm.WellFormed → e.vm.ptable.ChangesWithin (PairTouches e.send e.recv) t) := by
  refine .guard (.inl rfl) fun allowed => ?_
  split
  · exact .ok (.inl rfl)
  next place owner found =>
  obtain ⟨placed, held⟩ := platFfaVmFindLocked_some found
  refine .guard (.inl rfl) fun registered => .step fun ⟨e, pool⟩ given => .step fun ⟨memory₁, pool₁⟩
    sendUnmapped =>
    .step fun ⟨memory₂, pool₂⟩ recvUnmapped => .step fun ⟨⟩ _ => .ok ?_
  simp only [not_or] at registered
  obtain ⟨vm', rfl, t, rfl, table⟩ := returnBuffers_ok given
  have memory : s.memory.ChangesWithin (PairTouches owner.send owner.recv) memory₂ :=
    .trans ((unmapStage1_ok sendUnmapped).mono fun _ => .inl)
      ((unmapStage1_ok recvUnmapped).mono fun _ => .inr)
  obtain ⟨id, destroyed, sameId⟩ := platFfaVmDestroy_eq
    ({ owner with vm := { owner.vm with ptable := t }, send := 0, recv := 0 } : Endpoint m)
  rw [destroyed]
  refine .inr ⟨place, owner, id, t, allowed, found, registered.1, registered.2,
    ⟨held, Manager.get_put held ?_, s.put_teeEnabled ..⟩, memory, table⟩
  rintro _ rfl
  cases placed with
  | vm kept =>
    have ownerId := s.vmIds held
    rw [← ownerId] at kept
    exact (sameId kept).trans ownerId

theorem Manager.replaces_setState (held : s.get place = some e) (state : MailboxState) :
    s.Replaces place e (e.setState state) (s.put place (e.setState state)) := by
  refine ⟨held, Manager.get_put held ?_, s.put_teeEnabled ..⟩
  rintro _ rfl
  show e.vm.id = _
  exact s.vmIds held

theorem apiFfaRxRelease_effect :
    Post (apiFfaRxRelease s vm receiverId answer) fun r =>
      MailboxEffect s vm (.rxRelease receiverId) r.2 := by
  refine .guard .refused fun _ => ?_
  split
  · exact .ok .refused
  next place e found =>
  obtain ⟨placed, held⟩ := platFfaVmFindLocked_some found
  have marked : MailboxEffect s vm (.rxRelease receiverId) (s.put place (e.setState .empty)) :=
    .mark .empty rfl placed (s.replaces_setState held .empty) (by cases place <;> rfl) nofun
  split
  · split
    · exact .error
    · exact .ite (fun _ => .ok marked) fun _ => .ok .refused
  · split
    · exact .ok .refused
    · exact .guard .refused fun _ => .ok marked
    · exact .ok marked

theorem apiFfaRxAcquire_effect :
    Post (apiFfaRxAcquire s vm receiverId) fun r => MailboxEffect s vm (.rxAcquire receiverId) r.2 := by
  refine .guard .refused fun supported => ?_
  simp only [not_or, Bool.not_eq_false] at supported
  split
  · exact .error
  next place e found =>
  obtain ⟨placed, held⟩ := platFfaVmFindLocked_some found
  refine .guard .refused fun _ => .guard .refused fun _ => .ok ?_
  refine .mark .received rfl placed (s.replaces_setState held .received) (by cases place <;> rfl) ?_
  rintro _ ⟨⟩
  exact supported.2

theorem MailboxCall.run_effect {call : MailboxCall} (ran : call.run s vm answer = .ok (ret, s')) :
    MailboxEffect s vm call s' := by
  cases call with
  | rxtxMap send recv pageCount =>
    rcases apiFfaRxtxMap_cases ran with
      rfl | ⟨desc, place, owner, e, id, t, e', s₁, described, found, placed, replaces, changes,
        table, outcome⟩
    · exact .refused
    · rcases outcome with ⟨rfl, rfl, kept⟩ | ⟨unsetSend, unsetRecv, -, sendPage, recvPage, rfl,
          memory, forwarded, rfl⟩
      · exact .map described ⟨_, found⟩ placed replaces changes.stage1 ⟨_, _, _, rfl, table⟩
          (.inl ⟨rfl, rfl, kept⟩)
      · have sameStage1 := platFfaRxtxMapForward_stage1 forwarded
        exact .map described ⟨_, found⟩ placed (replaces.withMemory memory) (sameStage1 ▸ changes.stage1)
          ⟨_, _, _, rfl, table⟩ (.inr ⟨unsetSend, unsetRecv, rfl, rfl, sendPage, recvPage⟩)
  | rxtxUnmap allocatorId =>
    rcases apiFfaRxtxUnmap_cases _ ran with rfl | ⟨place, e, id, t, -, found, sendSet, recvSet,
        replaces, memory, table⟩
    · exact .refused
    · exact .unmap (platFfaVmFindLocked_some found).1 replaces ⟨sendSet, recvSet⟩
        memory ⟨_, _, _, rfl, table⟩ ⟨rfl, rfl⟩
  | rxRelease receiverId => exact apiFfaRxRelease_effect _ ran
  | rxAcquire receiverId => exact apiFfaRxAcquire_effect _ ran

end Effect

end Hafnium.Api
