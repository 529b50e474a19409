import Hafnium.Api.Forward
import Hafnium.Api.Unregister
import Hafnium.Ffa.Rights

/-! # Registered buffers in both worlds

With the SPMC enabled, the buffers of a VM are registered with the hypervisor and with the SPMC. The
hypervisor forwards a registration only for a VM of version 1.1, but forwards every release; and the SPMC
takes each release for one of the hypervisor's own buffers. So the two stay in step only while no VM gives
its buffers back.
-/

namespace Hafnium.Api

open Mm Ffa Partial
open Relation (ReflTransGen)

variable {m h s : MmConfig}

/-! ## The two worlds -/

def ffaVersionReservedBit : BitVec 32 := 0x80000000
def ffaVersionCompiled : BitVec 32 := 0x10001

/-- A VM may ask for any version, and for another one at any time. -/
def apiFfaVersion (vm : Endpoint m) (requestedVersion : BitVec 32) : FfaValue × Endpoint m :=
  if requestedVersion &&& ffaVersionReservedBit ≠ 0 then ({ func := 0xffffffff }, vm)
  else ({ func := ffaVersionCompiled.setWidth 64 }, { vm with ffaVersion := requestedVersion })

theorem apiFfaVersion_keeps (vm : Endpoint m) (requestedVersion : BitVec 32) :
    (apiFfaVersion vm requestedVersion).2.vm = vm.vm ∧
    (apiFfaVersion vm requestedVersion).2.send = vm.send ∧
    (apiFfaVersion vm requestedVersion).2.recv = vm.recv := by
  rw [apiFfaVersion]
  split
  · exact ⟨rfl, rfl, rfl⟩
  · exact ⟨rfl, rfl, rfl⟩

/-- The hypervisor and the SPMC. -/
structure Worlds (h s : MmConfig) where
  hyp : Manager h
  spmc : Manager s

/-- A call that a VM makes about its buffers, or about the version that it speaks. -/
inductive LifeCall
  | version (requestedVersion : BitVec 32)
  | rxtxMap (send recv : BitVec 64) (pageCount : BitVec 32)
  | rxtxUnmap (allocatorId : VmId)
  | rxRelease (receiverId : VmId)
deriving DecidableEq, Repr

/-- The call that the hypervisor forwards to the SPMC, if it does. It does so after all that can fail. -/
def Manager.forwards (hyp : Manager m) (vm : Endpoint m) : MailboxCall → Option Forwarded
  | .rxtxMap send recv pageCount =>
    match apiFfaRxtxMap hyp vm send recv pageCount { func := ffaSuccess32 } with
    | .ok (ret, hyp') =>
      if ret.func = ffaSuccess32 ∧ rxOwnedBySpmc hyp vm then
        (hyp'.vms vm.vm.id).map fun e => .rxtxMap e.vm.id (.ofNat 64 e.send) (.ofNat 64 e.recv)
      else none
    | .error _ => none
  | .rxtxUnmap allocatorId =>
    match apiFfaRxtxUnmap hyp vm allocatorId { func := ffaSuccess32 } with
    | .ok (ret, _) => if ret.func = ffaSuccess32 ∧ hyp.teeEnabled then some (.rxtxUnmap vm.vm.id) else none
    | .error _ => none
  | .rxRelease receiverId =>
    if receiverId = 0 ∧ rxOwnedBySpmc hyp vm then some (.rxRelease vm.vm.id) else none
  | .rxAcquire _ => none

/-- The SPMC answers a call of the hypervisor. `page` is where the hypervisor describes buffers. -/
def Manager.serve (spmc : Manager m) (page : Nat) (call : Forwarded) : Run (FfaValue × Manager m) :=
  match spmc.vms hfHypervisorVmId, ffaHandler call.registers with
  | none, _ => .error .nullVm
  | some nwd, some (.mailbox mailboxCall) =>
    mailboxCall.run { spmc with memory := call.memory spmc.memory page } nwd { func := ffaSuccess32 }
  | some _, _ => .ok (ffaError .notSupported, spmc)

/-- The RX buffer that the hypervisor keeps for the SPMC. -/
def Worlds.descriptorPage (w : Worlds h s) : Nat := ((w.hyp.vms (hfOtherWorldId h)).map Endpoint.recv).getD 0

/-- What the SPMC answers, if it is asked. -/
def Worlds.answer (w : Worlds h s) (vm : Endpoint h) (call : MailboxCall) : Run (FfaValue × Manager s) :=
  match w.hyp.forwards vm call with
  | none => .ok ({ func := ffaSuccess32 }, w.spmc)
  | some forwarded => w.spmc.serve w.descriptorPage forwarded

def Worlds.mailbox (w : Worlds h s) (vm : Endpoint h) (call : MailboxCall) : Run (FfaValue × Worlds h s) := do
  let (answer, spmc) ← w.answer vm call
  let (ret, hyp) ← call.run w.hyp vm answer
  .ok (ret, ⟨hyp, spmc⟩)

/-- A call of a VM. -/
def Worlds.call (w : Worlds h s) (id : VmId) (call : LifeCall) : Run (FfaValue × Worlds h s) :=
  match w.hyp.vms id with
  | none => .error .nullVm
  | some vm =>
    match call with
    | .version requestedVersion =>
      let (ret, vm) := apiFfaVersion vm requestedVersion
      .ok (ret, { w with hyp := w.hyp.put (.vm id) vm })
    | .rxtxMap send recv pageCount => w.mailbox vm (.rxtxMap send recv pageCount)
    | .rxtxUnmap allocatorId => w.mailbox vm (.rxtxUnmap allocatorId)
    | .rxRelease receiverId => w.mailbox vm (.rxRelease receiverId)

/-- The hypervisor has buffers of a VM. -/
def HypHolds (hyp : Manager m) (id : VmId) : Prop := ∃ e, hyp.vms id = some e ∧ e.send ≠ 0 ∧ e.recv ≠ 0

/-- The SPMC has buffers of a VM. -/
def SpmcHolds (spmc : Manager m) (id : VmId) : Prop :=
  ∃ i e, spmc.get (.nwdVm i) = some e ∧ e.vm.id = id ∧ (e.send ≠ 0 ∨ e.recv ≠ 0)

/-! ## Where a call may stop -/

/-- A call does not stop in a function that forwards it. -/
abbrev AvoidsForward {α : Type} (x : Run α) : Prop := Partial.Avoids (· = .forwardedAnswer) x

variable {e vm : Endpoint m} {pool : Mpool} {hyp : Manager m} {answer ret : FfaValue} {id receiverId : VmId}
  {call : MailboxCall} {forwarded : Forwarded}

section Avoids

variable {memory : HypMemory m} {t : MmPtable (m.levels .stage1)} {begin_ end_ send recv : Nat} {mode : Mode}

theorem avoidsForward_load {va size : Nat} : AvoidsForward (load memory va size) := by
  exact .guard fun _ => .error (by decide)

theorem avoidsForward_store {dest count : Nat} {content : Bytes} :
    AvoidsForward (store memory dest content count) := by
  rw [store]
  split
  · exact .error (by decide)
  · exact .ok _

theorem avoidsForward_vmIdentityMap {vm : Vm m} : AvoidsForward (vmIdentityMap vm begin_ end_ mode pool) := by
  refine .ite (fun _ => .bind ?_ fun _ => .ok _) fun _ => .ok _
  rw [vmIdentityCommit]
  split
  · exact .error (by decide)
  · exact .ok _

theorem avoidsForward_remap : AvoidsForward (remap e begin_ end_ mode pool) := by
  exact .bind avoidsForward_vmIdentityMap fun _ => .guard fun _ => .error (by decide)

theorem avoidsForward_mmIdentityMap : AvoidsForward (mmIdentityMap t begin_ end_ mode pool) := by
  rw [mmIdentityMap]
  split
  · exact .error (by decide)
  · exact .ok _

theorem avoidsForward_unmapStage1 : AvoidsForward (unmapStage1 memory begin_ end_ pool) := by
  exact .bind avoidsForward_mmIdentityMap fun _ => .guard fun _ => .error (by decide)

theorem avoidsForward_takeBuffers : AvoidsForward (takeBuffers e send recv pool) := by
  refine .guard fun _ => ?_
  split
  · refine .bind avoidsForward_vmIdentityMap fun _ =>
      .ite (fun _ => .bind avoidsForward_vmIdentityMap fun _ => ?_) fun _ => .ok _
    exact .guard fun _ => .bind avoidsForward_remap fun _ => .ok _
  · exact .ok _

theorem avoidsForward_giveBackBuffers {orig : OrigModes} :
    AvoidsForward (giveBackBuffers e send recv orig pool) := by
  exact .ite (fun _ => .bind avoidsForward_remap fun _ => avoidsForward_remap) fun _ => .error (by decide)

theorem avoidsForward_apiVmConfigureStage1 :
    AvoidsForward (apiVmConfigureStage1 e memory send recv mode pool) := by
  refine .bind avoidsForward_mmIdentityMap fun _ => .guard fun _ =>
    .bind avoidsForward_mmIdentityMap fun _ => ?_
  exact .ite (fun _ => .bind avoidsForward_unmapStage1 fun _ => .ok _) fun _ => .ok _

theorem avoidsForward_apiVmConfigurePages {pageCount : BitVec 32} :
    AvoidsForward (apiVmConfigurePages e memory send recv pageCount pool) := by
  by_cases admissible : Admissible e send recv pageCount
  · rw [apiVmConfigurePages_admitted admissible]
    apply Partial.Avoids.bind avoidsForward_takeBuffers
    rintro ⟨orig, e, pool⟩
    cases orig with
    | error error => exact .ok _
    | ok orig =>
      exact .bind avoidsForward_apiVmConfigureStage1 fun _ => .guard fun _ =>
        .bind avoidsForward_giveBackBuffers fun _ => .ok _
  · obtain ⟨error, refused⟩ := apiVmConfigurePages_refused admissible memory pool
    rw [refused]
    exact .ok _

theorem avoidsForward_apiGetRxtxDescription {send recv : BitVec 64} {pageCount : BitVec 32} :
    AvoidsForward (apiGetRxtxDescription memory e send recv pageCount) := by
  refine .ite (fun _ => ?_) fun _ => .ok _
  exact .bind avoidsForward_load fun _ => .bind avoidsForward_load fun _ =>
    .bind avoidsForward_load fun _ => .ok _

theorem avoidsForward_returnBuffers : AvoidsForward (returnBuffers e pool) := by
  exact .guard fun _ => .bind avoidsForward_remap fun _ => avoidsForward_remap

end Avoids

section Calls

variable (success : answer.func = ffaSuccess32)
include success

theorem avoidsForward_apiFfaRxtxMap {send recv : BitVec 64} {pageCount : BitVec 32} :
    AvoidsForward (apiFfaRxtxMap hyp vm send recv pageCount answer) := by
  apply Partial.Avoids.bind avoidsForward_apiGetRxtxDescription
  intro desc
  split
  · exact .ok _
  · apply Partial.Avoids.bind avoidsForward_apiVmConfigurePages
    rintro ⟨ret, owner, memory, pool⟩
    cases ret with
    | error error => exact .ok _
    | ok _ =>
      refine .bind (.guard fun _ => ?_) fun _ => .ok _
      split
      · exact .error (by decide)
      · refine .bind avoidsForward_store fun _ => ?_
        rw [if_pos success]
        exact .ok _

theorem avoidsForward_apiFfaRxtxUnmap {allocatorId : VmId} :
    AvoidsForward (apiFfaRxtxUnmap hyp vm allocatorId answer) := by
  refine .guard fun _ => ?_
  split
  · exact .ok _
  refine .guard fun _ => .bind avoidsForward_returnBuffers fun _ => .bind avoidsForward_unmapStage1 fun _ =>
    .bind avoidsForward_unmapStage1 fun _ => .bind ?_ fun _ => .ok _
  have accepted : answer.func &&& ~~~(1#64 <<< 30) = ffaSuccess32 := by
    rw [success]
    decide
  rw [platFfaRxtxUnmapForward, if_pos accepted, ite_self]
  exact .ok _

end Calls

/-! ## The SPMC -/

section Spmc

variable {spmc : Manager m} {place : Place} {owner : Endpoint m}

/-- The slot of a VM, or a free one. -/
theorem platFfaNwdVmCreate_some (found : platFfaNwdVmCreate spmc id = some (place, owner)) :
    ∃ i e, place = .nwdVm i ∧ spmc.get place = some e ∧ owner = { e with vm := { e.vm with id } } ∧
      (e.vm.id = id ∨ e.vm.id = hfInvalidVmId) := by
  rw [platFfaNwdVmCreate] at found
  split at found
  · next there =>
    cases found
    obtain ⟨i, rfl, held⟩ := platFfaNwdVmFindLocked_some there
    have isId := platFfaNwdVmFindLocked_id there
    exact ⟨i, owner, rfl, held, by rw [← isId], .inl isId⟩
  · simp only [Option.map_eq_some_iff, Prod.mk.injEq] at found
    obtain ⟨⟨place', e⟩, free, rfl, rfl⟩ := found
    obtain ⟨i, rfl, held⟩ := platFfaNwdVmFindLocked_some free
    exact ⟨i, e, rfl, held, rfl, .inr (platFfaNwdVmFindLocked_id free)⟩

/-- The buffers of a normal-world VM are registered as soon as the pages suffice. -/
theorem apiVmConfigurePages_nwd (memory : HypMemory m) {send recv : Nat}
    (other : vmIdIsCurrentWorld m owner.vm.id = false) (admissible : Admissible owner send recv 1)
    (sendSet : send ≠ 0) (recvSet : recv ≠ 0)
    (pages : bufferPages m .stage1 (mmModeR ||| extraAttributes owner.vm) send +
      bufferPages m .stage1 (mmModeW ||| extraAttributes owner.vm) recv ≤ pool.freeCount) :
    ∃ memory' pool', apiVmConfigurePages owner memory send recv 1 pool = .ok (.ok (),
      { owner with send, recv }, memory', pool') := by
  have taken : takeBuffers owner send recv pool = .ok (.ok ⟨0, 0⟩, owner, pool) := if_pos other
  obtain ⟨memory', pool', configured⟩ := apiVmConfigureStage1_pages owner memory sendSet recvSet pages
  refine ⟨memory', pool', ?_⟩
  rw [apiVmConfigurePages_admitted admissible, taken]
  exact bind_ok_iff.mpr ⟨_, rfl, bind_ok_iff.mpr ⟨_, configured, if_pos rfl⟩⟩

variable (isSpmc : m.features.secureWorld = true)
include isSpmc

/-- A forwarded registration. -/
theorem serve_rxtxMap {nwd : Endpoint m} (held : spmc.vms hfHypervisorVmId = some nwd)
    (tx : TxPage spmc.memory nwd.send) (other : vmIdIsCurrentWorld m id = false)
    (isVm : id ≠ hfHypervisorVmId) {send recv : BitVec 64}
    (found : platFfaVmFindLockedCreate spmc id = some (place, owner))
    (admissible : Admissible owner send.toNat recv.toNat 1) (sendSet : send.toNat ≠ 0)
    (recvSet : recv.toNat ≠ 0)
    (pages : bufferPages m .stage1 (mmModeR ||| extraAttributes owner.vm) send.toNat +
      bufferPages m .stage1 (mmModeW ||| extraAttributes owner.vm) recv.toNat ≤ spmc.pool.freeCount) :
    ∃ memory pool, spmc.serve nwd.send (.rxtxMap id send recv) =
      .ok ({ func := ffaSuccess32 },
        { spmc.put place { owner with send := send.toNat, recv := recv.toNat } with memory, pool }) := by
  have caller : nwd.vm.id = hfOtherWorldId m := (spmc.vmIds held).trans (hfOtherWorldId_spmc isSpmc).symm
  have decoded : ffaHandler (Forwarded.rxtxMap id send recv).registers =
      some (.mailbox (.rxtxMap 0 0 0)) := rfl
  let spmc' : Manager m :=
    { spmc with memory := (Forwarded.rxtxMap id send recv).memory spmc.memory nwd.send }
  have found : platFfaVmFindLockedCreate spmc' id = some (place, owner) := found
  have ownerId : owner.vm.id = id := by
    rw [platFfaVmFindLockedCreate, if_neg (by simp [other, hfOtherWorldId_spmc isSpmc, isVm]),
      if_pos isSpmc] at found
    obtain ⟨-, -, -, -, rfl, -⟩ := platFfaNwdVmCreate_some found
    rfl
  rw [← freeCount_mpoolInitWithFallback] at pages
  obtain ⟨memory, pool, configured⟩ :=
    apiVmConfigurePages_nwd spmc'.memory (ownerId ▸ other) admissible sendSet recvSet pages
  refine ⟨memory, mpoolFini pool, ?_⟩
  simp only [Manager.serve, held, decoded]
  refine bind_ok_iff.mpr ⟨_, apiGetRxtxDescription_init caller tx id recv send, ?_⟩
  have forward (answer : FfaValue) (s : Manager m) (e : Endpoint m) :
      platFfaRxtxMapForward s e answer = .ok s.memory := if_pos (.inl isSpmc)
  rw [found]
  exact bind_ok_iff.mpr ⟨_, configured, bind_ok_iff.mpr ⟨_, forward .., by cases place <;> rfl⟩⟩

omit isSpmc in
/-- What the SPMC has for normal-world VMs stays, but for the states of mailboxes. -/
def Mirrors (spmc spmc' : Manager m) : Prop :=
  ∀ i e', spmc'.get (.nwdVm i) = some e' → ∃ e, spmc.get (.nwdVm i) = some e ∧ e'.vm.id = e.vm.id ∧
    e'.send = e.send ∧ e'.recv = e.recv

variable {page : Nat}

theorem avoidsForward_serve_rxRelease : AvoidsForward (spmc.serve page (.rxRelease id)) := by
  rw [Manager.serve]
  split
  · exact .error (by decide)
  · next nwd mailboxCall held decoded =>
    cases (ffaHandler_rxRelease id).symm.trans decoded
    show AvoidsForward (apiFfaRxRelease ..)
    refine .guard fun _ => ?_
    split
    · exact .ok _
    rw [if_neg (by simp [rxOwnedBySpmc, isSpmc])]
    split
    · exact .ok _
    · exact .guard fun _ => .ok _
    · exact .ok _
  · exact .ok _

omit isSpmc in
theorem serve_rxRelease_mirrors {spmc' : Manager m}
    (served : spmc.serve page (.rxRelease id) = .ok (answer, spmc')) : Mirrors spmc spmc' := by
  rw [Manager.serve] at served
  split at served
  · cases served
  · next nwd mailboxCall held decoded =>
    cases (ffaHandler_rxRelease id).symm.trans decoded
    cases MailboxCall.run_effect served with
    | refused => exact fun i e' held' => ⟨e', held', rfl, rfl, rfl⟩
    | @mark _ _ place e state _ named placed replaces memory acquires =>
      intro i e' held'
      have there : spmc.get place = some e := replaces.held
      rw [replaces.get] at held'
      split at held'
      · next here =>
        cases held'
        exact ⟨e, here ▸ there, rfl, rfl, rfl⟩
      · exact ⟨e', held', rfl, rfl, rfl⟩
  · cases served
    exact fun i e' held' => ⟨e', held', rfl, rfl, rfl⟩

end Spmc

/-! ## The hypervisor -/

section Hypervisor

variable {hyp' : Manager m}

/-- No call changes whether there is an SPMC. -/
theorem MailboxCall.run_teeEnabled (call : MailboxCall) :
    Post (call.run hyp vm answer) fun r => r.2.teeEnabled = hyp.teeEnabled := by
  have put {place : Place} {e : Endpoint m} : (hyp.put place e).teeEnabled = hyp.teeEnabled :=
    hyp.put_teeEnabled ..
  cases call with
  | rxtxMap send recv pageCount =>
    refine .step fun desc _ => ?_
    split
    · exact .ok rfl
    refine .step fun ⟨result, owner, memory, pool⟩ _ => ?_
    cases result with
    | error error => exact .ok put
    | ok _ => exact .step fun _ _ => .ok put
  | rxtxUnmap allocatorId =>
    refine .guard rfl fun _ => ?_
    split
    · exact .ok rfl
    · exact .guard rfl fun _ => .step fun _ _ => .step fun _ _ => .step fun _ _ => .step fun _ _ => .ok put
  | rxRelease receiverId =>
    refine .guard rfl fun _ => ?_
    split
    · exact .ok rfl
    refine .ite (fun _ => .ite (fun _ => .error) fun _ => .ite (fun _ => .ok put) fun _ => .ok rfl)
      fun _ => ?_
    split
    · exact .ok rfl
    · exact .guard rfl fun _ => .ok put
    · exact .ok put
  | rxAcquire receiverId =>
    refine .guard rfl fun _ => ?_
    split
    · exact .error
    · exact .guard rfl fun _ => .guard rfl fun _ => .ok put

/-- A VM stays a VM. -/
theorem MailboxCall.run_held (ran : call.run hyp vm answer = .ok (ret, hyp'))
    (held : hyp.vms id = some e) : ∃ e', hyp'.vms id = some e' := by
  have replaced {place : Place} {e₁ e₂ : Endpoint m} (replaces : hyp.Replaces place e₁ e₂ hyp') :
      ∃ e', hyp'.vms id = some e' := by
    have now := replaces.get (.vm id)
    split at now
    · exact ⟨_, now⟩
    · exact ⟨e, now.trans held⟩
  cases MailboxCall.run_effect ran with
  | refused => exact ⟨e, held⟩
  | map _ _ _ replaces => exact replaced replaces
  | unmap _ replaces => exact replaced replaces
  | mark _ _ _ replaces => exact replaced replaces

/-- The buffers of a VM stay while it does not unmap them. -/
theorem MailboxCall.run_holds (ran : call.run hyp vm answer = .ok (ret, hyp'))
    (keeps : ∀ allocatorId, call ≠ .rxtxUnmap allocatorId) (held : hyp.vms id = some e) :
    ∃ e', hyp'.vms id = some e' ∧ (e.send ≠ 0 ∧ e.recv ≠ 0 → e'.send ≠ 0 ∧ e'.recv ≠ 0) := by
  cases MailboxCall.run_effect ran with
  | refused => exact ⟨e, held, fun set => set⟩
  | @map _ _ _ _ place _ e' _ _ _ _ replaces _ _ buffers =>
    have now := replaces.get (.vm id)
    split at now
    · next here =>
      cases held.symm.trans (here ▸ replaces.held)
      refine ⟨e', now, fun set => ?_⟩
      rcases buffers with ⟨send, recv, -⟩ | ⟨unset, -⟩
      · rw [send, recv]
        exact set
      · exact absurd unset set.1
    · exact ⟨e, now.trans held, fun set => set⟩
  | unmap => exact absurd rfl (keeps _)
  | mark state named placed replaces memory acquires =>
    have now := replaces.get (.vm id)
    split at now
    · next here =>
      cases held.symm.trans (here ▸ replaces.held)
      exact ⟨_, now, fun set => set⟩
    · exact ⟨e, now.trans held, fun set => set⟩

variable (current : vmIdIsCurrentWorld m vm.vm.id = true) (held : hyp.vms vm.vm.id = some vm)
include current held

/-- A registration is forwarded with the pages of the VM, after the hypervisor has registered them. -/
theorem forwards_rxtxMap {send recv : BitVec 64} {pageCount : BitVec 32}
    (forwards : hyp.forwards vm (.rxtxMap send recv pageCount) = some forwarded) :
    forwarded = .rxtxMap vm.vm.id send recv ∧ rxOwnedBySpmc hyp vm = true ∧ ∃ ret hyp',
      apiFfaRxtxMap hyp vm send recv pageCount { func := ffaSuccess32 } = .ok (ret, hyp') ∧
      ret.func = ffaSuccess32 := by
  simp only [Manager.forwards] at forwards
  split at forwards
  · next ret hyp' ran =>
    split at forwards
    · next sent =>
      obtain ⟨e, there, isSend, isRecv, -, -, -, -, table, -⟩ :=
        apiFfaRxtxMap_registers current held ran sent.1
      rw [there, Option.map_some, Option.some.injEq] at forwards
      refine ⟨?_, sent.2, ret, hyp', ran, sent.1⟩
      rw [← forwards, isSend, isRecv, BitVec.ofNat_toNat, BitVec.ofNat_toNat, BitVec.setWidth_eq,
        BitVec.setWidth_eq, table.id_eq]
    · cases forwards
  · cases forwards

/-- A release that nothing is registered for is refused and not forwarded. -/
theorem apiFfaRxtxUnmap_unregistered (unset : vm.send = 0 ∨ vm.recv = 0) (allocatorId : VmId)
    (answer : FfaValue) :
    apiFfaRxtxUnmap hyp vm allocatorId answer = .ok (ffaError .invalidParameters, hyp) := by
  rw [apiFfaRxtxUnmap]
  split
  · rfl
  · next own =>
    have own : allocatorId = 0 := by
      by_contra named
      exact own ⟨current, named⟩
    have found : platFfaVmFindLocked hyp vm.vm.id = some (.vm vm.vm.id, vm) := by
      rw [platFfaVmFindLocked, if_pos (.inl current), vmFindLocked, held]
      rfl
    rw [unmapOwner, if_neg (by simp [own]), found]
    exact if_pos unset

omit current held in
theorem forwards_rxtxUnmap_of_disabled (disabled : hyp.teeEnabled = false) (allocatorId : VmId) :
    hyp.forwards vm (.rxtxUnmap allocatorId) = none := by
  simp only [Manager.forwards, disabled, Bool.false_eq_true, and_false, if_false]
  split <;> rfl

theorem forwards_rxtxUnmap_of_unregistered (unset : vm.send = 0 ∨ vm.recv = 0) (allocatorId : VmId) :
    hyp.forwards vm (.rxtxUnmap allocatorId) = none := by
  simp only [Manager.forwards, apiFfaRxtxUnmap_unregistered current held unset]
  exact if_neg fun sent => absurd sent.1 (by decide)

/-- A VM may release its RX buffer, whatever the SPMC answers. -/
theorem avoidsForward_apiFfaRxRelease : AvoidsForward (apiFfaRxRelease hyp vm receiverId answer) := by
  refine .guard fun _ => ?_
  split
  · exact .ok _
  next place e found =>
  have own : releaseVmId vm receiverId = vm.vm.id := if_pos (.inl current)
  rw [own, platFfaVmFindLocked, if_pos (.inl current), vmFindLocked, held] at found
  cases found
  refine .ite (fun _ => ?_) fun _ => ?_
  · rw [current, if_neg Bool.false_ne_true.symm]
    exact .guard fun _ => .ok _
  · split
    · exact .ok _
    · exact .guard fun _ => .ok _
    · exact .ok _

end Hypervisor

/-! ## Both worlds in step -/

/-- Between calls: the SPMC has buffers of the VM only if the hypervisor has, and none in free slots. -/
structure Worlds.InStep (w : Worlds h s) (id : VmId) : Prop where
  caller : ∃ vm, w.hyp.vms id = some vm
  holds : SpmcHolds w.spmc id → w.hyp.teeEnabled = true ∧ HypHolds w.hyp id
  free : ∀ i e, w.spmc.get (.nwdVm i) = some e → e.vm.id = hfInvalidVmId → e.send = 0 ∧ e.recv = 0

/-- The SPMC can read the descriptor of a VM, and has a slot and pages for its buffers. -/
def Worlds.Ready (w : Worlds h s) (id : VmId) (send recv : BitVec 64) : Prop :=
  ∃ nwd place owner, w.spmc.vms hfHypervisorVmId = some nwd ∧ nwd.send = w.descriptorPage ∧
    TxPage w.spmc.memory nwd.send ∧ platFfaVmFindLockedCreate w.spmc id = some (place, owner) ∧
    bufferPages s .stage1 (mmModeR ||| extraAttributes owner.vm) send.toNat +
      bufferPages s .stage1 (mmModeW ||| extraAttributes owner.vm) recv.toNat ≤ w.spmc.pool.freeCount

/-- A VM does not give its buffers back while there is an SPMC, and the SPMC can register what is
forwarded. -/
def Worlds.Allows (w : Worlds h s) (id : VmId) : LifeCall → Prop
  | .rxtxMap send recv _ =>
    (∃ vm, w.hyp.vms id = some vm ∧ rxOwnedBySpmc w.hyp vm = true) → w.Ready id send recv
  | .rxtxUnmap _ => w.hyp.teeEnabled = false ∨ ∃ vm, w.hyp.vms id = some vm ∧ (vm.send = 0 ∨ vm.recv = 0)
  | .version _ => True
  | .rxRelease _ => True

def Worlds.Step (id : VmId) (w w' : Worlds h s) : Prop :=
  ∃ call ret, w.Allows id call ∧ w.call id call = .ok (ret, w')

section Step

variable (isSpmc : s.features.secureWorld = true) {w w' : Worlds h s} {vm : Endpoint h}
  (current : vmIdIsCurrentWorld h vm.vm.id = true) (other : vmIdIsCurrentWorld s vm.vm.id = false)
  (isVm : vm.vm.id ≠ hfHypervisorVmId) (valid : vm.vm.id ≠ hfInvalidVmId)
  (held : w.hyp.vms vm.vm.id = some vm) (inStep : w.InStep vm.vm.id)

/-- A call that is not forwarded. -/
theorem mailbox_of_not_forwarded (none : w.hyp.forwards vm call = none) : w.mailbox vm call = (do
    let (ret, hyp) ← call.run w.hyp vm { func := ffaSuccess32 }
    .ok (ret, ⟨hyp, w.spmc⟩)) := by
  rw [Worlds.mailbox, Worlds.answer, none]
  rfl

variable {spmc : Manager s}

include isSpmc current other isVm valid held inStep

omit valid in
/-- A registration succeeds in the SPMC if it is forwarded. -/
theorem mailbox_rxtxMap {send recv : BitVec 64} (pageCount : BitVec 32)
    (ready : rxOwnedBySpmc w.hyp vm = true → w.Ready vm.vm.id send recv) :
    ∃ spmc, w.mailbox vm (.rxtxMap send recv pageCount) = (do
        let (ret, hyp) ← apiFfaRxtxMap w.hyp vm send recv pageCount { func := ffaSuccess32 }
        .ok (ret, ⟨hyp, spmc⟩)) ∧
      (spmc = w.spmc ∨ w.hyp.teeEnabled = true ∧
        (∃ ret hyp, apiFfaRxtxMap w.hyp vm send recv pageCount { func := ffaSuccess32 } = .ok (ret,
          hyp) ∧ ret.func = ffaSuccess32) ∧
        ∃ i e', e'.vm.id = vm.vm.id ∧ ∀ j, spmc.get (.nwdVm j) =
          if j = i then some e' else w.spmc.get (.nwdVm j)) := by
  cases forwards : w.hyp.forwards vm _ with
  | none => exact ⟨w.spmc, mailbox_of_not_forwarded forwards, .inl rfl⟩
  | some forwarded =>
    obtain ⟨rfl, owned, ret, hyp, ran, success⟩ := forwards_rxtxMap current held forwards
    obtain ⟨nwd, place, owner, nwdHeld, page, tx, found, pages⟩ := ready owned
    obtain ⟨vm', -, isSend, isRecv, sendSet, recvSet, -, -, -, -, accepted⟩ :=
      apiFfaRxtxMap_registers current held ran success
    have created := found
    rw [platFfaVmFindLockedCreate, if_neg (by simp [other, hfOtherWorldId_spmc isSpmc, isVm]),
      if_pos isSpmc] at created
    obtain ⟨i, e, rfl, slot, rfl, isId⟩ := platFfaNwdVmCreate_some created
    -- The VM has no buffers yet, so neither has its slot.
    have unset : e.send = 0 ∧ e.recv = 0 := by
      rcases isId with isId | isFree
      · by_contra set
        obtain ⟨-, vm', held', sendSet, -⟩ := inStep.holds ⟨i, e, slot, isId, not_and_or.mp set⟩
        cases held.symm.trans held'
        exact sendSet accepted.unset.1
      · exact inStep.free i e slot isFree
    have admissible : Admissible { e with vm := { e.vm with id := vm.vm.id } } send.toNat recv.toNat 1 :=
      ⟨unset, rfl, accepted.aligned, accepted.distinct⟩
    obtain ⟨memory, pool, served⟩ := serve_rxtxMap isSpmc nwdHeld tx other isVm found admissible
      (isSend ▸ sendSet) (isRecv ▸ recvSet) pages
    rw [page] at served
    let e' : Endpoint s :=
      { e with vm := { e.vm with id := vm.vm.id }, send := send.toNat, recv := recv.toNat }
    refine ⟨_, by simp only [Worlds.mailbox, Worlds.answer, forwards, served]; rfl,
      .inr ⟨?_, ⟨ret, hyp, ran, success⟩, i, e', rfl, fun j => ?_⟩⟩
    · simp only [rxOwnedBySpmc, Bool.and_eq_true] at owned
      exact owned.1.2
    · have now := Manager.get_put (e := e') slot (by simp) (.nwdVm j)
      simp only [Place.nwdVm.injEq] at now
      exact now

omit current other isVm valid held inStep in
/-- A release of the RX buffer is only marked. -/
theorem avoidsForward_answer_rxRelease (receiverId : VmId) :
    AvoidsForward (w.answer vm (.rxRelease receiverId)) := by
  simp only [Worlds.answer, Manager.forwards]
  split
  · exact .ok _
  · next forwarded sent =>
    split at sent
    · cases sent
      exact avoidsForward_serve_rxRelease isSpmc
    · cases sent

omit valid in
/-- No call stops in a function that forwards it. -/
theorem avoidsForward_call {call : LifeCall} (allowed : w.Allows vm.vm.id call) :
    AvoidsForward (w.call vm.vm.id call) := by
  simp only [Worlds.call, held]
  cases call with
  | version requestedVersion => exact .ok _
  | rxtxMap send recv pageCount =>
    obtain ⟨spmc, eq, -⟩ := mailbox_rxtxMap isSpmc current other isVm held inStep pageCount
      fun owned => allowed ⟨vm, held, owned⟩
    show AvoidsForward (w.mailbox vm (.rxtxMap send recv pageCount))
    rw [eq]
    exact .bind (avoidsForward_apiFfaRxtxMap rfl) fun _ => .ok _
  | rxtxUnmap allocatorId =>
    have none : w.hyp.forwards vm (.rxtxUnmap allocatorId) = none := by
      rcases allowed with disabled | ⟨vm', held', unset⟩
      · exact forwards_rxtxUnmap_of_disabled disabled allocatorId
      · cases held.symm.trans held'
        exact forwards_rxtxUnmap_of_unregistered current held unset allocatorId
    show AvoidsForward (w.mailbox vm (.rxtxUnmap allocatorId))
    rw [mailbox_of_not_forwarded none]
    exact .bind (avoidsForward_apiFfaRxtxUnmap rfl) fun _ => .ok _
  | rxRelease receiverId =>
    exact .bind (avoidsForward_answer_rxRelease isSpmc receiverId) fun _ =>
      .bind (avoidsForward_apiFfaRxRelease current held) fun _ => .ok _

omit isSpmc current other isVm valid held inStep in
theorem answer_rxRelease_mirrors
    (answered : w.answer vm (.rxRelease receiverId) = .ok (answer, spmc)) : Mirrors w.spmc spmc := by
  simp only [Worlds.answer, Manager.forwards] at answered
  split at answered
  · cases answered
    exact fun i e' held' => ⟨e', held', rfl, rfl, rfl⟩
  · next forwarded sent =>
    split at sent
    · cases sent
      exact serve_rxRelease_mirrors answered
    · cases sent

/-- The two worlds stay in step. -/
theorem inStep_call {call : LifeCall} (allowed : w.Allows vm.vm.id call)
    (ran : w.call vm.vm.id call = .ok (ret, w')) : w'.InStep vm.vm.id := by
  simp only [Worlds.call, held] at ran
  cases call with
  | version requestedVersion =>
    cases ran
    obtain ⟨same, sameSend, sameRecv⟩ := apiFfaVersion_keeps vm requestedVersion
    have held' : (w.hyp.put (.vm vm.vm.id) (apiFfaVersion vm requestedVersion).2).vms vm.vm.id =
        some (apiFfaVersion vm requestedVersion).2 := by
      rw [← same]
      exact Function.update_self ..
    refine ⟨⟨_, held'⟩, fun holds => ?_, inStep.free⟩
    obtain ⟨enabled, vm', there, sendSet, recvSet⟩ := inStep.holds holds
    cases held.symm.trans there
    exact ⟨enabled, _, held', by rwa [sameSend], by rwa [sameRecv]⟩
  | rxtxMap send recv pageCount =>
    obtain ⟨spmc, eq, outcome⟩ := mailbox_rxtxMap isSpmc current other isVm held inStep pageCount
      fun owned => allowed ⟨vm, held, owned⟩
    have ran : w.mailbox vm (.rxtxMap send recv pageCount) = .ok (ret, w') := ran
    rw [eq] at ran
    obtain ⟨⟨ret', hyp⟩, run, ⟨⟩⟩ := bind_ok_iff.mp ran
    have run' : MailboxCall.run w.hyp vm { func := ffaSuccess32 } (.rxtxMap send recv pageCount) =
      .ok (ret, hyp) := run
    have tee := MailboxCall.run_teeEnabled _ _ run'
    obtain ⟨e', held', keeps⟩ := MailboxCall.run_holds run' nofun held
    rcases outcome with rfl | ⟨enabled, ⟨ret', hyp', registered, success⟩, i, e₁, isId, slots⟩
    · refine ⟨⟨e', held'⟩, fun holds => ?_, inStep.free⟩
      obtain ⟨enabled, vm', there, sendSet, recvSet⟩ := inStep.holds holds
      cases held.symm.trans there
      exact ⟨tee.trans enabled, e', held', keeps ⟨sendSet, recvSet⟩⟩
    · cases registered.symm.trans run
      obtain ⟨e₂, there, -, -, sendSet, recvSet, -⟩ := apiFfaRxtxMap_registers current held run success
      refine ⟨⟨e', held'⟩, fun _ => ⟨tee.trans enabled, e₂, there, sendSet, recvSet⟩,
        fun j e slot isFree => ?_⟩
      rw [slots] at slot
      split at slot
      · cases slot
        exact absurd (isId.symm.trans isFree) valid
      · exact inStep.free j e slot isFree
  | rxtxUnmap allocatorId =>
    have ran : w.mailbox vm (.rxtxUnmap allocatorId) = .ok (ret, w') := ran
    rcases allowed with disabled | ⟨vm', held', unset⟩
    · rw [mailbox_of_not_forwarded (forwards_rxtxUnmap_of_disabled disabled allocatorId)] at ran
      obtain ⟨⟨ret', hyp⟩, run, ⟨⟩⟩ := bind_ok_iff.mp ran
      refine ⟨MailboxCall.run_held run held, fun holds => ?_, inStep.free⟩
      exact absurd (inStep.holds holds).1 (by simp [disabled])
    · cases held.symm.trans held'
      rw [mailbox_of_not_forwarded (forwards_rxtxUnmap_of_unregistered current held unset allocatorId)] at ran
      obtain ⟨⟨ret', hyp⟩, run, ran⟩ := bind_ok_iff.mp ran
      cases (apiFfaRxtxUnmap_unregistered current held unset allocatorId _).symm.trans run
      cases ran
      exact inStep
  | rxRelease receiverId =>
    simp only [Worlds.mailbox, bind_ok_iff] at ran
    obtain ⟨⟨answer, spmc⟩, answered, ⟨ret', hyp⟩, run, ⟨⟩⟩ := ran
    have mirrors := answer_rxRelease_mirrors answered
    have tee := MailboxCall.run_teeEnabled _ _ run
    obtain ⟨e', held', keeps⟩ := MailboxCall.run_holds run nofun held
    refine ⟨⟨e', held'⟩, ?_, fun i e slot isFree => ?_⟩
    · rintro ⟨i, e, slot, isId, set⟩
      obtain ⟨e₀, slot₀, sameId, sameSend, sameRecv⟩ := mirrors i e slot
      rw [sameSend, sameRecv] at set
      obtain ⟨enabled, vm', there, sendSet, recvSet⟩ :=
        inStep.holds ⟨i, e₀, slot₀, sameId.symm.trans isId, set⟩
      cases held.symm.trans there
      exact ⟨tee.trans enabled, e', held', keeps ⟨sendSet, recvSet⟩⟩
    · obtain ⟨e₀, slot₀, sameId, sameSend, sameRecv⟩ := mirrors i e slot
      rw [sameSend, sameRecv]
      exact inStep.free i e₀ slot₀ (sameId.symm.trans isFree)

end Step

/-- The two worlds divide the identifiers. -/
theorem current_spmc_eq (isHypervisor : h.features.secureWorld = false)
    (isSpmc : s.features.secureWorld = true) (id : VmId) :
    vmIdIsCurrentWorld s id = !vmIdIsCurrentWorld h id := by
  have split : id &&& hfVmIdWorldMask = if id.getLsbD 15 then 0x8000 else 0 := BitVec.and_twoPow id 15
  simp only [vmIdIsCurrentWorld, hfOtherWorldId, isSpmc, isHypervisor, split]
  cases id.getLsbD 15 <;> decide

/-- In a run in which the VM does not give its buffers back to a hypervisor with an SPMC, and the
SPMC can register what is forwarded, no forwarded call stops the hypervisor, and the SPMC has
buffers of the VM only if the hypervisor has. -/
theorem worlds_stay_in_step (isHypervisor : h.features.secureWorld = false)
    (isSpmc : s.features.secureWorld = true) {id : VmId} (current : vmIdIsCurrentWorld h id = true)
    (isVm : id ≠ hfHypervisorVmId ∧ id ≠ hfInvalidVmId) {w₀ w : Worlds h s} (start : w₀.InStep id)
    (run : ReflTransGen (Worlds.Step id) w₀ w) :
    (SpmcHolds w.spmc id → HypHolds w.hyp id) ∧ ∀ call, w.Allows id call →
      AvoidsForward (w.call id call) := by
  have other : vmIdIsCurrentWorld s id = false := by
    rw [current_spmc_eq isHypervisor isSpmc, current, Bool.not_true]
  have inStep : w.InStep id := by
    induction run with
    | refl => exact start
    | tail _ step ih =>
      obtain ⟨call, ret, allowed, returned⟩ := step
      obtain ⟨vm, held⟩ := ih.caller
      cases Manager.vmIds _ held
      exact inStep_call isSpmc current other isVm.1 isVm.2 held ih allowed returned
  refine ⟨fun holds => (inStep.holds holds).2, fun call allowed => ?_⟩
  obtain ⟨vm, held⟩ := inStep.caller
  cases w.hyp.vmIds held
  exact avoidsForward_call isSpmc current other isVm.1 held inStep allowed

/-! ## A VM that gives its buffers back -/

/-- A hypervisor with one VM, and an SPMC with one free slot. The page at 0x3000 is where the hypervisor
describes buffers to the SPMC. -/
def twoWorlds : Worlds smallConfig spmcConfig where
  hyp := { Manager.ofPair (.new (blockVm 1 0 none))
    { Endpoint.new (emptyVm smallConfig hfTeeVmId .empty) with recv := 0x3000 }
    ⟨mappedTable smallConfig .stage1 0x3000 0x4000 mmModeW, fun _ => 0⟩ (ampleMpool 40) with
    teeEnabled := true }
  spmc := { Manager.ofPair
    { Endpoint.new (emptyVm spmcConfig hfHypervisorVmId .empty) with send := 0x3000, recv := 0x4000 }
    (.new (emptyVm spmcConfig 0x8001 .empty))
    ⟨mappedTable spmcConfig .stage1 0x3000 0x5000 mmModeW, fun _ => 0⟩ (ampleMpool 40) with
    nwdVms := [.new (emptyVm spmcConfig hfInvalidVmId .empty)] }

def Worlds.calls (id : VmId) : List LifeCall → Worlds h s → Run (Worlds h s)
  | [], w => .ok w
  | call :: rest, w => do
    let (_, w) ← w.call id call
    w.calls id rest

theorem twoWorlds_inStep : twoWorlds.InStep 1 := by
  have slots (i : Nat) (e : Endpoint spmcConfig) (slot : twoWorlds.spmc.get (.nwdVm i) = some e) :
      e = .new (emptyVm spmcConfig hfInvalidVmId .empty) := List.mem_singleton.mp (List.mem_of_getElem? slot)
  refine ⟨⟨.new _, rfl⟩, ?_, fun i e slot _ => ?_⟩
  · rintro ⟨i, e, slot, isId, -⟩
    rw [slots i e slot] at isId
    exact absurd isId (by decide)
  · rw [slots i e slot]
    exact ⟨rfl, rfl⟩

/-- The VM speaks version 1.1 and registers its buffers with both. -/
theorem worlds_stay_in_step_of_new_vm :
    ∃ w, Worlds.calls 1 [.version 0x10001, .rxtxMap 0x1000 0x2000 1] twoWorlds = .ok w ∧
      SpmcHolds w.spmc 1 ∧ HypHolds w.hyp 1 ∧ AvoidsForward (w.call 1 (.rxRelease 0)) := by
  have run : Partial.returns (Worlds.calls 1 [.version 0x10001, .rxtxMap 0x1000 0x2000 1] twoWorlds)
      (fun w => (w.spmc.get (.nwdVm 0)).any fun e => e.vm.id == 1 && e.send != 0) = true := by
    decide +kernel
  obtain ⟨w, returned, checked⟩ := returns_iff.mp run
  obtain ⟨e, slot, set⟩ := (Option.any_eq_true _ _).mp checked
  simp only [Bool.and_eq_true, beq_iff_eq, bne_iff_ne] at set
  simp only [Worlds.calls, bind_ok_iff] at returned
  obtain ⟨⟨ret₁, w₁⟩, first, ⟨ret₂, w₂⟩, second, ⟨⟩⟩ := returned
  have step₁ : Worlds.Step 1 twoWorlds w₁ := ⟨.version 0x10001, ret₁, trivial, first⟩
  have step₂ : Worlds.Step 1 w₁ w₂ := by
    refine ⟨.rxtxMap 0x1000 0x2000 1, ret₂, fun _ => ?_, second⟩
    cases first
    have tx := @mappedTable_txPage spmcConfig 0x5000 mmModeW rfl (by decide) (by decide)
      (mappedAttrs_writable spmcConfig).1 fun _ => 0
    exact ⟨_, _, _, rfl, rfl, tx, rfl, by decide +kernel⟩
  obtain ⟨holds, avoids⟩ := worlds_stay_in_step rfl rfl (by decide)
    ⟨by decide, by decide⟩ twoWorlds_inStep (.tail (.single step₁) step₂)
  have registered : SpmcHolds w₂.spmc 1 := ⟨0, e, slot, set.1, .inl set.2⟩
  refine ⟨w₂, ?_, registered, holds registered, avoids _ trivial⟩
  simp only [Worlds.calls, bind_ok_iff]
  exact ⟨_, first, _, second, rfl⟩

/-- A VM of version 1.1 leaves its buffers with the SPMC; one of version 1.0 stops the hypervisor
when it gives buffers back the second time. -/
theorem worlds_fall_out_of_step :
    (∃ w, Worlds.calls 1 [.version 0x10001, .rxtxMap 0x1000 0x2000 1, .rxtxUnmap 0] twoWorlds = .ok w ∧
      SpmcHolds w.spmc 1 ∧ ¬HypHolds w.hyp 1) ∧
    Worlds.calls 1 [.version 0x10000, .rxtxMap 0x1000 0x2000 1, .rxtxUnmap 0,
      .rxtxMap 0x1000 0x2000 1, .rxtxUnmap 0]
      twoWorlds = .error .forwardedAnswer := by
  have run : Partial.returns (Worlds.calls 1 [.version 0x10001, .rxtxMap 0x1000 0x2000 1,
      .rxtxUnmap 0] twoWorlds) (fun w => (w.hyp.vms 1).any (fun e => e.send == 0) &&
        (w.spmc.get (.nwdVm 0)).any fun e => e.vm.id == 1 && e.send != 0) = true := by
    decide +kernel
  have stop : Partial.stops (Worlds.calls 1 [.version 0x10000, .rxtxMap 0x1000 0x2000 1, .rxtxUnmap 0,
      .rxtxMap 0x1000 0x2000 1, .rxtxUnmap 0] twoWorlds) .forwardedAnswer = true := by
    decide +kernel
  obtain ⟨w, returned, checked⟩ := returns_iff.mp run
  obtain ⟨hypChecked, spmcChecked⟩ := Bool.and_eq_true_iff.mp checked
  obtain ⟨e, held, unset⟩ := (Option.any_eq_true _ _).mp hypChecked
  obtain ⟨e', slot, set⟩ := (Option.any_eq_true _ _).mp spmcChecked
  simp only [Bool.and_eq_true, beq_iff_eq, bne_iff_ne] at set unset
  refine ⟨⟨w, returned, ⟨0, e', slot, set.1, .inl set.2⟩, ?_⟩, Partial.stops_iff.mp stop⟩
  rintro ⟨e₁, held₁, sendSet, -⟩
  cases held.symm.trans held₁
  exact sendSet unset

end Hafnium.Api
