import Hafnium.Api.BufferIsolation
import Hafnium.Api.Mailbox
import Hafnium.Lib.Mailboxes

/-! # The mailbox protocol

Every endpoint has one mailbox of the protocol for mailboxes: all calls deliver to an empty mailbox
only, and a message stays until it is released. FFA_RXTX_UNMAP does not look at the state of the
mailbox, so that one may be left without a buffer while it is full, and cannot receive when it gets
buffers again.
-/

namespace Hafnium.Ffa

open Mm Partial

variable {m : MmConfig} {pool : Mpool} {memory : HypMemory m}

/-! ## What a retrieve request changes -/

/-- At most the page table has changed. -/
def Vm.Retabled (vm vm' : Vm m) : Prop := ∃ t, vm' = { vm with ptable := t }

section Retrieve

variable {vm vm' vm'' : Vm m} {f : Fragments} {mode : Mode} {s s' : Sharing m} {func : BitVec 64}
  {size : FfaValue → BitVec 32} {handle : Handle} {fragmentOffset : BitVec 32}

theorem Vm.Retabled.refl (vm : Vm m) : vm.Retabled vm := ⟨vm.ptable, rfl⟩

theorem Vm.Retabled.trans (first : vm.Retabled vm') (second : vm'.Retabled vm'') : vm.Retabled vm'' := by
  obtain ⟨t, rfl⟩ := first
  obtain ⟨t', rfl⟩ := second
  exact ⟨t', rfl⟩

theorem vmPtableDefrag_retabled (vm : Vm m) (pool : Mpool) :
    vm.Retabled (vmPtableDefrag vm pool).1 := ⟨_, rfl⟩

theorem regionIdentityMap_retabled {commit : Bool} {l : List (Nat × Constituent)} :
    Post (regionIdentityMap mode commit l vm pool) fun r => vm.Retabled r.value := by
  induction l generalizing vm pool with
  | nil => exact .ok (.refl vm)
  | cons head rest ih =>
    refine .guard (.refl vm) fun _ => .ite (fun _ => ?_) fun _ => ?_
    · split
      · exact .error
      · next vm₁ pool₁ committed =>
        have one : vm.Retabled vm₁ := by
          rw [vmIdentityCommit] at committed
          split at committed
          · cases committed
          · cases committed
            exact ⟨_, rfl⟩
        exact fun _ ran => one.trans (ih _ ran)
    · have one : vm.Retabled (vmIdentityPrepare vm head.2.begin_ head.2.end_ mode pool).value := ⟨_, rfl⟩
      exact .ite (fun _ _ ran => one.trans (ih _ ran)) fun _ => .ok one

theorem commitRegion_retabled : Post (commitRegion vm f mode pool) fun r => vm.Retabled r.1 :=
  .bind regionIdentityMap_retabled fun _ mapped => .ite (fun _ => .ok mapped) fun _ => .error

/-- Mapping a region without clearing it leaves the hypervisor's memory alone. -/
theorem ffaRetrieveCheckUpdate_retabled {sender : VmId} {func : MapFunc} :
    Post (ffaRetrieveCheckUpdate vm sender f mode func false memory pool) fun r =>
      vm.Retabled r.vm ∧ r.memory = memory := by
  refine .ite (fun _ => .step fun checked _ => ?_) fun _ => .ok ⟨.refl vm, rfl⟩
  split
  · exact .ok ⟨.refl vm, rfl⟩
  refine .bind regionIdentityMap_retabled fun prepared prepare => .ite (fun _ => ?_) fun _ => ?_
  · refine .bind (Q := fun r => r = _) (.ok rfl) ?_
    rintro _ rfl
    exact .bind commitRegion_retabled fun _ committed =>
      .ok ⟨(prepare.trans committed).trans (vmPtableDefrag_retabled _ _), rfl⟩
  · exact .ok ⟨prepare.trans (vmPtableDefrag_retabled _ _), rfl⟩

/-- A request is answered in the receive buffer or leaves the mailbox alone. -/
def Answers (func : BitVec 64) (size : FfaValue → BitVec 32) (vm : Vm m) (s : Sharing m)
    (ret : FfaValue) (vm' : Vm m) (s' : Sharing m) : Prop :=
  s'.memory = s.memory ∧
    (ret.func = func ∧ (size ret).toNat ≤ hfMailboxSize ∧ vm.deliver.Retabled vm' ∨
      ret.func ≠ func ∧ vm.Retabled vm')

theorem Answers.refused (other : func ≠ ffaError32) {e : FfaError} :
    Answers func size vm s (ffaError e) vm s := ⟨rfl, .inr ⟨other.symm, .refl vm⟩⟩

theorem setRetrieved_memory (s : Sharing m) (i : Fin maxMemShares) (state : ShareState)
    (receiverIndex count : Nat) :
    (setRetrieved s i state receiverIndex count).memory = s.memory := by
  simp only [setRetrieved, ffaMemoryRetrieveComplete]
  split
  · split
    · rfl
    · rfl
  · rfl

theorem ffaRetrievedMemoryRegionInit_fits {state : ShareState} {composite : Composite} :
    Post (ffaRetrievedMemoryRegionInit state composite) fun lengths =>
      ((lengths.2.setWidth 64).setWidth 32).toNat ≤ hfMailboxSize := by
  refine .ite (fun _ => .error) fun fits => .ok ?_
  rw [BitVec.setWidth_setWidth_of_le _ (by decide), BitVec.setWidth_eq, BitVec.toNat_ofNat]
  exact (Nat.mod_le ..).trans (not_lt.mp fits)

theorem ffaMemoryRetrieve_answers {request : MemoryRegion} {requestLength : BitVec 32} :
    Post (ffaMemoryRetrieve vm request requestLength s) fun r =>
      Answers ffaMemRetrieveResp32 (fun ret => ret.arg2.setWidth 32) vm s r.1 r.2.1 r.2.2 := by
  have other : ffaMemRetrieveResp32 ≠ ffaError32 := by decide
  refine .guard (Answers.refused other) fun _ => ?_
  split
  · exact .ok (.refused other)
  split
  · exact .ok (.refused other)
  refine .step fun granted _ => ?_
  split
  · exact .ok (.refused other)
  split
  · exact .ok (.refused other)
  refine .step fun mode _ => .bind ffaRetrieveCheckUpdate_retabled fun r ⟨retabled, same⟩ => ?_
  split
  · exact .ok ⟨same, .inr ⟨other.symm, retabled⟩⟩
  refine .step fun composite _ => .bind ffaRetrievedMemoryRegionInit_fits fun lengths fits => .ok ?_
  refine ⟨(setRetrieved_memory ..).trans same, .inl ⟨rfl, fits, ?_⟩⟩
  obtain ⟨t, eq⟩ := retabled
  exact ⟨t, by rw [eq]; rfl⟩

theorem ffaMemoryRetrieveContinue_answers :
    Post (ffaMemoryRetrieveContinue vm handle fragmentOffset s) fun r =>
      Answers ffaMemFragTx32 (fun ret => ret.arg3.setWidth 32) vm s r.1 r.2.1 r.2.2 := by
  have other : ffaMemFragTx32 ≠ ffaError32 := by decide
  rw [ffaMemoryRetrieveContinue]
  split
  · exact .ok (.refused other)
  split
  · exact .ok (.refused other)
  refine .step fun offset _ => .guard (Answers.refused other) fun _ => .ite (fun _ => .error)
    fun fits => .ok ?_
  refine ⟨setRetrieved_memory .., .inl ⟨rfl, ?_, .refl _⟩⟩
  rw [BitVec.toNat_setWidth, BitVec.toNat_ofNat]
  omega

end Retrieve

end Hafnium.Ffa

namespace Hafnium.Api

open Mm Ffa Mailboxes History Partial

variable {m : MmConfig} {pool : Mpool} {ret : FfaValue} {memory : HypMemory m} {func : BitVec 64}
  {size : FfaValue → BitVec 32} {handle : Handle} {fragmentOffset : BitVec 32}

/-! ## The mailboxes of the endpoints -/

/-- What is known of the message in a mailbox. -/
structure RxMessage where
  size : BitVec 32
  sender : VmId
  func : BitVec 32
  payload : Fin hfMailboxSize → BitVec 8

/-- The address of a byte of a buffer. The top byte of the pointer is a tag. -/
def rxAddress (recv k : Nat) : Nat := (recv + k) % 2 ^ 56

/-- The address is one of an endpoint's RX buffer. -/
def Endpoint.RxByte (e : Endpoint m) (addr : Nat) : Prop := ∃ k < hfMailboxSize, addr = rxAddress e.recv k

def Endpoint.message (e : Endpoint m) (bytes : Nat → BitVec 8) : RxMessage :=
  ⟨e.recvSize, e.recvSender, e.recvFunc, fun k => bytes (rxAddress e.recv k)⟩

def Endpoint.slot (e : Endpoint m) (bytes : Nat → BitVec 8) : Mailboxes.Slot Nat RxMessage where
  buffer := if e.recv = 0 then none else some (e.recv, e.message bytes)
  full := decide (e.vm.mailbox.state ≠ .empty)

def Manager.slot (s : Manager m) (place : Place) : Mailboxes.Slot Nat RxMessage :=
  (s.get place).elim ⟨none, false⟩ fun e => e.slot s.memory.bytes

/-- No two endpoints have the same memory as their RX buffers. -/
def Manager.ApartRx (s : Manager m) : Prop :=
  ∀ {place place' : Place} {e e' : Endpoint m} {addr : Nat}, s.get place = some e →
    s.get place' = some e' → place ≠ place' → e.recv ≠ 0 → e'.recv ≠ 0 → e.RxByte addr → ¬e'.RxByte addr

/-- The place of the TEE in a hypervisor with a TEE. Its RX buffer is written without a look at its
mailbox. -/
def Manager.IsTee (s : Manager m) (place : Place) : Prop :=
  m.features.secureWorld = false ∧ s.teeEnabled = true ∧ place = .vm (hfOtherWorldId m)

/-- The manager can write to RX buffers without touching anything else, and to that of the TEE at any time. -/
structure Manager.RxSafe (s : Manager m) : Prop where
  stage1 : s.memory.stage1.WellFormed
  apart : s.ApartRx
  tee : ∀ {place : Place}, s.IsTee place → (s.slot place).Ready

/-- The hypervisor is called by its own VMs, the SPMC also by the other world. -/
def Endpoint.Calls (vm : Endpoint m) : Prop :=
  m.features.secureWorld = false → vmIdIsCurrentWorld m vm.vm.id = true

variable {place : Place} {e e' : Endpoint m} {released : Option Place}
  {bytes bytes' : Nat → BitVec 8} {acquired : Prop} {content : Bytes}

section Slots

variable {s s' : Manager m}

theorem Manager.slot_of_get (held : s.get place = some e) : s.slot place = e.slot s.memory.bytes := by
  rw [Manager.slot, held]
  rfl

/-- Only the bytes of its buffer matter to a mailbox. -/
theorem Endpoint.slot_congr (same : e.recv ≠ 0 → ∀ addr, e.RxByte addr → bytes' addr = bytes addr) :
    e.slot bytes' = e.slot bytes := by
  rw [Endpoint.slot, Endpoint.slot]
  split
  · rfl
  · next registered =>
    rw [Endpoint.message, Endpoint.message]
    have payload : (fun k : Fin hfMailboxSize => bytes' (rxAddress e.recv k)) =
        fun k : Fin hfMailboxSize => bytes (rxAddress e.recv k) :=
      funext fun k => same registered _ ⟨k, k.isLt, rfl⟩
    rw [payload]

/-- The bytes that change are in the RX buffer of this endpoint. -/
def Manager.WritesTo (s s' : Manager m) (e : Endpoint m) : Prop :=
  ∀ addr, s'.memory.bytes addr ≠ s.memory.bytes addr → e.recv ≠ 0 ∧ e.RxByte addr

theorem Manager.IsTee.placed {id : VmId} (tee : s.IsTee place) (placed : Placed m id place) :
    id = hfOtherWorldId m := by
  obtain ⟨-, -, rfl⟩ := tee
  cases placed
  rfl

/-- The TEE is not a VM of the hypervisor. -/
theorem Manager.IsTee.not_current {id : VmId} (tee : s.IsTee (.vm id)) : ¬vmIdIsCurrentWorld m id = true := by
  intro current
  exact vmIdIsCurrentWorld_ne current (Place.vm.inj tee.2.2)

theorem Manager.IsTee.not_caller {vm : Endpoint m} (calls : vm.Calls)
    (tee : s.IsTee (.vm vm.vm.id)) : False :=
  tee.not_current (calls tee.1)

/-- The mailbox of another endpoint than that whose RX buffer is written. -/
theorem Manager.RxSafe.slot_other {q : Place} (safe : s.RxSafe) (held : s.get place = some e)
    (other : q ≠ place) (same : s'.get q = s.get q) (writes : s.WritesTo s' e) :
    s'.slot q = s.slot q := by
  cases heldQ : s.get q with
  | none =>
    rw [Manager.slot, Manager.slot, same, heldQ]
    rfl
  | some f =>
    rw [Manager.slot_of_get heldQ, Manager.slot_of_get (same.trans heldQ)]
    refine Endpoint.slot_congr fun registered addr mine => ?_
    by_contra changed
    obtain ⟨written, inBuffer⟩ := writes addr changed
    exact safe.apart held heldQ (Ne.symm other) written registered inBuffer mine

/-- One endpoint is replaced, and at most its RX buffer is written. -/
theorem Manager.RxSafe.replace (safe : s.RxSafe) (replaces : s.Replaces place e e' s')
    (stage1 : s'.memory.stage1.WellFormed) (writes : s.WritesTo s' e)
    (buffer : e'.recv ≠ 0 → e'.recv = e.recv ∨
      ∀ q f addr, s.get q = some f → q ≠ place → f.recv ≠ 0 → e'.RxByte addr → ¬f.RxByte addr)
    (tee : s.IsTee place → (e.slot s.memory.bytes).Ready → (e'.slot s'.memory.bytes).Ready)
    (step : (e.slot s.memory.bytes).Step (released = some place) (e'.slot s'.memory.bytes)) :
    s'.RxSafe ∧ ∀ q, (s.slot q).Step (released = some q) (s'.slot q) := by
  have new {q : Place} {f : Endpoint m} {addr : Nat} (held : s.get q = some f) (other : q ≠ place)
      (registered' : e'.recv ≠ 0)
      (registered : f.recv ≠ 0) (mine : e'.RxByte addr) : ¬f.RxByte addr := by
    rcases buffer registered' with same | apart
    · rw [Endpoint.RxByte, same] at mine
      exact safe.apart replaces.held held other.symm (same ▸ registered') registered mine
    · exact apart q f addr held other registered mine
  have here : s'.slot place = e'.slot s'.memory.bytes :=
    Manager.slot_of_get ((replaces.get place).trans (if_pos rfl))
  have there {q : Place} (other : q ≠ place) : s'.slot q = s.slot q :=
    safe.slot_other replaces.held other ((replaces.get q).trans (if_neg other)) writes
  refine ⟨⟨stage1, fun {q q' f f' addr} held held' other registered registered' mine => ?_,
    fun {q} isTee => ?_⟩, fun q => ?_⟩
  · rw [replaces.get] at held held'
    split at held
    · next here =>
      cases held
      rw [if_neg (fun same => other (here.trans same.symm))] at held'
      exact new held' (fun same => other (here.trans same.symm)) registered registered' mine
    · next there =>
      split at held'
      · cases held'
        exact fun mine' => new held there registered' registered mine' mine
      · exact safe.apart held held' other registered registered' mine
  · have before : s.IsTee q := ⟨isTee.1, replaces.enabled ▸ isTee.2.1, isTee.2.2⟩
    by_cases same : q = place
    · subst same
      rw [here]
      exact tee before (Manager.slot_of_get replaces.held ▸ safe.tee before)
    · rw [there same]
      exact safe.tee before
  · by_cases same : q = place
    · subst same
      rw [here, Manager.slot_of_get replaces.held]
      exact step
    · rw [there same]
      exact .stay

/-- What a call does to the mailboxes. Every byte that it writes is in the RX buffer of an empty mailbox,
which has been acquired if the other world owns it. -/
structure Manager.Advances (s : Manager m) (acquired : Prop) (released : Option Place)
    (s' : Manager m) : Prop where
  safe : s'.RxSafe
  slots : ∀ place, (s.slot place).Step (released = some place) (s'.slot place)
  writes : ∀ addr, s'.memory.bytes addr ≠ s.memory.bytes addr → ∃ place e, s.get place = some e ∧
    e.recv ≠ 0 ∧ e.RxByte addr ∧ e.vm.mailbox.state = .empty ∧ (rxOwnedBySpmc s e = true → acquired)

theorem Manager.Advances.refl (safe : s.RxSafe) : s.Advances acquired released s :=
  ⟨safe, fun _ => .stay, fun _ changed => absurd rfl changed⟩

/-- An endpoint changes, but nothing is written. -/
theorem Manager.Advances.quiet (safe : s.RxSafe) (replaces : s.Replaces place e e' s')
    (stage1 : s'.memory.stage1.WellFormed) (bytes : s'.memory.bytes = s.memory.bytes)
    (buffer : e'.recv ≠ 0 → e'.recv = e.recv ∨
      ∀ q f addr, s.get q = some f → q ≠ place → f.recv ≠ 0 → e'.RxByte addr → ¬f.RxByte addr)
    (tee : s.IsTee place → (e.slot s.memory.bytes).Ready → (e'.slot s.memory.bytes).Ready)
    (step : (e.slot s.memory.bytes).Step (released = some place) (e'.slot s.memory.bytes)) :
    s.Advances acquired released s' := by
  have unchanged (addr : Nat) : ¬s'.memory.bytes addr ≠ s.memory.bytes addr :=
    not_not.mpr (congrFun bytes addr)
  obtain ⟨safe', slots⟩ := safe.replace replaces stage1
    (fun addr changed => absurd changed (unchanged addr)) buffer
    (by rw [bytes]; exact tee) (by rw [bytes]; exact step)
  exact ⟨safe', slots, fun addr changed => absurd changed (unchanged addr)⟩

/-- A message is delivered to a mailbox that is not busy. -/
theorem Manager.Advances.deliver (safe : s.RxSafe) (replaces : s.Replaces place e e' s')
    (stage1 : s'.memory.stage1 = s.memory.stage1) (idle : e.busy = false)
    (owned : rxOwnedBySpmc s e = true → acquired) (same : e'.recv = e.recv)
    (tee : s.IsTee place → e'.vm.mailbox.state = .empty)
    (writes : ∀ addr, s'.memory.bytes addr ≠ s.memory.bytes addr → e.RxByte addr) :
    s.Advances acquired released s' := by
  have ready : e.vm.mailbox.state = .empty ∧ e.recv ≠ 0 := by simpa [Endpoint.busy] using idle
  obtain ⟨empty, registered⟩ := ready
  have after : e'.slot s'.memory.bytes = ⟨some (e.recv, e'.message s'.memory.bytes),
      (e'.slot s'.memory.bytes).full⟩ := by
    rw [Endpoint.slot, if_neg (same ▸ registered), same]
  have step : (e.slot s.memory.bytes).Step (released = some place) (e'.slot s'.memory.bytes) := by
    rw [after]
    exact .deliver (if_neg registered) (decide_eq_false (not_not.mpr empty)) _ _
  obtain ⟨safe', slots⟩ := safe.replace replaces (stage1 ▸ safe.stage1)
    (fun addr changed => ⟨registered, writes addr changed⟩)
    (fun _ => .inl same) (fun isTee _ => ⟨by rw [after]; rfl, decide_eq_false (not_not.mpr (tee isTee))⟩) step
  exact ⟨safe', slots, fun addr changed => ⟨place, e, replaces.held, registered,
    writes addr changed, empty, owned⟩⟩

/-- After a call that writes nothing, the RX buffer of another endpoint is written, whose mailbox is empty. -/
theorem Manager.Advances.describe {q : Place} {f : Endpoint m} {s₁ : Manager m}
    (first : s.Advances acquired released s₁) (bytes : s₁.memory.bytes = s.memory.bytes)
    (before : s.get q = some f) (held : s₁.get q = some f) (ready : (s.slot q).Ready)
    (owned : rxOwnedBySpmc s f = true → acquired) (stage1 : memory.stage1 = s₁.memory.stage1)
    (writes : ∀ addr, memory.bytes addr ≠ s₁.memory.bytes addr → f.RxByte addr) :
    s.Advances acquired released { s₁ with memory } := by
  have get (r : Place) : ({ s₁ with memory } : Manager m).get r = s₁.get r := by cases r <;> rfl
  have isSlot : s.slot q = f.slot s.memory.bytes := Manager.slot_of_get before
  have registered : f.recv ≠ 0 := by
    intro unset
    have buffer := (isSlot ▸ ready).1
    rw [Endpoint.slot, if_pos unset] at buffer
    cases buffer
  have empty : f.vm.mailbox.state = .empty := not_not.mp (of_decide_eq_false (isSlot ▸ ready).2)
  have after : ({ s₁ with memory } : Manager m).slot q = ⟨some (f.recv, f.message memory.bytes), false⟩ := by
    rw [Manager.slot_of_get ((get q).trans held), Endpoint.slot, if_neg registered,
      decide_eq_false (not_not.mpr empty)]
  have there {r : Place} (other : r ≠ q) : ({ s₁ with memory } : Manager m).slot r = s₁.slot r :=
    first.safe.slot_other held other (get r) fun addr changed => ⟨registered, writes addr changed⟩
  refine ⟨⟨stage1 ▸ first.safe.stage1, fun {r r' e e' addr} heldR heldR' => ?_,
    fun {r} isTee => ?_⟩, fun r => ?_, fun addr changed => ?_⟩
  · rw [get] at heldR heldR'
    exact first.safe.apart heldR heldR'
  · by_cases here : r = q
    · subst here
      rw [after]
      exact ⟨rfl, rfl⟩
    · rw [there here]
      exact first.safe.tee isTee
  · by_cases here : r = q
    · subst here
      rw [after]
      exact .deliver ((congrArg Mailboxes.Slot.buffer isSlot).trans (if_neg registered)) ready.2 _ _
    · rw [there here]
      exact first.slots r
  · exact ⟨q, f, before, registered, writes addr (bytes.symm ▸ changed), empty, owned⟩

theorem Manager.Advances.mono {acquired' : Prop} (advances : s.Advances acquired released s')
    (weaker : acquired → acquired') : s.Advances acquired' released s' := by
  refine ⟨advances.safe, advances.slots, fun addr changed => ?_⟩
  obtain ⟨place, e, held, registered, inBuffer, empty, owned⟩ := advances.writes addr changed
  exact ⟨place, e, held, registered, inBuffer, empty, fun spmc => weaker (owned spmc)⟩

end Slots

/-! ## What is written -/

section Writes

variable {t : MmPtable (m.levels .stage1)} {dest count : Nat} {src addr : Nat}

theorem written_succ {before : Nat → BitVec 8} {target : Nat} {b : BitVec 8} (wf : t.WellFormed)
    (stored : storeTarget t (dest + count) = some target)
    (changed : Function.update before target b addr ≠ bytes addr)
    (earlier : before addr ≠ bytes addr → ∃ k < count, addr = rxAddress dest k) :
    ∃ k < count + 1, addr = rxAddress dest k := by
  by_cases here : addr = target
  · exact ⟨count, Nat.lt_succ_self count, here.trans (storeTarget_eq wf stored)⟩
  · rw [Function.update_of_ne here] at changed
    obtain ⟨k, bound, eq⟩ := earlier changed
    exact ⟨k, Nat.lt_succ_of_lt bound, eq⟩

theorem memcpyBytes_writes (wf : t.WellFormed) (ran : memcpyBytes t dest src bytes count = some bytes')
    (changed : bytes' addr ≠ bytes addr) : ∃ k < count, addr = rxAddress dest k := by
  induction count generalizing bytes' with
  | zero =>
    cases ran
    exact absurd rfl changed
  | succ count ih =>
    rw [memcpyBytes] at ran
    split at ran
    · next before source target copied loaded stored =>
      cases ran
      exact written_succ wf stored changed (ih copied)
    · cases ran

theorem storeBytes_writes (wf : t.WellFormed) (ran : storeBytes t dest content bytes count = some bytes')
    (changed : bytes' addr ≠ bytes addr) : ∃ k < count, addr = rxAddress dest k := by
  induction count generalizing bytes' with
  | zero =>
    cases ran
    exact absurd rfl changed
  | succ count ih =>
    rw [storeBytes] at ran
    split at ran
    · next before target earlier stored =>
      cases ran
      exact written_succ wf stored changed (ih earlier)
    · cases ran

/-- A message is copied to the RX buffer. -/
theorem memcpyS_writes (wf : t.WellFormed)
    (ran : memcpyS t dest ffaMsgPayloadMax src count bytes = .ok bytes')
    (changed : bytes' addr ≠ bytes addr) : ∃ k < hfMailboxSize, addr = rxAddress dest k := by
  rw [memcpyS] at ran
  split at ran
  · cases ran
  · next checked =>
    split at ran
    · cases ran
    · next copied =>
      cases ran
      simp only [not_or, not_lt] at checked
      obtain ⟨k, bound, eq⟩ := memcpyBytes_writes wf copied changed
      exact ⟨k, lt_of_lt_of_le bound checked.2.2.2.1, eq⟩

theorem store_writes {memory' : HypMemory m} (wf : memory.stage1.WellFormed) (small : count ≤ hfMailboxSize)
    (ran : store memory dest content count = .ok memory') : memory'.stage1 = memory.stage1 ∧
      ∀ addr, memory'.bytes addr ≠ memory.bytes addr → ∃ k < hfMailboxSize, addr = rxAddress dest k := by
  rw [store] at ran
  split at ran
  · cases ran
  · next stored =>
    cases ran
    refine ⟨rfl, fun addr changed => ?_⟩
    obtain ⟨k, bound, eq⟩ := storeBytes_writes wf stored changed
    exact ⟨k, lt_of_lt_of_le bound small, eq⟩

end Writes

/-! ## The calls -/

/-- The mailbox that a call releases for its receiver: its own, or that of a normal-world VM on whose
behalf the normal world calls the SPMC. -/
def BufferCall.releases (x : Exchange m) (vm : Endpoint m) : BufferCall → Option Place
  | .mailbox (.rxRelease receiverId) =>
    if releaseVmId vm receiverId = vm.vm.id ∨ vmIdIsCurrentWorld m receiverId = false then
      (platFfaVmFindLocked x.manager (releaseVmId vm receiverId)).map Prod.fst
    else none
  | _ => none

/-- A condition on calls under which mailboxes are safe: the RX buffer of a registration is not part of
another endpoint's, only empty mailboxes lose their buffers, and a message is released for its receiver. -/
def BufferCall.Orderly (x : Exchange m) (vm : Endpoint m) : BufferCall → Prop
  | .mailbox (.rxtxMap send recv pageCount) =>
    ∀ desc place owner, apiGetRxtxDescription x.manager.memory vm send recv pageCount = .ok desc →
      platFfaVmFindLockedCreate x.manager desc.ownerVmId = some (place, owner) →
      ∀ q f k, x.manager.get q = some f → q ≠ place → f.recv ≠ 0 → k < hfMailboxSize →
        ¬f.RxByte (rxAddress desc.recv.toNat k)
  | .mailbox (.rxtxUnmap allocatorId) =>
    ∀ place e, platFfaVmFindLocked x.manager (unmapOwner vm allocatorId) = some (place, e) →
      e.send ≠ 0 → e.recv ≠ 0 → e.vm.mailbox.state = .empty
  | .mailbox (.rxRelease receiverId) =>
    releaseVmId vm receiverId = vm.vm.id ∨ vmIdIsCurrentWorld m receiverId = false
  | _ => True

/-- Some calls do not ask the other world for an RX buffer that it owns. -/
def BufferCall.Acquires (x : Exchange m) (vm : Endpoint m) : BufferCall → Prop
  | .mailbox (.rxtxMap ..) =>
    ∀ e, x.manager.vms (hfOtherWorldId m) = some e → rxOwnedBySpmc x.manager e = false
  | .msgSend _ receiverVmId _ => ∀ e, x.manager.vms receiverVmId = some e → rxOwnedBySpmc x.manager e = false
  | .retrieveReq .. | .fragRx .. => rxOwnedBySpmc x.manager vm = false
  | _ => True

section Calls

variable {s s' : Manager m} {x x' : Exchange m} {vm : Endpoint m} {answer : FfaValue} {env : BufferEnv}
  {senderVmId : VmId} {directRequest : Bool}
  {pageCount flags : BitVec 32} {receiverId : VmId} {partitions : List PartitionInfo}

/-- A registration, before it is forwarded. -/
theorem register_advances {desc : RxtxDescription} {id : VmId}
    {table : MmPtable (m.levels e.vm.stage)} (safe : s.RxSafe) (replaces : s.Replaces place e
      { e with vm := { e.vm with id, ptable := table }, send := desc.send.toNat, recv := desc.recv.toNat } s')
    (stage1 : s'.memory.stage1.WellFormed) (bytes : s'.memory.bytes = s.memory.bytes)
    (unset : e.recv = 0) (notNull : desc.recv.toNat ≠ 0)
    (apart : ∀ q f k, s.get q = some f → q ≠ place → f.recv ≠ 0 → k < hfMailboxSize →
      ¬f.RxByte (rxAddress desc.recv.toNat k)) : s.Advances acquired released s' := by
  have none_ : (e.slot s.memory.bytes).buffer = none := if_pos unset
  refine .quiet safe replaces stage1 bytes (fun _ => .inr fun q f addr held other registered mine => ?_)
    (fun _ ready => ?_) ?_
  · obtain ⟨k, bound, rfl⟩ := mine
    exact apart q f k held other registered bound
  · have set := ready.1
    rw [none_] at set
    cases set
  · have after (message : RxMessage) :
        (if desc.recv.toNat = 0 then none else some (desc.recv.toNat, message)) =
          some (desc.recv.toNat, message) :=
      if_neg notNull
    show Mailboxes.Slot.Step _ (e.slot _) ⟨if desc.recv.toNat = 0 then none else some (desc.recv.toNat, _), _⟩
    rw [after]
    exact .register none_ _ _

theorem apiFfaRxtxMap_advances {send recv : BitVec 64} (safe : x.manager.RxSafe)
    (orderly : BufferCall.Orderly x vm (.mailbox (.rxtxMap send recv pageCount)))
    (owned : ∀ f, x.manager.vms (hfOtherWorldId m) = some f → rxOwnedBySpmc x.manager f = true → acquired)
    (ran : apiFfaRxtxMap x.manager vm send recv pageCount answer = .ok (ret, s')) :
    x.manager.Advances acquired released s' := by
  rcases apiFfaRxtxMap_cases ran with
    rfl | ⟨desc, place, owner, e, id, table, e', s₁, described, found, -, replaces, changes, -, outcome⟩
  · exact .refl safe
  have stage1 := (changes.stage1 safe.stage1).wellFormed
  rcases outcome with ⟨rfl, rfl, -⟩ | ⟨-, unset, notNull, -, -, rfl, memory, forwarded, rfl⟩
  · exact .quiet safe replaces stage1 changes.bytes (fun _ => .inl rfl) (fun _ ready => ready) .stay
  have registers : x.manager.Advances acquired released s₁ :=
    register_advances safe replaces stage1 changes.bytes unset notNull
      (orderly desc place owner described found)
  rcases platFfaRxtxMapForward_ok forwarded with rfl | ⟨hypervisor, enabled, f, content, there, stored⟩
  · exact registers
  · -- The TEE has its buffers, so that it is not the endpoint that gets some.
    have isTee : x.manager.IsTee (.vm (hfOtherWorldId m)) :=
      ⟨hypervisor, replaces.enabled.symm.trans enabled, rfl⟩
    have ready := safe.tee isTee
    have other : Place.vm (hfOtherWorldId m) ≠ place := by
      rintro rfl
      have set := ready.1
      rw [Manager.slot_of_get replaces.held, Endpoint.slot, if_pos unset] at set
      cases set
    have before : x.manager.get (.vm (hfOtherWorldId m)) = some f :=
      ((replaces.get _).trans (if_neg other)).symm.trans there
    obtain ⟨same, writes⟩ := store_writes stage1 (by decide) stored
    exact registers.describe changes.bytes before there ready (owned f before) same writes

theorem apiFfaRxtxUnmap_advances {allocatorId : VmId} (safe : x.manager.RxSafe) (calls : vm.Calls)
    (orderly : BufferCall.Orderly x vm (.mailbox (.rxtxUnmap allocatorId)))
    (ran : apiFfaRxtxUnmap x.manager vm allocatorId answer = .ok (ret, s')) :
    x.manager.Advances acquired released s' := by
  rcases apiFfaRxtxUnmap_cases _ ran with rfl | ⟨place, e, id, t, allowed, found, sendSet, recvSet,
      replaces, memory, -⟩
  · exact .refl safe
  · have empty := orderly place e found sendSet recvSet
    refine .quiet safe replaces (memory.stage1 safe.stage1).wellFormed memory.bytes
      (fun set => absurd rfl set)
      (fun tee => ?_) (.unregister (decide_eq_false (not_not.mpr empty)))
    -- A VM gives back only its own buffers.
    have own : allocatorId = 0 := by
      by_contra named
      exact allowed ⟨calls tee.1, named⟩
    have isOwn : vm.vm.id = hfOtherWorldId m := by
      have isOther := tee.placed (platFfaVmFindLocked_some found).1
      rwa [own] at isOther
    exact absurd isOwn (vmIdIsCurrentWorld_ne (calls tee.1))

/-- Only the state of a mailbox changes. -/
theorem Manager.Advances.setState (safe : s.RxSafe) (held : s.get place = some e) {state : MailboxState}
    (tee : s.IsTee place → (e.slot s.memory.bytes).Ready → state = .empty)
    (step : (e.slot s.memory.bytes).Step (released = some place) ((e.setState state).slot s.memory.bytes)) :
    s.Advances acquired released (s.put place (e.setState state)) := by
  have same : (s.put place (e.setState state)).memory = s.memory := by cases place <;> rfl
  refine .quiet safe (s.replaces_setState held state) ?_ (congrArg HypMemory.bytes same) (fun _ => .inl rfl)
    (fun isTee ready => ⟨ready.1, decide_eq_false (not_not.mpr (tee isTee ready))⟩) step
  rw [same]
  exact safe.stage1

theorem apiFfaRxRelease_advances (safe : x.manager.RxSafe)
    (orderly : BufferCall.Orderly x vm (.mailbox (.rxRelease receiverId))) :
    Post (apiFfaRxRelease x.manager vm receiverId answer) fun result =>
      x.manager.Advances acquired (BufferCall.releases x vm (.mailbox (.rxRelease receiverId))) result.2 := by
  have named : BufferCall.releases x vm (.mailbox (.rxRelease receiverId)) =
      (platFfaVmFindLocked x.manager (releaseVmId vm receiverId)).map Prod.fst := if_pos orderly
  refine .guard (.refl safe) fun _ => ?_
  split
  · exact .ok (.refl safe)
  next place e found =>
  have here : BufferCall.releases x vm (.mailbox (.rxRelease receiverId)) = some place := by
    rw [named, found]; rfl
  have emptied : x.manager.Advances acquired (BufferCall.releases x vm (.mailbox (.rxRelease receiverId)))
      (x.manager.put place (e.setState .empty)) :=
    .setState safe (platFfaVmFindLocked_some found).2 (fun _ _ => rfl) (.release here)
  refine .ite (fun _ => ?_) fun _ => ?_
  · split
    · exact .error
    · exact .ite (fun _ => .ok emptied) fun _ => .ok (.refl safe)
  · split
    · exact .ok (.refl safe)
    · exact .guard (.refl safe) fun _ => .ok emptied
    · exact .ok emptied

theorem apiFfaRxAcquire_advances (safe : s.RxSafe) :
    Post (apiFfaRxAcquire s vm receiverId) fun result => s.Advances acquired released result.2 := by
  refine .guard (.refl safe) fun supported => ?_
  split
  · exact .error
  next place e found =>
  refine .guard (.refl safe) fun registered => .guard (.refl safe) fun waiting => .ok ?_
  rw [not_not] at waiting
  obtain ⟨placed, held⟩ := platFfaVmFindLocked_some found
  refine .setState safe held (fun tee => ?_) ?_
  · have isVm : platFfaIsVmId m receiverId = true := by simpa using (not_or.mp supported).2
    rw [platFfaIsVmId, tee.1] at isVm
    exact absurd (tee.placed placed) (vmIdIsCurrentWorld_ne isVm)
  have after : (e.setState .received).slot s.memory.bytes =
      ⟨some (e.recv, e.message s.memory.bytes), true⟩ := by
    rw [Endpoint.slot, if_neg (show (e.setState .received).recv ≠ 0 from registered)]
    rfl
  rw [after]
  exact .deliver (if_neg registered) (decide_eq_false (not_not.mpr waiting)) _ _

/-- A partition that `vm_find` finds is replaced, whatever else changes. -/
theorem Manager.replaces_put {id : VmId} (held : s.vms id = some e) (same : e'.vm.id = e.vm.id) :
    s.Replaces (.vm id) e e' { s.put (.vm id) e' with memory, pool } := by
  refine ⟨held, Manager.get_put (show s.get (.vm id) = some e from held) ?_, s.put_teeEnabled ..⟩
  rintro _ ⟨⟩
  exact same.trans (s.vmIds held)

/-- A message for a partition that `vm_find` finds. -/
theorem apiFfaMsgSend_advances {receiverVmId : VmId} {size : BitVec 32} (safe : s.RxSafe)
    (owned : ∀ e, s.vms receiverVmId = some e → rxOwnedBySpmc s e = true → acquired) :
    Post (apiFfaMsgSend s vm senderVmId receiverVmId size directRequest answer) fun result =>
      s.Advances acquired released result.2 := by
  have same : s.Advances acquired released s := .refl safe
  refine .guard same fun _ => .guard same fun _ => .guard same fun _ => .guard same fun _ => ?_
  split
  · exact .ok same
  next receiver held =>
  refine .guard same fun _ => .guard same fun idle => .step fun bytes copied => ?_
  have delivered (state : MailboxState) (tee : s.IsTee (.vm receiverVmId) → state = .empty) :
      s.Advances acquired released
        (Manager.put { s with memory := { s.memory with bytes } } (.vm receiverVmId)
          (Endpoint.setState { receiver with
            recvSize := size, recvSender := senderVmId, recvFunc := ffaMsgSend32 } state)) :=
    .deliver safe (Manager.replaces_put held (by rfl)) rfl (Bool.eq_false_of_not_eq_true idle)
      (owned receiver held) rfl tee fun addr changed => memcpyS_writes safe.stage1 copied changed
  have isReceiver (tee : s.IsTee (.vm receiverVmId)) : receiver.vm.id = hfTeeVmId := by
    rw [s.vmIds held, Place.vm.inj tee.2.2, hfOtherWorldId, tee.1]
    rfl
  refine .ok ?_
  unfold deliverMsg
  split
  · next primary =>
    refine delivered .read fun tee => ?_
    rw [show receiver.vm.id = _ from primary, hfPrimaryVmId, tee.1, if_neg Bool.false_ne_true] at isReceiver
    exact absurd (isReceiver tee) (by decide)
  · split
    · exact delivered .empty fun _ => rfl
    · next other => exact delivered .received fun tee => absurd (isReceiver tee) other

theorem platFfaAcquireReceiverRx_acquired (acquired : ¬platFfaAcquireReceiverRx s e answer = false)
    (owned : rxOwnedBySpmc s e = true) : answer.func = ffaSuccess32 := by
  simpa [platFfaAcquireReceiverRx, owned] using acquired

theorem apiFfaMsgSend2_advances (safe : s.RxSafe) :
    Post (apiFfaMsgSend2 s vm senderVmId flags answer) fun result =>
      s.Advances (answer.func = ffaSuccess32) released result.2 := by
  have same : s.Advances (answer.func = ffaSuccess32) released s := .refl safe
  refine .step fun checked _ => ?_
  split
  · exact .ok same
  refine .guard same fun here => ?_
  split
  · exact .ok same
  next header _ _ place receiver isReceiver =>
  obtain ⟨found, waiting, ready⟩ := msgSend2Receiver_ok isReceiver
  refine .guard same fun acquired => .guard same fun _ => .step fun bytes copied => .ok ?_
  obtain ⟨placed, held⟩ := platFfaVmFindLocked_some found
  have replaces := (Manager.replaces_deliver held header).withMemory { s.memory with bytes }
  have notTee : ¬s.IsTee place := by
    intro tee
    rw [platFfaMsgSend2Forward, tee.1, tee.placed placed] at here
    simp [vmIdIsCurrentWorld] at here
  have idle : ¬(receiver.vm.mailbox.state ≠ .empty ∨ receiver.recv = 0) :=
    not_or.mpr ⟨not_not.mpr waiting, ready⟩
  exact .deliver safe replaces rfl (decide_eq_false idle) (platFfaAcquireReceiverRx_acquired acquired) rfl
    (fun tee => absurd tee notTee) fun addr changed => memcpyS_writes safe.stage1 copied changed

theorem sendVersionedPartitionInfoDescriptors_advances (safe : s.RxSafe) (calls : vm.Calls)
    (caller : s.vms vm.vm.id = some vm) :
    Post (sendVersionedPartitionInfoDescriptors s vm partitions answer) fun result =>
      s.Advances (answer.func = ffaSuccess32) released result.2 := by
  have same : s.Advances (answer.func = ffaSuccess32) released s := .refl safe
  refine .guard same fun idle => .guard same fun acquired => .guard same fun small =>
    .step fun memory stored => .ok ?_
  obtain ⟨stage1, writes⟩ := store_writes safe.stage1 (not_lt.mp small) stored
  exact .deliver safe (Manager.replaces_put caller (by rfl)) stage1 (Bool.eq_false_of_not_eq_true idle)
    (platFfaAcquireReceiverRx_acquired acquired) rfl (fun tee => (tee.not_caller calls).elim) writes

theorem apiFfaPartitionInfoGet_advances (safe : s.RxSafe) (calls : vm.Calls)
    (caller : s.vms vm.vm.id = some vm) :
    Post (apiFfaPartitionInfoGet s vm flags partitions answer) fun result =>
      s.Advances (answer.func = ffaSuccess32) released result.2 := by
  have same : s.Advances (answer.func = ffaSuccess32) released s := .refl safe
  exact .guard same fun _ => .guard same fun _ => .guard same fun _ =>
    sendVersionedPartitionInfoDescriptors_advances safe calls caller

/-- The receiver has seen its message; the mailbox stays full. -/
theorem Manager.Advances.read (safe : s.RxSafe) (held : s.get place = some e)
    (received : e.vm.mailbox.state = .received) :
    s.Advances acquired released (s.put place (e.setState .read)) := by
  have full : (e.slot s.memory.bytes).full = true := by
    rw [Endpoint.slot, received]
    rfl
  refine .setState safe held (fun _ ready => absurd (full.symm.trans ready.2) Bool.true_eq_false.mp) ?_
  have same : (e.setState .read).slot s.memory.bytes = e.slot s.memory.bytes := by
    rw [Endpoint.slot, Endpoint.slot, show decide (e.vm.mailbox.state ≠ .empty) = true from full]
    rfl
  rw [same]
  exact .stay

theorem apiFfaMsgRecv_advances {block : Bool} (safe : s.RxSafe) (caller : s.vms vm.vm.id = some vm) :
    s.Advances acquired released (apiFfaMsgRecv s vm block directRequest).2 := by
  rw [apiFfaMsgRecv]
  split
  · exact .refl safe
  · split
    · exact .refl safe
    · split
      · next received =>
        dsimp only
        split
        · exact .read safe (caller) received
        · exact .refl safe
      · split
        · exact .refl safe
        · exact .refl safe

theorem apiFfaMsgWait_advances {args : List (BitVec 64)} {prepared : Option FfaValue}
    (safe : s.RxSafe) (caller : s.vms vm.vm.id = some vm) :
    s.Advances acquired released (apiFfaMsgWait s vm args prepared directRequest).2 := by
  unfold apiFfaMsgWait
  split
  · exact .refl safe
  · split
    · exact .refl safe
    · exact apiFfaMsgRecv_advances safe caller

/-- A memory call refuses or answers in the RX buffer of a caller that is not busy. -/
def Exchange.Serves (x : Exchange m) (vm : Endpoint m) (func : BitVec 64)
    (size : FfaValue → BitVec 32) (ret : FfaValue) (h : Hyp m) : Prop :=
  ret.func ≠ func ∧ h = x.hyp ∨ vm.busy = false ∧ ∃ vm' sharing,
    Ffa.Answers func size (vm.view x.manager.memory.bytes) x.hyp.sharing ret vm' sharing ∧
      h = { x.hyp.setVm vm' with sharing }

theorem Exchange.memCall_advances {call : Hyp m → Vm m → Run (FfaValue × Hyp m)}
    (safe : x.manager.RxSafe) (calls : vm.Calls) (caller : x.manager.vms vm.vm.id = some vm)
    (owned : rxOwnedBySpmc x.manager vm = true → acquired)
    (serves : Post (call x.hyp (vm.view x.manager.memory.bytes))
      fun result => x.Serves vm func size result.1 result.2)
    (ran : x.memCall vm func size content call = .ok (ret, x')) :
    x.manager.Advances acquired released x'.manager := by
  simp only [Exchange.memCall, bind_ok_iff] at ran
  obtain ⟨⟨ret', h⟩, called, ran⟩ := ran
  have here (vm' : Vm m) (sharing : Sharing m) (same : vm'.id = vm.vm.id) :
      vm.after { x.hyp.setVm vm' with sharing } = vm.withVm vm' := by
    have found : (x.hyp.setVm vm').vms vm.vm.id = some vm' := same ▸ Function.update_self ..
    rw [Endpoint.after]
    rw [found]
    rfl
  rcases serves _ called with ⟨other, rfl⟩ | ⟨idle, vm', sharing, ⟨memory, outcome⟩, rfl⟩
  · dsimp only at ran
    rw [if_neg other] at ran
    cases ran
    have same : vm.after x.hyp = vm := by
      have found : x.hyp.vms vm.vm.id = some (vm.view x.manager.memory.bytes) := by
        show (x.manager.vms vm.vm.id).map _ = _
        rw [caller]
        rfl
      rw [Endpoint.after, found]
      rfl
    rw [same]
    exact .quiet safe (Manager.replaces_put caller rfl) safe.stage1 rfl (fun _ => .inl rfl)
      (fun _ ready => ready) .stay
  · rcases outcome with ⟨answered, small, t, same⟩ | ⟨other, t, same⟩
    · rw [if_pos answered, here vm' sharing (same ▸ rfl)] at ran
      obtain ⟨memory', stored, ran⟩ := bind_ok_iff.mp ran
      rw [memory] at stored
      obtain ⟨stage1, writes⟩ := store_writes safe.stage1 small stored
      subst same
      cases ran
      exact .deliver safe (Manager.replaces_put caller (by rfl)) stage1 idle owned rfl
        (fun tee => (tee.not_caller calls).elim) writes
    · rw [if_neg other, here vm' sharing (same ▸ rfl)] at ran
      subst same
      cases ran
      refine .quiet safe (Manager.replaces_put caller (by rfl)) ?_ (congrArg HypMemory.bytes memory)
        (fun _ => .inl rfl) (fun _ ready => ready) .stay
      rw [memory]
      exact safe.stage1

theorem busy_view : msgReceiverBusy (vm.view bytes) = vm.busy := by
  rw [msgReceiverBusy, Endpoint.busy]
  simp [Endpoint.view]

theorem Exchange.Serves.refused {error : FfaError} (other : func ≠ ffaError32) :
    x.Serves vm func size (ffaError error) x.hyp := .inl ⟨other.symm, rfl⟩

theorem apiFfaMemRetrieveReq_serves {length fragmentLength : BitVec 32} {address : BitVec 64}
    {env : CallEnv} :
    Post (apiFfaMemRetrieveReq x.hyp (vm.view x.manager.memory.bytes)
      length fragmentLength address pageCount env)
      fun result => x.Serves vm ffaMemRetrieveResp32 (fun ret => ret.arg2.setWidth 32) result.1 result.2 := by
  have other : ffaMemRetrieveResp32 ≠ ffaError32 := by decide
  refine .guard (.refused other) fun _ => .guard (.refused other) fun _ => .guard (.refused other) fun _ => ?_
  split
  · exact .ok (.refused other)
  refine .guard (.refused other) fun idle => .step fun ⟨ret, vm', sharing⟩ retrieved => .ok ?_
  rw [busy_view] at idle
  exact .inr ⟨Bool.eq_false_of_not_eq_true idle, vm', sharing, ffaMemoryRetrieve_answers _ retrieved, rfl⟩

theorem apiFfaMemFragRx_serves : Post (apiFfaMemFragRx x.hyp (vm.view x.manager.memory.bytes)
      handle fragmentOffset senderVmId)
      fun result => x.Serves vm ffaMemFragTx32 (fun ret => ret.arg3.setWidth 32) result.1 result.2 := by
  have other : ffaMemFragTx32 ≠ ffaError32 := by decide
  refine .guard (.refused other) fun _ => .guard (.refused other) fun idle =>
    .step fun ⟨ret, vm', sharing⟩ retrieved => .ok ?_
  rw [busy_view] at idle
  exact .inr ⟨Bool.eq_false_of_not_eq_true idle, vm', sharing,
    ffaMemoryRetrieveContinue_answers _ retrieved, rfl⟩

/-- What a call does to all mailboxes. -/
theorem BufferCall.run_advances {call : BufferCall} (safe : x.manager.RxSafe) (calls : vm.Calls)
    (caller : x.manager.vms vm.vm.id = some vm) (orderly : call.Orderly x vm)
    (returned : call.run x vm env = .ok (ret, x')) :
    x.manager.Advances (call.Acquires x vm → env.answer.func = ffaSuccess32) (call.releases x vm)
      x'.manager := by
  have lifted {r : Run (FfaValue × Manager m)} (same : x.lift r = .ok (ret, x')) :
      r = .ok (ret, x'.manager) := by
    simp only [Exchange.lift, bind_ok_iff] at same
    obtain ⟨r', answered, ⟨⟩⟩ := same
    exact answered
  cases call with
  | mailbox call =>
    have returned := lifted returned
    cases call with
    | rxtxMap =>
      refine apiFfaRxtxMap_advances safe orderly (fun f held owned acquires => ?_) returned
      cases (acquires f held).symm.trans owned
    | rxtxUnmap => exact apiFfaRxtxUnmap_advances safe calls orderly returned
    | rxRelease => exact apiFfaRxRelease_advances safe orderly _ returned
    | rxAcquire => exact apiFfaRxAcquire_advances safe _ returned
  | msgSend =>
    refine apiFfaMsgSend_advances safe (fun e held owned acquires => ?_) _ (lifted returned)
    cases (acquires e held).symm.trans owned
  | msgSend2 => exact (apiFfaMsgSend2_advances safe _ (lifted returned)).mono fun answered _ => answered
  | msgWait =>
    cases returned
    exact apiFfaMsgWait_advances safe caller
  | msgPoll =>
    cases returned
    exact apiFfaMsgRecv_advances safe caller
  | partitionInfoGet =>
    exact (apiFfaPartitionInfoGet_advances safe calls caller _ (lifted returned)).mono
      fun answered _ => answered
  | retrieveReq =>
    rw [BufferCall.run, Exchange.retrieveReq] at returned
    refine Exchange.memCall_advances safe calls caller (fun owned acquires => ?_)
      apiFfaMemRetrieveReq_serves returned
    cases Eq.symm acquires |>.trans owned
  | fragRx =>
    rw [BufferCall.run, Exchange.fragRx] at returned
    refine Exchange.memCall_advances safe calls caller (fun owned acquires => ?_)
      apiFfaMemFragRx_serves returned
    cases Eq.symm acquires |>.trans owned

end Calls

/-! ## Runs -/

/-- What other code has to leave alone of an endpoint. -/
def Endpoint.rx (e : Endpoint m) : Nat × MailboxState × BitVec 32 × VmId × BitVec 32 :=
  (e.recv, e.vm.mailbox.state, e.recvSize, e.recvSender, e.recvFunc)

/-- What happens next: a call by some partition, a partition that is told of its message when it runs
or gets its notifications, or anything that leaves the mailboxes and the RX buffers alone. The event is
the mailbox that is released. -/
inductive Exchange.Step : Exchange m → Option Place → Exchange m → Prop
  | call {x x' : Exchange m} {vm : Endpoint m} {env : BufferEnv} {ret : FfaValue} {call : BufferCall}
      (calls : vm.Calls) (caller : x.manager.vms vm.vm.id = some vm) (orderly : call.Orderly x vm)
      (returned : call.run x vm env = .ok (ret, x')) : Exchange.Step x (call.releases x vm) x'
  | notice {x : Exchange m} {place : Place} {e : Endpoint m} (held : x.manager.get place = some e)
      (received : e.vm.mailbox.state = .received) :
      Exchange.Step x none { x with manager := x.manager.put place (e.setState .read) }
  | other {x x' : Exchange m} (stage1 : x'.manager.memory.stage1.WellFormed)
      (enabled : x'.manager.teeEnabled = x.manager.teeEnabled)
      (same : ∀ place, (x'.manager.get place).map Endpoint.rx = (x.manager.get place).map Endpoint.rx)
      (bytes : ∀ place e addr, x.manager.get place = some e → e.recv ≠ 0 → e.RxByte addr →
        x'.manager.memory.bytes addr = x.manager.memory.bytes addr) :
      Exchange.Step x none x'

section Runs

variable {x x' : Exchange m} {event : Option Place} {events : List (Option Place)}

theorem Endpoint.slot_of_rx (same : e'.rx = e.rx) (bytes : Nat → BitVec 8) :
    e'.slot bytes = e.slot bytes := by
  simp only [Endpoint.rx, Prod.mk.injEq] at same
  obtain ⟨recv, state, size, sender, func⟩ := same
  simp only [Endpoint.slot, Endpoint.message, recv, state, size, sender, func]

theorem Exchange.Step.safe (step : Exchange.Step x event x') (safe : x.manager.RxSafe) :
    x'.manager.RxSafe ∧ ∀ place, (x.manager.slot place).Step (event = some place)
    (x'.manager.slot place) := by
  cases step with
  | call calls caller orderly ran =>
    have advances := BufferCall.run_advances safe calls caller orderly ran
    exact ⟨advances.safe, advances.slots⟩
  | notice held received =>
    have advances : x.manager.Advances True none _ := .read safe held received
    exact ⟨advances.safe, advances.slots⟩
  | other stage1 enabled same bytes =>
    have before {place : Place} {e' : Endpoint m} (held : x'.manager.get place = some e') :
        ∃ e, x.manager.get place = some e ∧ e'.rx = e.rx := by
      have here := same place
      rw [held, Option.map_some] at here
      obtain ⟨e, found, eq⟩ := Option.map_eq_some_iff.mp here.symm
      exact ⟨e, found, eq.symm⟩
    have recv {e e' : Endpoint m} (eq : e'.rx = e.rx) : e'.recv = e.recv := congrArg Prod.fst eq
    have unchanged (place : Place) : x'.manager.slot place = x.manager.slot place := by
      cases held : x'.manager.get place with
      | none =>
        have none : x.manager.get place = none := by simpa [held] using (same place).symm
        rw [Manager.slot, Manager.slot, held, none]
        rfl
      | some e' =>
        obtain ⟨e, found, eq⟩ := before held
        rw [Manager.slot_of_get held, Manager.slot_of_get found, Endpoint.slot_of_rx eq]
        exact Endpoint.slot_congr fun registered addr mine => bytes place e addr found registered mine
    refine ⟨⟨stage1, fun {p q e f addr} held held' other registered registered' mine => ?_,
      fun {place} tee => ?_⟩, fun place => unchanged place ▸ .stay⟩
    · obtain ⟨e₀, found, eq⟩ := before held
      obtain ⟨f₀, found', eq'⟩ := before held'
      rw [Endpoint.RxByte, recv eq] at mine
      rw [Endpoint.RxByte, recv eq']
      exact safe.apart found found' other (recv eq ▸ registered) (recv eq' ▸ registered') mine
    · rw [unchanged]
      exact safe.tee ⟨tee.1, enabled.symm.trans tee.2.1, tee.2.2⟩

/-- Orderly calls keep the protocol of mailboxes in every state that they reach: a mailbox that is not
empty has an RX buffer, whatever a call writes is in one RX buffer, that of an empty mailbox, a mailbox
that gets buffers can receive, and a message stays until it is released. -/
theorem mailbox_protocol {x₀ : Exchange m} (safe : x₀.manager.RxSafe)
    (consistent : ∀ place, (x₀.manager.slot place).Consistent)
    (runs : Runs Exchange.Step x₀ events x) :
    (∀ place e, x.manager.get place = some e → e.vm.mailbox.state ≠ .empty → e.recv ≠ 0) ∧
    (∀ {vm : Endpoint m} {call : BufferCall} {env : BufferEnv} {ret : FfaValue} {x' : Exchange m},
      vm.Calls → x.manager.vms vm.vm.id = some vm → call.Orderly x vm → call.run x vm env = .ok (ret, x') →
      (∀ addr, x'.manager.memory.bytes addr ≠ x.manager.memory.bytes addr →
        ∃ place e, x.manager.get place = some e ∧ e.recv ≠ 0 ∧ e.RxByte addr ∧ e.vm.mailbox.state = .empty ∧
          (rxOwnedBySpmc x.manager e = true → call.Acquires x vm → env.answer.func = ffaSuccess32) ∧
          ∀ q f, x.manager.get q = some f → f.recv ≠ 0 → f.RxByte addr → q = place) ∧
      ∀ place, (x.manager.slot place).buffer = none → (x'.manager.slot place).buffer.isSome →
        (x'.manager.slot place).Ready) ∧
    ∀ {events' : List (Option Place)} {x' : Exchange m} {place : Place}, Runs Exchange.Step x events' x' →
      (x.manager.slot place).full = true → some place ∉ events' →
        x'.manager.slot place = x.manager.slot place := by
  have each (x : Exchange m) (event : Option Place) (x' : Exchange m) (safe : x.manager.RxSafe)
      (step : Exchange.Step x event x') :=
    step.safe safe
  obtain ⟨safe, consistent⟩ := runs_consistent each safe consistent runs
  refine ⟨fun place e held full unset => ?_,
    fun {vm call env ret x'} calls caller orderly returned => ⟨fun addr changed => ?_, ?_⟩, ?_⟩
  · have registered := consistent place
    rw [Manager.slot_of_get held] at registered
    have absent : (e.slot x.manager.memory.bytes).buffer = none := if_pos unset
    rw [Mailboxes.Slot.Consistent, absent] at registered
    cases registered (decide_eq_true full)
  · have advances := BufferCall.run_advances safe calls caller orderly returned
    obtain ⟨place, e, held, registered, inBuffer, empty, acquired⟩ := advances.writes addr changed
    refine ⟨place, e, held, registered, inBuffer, empty, acquired, fun q f held' registered' inBuffer' => ?_⟩
    by_contra other
    exact safe.apart held' held other registered' registered inBuffer' inBuffer
  · intro place unset set
    exact ((BufferCall.run_advances safe calls caller orderly returned).slots place).ready
      (consistent place) unset set
  · intro events' x' place further full notReleased
    exact runs_keep each safe consistent further full notReleased

end Runs

/-! ## The normal world at the SPMC -/

/-- A call whose answer depends on the state only. -/
def quietCall : BufferEnv := ⟨⟨0, 0, 0, 0, 0⟩, none, false, ⟨fun _ => 0, [], fun _ => 0⟩⟩

/-- A call by the partition with this identifier. -/
def Exchange.callAs (x : Exchange m) (id : VmId) (call : BufferCall) : Run (FfaValue × Exchange m) :=
  match x.manager.vms id with
  | none => .error .nullVm
  | some vm => call.run x vm quietCall

/-- The SPMC before any buffer is registered. -/
def codeExchange : Exchange spmcConfig := ⟨codeManager, fun _ => none⟩

def registerCall : BufferCall := .mailbox (.rxtxMap 0x3000 0x4000 1)
def unregisterCall : BufferCall := .mailbox (.rxtxUnmap 0)
def infoCall : BufferCall := .partitionInfoGet 0 [⟨0x8001, 1, 0, 0⟩]

theorem codeExchange_unset {e : Endpoint spmcConfig} (held : codeExchange.manager.get place = some e) :
    e.recv = 0 ∧ e.vm.mailbox.state = .empty := by
  rcases Manager.ofPair_get held with rfl | rfl <;> exact ⟨rfl, rfl⟩

theorem codeExchange_safe : codeExchange.manager.RxSafe :=
  ⟨codeTable_wellFormed, fun held _ _ registered => absurd (codeExchange_unset held).1 registered,
    fun tee => absurd tee.1 Bool.true_eq_false.mp⟩

theorem codeExchange_consistent (place : Place) : (codeExchange.manager.slot place).Consistent := by
  intro full
  cases held : codeExchange.manager.get place with
  | none =>
    rw [Manager.slot, held] at full
    cases full
  | some e =>
    rw [Manager.slot_of_get held] at full
    exact absurd (codeExchange_unset held).2 (of_decide_eq_true full)

/-- The normal world registers buffers and asks for the partitions. -/
theorem mailbox_protocol_partition_info : ∃ x x' vm ret, Runs Exchange.Step codeExchange [none] x ∧
    x.manager.vms vm.vm.id = some vm ∧ infoCall.run x vm quietCall = .ok (ret, x') ∧ ret.func = ffaSuccess32 ∧
      ∀ addr, x'.manager.memory.bytes addr ≠ x.manager.memory.bytes addr →
        ∃ place e, x.manager.get place = some e ∧ e.RxByte addr ∧ e.vm.mailbox.state = .empty := by
  have run : Partial.returns (do
      let (_, x) ← registerCall.run codeExchange nwdEndpoint quietCall
      match x.manager.vms 0 with
      | none => .error .nullVm
      | some vm =>
        .ok ((← infoCall.run x vm quietCall).1.func)) (fun func => decide (func = ffaSuccess32)) = true := by
    decide +kernel
  obtain ⟨func, returned, success⟩ := returns_iff.mp run
  simp only [bind_ok_iff] at returned
  obtain ⟨⟨registered, x⟩, mapped, returned⟩ := returned
  split at returned
  · cases returned
  · next vm held =>
    simp only [bind_ok_iff] at returned
    obtain ⟨⟨ret, x'⟩, informed, same⟩ := returned
    cases same
    have orderly : registerCall.Orderly codeExchange nwdEndpoint := by
      intro desc place owner _ _ q f k held _ registered
      exact absurd (codeExchange_unset held).1 registered
    have runs : Runs Exchange.Step codeExchange [none] x :=
      .cons .nil (.call (absurd · Bool.true_eq_false.mp) rfl orderly mapped)
    have caller : x.manager.vms vm.vm.id = some vm := by rw [x.manager.vmIds held, held]
    refine ⟨x, x', vm, ret, runs, caller, informed, of_decide_eq_true success, fun addr changed => ?_⟩
    obtain ⟨place, e, held, -, inBuffer, empty, -⟩ :=
      ((mailbox_protocol codeExchange_safe codeExchange_consistent runs).2.1
        (absurd · Bool.true_eq_false.mp) caller (show infoCall.Orderly x vm from trivial)
          informed).1 addr changed
    exact ⟨place, e, held, inBuffer, empty⟩

/-- The normal world unmaps its buffers while it holds the descriptors of the partitions in its RX
buffer. Its mailbox is left full without a buffer, and after it has registered buffers again it cannot
receive. -/
theorem rxtxUnmap_leaves_mailbox_full : codeExchange.manager.RxSafe ∧
    (∀ place, (codeExchange.manager.slot place).Consistent) ∧
    ∃ r₁ x₁ r₂ x₂ r₃ x₃ r₄ x₄ r₅ x₅, codeExchange.callAs 0 registerCall = .ok (r₁, x₁) ∧
    x₁.callAs 0 infoCall = .ok (r₂, x₂) ∧
      x₂.callAs 0 unregisterCall = .ok (r₃, x₃) ∧ r₃.func = ffaSuccess32 ∧
      (x₃.manager.slot (.vm 0)).full = true ∧ (x₃.manager.slot (.vm 0)).buffer = none ∧
      x₃.callAs 0 registerCall = .ok (r₄, x₄) ∧ r₄.func = ffaSuccess32 ∧ ¬(x₄.manager.slot (.vm 0)).Ready ∧
      x₄.callAs 0 infoCall = .ok (r₅, x₅) ∧ r₅ = ffaError .busy := by
  refine ⟨codeExchange_safe, codeExchange_consistent, ?_⟩
  have run : Partial.returns (do
      let (_, x) ← codeExchange.callAs 0 registerCall
      let (_, x) ← x.callAs 0 infoCall
      let (r₃, x₃) ← x.callAs 0 unregisterCall
      let (r₄, x₄) ← x₃.callAs 0 registerCall
      let (r₅, _) ← x₄.callAs 0 infoCall
      .ok (r₃, x₃.manager.slot (.vm 0), r₄, x₄.manager.slot (.vm 0), r₅)) (fun (r₃, slot₃, r₄, slot₄, r₅) =>
        decide (r₃.func = ffaSuccess32 ∧ slot₃.full = true ∧ slot₃.buffer.isNone = true ∧
          r₄.func = ffaSuccess32 ∧ slot₄.full = true ∧ r₅ = ffaError .busy)) = true := by
    decide +kernel
  obtain ⟨result, returned, checked⟩ := returns_iff.mp run
  simp only [bind_ok_iff] at returned
  obtain ⟨⟨r₁, x₁⟩, mapped, ⟨r₂, x₂⟩, informed, ⟨r₃, x₃⟩, unmapped, ⟨r₄, x₄⟩, again, ⟨r₅, x₅⟩,
      refused, same⟩ := returned
  cases same
  obtain ⟨success, full, unset, success', full', busy⟩ := of_decide_eq_true checked
  refine ⟨r₁, x₁, r₂, x₂, r₃, x₃, r₄, x₄, r₅, x₅, mapped, informed, unmapped, success, full,
    Option.isNone_iff_eq_none.mp unset, again, success', fun ready => ?_, refused, busy⟩
  exact absurd (full'.symm.trans ready.2) Bool.true_eq_false.mp

end Hafnium.Api
