import Hafnium.Api.MailboxFrame
import Mathlib.Logic.Relation

/-! # The partition manager's own address space

The SPMC maps whatever pages the normal world registers as buffers into its own stage-1 table.
Nothing keeps these pages apart from the image of the SPMC or from the buffers of other endpoints.
If they are apart, then every run of mailbox calls keeps the translation of the image and of every
buffer for as long as it stays registered.
-/

namespace Hafnium.Api

open Mm Ffa Relation

variable {m : MmConfig}

/-- The addresses of the buffers that are registered for an endpoint. -/
def Endpoint.Holds (e : Endpoint m) (addr : Nat) : Prop :=
  e.send ≠ 0 ∧ BufferTouches e.send addr ∨ e.recv ≠ 0 ∧ BufferTouches e.recv addr

/-- The registered buffers lie outside the image and do not overlap. -/
structure Manager.Separate (image : Nat → Prop) (s : Manager m) : Prop where
  image {place : Place} {e : Endpoint m} {addr : Nat} (held : s.get place = some e)
    (holds : e.Holds addr) : ¬image addr
  others {place place' : Place} {e e' : Endpoint m} {addr : Nat} (held : s.get place = some e)
    (held' : s.get place' = some e')
    (other : place ≠ place') (holds : e.Holds addr) : ¬e'.Holds addr

/-- The pages of a registration lie outside the image and outside the buffers of other endpoints. -/
def MailboxCall.Apart (image : Nat → Prop) (s : Manager m) (vm : Endpoint m) : MailboxCall → Prop
  | .rxtxMap send recv pageCount =>
    ∀ desc place owner, apiGetRxtxDescription s.memory vm send recv pageCount = .ok desc →
      platFfaVmFindLockedCreate s desc.ownerVmId = some (place, owner) →
        ∀ addr, PairTouches desc.send.toNat desc.recv.toNat addr →
        ¬image addr ∧ ∀ other e, s.get other = some e → other ≠ place → ¬e.Holds addr
  | _ => True

/-- A mailbox call of any partition or of the normal world, or stores that change the memory. -/
inductive Manager.Step (meets : Manager m → Endpoint m → MailboxCall → Prop) (s : Manager m) :
    Manager m → Prop
  | call {vm : Endpoint m} {call : MailboxCall} {answer ret : FfaValue} {s' : Manager m}
      (caller : s.vms vm.vm.id = some vm)
      (allowed : meets s vm call) (returned : call.run s vm answer = .ok (ret, s')) : Manager.Step meets s s'
  | store (bytes : Nat → BitVec 8) : Manager.Step meets s { s with memory := { s.memory with bytes } }

/-- An endpoint keeps the buffers it has. -/
def Manager.KeepsBuffers (place : Place) (s s' : Manager m) : Prop :=
  ∀ e, s.get place = some e → ∃ e', s'.get place = some e' ∧ e'.send = e.send ∧ e'.recv = e.recv

/-- The manager's translation of an address and its attributes are the same. -/
def Manager.SameAt (addr : Nat) (s s' : Manager m) : Prop :=
  s'.memory.stage1.lookup addr = s.memory.stage1.lookup addr ∧
    s'.memory.stage1.attrsAt addr = s.memory.stage1.attrsAt addr

variable {addr : Nat} {place : Place}

theorem Manager.SameAt.trans {s s' s'' : Manager m} (first : s.SameAt addr s') (second : s'.SameAt addr s'') :
    s.SameAt addr s'' := ⟨second.1.trans first.1, second.2.trans first.2⟩

section Step

variable {image : Nat → Prop} {s s' : Manager m} {vm : Endpoint m} {call : MailboxCall}

/-- An endpoint that is replaced by one with buffers that are apart. -/
theorem Manager.Separate.replace (separate : s.Separate image) {e e' : Endpoint m}
    (replaces : s.Replaces place e e' s') (outside : ∀ addr, e'.Holds addr → ¬image addr)
    (apart : ∀ other f addr, s.get other = some f → other ≠ place → e'.Holds addr → ¬f.Holds addr) :
    s'.Separate image := by
  refine ⟨fun {q f addr} held holds => ?_, fun {q q' f f' addr} held held' other holds => ?_⟩
  · rw [replaces.get] at held
    split at held
    · cases held
      exact outside addr holds
    · exact separate.image held holds
  · rw [replaces.get] at held held'
    split at held
    · next here =>
      cases held
      rw [if_neg (fun same => other (here.trans same.symm))] at held'
      exact apart q' f' addr held' (fun same => other (here.trans same.symm)) holds
    · next there =>
      split at held'
      · cases held'
        exact fun holds' => apart q f addr held there holds' holds
      · exact separate.others held held' other holds

/-- What a call with separate buffers keeps. -/
structure Manager.Kept (image : Nat → Prop) (s s' : Manager m) : Prop where
  wellFormed : s'.memory.stage1.WellFormed
  separate : s'.Separate image
  image {addr : Nat} (inside : addr < mmPtableAddrSpaceEnd (m.levels .stage1))
    (member : image addr) : s.SameAt addr s'
  buffers {place : Place} {e : Endpoint m} {addr : Nat} (held : s.get place = some e)
    (keeps : s.KeepsBuffers place s')
    (inside : addr < mmPtableAddrSpaceEnd (m.levels .stage1)) (holds : e.Holds addr) : s.SameAt addr s'

theorem MailboxEffect.kept (effect : MailboxEffect s vm call s') (wf : s.memory.stage1.WellFormed)
    (separate : s.Separate image) (apart : call.Apart image s vm) : s.Kept image s' := by
  have outside {touched : Nat → Prop}
      (changes : s.memory.stage1.ChangesWithin touched s'.memory.stage1) {addr : Nat}
      (inside : addr < mmPtableAddrSpaceEnd (m.levels .stage1)) (avoids : ¬touched addr) : s.SameAt addr s' :=
    ⟨changes.lookup_eq wf inside avoids, changes.attrs addr inside avoids⟩
  cases effect with
  | refused => exact ⟨wf, separate, fun _ _ => ⟨rfl, rfl⟩, fun _ _ _ _ => ⟨rfl, rfl⟩⟩
  | @map send recv pageCount desc place e e' _ described found placed replaces stage1 table buffers =>
    obtain ⟨owner, found⟩ := found
    have pages := apart desc place owner described found
    -- Buffers of the endpoint itself are either the old ones or the pages of the call.
    have mine (addr : Nat) (holds : e'.Holds addr) :
        e.Holds addr ∨ PairTouches desc.send.toNat desc.recv.toNat addr := by
      rcases buffers with ⟨sameSend, sameRecv, -⟩ | ⟨-, -, newSend, newRecv, -⟩
      · rw [Endpoint.Holds, sameSend, sameRecv] at holds
        exact .inl holds
      · rw [Endpoint.Holds, newSend, newRecv] at holds
        exact .inr (holds.imp And.right And.right)
    refine ⟨(stage1 wf).wellFormed, separate.replace replaces ?_ ?_, fun inside member => ?_,
      fun {q f addr} held keeps inside holds => ?_⟩
    · intro addr holds
      rcases mine addr holds with before | now
      · exact separate.image replaces.held before
      · exact (pages addr now).1
    · intro other f addr held there holds
      rcases mine addr holds with before | now
      · exact separate.others replaces.held held there.symm before
      · exact (pages addr now).2 other f held there
    · exact outside (stage1 wf) inside fun touched => (pages _ touched).1 member
    · by_cases here : q = place
      · subst here
        cases replaces.held.symm.trans held
        rcases buffers with ⟨-, -, kept⟩ | ⟨unsetSend, unsetRecv, -⟩
        · rw [Manager.SameAt, kept (holds.imp And.left And.left)]
          exact ⟨rfl, rfl⟩
        · rcases holds with ⟨set, -⟩ | ⟨set, -⟩
          · exact absurd unsetSend set
          · exact absurd unsetRecv set
      · exact outside (stage1 wf) inside fun touched => (pages addr touched).2 q f held here holds
  | @unmap allocatorId place e e' _ placed replaces registered memory table buffers =>
    have own {addr : Nat} (touched : PairTouches e.send e.recv addr) : e.Holds addr :=
      touched.imp (⟨registered.1, ·⟩) (⟨registered.2, ·⟩)
    have none_ (addr : Nat) : ¬e'.Holds addr := by
      rw [Endpoint.Holds, buffers.1, buffers.2]
      simp
    refine ⟨(memory.stage1 wf).wellFormed, separate.replace replaces ?_ ?_, fun inside member => ?_,
      fun {q f addr} held keeps inside holds => ?_⟩
    · exact fun addr holds => absurd holds (none_ addr)
    · exact fun other f addr _ _ holds => absurd holds (none_ addr)
    · exact outside (memory.stage1 wf) inside fun touched => separate.image replaces.held (own touched) member
    · by_cases here : q = place
      · subst here
        cases replaces.held.symm.trans held
        obtain ⟨after, held', sameSend, -⟩ := keeps _ held
        rw [replaces.get, if_pos rfl] at held'
        cases held'
        exact absurd (sameSend.symm.trans buffers.1) registered.1
      · exact outside (memory.stage1 wf) inside fun touched =>
          separate.others replaces.held held (Ne.symm here) (own touched) holds
  | @mark _ id place e state _ named placed replaces memory acquires =>
    rw [← memory] at wf
    refine ⟨wf, separate.replace replaces ?_ ?_, fun _ _ => ?_, fun _ _ _ _ => ?_⟩
    · exact fun addr holds => separate.image replaces.held holds
    · exact fun other f addr held there holds => separate.others replaces.held held there.symm holds
    · rw [Manager.SameAt, memory]
      exact ⟨rfl, rfl⟩
    · rw [Manager.SameAt, memory]
      exact ⟨rfl, rfl⟩

theorem Manager.Step.kept (step : Manager.Step (fun s vm call => call.Apart image s vm) s s')
    (wf : s.memory.stage1.WellFormed) (separate : s.Separate image) : s.Kept image s' := by
  cases step with
  | call caller apart ran => exact (MailboxCall.run_effect ran).kept wf separate apart
  | store bytes =>
    exact ⟨wf, ⟨separate.image, separate.others⟩, fun _ _ => ⟨rfl, rfl⟩, fun _ _ _ _ => ⟨rfl, rfl⟩⟩

end Step

/-- Whatever the normal world and the partitions register, pages that are apart from the image and
from the buffers of others leave the manager's translation of these alone: that of the image in
every run, and that of a buffer in every run in which it stays registered. -/
theorem rxtx_calls_keep_stage1 {image : Nat → Prop} {s s' : Manager m} (wf : s.memory.stage1.WellFormed)
    (separate : s.Separate image) {addr : Nat} (inside : addr < mmPtableAddrSpaceEnd (m.levels .stage1)) :
    let Step := Manager.Step fun s vm call => call.Apart image s vm
    (ReflTransGen Step s s' → image addr → s.SameAt addr s') ∧
      ∀ place e, ReflTransGen (fun s s' => Step s s' ∧ s.KeepsBuffers place s') s s' →
        s.get place = some e → e.Holds addr → s.SameAt addr s' := by
  refine ⟨fun run member => ?_, fun place e run held holds => ?_⟩
  · suffices s'.memory.stage1.WellFormed ∧ s'.Separate image ∧ s.SameAt addr s' from this.2.2
    induction run with
    | refl => exact ⟨wf, separate, rfl, rfl⟩
    | tail _ step ih =>
      obtain ⟨wf, separate, same⟩ := ih
      have kept := step.kept wf separate
      exact ⟨kept.wellFormed, kept.separate, same.trans (kept.image inside member)⟩
  · suffices s'.memory.stage1.WellFormed ∧ s'.Separate image ∧ s.SameAt addr s' ∧
      ∃ e', s'.get place = some e' ∧ e'.send = e.send ∧ e'.recv = e.recv from this.2.2.1
    induction run with
    | refl => exact ⟨wf, separate, ⟨rfl, rfl⟩, e, held, rfl, rfl⟩
    | tail _ step ih =>
      obtain ⟨wf, separate, same, e₁, held₁, send, recv⟩ := ih
      have kept := step.1.kept wf separate
      have holds₁ : e₁.Holds addr := by rw [Endpoint.Holds, send, recv]; exact holds
      obtain ⟨e₂, held₂, send₂, recv₂⟩ := step.2 e₁ held₁
      exact ⟨kept.wellFormed, kept.separate, same.trans (kept.buffers held₁ step.2 inside holds₁),
        e₂, held₂, send₂.trans send, recv₂.trans recv⟩

/-! ## A page of the SPMC's own code -/

/-- A stage-1 table that maps one page of code. -/
def codeTable : MmPtable (spmcConfig.levels .stage1) :=
  ((stageIdentityMap (emptyTable spmcConfig .stage1) 0x1000 0x2000 (mmModeR ||| mmModeX)
    (ampleMpool 8)).map fun r => r.value).getD (emptyTable spmcConfig .stage1)

theorem codeTable_wellFormed : codeTable.WellFormed := by
  obtain ⟨r, mapped, wf, -⟩ := stageIdentityMap_spec (emptyTable_wellFormed spmcConfig .stage1) 0x1000 0x2000
    _ (ampleMpool 8)
  rw [codeTable, mapped]
  exact wf

def nwdEndpoint : Endpoint spmcConfig := .new (emptyVm spmcConfig hfHypervisorVmId .empty)

/-- The SPMC with one partition, before any buffer is registered. -/
def codeManager : Manager spmcConfig :=
  .ofPair nwdEndpoint (.new (emptyVm spmcConfig 0x8001 .empty)) ⟨codeTable, fun _ => 0⟩ (ampleMpool 16)

def IsCode (addr : Nat) : Prop := 0x1000 ≤ addr ∧ addr < 0x2000

theorem codeManager_not_holds {e : Endpoint spmcConfig} (held : codeManager.get place = some e) :
    ¬e.Holds addr := by
  have unset : e.send = 0 ∧ e.recv = 0 := by
    rcases Manager.ofPair_get held with rfl | rfl <;> exact ⟨rfl, rfl⟩
  rw [Endpoint.Holds, unset.1, unset.2]
  simp

theorem codeManager_separate : codeManager.Separate IsCode :=
  ⟨fun held holds => absurd holds (codeManager_not_holds held),
    fun held _ _ holds => absurd holds (codeManager_not_holds held)⟩

/-- The normal world registers two other pages. -/
theorem rxtx_calls_keep_stage1_other_pages :
    ∃ ret s', (MailboxCall.rxtxMap 0x3000 0x4000 1).run codeManager nwdEndpoint ⟨0, 0, 0, 0, 0⟩ =
      .ok (ret, s') ∧ ret.func = ffaSuccess32 ∧ codeManager.SameAt 0x1000 s' := by
  have run : Partial.returns
      ((MailboxCall.rxtxMap 0x3000 0x4000 1).run codeManager nwdEndpoint ⟨0, 0, 0, 0, 0⟩)
      (fun r => decide (r.1.func = ffaSuccess32)) = true := by
    decide +kernel
  obtain ⟨⟨ret, s'⟩, returned, success⟩ := Partial.returns_iff.mp run
  have apart : (MailboxCall.rxtxMap 0x3000 0x4000 1).Apart IsCode codeManager nwdEndpoint := by
    intro desc place owner described _ addr touched
    cases described
    refine ⟨fun code => ?_, fun other e held _ => codeManager_not_holds held⟩
    have pages : 0x3000 ≤ addr := by
      rcases touched with lower | lower
      · exact lower.1
      · exact le_trans (by decide) lower.1
    obtain ⟨-, upper⟩ := code
    omega
  have step : Manager.Step (fun s vm call => call.Apart IsCode s vm) codeManager s' :=
    .call rfl apart returned
  exact ⟨ret, s', returned, of_decide_eq_true success,
    (rxtx_calls_keep_stage1 codeTable_wellFormed codeManager_separate (by decide)).1 (.single step)
      ⟨le_rfl, by decide⟩⟩

/-- The normal world registers the page of code as its TX buffer: it is no longer executable memory of
the secure world. -/
theorem nwd_rxtxMap_remaps_code : codeManager.memory.stage1.WellFormed ∧ codeManager.Separate IsCode ∧
    ∃ ret s', (MailboxCall.rxtxMap 0x1000 0x3000 1).run codeManager nwdEndpoint ⟨0, 0, 0, 0, 0⟩ =
      .ok (ret, s') ∧ ret.func = ffaSuccess32 ∧ IsCode 0x1000 ∧ ¬codeManager.SameAt 0x1000 s' := by
  have run : Partial.returns
      ((MailboxCall.rxtxMap 0x1000 0x3000 1).run codeManager nwdEndpoint ⟨0, 0, 0, 0, 0⟩)
      (fun r => decide (r.1.func = ffaSuccess32 ∧
        r.2.memory.stage1.attrsAt 0x1000 ≠ codeManager.memory.stage1.attrsAt 0x1000)) =
      true := by
    decide +kernel
  obtain ⟨⟨ret, s'⟩, returned, checked⟩ := Partial.returns_iff.mp run
  obtain ⟨success, changed⟩ := of_decide_eq_true checked
  exact ⟨codeTable_wellFormed, codeManager_separate, ret, s', returned, success,
    ⟨le_rfl, by decide⟩, fun same => changed same.2⟩

end Hafnium.Api
