import Hafnium.Ffa.Region

/-! # Changing the mode of a region

What `ffaRegionGroupIdentityMap` does to the address space of a partition. Preparing changes no
address; committing gives every page of the region the new mode and keeps all others. A region
that was prepared as a whole is committed without failure, in whatever way its constituents
overlap.
-/

namespace Hafnium.Ffa

open Mm

variable {m : MmConfig}

/-- At most the mailbox and the page table have changed, and the latter now has these attributes. -/
def Vm.Becomes (vm : Vm m) (view : Nat → PteBits) (vm' : Vm m) : Prop :=
  ∃ t mailbox, vm' = { vm with ptable := t, mailbox } ∧ t.WellFormed ∧
    ∀ addr < vm.spaceEnd, t.attrsAt addr = view addr

variable {vm : Vm m} {addr : Nat} {c : Constituent} {mode : Mode} {pool : Mpool} {vm' : Vm m}

namespace Vm.Becomes

variable {vm'' : Vm m} {view view' : Nat → PteBits}

theorem refl (wf : vm.WellFormed) : vm.Becomes vm.attrsAt vm :=
  ⟨vm.ptable, vm.mailbox, rfl, wf, fun _ _ => rfl⟩

theorem wellFormed (becomes : vm.Becomes view vm') : vm'.WellFormed := by
  obtain ⟨t, mailbox, rfl, wf, -⟩ := becomes
  exact wf

theorem id_eq (becomes : vm.Becomes view vm') : vm'.id = vm.id := by
  obtain ⟨t, mailbox, rfl, -⟩ := becomes
  rfl

theorem el0Partition_eq (becomes : vm.Becomes view vm') : vm'.el0Partition = vm.el0Partition := by
  obtain ⟨t, mailbox, rfl, -⟩ := becomes
  rfl

theorem stage_eq (becomes : vm.Becomes view vm') : vm'.stage = vm.stage := by
  rw [Vm.stage, Vm.stage, becomes.el0Partition_eq]

theorem spaceEnd_eq (becomes : vm.Becomes view vm') : vm'.spaceEnd = vm.spaceEnd := by
  rw [Vm.spaceEnd, Vm.spaceEnd, becomes.stage_eq]

theorem mapMode_eq (becomes : vm.Becomes view vm') (mode : Mode) : vm'.mapMode mode = vm.mapMode mode := by
  rw [Vm.mapMode, Vm.mapMode, becomes.el0Partition_eq]

theorem attrsAt_eq (becomes : vm.Becomes view vm') (inside : addr < vm.spaceEnd) :
    vm'.attrsAt addr = view addr := by
  obtain ⟨t, mailbox, rfl, -, attrs⟩ := becomes
  exact attrs addr inside

theorem congr (becomes : vm.Becomes view vm') (same : ∀ addr < vm.spaceEnd, view addr = view' addr) :
    vm.Becomes view' vm' := by
  obtain ⟨t, mailbox, rfl, wf, attrs⟩ := becomes
  exact ⟨t, mailbox, rfl, wf, fun addr inside => (attrs addr inside).trans (same addr inside)⟩

theorem trans (first : vm.Becomes view vm') (second : vm'.Becomes view' vm'') : vm.Becomes view' vm'' := by
  obtain ⟨t, mailbox, rfl, -⟩ := first
  exact second

theorem setMailbox (becomes : vm.Becomes view vm') (mailbox : Mailbox) :
    vm.Becomes view { vm' with mailbox } := by
  obtain ⟨t, _, rfl, wf, attrs⟩ := becomes
  exact ⟨t, mailbox, rfl, wf, attrs⟩

/-- Two steps of which the second one keeps everything. -/
theorem kept (first : vm.Becomes view vm') (second : vm'.Becomes vm'.attrsAt vm'') : vm.Becomes view vm'' :=
  (first.trans second).congr fun _ inside => first.attrsAt_eq inside

end Vm.Becomes

/-- The attributes of mapped pages in a partition's tables. -/
def Vm.mappedAttrs (vm : Vm m) (mode : Mode) : PteBits := m.mappedAttrs vm.stage mode

/-- The attributes after some pages got new ones. -/
def regionView (l : List (Nat × Constituent)) (attrs : PteBits) (base : Nat → PteBits)
    (addr : Nat) : PteBits :=
  if Covered l addr then attrs else base addr

/-- The tables are fine enough for a commit of this constituent. -/
def Vm.PreparedFor (vm : Vm m) (mode : Mode) (c : Constituent) : Prop :=
  vm.ptable.Prepared (m.modeToAttrs vm.stage mode) (mmModeToFlags mode) (mmMapBegin c.begin_)
    (mmMapEnd (m.levels vm.stage) c.end_)

/-- The bounds of a constituent are physical addresses of the platform. -/
def Constituent.InPaRange (m : MmConfig) (c : Constituent) : Prop :=
  c.begin_ >>> m.pa.range = 0 ∧ c.end_ >>> m.pa.range = 0

section One

variable (wf : vm.WellFormed) (begin_ end_ : Nat) (mode : Mode) (pool : Mpool)
include wf

theorem vmIdentityPrepare_becomes : vm.Becomes vm.attrsAt
      (vmIdentityPrepare vm begin_ end_ mode pool).value :=
  ⟨_, _, rfl, stageIdentityPrepare_wellFormed wf begin_ end_ mode pool,
    stageIdentityPrepare_sameAttrs wf begin_ end_ mode pool⟩

theorem vmIdentityPrepare_keeps_prepared (prepared : vm.PreparedFor mode c) :
    (vmIdentityPrepare vm begin_ end_ mode pool).value.PreparedFor mode c :=
  mmPtableIdentityPrepare_keeps_prepared (attrsFor_modeToAttrs m vm.stage mode) wf prepared

theorem vmPtableDefrag_becomes : vm.Becomes vm.attrsAt (vmPtableDefrag vm pool).1 :=
  ⟨_, _, rfl, mmPtableDefrag_wellFormed m.features _ pool wf, mmPtableDefrag_sameAttrs m.features _ pool wf⟩

end One

section Commit

variable {pool' : Mpool}

theorem vmIdentityCommit_ok {begin_ end_ : Nat}
    (success : vmIdentityCommit vm begin_ end_ mode pool = .ok (vm', pool')) :
    ∃ t, stageIdentityCommit vm.ptable begin_ end_ mode pool = some (t, pool') ∧
    vm' = { vm with ptable := t } := by
  simp only [vmIdentityCommit] at success
  split at success
  · cases success
  · next t pool committed =>
    cases success
    exact ⟨t, committed, rfl⟩

theorem vmIdentityCommit_becomes (wf : vm.WellFormed) (within : c.Within vm.spaceEnd)
    (success : vmIdentityCommit vm c.begin_ c.end_ mode pool = .ok (vm', pool')) :
    vm.Becomes (fun addr => if c.Covers addr then vm.mappedAttrs mode else vm.attrsAt addr) vm' := by
  obtain ⟨t, committed, rfl⟩ := vmIdentityCommit_ok success
  refine ⟨t, _, rfl, stageIdentityCommit_wellFormed wf _ _ _ _ committed, fun addr inside => ?_⟩
  have space := vm.spaceEnd_le
  have bound := within.inside
  have nonempty := within.nonempty
  have ends := within.end_eq space
  rw [stageIdentityCommit_modeUpdate wf _ _ _ _ committed addr inside,
    mmMapBegin_of_page within.aligned (by omega),
    mmMapEnd_of_page (Constituent.end_page within.aligned) (by rw [ends]; exact bound), ends]
  rfl

end Commit

/-! ## Whole regions -/

variable {l : List (Nat × Constituent)}

theorem inPaRange_iff : c.InPaRange m ↔ ¬(c.begin_ >>> m.pa.range > 0 ∨ c.end_ >>> m.pa.range > 0) := by
  simp only [Constituent.InPaRange, gt_iff_lt, Nat.pos_iff_ne_zero, not_or, not_not]

theorem covered_cons {i : Nat} : Covered ((i, c) :: l) addr ↔ c.Covers addr ∨ Covered l addr :=
  List.exists_mem_cons_iff ..

/-- Preparing a region changes no address and returns. -/
theorem regionIdentityMap_prepare (wf : vm.WellFormed) (pool : Mpool) :
    ∃ r, regionIdentityMap mode false l vm pool = .ok r ∧ vm.Becomes vm.attrsAt r.value ∧
      (∀ c, vm.PreparedFor mode c → r.value.PreparedFor mode c) ∧
      (r.ok = true → ∀ p ∈ l, p.2.InPaRange m ∧ r.value.PreparedFor mode p.2) := by
  induction l generalizing vm pool with
  | nil => exact ⟨_, rfl, .refl wf, fun _ prepared => prepared, fun _ p member => by cases member⟩
  | cons p rest ih =>
    obtain ⟨i, c⟩ := p
    by_cases range : c.InPaRange m
    · have one := vmIdentityPrepare_becomes wf c.begin_ c.end_ mode pool
      have keeps (c' : Constituent) := vmIdentityPrepare_keeps_prepared wf c.begin_ c.end_ mode pool (c := c')
      rw [regionIdentityMap, if_neg (inPaRange_iff.mp range), if_neg Bool.false_ne_true]
      by_cases ok : (vmIdentityPrepare vm c.begin_ c.end_ mode pool).ok = true
      · obtain ⟨r, ran, becomes, restKeeps, prepared⟩ :=
          ih one.wellFormed (vmIdentityPrepare vm c.begin_ c.end_ mode pool).state
        refine ⟨r, (if_pos ok).trans ran, one.kept becomes,
          fun c' before => restKeeps c' (keeps c' before), ?_⟩
        intro success
        rw [List.forall_mem_cons]
        exact ⟨⟨range, restKeeps c (mmPtableIdentityPrepare_prepares ok)⟩, prepared success⟩
      · exact ⟨_, if_neg ok, one, keeps, nofun⟩
    · rw [regionIdentityMap, if_pos (by rw [inPaRange_iff, not_not] at range; exact range)]
      exact ⟨_, rfl, .refl wf, fun _ prepared => prepared, nofun⟩

/-- A commit that returns has given every page of the region the new mode, unless a constituent is
no physical address range. -/
theorem regionIdentityMap_commit (wf : vm.WellFormed) {r : Updated (Vm m)}
    (within : ∀ p ∈ l, p.2.Within vm.spaceEnd) (ran : regionIdentityMap mode true l vm pool = .ok r) :
    ((∀ p ∈ l, p.2.InPaRange m) → r.ok = true) ∧
      (r.ok = true → vm.Becomes (regionView l (vm.mappedAttrs mode) vm.attrsAt) r.value) := by
  induction l generalizing vm pool with
  | nil =>
    cases ran
    exact ⟨fun _ => rfl, fun _ => (Vm.Becomes.refl wf).congr fun addr _ => by simp [regionView, Covered]⟩
  | cons p rest ih =>
    obtain ⟨i, c⟩ := p
    rw [List.forall_mem_cons] at within ⊢
    by_cases range : c.InPaRange m
    · rw [regionIdentityMap, if_neg (inPaRange_iff.mp range), if_pos rfl] at ran
      split at ran
      · cases ran
      · next vm' pool' committed =>
        have one := vmIdentityCommit_becomes wf within.1 committed
        obtain ⟨inRange, becomes⟩ := ih one.wellFormed (by rw [one.spaceEnd_eq]; exact within.2) ran
        refine ⟨fun ranges => inRange ranges.2,
          fun ok => (one.trans (becomes ok)).congr fun addr inside => ?_⟩
        have same : vm'.mappedAttrs mode = vm.mappedAttrs mode := by
          rw [Vm.mappedAttrs, Vm.mappedAttrs, one.stage_eq]
        simp only [regionView, covered_cons, one.attrsAt_eq inside, same]
        by_cases later : Covered rest addr
        · rw [if_pos later, if_pos (.inr later)]
        · simp only [later, if_false, or_false]
    · rw [regionIdentityMap, if_pos (by rw [inPaRange_iff, not_not] at range; exact range)] at ran
      cases ran
      exact ⟨fun ranges => absurd ranges.1 range, nofun⟩

end Hafnium.Ffa
