import Hafnium.Ffa.Atomicity

/-! # The pages that a region describes

A constituent describes as many pages as its 32-bit page count says. The code works with their size
in bytes, which it keeps in 32 bits too, so from 2^20 pages on it checks and changes fewer pages than
described. It also compares modes between fragments only: within the first fragment the mode of the
last constituent stands for all of them.
-/

namespace Hafnium.Ffa

open Mm

variable {m : MmConfig}

/-- The addresses of the pages that a constituent describes. -/
def Constituent.Describes (c : Constituent) (addr : Nat) : Prop :=
  c.begin_ ≤ addr ∧ addr < c.begin_ + c.pageCount.toNat * pageSize

instance (c : Constituent) (addr : Nat) : Decidable (c.Describes addr) := inferInstanceAs (Decidable (_ ∧ _))

/-- The size of a constituent in bytes fits in 32 bits exactly below 2^20 pages. -/
theorem Constituent.size_eq_iff {c : Constituent} :
    c.size = c.pageCount.toNat * pageSize ↔ c.pageCount.toNat < 2 ^ 20 := by
  simp only [Constituent.size, pageSize]
  omega

/-- The code handles the described pages exactly if their size fits. -/
theorem Constituent.covers_iff_describes {c : Constituent} :
    (∀ addr, c.Covers addr ↔ c.Describes addr) ↔ c.pageCount.toNat < 2 ^ 20 := by
  rw [← Constituent.size_eq_iff]
  constructor
  · intro same
    have least : c.size ≤ c.pageCount.toNat * pageSize := Nat.mod_le _ _
    by_contra different
    have described : c.Describes (c.begin_ + c.size) := ⟨by omega, by omega⟩
    have handled := (same _).mpr described
    exact absurd handled.2 (by omega)
  · intro size addr
    rw [Constituent.Covers, Constituent.Describes, size]

/-! ## The mode of a region -/

/-- A page of the partition's address space has this mode. -/
def Vm.HasMode (vm : Vm m) (mode : Mode) (addr : Nat) : Prop := addr < vm.spaceEnd ∧ vm.modeAt addr = mode

/-- All pages of a region have the same mode: what a mode query is for. -/
structure UniformMode (vm : Vm m) (f : Fragments) (mode : Mode) : Prop where
  fragment : 0 < f.count
  constituent : 0 < f.counts 0
  aligned : ∀ p ∈ f.list, p.2.begin_ % pageSize = 0
  modes : ∀ p ∈ f.list, ∀ addr, p.2.Describes addr → vm.HasMode mode addr

/-- The first fragment has constituents of different modes. The last of them has the mode of all
later fragments, and each of the others has some mode. -/
structure MixedFirst (vm : Vm m) (f : Fragments) (mode : Mode) : Prop where
  fragment : 0 < f.count
  each : ∀ j < f.counts 0, ∃ own, vm.ModeOf (f.constituents 0 j) own
  last : vm.ModeOf (f.constituents 0 (f.counts 0 - 1)) mode
  later : ∀ i < f.count, 0 < i → ∀ j < f.counts i, vm.ModeOf (f.constituents i j) mode
  differs : ∃ j < f.counts 0, ∃ own ≠ mode, vm.ModeOf (f.constituents 0 j) own

/-- All constituents have one mode, as far as their size in 32 bits reaches, and a described page behind it
does not have this mode. -/
structure CutShort (vm : Vm m) (f : Fragments) (mode : Mode) : Prop where
  fragment : 0 < f.count
  constituent : 0 < f.counts 0
  all : ∀ p ∈ f.list, vm.ModeOf p.2 mode
  behind : ∃ p ∈ f.list, ∃ addr, p.2.Describes addr ∧ ¬p.2.Covers addr ∧ ¬vm.HasMode mode addr

/-- All pages have one mode, but a constituent is empty in 32 bits, or its pages encode the mode
differently. -/
structure Unreadable (vm : Vm m) (f : Fragments) (mode : Mode) : Prop where
  uniform : UniformMode vm f mode
  constituent : ∃ p ∈ f.list, p.2.pageCount.toNat % 2 ^ 20 = 0 ∨
    ∃ a b, p.2.Covers a ∧ p.2.Covers b ∧ vm.attrsAt a ≠ vm.attrsAt b

section Constituent

variable {vm : Vm m} {c : Constituent} {mode mode' : Mode}

theorem Constituent.Covers.describes {addr : Nat} (covers : c.Covers addr) : c.Describes addr := by
  have least : c.size ≤ c.pageCount.toNat * pageSize := Nat.mod_le _ _
  exact ⟨covers.1, by have := covers.2; omega⟩

theorem Constituent.size_pos_iff : 0 < c.size ↔ c.pageCount.toNat % 2 ^ 20 ≠ 0 := by
  simp only [Constituent.size, pageSize]
  omega

/-- The code reads a mode from a constituent exactly if its pages, as far as the size reaches, have
this mode with the same attributes. -/
theorem Vm.modeOf_iff : vm.ModeOf c mode ↔
    (c.begin_ % pageSize = 0 ∧ ∀ addr, c.Covers addr → vm.HasMode mode addr) ∧
    c.pageCount.toNat % 2 ^ 20 ≠ 0 ∧
      ∀ a b, c.Covers a → c.Covers b → vm.attrsAt a = vm.attrsAt b := by
  rw [← Constituent.size_pos_iff]
  constructor
  · rintro ⟨attrs, attrsOf, rfl⟩
    have inside := attrsOf.within.inside
    refine ⟨⟨attrsOf.within.aligned, fun addr covers => ⟨?_, Vm.attrsOf_modeAt attrsOf covers⟩⟩,
      attrsOf.within.nonempty, ?_⟩
    · have upper := covers.2
      omega
    · intro a b covers covers'
      rw [attrsOf.attrs a covers, attrsOf.attrs b covers']
  · rintro ⟨⟨aligned, modes⟩, nonempty, same⟩
    have first : c.Covers c.begin_ := ⟨le_rfl, by omega⟩
    have last := (modes _ (show c.Covers (c.begin_ + c.size - 1) from ⟨by omega, by omega⟩)).1
    exact ⟨vm.attrsAt c.begin_, ⟨⟨aligned, nonempty, by omega⟩,
      fun addr covers => same _ _ covers first⟩, (modes _ first).2⟩

end Constituent

section Exact

variable {vm : Vm m} {f : Fragments} {mode : Mode}

theorem constituentsGetMode_of_all (fragment : 0 < f.count) (constituent : 0 < f.counts 0)
    (all : ∀ p ∈ f.list, vm.ModeOf p.2 mode) : constituentsGetMode vm f = .ok mode := by
  have here (i j : Nat) (iBound : i < f.count) (jBound : j < f.counts i) :
      vm.ModeOf (f.constituents i j) mode :=
    all _ (Fragments.mem_list.mpr ⟨i, iBound, j, jBound, rfl⟩)
  exact constituentsGetMode_iff.mpr ⟨fragment, constituent, fun j bound => ⟨mode, here 0 j fragment bound⟩,
    here 0 _ fragment (by omega), fun i bound _ j jBound => here i j bound jBound⟩

/-- A mode that is read is the mode of all pages, unless the first fragment mixes modes or a size is
cut short. -/
theorem uniformMode_of_found (notMixed : ¬MixedFirst vm f mode) (notShort : ¬CutShort vm f mode)
    (found : constituentsGetMode vm f = .ok mode) : UniformMode vm f mode := by
  obtain ⟨fragment, constituent, each, last, later⟩ := constituentsGetMode_iff.mp found
  have all : ∀ p ∈ f.list, vm.ModeOf p.2 mode := by
    intro p member
    obtain ⟨i, iBound, j, jBound, rfl⟩ := Fragments.mem_list.mp member
    rcases Nat.eq_zero_or_pos i with rfl | positive
    · obtain ⟨own, ownMode⟩ := each j jBound
      by_contra other
      have different : own ≠ mode := fun same => other (same ▸ ownMode)
      exact notMixed ⟨fragment, each, last, later, j, jBound, own, different, ownMode⟩
    · exact later i iBound positive j jBound
  refine ⟨fragment, constituent, fun p member => (Vm.modeOf_iff.mp (all p member)).1.1,
    fun p member addr described => ?_⟩
  by_cases covers : p.2.Covers addr
  · exact (Vm.modeOf_iff.mp (all p member)).1.2 addr covers
  · by_contra other
    exact notShort ⟨fragment, constituent, all, p, member, addr, described, covers, other⟩

/-- A mode that all pages have is read, unless a constituent cannot be read. -/
theorem found_of_uniformMode (readable : ¬Unreadable vm f mode) (uniform : UniformMode vm f mode) :
    constituentsGetMode vm f = .ok mode := by
  refine constituentsGetMode_of_all uniform.fragment uniform.constituent fun p member =>
    Vm.modeOf_iff.mpr ⟨?_, ?_, ?_⟩
  · exact ⟨uniform.aligned p member, fun addr covers => uniform.modes p member addr covers.describes⟩
  · intro empty
    exact readable ⟨uniform, p, member, .inl empty⟩
  · intro a b covers covers'
    by_contra different
    exact readable ⟨uniform, p, member, .inr ⟨a, b, covers, covers', different⟩⟩

theorem MixedFirst.wrong (mixed : MixedFirst vm f mode) :
    constituentsGetMode vm f = .ok mode ∧ ¬UniformMode vm f mode := by
  obtain ⟨j, bound, own, different, ownMode⟩ := mixed.differs
  refine ⟨constituentsGetMode_iff.mpr
    ⟨mixed.fragment, by omega, mixed.each, mixed.last, mixed.later⟩, fun uniform => ?_⟩
  have member : (0, f.constituents 0 j) ∈ f.list := Fragments.mem_list.mpr ⟨0, mixed.fragment, j, bound, rfl⟩
  obtain ⟨⟨-, modes⟩, positive, -⟩ := Vm.modeOf_iff.mp ownMode
  have nonempty := Constituent.size_pos_iff.mpr positive
  have covers : (f.constituents 0 j).Covers (f.constituents 0 j).begin_ := ⟨le_rfl, by omega⟩
  exact different ((modes _ covers).2.symm.trans (uniform.modes _ member _ covers.describes).2)

theorem CutShort.wrong (short : CutShort vm f mode) :
    constituentsGetMode vm f = .ok mode ∧ ¬UniformMode vm f mode := by
  obtain ⟨p, member, addr, described, -, other⟩ := short.behind
  exact ⟨constituentsGetMode_of_all short.fragment short.constituent short.all,
    fun uniform => other (uniform.modes p member addr described)⟩

theorem Unreadable.wrong (unreadable : Unreadable vm f mode) : constituentsGetMode vm f ≠ .ok mode := by
  intro found
  obtain ⟨p, member, reason⟩ := unreadable.constituent
  obtain ⟨own, ownMode⟩ := constituentsGetMode_each found p member
  obtain ⟨-, positive, same⟩ := Vm.modeOf_iff.mp ownMode
  rcases reason with empty | ⟨a, b, covers, covers', different⟩
  · exact positive empty
  · exact different (same a b covers covers')

end Exact

/-- The mode query is exact if and only if the first fragment does not mix modes, no page of another mode is
behind a size that was cut short, and a region of one mode can be read. -/
theorem constituentsGetMode_exact_iff (vm : Vm m) (f : Fragments) :
    (∀ mode, constituentsGetMode vm f = .ok mode ↔ UniformMode vm f mode) ↔
      ∀ mode, ¬MixedFirst vm f mode ∧ ¬CutShort vm f mode ∧ ¬Unreadable vm f mode := by
  constructor
  · intro exact_ mode
    refine ⟨fun mixed => ?_, fun short => ?_, fun unreadable => ?_⟩
    · exact mixed.wrong.2 ((exact_ mode).mp mixed.wrong.1)
    · exact short.wrong.2 ((exact_ mode).mp short.wrong.1)
    · exact unreadable.wrong ((exact_ mode).mpr unreadable.uniform)
  · intro sound mode
    obtain ⟨notMixed, notShort, readable⟩ := sound mode
    exact ⟨uniformMode_of_found notMixed notShort, found_of_uniformMode readable⟩

/-- A region in the page that its descriptor is in. -/
def oneFragment (constituents : List Constituent) : Fragments where
  constituents := fun _ j => constituents.getD j ⟨0, 0⟩
  counts := fun _ => constituents.length
  count := 1
  offsets := fun _ => 64

/-- A page that partition 1 does not have, in front of one of its own, is taken for memory of its
own. -/
theorem constituentsGetMode_mixed_first :
    let vm := blockVm 1 0 none
    let f := oneFragment [⟨0x200000, 1⟩, ⟨0x1000, 1⟩]
    let mode := mmModeR ||| mmModeW ||| mmModeX
    constituentsGetMode vm f = .ok mode ∧ ¬UniformMode vm f mode := by
  refine ⟨by decide +kernel, fun uniform => ?_⟩
  have foreign := uniform.modes (0, ⟨0x200000, 1⟩) (by decide) 0x200000 (by decide)
  exact absurd foreign.2 (by decide +kernel)

/-! ## The pages that are checked and changed -/

/-- A send, relinquish, retrieve or reclaim request for a region has been carried out. -/
inductive Accepted (vm : Vm m) (f : Fragments) : Vm m → Prop
  | send {func : ShareFunc} {receivers : List MemoryAccess} {s : HypMemory m} {pool : Mpool} {clear : Bool}
      {origMode : Option Mode} {r : UpdateResult m}
      (returned : ffaSendCheckUpdate vm f func receivers s pool clear = .ok (origMode, r))
        (done : r.ret = .ok ()) :
      Accepted vm f r.vm
  | relinquish {s : HypMemory m} {pool : Mpool} {clear : Bool} {r : UpdateResult m}
      (returned : ffaRelinquishCheckUpdate vm f s pool clear = .ok r) (done : r.ret = .ok ()) :
        Accepted vm f r.vm
  | retrieve {sender : VmId} {attributes : Mode} {func : MapFunc} {clear : Bool} {s : HypMemory m}
      {pool : Mpool}
      {r : UpdateResult m} (returned : ffaRetrieveCheckUpdate vm sender f attributes func clear s
        pool = .ok r)
      (done : r.ret = .ok ()) : Accepted vm f r.vm
  | teeReclaim {answers : List TeeAnswer} {pool pool' : Mpool} {ret : FfaValue} {vm' : Vm m}
      (returned : ffaTeeReclaimCheckUpdate vm f (mmModeR ||| mmModeW ||| mmModeX)
        answers pool = .ok (ret, vm', pool'))
      (done : ret.func = ffaSuccess32) : Accepted vm f vm'

/-- A request was applied to these pages of each constituent: they had one mode before and have one
mode now, and all other pages are as they were. -/
structure AppliedTo (pages : Constituent → Nat → Prop) (vm : Vm m) (f : Fragments) (vm' : Vm m) : Prop where
  checked : ∀ p ∈ f.list, ∃ mode, ∀ addr, pages p.2 addr → vm.HasMode mode addr
  changed : ∃ attrs, ∀ p ∈ f.list, ∀ addr, pages p.2 addr → vm'.attrsAt addr = attrs
  others : ∀ addr < vm.spaceEnd, (∀ p ∈ f.list, ¬pages p.2 addr) → vm'.attrsAt addr = vm.attrsAt addr

/-- A mode was read from the region, and then the region was mapped. -/
theorem Accepted.mapped {vm vm' : Vm m} {f : Fragments} (wf : vm.WellFormed) (accepted : Accepted vm f vm') :
    (∃ mode, constituentsGetMode vm f = .ok mode) ∧ ∃ mode, vm.Becomes (vm.mapped f mode) vm' := by
  cases accepted with
  | send ran done =>
    cases ffaSendCheckUpdate_spec wf _ ran with
    | refused ret => cases done.symm.trans ret
    | checked stored aligned found notDevice exclusive allowed demoted =>
      cases demoted with
      | done ret range becomes => exact ⟨⟨_, found⟩, _, becomes⟩
      | failed ret => cases done.symm.trans ret
      | rolledBack ret => cases done.symm.trans ret
  | relinquish ran done =>
    cases ffaRelinquishCheckUpdate_spec wf _ ran with
    | refused ret => cases done.symm.trans ret
    | checked found notDevice borrowed demoted =>
      cases demoted with
      | done ret range becomes => exact ⟨⟨_, found⟩, _, becomes⟩
      | failed ret => cases done.symm.trans ret
      | rolledBack ret => cases done.symm.trans ret
  | retrieve ran done =>
    cases ffaRetrieveCheckUpdate_spec wf _ ran with
    | done found accepted ret becomes => exact ⟨⟨_, found⟩, _, becomes⟩
    | failed ret => cases done.symm.trans ret
  | teeReclaim ran done =>
    cases ffaTeeReclaimCheckUpdate_spec wf _ ran with
    | done success found accepted becomes => exact ⟨⟨_, found⟩, _, becomes⟩
    | failed failure => exact absurd done failure

/-- A request that is carried out is applied to the pages that the code covers. These are the pages
that the constituents describe exactly if no constituent has 2^20 pages or more. -/
theorem accepted_pages {vm vm' : Vm m} {f : Fragments} (wf : vm.WellFormed) (accepted : Accepted vm f vm') :
    AppliedTo Constituent.Covers vm f vm' ∧
      ((∀ p ∈ f.list, ∀ addr, p.2.Covers addr ↔ p.2.Describes addr) ↔
        ∀ p ∈ f.list, p.2.pageCount.toNat < 2 ^ 20) := by
  obtain ⟨⟨mode, found⟩, mode', becomes⟩ := accepted.mapped wf
  have within := constituentsGetMode_within found
  refine ⟨⟨fun p member => ?_, ?_, fun addr inside outside => ?_⟩, ?_⟩
  · obtain ⟨own, attrs, attrsOf, read⟩ := constituentsGetMode_each found p member
    exact ⟨own, fun addr covers => ⟨Fragments.Covers.lt ⟨p, member, covers⟩ within,
      read ▸ Vm.attrsOf_modeAt attrsOf covers⟩⟩
  · refine ⟨vm.mappedAttrs (vm.mapMode mode'), fun p member addr covers => ?_⟩
    have inRegion : f.Covers addr := ⟨p, member, covers⟩
    rw [becomes.attrsAt_eq (inRegion.lt within), Vm.mapped_of_covers inRegion]
  · have notCovered : ¬f.Covers addr := fun ⟨p, member, covers⟩ => outside p member covers
    rw [becomes.attrsAt_eq inside, Vm.mapped_of_not_covers notCovered]
  · exact forall₂_congr fun p _ => Constituent.covers_iff_describes

/-- Partition 1, whose memory are the 2 MiB from address 0, lends `pageCount` pages from 0x1000 on. -/
def lendFromOwnBlock (pageCount : BitVec 32) : Run (Option Mode × UpdateResult smallConfig) :=
  ffaSendCheckUpdate (blockVm 1 0 none) (oneFragment [⟨0x1000, pageCount⟩]) .lend [⟨2, 2, 48⟩]
    freshSharing.memory freshSharing.pool false

/-- A page of a partition's own memory is lent as described. -/
theorem accepted_own_page :
    ∃ vm', Accepted (blockVm 1 0 none) (oneFragment [⟨0x1000, 1⟩]) vm' ∧
      AppliedTo Constituent.Covers (blockVm 1 0 none) (oneFragment [⟨0x1000, 1⟩]) vm' ∧
      ∀ p ∈ (oneFragment [⟨0x1000, 1⟩]).list, ∀ addr, p.2.Covers addr ↔ p.2.Describes addr := by
  have run : Partial.returns (lendFromOwnBlock 1) (fun r => decide (r.2.ret = .ok ())) = true := by
    decide +kernel
  obtain ⟨⟨origMode, r⟩, returned, success⟩ := Partial.returns_iff.mp run
  have accepted : Accepted _ _ r.vm := .send returned (of_decide_eq_true success)
  obtain ⟨applied, same⟩ := accepted_pages (blockVm_wellFormed 1 0 none) accepted
  exact ⟨r.vm, accepted, applied, same.mpr (by decide)⟩

/-- Partition 1 lends 2^20 + 1 pages. One page changes, and a described page that the partition never
had passes the check. -/
theorem accepted_fewer_pages :
    ∃ vm', Accepted (blockVm 1 0 none) (oneFragment [⟨0x1000, 0x100001⟩]) vm' ∧
      vm'.attrsAt 0x1000 ≠ (blockVm 1 0 none).attrsAt 0x1000 ∧
      Constituent.Describes ⟨0x1000, 0x100001⟩ 0x2000 ∧
      vm'.attrsAt 0x2000 = (blockVm 1 0 none).attrsAt 0x2000 ∧
      Constituent.Describes ⟨0x1000, 0x100001⟩ 0x200000 ∧ (blockVm 1 0 none).attrsAt 0x200000 = 0 := by
  have run : Partial.returns (lendFromOwnBlock 0x100001) (fun r => decide (r.2.ret = .ok () ∧
      r.2.vm.attrsAt 0x1000 ≠ (blockVm 1 0 none).attrsAt 0x1000 ∧
      r.2.vm.attrsAt 0x2000 = (blockVm 1 0 none).attrsAt 0x2000)) = true := by
    decide +kernel
  obtain ⟨⟨origMode, r⟩, returned, outcome⟩ := Partial.returns_iff.mp run
  obtain ⟨success, changed, kept⟩ := of_decide_eq_true outcome
  exact ⟨r.vm, .send returned success, changed, by decide, kept, by decide, by decide +kernel⟩

end Hafnium.Ffa
