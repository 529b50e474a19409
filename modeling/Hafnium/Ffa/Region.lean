import Hafnium.Ffa.Abi

/-! # Regions of memory in a partition's page table

A region is given by fragments, each an array of constituents. `constituentsGetMode` reads the
mode of a region, `ffaRegionGroupIdentityMap` prepares or commits a new one. The nested loops of
the source run over the list of all constituents in order, each with the index of its fragment.
-/

namespace Hafnium.Ffa

open Mm

inductive MailboxState
  | empty
  | received
  | read
deriving DecidableEq, Repr

/-- The message buffers of a partition. Of the receive buffer only matters whether it is set up. -/
structure Mailbox where
  state : MailboxState
  recv : Bool
  send : Option Bytes

/-- The stage whose tables translate a partition. -/
def vmStage (el0Partition : Bool) : Stage := if el0Partition then .stage1 else .stage2

structure Vm (m : MmConfig) where
  id : VmId
  el0Partition : Bool
  ptable : MmPtable (m.levels (vmStage el0Partition))
  mailbox : Mailbox

variable {m : MmConfig}

def Vm.stage (vm : Vm m) : Stage := vmStage vm.el0Partition

/-- The end of a partition's address space. -/
def Vm.spaceEnd (vm : Vm m) : Nat := mmPtableAddrSpaceEnd (m.levels vm.stage)

def Vm.attrsAt (vm : Vm m) (addr : Nat) : PteBits := vm.ptable.attrsAt addr

/-- The mode of an address, as the code reads it back from the page table. -/
def Vm.modeAt (vm : Vm m) (addr : Nat) : Mode := m.attrsToMode vm.stage (vm.attrsAt addr)

def Vm.WellFormed (vm : Vm m) : Prop := vm.ptable.WellFormed

def vmIdentityPrepare (vm : Vm m) (begin_ end_ : Nat) (mode : Mode) (pool : Mpool) : Updated (Vm m) :=
  let r := stageIdentityPrepare vm.ptable begin_ end_ mode pool
  ⟨r.ok, { vm with ptable := r.value }, r.state⟩

def vmIdentityCommit (vm : Vm m) (begin_ end_ : Nat) (mode : Mode) (pool : Mpool) : Run (Vm m × Mpool) :=
  match stageIdentityCommit vm.ptable begin_ end_ mode pool with
  | none => .error .identityCommit
  | some (ptable, pool) => .ok ({ vm with ptable }, pool)

def vmPtableDefrag (vm : Vm m) (pool : Mpool) : Vm m × Mpool :=
  let (ptable, pool) := mmPtableDefrag m.features vm.ptable pool
  ({ vm with ptable }, pool)

def vmMemGetMode (vm : Vm m) (begin_ end_ : Nat) : Option Mode := stageGetMode vm.ptable begin_ end_

/-! ## Constituents -/

/-- The size of a constituent; the product is a 32-bit value. -/
def Constituent.size (c : Constituent) : Nat := c.pageCount.toNat * pageSize % 2 ^ 32

def Constituent.begin_ (c : Constituent) : Nat := c.address.toNat

def Constituent.end_ (c : Constituent) : Nat := (c.address.toNat + c.size) % 2 ^ 64

/-- The fragment arrays of a region as the code passes them around. What lies behind the end of
an array is part of the functions: it is whatever memory holds there. -/
structure Fragments where
  constituents : Nat → Nat → Constituent
  counts : Nat → Nat
  count : Nat
  /-- Where each array starts in its page. -/
  offsets : Nat → Nat

/-- All constituents in order, each with the index of its fragment. -/
def Fragments.list (f : Fragments) : List (Nat × Constituent) :=
  (List.range f.count).flatMap fun i => (List.range (f.counts i)).map fun j => (i, f.constituents i j)

/-- The loops of `constituents_get_mode`. -/
def constituentsModes (vm : Vm m) : List (Nat × Constituent) → (origMode : Mode) → Except FfaError Mode
  | [], origMode => .ok origMode
  | (i, c) :: rest, origMode =>
    if ¬(c.begin_ % pageSize = 0 ∧ c.end_ % pageSize = 0) then .error .invalidParameters
    else
      match vmMemGetMode vm c.begin_ c.end_ with
      | none => .error .denied
      | some currentMode =>
        -- Constituents of the first fragment overwrite the mode instead of being compared.
        if i = 0 then constituentsModes vm rest currentMode
        else if currentMode ≠ origMode then .error .denied
        else constituentsModes vm rest origMode

/-- The mode of a region in a partition's page table. -/
def constituentsGetMode (vm : Vm m) (f : Fragments) : Except FfaError Mode :=
  if f.count = 0 ∨ f.counts 0 = 0 then .error .invalidParameters
  else constituentsModes vm f.list 0

/-- The loops of `ffa_region_group_identity_map`. -/
def regionIdentityMap (mode : Mode) (commit : Bool) :
    List (Nat × Constituent) → Vm m → Mpool → Run (Updated (Vm m))
  | [], vm, pool => .ok ⟨true, vm, pool⟩
  | (_, c) :: rest, vm, pool =>
    if c.begin_ >>> m.pa.range > 0 ∨ c.end_ >>> m.pa.range > 0 then .ok ⟨false, vm, pool⟩
    else if commit then
      match vmIdentityCommit vm c.begin_ c.end_ mode pool with
      | .error abort => .error abort
      | .ok (vm, pool) => regionIdentityMap mode commit rest vm pool
    else
      let r := vmIdentityPrepare vm c.begin_ c.end_ mode pool
      if r.ok then regionIdentityMap mode commit rest r.value r.state else .ok ⟨false, r.value, r.state⟩

/-- The mode that is really mapped for a partition. -/
def Vm.mapMode (vm : Vm m) (mode : Mode) : Mode :=
  if vm.el0Partition then mode ||| (mmModeUser ||| mmModeNg) else mode

def ffaRegionGroupIdentityMap (vm : Vm m) (f : Fragments) (mode : Mode) (pool : Mpool) (commit : Bool) :
    Run (Updated (Vm m)) :=
  regionIdentityMap (vm.mapMode mode) commit f.list vm pool

/-! ## The pages of a region -/

/-- The addresses of a constituent. -/
def Constituent.Covers (c : Constituent) (addr : Nat) : Prop := c.begin_ ≤ addr ∧ addr < c.begin_ + c.size

instance (c : Constituent) (addr : Nat) : Decidable (c.Covers addr) := inferInstanceAs (Decidable (_ ∧ _))

/-- A page-aligned, nonempty constituent that ends below a limit. -/
structure Constituent.Within (c : Constituent) (limit : Nat) : Prop where
  aligned : c.begin_ % pageSize = 0
  nonempty : 0 < c.size
  inside : c.begin_ + c.size ≤ limit

/-- The addresses of a list of constituents. -/
def Covered (l : List (Nat × Constituent)) (addr : Nat) : Prop := ∃ p ∈ l, p.2.Covers addr

instance (l : List (Nat × Constituent)) (addr : Nat) : Decidable (Covered l addr) :=
  inferInstanceAs (Decidable (∃ p ∈ l, p.2.Covers addr))

def Fragments.Covers (f : Fragments) (addr : Nat) : Prop := Covered f.list addr

instance (f : Fragments) (addr : Nat) : Decidable (f.Covers addr) := inferInstanceAs (Decidable (Covered _ _))

variable {mode origMode : Mode} {f : Fragments} {rest : List (Nat × Constituent)}
  {c : Constituent} {vm : Vm m}

theorem Fragments.mem_list {p : Nat × Constituent} :
    p ∈ f.list ↔ ∃ i < f.count, ∃ j < f.counts i, p = (i, f.constituents i j) := by
  simp only [Fragments.list, List.mem_flatMap, List.mem_map, List.mem_range, eq_comm]

theorem Constituent.size_page (c : Constituent) : c.size % pageSize = 0 := by
  simp only [Constituent.size, pageSize]
  omega

theorem Constituent.Within.end_eq {limit : Nat} (within : c.Within limit) (bound : limit ≤ 2 ^ 48) :
    c.end_ = c.begin_ + c.size := by
  have := within.inside
  exact Nat.mod_eq_of_lt (by simp only [Constituent.begin_] at this; omega)

theorem Constituent.end_page (aligned : c.begin_ % pageSize = 0) : c.end_ % pageSize = 0 := by
  have page := c.size_page
  simp only [Constituent.end_, Constituent.begin_, pageSize] at *
  omega

theorem Vm.spaceEnd_le (vm : Vm m) : vm.spaceEnd ≤ 2 ^ 48 := (m.levels vm.stage).space_le

/-- A constituent lies in the address space and its pages share these attributes. -/
structure Vm.AttrsOf (vm : Vm m) (c : Constituent) (attrs : PteBits) : Prop where
  within : c.Within vm.spaceEnd
  attrs : ∀ addr, c.Covers addr → vm.attrsAt addr = attrs

theorem Vm.attrsOf_modeAt {attrs : PteBits} (attrsOf : vm.AttrsOf c attrs) {addr : Nat}
    (covered : c.Covers addr) : vm.modeAt addr = m.attrsToMode vm.stage attrs := by
  rw [Vm.modeAt, attrsOf.attrs addr covered]

/-- A mode is read from a page-aligned constituent in the address space with the same attributes
everywhere. -/
theorem vmMemGetMode_iff (aligned : c.begin_ % pageSize = 0) :
    vmMemGetMode vm c.begin_ c.end_ = some mode ↔ ∃ attrs, vm.AttrsOf c attrs ∧
    m.attrsToMode vm.stage attrs = mode := by
  have endPage := Constituent.end_page aligned
  have size : c.size < 2 ^ 32 := Nat.mod_lt _ (by decide)
  have endValue : c.end_ = (c.begin_ + c.size) % 2 ^ 64 := rfl
  have down := mmRoundDownToPage_of_page aligned
  have up := mmRoundUpToPage_of_page endPage (Nat.mod_lt _ (by decide))
  have space := vm.spaceEnd_le
  simp only [vmMemGetMode, stageGetMode, Option.map_eq_some_iff, mmGetAttrs_iff, down, up]
  constructor
  · rintro ⟨attrs, ⟨inside, nonempty, values⟩, rfl⟩
    have inside : c.end_ ≤ vm.spaceEnd := inside
    exact ⟨attrs, ⟨⟨aligned, by omega, by omega⟩,
      fun addr covered => values addr covered.1 (by have := covered.2; omega)⟩,
      rfl⟩
  · rintro ⟨attrs, ⟨within, values⟩, rfl⟩
    have ends := within.end_eq space
    have nonempty := within.nonempty
    have inside : c.end_ ≤ vm.spaceEnd := by
      rw [ends]
      exact within.inside
    exact ⟨attrs, ⟨inside, by omega, fun addr lower upper => values addr ⟨lower, by omega⟩⟩, rfl⟩

/-! ## The mode of a region -/

/-- The mode that the code reads from one constituent. -/
def Vm.ModeOf (vm : Vm m) (c : Constituent) (mode : Mode) : Prop :=
  ∃ attrs, vm.AttrsOf c attrs ∧ m.attrsToMode vm.stage attrs = mode

theorem constituentsModes_cons {i : Nat} : constituentsModes vm ((i, c) :: rest) origMode = .ok mode ↔
      ∃ currentMode, vm.ModeOf c currentMode ∧ (i ≠ 0 → currentMode = origMode) ∧
        constituentsModes vm rest currentMode = .ok mode := by
  rw [constituentsModes]
  by_cases aligned : c.begin_ % pageSize = 0
  · rw [if_neg (not_not.mpr ⟨aligned, Constituent.end_page aligned⟩)]
    simp only [Vm.ModeOf, ← vmMemGetMode_iff aligned]
    cases vmMemGetMode vm c.begin_ c.end_ with
    | none => simp
    | some currentMode =>
      by_cases first : i = 0
      · simp [first]
      · by_cases same : currentMode = origMode
        · simp [first, same]
        · simp [first, same]
  · rw [if_pos (fun both => aligned both.1)]
    simp only [reduceCtorEq, false_iff, not_exists]
    rintro currentMode ⟨⟨attrs, attrsOf, -⟩, -⟩
    exact aligned attrsOf.within.aligned

/-- Behind the first fragment every constituent must have the mode read so far. -/
theorem constituentsModes_later {l : List (Nat × Constituent)} (later : ∀ p ∈ l, p.1 ≠ 0) :
    constituentsModes vm l origMode = .ok mode ↔ origMode = mode ∧ ∀ p ∈ l, vm.ModeOf p.2 mode := by
  induction l generalizing origMode with
  | nil => simp [constituentsModes]
  | cons p rest ih =>
    obtain ⟨i, c⟩ := p
    have notFirst : i ≠ 0 := later _ List.mem_cons_self
    simp only [constituentsModes_cons, ih (fun q member => later q (List.mem_cons_of_mem _ member)),
      List.forall_mem_cons]
    constructor
    · rintro ⟨currentMode, own, same, rfl, others⟩
      exact ⟨(same notFirst).symm, own, others⟩
    · rintro ⟨rfl, own, others⟩
      exact ⟨origMode, own, fun _ => rfl, rfl, others⟩

/-- In the first fragment each constituent replaces the mode read so far. -/
theorem constituentsModes_first {constituents : Nat → Constituent} {n : Nat} :
    constituentsModes vm ((List.range' 0 (n + 1)).map (fun j => (0, constituents j)) ++ rest)
      origMode = .ok mode ↔ (∀ j < n, ∃ own, vm.ModeOf (constituents j) own) ∧
        ∃ last, vm.ModeOf (constituents n) last ∧ constituentsModes vm rest last = .ok mode := by
  suffices general : ∀ k origMode, constituentsModes vm
      ((List.range' k (n + 1)).map (fun j => (0, constituents j)) ++ rest) origMode = .ok mode ↔
      (∀ j, k ≤ j → j < k + n → ∃ own, vm.ModeOf (constituents j) own) ∧
        ∃ last, vm.ModeOf (constituents (k + n)) last ∧ constituentsModes vm rest last = .ok mode by
    simpa using general 0 origMode
  induction n with
  | zero =>
    intro k origMode
    simp only [List.range'_succ, List.range'_zero, List.map_cons, List.map_nil, List.cons_append,
      List.nil_append, constituentsModes_cons, Nat.add_zero]
    constructor
    · rintro ⟨last, own, -, after⟩
      exact ⟨fun j lower upper => by omega, last, own, after⟩
    · rintro ⟨-, last, own, after⟩
      exact ⟨last, own, fun absurd => by simp at absurd, after⟩
  | succ n ih =>
    intro k origMode
    rw [List.range'_succ, List.map_cons, List.cons_append, constituentsModes_cons]
    simp only [ih, ne_eq, not_true_eq_false, false_implies, true_and]
    rw [show k + 1 + n = k + (n + 1) by omega]
    constructor
    · rintro ⟨own, first, others, after⟩
      refine ⟨fun j lower upper => ?_, after⟩
      by_cases here : j = k
      · exact here ▸ ⟨own, first⟩
      · exact others j (by omega) (by omega)
    · rintro ⟨all, after⟩
      obtain ⟨own, first⟩ := all k (Nat.le_refl _) (by omega)
      exact ⟨own, first, fun j lower upper => all j (by omega) (by omega), after⟩

/-- What a successful mode query says: every constituent of the first fragment has some mode, the
last of them the mode returned, and so have all constituents of the later fragments. -/
theorem constituentsGetMode_iff : constituentsGetMode vm f = .ok mode ↔
      0 < f.count ∧ 0 < f.counts 0 ∧ (∀ j < f.counts 0, ∃ own, vm.ModeOf (f.constituents 0 j) own) ∧
        vm.ModeOf (f.constituents 0 (f.counts 0 - 1)) mode ∧
        ∀ i < f.count, 0 < i → ∀ j < f.counts i, vm.ModeOf (f.constituents i j) mode := by
  rw [constituentsGetMode]
  obtain ⟨constituents, counts, count, offsets⟩ := f
  cases count with
  | zero => simp
  | succ count =>
    cases first : counts 0 with
    | zero => simp [first]
    | succ n =>
      have split : Fragments.list ⟨constituents, counts, count + 1, offsets⟩ =
          (List.range' 0 (n + 1)).map (fun j => (0, constituents 0 j)) ++
            (List.range count).flatMap fun i => (List.range (counts (i + 1))).map fun j =>
              (i + 1, constituents (i + 1) j) := by
        simp only [Fragments.list, List.range_succ_eq_map, List.flatMap_cons, List.flatMap_map, first]
        rw [← List.range_succ_eq_map, List.range_eq_range']
      have later : ∀ p ∈ (List.range count).flatMap
          (fun i => (List.range (counts (i + 1))).map fun j => (i + 1, constituents (i + 1) j)), p.1 ≠ 0 := by
        simp only [List.mem_flatMap, List.mem_map, forall_exists_index, and_imp]
        rintro p i - j - rfl
        exact Nat.succ_ne_zero i
      rw [if_neg (by simp [first]), split, constituentsModes_first]
      simp only [constituentsModes_later later, List.mem_flatMap, List.mem_map, List.mem_range]
      constructor
      · rintro ⟨others, last, own, rfl, rest⟩
        refine ⟨by omega, by omega, fun j bound => ?_, by simpa [first] using own,
          fun i bound positive j jBound => ?_⟩
        · by_cases here : j = n
          · exact here ▸ ⟨last, own⟩
          · exact others j (by omega)
        · obtain ⟨k, rfl⟩ : ∃ k, i = k + 1 := ⟨i - 1, by omega⟩
          exact rest _ ⟨k, by omega, j, jBound, rfl⟩
      · rintro ⟨-, -, others, own, rest⟩
        refine ⟨fun j bound => others j (by omega), mode, by simpa [first] using own, rfl, ?_⟩
        rintro p ⟨i, bound, j, jBound, rfl⟩
        exact rest (i + 1) (by omega) (by omega) j jBound

end Hafnium.Ffa
