import Hafnium.Lib.Blocks
import Hafnium.Mm.Arch
import Mathlib.Logic.Function.Basic

/-! # Page tables as trees

A table of some level holds 512 entries, each a raw descriptor or a reference to a table of the
level below; the level is part of the type, so a tree cannot be deeper than its level. Only
indices below 512 of a table are ever read. Two views of a tree matter to everyone above: the
attributes of an address (`attrsAt`, what the software reads) and the translation of an address
(`lookup`, what a table walk finds). On a well-formed identity-mapped tree the second follows from
the first.
-/

namespace Hafnium.Mm

def pageSize : Nat := 4096

/-- The number of entries of a table. -/
def mmPtePerPage : Nat := 512

/-- The size of the address range covered by one entry at the given level. -/
def mmEntrySize (level : Nat) : Nat := 2 ^ (12 + level * 9)

-- The sums here and in `BlockWalk.nextBlock` are 64-bit in the source. They are only taken of
-- addresses under 2^48, where they do not wrap.

/-- The end of the range that the table of `addr` at the given level represents. -/
def mmLevelEnd (addr level : Nat) : Nat := (addr / mmEntrySize (level + 1) + 1) * mmEntrySize (level + 1)

/-- The index of the entry for `addr` in a table at the given level. -/
def mmIndex (addr level : Nat) : Nat := addr / mmEntrySize level % mmPtePerPage

/-- An entry of a table at the given level. A reference keeps the number of the page that holds
the table it points to. -/
inductive Pte : Nat → Type
  | leaf {level : Nat} (bits : PteBits) : Pte level
  | table {level : Nat} (page : PageNumber) (entries : Nat → Pte level) : Pte (level + 1)

/-- The entries of one table. -/
abbrev PageTable (level : Nat) := Nat → Pte level

/-- The descriptor stored for an entry. -/
def Pte.bits : {level : Nat} → Pte level → PteBits
  | _, .leaf bits => bits
  | _, .table page _ => archMmTablePte (page.toNat * pageSize)

/-- The attributes that apply to an address below an entry. -/
def Pte.attrsAt : {level : Nat} → Pte level → Nat → PteBits
  | _, .leaf bits, _ => archMmPteAttrs bits
  | level + 1, .table _ entries, addr => (entries (mmIndex addr level)).attrsAt addr

/-- The attributes that apply to an address below a table. -/
def PageTable.attrsAt {level : Nat} (t : PageTable level) (addr : Nat) : PteBits :=
  (t (mmIndex addr level)).attrsAt addr

/-- The table walk: the output address and attributes of an address, unless it is absent. -/
def Pte.lookup : {level : Nat} → Pte level → Nat → Option (Nat × PteBits)
  | level, .leaf bits, addr =>
    if archMmPteIsPresent bits then
      some (archMmBlockFromPte bits + addr % mmEntrySize level, archMmPteAttrs bits)
    else none
  | level + 1, .table _ entries, addr => (entries (mmIndex addr level)).lookup addr

/-- A leaf that maps its own address range, or nothing. -/
inductive LeafFor (level base : Nat) : PteBits → Prop
  | absent : LeafFor level base archMmAbsentPte
  | block {attrs : PteBits} (allowed : level ≤ 2) (attrsOk : BlockAttrs attrs) :
      LeafFor level base (archMmBlockPte level base attrs)

/-- Every leaf of the tree maps its own address range, or nothing. -/
def Pte.WellFormed : {level : Nat} → Pte level → (base : Nat) → Prop
  | level, .leaf bits, base => LeafFor level base bits
  | level + 1, .table _ entries, base =>
    ∀ i < mmPtePerPage, (entries i).WellFormed (base + i * mmEntrySize level)

/-- The well-formedness of a whole table that starts at `base`. -/
def PageTable.WellFormed {level : Nat} (t : PageTable level) (base : Nat) : Prop :=
  ∀ i < mmPtePerPage, (t i).WellFormed (base + i * mmEntrySize level)

/-! ## Indices and ranges -/

theorem mmEntrySize_succ (level : Nat) : mmEntrySize (level + 1) = mmPtePerPage * mmEntrySize level := by
  simp only [mmEntrySize, mmPtePerPage]
  rw [show 12 + (level + 1) * 9 = (12 + level * 9) + 9 by omega, Nat.pow_add]
  omega

theorem mmEntrySize_pos (level : Nat) : 0 < mmEntrySize level := Nat.two_pow_pos _

/-- Entries cover whole pages. -/
theorem mmEntrySize_page (level : Nat) : mmEntrySize level % pageSize = 0 := by
  simp only [mmEntrySize, Nat.pow_add]
  exact Nat.mul_mod_right _ _

/-- Blocks are larger than pages. -/
theorem pageSize_lt_entrySize (level : Nat) : pageSize < mmEntrySize (level + 1) := by
  have positive := mmEntrySize_pos level
  have atLeast : pageSize ≤ mmEntrySize level :=
    Nat.le_of_dvd positive (Nat.dvd_of_mod_eq_zero (mmEntrySize_page level))
  rw [mmEntrySize_succ]
  simp only [mmPtePerPage, pageSize] at *
  omega

theorem mmEntrySize_dvd_succ (level : Nat) : mmEntrySize level ∣ mmEntrySize (level + 1) :=
  ⟨mmPtePerPage, by rw [mmEntrySize_succ, Nat.mul_comm]⟩

variable {level base addr : Nat} {bits : PteBits}

section Ranges

variable {i : Nat}

theorem page_of_aligned (aligned : base % mmEntrySize level = 0) : base % pageSize = 0 :=
  Nat.mod_eq_zero_of_dvd ((Nat.dvd_of_mod_eq_zero (mmEntrySize_page level)).trans
    (Nat.dvd_of_mod_eq_zero aligned))

theorem table_aligned (aligned : base % mmEntrySize (level + 1) = 0) : base % mmEntrySize level = 0 :=
  Nat.mod_eq_zero_of_dvd ((mmEntrySize_dvd_succ level).trans (Nat.dvd_of_mod_eq_zero aligned))

theorem entry_aligned (aligned : base % mmEntrySize (level + 1) = 0) (i : Nat) :
    (base + i * mmEntrySize level) % mmEntrySize level = 0 := by
  rw [Nat.add_mul_mod_self_right]
  exact table_aligned aligned

/-- The offset of an address in the entry that contains it. -/
theorem mod_entrySize (aligned : base % mmEntrySize level = 0) (lower : base ≤ addr)
    (upper : addr < base + mmEntrySize level) : addr % mmEntrySize level = addr - base := by
  obtain ⟨k, rfl⟩ := Nat.dvd_of_mod_eq_zero aligned
  obtain ⟨d, rfl⟩ := Nat.exists_eq_add_of_le lower
  rw [Nat.mul_add_mod, Nat.mod_eq_of_lt (by omega)]
  omega

/-- The offset in an entry, by the entry below it. -/
theorem mod_entrySize_succ (addr level : Nat) :
    addr % mmEntrySize (level + 1) = mmIndex addr level * mmEntrySize level + addr % mmEntrySize level := by
  rw [mmEntrySize_succ, Nat.mul_comm, Nat.mod_mul, mmIndex, Nat.mul_comm _, Nat.add_comm]

/-- An entry of a table ends within the table. -/
theorem entry_end_le (level base : Nat) (bound : i < mmPtePerPage) :
    base + i * mmEntrySize level + mmEntrySize level ≤ base + mmEntrySize (level + 1) := by
  have whole := Nat.mul_le_mul_right (mmEntrySize level) (bound)
  rw [mmEntrySize_succ]
  rw [Nat.succ_mul] at whole
  omega

theorem mmIndex_bounds (aligned : base % mmEntrySize (level + 1) = 0) (lower : base ≤ addr)
    (upper : addr < base + mmEntrySize (level + 1)) :
    mmIndex addr level < mmPtePerPage ∧ base + mmIndex addr level * mmEntrySize level ≤ addr ∧
      addr < base + mmIndex addr level * mmEntrySize level + mmEntrySize level := by
  rw [mmEntrySize_succ] at aligned upper
  have bounds := Blocks.index_bounds aligned lower upper
  rw [Nat.succ_mul, ← Nat.add_assoc] at bounds
  exact bounds

theorem mmIndex_eq (aligned : base % mmEntrySize (level + 1) = 0) (bound : i < mmPtePerPage)
    (first : base + i * mmEntrySize level ≤ addr)
    (last : addr < base + i * mmEntrySize level + mmEntrySize level) : mmIndex addr level = i := by
  rw [mmEntrySize_succ] at aligned
  exact Blocks.index_eq aligned bound first (by rw [Nat.succ_mul]; omega)

end Ranges

/-! ## Attributes decide the translation -/

theorem LeafFor.attrs (leaf : LeafFor level base bits)
    (aligned : base % mmEntrySize level = 0) (bound : base + mmEntrySize level ≤ 2 ^ 48) :
    (bits = archMmAbsentPte ∧ archMmPteAttrs bits = 0) ∨
      (level ≤ 2 ∧ BlockAttrs (archMmPteAttrs bits) ∧
      bits = archMmBlockPte level base (archMmPteAttrs bits)) := by
  have small := mmEntrySize_pos level
  cases leaf with
  | absent => exact .inl ⟨rfl, rfl⟩
  | block allowed attrsOk =>
    rw [archMmPteAttrs_archMmBlockPte (page_of_aligned aligned) (by omega) attrsOk]
    exact .inr ⟨allowed, attrsOk, rfl⟩

/-- A leaf is present exactly when its attributes are not zero. -/
theorem LeafFor.lookup (leaf : LeafFor level base bits)
    (aligned : base % mmEntrySize level = 0) (bound : base + mmEntrySize level ≤ 2 ^ 48)
    (lower : base ≤ addr) (upper : addr < base + mmEntrySize level) :
    (Pte.leaf bits : Pte level).lookup addr =
      if archMmPteAttrs bits = 0 then none else some (addr, archMmPteAttrs bits) := by
  rcases leaf.attrs aligned bound with ⟨rfl, -⟩ | ⟨-, attrsOk, block⟩
  · rfl
  · have page := page_of_aligned aligned
    rw [Pte.lookup, if_neg attrsOk.ne_zero, mod_entrySize aligned lower upper, block,
      archMmPteIsPresent_archMmBlockPte page (by omega) attrsOk,
      archMmBlockFromPte_archMmBlockPte page (by omega) attrsOk,
      archMmPteAttrs_archMmBlockPte page (by omega) attrsOk, if_pos rfl]
    congr 2
    omega

/-- On a well-formed tree an address is absent, or translates to itself. -/
theorem Pte.lookup_eq {e : Pte level} (wf : e.WellFormed base)
    (aligned : base % mmEntrySize level = 0) (bound : base + mmEntrySize level ≤ 2 ^ 48)
    (lower : base ≤ addr) (upper : addr < base + mmEntrySize level) :
    e.lookup addr = if e.attrsAt addr = 0 then none else some (addr, e.attrsAt addr) := by
  induction e generalizing base with
  | leaf bits => exact LeafFor.lookup wf aligned bound lower upper
  | @table level page entries ih =>
    obtain ⟨index, first, last⟩ := mmIndex_bounds aligned lower upper
    have := entry_end_le level base index
    exact ih _ (wf _ index) (entry_aligned aligned _) (by omega) first last

end Hafnium.Mm
