import Hafnium.Mm.Table

/-! # TLB maintenance of an address range

`arch_mm_invalidate_stage1_range` and `arch_mm_invalidate_stage2_range` as the sequence of
instructions they issue. Both loop over the pages of a short range and fall back to one instruction
for all entries when the range is long. The stage-1 loop writes the ASID into its own counter, so
for an ASID other than 0 the counter is past the end of the range after the first page.
-/

namespace Hafnium.Mm

/-- The most pages that are invalidated one by one. -/
def maxTlbiOps : Nat := mmPtePerPage

/-- The barriers and TLB instructions of the two functions; a page operand is the register value. -/
inductive TlbOp
  | dsbIsh
  | isb
  /-- Whether the TLB instructions that follow apply to the guest's regime. -/
  | vheSwitchToHostOrGuest (guest : Bool)
  | alle2is
  | vmalle1is
  | vmalls12e1is
  | vae1is (operand : Nat)
  | vae2is (operand : Nat)
  | ipas2e1is (operand : Nat)
deriving DecidableEq, Repr

/-- The loop over page numbers; `operand` is the register value made of the counter, from which the
counter goes on. The number of rounds is bounded by `fuel`: `none` is a loop that has not ended. -/
def tlbiLoop (operand : Nat → Nat) (tlbi : Nat → TlbOp) (end_ : Nat) : (fuel it : Nat) → Option (List TlbOp)
  | 0, it => if it < end_ then none else some []
  | fuel + 1, it =>
    if it < end_ then
      (tlbiLoop operand tlbi end_ fuel ((operand it + 1) % 2 ^ 64)).map (tlbi (operand it) :: ·)
    else some []

/-- Hafnium only uses the low 8 bits of an ASID; they go to bits 48 and above of the operand. -/
def asidOperand (asid : BitVec 16) (it : Nat) : Nat := it ||| (asid &&& 0xff).toNat <<< 48

/-- The TLB instructions for a range of virtual addresses; `vmToolchain` is the build for a virtual
machine. -/
def archMmInvalidateStage1Range (vmToolchain : Bool) (asid : BitVec 16) (begin_ end_ : Nat) :
    Option (List TlbOp) := do
  let ops ←
    if (end_ + (2 ^ 64 - begin_)) % 2 ^ 64 > maxTlbiOps * pageSize then
      some [if vmToolchain then .vmalle1is else .alle2is]
    else
      let begin_ := begin_ / 2 ^ 12
      let end_ := end_ / 2 ^ 12
      tlbiLoop (asidOperand asid) (if vmToolchain then .vae1is else .vae2is) end_ (end_ - begin_) begin_
  return [.dsbIsh] ++ ops ++ [.dsbIsh, .isb]

/-- The TLB instructions for a range of intermediate physical addresses. The VMID is not used. -/
def archMmInvalidateStage2Range (begin_ end_ : Nat) : Option (List TlbOp) := do
  let ops ←
    if (end_ + (2 ^ 64 - begin_)) % 2 ^ 64 > maxTlbiOps * pageSize then some [.vmalls12e1is]
    else
      let begin_ := begin_ / 2 ^ 12
      let end_ := end_ / 2 ^ 12
      (tlbiLoop id .ipas2e1is end_ (end_ - begin_) begin_).map (· ++ [.dsbIsh, .vmalle1is])
  return [.dsbIsh, .vheSwitchToHostOrGuest true] ++ ops ++ [.dsbIsh, .isb, .vheSwitchToHostOrGuest false]

/-! ## What the instructions invalidate -/

/-- The operand of an instruction for one virtual page: the ASID in bits 48 to 63, of which 8 are in
use, and the page number in bits 0 to 43. -/
def operandSelects (operand asid page : Nat) : Bool :=
  decide (operand / 2 ^ 48 % 2 ^ 8 = asid % 2 ^ 8) && decide (operand % 2 ^ 44 = page)

/-- The instruction invalidates the stage-1 entries of a page for an ASID. -/
def TlbOp.invalidatesStage1 (asid page : Nat) : TlbOp → Bool
  | .alle2is => true
  | .vmalle1is => true
  | .vae1is operand => operandSelects operand asid page
  | .vae2is operand => operandSelects operand asid page
  | _ => false

/-- The instruction invalidates the stage-2 entries of a page for the current VMID. -/
def TlbOp.invalidatesStage2 (page : Nat) : TlbOp → Bool
  | .vmalls12e1is => true
  | .ipas2e1is operand => decide (operand % 2 ^ 36 = page)
  | _ => false

/-- Every page of the range is invalidated by one of the instructions. -/
def CoversPages (invalidates : Nat → TlbOp → Bool) (begin_ end_ : Nat) (ops : List TlbOp) : Prop :=
  ∀ page, begin_ / pageSize ≤ page → page < end_ / pageSize → ∃ op ∈ ops, invalidates page op = true

instance (invalidates : Nat → TlbOp → Bool) (begin_ end_ : Nat) (ops : List TlbOp) :
    Decidable (CoversPages invalidates begin_ end_ ops) :=
  decidable_of_iff (∀ page < end_ / pageSize, begin_ / pageSize ≤ page →
    ∃ op ∈ ops, invalidates page op = true)
    ⟨fun all page lower upper => all page upper lower, fun all page upper lower => all page lower upper⟩

section Loops

variable {operand : Nat → Nat} {tlbi : Nat → TlbOp} {it end_ : Nat}

/-- A counter that only counts visits every page. -/
theorem tlbiLoop_counts (keeps : ∀ it < end_, operand it = it) (ordered : it ≤ end_) (bound : end_ < 2 ^ 64) :
    tlbiLoop operand tlbi end_ (end_ - it) it = some ((List.range' it (end_ - it)).map tlbi) := by
  generalize rounds : end_ - it = n
  induction n generalizing it with
  | zero => rw [tlbiLoop, if_neg (by omega)]; rfl
  | succ n ih =>
    rw [tlbiLoop, if_pos (by omega), keeps it (by omega), Nat.mod_eq_of_lt (by omega),
      ih (by omega) (by omega)]
    rfl

/-- A counter that leaves the range with its first operand visits one page. -/
theorem tlbiLoop_leaves (leaves : end_ ≤ operand it) (bound : operand it + 1 < 2 ^ 64)
    (nonempty : it < end_) :
    tlbiLoop operand tlbi end_ (end_ - it) it = some [tlbi (operand it)] := by
  obtain ⟨n, rounds⟩ := Nat.exists_eq_succ_of_ne_zero (show end_ - it ≠ 0 by omega)
  rw [rounds, tlbiLoop, if_pos nonempty, Nat.mod_eq_of_lt bound]
  cases n <;> rw [tlbiLoop, if_neg (by omega)] <;> rfl

end Loops

theorem asid_low (asid : BitVec 16) : (asid &&& 0xff).toNat = asid.toNat % 2 ^ 8 := by
  exact Nat.and_two_pow_sub_one_eq_mod _ 8

/-- The counter and the ASID occupy different bits of the operand. -/
theorem asidOperand_eq (asid : BitVec 16) {it : Nat} (bound : it < 2 ^ 48) :
    asidOperand asid it = asid.toNat % 2 ^ 8 * 2 ^ 48 + it := by
  rw [asidOperand, asid_low, Nat.or_comm, ← Nat.shiftLeft_add_eq_or_of_lt bound, Nat.shiftLeft_eq]

theorem CoversPages.mono {invalidates : Nat → TlbOp → Bool} {begin_ end_ : Nat} {ops more : List TlbOp}
    (covers : CoversPages invalidates begin_ end_ ops) (within : ops ⊆ more) :
    CoversPages invalidates begin_ end_ more := by
  intro page lower upper
  obtain ⟨op, member, hit⟩ := covers page lower upper
  exact ⟨op, within member, hit⟩

/-- One instruction for each page of the range covers the range. -/
theorem coversPages_each {invalidates : Nat → TlbOp → Bool} {tlbi : Nat → TlbOp} {begin_ end_ : Nat}
    (hits : ∀ page < end_ / pageSize, invalidates page (tlbi page) = true) :
    CoversPages invalidates begin_ end_
      ((List.range' (begin_ / pageSize) (end_ / pageSize - begin_ / pageSize)).map tlbi) := by
  intro page lower upper
  refine ⟨tlbi page, List.mem_map_of_mem ?_, hits page upper⟩
  rw [List.mem_range'_1]
  omega

section Ranges

variable {begin_ end_ : Nat}

theorem length_exact (ordered : begin_ ≤ end_) (below : end_ < 2 ^ 48) :
    (end_ + (2 ^ 64 - begin_)) % 2 ^ 64 = end_ - begin_ := by
  rw [show end_ + (2 ^ 64 - begin_) = end_ - begin_ +
    2 ^ 64 by omega, Nat.add_mod_right, Nat.mod_eq_of_lt (by omega)]

/-- The stage-2 instructions end and cover the range. -/
theorem archMmInvalidateStage2Range_covers (ordered : begin_ ≤ end_) (below : end_ < 2 ^ 48) :
    ∃ ops, archMmInvalidateStage2Range begin_ end_ = some ops ∧
    CoversPages TlbOp.invalidatesStage2 begin_ end_ ops := by
  rw [archMmInvalidateStage2Range, length_exact ordered below]
  split
  · refine ⟨_, rfl, fun page _ _ => ⟨.vmalls12e1is, by simp, rfl⟩⟩
  · have loop := @tlbiLoop_counts id .ipas2e1is _ _ (fun _ _ => rfl)
      (Nat.div_le_div_right (c := 2 ^ 12) ordered) (by omega)
    simp only [loop, Option.map_some]
    refine ⟨_, rfl, (@coversPages_each _ .ipas2e1is _ _ fun page inside => ?_).mono ?_⟩
    · have small : page < 2 ^ 36 := by
        simp only [pageSize] at inside
        omega
      exact decide_eq_true (Nat.mod_eq_of_lt small)
    · intro op member
      exact List.mem_append_left _ (List.mem_append_right _ (List.mem_append_left _ member))

/-- The instruction for a page of the range invalidates exactly that page. -/
theorem invalidatesStage1_page (vmToolchain : Bool) (asid : BitVec 16) {it : Nat}
    (bound : it < 2 ^ 36) (page : Nat) :
    TlbOp.invalidatesStage1 asid.toNat page ((if vmToolchain then TlbOp.vae1is else TlbOp.vae2is)
      (asidOperand asid it)) = true ↔
      it = page := by
  have selects : operandSelects (asidOperand asid it) asid.toNat page = true ↔ it = page := by
    rw [asidOperand_eq asid (by omega), operandSelects, Bool.and_eq_true, decide_eq_true_eq,
      decide_eq_true_eq]
    omega
  cases vmToolchain <;> exact selects

/-- The stage-1 instructions end. They cover the range if the ASID is 0, if there is at most one
page, or if there are so many that all entries are invalidated, and in no other case. -/
theorem archMmInvalidateStage1Range_covers (vmToolchain : Bool) (asid : BitVec 16)
    (beginPage : begin_ % pageSize = 0) (endPage : end_ % pageSize = 0) (ordered : begin_ ≤ end_)
    (below : end_ < 2 ^ 48) :
    ∃ ops, archMmInvalidateStage1Range vmToolchain asid begin_ end_ = some ops ∧
      (CoversPages (TlbOp.invalidatesStage1 asid.toNat) begin_ end_ ops ↔
        asid &&& 0xff = 0 ∨ end_ ≤ begin_ + pageSize ∨ begin_ + maxTlbiOps * pageSize < end_) := by
  simp only [pageSize] at beginPage endPage
  rw [archMmInvalidateStage1Range, length_exact ordered below]
  split
  · next long =>
    refine ⟨_, rfl, iff_of_true (fun page _ _ => ?_) (.inr (.inr (by omega)))⟩
    cases vmToolchain
    · exact ⟨.alle2is, by simp, rfl⟩
    · exact ⟨.vmalle1is, by simp, rfl⟩
  · next short =>
    simp only
    by_cases zero : asid &&& 0xff = 0
    · -- The operand is the counter itself.
      have keeps (it : Nat) : asidOperand asid it = it := by
        rw [asidOperand, zero]
        exact Nat.or_zero it
      rw [tlbiLoop_counts (fun it _ => keeps it) (Nat.div_le_div_right ordered) (by omega)]
      refine ⟨_, rfl, iff_of_true ?_ (.inl zero)⟩
      refine (@coversPages_each _ (if vmToolchain then .vae1is else .vae2is) _ _ fun page inside =>
        ?_).mono ?_
      · have small : page < 2 ^ 36 := by
          simp only [pageSize] at inside
          omega
        have hit := (invalidatesStage1_page vmToolchain asid small page).mpr rfl
        rwa [keeps] at hit
      · intro op member
        exact List.mem_append_left _ (List.mem_append_right _ member)
    · have positive : 0 < asid.toNat % 2 ^ 8 := by
        rw [← asid_low]
        exact Nat.pos_of_ne_zero fun none => zero (BitVec.eq_of_toNat_eq none)
      by_cases nonempty : begin_ / 2 ^ 12 < end_ / 2 ^ 12
      · have operand := asidOperand_eq asid (show begin_ / 2 ^ 12 < 2 ^ 48 by omega)
        rw [tlbiLoop_leaves (by omega) (by omega) nonempty]
        refine ⟨_, rfl, ?_⟩
        have hit (page : Nat) := invalidatesStage1_page vmToolchain asid
          (show begin_ / 2 ^ 12 < 2 ^ 36 by omega) page
        generalize (if vmToolchain then TlbOp.vae1is else TlbOp.vae2is)
          (asidOperand asid (begin_ / 2 ^ 12)) = op at hit
        have covered (page : Nat) : (∃ o ∈ [TlbOp.dsbIsh] ++ [op] ++ [.dsbIsh, .isb],
            o.invalidatesStage1 asid.toNat page = true) ↔ begin_ / 2 ^ 12 = page := by
          have barrier : TlbOp.dsbIsh.invalidatesStage1 asid.toNat page = false ∧
              TlbOp.isb.invalidatesStage1 asid.toNat page = false := ⟨rfl, rfl⟩
          simpa [barrier] using hit page
        simp only [zero, false_or, CoversPages, covered, pageSize] at short ⊢
        constructor
        · intro all
          have second := all (begin_ / 4096 + 1) (by omega)
          omega
        · omega
      · rw [show end_ / 2 ^ 12 - begin_ / 2 ^ 12 = 0 by omega, tlbiLoop, if_neg nonempty]
        refine ⟨_, rfl, iff_of_true (fun page lower upper => ?_) (.inr (.inl ?_))⟩
        · simp only [pageSize] at lower upper
          omega
        · omega

/-- Both functions end for every page-aligned range of 48-bit addresses. The stage-2 instructions cover
the range; the stage-1 instructions do so if the low ASID bits are 0 or the range is not longer than
one page or too long to be invalidated page by page. -/
theorem invalidate_range_covers_iff (vmToolchain : Bool) (asid : BitVec 16)
    (beginPage : begin_ % pageSize = 0) (endPage : end_ % pageSize = 0) (ordered : begin_ ≤ end_)
    (below : end_ < 2 ^ 48) :
    (∃ ops, archMmInvalidateStage1Range vmToolchain asid begin_ end_ = some ops ∧
      (CoversPages (TlbOp.invalidatesStage1 asid.toNat) begin_ end_ ops ↔
        asid &&& 0xff = 0 ∨ end_ ≤ begin_ + pageSize ∨ begin_ + maxTlbiOps * pageSize < end_)) ∧
    ∃ ops, archMmInvalidateStage2Range begin_ end_ = some ops ∧
    CoversPages TlbOp.invalidatesStage2 begin_ end_ ops :=
  ⟨archMmInvalidateStage1Range_covers vmToolchain asid beginPage endPage ordered below,
    archMmInvalidateStage2Range_covers ordered below⟩

/-- Two pages with ASID 0. -/
theorem invalidate_range_covers_two_pages :
    (∃ ops, archMmInvalidateStage1Range false 0 0x1000 0x3000 = some ops ∧
      CoversPages (TlbOp.invalidatesStage1 0) 0x1000 0x3000 ops) ∧
    ∃ ops, archMmInvalidateStage2Range 0x1000 0x3000 = some ops ∧
    CoversPages TlbOp.invalidatesStage2 0x1000 0x3000 ops := by
  obtain ⟨⟨ops, issued, covers⟩, stage2⟩ :=
    @invalidate_range_covers_iff 0x1000 0x3000 false 0 rfl rfl (by decide)
    (by decide)
  exact ⟨⟨ops, issued, covers.mpr (.inl rfl)⟩, stage2⟩

/-- Two pages with ASID 1: only the first is invalidated. -/
theorem invalidate_range_misses_second_page :
    ∃ ops, archMmInvalidateStage1Range false 1 0x1000 0x3000 = some ops ∧
      ¬CoversPages (TlbOp.invalidatesStage1 1) 0x1000 0x3000 ops :=
  ⟨[.dsbIsh, .vae2is 0x1000000000001, .dsbIsh, .isb], by decide +kernel, by decide⟩

end Ranges

end Hafnium.Mm
