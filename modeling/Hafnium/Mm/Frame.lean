import Hafnium.Mm.Stage

/-! # What an update leaves alone

An update of a range changes translations only at the addresses that the range reaches. These are
the addresses of the range itself, unless its start does not fit into a descriptor: then the bits
that do not fit are dropped.
-/

namespace Hafnium.Mm

/-- The addresses that an update of a range reaches. -/
def Touches (begin_ end_ addr : Nat) : Prop := mmMapBegin begin_ ≤ addr ∧ addr < mmRoundUpToPage end_

variable {addr : Nat} {touched : Nat → Prop}

/-- The range of a page that a descriptor can hold is the page. -/
theorem touches_page {page : Nat} (aligned : page % pageSize = 0) (bound : page + pageSize ≤ 2 ^ 48) :
    Touches page (page + pageSize) addr ↔ page ≤ addr ∧ addr < page + pageSize := by
  have ends : (page + pageSize) % pageSize = 0 := by simp only [pageSize] at aligned ⊢; omega
  rw [Touches, mmMapBegin_of_page aligned (by simp only [pageSize] at bound; omega),
    mmRoundUpToPage_of_page ends (by simp only [pageSize] at bound ⊢; omega)]

variable {c : StageConfig}

/-- Every address space has at least a gigabyte. -/
theorem space_ge (c : StageConfig) : 2 ^ 30 ≤ mmPtableAddrSpaceEnd c := by
  have levels := c.maxLevel_pos
  have entry : 2 ^ 30 ≤ mmEntrySize (c.maxLevel + 1) := Nat.pow_le_pow_right (by decide) (by omega)
  exact entry.trans (Nat.le_mul_of_pos_left _ c.rootTableCount_pos)

/-- A well-formed table that differs from another one at most at the touched addresses. -/
structure MmPtable.ChangesWithin (touched : Nat → Prop) (t t' : MmPtable c) : Prop where
  wellFormed : t'.WellFormed
  attrs : ∀ addr < mmPtableAddrSpaceEnd c, ¬touched addr → t'.attrsAt addr = t.attrsAt addr

namespace MmPtable.ChangesWithin

variable {t t' t'' : MmPtable c} {touched' : Nat → Prop}

theorem of_sameAttrs (wf : t'.WellFormed) (same : t.SameAttrs t') : t.ChangesWithin touched t' :=
  ⟨wf, fun addr inside _ => same addr inside⟩

theorem refl (wf : t.WellFormed) : t.ChangesWithin touched t := of_sameAttrs wf fun _ _ => rfl

theorem trans (first : t.ChangesWithin touched t') (second : t'.ChangesWithin touched t'') :
    t.ChangesWithin touched t'' :=
  ⟨second.wellFormed, fun addr inside outside => (second.attrs addr inside outside).trans
    (first.attrs addr inside outside)⟩

theorem mono (changes : t.ChangesWithin touched t') (more : ∀ addr, touched addr → touched' addr) :
    t.ChangesWithin touched' t' :=
  ⟨changes.wellFormed, fun addr inside outside => changes.attrs addr inside fun before =>
    outside (more addr before)⟩

/-- Translations outside are the same too. -/
theorem lookup_eq (changes : t.ChangesWithin touched t') (wf : t.WellFormed)
    (inside : addr < mmPtableAddrSpaceEnd c) (outside : ¬touched addr) : t'.lookup addr = t.lookup addr := by
  rw [MmPtable.lookup_eq changes.wellFormed inside, MmPtable.lookup_eq wf inside,
    changes.attrs addr inside outside]

end MmPtable.ChangesWithin

section Stage

variable {m : MmConfig} {stage : Stage} {t t' : MmPtable (m.levels stage)} (wf : t.WellFormed)
  {begin_ end_ : Nat} {mode : Mode} {pool pool' : Mpool}

theorem ModeUpdate.changesWithin (update : ModeUpdate mode begin_ end_ t t') (wf' : t'.WellFormed) :
    t.ChangesWithin (Touches begin_ end_) t' := by
  refine ⟨wf', fun addr inside outside => ?_⟩
  rw [update addr inside, if_neg]
  rintro ⟨lower, upper⟩
  exact outside ⟨lower, upper.trans_le (Nat.min_le_left ..)⟩

include wf

theorem stageIdentityMap_changesWithin {r : Updated (MmPtable (m.levels stage))}
    (ran : stageIdentityMap t begin_ end_ mode pool = some r) :
    t.ChangesWithin (Touches begin_ end_) r.value := by
  obtain ⟨r', same, rWf, success, failure⟩ := stageIdentityMap_spec wf begin_ end_ mode pool
  cases ran.symm.trans same
  cases ok : r.ok with
  | true => exact (success ok).changesWithin rWf
  | false => exact .of_sameAttrs rWf (failure ok)

theorem stageIdentityPrepare_changesWithin :
    t.ChangesWithin touched (stageIdentityPrepare t begin_ end_ mode pool).value :=
  .of_sameAttrs (stageIdentityPrepare_wellFormed wf begin_ end_ mode pool)
    (stageIdentityPrepare_sameAttrs wf begin_ end_ mode pool)

theorem stageIdentityCommit_changesWithin
    (ran : stageIdentityCommit t begin_ end_ mode pool = some (t', pool')) :
    t.ChangesWithin (Touches begin_ end_) t' :=
  (stageIdentityCommit_modeUpdate wf begin_ end_ mode pool ran).changesWithin
    (stageIdentityCommit_wellFormed wf begin_ end_ mode pool ran)

theorem mmPtableDefrag_changesWithin : t.ChangesWithin touched (mmPtableDefrag m.features t pool).1 :=
  .of_sameAttrs (mmPtableDefrag_wellFormed m.features t pool wf)
    (mmPtableDefrag_sameAttrs m.features t pool wf)

end Stage

end Hafnium.Mm
