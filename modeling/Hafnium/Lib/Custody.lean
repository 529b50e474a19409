import Mathlib.Algebra.BigOperators.Group.Finset.Basic
import Mathlib.Algebra.BigOperators.Group.List.Basic
import Mathlib.Algebra.Order.BigOperators.Group.Finset
import Mathlib.Algebra.Order.Group.Multiset

/-! # Custody of resources

A store hands resources out and takes them back. A step of the store is balanced if what is free and
what its users hold are together the same before and after, so that nothing is lost and nothing is
there twice. Holdings are values of a commutative monoid, such as multisets of pages.
-/

namespace Custody

open Function

variable {ι σ β M : Type} [AddCommMonoid M] {valid : ι → σ → Prop} {free : σ → M} {s s' s'' : σ} {x y z : M}

/-- A step from `s` to `s'` in which the users' holdings go from `x` to `y`. It keeps every invariant of
the family `valid`, and the balance in states with such an invariant. -/
def Balanced (valid : ι → σ → Prop) (free : σ → M) (s s' : σ) (x y : M) : Prop :=
  ∀ i, valid i s → valid i s' ∧ free s + x = free s' + y

theorem Balanced.refl (s : σ) (x : M) : Balanced valid free s s x x := fun _ sound => ⟨sound, rfl⟩

theorem Balanced.trans (first : Balanced valid free s s' x y) (second : Balanced valid free s' s'' y z) :
    Balanced valid free s s'' x z := by
  intro i sound
  obtain ⟨sound', before⟩ := first i sound
  obtain ⟨sound'', after⟩ := second i sound'
  exact ⟨sound'', before.trans after⟩

/-- What others hold does not matter. -/
theorem Balanced.frame (step : Balanced valid free s s' x y) (others : M) :
    Balanced valid free s s' (x + others) (y + others) := by
  intro i sound
  obtain ⟨sound', same⟩ := step i sound
  rw [← add_assoc, ← add_assoc, same]
  exact ⟨sound', rfl⟩

/-- Holdings may be written in another way. -/
theorem Balanced.cast {x' y' : M} (step : Balanced valid free s s' x y) (before : x' = x) (after : y' = y) :
    Balanced valid free s s' x' y' := by
  rw [before, after]
  exact step

/-- A step that ends with `z` being given back: all of `z` is free afterwards. -/
structure GivesBack (valid : ι → σ → Prop) (free : σ → M) (s s' : σ) (x y z : M) : Prop where
  balanced : Balanced valid free s s' (x + z) y
  back : ∀ i, valid i s → ∃ rest, free s' = rest + z

theorem Balanced.givesBack (first : Balanced valid free s s' x y) (last : Balanced valid free s' s'' z 0) :
    GivesBack valid free s s'' x y z := by
  refine ⟨(first.frame z).trans ((last.frame y).cast (add_comm y z) (zero_add y).symm),
    fun i sound => ⟨free s', ?_⟩⟩
  rw [← add_zero (free s''), ← (last i (first i sound).1).2]

variable {l : List β}

/-- Giving things back one after the other. -/
theorem Balanced.foldl {step : σ → β → σ} {held : β → M}
    (each : ∀ b ∈ l, ∀ s, Balanced valid free s (step s b) (held b) 0) (s : σ) :
    Balanced valid free s (l.foldl step s) (l.map held).sum 0 := by
  induction l generalizing s with
  | nil => exact .refl s 0
  | cons b rest ih =>
    rw [List.forall_mem_cons] at each
    have one := (each.1 s).frame (rest.map held).sum
    rw [zero_add] at one
    exact one.trans (ih each.2 (step s b))

/-- A loop whose rounds are balanced. -/
theorem Balanced.rounds {τ : Type} (state : τ → σ) (held : τ → M) {step : τ → β → τ}
    (each : ∀ b ∈ l, ∀ t, Balanced valid free (state t) (state (step t b)) (held t) (held (step t b)))
    (t : τ) :
    Balanced valid free (state t) (state (l.foldl step t)) (held t) (held (l.foldl step t)) := by
  induction l generalizing t with
  | nil => exact .refl _ _
  | cons b rest ih =>
    rw [List.forall_mem_cons] at each
    exact (each.1 t).trans (ih each.2 (step t b))

variable {α κ : Type} {t : Finset κ} {i : κ}

/-- What several items hold together, as one of them is replaced. -/
theorem sum_update [DecidableEq κ] (held : κ → α → M) (items : κ → α) (member : i ∈ t) :
    ∃ rest, ∑ j ∈ t, held j (items j) = held i (items i) + rest ∧
      ∀ item, ∑ j ∈ t, held j (update items i item j) = held i item + rest := by
  refine ⟨∑ j ∈ t.erase i, held j (items j), (Finset.add_sum_erase _ _ member).symm, fun item => ?_⟩
  have others : ∑ j ∈ t.erase i, held j (update items i item j) = ∑ j ∈ t.erase i, held j (items j) := by
    refine Finset.sum_congr rfl fun j other => ?_
    rw [update_of_ne (Finset.ne_of_mem_erase other)]
  rw [← Finset.add_sum_erase _ _ member, others, update_self]

theorem Balanced.update [DecidableEq κ] (held : α → M) (items : κ → α) {item : α}
    (member : i ∈ t) (one : Balanced valid free s s' (held (items i)) (held item)) :
    Balanced valid free s s' (∑ j ∈ t, held (items j)) (∑ j ∈ t, held (update items i item j)) := by
  obtain ⟨rest, before, after⟩ := sum_update (fun _ => held) items member
  rw [before, after]
  exact one.frame rest

/-- What a list of users holds together, as one of them is replaced or leaves. -/
theorem sum_set (held : α → M) {l : List α} {i : Nat} {a : α} (here : l[i]? = some a) :
    ∃ rest, (l.map held).sum = held a + rest ∧ (∀ b, ((l.set i b).map held).sum = held b + rest) ∧
      ((l.eraseIdx i).map held).sum = rest := by
  obtain ⟨bound, rfl⟩ := List.getElem?_eq_some_iff.mp here
  refine ⟨((l.take i).map held).sum + ((l.drop (i + 1)).map held).sum, ?_, fun b => ?_, ?_⟩
  · conv_lhs => rw [← List.take_append_drop i l, List.drop_eq_getElem_cons bound]
    rw [List.map_append, List.sum_append, List.map_cons, List.sum_cons, add_left_comm]
  · rw [List.set_eq_take_append_cons_drop, if_pos bound, List.map_append, List.sum_append,
      List.map_cons, List.sum_cons, add_left_comm]
  · rw [List.eraseIdx_eq_take_drop_succ, List.map_append, List.sum_append]

/-! ## Distinct holdings -/

/-- Nothing is there twice. A structure, so that no one computes the holdings to see whether it holds. -/
structure Distinct {α : Type} (holdings : Multiset α) : Prop where
  nodup : holdings.Nodup

section Distinct

variable {x y : Multiset α} {a : α}

theorem Distinct.mono (distinct : Distinct y) (le : x ≤ y) :
    Distinct x := ⟨Multiset.nodup_of_le le distinct.nodup⟩

theorem Distinct.left (distinct : Distinct (x + y)) : Distinct x := distinct.mono (Multiset.le_add_right ..)

theorem Distinct.right (distinct : Distinct (x + y)) : Distinct y := distinct.mono (Multiset.le_add_left ..)

theorem Distinct.apart (distinct : Distinct (x + y)) (mem : a ∈ x) : a ∉ y :=
  Multiset.disjoint_left.mp (Multiset.nodup_add.mp distinct.nodup).2.2 mem

variable (held : κ → Multiset α)

theorem le_sum (member : i ∈ t) : held i ≤ ∑ j ∈ t, held j :=
  Finset.single_le_sum (fun _ _ => Multiset.zero_le _) member

/-- No two users hold the same. -/
theorem eq_of_mem_sum [DecidableEq κ] (distinct : Distinct (∑ i ∈ t, held i)) {j : κ} (here : i ∈ t)
    (there : j ∈ t) (mem : a ∈ held i) (mem' : a ∈ held j) : i = j := by
  by_contra other
  rw [← Finset.add_sum_erase t held here] at distinct
  exact distinct.apart mem (Multiset.mem_of_le (le_sum held (Finset.mem_erase.mpr ⟨Ne.symm other,
    there⟩)) mem')

variable {l : List κ}

theorem mem_list_sum {i : Nat} {k : κ} (here : l[i]? = some k) (mem : a ∈ held k) : a ∈ (l.map held).sum := by
  obtain ⟨rest, sum, -⟩ := sum_set held here
  rw [sum]
  exact Multiset.mem_add.mpr (.inl mem)

theorem exists_of_mem_list_sum (mem : a ∈ (l.map held).sum) :
    ∃ (i : Nat) (k : κ), l[i]? = some k ∧ a ∈ held k := by
  induction l with
  | nil => exact absurd mem (Multiset.notMem_zero a)
  | cons first rest ih =>
    rw [List.map_cons, List.sum_cons, Multiset.mem_add] at mem
    rcases mem with here | later
    · exact ⟨0, first, rfl, here⟩
    · obtain ⟨i, k, here, mem⟩ := ih later
      exact ⟨i + 1, k, here, mem⟩

/-- The same for a list of users. -/
theorem index_eq_of_mem_sum (distinct : Distinct (l.map held).sum) {i j : Nat} {k k' : κ}
    (here : l[i]? = some k) (there : l[j]? = some k') (mem : a ∈ held k) (mem' : a ∈ held k') :
    i = j := by
  induction l generalizing i j with
  | nil => cases here
  | cons first rest ih =>
    cases i with
    | zero =>
      cases j with
      | zero => rfl
      | succ j =>
        cases here
        rw [List.getElem?_cons_succ] at there
        exact absurd (mem_list_sum held there mem') (distinct.apart mem)
    | succ i =>
      cases j with
      | zero =>
        cases there
        rw [List.getElem?_cons_succ] at here
        exact absurd (mem_list_sum held here mem) (distinct.apart mem')
      | succ j => exact congrArg Nat.succ (ih distinct.right here there)

end Distinct

end Custody
