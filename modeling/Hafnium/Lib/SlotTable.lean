import Mathlib.Data.Fintype.Basic
import Mathlib.Logic.Function.Basic

/-! # Tables of named slots

A table has a fixed number of slots, each empty or with an entry, and entries have names. While names
are unique, searching the table for a name finds the slot of the entry that has it.
-/

namespace SlotTable

open Function

variable {ι σ ν : Type} {name : σ → ν} {slots slots' : ι → Option σ}

/-- No two slots have entries of the same name. -/
def Unique (name : σ → ν) (slots : ι → Option σ) : Prop :=
  ∀ (i j : ι) (s t : σ), slots i = some s → slots j = some t → name s = name t → i = j

theorem Unique.empty (name : σ → ν) : Unique name (fun _ : ι => none) := nofun

/-- Entries may go, and may change if they keep their names. -/
theorem Unique.of_keeps (unique : Unique name slots)
    (keeps : ∀ i s', slots' i = some s' → ∃ s, slots i = some s ∧ name s' = name s) : Unique name slots' := by
  intro i j s t held held' same
  obtain ⟨s₀, before, sName⟩ := keeps i s held
  obtain ⟨t₀, before', tName⟩ := keeps j t held'
  exact unique i j s₀ t₀ before before' (sName.symm.trans (same.trans tName))

variable {s : σ}

/-- An entry with a fresh name may be added. -/
theorem Unique.update_fresh [DecidableEq ι] (unique : Unique name slots) {i : ι}
    (fresh : ∀ j t, j ≠ i → slots j = some t → name t ≠ name s) : Unique name (update slots i (some s)) := by
  intro j k t u held held' same
  rcases eq_or_ne j i with rfl | jOther
  · rw [update_self] at held
    rcases eq_or_ne k j with rfl | kOther
    · rfl
    · rw [update_of_ne kOther] at held'
      exact absurd (same.symm.trans (congrArg name (Option.some.inj held).symm)) (fresh k u kOther held')
  · rw [update_of_ne jOther] at held
    rcases eq_or_ne k i with rfl | kOther
    · rw [update_self] at held'
      exact absurd (same.trans (congrArg name (Option.some.inj held').symm)) (fresh j t jOther held)
    · rw [update_of_ne kOther] at held'
      exact unique j k t u held held' same

/-- The first slot, in order, whose entry has a name. -/
def scan [DecidableEq ν] {n : Nat} (name : σ → ν) (slots : Fin n → Option σ) (wanted : ν) :
    Option (Fin n × σ) :=
  (List.finRange n).findSome? fun i =>
    match slots i with
    | some s => if name s = wanted then some (i, s) else none
    | none => none

variable {n : Nat} {slots : Fin n → Option σ} {wanted : ν} {i : Fin n}

theorem scan_some [DecidableEq ν] (found : scan name slots wanted = some (i, s)) :
    slots i = some s ∧ name s = wanted := by
  obtain ⟨j, -, here⟩ := List.exists_of_findSome?_eq_some found
  split at here
  · next entry held =>
    split at here
    · next named =>
      cases here
      exact ⟨held, named⟩
    · cases here
  · cases here

/-- With unique names, a search finds an entry exactly if it has the name. -/
theorem scan_eq_some_iff [DecidableEq ν] (unique : Unique name slots)
    : scan name slots wanted = some (i, s) ↔ slots i = some s ∧ name s = wanted := by
  constructor
  · exact scan_some
  · rintro ⟨held, named⟩
    cases result : scan name slots wanted with
    | none =>
      have missed := List.findSome?_eq_none_iff.mp result i (List.mem_finRange i)
      simp [held, named] at missed
    | some other =>
      obtain ⟨j, t⟩ := other
      obtain ⟨held', named'⟩ := scan_some result
      obtain rfl := unique i j s t held held' (named.trans named'.symm)
      rw [Option.some.inj (held.symm.trans held')]

end SlotTable
