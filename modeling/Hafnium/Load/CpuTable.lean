import Mathlib.Data.List.Nodup
import Mathlib.Logic.Function.Basic

/-! # The table of the CPUs

`cpu_module_init` gets the IDs of the configuration in any order. It fills the table from the back,
except that the boot CPU, which runs already, stays in the first slot. If the boot CPU is not
listed, then it replaces the last CPU of the list.
-/

namespace Hafnium.Load

open Function

abbrev CpuId := BitVec 64

/-- A slot of the table. A stack is given by its index; a slot that is not initialised has none. -/
structure Cpu where
  id : CpuId := 0
  stackBottom : Option Nat := none
  locked : Bool := false

structure CpuTable where
  cpus : Nat → Cpu
  cpuCount : Nat := 1

/-- The variables of the loop of `cpu_module_init`. -/
structure InitLoop where
  cpus : Nat → Cpu
  j : Nat
  foundBootCpu : Bool := false

/-- One round of the loop. It gives nothing if the CHECK fails or the slot is not in the table. -/
def InitLoop.step (maxCpus : Nat) (bootCpuId : CpuId) (s : InitLoop) (id : CpuId) : Option InitLoop :=
  if s.foundBootCpu = true ∨ id ≠ bootCpuId then
    if 0 < s.j ∧ s.j ≤ maxCpus then
      let j := s.j - 1
      some { s with cpus := update s.cpus j { id, stackBottom := some j }, j }
    else none
  else if (s.cpus 0).stackBottom = some 0 then
    some { s with cpus := update s.cpus 0 { s.cpus 0 with id, locked := false }, foundBootCpu := true }
  else none

def cpuModuleInit (maxCpus : Nat) (t : CpuTable) (cpuIds : List CpuId) : Option CpuTable := do
  let bootCpuId := (t.cpus 0).id
  let s ← cpuIds.foldlM (InitLoop.step maxCpus bootCpuId) { cpus := t.cpus, j := cpuIds.length }
  let cpus := if s.foundBootCpu then s.cpus else update s.cpus 0 { s.cpus 0 with id := bootCpuId }
  some { cpus, cpuCount := cpuIds.length }

/-- The index of the CPU with an ID. -/
def cpuFind (t : CpuTable) (id : CpuId) : Option Nat :=
  (List.range t.cpuCount).find? fun i => (t.cpus i).id = id

/-! ## The loop -/

variable {maxCpus n : Nat} {boot id : CpuId} {done ids : List CpuId} {s : InitLoop} {t : CpuTable}

/-- The state of the loop after some of the IDs: all of them but the boot CPU's are at the back. -/
structure Filled (n : Nat) (boot : CpuId) (done : List CpuId) (s : InitLoop) : Prop where
  found : s.foundBootCpu = true ↔ boot ∈ done
  next : s.j + (done.erase boot).length = n
  bottoms (i : Nat) (filled : i = 0 ∨ s.j ≤ i ∧ i < n) : (s.cpus i).stackBottom = some i
  slots (k : Nat) (placed : k < (done.erase boot).length) :
    (done.erase boot)[k]? = some (s.cpus (n - 1 - k)).id
  first (listed : boot ∈ done) : (s.cpus 0).id = boot

/-- A CPU other than the boot CPU goes to the last free slot, which is not the first if the boot CPU
was found. -/
theorem Filled.place (filled : Filled n boot done s) (other : s.foundBootCpu = true ∨ id ≠ boot)
    (room : done.length < n) (fits : n ≤ maxCpus) :
    ∃ s', s.step maxCpus boot id = some s' ∧ Filled n boot (done ++ [id]) s' := by
  have next := filled.next
  have shorter := List.length_erase_le (a := boot) (l := done)
  have different (missing : boot ∉ done) : boot ≠ id :=
    Ne.symm (other.resolve_left (mt filled.found.mp missing))
  have member : boot ∈ done ++ [id] ↔ boot ∈ done := by
    by_cases listed : boot ∈ done
    · simp [listed]
    · simp [listed, different listed]
  have erased : (done ++ [id]).erase boot = done.erase boot ++ [id] := by
    by_cases listed : boot ∈ done
    · exact List.erase_append_left _ listed
    · rw [List.erase_of_not_mem (mt member.mp listed), List.erase_of_not_mem listed]
  refine ⟨_, by rw [InitLoop.step, if_pos other, if_pos ⟨by omega, by omega⟩], ?_, ?_, ?_, ?_, ?_⟩
    <;> dsimp only
  · rw [filled.found, member]
  · rw [erased, List.length_append, List.length_singleton]
    omega
  · intro i within
    by_cases here : i = s.j - 1
    · rw [here, update_self]
    · rw [update_of_ne here]
      exact filled.bottoms i (by omega)
  · intro k placed
    rw [erased, List.length_append, List.length_singleton] at placed
    rw [erased]
    by_cases last : k = (done.erase boot).length
    · have here : n - 1 - k = s.j - 1 := by omega
      rw [last, List.getElem?_concat_length, ← last, here, update_self]
    · rw [List.getElem?_append_left (by omega), update_of_ne (by omega)]
      exact filled.slots k (by omega)
  · intro listed
    have before := member.mp listed
    have erasedOne := List.length_erase_of_mem before
    have positive := List.length_pos_of_mem before
    rw [update_of_ne (by omega)]
    exact filled.first before

/-- The boot CPU keeps its slot, which no other CPU was given. -/
theorem Filled.find (filled : Filled n boot done s) (missing : boot ∉ done) (room : done.length < n) :
    ∃ s', s.step maxCpus boot boot = some s' ∧ Filled n boot (done ++ [boot]) s' := by
  have notFound : ¬(s.foundBootCpu = true ∨ boot ≠ boot) := by simpa using mt filled.found.mp missing
  have erased : (done ++ [boot]).erase boot = done.erase boot := by
    rw [List.erase_append_right _ missing, List.erase_of_not_mem missing]
    simp
  have shorter := List.length_erase_le (a := boot) (l := done)
  refine ⟨_, by rw [InitLoop.step, if_neg notFound, if_pos (filled.bottoms 0 (.inl rfl))], by simp,
    by rw [erased, filled.next], ?_, ?_, fun _ => rfl⟩ <;> dsimp only
  · intro i within
    have stack := filled.bottoms i within
    by_cases first : i = 0
    · subst first
      exact stack
    · rw [update_of_ne first, stack]
  · intro k placed
    rw [erased] at placed ⊢
    rw [update_of_ne (by omega)]
    exact filled.slots k placed

theorem Filled.run (rest : List CpuId) (filled : Filled n boot done s)
    (count : done.length + rest.length = n) (fits : n ≤ maxCpus) :
    ∃ s', rest.foldlM (InitLoop.step maxCpus boot) s = some s' ∧ Filled n boot (done ++ rest) s' := by
  induction rest generalizing done s with
  | nil => exact ⟨s, rfl, by rwa [List.append_nil]⟩
  | cons id rest ih =>
    rw [List.length_cons] at count
    obtain ⟨s₁, stepped, filled₁⟩ : ∃ s₁, s.step maxCpus boot id = some s₁ ∧
        Filled n boot (done ++ [id]) s₁ := by
      by_cases other : s.foundBootCpu = true ∨ id ≠ boot
      · exact filled.place other (by omega) fits
      · obtain ⟨notFound, same⟩ := not_or.mp other
        rw [not_not.mp same]
        exact filled.find (mt filled.found.mpr notFound) (by omega)
    obtain ⟨s', ran, filled'⟩ := ih filled₁ (by rw [List.length_append, List.length_singleton]; omega)
    rw [List.append_assoc] at filled'
    exact ⟨s', by rw [List.foldlM_cons, stepped]; exact ran, filled'⟩

/-! ## The table -/

/-- What `cpu_module_init` makes of a table. -/
structure Initialised (t t' : CpuTable) (ids : List CpuId) : Prop where
  count : t'.cpuCount = ids.length
  boot : (t'.cpus 0).id = (t.cpus 0).id
  bottoms (i : Nat) (inside : i < ids.length) : (t'.cpus i).stackBottom = some i
  distinct (i k : Nat) (inside : i < ids.length) (inside' : k < ids.length)
    (same : (t'.cpus i).id = (t'.cpus k).id) : i = k
  listed (found : (t.cpus 0).id ∈ ids) (id : CpuId) (member : id ∈ ids) : ∃! i, i < ids.length ∧
    (t'.cpus i).id = id
  find (i : Nat) (inside : i < ids.length) : cpuFind t' (t'.cpus i).id = some i

theorem cpuFind_of_distinct
    (distinct : ∀ i k, i < t.cpuCount → k < t.cpuCount → (t.cpus i).id = (t.cpus k).id → i = k)
    (i : Nat) (inside : i < t.cpuCount) : cpuFind t (t.cpus i).id = some i := by
  cases found : cpuFind t (t.cpus i).id with
  | none =>
    have missing := List.find?_eq_none.mp found i (List.mem_range.mpr inside)
    simp at missing
  | some k =>
    have member := List.mem_range.mp (List.mem_of_find?_eq_some found)
    have same := List.find?_some found
    rw [distinct i k inside member (of_decide_eq_true same).symm]

/-- For every list of distinct IDs that fits into the table, in any order and with or without the
boot CPU, the initialisation returns, and the table that it leaves has one CPU in each slot. -/
theorem cpu_module_init_correct (t : CpuTable) (stack : (t.cpus 0).stackBottom = some 0) (ids : List CpuId)
    (nonempty : ids ≠ []) (fits : ids.length ≤ maxCpus) (nodup : ids.Nodup) :
    ∃ t', cpuModuleInit maxCpus t ids = some t' ∧ Initialised t t' ids := by
  have positive := List.length_pos_of_ne_nil nonempty
  have start : Filled ids.length (t.cpus 0).id [] { cpus := t.cpus, j := ids.length } :=
    ⟨by simp, rfl, fun i within => by
      rcases within with rfl | past
      · exact stack
      · dsimp only at past
        omega, nofun, nofun⟩
  obtain ⟨s, ran, filled⟩ := start.run ids (by simp) fits
  rw [List.nil_append] at filled
  generalize bootEq : (t.cpus 0).id = boot at ran filled
  let cpus := if s.foundBootCpu then s.cpus else update s.cpus 0 { s.cpus 0 with id := boot }
  have returned : cpuModuleInit maxCpus t ids = some { cpus, cpuCount := ids.length } := by
    rw [cpuModuleInit, bootEq, ran]
    rfl
  have first : (cpus 0).id = boot := by
    by_cases found : s.foundBootCpu = true
    · simpa [cpus, found] using filled.first (filled.found.mp found)
    · simp [cpus, found]
  have others (i : Nat) (behind : i ≠ 0) : cpus i = s.cpus i := by
    by_cases found : s.foundBootCpu = true <;> simp [cpus, found, behind]
  have next := filled.next
  have length : ids.length - 1 ≤ (ids.erase boot).length := List.le_length_erase
  have slot (i : Nat) (behind : i ≠ 0) (inside : i < ids.length) :
      (ids.erase boot)[ids.length - 1 - i]? = some (cpus i).id := by
    rw [filled.slots _ (by omega), others i behind, show ids.length - 1 - (ids.length - 1 - i) = i by omega]
  have notBoot (i : Nat) (behind : i ≠ 0) (inside : i < ids.length) : (cpus i).id ≠ boot := by
    intro same
    exact nodup.not_mem_erase (same ▸ List.mem_of_getElem? (slot i behind inside))
  have distinct (i k : Nat) (inside : i < ids.length) (inside' : k < ids.length)
      (same : (cpus i).id = (cpus k).id) : i = k := by
    by_cases zero : i = 0
    · by_contra different
      rw [zero, first] at same
      exact notBoot k (by omega) inside' same.symm
    · by_cases zero' : k = 0
      · rw [zero', first] at same
        exact absurd same (notBoot i zero inside)
      · have equal := (slot i zero inside).trans ((congrArg some same).trans (slot k zero' inside').symm)
        have := (List.getElem?_inj (by omega) (nodup.erase boot)).mp equal
        omega
  refine ⟨_, returned, rfl, first.trans bootEq.symm, ?_, distinct, ?_,
    fun i => cpuFind_of_distinct (t := ⟨cpus, ids.length⟩) distinct i⟩
  · intro i inside
    by_cases zero : i = 0
    · subst zero
      have bottom := filled.bottoms 0 (.inl rfl)
      by_cases found : s.foundBootCpu = true <;> simp [cpus, found, bottom]
    · dsimp only
      rw [others i zero]
      exact filled.bottoms i (.inr ⟨by omega, inside⟩)
  · intro listed id member
    rw [bootEq] at listed
    have holds : ∃ i < ids.length, (cpus i).id = id := by
      by_cases same : id = boot
      · exact ⟨0, positive, first.trans same.symm⟩
      · obtain ⟨k, inside, here⟩ := List.getElem_of_mem ((List.mem_erase_of_ne same).mpr member)
        have erased := List.length_erase_of_mem listed
        have found := slot (ids.length - 1 - k) (by omega) (by omega)
        rw [show ids.length - 1 - (ids.length - 1 - k) =
          k by omega, List.getElem?_eq_getElem inside, here] at found
        exact ⟨_, by omega, (Option.some.inj found).symm⟩
    obtain ⟨i, inside, here⟩ := holds
    exact ⟨i, ⟨inside, here⟩, fun k other => distinct k i other.1 inside (other.2.trans here.symm)⟩

theorem cpu_module_init_three_cpus :
    ∃ t', cpuModuleInit 4 { cpus := fun _ => { id := 2, stackBottom := some 0 } } [1, 2, 3] = some t' ∧
      Initialised { cpus := fun _ => { id := 2, stackBottom := some 0 } } t' [1, 2, 3] :=
  cpu_module_init_correct _ rfl _ (by decide) (by decide) (by decide)

end Hafnium.Load
