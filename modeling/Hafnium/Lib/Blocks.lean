import Mathlib.Data.Nat.Basic
import Mathlib.Tactic.Common
import Mathlib.Tactic.Ring

/-! # Consecutive blocks of equal size

An address range that starts at a multiple of `n * size` splits into `n` blocks of `size`
addresses. These lemmas connect the division and remainder that select a block with the interval
the block covers.
-/

namespace Blocks

variable {size n base i a : Nat}

/-- The block number of an address is determined by the block's bounds. -/
theorem div_eq (first : base * size ≤ a) (last : a < (base + 1) * size) : a / size = base := by
  exact Nat.div_eq_of_lt_le first last

/-- The start of the block after the one that contains an address. -/
theorem next_start (first : base * size ≤ a) (last : a < (base + 1) * size) :
    (a + size) / size * size = (base + 1) * size := by
  have here : (base + 1) * size ≤ a + size := by
    rw [Nat.succ_mul]
    omega
  have next : a + size < (base + 1 + 1) * size := by
    rw [Nat.succ_mul (base + 1)]
    omega
  rw [div_eq here next]

/-- The block that contains an address is the one its index selects. -/
theorem index_eq (aligned : base % (n * size) = 0) (bound : i < n) (first : base + i * size ≤ a)
    (last : a < base + (i + 1) * size) : a / size % n = i := by
  obtain ⟨k, rfl⟩ := Nat.dvd_of_mod_eq_zero aligned
  have start (j : Nat) : n * size * k + j * size = (n * k + j) * size := by ring
  rw [start] at first last
  rw [div_eq first last, Nat.mul_add_mod, Nat.mod_eq_of_lt bound]

/-- Index and bounds of the block that contains an address of an aligned range of `n` blocks. -/
theorem index_bounds (aligned : base % (n * size) = 0) (lower : base ≤ a) (upper : a < base + n * size) :
    a / size % n < n ∧ base + a / size % n * size ≤ a ∧ a < base + (a / size % n + 1) * size := by
  have positive : 0 < size := Nat.pos_of_mul_pos_left (show 0 < n * size by omega)
  have offset : a - base < n * size := by omega
  have bound : (a - base) / size < n := Nat.div_lt_of_lt_mul (by rwa [Nat.mul_comm])
  have first : base + (a - base) / size * size ≤ a := by
    have := Nat.div_mul_le_self (a - base) size
    omega
  have last : a < base + ((a - base) / size + 1) * size := by
    have := Nat.lt_div_mul_add (a := a - base) positive
    rw [Nat.succ_mul]
    omega
  rw [index_eq aligned bound first last]
  exact ⟨bound, first, last⟩

end Blocks
