import Mathlib.Data.BitVec

/-! # Little-endian fields of a byte sequence -/

namespace LittleEndian

/-- The value of the `n` bytes from `offset` on, the least significant first. -/
def read (bytes : Nat → BitVec 8) (offset : Nat) : (n : Nat) → Nat
  | 0 => 0
  | n + 1 => (bytes offset).toNat + 256 * read bytes (offset + 1) n

def u16 (bytes : Nat → BitVec 8) (offset : Nat) : BitVec 16 := BitVec.ofNat 16 (read bytes offset 2)

def u32 (bytes : Nat → BitVec 8) (offset : Nat) : BitVec 32 := BitVec.ofNat 32 (read bytes offset 4)

def u64 (bytes : Nat → BitVec 8) (offset : Nat) : BitVec 64 := BitVec.ofNat 64 (read bytes offset 8)

variable {bytes : Nat → BitVec 8} {n offset : Nat} {offset' : Nat} {data : Nat → BitVec 8}

/-- A field depends on its own bytes only. -/
theorem read_congr {bytes' : Nat → BitVec 8}
    (same : ∀ k < n, bytes (offset + k) = bytes' (offset' + k)) :
    read bytes offset n = read bytes' offset' n := by
  induction n generalizing offset offset' with
  | zero => rfl
  | succ n ih =>
    have rest : read bytes (offset + 1) n = read bytes' (offset' + 1) n := by
      apply ih
      intro k small
      rw [Nat.add_right_comm, Nat.add_right_comm offset', Nat.add_assoc offset, Nat.add_assoc offset']
      exact same (k + 1) (by omega)
    rw [read, read, rest, show bytes offset = bytes' offset' from same 0 (by omega)]

/-! ## Writing -/

/-- Stores a value in the `n` bytes from `offset` on. -/
def write (bytes : Nat → BitVec 8) (offset n value : Nat) : Nat → BitVec 8 := fun k =>
  if offset ≤ k ∧ k < offset + n then BitVec.ofNat 8 (value / 256 ^ (k - offset)) else bytes k

theorem write_other {value k : Nat} (apart : k < offset ∨ offset + n ≤ k) :
    write bytes offset n value k = bytes k := if_neg (by omega)

/-- A field that has been written. -/
theorem read_write (bytes : Nat → BitVec 8) (offset n value : Nat) :
    read (write bytes offset n value) offset n = value % 256 ^ n := by
  induction n generalizing bytes offset value with
  | zero => rw [read, pow_zero, Nat.mod_one]
  | succ n ih =>
    have first : write bytes offset (n + 1) value offset = BitVec.ofNat 8 value := by
      rw [write, if_pos (by omega), Nat.sub_self, pow_zero, Nat.div_one]
    have rest : read (write bytes offset (n + 1) value) (offset + 1) n = (value / 256) % 256 ^ n := by
      rw [← ih bytes (offset + 1)]
      apply read_congr
      intro k small
      have exponent : offset + 1 + k - offset = k + 1 := by omega
      rw [write, write, if_pos (by omega), if_pos (by omega), exponent, Nat.add_sub_cancel_left,
        Nat.div_div_eq_div_mul, pow_succ']
    rw [read, first, rest, pow_succ', Nat.mod_mul, BitVec.toNat_ofNat]

/-- A field that lies apart from what has been written. -/
theorem read_write_other {value n' : Nat} (apart : offset' + n' ≤ offset ∨ offset + n ≤ offset') :
    read (write bytes offset n value) offset' n' = read bytes offset' n' := by
  apply read_congr
  intro k small
  exact write_other (by omega)

theorem u16_write (bytes : Nat → BitVec 8) (offset : Nat) (value : BitVec 16) :
    u16 (write bytes offset 2 value.toNat) offset = value := by
  have size : 256 ^ 2 = 2 ^ 16 := by decide
  rw [u16, read_write, size, Nat.mod_eq_of_lt value.isLt, BitVec.ofNat_toNat, BitVec.setWidth_eq]

theorem u32_write (bytes : Nat → BitVec 8) (offset : Nat) (value : BitVec 32) :
    u32 (write bytes offset 4 value.toNat) offset = value := by
  have size : 256 ^ 4 = 2 ^ 32 := by decide
  rw [u32, read_write, size, Nat.mod_eq_of_lt value.isLt, BitVec.ofNat_toNat, BitVec.setWidth_eq]

theorem u64_write (bytes : Nat → BitVec 8) (offset : Nat) (value : BitVec 64) :
    u64 (write bytes offset 8 value.toNat) offset = value := by
  have size : 256 ^ 8 = 2 ^ 64 := by decide
  rw [u64, read_write, size, Nat.mod_eq_of_lt value.isLt, BitVec.ofNat_toNat, BitVec.setWidth_eq]

/-- Copies `n` bytes to `offset` from `source` on. -/
def copy (bytes : Nat → BitVec 8) (offset : Nat) (data : Nat → BitVec 8) (source n : Nat) :
    Nat → BitVec 8 := fun k =>
  if offset ≤ k ∧ k < offset + n then data (source + (k - offset)) else bytes k

/-- A field that has been copied. -/
theorem read_copy {source d w : Nat} (inside : d + w ≤ n) :
    read (copy bytes offset data source n) (offset + d) w = read data (source + d) w := by
  apply read_congr
  intro k small
  have place : offset + d + k - offset = d + k := by omega
  rw [copy, if_pos (by omega), place, Nat.add_assoc]

/-- A field in front of what has been copied. -/
theorem read_copy_before {source d w : Nat} (before : d + w ≤ offset) :
    read (copy bytes offset data source n) d w = read bytes d w := by
  apply read_congr
  intro k small
  exact if_neg (by omega)

end LittleEndian
