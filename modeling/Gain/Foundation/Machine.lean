import Mathlib.Algebra.Group.Int.Defs
import Mathlib.Algebra.Group.Nat.Defs
import Mathlib.Data.Int.Basic

/-! # Machine integers

Counters and conversions that come round: an `int32` that is added to, and the passage
between a 64-bit unsigned number and a signed one.
-/

namespace Gain

/-- `atomic.AddInt32` -/
def addInt32 (x delta : Int) : Int := (x + delta).bmod (2 ^ 32)

theorem addInt32_of_range {x delta : Int} (low : -2 ^ 31 ≤ x + delta) (high : x + delta < 2 ^ 31) :
    addInt32 x delta = x + delta := by
  apply Int.bmod_eq_of_le
  · omega
  · omega

theorem addInt32_lt (x delta : Int) : addInt32 x delta < 2 ^ 31 :=
  Int.bmod_lt (m := 2 ^ 32) (by decide)

/-- A counter that has come round goes on as the number it stands for. -/
theorem addInt32_bmod (x delta : Int) :
    addInt32 (x.bmod (2 ^ 32)) delta = (x + delta).bmod (2 ^ 32) := Int.bmod_add_bmod

variable {n : Nat}

/-- The counter of something shows how many there are exactly as long as an `int32` can. -/
theorem bmod_eq_iff : (n : Int).bmod (2 ^ 32) = n ↔ n < 2 ^ 31 := by
  constructor
  · intro same
    have high : (n : Int).bmod (2 ^ 32) < ((2 ^ 32 : Nat) + 1) / 2 := Int.bmod_lt (by decide)
    omega
  · intro few
    apply Int.bmod_eq_of_le <;> omega

/-- A `uint64` as an `int`. -/
def toInt64 (n : Nat) : Int := if n < 2 ^ 63 then n else n - 2 ^ 64

/-- An `int` as a `uint64`. -/
def toUint64 (x : Int) : Nat := (x % 2 ^ 64).toNat

theorem toInt64_of_lt (small : n < 2 ^ 63) : toInt64 n = n := if_pos small

/-- The upper half of the unsigned numbers are negative ones. -/
theorem lt_of_toInt64_nonneg (fits : n < 2 ^ 64) (nonneg : 0 ≤ toInt64 n) : n < 2 ^ 63 := by
  by_contra large
  unfold toInt64 at nonneg
  rw [if_neg large] at nonneg
  omega

end Gain
