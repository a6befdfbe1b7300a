import Mathlib.Data.List.Basic
import Mathlib.Data.List.Range
import Mathlib.Data.Nat.ModEq
import Mathlib.Logic.Function.Basic

/-! # Periodic cell memory

A region of `period` cells that is addressed at every natural offset, offset
`i` naming cell `i % period`. Mapping one region twice in a row gives such a
memory for the offsets below `2 * period`, and a contiguous window of it may
run over the end of the region.
-/

namespace Gain.Mirror

open Function List

variable {α : Type*} {m n period : Nat}

/-- The `count` cells met from offset `start` on. -/
def window (cells : Nat → α) (period start count : Nat) : List α :=
  (List.range count).map fun i => cells ((start + i) % period)

/-- Store `data` at the successive offsets from `start` on. -/
def fill (cells : Nat → α) (period : Nat) : Nat → List α → Nat → α
  | _, [] => cells
  | start, b :: data => fill (update cells (start % period) b) period (start + 1) data

variable (cells : Nat → α)

@[simp] theorem window_length (period start count : Nat) :
    (window cells period start count).length = count := by
  simp [window]

/-- A window splits at every intermediate offset. -/
theorem window_add (period start m n : Nat) : window cells period start (m + n) =
      window cells period start m ++ window cells period (start + m) n := by
  unfold window
  rw [range_add, map_append, map_map]
  congr 1
  apply map_congr_left
  intro i _
  simp only [comp_apply, Nat.add_assoc]

theorem window_succ (period start n : Nat) : window cells period start (n + 1) =
      cells (start % period) :: window cells period (start + 1) n := by
  rw [Nat.add_comm n 1, window_add]
  rfl

/-- Windows see offsets only up to the period. -/
theorem window_congr {start other : Nat} (count : Nat) (same : start % period = other % period) :
    window cells period start count = window cells period other count := by
  unfold window
  apply map_congr_left
  intro i _
  rw [Nat.add_mod, same, ← Nat.add_mod]

theorem window_mod (period start count : Nat) :
    window cells period (start % period) count = window cells period start count :=
  window_congr cells count (Nat.mod_mod _ _)

theorem window_take (period start : Nat) (le : m ≤ n) :
    (window cells period start n).take m = window cells period start m := by
  obtain ⟨k, rfl⟩ := Nat.exists_eq_add_of_le le
  rw [window_add, take_left' (window_length ..)]

theorem window_drop (period start : Nat) (le : m ≤ n) :
    (window cells period start n).drop m = window cells period (start + m) (n - m) := by
  obtain ⟨k, rfl⟩ := Nat.exists_eq_add_of_le le
  rw [window_add, drop_left' (window_length ..), Nat.add_sub_cancel_left]

theorem fill_mod (period start : Nat) (data : List α) :
    fill cells period (start % period) data = fill cells period start data := by
  induction data generalizing cells start with
  | nil => rfl
  | cons b data ih =>
    rw [fill, fill, Nat.mod_mod, ← ih _ (start % period + 1), ← ih _ (start + 1), Nat.mod_add_mod]

/-- A cell that no stored offset names keeps its value. -/
theorem fill_apply_of_ne (period start : Nat) (data : List α) (cell : Nat)
    (missed : ∀ i < data.length, (start + i) % period ≠ cell) :
    fill cells period start data cell = cells cell := by
  induction data generalizing cells start with
  | nil => rfl
  | cons b data ih =>
    have here : start % period ≠ cell := missed 0 (by simp)
    rw [fill, ih, update_of_ne (Ne.symm here)]
    intro i lt
    have later := missed (i + 1) (by simpa using lt)
    rwa [Nat.add_comm i 1, ← Nat.add_assoc] at later

/-- Two offsets closer than one period name different cells. -/
theorem offset_ne {a b : Nat} (lt : a < b) (near : b < a + period) : a % period ≠ b % period := by
  intro same
  have dvd : period ∣ b - a := (Nat.modEq_iff_dvd' lt.le).mp same
  have := Nat.le_of_dvd (by omega) dvd
  omega

/-- What was stored is read back, as long as it does not lap itself. -/
theorem window_fill_same (cells : Nat → α) (period start : Nat) (data : List α)
    (fits : data.length ≤ period) :
    window (fill cells period start data) period start data.length = data := by
  induction data generalizing cells start with
  | nil => rfl
  | cons b data ih =>
    rw [length_cons, window_succ, fill]
    rw [length_cons] at fits
    congr 1
    · rw [fill_apply_of_ne, update_self]
      intro i lt
      exact Ne.symm (offset_ne (by omega) (by omega))
    · exact ih _ _ (by omega)

/-- A window that the stored offsets do not reach is unchanged. -/
theorem window_fill_of_disjoint (cells : Nat → α) (period start : Nat) (data : List α)
    (from_ count : Nat) (before : from_ + count ≤ start)
    (after : start + data.length ≤ from_ + period) :
    window (fill cells period start data) period from_ count = window cells period from_ count := by
  unfold window
  apply map_congr_left
  intro i member
  rw [mem_range] at member
  apply fill_apply_of_ne
  intro j lt
  exact Ne.symm (offset_ne (by omega) (by omega))

end Gain.Mirror
