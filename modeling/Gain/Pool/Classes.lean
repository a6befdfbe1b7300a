import Mathlib.Algebra.Group.Action.Defs
import Mathlib.Algebra.Order.BigOperators.Group.List
import Mathlib.Algebra.Order.Group.Nat
import Mathlib.Data.Nat.Size
import Mathlib.Order.Bounds.Basic
import Gain.Foundation.Run
import Gain.Pool.Calibrate

/-! # The classes of capacity

`indexRingBufferPool` finds the class of a buffer by halving its number of pages. A
`Put` counts the buffer in its class and calibrates as soon as a count passes the
threshold, so that the counts a calibration adds up are always small.
-/

namespace Gain.Calibration

open Function List Option

/-- The loop of `indexRingBufferPool`. -/
def halvings (n : Int) (idx : Nat) : Nat :=
  if n > 0 then halvings (n >>> (1 : Nat)) (idx + 1) else idx
termination_by n.toNat
decreasing_by
  rw [Int.shiftRight_eq_div_pow]
  omega

/-- `indexRingBufferPool` -/
def indexRingBufferPool (n : Int) : Nat :=
  let idx := halvings ((n - 1) >>> (12 : Nat)) 0
  if idx ≥ 15 then 14 else idx

theorem size_eq_succ {n : Nat} (pos : 0 < n) : n.size = (n / 2).size + 1 := by
  have split : Nat.bit n.bodd (n / 2) = n := by
    rw [← Nat.div2_val]
    exact Nat.bit_bodd_div2 n
  have digits := Nat.size_bit (show Nat.bit n.bodd (n / 2) ≠ 0 by omega)
  rwa [split] at digits

/-- The loop counts the binary digits. -/
theorem halvings_natCast (n idx : Nat) : halvings n idx = idx + n.size := by
  induction n using Nat.strong_induction_on generalizing idx with
  | _ n ih =>
    rw [halvings]
    rcases Nat.eq_zero_or_pos n with rfl | pos
    · rw [if_neg (by decide), Nat.size_zero, Nat.add_zero]
    · have half : ((n : Int) >>> (1 : Nat)) = ((n / 2 : Nat) : Int) := by
        rw [Int.shiftRight_eq_div_pow]
        omega
      rw [if_pos (Int.natCast_pos.mpr pos), half, ih (n / 2) (by omega), size_eq_succ pos]
      omega

variable {n : Int}

/-- A capacity of at most `minSize << k` has at most `k` halvings. -/
theorem halvings_le_iff (pos : 1 ≤ n) (k : Nat) :
    halvings ((n - 1) >>> (12 : Nat)) 0 ≤ k ↔ n ≤ (minSize <<< k : Nat) := by
  obtain ⟨m, rfl⟩ : ∃ m : Nat, n = m + 1 := ⟨(n - 1).toNat, by omega⟩
  have pages : ((m + 1 - 1 : Int) >>> (12 : Nat)) = ((m / 4096 : Nat) : Int) := by
    rw [Int.shiftRight_eq_div_pow]
    omega
  have size : minSize <<< k = 4096 * 2 ^ k := by
    rw [Nat.shiftLeft_eq]
    rfl
  rw [pages, halvings_natCast, Nat.zero_add, Nat.size_le, size, Nat.div_lt_iff_lt_mul (by decide)]
  omega

theorem indexRingBufferPool_lt (n : Int) : indexRingBufferPool n < 15 := by
  unfold indexRingBufferPool
  dsimp only
  split_ifs <;> omega

theorem indexRingBufferPool_of_nonpos (nonpos : n ≤ 0) : indexRingBufferPool n = 0 := by
  have negative : ¬ (n - 1) >>> (12 : Nat) > 0 := by
    rw [Int.shiftRight_eq_div_pow]
    omega
  unfold indexRingBufferPool
  rw [halvings, if_neg negative]
  rfl

/-- Up to the greatest class the index is bounded by exactly the classes that hold the capacity. -/
theorem indexRingBufferPool_le_iff (pos : 1 ≤ n) {k : Nat} (lt : k < 14) :
    indexRingBufferPool n ≤ k ↔ n ≤ (minSize <<< k : Nat) := by
  rw [← halvings_le_iff pos]
  unfold indexRingBufferPool
  dsimp only
  split_ifs <;> omega

theorem indexRingBufferPool_mono {m : Int} (le : n ≤ m) :
    indexRingBufferPool n ≤ indexRingBufferPool m := by
  rcases lt_or_ge 0 n with pos | nonpos
  · have bound := indexRingBufferPool_lt n
    by_cases top : 14 ≤ indexRingBufferPool m
    · omega
    · have fits := (indexRingBufferPool_le_iff (by omega) (by omega)).mp
        (le_refl (indexRingBufferPool m))
      exact (indexRingBufferPool_le_iff pos (by omega)).mpr (le.trans fits)
  · rw [indexRingBufferPool_of_nonpos nonpos]
    exact Nat.zero_le _

/-- The index is the smallest class that holds the capacity, or the greatest one when none does;
it grows with the capacity and is always one of the counters. -/
theorem indexRingBufferPool_least :
    (∀ n : Int, 1 ≤ n →
      (n ≤ (minSize <<< 14 : Nat) →
        IsLeast {i : Nat | i ≤ 14 ∧ n ≤ (minSize <<< i : Nat)} (indexRingBufferPool n)) ∧
      ((minSize <<< 14 : Nat) < n → indexRingBufferPool n = 14)) ∧
    (∀ n m : Int, n ≤ m → indexRingBufferPool n ≤ indexRingBufferPool m) ∧
    ∀ n, indexRingBufferPool n < 15 := by
  refine ⟨fun n pos => ?_, fun n m => indexRingBufferPool_mono, indexRingBufferPool_lt⟩
  have bound := indexRingBufferPool_lt n
  have fits : indexRingBufferPool n < 14 → n ≤ (minSize <<< indexRingBufferPool n : Nat) :=
    fun lt => (indexRingBufferPool_le_iff pos lt).mp le_rfl
  constructor
  · intro small
    refine ⟨⟨by omega, ?_⟩, ?_⟩
    · rcases Nat.lt_or_ge (indexRingBufferPool n) 14 with lt | top
      · exact fits lt
      · rw [show indexRingBufferPool n = 14 by omega]
        exact small
    · rintro i ⟨le, holds⟩
      rcases Nat.lt_or_ge i 14 with lt | top
      · exact (indexRingBufferPool_le_iff pos lt).mpr holds
      · omega
  · intro large
    by_contra other
    have shift : minSize <<< indexRingBufferPool n ≤ minSize <<< 14 := by
      rw [Nat.shiftLeft_eq, Nat.shiftLeft_eq]
      exact Nat.mul_le_mul_left _ (Nat.pow_le_pow_right (by decide) (by omega))
    have := fits (by omega)
    omega

/-- One byte more than two pages takes four. -/
theorem indexRingBufferPool_least_three : indexRingBufferPool 8193 = 2 := by
  have least := (indexRingBufferPool_least.1 8193 (by decide)).1 (by decide)
  refine least.unique ⟨⟨by decide, by decide⟩, ?_⟩
  rintro i ⟨_, holds⟩
  by_contra less
  obtain rfl | rfl : i = 0 ∨ i = 1 := by omega
  · exact absurd holds (by decide)
  · exact absurd holds (by decide)

/-! ## Counting -/

/-- `calibrateCallsThreshold` -/
def calibrateCallsThreshold : Nat := 42000

/-- `p.calls[idx]`, undefined out of range. -/
def counter? (idx : Nat) : Option (Fin 15) := if lt : idx < 15 then some ⟨idx, lt⟩ else none

namespace Pool

variable {sort : List CallSize → List CallSize} {p p' : Pool}

/-- `NewRingBufferPool` -/
def newRingBufferPool (pageSize : Nat) : Pool := ⟨fun _ => 0, 0, pageSize, 0⟩

/-- `atomic.AddUint64(&p.calls[idx], 1)` -/
def count (p : Pool) (idx : Fin 15) : Pool :=
  { p with calls := update p.calls idx ((p.calls idx + 1) % 2 ^ 64) }

theorem count_self (p : Pool) (idx : Fin 15) :
    (p.count idx).calls idx = (p.calls idx + 1) % 2 ^ 64 := update_self ..

theorem count_of_ne (p : Pool) {idx i : Fin 15} (other : i ≠ idx) :
    (p.count idx).calls i = p.calls i := update_of_ne other ..

/-- `Put` of a buffer of some capacity, with whether the buffer is kept. -/
def put (sort : List CallSize → List CallSize) (p : Pool) (cap : Int) : Option (Pool × Bool) := do
  let idx ← counter? (indexRingBufferPool cap)
  let p := p.count idx
  let p ← if p.calls idx > calibrateCallsThreshold then p.calibrate sort else some p
  return (p, p.maxSize = 0 ∨ cap ≤ p.maxSize)

/-- No counter has passed the threshold and nobody calibrates. -/
structure Counting (p : Pool) : Prop where
  calls : ∀ i, p.calls i ≤ calibrateCallsThreshold
  idle : p.calibrating = 0

theorem newRingBufferPool_counting (pageSize : Nat) : (newRingBufferPool pageSize).Counting :=
  ⟨fun _ => Nat.zero_le _, rfl⟩

theorem total_callData_le {bound : Nat} (small : ∀ i, p.calls i ≤ bound) :
    total p.callData ≤ 15 * bound := by
  have each : ∀ n ∈ p.callData.map CallSize.calls, n ≤ bound := by
    intro n member
    obtain ⟨c, inside, rfl⟩ := mem_map.mp member
    obtain ⟨i, rfl⟩ := mem_callData.mp inside
    exact small i
  have sum := sum_le_card_nsmul _ bound each
  rwa [length_map, length_callData, smul_eq_mul] at sum

/-- After one more call a counter is at most one past the threshold. -/
theorem Counting.count (counting : p.Counting) (idx : Fin 15) :
    ∀ i, (p.count idx).calls i ≤ calibrateCallsThreshold + 1 := by
  intro i
  by_cases same : i = idx
  · subst same
    have := counting.calls i
    rw [count_self]
    exact (Nat.mod_le _ _).trans (by omega)
  · rw [count_of_ne p same]
    exact (counting.calls i).trans (Nat.le_succ _)

/-- A `Put` finds its counter and leaves the counters below the threshold; when it calibrates, the
sizes are those that calibration is for. -/
theorem Counting.put (counting : p.Counting) (sorts : Sorts sort) (cap : Int) :
    ∃ idx p', counter? (indexRingBufferPool cap) = some idx ∧
      p.put sort cap = some (p', decide (p'.maxSize = 0 ∨ cap ≤ p'.maxSize)) ∧ p'.Counting ∧
      (p' = p.count idx ∨ Calibrated (p.count idx) p') := by
  have found : counter? (indexRingBufferPool cap) = some ⟨_, indexRingBufferPool_lt cap⟩ :=
    dif_pos (indexRingBufferPool_lt cap)
  generalize (⟨_, indexRingBufferPool_lt cap⟩ : Fin 15) = idx at found
  have small := counting.count idx
  by_cases passed : (p.count idx).calls idx > calibrateCallsThreshold
  · have fits : total (p.count idx).callData < 2 ^ 64 :=
      (total_callData_le small).trans_lt (by decide)
    obtain ⟨p', done, calibrated⟩ :=
      calibrate_of_idle sorts (show (p.count idx).calibrating = 0 from counting.idle) fits
    refine ⟨idx, p', found, ?_, ⟨fun i => ?_, calibrated.finished⟩, .inr calibrated⟩
    · simp only [Pool.put, found, bind_eq_bind, bind_some, if_pos passed, done]
      rfl
    · rw [calibrated.cleared i]
      exact Nat.zero_le _
  · refine ⟨idx, p.count idx, found, ?_, ⟨fun i => ?_, counting.idle⟩, .inl rfl⟩
    · simp only [Pool.put, found, bind_eq_bind, bind_some, if_neg passed]
      rfl
    · by_cases same : i = idx
      · subst same
        exact not_lt.mp passed
      · rw [count_of_ne p same]
        exact counting.calls i

/-- Any number of buffers of any capacities can be put back. -/
theorem run_counting (sorts : Sorts sort) (pageSize : Nat) (caps : List Int) :
    ∃ p', run (fun p cap => (put sort p cap).map Prod.fst) caps (newRingBufferPool pageSize) =
      some p' ∧ p'.Counting := by
  have ahead : ∀ p : Pool, p.Counting →
      ∃ p', run (fun p cap => (put sort p cap).map Prod.fst) caps p = some p' ∧ p'.Counting := by
    induction caps with
    | nil => exact fun p counting => ⟨p, rfl, counting⟩
    | cons cap caps ih =>
      intro p counting
      obtain ⟨_, p₁, _, done, after, _⟩ := counting.put sorts cap
      obtain ⟨p', ran, last⟩ := ih p₁ after
      refine ⟨p', ?_, last⟩
      rw [run, done]
      exact ran
  exact ahead _ (newRingBufferPool_counting pageSize)

theorem run_counting_mixed : ∃ p', run (fun p cap => (put byCalls p cap).map Prod.fst)
    [4096, 0, 2 ^ 40, 100000] (newRingBufferPool 4096) = some p' ∧ p'.Counting :=
  run_counting byCalls_sorts 4096 [4096, 0, 2 ^ 40, 100000]

end Pool

end Gain.Calibration
