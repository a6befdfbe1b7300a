import Mathlib.Algebra.BigOperators.Group.List.Basic
import Mathlib.Algebra.Ring.Nat
import Mathlib.Algebra.Order.Monoid.Canonical.Basic
import Mathlib.Data.List.FinRange
import Mathlib.Data.List.Sort
import Mathlib.Tactic.SplitIfs

/-! # Calibration of the ring buffer pool

`ringbuffer.Pool` counts the buffers put back in fifteen classes of capacity. When a
count passes a threshold, `calibrate` makes the most frequent class the default and
keeps buffers up to the largest of the classes that make up 95% of the calls.
-/

namespace Gain.Calibration

open List

/-- `callSize` -/
structure CallSize where
  calls : Nat
  size : Nat
  deriving DecidableEq

/-- The counters of a `ringbuffer.Pool` and the sizes chosen from them. -/
structure Pool where
  calls : Fin 15 → Nat
  calibrating : Nat
  defaultSize : Nat
  maxSize : Nat

/-- `minSize` -/
def minSize : Nat := 1 <<< 12

/-- The calls of some classes. -/
def total (data : List CallSize) : Nat := (data.map CallSize.calls).sum

/-- The sum of the counters in a `uint64`. -/
def sumCalls (data : List CallSize) : Nat :=
  data.foldl (fun callsSum c => (callsSum + c.calls) % 2 ^ 64) 0

/-- `sort.Sort` leaves a permutation that is sorted by `Less`, with ties in any order. -/
structure Sorts (sort : List CallSize → List CallSize) : Prop where
  perm (data : List CallSize) : (sort data).Perm data
  sorted (data : List CallSize) : (sort data).Pairwise fun a b => ¬ b.calls > a.calls

/-- The loop that looks for the greatest size. -/
def select (maxSum : Nat) : (data : List CallSize) → (callsSum maxSize : Nat) → Nat
  | [], _, maxSize => maxSize
  | c :: data, callsSum, maxSize =>
    if callsSum > maxSum then maxSize
    else select maxSum data ((callsSum + c.calls) % 2 ^ 64)
      (if c.size > maxSize then c.size else maxSize)

namespace Pool

/-- The classes with their counts. -/
def callData (p : Pool) : List CallSize :=
  (List.finRange 15).map fun i => ⟨p.calls i, minSize <<< i.val⟩

/-- `calibrate`; the product with `maxPercentile` is exact. -/
def calibrate (sort : List CallSize → List CallSize) (p : Pool) : Option Pool :=
  if p.calibrating ≠ 0 then some p
  else do
    let callsSum := sumCalls p.callData
    let callData := sort p.callData
    let first ← callData.head?
    let maxSum := 95 * callsSum / 100
    let maxSize := select maxSum callData 0 first.size
    return ⟨fun _ => 0, 0, first.size, maxSize⟩

end Pool

variable {c : CallSize} {k size : Nat}

section
variable {data : List CallSize} {maxSum callsSum maxSize : Nat}

theorem total_cons (c : CallSize) (data : List CallSize) :
    total (c :: data) = c.calls + total data := sum_cons

theorem total_append (first second : List CallSize) :
    total (first ++ second) = total first + total second := by
  rw [total, map_append, sum_append]
  rfl

theorem total_take_le (data : List CallSize) (k : Nat) : total (data.take k) ≤ total data := by
  have split := total_append (data.take k) (data.drop k)
  rw [take_append_drop] at split
  omega

theorem total_perm {data' : List CallSize} (perm : data.Perm data') : total data = total data' :=
  (perm.map CallSize.calls).sum_eq

theorem sumCalls_eq (fits : total data < 2 ^ 64) : sumCalls data = total data := by
  have ahead : ∀ start, start + total data < 2 ^ 64 →
      data.foldl (fun callsSum c => (callsSum + c.calls) % 2 ^ 64) start = start + total data := by
    clear fits
    induction data with
    | nil => exact fun start _ => rfl
    | cons c data ih =>
      intro start fits
      rw [total_cons] at fits ⊢
      rw [foldl_cons, Nat.mod_eq_of_lt (by omega), ih _ (by omega)]
      omega
  rw [sumCalls, ahead 0 (by omega), Nat.zero_add]

/-- The loop stops behind the shortest part of the list whose sum exceeds the bound. -/
structure Selected (maxSum callsSum maxSize : Nat) (data : List CallSize) (k size : Nat) :
    Prop where
  le : k ≤ data.length
  exceeds : k < data.length → maxSum < callsSum + total (data.take k)
  shortest : ∀ j < k, callsSum + total (data.take j) ≤ maxSum
  start : maxSize ≤ size
  greatest : ∀ c ∈ data.take k, c.size ≤ size
  found : size = maxSize ∨ ∃ c ∈ data.take k, c.size = size

theorem Selected.cons (on : callsSum ≤ maxSum)
    (later : Selected maxSum (callsSum + c.calls) (if c.size > maxSize then c.size else maxSize)
      data k size) : Selected maxSum callsSum maxSize (c :: data) (k + 1) size := by
  have bounds : maxSize ≤ size ∧ c.size ≤ size := by
    have start := later.start
    split_ifs at start <;> omega
  refine ⟨Nat.succ_le_succ later.le, fun lt => ?_, fun j lt => ?_, bounds.1, fun d member => ?_, ?_⟩
  · rw [take_succ_cons, total_cons, ← Nat.add_assoc]
    exact later.exceeds (Nat.lt_of_succ_lt_succ lt)
  · cases j with
    | zero => exact on
    | succ j =>
      rw [take_succ_cons, total_cons, ← Nat.add_assoc]
      exact later.shortest j (Nat.lt_of_succ_lt_succ lt)
  · rcases mem_cons.mp member with rfl | member
    · exact bounds.2
    · exact later.greatest d member
  · rcases later.found with same | ⟨d, member, same⟩
    · split_ifs at same with greater
      · exact .inr ⟨c, mem_cons_self, same.symm⟩
      · exact .inl same
    · exact .inr ⟨d, mem_cons_of_mem c member, same⟩

/-- What the loop of the calibration selects. -/
theorem select_spec (fits : callsSum + total data < 2 ^ 64) :
    ∃ k, Selected maxSum callsSum maxSize data k (select maxSum data callsSum maxSize) := by
  induction data generalizing callsSum maxSize with
  | nil =>
    exact ⟨0, le_rfl, fun lt => absurd lt (Nat.not_lt_zero 0),
      fun j lt => absurd lt (Nat.not_lt_zero j), le_rfl, forall_mem_nil _, .inl rfl⟩
  | cons c data ih =>
    by_cases stop : callsSum > maxSum
    · rw [select, if_pos stop]
      exact ⟨0, Nat.zero_le _, fun _ => stop, fun j lt => absurd lt (Nat.not_lt_zero j), le_rfl,
        forall_mem_nil _, .inl rfl⟩
    · rw [total_cons] at fits
      have sum : (callsSum + c.calls) % 2 ^ 64 = callsSum + c.calls := Nat.mod_eq_of_lt (by omega)
      rw [select, if_neg stop, sum]
      have fits' : callsSum + c.calls + total data < 2 ^ 64 := by omega
      obtain ⟨k, later⟩ := ih fits'
      exact ⟨k + 1, later.cons (not_lt.mp stop)⟩

namespace Selected

variable {first : CallSize} {k size : Nat}

/-- The first class is always looked at. -/
theorem ne_zero (selected : Selected maxSum 0 maxSize (first :: data) k size) : k ≠ 0 := by
  rintro rfl
  have exceeds : maxSum < 0 := selected.exceeds (Nat.succ_pos _)
  exact Nat.not_lt_zero _ exceeds

theorem reached (selected : Selected maxSum 0 first.size (first :: data) k size) :
    ∃ c ∈ (first :: data).take k, c.size = size := by
  rcases selected.found with start | found
  · obtain ⟨n, rfl⟩ := Nat.exists_eq_succ_of_ne_zero selected.ne_zero
    exact ⟨first, mem_cons_self, start.symm⟩
  · exact found

theorem length_of_zero (selected : Selected maxSum 0 maxSize data k size) (zero : total data = 0) :
    k = data.length := by
  rcases Nat.lt_or_ge k data.length with less | all
  · have exceeds := selected.exceeds less
    have := total_take_le data k
    omega
  · exact le_antisymm selected.le all

theorem exceeds_of_pos (selected : Selected (95 * total data / 100) 0 maxSize data k size)
    (pos : 0 < total data) : 95 * total data / 100 < total (data.take k) := by
  rcases Nat.lt_or_ge k data.length with less | all
  · have exceeds := selected.exceeds less
    omega
  · rw [take_of_length_le all]
    omega

end Selected

end

namespace Pool

/-- What `calibrate` is for. -/
structure Calibrated (p p' : Pool) : Prop where
  /-- The default is a class that is asked for most. -/
  default : ∃ i : Fin 15, p'.defaultSize = minSize <<< i.val ∧ ∀ j, p.calls j ≤ p.calls i
  /-- The greatest size of the shortest part of the classes, most frequent first, whose calls are
  more than 95%. Without calls these are all classes. -/
  chosen : ∃ (order : List CallSize) (k : Nat), order.Perm p.callData ∧
    order.Pairwise (fun a b => b.calls ≤ a.calls) ∧
    (total p.callData = 0 → k = 15) ∧
    (0 < total p.callData → 95 * total p.callData / 100 < total (order.take k) ∧
      ∀ j < k, total (order.take j) ≤ 95 * total p.callData / 100) ∧
    (∃ c ∈ order.take k, c.size = p'.maxSize) ∧ ∀ c ∈ order.take k, c.size ≤ p'.maxSize
  le : p'.defaultSize ≤ p'.maxSize
  covers : 0 < total p.callData → 95 * total p.callData / 100 <
    total (p.callData.filter fun c => c.size ≤ p'.maxSize)
  cleared : ∀ i, p'.calls i = 0
  finished : p'.calibrating = 0

variable {sort : List CallSize → List CallSize} {p : Pool}

theorem length_callData (p : Pool) : p.callData.length = 15 := by
  rw [callData, length_map, length_finRange]

theorem mem_callData : c ∈ p.callData ↔ ∃ i : Fin 15, c = ⟨p.calls i, minSize <<< i.val⟩ := by
  simp only [callData, mem_map, mem_finRange, true_and, eq_comm]

/-- The first of the sorted classes is one with the greatest count. -/
theorem first_most {first : CallSize} {rest : List CallSize} (sorts : Sorts sort)
    (same : sort p.callData = first :: rest) :
    ∃ i : Fin 15, first.size = minSize <<< i.val ∧ ∀ j, p.calls j ≤ p.calls i := by
  have perm := sorts.perm p.callData
  have sorted := sorts.sorted p.callData
  rw [same] at perm sorted
  obtain ⟨i, rfl⟩ := mem_callData.mp (perm.mem_iff.mp mem_cons_self)
  refine ⟨i, rfl, fun j => ?_⟩
  rcases mem_cons.mp (perm.mem_iff.mpr (mem_callData.mpr ⟨j, rfl⟩)) with equal | later
  · exact (congrArg CallSize.calls equal).le
  · exact not_lt.mp ((pairwise_cons.mp sorted).1 _ later)

/-- The calls of some classes are at most those of all that are not larger. -/
theorem total_take_le_filter {data order : List CallSize} (perm : order.Perm data)
    (small : ∀ c ∈ order.take k, c.size ≤ size) :
    total (order.take k) ≤ total (data.filter fun c => c.size ≤ size) := by
  have all : (order.take k).filter (fun c => c.size ≤ size) = order.take k :=
    filter_eq_self.mpr fun c member => decide_eq_true (small c member)
  have split : total (order.filter fun c => c.size ≤ size) =
      total (order.take k) + total ((order.drop k).filter fun c => c.size ≤ size) := by
    rw [← total_append, ← all, ← filter_append, take_append_drop]
  rw [← total_perm (perm.filter _), split]
  exact Nat.le_add_right _ _

/-- Nobody calibrates, and the sizes are set anew. -/
theorem calibrate_of_idle (sorts : Sorts sort) (idle : p.calibrating = 0)
    (fits : total p.callData < 2 ^ 64) : ∃ p', p.calibrate sort = some p' ∧ Calibrated p p' := by
  have perm := sorts.perm p.callData
  have whole := total_perm perm
  have length := perm.length_eq.trans p.length_callData
  have sorted := (sorts.sorted p.callData).imp fun less => not_lt.mp less
  unfold calibrate
  rw [if_neg (not_not.mpr idle), sumCalls_eq fits, ← whole]
  cases same : sort p.callData with
  | nil =>
    rw [same] at length
    cases length
  | cons first rest =>
    rw [same] at perm whole length sorted
    obtain ⟨k, selected⟩ : ∃ k, Selected (95 * total (first :: rest) / 100) 0 first.size
      (first :: rest) k
        (select (95 * total (first :: rest) / 100) (first :: rest) 0 first.size) :=
      select_spec (by omega)
    refine ⟨_, rfl, first_most sorts same, ⟨first :: rest, k, perm, sorted, ?_, ?_,
      selected.reached, selected.greatest⟩, selected.start, ?_, fun _ => rfl, rfl⟩
    · intro zero
      rw [selected.length_of_zero (whole.trans zero), length]
    · rw [← whole]
      intro pos
      refine ⟨selected.exceeds_of_pos pos, fun j lt => ?_⟩
      have below := selected.shortest j lt
      rwa [Nat.zero_add] at below
    · rw [← whole]
      intro pos
      exact lt_of_lt_of_le (selected.exceeds_of_pos pos)
        (total_take_le_filter perm selected.greatest)

/-- Calibration does what it is for whenever the calls can be counted in a `uint64`, and nothing
while another one is going on. -/
theorem calibrate_spec (sorts : Sorts sort) (p : Pool) :
    (p.calibrating = 0 → total p.callData < 2 ^ 64 →
      ∃ p', p.calibrate sort = some p' ∧ Calibrated p p') ∧
    (p.calibrating ≠ 0 → p.calibrate sort = some p) :=
  ⟨calibrate_of_idle sorts, fun busy => if_pos busy⟩

/-- Sorting by insertion. -/
def byCalls : List CallSize → List CallSize := List.insertionSort fun a b => b.calls ≤ a.calls

theorem byCalls_sorts : Sorts byCalls := by
  have total' : Std.Total fun a b : CallSize => b.calls ≤ a.calls :=
    ⟨fun a b => le_total b.calls a.calls⟩
  have trans' : IsTrans CallSize fun a b => b.calls ≤ a.calls :=
    ⟨fun _ _ _ below above => le_trans above below⟩
  refine ⟨perm_insertionSort _, fun data => ?_⟩
  exact (pairwise_insertionSort (fun a b : CallSize => b.calls ≤ a.calls) data).imp not_lt.mpr

/-- A pool with these counts of the first classes. -/
def counted (counts : List Nat) : Pool := ⟨fun i => counts.getD i 0, 0, 4096, 0⟩

/-- The histogram of the tests. -/
theorem calibrate_spec_sampled : ∃ p p' : Pool, p.calibrating = 0 ∧
    p.calibrate byCalls = some p' ∧ Calibrated p p' ∧ p'.defaultSize = 2097152 ∧
    p'.maxSize = 33554432 := by
  obtain ⟨p', done, calibrated⟩ :=
    (calibrate_spec byCalls_sorts
      (counted [0, 0, 0, 0, 3278, 0, 0, 0, 0, 12312, 0, 0, 0, 1000])).1 rfl (by decide)
  have seen : ((counted [0, 0, 0, 0, 3278, 0, 0, 0, 0, 12312, 0, 0, 0, 1000]).calibrate byCalls).map
      (fun p => (p.defaultSize, p.maxSize)) = some (2097152, 33554432) := by decide +kernel
  rw [done] at seen
  obtain ⟨default, greatest⟩ := Prod.mk.inj (Option.some.inj seen)
  exact ⟨_, p', rfl, done, calibrated, default, greatest⟩

/-- Two classes of 2 ^ 63 calls each: the sum is 0 and the search stops at the first class. -/
theorem not_calibrated_of_overflow : ∃ p p' : Pool, (∀ i, p.calls i < 2 ^ 64) ∧
    p.calibrating = 0 ∧ Sorts byCalls ∧ p.calibrate byCalls = some p' ∧ p'.maxSize = 4096 ∧
    ¬ Calibrated p p' := by
  have seen : ((counted [2 ^ 63, 2 ^ 63]).calibrate byCalls).map Pool.maxSize = some 4096 := by
    decide +kernel
  obtain ⟨p', done, size⟩ := Option.map_eq_some_iff.mp seen
  refine ⟨_, p', ?_, rfl, byCalls_sorts, done, size, fun calibrated => ?_⟩
  · unfold counted
    decide
  · -- the first class has half of the calls
    have covers := calibrated.covers (by decide +kernel)
    rw [size] at covers
    revert covers
    decide +kernel

end Pool

end Gain.Calibration
