import Mathlib.Data.List.Nodup
import Mathlib.Logic.Function.Basic

/-! # Chains of pointers

Nodes in a list, each of which points to the one behind it, and the last to none.
A chain grows at its end, or at its front, where it also shrinks.
-/

namespace Gain

open Function List

variable {α : Type*} {next : α → Option α} {chain : List α} {a b : α} {p r : Nat}

/-- Every node points to the one behind it. -/
def Chained (next : α → Option α) (chain : List α) : Prop :=
  ∀ (p : Nat) (a : α), chain[p]? = some a → next a = chain[p + 1]?

namespace Chained

theorem position (nodup : chain.Nodup) (here : chain[p]? = some a) (there : chain[r]? = some a) :
    p = r := by
  have lt : p < chain.length := (List.getElem?_eq_some_iff.mp here).1
  exact (List.getElem?_inj lt nodup).mp (here.trans there.symm)

/-- A node that points to none is the last. -/
theorem last (chained : Chained next chain) (here : chain[p]? = some a) (none' : next a = none) :
    p + 1 = chain.length := by
  have lt : p < chain.length := (List.getElem?_eq_some_iff.mp here).1
  rw [chained p a here, List.getElem?_eq_none_iff] at none'
  omega

theorem getElem?_concat (found : chain[p]? = some a) : (chain ++ [b])[p]? = some a := by
  rw [List.getElem?_append_left (List.getElem?_eq_some_iff.mp found).1]
  exact found

/-- Beyond the end there is only what was appended. -/
theorem eq_of_getElem?_concat (end' : ¬ p < chain.length) (found : (chain ++ [b])[p]? = some a) :
    a = b := by
  rw [List.getElem?_append_right (Nat.le_of_not_lt end')] at found
  exact mem_singleton.mp (mem_of_getElem? found)

/-- The last node is made to point to a new one. -/
theorem concat [DecidableEq α] (chained : Chained next chain) (nodup : chain.Nodup)
    (here : chain[p]? = some a) (none' : next a = none) (outside : b ∉ chain)
    (free : next b = none) : Chained (update next a (some b)) (chain ++ [b]) := by
  have last := chained.last here none'
  intro r c found
  by_cases lt : r < chain.length
  · rw [List.getElem?_append_left lt] at found
    by_cases same : c = a
    · subst same
      obtain rfl := position nodup found here
      rw [update_self, last, List.getElem?_concat_length]
    · have ne : r ≠ p := by
        rintro rfl
        exact same (Option.some.inj (found.symm.trans here))
      rw [update_of_ne same, chained r c found, List.getElem?_append_left (by omega)]
  · obtain rfl := eq_of_getElem?_concat lt found
    have other : c ≠ a := by
      rintro rfl
      exact outside (mem_of_getElem? here)
    rw [update_of_ne other, free, eq_comm, List.getElem?_eq_none_iff, length_append,
      length_singleton]
    omega

theorem nil : Chained next [] := by
  intro p a found
  rw [List.getElem?_nil] at found
  cases found

/-- A node is put before the first one. -/
theorem cons (chained : Chained next chain) (first : next a = chain.head?) :
    Chained next (a :: chain) := by
  intro p b found
  cases p with
  | zero =>
    cases found
    rw [first, head?_eq_getElem?]
    rfl
  | succ p => exact chained p b found

theorem head (chained : Chained next (a :: chain)) : next a = chain.head? := by
  rw [head?_eq_getElem?]
  exact chained 0 a rfl

/-- The first node is taken away. -/
theorem of_cons (chained : Chained next (a :: chain)) : Chained next chain :=
  fun p b found => chained (p + 1) b found

/-- Only what the nodes of the chain point to matters. -/
theorem congr {next' : α → Option α} (chained : Chained next chain)
    (same : ∀ a ∈ chain, next' a = next a) : Chained next' chain := by
  intro p a found
  rw [same a (mem_of_getElem? found)]
  exact chained p a found

/-- There is one chain from a node on. -/
theorem unique {chain' : List α} (chained : Chained next chain) (chained' : Chained next chain')
    (first : chain.head? = chain'.head?) : chain = chain' := by
  induction chain generalizing chain' with
  | nil => exact (head?_eq_none_iff.mp first.symm).symm
  | cons a chain ih =>
    obtain ⟨rest, rfl⟩ := head?_eq_some_iff.mp first.symm
    exact congrArg (a :: ·) (ih chained.of_cons chained'.of_cons (chained.head.symm.trans
      chained'.head))

end Chained

end Gain
