import Mathlib.Algebra.Order.Group.Multiset
import Mathlib.Data.Multiset.AddSub

/-! # Names that are handed out once

Resources are named by numbers taken from a counter. Between two moments some
resources may have been lost and some named anew, and none is duplicated. Where
the names in use are all distinct and below the counter, they stay so.
-/

namespace Gain

/-- From the names `before` and the counter `n` to the names `after` and the
counter `n'`. -/
def Supplied (before : Multiset Nat) (n : Nat) (after : Multiset Nat) (n' : Nat) : Prop :=
  n ≤ n' ∧ ∃ fresh : Multiset Nat, fresh.Nodup ∧ (∀ a ∈ fresh, n ≤ a ∧ a < n') ∧
    after ≤ before + fresh

namespace Supplied

variable {before after last rest : Multiset Nat} {n n' n'' : Nat}

theorem of_le (le : after ≤ before) : Supplied before n after n :=
  ⟨le_rfl, 0, Multiset.nodup_zero, by simp, by simpa using le⟩

theorem refl : Supplied before n before n := of_le le_rfl

/-- The next name is taken. -/
theorem one (before : Multiset Nat) (n : Nat) : Supplied before n (n ::ₘ before) (n + 1) := by
  refine ⟨Nat.le_succ n, {n}, Multiset.nodup_singleton n, ?_, ?_⟩
  · intro a member
    rw [Multiset.mem_singleton.mp member]
    exact ⟨le_rfl, Nat.lt_succ_self n⟩
  · rw [Multiset.add_comm, Multiset.singleton_add]

theorem trans (first : Supplied before n after n') (second : Supplied after n' last n'') :
    Supplied before n last n'' := by
  obtain ⟨le, fresh, nodup, range, sub⟩ := first
  obtain ⟨le', fresh', nodup', range', sub'⟩ := second
  refine ⟨le.trans le', fresh + fresh', ?_, ?_, ?_⟩
  · rw [Multiset.nodup_add]
    refine ⟨nodup, nodup', Multiset.disjoint_left.mpr fun member member' => ?_⟩
    exact absurd (range _ member).2 (not_lt.mpr (range' _ member').1)
  · intro a member
    rcases Multiset.mem_add.mp member with old | new
    · exact ⟨(range a old).1, (range a old).2.trans_le le'⟩
    · exact ⟨le.trans (range' a new).1, (range' a new).2⟩
  · calc last ≤ after + fresh' := sub'
      _ ≤ before + fresh + fresh' := Multiset.add_le_add_right sub
      _ = before + (fresh + fresh') := Multiset.add_assoc ..

/-- What is not involved stays. -/
theorem add (rest : Multiset Nat) (supplied : Supplied before n after n') :
    Supplied (before + rest) n (after + rest) n' := by
  obtain ⟨le, fresh, nodup, range, sub⟩ := supplied
  refine ⟨le, fresh, nodup, range, ?_⟩
  calc after + rest ≤ before + fresh + rest := Multiset.add_le_add_right sub
    _ = before + rest + fresh := add_right_comm ..

theorem le_trans (supplied : Supplied before n after n') (le : last ≤ after) :
    Supplied before n last n' :=
  supplied.trans (of_le le)

/-- All names are distinct and below the counter. -/
def Distinct (names : Multiset Nat) (n : Nat) : Prop := names.Nodup ∧ ∀ a ∈ names, a < n

theorem distinct (supplied : Supplied before n after n') (initial : Distinct before n) :
    Distinct after n' := by
  obtain ⟨le, fresh, nodup, range, sub⟩ := supplied
  have all : (before + fresh).Nodup := by
    rw [Multiset.nodup_add]
    refine ⟨initial.1, nodup, Multiset.disjoint_left.mpr fun member member' => ?_⟩
    exact absurd (initial.2 _ member) (not_lt.mpr (range _ member').1)
  refine ⟨Multiset.nodup_of_le sub all, fun a member => ?_⟩
  rcases Multiset.mem_add.mp (Multiset.mem_of_le sub member) with old | new
  · exact (initial.2 a old).trans_le le
  · exact (range a new).2

end Supplied

end Gain
