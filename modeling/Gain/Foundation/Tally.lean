import Mathlib.Data.Finset.Card
import Mathlib.Logic.Function.Basic

/-! # Counting those at a place

Of arbitrarily many parties only finitely many are at a certain place. When one of
them moves, the number changes by at most one.
-/

namespace Gain

open Function

variable {ι P : Type*} {here : P → Bool} {places : ι → P} {who : Finset ι} {i : ι} {p : P}

/-- The set has exactly those who are at the place. -/
def Tallied (here : P → Bool) (places : ι → P) (who : Finset ι) : Prop :=
  ∀ i, i ∈ who ↔ here (places i) = true

namespace Tallied

variable (tallied : Tallied here places who)
include tallied

theorem eq_empty (nobody : ∀ i, here (places i) = false) : who = ∅ := by
  apply Finset.eq_empty_of_forall_notMem
  intro i member
  cases ((tallied i).mp member).symm.trans (nobody i)

variable [DecidableEq ι]

theorem update_ne {j : ι} (other : j ≠ i) : j ∈ who ↔ here (update places i p j) = true := by
  rw [update_of_ne other]
  exact tallied j

/-- One moves and neither comes nor goes. -/
theorem stay (same : here p = here (places i)) : Tallied here (update places i p) who := by
  intro j
  by_cases mine : j = i
  · subst mine
    rw [update_self, same]
    exact tallied j
  · exact tallied.update_ne mine

theorem enter (before : here (places i) = false)
    (after : here p = true) : Tallied here (update places i p) (insert i who) := by
  intro j
  rw [Finset.mem_insert]
  by_cases mine : j = i
  · subst mine
    rw [update_self]
    exact ⟨fun _ => after, fun _ => Or.inl rfl⟩
  · rw [← tallied.update_ne mine, or_iff_right mine]

theorem card_enter (before : here (places i) = false) : (insert i who).card = who.card + 1 := by
  apply Finset.card_insert_of_notMem
  intro member
  rw [(tallied i).mp member] at before
  cases before

theorem leave (after : here p = false) : Tallied here (update places i p) (who.erase i) := by
  intro j
  rw [Finset.mem_erase]
  by_cases mine : j = i
  · subst mine
    rw [update_self, after]
    exact ⟨fun both => absurd rfl both.1, nofun⟩
  · rw [← tallied.update_ne mine, and_iff_right mine]

theorem card_leave (before : here (places i) = true) : (who.erase i).card + 1 = who.card :=
  Finset.card_erase_add_one ((tallied i).mpr before)

end Tallied

/-- As many are at the place as the counter says. -/
def Awaited (here : P → Bool) (places : ι → P) (count : Int) : Prop :=
  ∃ who, Tallied here places who ∧ count = who.card

namespace Awaited

variable {count : Int}

theorem nonneg (awaited : Awaited here places count) : 0 ≤ count := by
  obtain ⟨who, _, rfl⟩ := awaited
  exact Int.natCast_nonneg _

theorem zero (nobody : ∀ i, here (places i) = false) : Awaited here places 0 :=
  ⟨∅, fun i => ⟨fun inside => absurd inside (Finset.notMem_empty i), fun found => by
    cases (nobody i).symm.trans found⟩, rfl⟩

/-- Whoever waits for the counter to be down finds nobody at the place. -/
theorem nobody (awaited : Awaited here places 0) (i : ι) : here (places i) = false := by
  obtain ⟨who, tallied, empty⟩ := awaited
  rw [Finset.card_eq_zero.mp (Int.natCast_eq_zero.mp empty.symm)] at tallied
  refine Bool.eq_false_iff.mpr fun found => ?_
  exact Finset.notMem_empty i ((tallied i).mpr found)

variable [DecidableEq ι]

theorem stay (awaited : Awaited here places count) (same : here p = here (places i)) :
    Awaited here (update places i p) count := by
  obtain ⟨who, tallied, rfl⟩ := awaited
  exact ⟨who, tallied.stay same, rfl⟩

theorem enter (awaited : Awaited here places count) (before : here (places i) = false)
    (after : here p = true) : Awaited here (update places i p) (count + 1) := by
  obtain ⟨who, tallied, rfl⟩ := awaited
  refine ⟨insert i who, tallied.enter before after, ?_⟩
  rw [tallied.card_enter before, Int.natCast_succ]

theorem leave (awaited : Awaited here places count) (before : here (places i) = true)
    (after : here p = false) : Awaited here (update places i p) (count - 1) := by
  obtain ⟨who, tallied, rfl⟩ := awaited
  refine ⟨who.erase i, tallied.leave after, ?_⟩
  rw [← tallied.card_leave before, Int.natCast_succ, Int.add_sub_cancel]

end Awaited

end Gain
