import Gain.Foundation.Supply

/-! # Places that hold names

Places that hold at most one name each, and a supply of free names. No name is
held in two places or held and free at once, and every name was taken from the
counter before. A place may exchange what it holds with the supply, and places may
be renamed.
-/

namespace Gain

structure Holding {P : Type} (holds : P → Option Nat) (free : Multiset Nat) (next : Nat) :
    Prop where
  apart : ∀ {x y : P} {a : Nat}, holds x = some a → holds y = some a → x = y
  taken : ∀ {x : P} {a : Nat}, holds x = some a → a ∉ free
  bound : ∀ {x : P} {a : Nat}, holds x = some a → a < next
  distinct : Supplied.Distinct free next

namespace Holding

variable {P Q : Type} {holds holds' : P → Option Nat} {free free' : Multiset Nat}
  {next next' : Nat} {x : P}

/-- Nothing is held and nothing is free. -/
theorem empty : Holding (fun _ : P => none) 0 next where
  apart := fun gone => nomatch gone
  taken := fun gone => nomatch gone
  bound := fun gone => nomatch gone
  distinct := ⟨Multiset.nodup_zero, fun _ member => absurd member (Multiset.notMem_zero _)⟩

/-- What a place holds together with what is free. -/
theorem distinct_add (holding : Holding holds free next) (x : P) :
    Supplied.Distinct (((holds x).toList : Multiset Nat) + free) next := by
  cases here : holds x with
  | none => simpa using holding.distinct
  | some a =>
    obtain ⟨nodup, below⟩ := holding.distinct
    refine ⟨?_, fun b member => ?_⟩
    · exact Multiset.nodup_cons.mpr ⟨holding.taken here, nodup⟩
    · rcases Multiset.mem_cons.mp member with rfl | old
      · exact holding.bound here
      · exact below b old

/-- One place exchanges what it holds with the supply. -/
theorem exchange (holding : Holding holds free next) (others : ∀ y ≠ x, holds' y = holds y)
    (supplied : Supplied (((holds x).toList : Multiset Nat) + free) next
      (((holds' x).toList : Multiset Nat) + free') next') : Holding holds' free' next' := by
  obtain ⟨nodup, below⟩ := supplied.distinct (holding.distinct_add x)
  obtain ⟨le, fresh, _, range, sub⟩ := supplied
  -- what another place holds is neither fresh nor was it here or free
  have other : ∀ {y a}, y ≠ x → holds' y = some a →
      a ∉ ((holds' x).toList : Multiset Nat) + free' := by
    intro y a ne here member
    rw [others y ne] at here
    rcases Multiset.mem_add.mp (Multiset.mem_of_le sub member) with old | new
    · rcases Multiset.mem_add.mp old with mine | spare
      · exact ne (holding.apart here (Option.mem_toList.mp mine))
      · exact holding.taken here spare
    · exact absurd (holding.bound here) (not_lt.mpr (range a new).1)
  have inside : ∀ {a}, holds' x = some a → a ∈ ((holds' x).toList : Multiset Nat) := by
    intro a here
    exact Option.mem_toList.mpr here
  refine ⟨?_, ?_, ?_, ?_⟩
  · intro y z a first second
    by_cases atY : y = x
    · by_cases atZ : z = x
      · exact atY.trans atZ.symm
      · subst atY
        exact absurd (Multiset.mem_add.mpr (Or.inl (inside first))) (other atZ second)
    · by_cases atZ : z = x
      · subst atZ
        exact absurd (Multiset.mem_add.mpr (Or.inl (inside second))) (other atY first)
      · rw [others y atY] at first
        rw [others z atZ] at second
        exact holding.apart first second
  · intro y a here spare
    by_cases atY : y = x
    · subst atY
      rw [Multiset.nodup_add] at nodup
      exact Multiset.disjoint_left.mp nodup.2.2 (inside here) spare
    · exact other atY here (Multiset.mem_add.mpr (Or.inr spare))
  · intro y a here
    by_cases atY : y = x
    · subst atY
      exact below a (Multiset.mem_add.mpr (Or.inl (inside here)))
    · rw [others y atY] at here
      exact (holding.bound here).trans_le le
  · rw [Multiset.nodup_add] at nodup
    exact ⟨nodup.2.1, fun a spare => below a (Multiset.mem_add.mpr (Or.inr spare))⟩

/-- The places are looked at under other names. -/
theorem comp (holding : Holding holds free next) {f : Q → P} (injective : Function.Injective f) :
    Holding (fun y => holds (f y)) free next where
  apart := fun first second => injective (holding.apart first second)
  taken := holding.taken
  bound := holding.bound
  distinct := holding.distinct

end Holding

end Gain
