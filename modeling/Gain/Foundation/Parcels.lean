import Mathlib.Algebra.BigOperators.Group.Finset.Basic
import Mathlib.Algebra.Order.Group.Multiset
import Mathlib.Data.Fintype.Basic

/-! # Parcels in boxes

Finitely many boxes hold parcels with names of their own, and each box says what is
written on the parcels in it. A parcel may enter a box, leave one or move to another;
the others stay where they are and as they are.
-/

namespace Gain

open Function List

structure Parcels (ι κ α : Type) where
  box : ι → List κ
  /-- What is written on a parcel in a box. -/
  tag : ι → κ → α

namespace Parcels

variable {ι κ α : Type} {p q : Parcels ι κ α} {i j : ι} {k : κ}

/-- No parcel is twice in a box or in two boxes. -/
structure Apart (p : Parcels ι κ α) : Prop where
  nodup : ∀ i, (p.box i).Nodup
  alone : ∀ {i j k}, k ∈ p.box i → k ∈ p.box j → i = j

/-- The parcels of a box, with what is written on them. -/
def parcels (p : Parcels ι κ α) (i : ι) : Multiset (κ × α) :=
  ((p.box i).map fun k => (k, p.tag i k) : List (κ × α))

/-- A box has the same parcels in it as before. -/
structure Same (p q : Parcels ι κ α) (i : ι) : Prop where
  box : (q.box i).Perm (p.box i)
  tag : ∀ k ∈ p.box i, q.tag i k = p.tag i k

/-- A parcel is added to a box. -/
structure Added (k : κ) (p q : Parcels ι κ α) (i : ι) : Prop where
  box : (q.box i).Perm (k :: p.box i)
  tag : ∀ l ∈ p.box i, q.tag i l = p.tag i l

theorem Same.symm (same : Same p q i) : Same q p i where
  box := same.box.symm
  tag := fun k member => (same.tag k (same.box.mem_iff.mp member)).symm

theorem Same.parcels (same : Same p q i) : q.parcels i = p.parcels i := by
  refine Multiset.coe_eq_coe.mpr ((same.box.map _).trans ?_)
  rw [map_congr_left fun k member => congrArg (Prod.mk k) (same.tag k member)]

theorem Added.parcels (added : Added k p q i) : q.parcels i = {(k, q.tag i k)} + p.parcels i := by
  refine Multiset.coe_eq_coe.mpr ((added.box.map _).trans ?_)
  rw [map_cons, map_congr_left fun l member => congrArg (Prod.mk l) (added.tag l member)]
  exact .refl _

theorem Apart.same (apart : p.Apart) (same : ∀ i, Same p q i) : q.Apart where
  nodup := fun i => (same i).box.nodup_iff.mpr (apart.nodup i)
  alone := fun here there =>
    apart.alone ((same _).box.mem_iff.mp here) ((same _).box.mem_iff.mp there)

/-- A new parcel goes in one box. -/
theorem Apart.added (apart : p.Apart) (new : ∀ j, k ∉ p.box j) (added : Added k p q i)
    (others : ∀ j ≠ i, Same p q j) : q.Apart := by
  have mem : ∀ {j l}, l ∈ q.box j → l ∈ p.box j ∨ (j = i ∧ l = k) := by
    intro j l member
    by_cases here : j = i
    · subst here
      rcases mem_cons.mp (added.box.mem_iff.mp member) with rfl | old
      · exact Or.inr ⟨rfl, rfl⟩
      · exact Or.inl old
    · exact Or.inl ((others j here).box.mem_iff.mp member)
  refine ⟨fun j => ?_, ?_⟩
  · by_cases here : j = i
    · subst here
      exact added.box.nodup_iff.mpr (nodup_cons.mpr ⟨new j, apart.nodup j⟩)
    · exact (others j here).box.nodup_iff.mpr (apart.nodup j)
  · intro j j' l here there
    rcases mem here with old | ⟨rfl, rfl⟩
    · rcases mem there with old' | ⟨_, rfl⟩
      · exact apart.alone old old'
      · exact absurd old (new j)
    · rcases mem there with old' | ⟨rfl, _⟩
      · exact absurd old' (new j')
      · rfl

theorem Apart.removed (apart : p.Apart) (removed : Added k q p i)
    (others : ∀ j ≠ i, Same p q j) : q.Apart ∧ ∀ j, k ∉ q.box j := by
  have mem : ∀ {j l}, l ∈ q.box j → l ∈ p.box j := by
    intro j l member
    by_cases here : j = i
    · subst here
      exact removed.box.mem_iff.mpr (mem_cons_of_mem _ member)
    · exact (others j here).box.mem_iff.mp member
  have nodup : (k :: q.box i).Nodup := removed.box.nodup_iff.mp (apart.nodup i)
  refine ⟨⟨fun j => ?_, fun here there => apart.alone (mem here) (mem there)⟩, fun j member => ?_⟩
  · by_cases here : j = i
    · subst here
      exact (nodup_cons.mp nodup).2
    · exact (others j here).box.nodup_iff.mpr (apart.nodup j)
  · have here : j = i := apart.alone (mem member) (removed.box.mem_iff.mpr mem_cons_self)
    subst here
    exact (nodup_cons.mp nodup).1 member

variable [Fintype ι]

/-- All parcels. -/
def content (p : Parcels ι κ α) : Multiset (κ × α) := ∑ i, p.parcels i

theorem content_same (same : ∀ i, Same p q i) : q.content = p.content :=
  Finset.sum_congr rfl fun i _ => (same i).parcels

variable [DecidableEq ι]

theorem content_eq (p : Parcels ι κ α) (i : ι) :
    p.content = p.parcels i + ∑ j ∈ Finset.univ.erase i, p.parcels j :=
  (Finset.add_sum_erase _ _ (Finset.mem_univ i)).symm

/-- A parcel enters a box. -/
theorem content_added (added : Added k p q i) (others : ∀ j ≠ i, Same p q j) :
    q.content = {(k, q.tag i k)} + p.content := by
  have rest : ∑ j ∈ Finset.univ.erase i, q.parcels j = ∑ j ∈ Finset.univ.erase i, p.parcels j :=
    Finset.sum_congr rfl fun j member => (others j (Finset.ne_of_mem_erase member)).parcels
  rw [q.content_eq i, p.content_eq i, rest, added.parcels, add_assoc]

/-- A parcel leaves a box. -/
theorem content_removed (removed : Added k q p i) (others : ∀ j ≠ i, Same p q j) :
    p.content = {(k, p.tag i k)} + q.content :=
  content_added removed fun j ne => (others j ne).symm

/-- A parcel moves to another box, with the same written on it. -/
theorem moved (apart : p.Apart) (ne : j ≠ i) (left : (p.box i).Perm (k :: q.box i))
    (tags : ∀ l ∈ q.box i, q.tag i l = p.tag i l) (added : Added k p q j)
    (others : ∀ h, h ≠ i → h ≠ j → Same p q h) (tag : q.tag j k = p.tag i k) :
    q.Apart ∧ q.content = p.content := by
  -- The parcel is in no box for a moment.
  let m : Parcels ι κ α := ⟨update p.box i (q.box i), p.tag⟩
  have here : m.box i = q.box i := update_self ..
  have there : ∀ {h}, h ≠ i → m.box h = p.box h := fun other => update_of_ne other ..
  have removed : Added k m p i := by
    refine ⟨?_, fun _ _ => rfl⟩
    rw [here]
    exact left
  have kept : ∀ h ≠ i, Same p m h := by
    intro h other
    refine ⟨?_, fun _ _ => rfl⟩
    rw [there other]
  have entered : Added k m q j := by
    refine ⟨?_, ?_⟩
    · rw [there ne]
      exact added.box
    · rw [there ne]
      exact added.tag
  have stayed : ∀ h ≠ j, Same m q h := by
    intro h other
    by_cases back : h = i
    · subst back
      refine ⟨?_, ?_⟩
      · rw [here]
      · rw [here]
        exact tags
    · refine ⟨?_, ?_⟩
      · rw [there back]
        exact (others h back other).box
      · rw [there back]
        exact (others h back other).tag
  obtain ⟨apart', gone⟩ := apart.removed removed kept
  refine ⟨apart'.added gone entered stayed, ?_⟩
  rw [content_added entered stayed, tag, content_removed removed kept]

end Parcels

end Gain
