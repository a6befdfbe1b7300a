import Mathlib.Data.List.Nodup
import Mathlib.Data.List.Perm.Basic

/-! # Things that are in one place

Things are with one of several parties or in a common stock. A party may take from the
stock, leave something there or bring in what is new, and each thing stays in one place.
-/

namespace Gain

open List

variable {ι α : Type*} {share share' : ι → List α} {stock stock' fresh : List α} {x : ι} {a : α}

/-- Nothing is with two parties, or with a party and in the stock. -/
structure Custody (share : ι → List α) (stock : List α) : Prop where
  own : ∀ x, (share x ++ stock).Nodup
  apart : ∀ {x y a}, a ∈ share x → a ∈ share y → x = y

/-- The thing is with somebody or in the stock. -/
def Kept (share : ι → List α) (stock : List α) (a : α) : Prop :=
  ∃ x, a ∈ share x ++ stock

theorem Kept.of_share (with' : a ∈ share x) : Kept share stock a :=
  ⟨x, mem_append_left stock with'⟩

/-- One party has exchanged things with the stock, and has brought in some. -/
structure Exchanged (share : ι → List α) (stock : List α) (x : ι) (fresh : List α)
    (share' : ι → List α) (stock' : List α) : Prop where
  others : ∀ {y}, y ≠ x → share' y = share y
  moved : (share' x ++ stock').Perm (fresh ++ (share x ++ stock))

namespace Exchanged

variable (exchanged : Exchanged share stock x fresh share' stock')
include exchanged

theorem mem_iff : a ∈ share' x ++ stock' ↔ a ∈ fresh ∨ a ∈ share x ++ stock := by
  rw [exchanged.moved.mem_iff, mem_append]

theorem kept (kept : Kept share' stock' a) : a ∈ fresh ∨ Kept share stock a := by
  obtain ⟨y, inside⟩ := kept
  by_cases same : y = x
  · subst same
    exact (exchanged.mem_iff.mp inside).imp_right fun before => ⟨y, before⟩
  · rw [mem_append, exchanged.others same] at inside
    obtain inside | inside := inside
    · exact .inr (.of_share inside)
    · have mine := exchanged.mem_iff.mp (mem_append_right (share' x) inside)
      exact mine.imp_right fun before => ⟨x, before⟩

/-- What another party has is neither with the one that exchanges nor in the stock. -/
theorem outside (custody : Custody share stock) (unused : ∀ a ∈ fresh, ¬ Kept share stock a) {y : ι}
    (other : y ≠ x) (inside : a ∈ share y) : a ∉ share' x ++ stock' := by
  intro mine
  obtain new | before := exchanged.mem_iff.mp mine
  · exact unused a new (.of_share inside)
  · obtain with' | stocked := mem_append.mp before
    · exact other (custody.apart inside with')
    · exact (nodup_append.mp (custody.own y)).2.2 a inside a stocked rfl

/-- A transfer keeps every item in one place. -/
theorem custody (custody : Custody share stock) (distinct : fresh.Nodup)
    (unused : ∀ a ∈ fresh, ¬ Kept share stock a) : Custody share' stock' := by
  have mine : (share' x ++ stock').Nodup := by
    rw [exchanged.moved.nodup_iff, nodup_append]
    refine ⟨distinct, custody.own x, ?_⟩
    rintro a new _ before rfl
    exact unused a new ⟨x, before⟩
  refine ⟨fun y => ?_, ?_⟩
  · by_cases same : y = x
    · subst same
      exact mine
    · rw [exchanged.others same, nodup_append]
      refine ⟨(nodup_append.mp (custody.own y)).1, (nodup_append.mp mine).2.1, ?_⟩
      rintro a inside _ stocked rfl
      have away := exchanged.outside custody unused same inside
      exact away (mem_append_right _ stocked)
  · intro y z a first second
    by_cases mineFirst : y = x
    · by_cases mineSecond : z = x
      · rw [mineFirst, mineSecond]
      · subst mineFirst
        rw [exchanged.others mineSecond] at second
        have away := exchanged.outside custody unused mineSecond second
        exact absurd (mem_append_left _ first) away
    · rw [exchanged.others mineFirst] at first
      by_cases mineSecond : z = x
      · subst mineSecond
        have away := exchanged.outside custody unused mineFirst first
        exact absurd (mem_append_left _ second) away
      · rw [exchanged.others mineSecond] at second
        exact custody.apart first second

end Exchanged

end Gain
