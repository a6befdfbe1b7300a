import Mathlib.Data.List.AList
import Mathlib.Data.List.Perm.Basic

/-! # The size of a table

How many entries a table has, after an entry comes or goes, and by counting: a table
whose values have different numbers has as many entries as there are such numbers.
-/

namespace Gain.Table

open List

variable {K V : Type} [DecidableEq K] {table : AList fun _ : K => V} {key : K} {value : V}

theorem length_insert (absent : key ∉ table) :
    (table.insert key value).keys.length = table.keys.length + 1 := by
  rw [AList.keys_insert, length_cons, erase_of_not_mem (mt AList.mem_keys.mpr absent)]

theorem length_erase (present : key ∈ table) :
    (table.erase key).keys.length + 1 = table.keys.length := by
  have member : key ∈ table.keys := AList.mem_keys.mp present
  have nonempty : 0 < table.keys.length := length_pos_of_mem member
  rw [AList.keys_erase, length_erase_of_mem member]
  omega

theorem mem_of_lookup (found : table.lookup key = some value) : key ∈ table := by
  rw [← AList.lookup_isSome, found]
  rfl

/-- The values have different numbers, and these are the ones that are marked. -/
theorem length_eq_of_marked {f : V → Nat} {marked : Nat → Prop} [DecidablePred marked] {n : Nat}
    (apart : ∀ {k k' v v'}, table.lookup k = some v → table.lookup k' = some v' →
      f v = f v' → k = k') (sound : ∀ {k v}, table.lookup k = some v → f v < n ∧ marked (f v))
    (complete : ∀ a < n, marked a → ∃ k v, table.lookup k = some v ∧ f v = a) :
    table.keys.length = ((List.range n).filter marked).length := by
  have entry : ∀ {e : Sigma fun _ : K => V}, e ∈ table.entries ↔ table.lookup e.1 = some e.2 :=
    AList.mem_lookup_iff.symm
  have nodup : (table.entries.map fun e => f e.2).Nodup := by
    apply List.Nodup.map_on ?_ table.nodupKeys.nodup
    rintro ⟨k, v⟩ first ⟨k', v'⟩ second same
    obtain rfl : k = k' := apart (entry.mp first) (entry.mp second) same
    obtain rfl : v = v' := Option.some.inj ((entry.mp first).symm.trans (entry.mp second))
    rfl
  have same : (table.entries.map fun e => f e.2).Perm ((List.range n).filter marked) := by
    rw [perm_ext_iff_of_nodup nodup (List.nodup_range.filter _)]
    intro a
    rw [mem_map, mem_filter, mem_range, decide_eq_true_eq]
    constructor
    · rintro ⟨e, member, rfl⟩
      exact sound (entry.mp member)
    · rintro ⟨below, mark⟩
      obtain ⟨k, v, found, rfl⟩ := complete a below mark
      exact ⟨⟨k, v⟩, entry.mpr found, rfl⟩
  rw [← same.length_eq, length_map]
  exact length_map ..

end Gain.Table
