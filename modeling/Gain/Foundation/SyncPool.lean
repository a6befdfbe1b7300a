import Mathlib.Data.List.Perm.Basic

/-! # Free pools that may forget

A pool of interchangeable objects in the manner of `sync.Pool`: a request is
answered with any element put back earlier, or with none even when the pool is
not empty. Which it is, is read from a stream fixed in advance, so that a
statement about every stream is a statement about every behaviour of the pool.
-/

namespace Gain

open List

structure SyncPool (α : Type) where
  items : List α
  /-- The answer to each request: the position of the element handed out, or none. -/
  choice : Nat → Option Nat
  calls : Nat

namespace SyncPool

variable {α β : Type}

def empty (choice : Nat → Option Nat) : SyncPool α := ⟨[], choice, 0⟩

/-- The element the next request is answered with. -/
def pick (pool : SyncPool α) : Option (Nat × α) :=
  (pool.choice pool.calls).bind fun i => (pool.items[i]?).map fun x => (i, x)

def get (pool : SyncPool α) : Option α × SyncPool α :=
  match pool.pick with
  | none => (none, { pool with calls := pool.calls + 1 })
  | some (i, x) => (some x, { pool with items := pool.items.eraseIdx i, calls := pool.calls + 1 })

def put (pool : SyncPool α) (x : α) : SyncPool α := { pool with items := x :: pool.items }

/-- The elements change in place. -/
def map (f : α → β) (pool : SyncPool α) : SyncPool β :=
  ⟨pool.items.map f, pool.choice, pool.calls⟩

theorem pick_eq_some {pool : SyncPool α} {i : Nat} {x : α} (picked : pool.pick = some (i, x)) :
    pool.items[i]? = some x := by
  obtain ⟨j, _, found⟩ := Option.bind_eq_some_iff.mp picked
  obtain ⟨y, present, same⟩ := Option.map_eq_some_iff.mp found
  cases same
  exact present

/-- Whatever a request returns was in the pool, and only that element leaves it. -/
theorem get_some {pool next : SyncPool α} {x : α} (got : pool.get = (some x, next)) :
    x ∈ pool.items ∧ ∀ y ∈ next.items, y ∈ pool.items := by
  unfold get at got
  split at got
  · cases got
  · rename_i i z picked
    cases got
    exact ⟨mem_of_getElem? (pick_eq_some picked), fun y member => mem_of_mem_eraseIdx member⟩

theorem get_perm {pool next : SyncPool α} {x : α} (got : pool.get = (some x, next)) :
    (x :: next.items).Perm pool.items := by
  unfold get at got
  split at got
  · cases got
  · rename_i i z picked
    cases got
    obtain ⟨lt, found⟩ := List.getElem?_eq_some_iff.mp (pick_eq_some picked)
    rw [← found]
    exact List.getElem_cons_eraseIdx_perm lt

/-- An unanswered request leaves the elements where they are. -/
theorem get_none {pool next : SyncPool α} (got : pool.get = (none, next)) :
    next.items = pool.items := by
  unfold get at got
  split at got
  · cases got
    rfl
  · cases got

/-- The changed pool answers with the changed element. -/
theorem get_map (f : α → β) (pool : SyncPool α) :
    (pool.map f).get = (pool.get.1.map f, pool.get.2.map f) := by
  unfold get pick map
  cases pool.choice pool.calls with
  | none => rfl
  | some i =>
    cases present : pool.items[i]? with
    | none => simp [present]
    | some x => simp [present, List.eraseIdx_map]

/-- What becomes of something that is not in the pool does not matter. -/
theorem map_update [DecidableEq α] {f : α → β} {pool : SyncPool α} {x : α} (away : x ∉ pool.items)
    (y : β) : pool.map (Function.update f x y) = pool.map f := by
  have same : ∀ x' ∈ pool.items, Function.update f x y x' = f x' := by
    intro x' member
    refine Function.update_of_ne ?_ ..
    rintro rfl
    exact away member
  unfold map
  rw [List.map_congr_left same]

@[simp] theorem mem_put {pool : SyncPool α} {x y : α} :
    y ∈ (pool.put x).items ↔ y = x ∨ y ∈ pool.items := mem_cons

end SyncPool

end Gain
