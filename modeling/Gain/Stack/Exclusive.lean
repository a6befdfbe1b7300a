import Gain.Stack.Alone

/-! # No key is used twice

However the calls of `get` and `put` interleave, a key is with one caller or on the
stack. This ends when the counter of `keyPool` comes round.
-/

namespace Gain

open Function List

namespace LockFreeKeyPool

variable {p : LockFreeKeyPool} {spine : List Nat} {i : Nat}

/-- Every key is with one caller or on the stack, the keys are those from the first one on, and the
length is the number of keys on the stack. -/
structure Exclusive (p : LockFreeKeyPool) : Prop where
  once : ∀ i, (p.held i).Nodup
  apart : ∀ {i j key}, key ∈ p.held i → key ∈ p.held j → i = j
  valid : ∀ {i key}, key ∈ p.held i → 2 ≤ key
  stacked : ∃ spine, p.stack.Spine spine ∧
    (∀ {i key}, key ∈ p.held i → key ∉ p.stack.values spine) ∧
    ((∀ i, p.stack.threads i = .idle) → p.stack.len.toNat = (p.stack.values spine).length)

/-- There are too few keys for the length to come round. -/
theorem Sound.few (sound : Sound spine p) : (p.stack.values spine).length < 2 ^ 64 := by
  have distinct : (p.stack.values spine).Nodup := (nodup_append.mp (sound.custody.own 0)).2.1
  have nonzero : (0 : UInt64) ∉ p.stack.values spine := by
    intro inside
    exact sound.ne_zero ⟨0, mem_append_right _ inside⟩ rfl
  have all : (((0 : UInt64) :: p.stack.values spine).map UInt64.toFin).Nodup := by
    refine (nodup_cons.mpr ⟨nonzero, distinct⟩).map ?_
    intro a b same
    exact UInt64.toFin_inj.mp same
  have most := all.length_le_card
  rw [length_map, length_cons, Fintype.card_fin] at most
  exact most

theorem Sound.exclusive (sound : Sound spine p) : p.Exclusive := by
  have got : ∀ {i key}, key ∈ p.held i → key ∈ p.share i := fun inside => mem_append_left _ inside
  refine ⟨fun i => ?_, fun first second => sound.custody.apart (got first) (got second),
    fun inside => (sound.issued (.of_share (got inside))).1, spine, sound.stack.linked.chain,
    fun {i key} inside stacked => ?_, fun idle => ?_⟩
  · have share := (nodup_append.mp (sound.custody.own i)).1
    exact (nodup_append.mp share).1
  · exact (nodup_append.mp (sound.custody.own i)).2.2 key (got inside) key stacked rfl
  · have few := sound.few
    rw [sound.stack.linked.length_values] at few ⊢
    rw [sound.stack.len fun i => StackPc.running_of_idle (idle i), Nat.mod_eq_of_lt few]

/-- Where the counter has come round, the next key that is taken from it is not valid. -/
theorem unwrapped_of_exclusive {label : KeyPoolLabel}
    (after : ∀ p', p.step label = some p' → p'.Exclusive) : p.Unwrapped label := by
  cases label with
  | get | put => trivial
  | advance i =>
    intro value answer zero
    have inside : p.nextKey ∈ (p.resume i (value.getD 0)).held i := by
      unfold resume
      rw [if_pos zero, UInt64.add_sub_cancel]
      change _ ∈ update p.held i (p.nextKey :: p.held i) i
      rw [update_self]
      exact mem_cons_self
    exact (after _ (step_answer answer)).valid inside

/-- However the goroutines interleave, as long as a node is not used again while something refers
to it: the keys are exclusive in all states of a run exactly if none is taken from a counter that
has come round. -/
theorem run_exclusive_iff {ls : List KeyPoolLabel} (fresh : Along step Fresh ls newKeyPool) :
    Throughout step Exclusive ls newKeyPool ↔ Along step Unwrapped ls newKeyPool := by
  constructor
  · intro throughout
    exact along_of_throughout (fun p label after => unwrapped_of_exclusive after) throughout
  · intro unwrapped
    have preserved : ∀ (p : LockFreeKeyPool) label p', p.Fresh label ∧ p.Unwrapped label →
        p.step label = some p' → (∃ spine, Sound spine p) → ∃ spine, Sound spine p' :=
      fun p label p' free done ⟨spine, sound⟩ => sound.step free.1 free.2 done
    have sound := throughout_of_along preserved (fresh.and unwrapped) ⟨[], newKeyPool_sound⟩
    exact sound.mono fun p ⟨spine, sound⟩ => sound.exclusive

/-- A call of `get` that is not interrupted, on an empty stack. -/
def getAlone : List KeyPoolLabel :=
  .get 0 :: List.replicate 2 (.advance 0)

theorem getAlone_fresh : Along step Fresh getAlone p :=
  ⟨trivial, fun _ _ => ⟨trivial, fun _ _ => ⟨trivial, fun _ _ => trivial⟩⟩⟩

theorem run_getAlone {ls : List KeyPoolLabel} (ran : run step ls newKeyPool = some p)
    (empty : p.stack = .newLockFreeStack) :
    run step (ls ++ getAlone) newKeyPool = some { p with
      nextKey := p.nextKey + 1
      held := update p.held 0 (p.nextKey :: p.held 0) } := by
  rw [run_append, ran, Option.bind_some]
  exact run_get_empty (empty ▸ rfl) (empty ▸ rfl)

/-- A key is got and put back. -/
theorem run_exclusive_iff_back :
    Throughout step Exclusive (getAlone ++ .put 0 2 7 :: List.replicate 3 (.advance 0))
      newKeyPool := by
  refine (run_exclusive_iff (getAlone_fresh.append fun p ran => ?_)).mpr ?_
  · -- the node of `put` is free, as all of them are
    have got := run_get_empty (p := newKeyPool) (i := 0) rfl rfl
    cases got.symm.trans ran
    refine ⟨LockFreeStack.newLockFreeStack_free 7, fun _ _ => ?_⟩
    exact ⟨trivial, fun _ _ => ⟨trivial, fun _ _ => ⟨trivial, fun _ _ => trivial⟩⟩⟩
  · exact along_unwrapped (by decide)

/-- The counter comes to every number. -/
theorem exists_gets (n : Nat) : ∃ ls p, Along step Fresh ls newKeyPool ∧
    run step ls newKeyPool = some p ∧ p.stack = .newLockFreeStack ∧
    p.nextKey = UInt64.ofNat (n + 2) := by
  induction n with
  | zero => exact ⟨[], newKeyPool, trivial, rfl, rfl, rfl⟩
  | succ n ih =>
    obtain ⟨ls, p, fresh, ran, empty, next⟩ := ih
    refine ⟨_, _, fresh.append fun _ _ => getAlone_fresh, run_getAlone ran empty, empty, ?_⟩
    change p.nextKey + 1 = _
    rw [next]
    exact (UInt64.ofNat_add (n + 2) 1).symm

/-- Once the counter has come round, `get` returns the key 0. -/
theorem not_run_exclusive : ¬ ∀ ls : List KeyPoolLabel, Along step Fresh ls newKeyPool →
    Throughout step Exclusive ls newKeyPool := by
  intro always
  obtain ⟨ls, p, fresh, ran, empty, next⟩ := exists_gets (2 ^ 64 - 2)
  have zero : p.nextKey = 0 := next
  have last := (always _ (fresh.append fun _ _ => getAlone_fresh)).last (run_getAlone ran empty)
  have inside : (0 : UInt64) ∈ update p.held 0 (p.nextKey :: p.held 0) 0 := by
    rw [update_self, zero]
    exact mem_cons_self
  have least : (2 : UInt64) ≤ 0 := last.valid (i := 0) inside
  exact absurd least (by decide)

end LockFreeKeyPool

end Gain
