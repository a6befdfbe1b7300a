import Mathlib.Data.Fintype.Card
import Gain.Foundation.Custody
import Gain.Stack.Account

/-! # The keys of concurrent callers

`keyPool` with any number of goroutines that call `get` and `put`. A key is with the
one who got it, on the stack, or under way in a call between the two, and in one of
these places only. The counter behind the stack has 64 bits: every key was given out
once before it comes round.
-/

namespace Gain

open Function List LockFreeStack Option

inductive KeyPoolLabel where
  | get (i : Nat)
  /-- `put`, with the address of the node that will have the key. -/
  | put (i : Nat) (key : UInt64) (node : Nat)
  /-- The goroutine makes the next step of its call. -/
  | advance (i : Nat)

structure LockFreeKeyPool where
  stack : LockFreeStack UInt64
  nextKey : UInt64
  /-- The keys that a goroutine has got and not put back. -/
  held : Nat → List UInt64

namespace LockFreeKeyPool

/-- The key 0 is not valid, and 1 is that of the main socket. -/
def firstFreeKey : UInt64 := 2

def newKeyPool : LockFreeKeyPool where
  stack := .newLockFreeStack
  nextKey := firstFreeKey
  held := fun _ => []

/-- `get` returns. -/
def hand (p : LockFreeKeyPool) (i : Nat) (key : UInt64) : LockFreeKeyPool :=
  { p with
    stack := p.stack.goto i .idle
    held := update p.held i (key :: p.held i) }

/-- The rest of `get`, from what `Pop` has returned on. -/
def resume (p : LockFreeKeyPool) (i : Nat) (key : UInt64) : LockFreeKeyPool :=
  if key = 0 then { p.hand i (p.nextKey + 1 - 1) with nextKey := p.nextKey + 1 }
  else p.hand i key

/-- One step of one goroutine. Only a key that the caller has is put back. -/
def step (p : LockFreeKeyPool) : KeyPoolLabel → Option LockFreeKeyPool
  | .get i =>
    if p.stack.threads i = .idle then (p.stack.step (.pop i)).map fun stack => { p with stack }
    else none
  | .put i key node =>
    if p.stack.threads i = .idle ∧ key ∈ p.held i then
      (p.stack.step (.push i key node)).map fun stack =>
        { p with stack, held := update p.held i ((p.held i).erase key) }
    else none
  | .advance i =>
    match p.stack.threads i with
    | .answered value => some (p.resume i (value.getD 0))
    | _ => (p.stack.step (.advance i)).map fun stack => { p with stack }

/-- What a goroutine has got, and what it has under way. -/
def share (p : LockFreeKeyPool) (i : Nat) : List UInt64 :=
  p.held i ++ (p.stack.carried (p.stack.threads i)).toList

/-- The counter has given the key out and not come round. -/
def Issued (p : LockFreeKeyPool) (key : UInt64) : Prop :=
  firstFreeKey ≤ key ∧ (firstFreeKey ≤ p.nextKey → key < p.nextKey)

structure Sound (spine : List Nat) (p : LockFreeKeyPool) : Prop where
  stack : p.stack.Sound spine
  custody : Custody p.share (p.stack.values spine)
  issued : ∀ {key}, Kept p.share (p.stack.values spine) key → p.Issued key

variable {p p' : LockFreeKeyPool} {spine spine' : List Nat} {i node : Nat} {key : UInt64}

theorem newKeyPool_sound : Sound [] newKeyPool where
  stack := newLockFreeStack_sound
  custody := ⟨fun _ => nodup_nil, fun inside => absurd inside not_mem_nil⟩
  issued := fun ⟨_, inside⟩ => absurd inside not_mem_nil

namespace Sound

/-- Keys have moved between a goroutine and the stack. -/
theorem moved (sound : Sound spine p) (stack : p'.stack.Sound spine')
    (next : p'.nextKey = p.nextKey)
    (exchanged : Exchanged p.share (p.stack.values spine) i [] p'.share (p'.stack.values spine')) :
    Sound spine' p' := by
  refine ⟨stack, exchanged.custody sound.custody nodup_nil nofun, fun kept => ?_⟩
  unfold Issued
  rw [next]
  exact sound.issued ((exchanged.kept kept).resolve_left not_mem_nil)

theorem ne_zero (sound : Sound spine p) (kept : Kept p.share (p.stack.values spine) key) :
    key ≠ 0 := by
  rintro rfl
  exact absurd (sound.issued kept).1 (by decide)

/-- A key from the counter is nowhere yet. -/
theorem unused (sound : Sound spine p) (within : firstFreeKey ≤ p.nextKey) :
    ¬ Kept p.share (p.stack.values spine) p.nextKey := by
  intro kept
  exact UInt64.lt_irrefl _ ((sound.issued kept).2 within)

end Sound

/-! ## The steps -/

theorem share_of_idle (idle : p.stack.threads i = .idle) : p.share i = p.held i := by
  unfold share
  rw [idle]
  exact append_nil _

namespace Sound

theorem get (sound : Sound spine p) (idle : p.stack.threads i = .idle) :
    Sound spine { p with stack := p.stack.goto i .popLoad } := by
  have begun := sound.stack.rest (StackPc.running_of_idle idle) (.inr rfl)
  refine sound.moved (i := i) begun rfl ⟨fun other => ?_, ?_⟩
  · unfold share
    rw [goto_threads_ne p.stack _ other]
    rfl
  · rw [share_of_idle idle]
    unfold share
    rw [goto_threads_self]
    exact List.Perm.of_eq (congrArg (· ++ p.stack.values spine) (append_nil _))

/-- A thread begins to return a key. -/
theorem put (sound : Sound spine p) (idle : p.stack.threads i = .idle) (holds : key ∈ p.held i)
    (free : ¬ p.stack.Referenced node) :
    Sound spine { p with
      stack := (p.stack.setNode node { value := some key }).goto i (.pushLoad node)
      held := update p.held i ((p.held i).erase key) } := by
  have same : ∀ {a}, a ≠ node →
      ((p.stack.setNode node { value := some key }).nodes a).value = (p.stack.nodes a).value := by
    intro a other
    rw [setNode_ne p.stack _ other]
  have values : (p.stack.setNode node { value := some key }).values spine =
      p.stack.values spine := by
    refine values_congr fun a inside => same ?_
    rintro rfl
    exact free (.inl ⟨spine, sound.stack.linked.chain, inside⟩)
  have begun := sound.stack.push (StackPc.running_of_idle idle) key free
  refine sound.moved (i := i) begun rfl ⟨fun {j} other => ?_, ?_⟩
  · unfold share
    rw [goto_threads_ne _ _ other]
    refine congrArg₂ _ (update_of_ne other ..) (congrArg Option.toList ?_)
    refine carried_congr fun a mine => same ?_
    rintro rfl
    exact free (.inr ⟨j, StackPc.mem_pointers_of_own mine⟩)
  · rw [share_of_idle idle]
    change (share _ i ++ (p.stack.setNode node _).values spine).Perm (p.held i ++ _)
    rw [values]
    refine List.Perm.append_right _ ?_
    unfold share
    rw [goto_threads_self]
    change (update p.held i _ i ++
      ((p.stack.setNode node { value := some key }).nodes node).value.toList).Perm _
    rw [update_self, setNode_self]
    exact (perm_append_singleton key _).trans (perm_cons_erase holds).symm

/-- A step inside of `Pop` or `Push`. -/
theorem call {stack : LockFreeStack UInt64} (sound : Sound spine p)
    (advanced : p.stack.Advanced i stack) : ∃ spine', Sound spine' { p with stack } := by
  obtain ⟨spine', stack', same⟩ := sound.stack.advanced advanced
  refine ⟨spine', sound.moved (i := i) stack' rfl ⟨fun {j} other => ?_, ?_⟩⟩
  · unfold share
    rw [advanced.others other, carried_congr fun a _ => advanced.value a]
  · unfold share
    rw [append_assoc, same, ← append_assoc]
    exact List.Perm.refl _

/-- What a goroutine and the others have once `get` has returned. -/
theorem exchanged_hand {fresh : List UInt64}
    (from' : (p.stack.carried (p.stack.threads i)).toList ++ fresh = [key]) :
    Exchanged p.share (p.stack.values spine) i fresh (p.hand i key).share
      ((p.hand i key).stack.values spine) where
  others := by
    intro j other
    unfold share
    refine congrArg₂ _ (update_of_ne other ..) ?_
    change (p.stack.carried ((p.stack.goto i .idle).threads j)).toList = _
    rw [goto_threads_ne _ _ other]
  moved := by
    have mine : (p.hand i key).share i = key :: p.held i := by
      rw [share_of_idle (goto_threads_self ..)]
      exact update_self ..
    rw [mine, ← append_assoc]
    refine List.Perm.append_right _ ?_
    calc
      List.Perm (key :: p.held i) (p.held i ++ [key]) := (perm_append_singleton key _).symm
      _ = p.held i ++ ((p.stack.carried (p.stack.threads i)).toList ++ fresh) := by rw [from']
      _ = p.share i ++ fresh := (append_assoc ..).symm
      List.Perm _ (fresh ++ p.share i) := perm_append_comm

/-- `get` returns the key that was popped. -/
theorem hand (sound : Sound spine p) (answer : p.stack.threads i = .answered (some key)) :
    Sound spine (p.hand i key) := by
  have returned := sound.stack.rest (StackPc.running_of_answered answer) (.inl rfl)
  refine sound.moved returned rfl (exchanged_hand ?_)
  rw [answer]
  rfl

/-- Up to where it comes round, the counter stays above what it was at. -/
theorem lt_add_one_of_le {next : UInt64} (most : key ≤ next) (still : firstFreeKey ≤ next + 1) :
    key < next + 1 := by
  have more : (next + 1).toNat = (next.toNat + 1) % 2 ^ 64 := UInt64.toNat_add next 1
  have bound := next.toNat_lt
  have most := UInt64.le_iff_toNat_le.mp most
  have least : 2 ≤ (next + 1).toNat := UInt64.le_iff_toNat_le.mp still
  rw [UInt64.lt_iff_toNat_lt, more]
  rw [more] at least
  omega

/-- `get` returns a key from the counter. -/
theorem count (sound : Sound spine p) (answer : p.stack.threads i = .answered none)
    (within : firstFreeKey ≤ p.nextKey) :
    Sound spine { p.hand i p.nextKey with nextKey := p.nextKey + 1 } := by
  have exchanged : Exchanged p.share (p.stack.values spine) i [p.nextKey]
      (p.hand i p.nextKey).share ((p.hand i p.nextKey).stack.values spine) := by
    refine exchanged_hand ?_
    rw [answer]
    rfl
  have fresh : ∀ key ∈ [p.nextKey], ¬ Kept p.share (p.stack.values spine) key := by
    intro key new
    rw [mem_singleton.mp new]
    exact sound.unused within
  refine ⟨sound.stack.rest (StackPc.running_of_answered answer) (.inl rfl),
    exchanged.custody sound.custody (nodup_singleton _) fresh, fun {key} kept => ?_⟩
  have upTo : firstFreeKey ≤ key ∧ key ≤ p.nextKey := by
    obtain new | before := exchanged.kept kept
    · rw [mem_singleton.mp new]
      exact ⟨within, UInt64.le_refl _⟩
    · obtain ⟨least, below⟩ := sound.issued before
      exact ⟨least, UInt64.le_of_lt (below within)⟩
  exact ⟨upTo.1, lt_add_one_of_le upTo.2⟩

end Sound

/-- A `put` gets a node that nothing refers to. -/
def Fresh (p : LockFreeKeyPool) : KeyPoolLabel → Prop
  | .put _ _ node => ¬ p.stack.Referenced node
  | _ => True

/-- The counter has not come round where a key is taken from it. -/
def Unwrapped (p : LockFreeKeyPool) : KeyPoolLabel → Prop
  | .advance i => ∀ value, p.stack.threads i = .answered value → value.getD 0 = 0 →
      firstFreeKey ≤ p.nextKey
  | _ => True

/-- As long as the counter is not below the first key, it has not come round. -/
theorem along_unwrapped {ls : List KeyPoolLabel}
    (low : Along step (fun p _ => firstFreeKey ≤ p.nextKey) ls p) : Along step Unwrapped ls p := by
  refine low.mono fun p label least => ?_
  cases label with
  | get | put => trivial
  | advance => exact fun _ _ _ => least

/-- The rest of `get`, where the key 0 from the stack means that there was none. -/
theorem Sound.resume {value : Option UInt64} (sound : Sound spine p)
    (answer : p.stack.threads i = .answered value)
    (unwrapped : value.getD 0 = 0 → firstFreeKey ≤ p.nextKey) :
    Sound spine (p.resume i (value.getD 0)) := by
  unfold LockFreeKeyPool.resume
  cases value with
  | none =>
    rw [if_pos getD_none, UInt64.add_sub_cancel]
    exact sound.count answer (unwrapped rfl)
  | some key =>
    have carried : key ∈ p.share i := by
      unfold share
      rw [answer]
      exact mem_append_right _ mem_cons_self
    rw [getD_some, if_neg (sound.ne_zero (.of_share carried))]
    exact sound.hand answer

/-- Every step keeps the pool of keys sound. -/
theorem Sound.step {label : KeyPoolLabel} (sound : Sound spine p) (fresh : p.Fresh label)
    (unwrapped : p.Unwrapped label) (done : p.step label = some p') :
    ∃ spine', Sound spine' p' := by
  cases label with
  | get i =>
    simp only [LockFreeKeyPool.step] at done
    split_ifs at done with idle
    obtain ⟨stack, called, rfl⟩ := map_eq_some_iff.mp done
    cases (step_pop (StackPc.running_of_idle idle)).symm.trans called
    exact ⟨spine, sound.get idle⟩
  | put i key node =>
    simp only [LockFreeKeyPool.step] at done
    split_ifs at done with holds
    obtain ⟨stack, called, rfl⟩ := map_eq_some_iff.mp done
    cases (step_push (StackPc.running_of_idle holds.1) key node).symm.trans called
    exact ⟨spine, sound.put holds.1 holds.2 fresh⟩
  | advance i =>
    simp only [LockFreeKeyPool.step] at done
    split at done
    · rename_i value answer
      cases done
      exact ⟨spine, sound.resume answer (unwrapped value answer)⟩
    · obtain ⟨stack, called, rfl⟩ := map_eq_some_iff.mp done
      exact sound.call (advance_advanced called)

end LockFreeKeyPool

end Gain
