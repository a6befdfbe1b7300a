import Mathlib.Algebra.Order.Group.Multiset
import Gain.Foundation.Run
import Gain.Foundation.Tally
import Gain.Stack.Spine

/-! # What is on the stack and what is under way

A value that was pushed is carried by its goroutine until the node is on the stack,
and one that was popped from then on until it is answered. No step of a call loses or
doubles a value. The length is behind by those who have yet to count.
-/

namespace Gain

open Function List Option

variable {α : Type}

namespace StackPc

/-- The goroutine has pushed and has yet to count. -/
def entering : StackPc α → Bool
  | pushCount => true
  | _ => false

/-- The goroutine has popped and has yet to count. -/
def leaving : StackPc α → Bool
  | popCount _ => true
  | _ => false

/-- Outside of a call nothing is to be counted. -/
theorem counts_of_resting {pc : StackPc α} (resting : pc.running = false) :
    pc.entering = false ∧ pc.leaving = false := by
  cases pc with
  | idle | answered _ => exact ⟨rfl, rfl⟩
  | popLoad | popNext _ | popSwap _ _ | popCount _ | popValue _ | pushLoad _ | pushSwap _ _
  | pushCount => cases resting

end StackPc

namespace LockFreeStack

variable {s s' : LockFreeStack α} {spine : List Nat} {i a : Nat} {pc : StackPc α}
  {ins outs : Finset Nat}

/-- The values on the stack, the top first. -/
def values (s : LockFreeStack α) (spine : List Nat) : List α :=
  spine.filterMap fun a => (s.nodes a).value

/-- The value that a goroutine is about to push, or has popped. -/
def carried (s : LockFreeStack α) : StackPc α → Option α
  | .pushLoad item | .pushSwap item _ | .popCount item | .popValue item => (s.nodes item).value
  | .answered value => value
  | _ => none

theorem values_cons {rest : List Nat} {v : α} (value : (s.nodes a).value = some v) :
    s.values (a :: rest) = v :: s.values rest := by
  simp only [values, filterMap_cons, value]

theorem values_congr (same : ∀ a ∈ spine, (s'.nodes a).value = (s.nodes a).value) :
    s'.values spine = s.values spine := filterMap_congr same

theorem carried_congr (same : ∀ a, pc.own = some a → (s'.nodes a).value = (s.nodes a).value) :
    s'.carried pc = s.carried pc := by
  cases pc with
  | pushLoad _ | pushSwap _ _ | popCount _ | popValue _ => exact same _ rfl
  | idle | answered _ | popLoad | popNext _ | popSwap _ _ | pushCount => rfl

/-- Every node on the stack has a value. -/
theorem Linked.length_values (linked : Linked spine s) :
    (s.values spine).length = spine.length := by
  have all : ∀ a ∈ spine, (s.nodes a).value.isSome = true := fun a inside => linked.valued inside
  clear linked
  induction spine with
  | nil => rfl
  | cons a rest ih =>
    obtain ⟨v, value⟩ := isSome_iff_exists.mp (all a mem_cons_self)
    rw [values_cons value, length_cons, length_cons,
      ih fun b inside => all b (mem_cons_of_mem a inside)]

/-- No step of a call changes the value of a node. -/
theorem Advanced.value (advanced : Advanced s i s') (a : Nat) :
    (s'.nodes a).value = (s.nodes a).value := by
  cases advanced with
  | @aimed item here =>
    change ((s.setNode item _).nodes a).value = _
    by_cases same : a = item
    · rw [same, setNode_self]
    · rw [setNode_ne s _ same]
  | goes | pushed | popped | countIn | countOut => rfl

theorem Advanced.others (advanced : Advanced s i s') {j : Nat} (other : j ≠ i) :
    s'.threads j = s.threads j := by
  obtain ⟨pc, moved⟩ : ∃ pc, s'.threads = update s.threads i pc := by
    cases advanced with
    | goes | aimed | pushed | popped | countIn | countOut => exact ⟨_, rfl⟩
  rw [moved, update_of_ne other]

/-- Who has yet to count, and the length that there will be then. -/
structure Counted (ins outs : Finset Nat) (spine : List Nat) (s : LockFreeStack α) : Prop where
  entering : Tallied StackPc.entering s.threads ins
  leaving : Tallied StackPc.leaving s.threads outs
  len : (s.len.toNat + ins.card) % 2 ^ 64 = (spine.length + outs.card) % 2 ^ 64

/-- The stack is in order, with these nodes on it. -/
structure Sound (spine : List Nat) (s : LockFreeStack α) : Prop where
  linked : Linked spine s
  counted : ∃ ins outs, Counted ins outs spine s

theorem newLockFreeStack_sound : Sound [] (newLockFreeStack : LockFreeStack α) := by
  refine ⟨newLockFreeStack_linked, ∅, ∅, ⟨fun i => ?_, fun i => ?_, rfl⟩⟩
  · exact ⟨fun inside => absurd inside (Finset.notMem_empty i), nofun⟩
  · exact ⟨fun inside => absurd inside (Finset.notMem_empty i), nofun⟩

variable (counted : Counted ins outs spine s)
include counted

/-- One goroutine moves on and neither comes to count nor has counted. -/
theorem Counted.stay (threads : s'.threads = update s.threads i pc) (len : s'.len = s.len)
    (entering : pc.entering = (s.threads i).entering)
    (leaving : pc.leaving = (s.threads i).leaving) : Counted ins outs spine s' := by
  refine ⟨?_, ?_, ?_⟩
  · rw [threads]
    exact counted.entering.stay entering
  · rw [threads]
    exact counted.leaving.stay leaving
  · rw [len]
    exact counted.len

theorem Counted.goes (goes : s.Goes (s.threads i) pc) : Counted ins outs spine (s.goto i pc) := by
  refine counted.stay rfl rfl ?_ ?_
  · generalize s.threads i = pc' at goes
    cases goes <;> rfl
  · generalize s.threads i = pc' at goes
    cases goes <;> rfl

theorem Counted.pushed (here : s.threads i = .pushSwap a s.top) :
    Counted (insert i ins) outs (a :: spine) { s.goto i .pushCount with top := some a } := by
  have outside : (s.threads i).entering = false := by
    rw [here]
    rfl
  refine ⟨counted.entering.enter outside rfl, counted.leaving.stay ?_, ?_⟩
  · rw [here]
    rfl
  · have len := counted.len
    have one := counted.entering.card_enter outside
    rw [length_cons, one]
    change (s.len.toNat + _) % _ = _
    omega

omit counted

/-- A node is popped and has yet to be counted. -/
theorem Counted.popped {rest : List Nat} (counted : Counted ins outs (a :: rest) s)
    {next : Option Nat} (here : s.threads i = .popSwap a next) :
    Counted ins (insert i outs) rest { s.goto i (.popCount a) with top := next } := by
  have outside : (s.threads i).leaving = false := by
    rw [here]
    rfl
  refine ⟨counted.entering.stay ?_, counted.leaving.enter outside rfl, ?_⟩
  · rw [here]
    rfl
  · have len := counted.len
    have one := counted.leaving.card_enter outside
    rw [length_cons] at len
    rw [one]
    change (s.len.toNat + _) % _ = _
    omega

/-- A pushed node is counted. -/
theorem Counted.countIn (counted : Counted ins outs spine s) (here : s.threads i = .pushCount) :
    Counted (ins.erase i) outs spine { s.goto i .idle with len := s.len + 1 } := by
  have inside : (s.threads i).entering = true := by
    rw [here]
    rfl
  refine ⟨counted.entering.leave rfl, counted.leaving.stay ?_, ?_⟩
  · rw [here]
    rfl
  · have len := counted.len
    have one := counted.entering.card_leave inside
    have more : (s.len + 1).toNat = (s.len.toNat + 1) % 2 ^ 64 := UInt64.toNat_add s.len 1
    change ((s.len + 1).toNat + _) % _ = _
    rw [more]
    omega

/-- A popped node is counted. -/
theorem Counted.countOut (counted : Counted ins outs spine s) (here : s.threads i = .popCount a) :
    Counted ins (outs.erase i) spine { s.goto i (.popValue a) with len := s.len + ~~~0 } := by
  have inside : (s.threads i).leaving = true := by
    rw [here]
    rfl
  refine ⟨counted.entering.stay ?_, counted.leaving.leave rfl, ?_⟩
  · rw [here]
    rfl
  · have len := counted.len
    have one := counted.leaving.card_leave inside
    have less : (s.len + ~~~0).toNat = (s.len.toNat + (2 ^ 64 - 1)) % 2 ^ 64 :=
      UInt64.toNat_add s.len (~~~0)
    change ((s.len + ~~~0).toNat + _) % _ = _
    rw [less]
    omega

/-! ## Steps and runs -/

namespace Sound

variable (sound : Sound spine s)
include sound

/-- A step of a call keeps the stack in order. What the goroutine carries, followed by what is on
the stack, stays the same. -/
theorem advanced (advanced : Advanced s i s') : ∃ spine', Sound spine' s' ∧
    (s'.carried (s'.threads i)).toList ++ s'.values spine' =
      (s.carried (s.threads i)).toList ++ s.values spine := by
  -- the values of the nodes are those before the step
  suffices moved : ∃ spine', Sound spine' s' ∧
      (s.carried (s'.threads i)).toList ++ s.values spine' =
        (s.carried (s.threads i)).toList ++ s.values spine by
    obtain ⟨spine', sound', same⟩ := moved
    refine ⟨spine', sound', ?_⟩
    rw [carried_congr fun a _ => advanced.value a, values_congr fun a _ => advanced.value a, same]
  obtain ⟨linked, ins, outs, counted⟩ := sound
  cases advanced with
  | @goes pc goes =>
    refine ⟨spine, ⟨linked.goes goes, ins, outs, counted.goes goes⟩, ?_⟩
    have same : s.carried pc = s.carried (s.threads i) := by
      generalize s.threads i = pc' at goes
      cases goes with
      | popValue read => exact read.symm
      | popNil | popLoad | popNext | popAgain | pushAgain => rfl
    rw [goto_threads_self, same]
  | @aimed item here =>
    refine ⟨spine, ⟨linked.aimed here, ins, outs, counted.stay rfl rfl ?_ ?_⟩, ?_⟩
    · rw [here]
      rfl
    · rw [here]
      rfl
    · rw [goto_threads_self, here]
      rfl
  | @pushed item here =>
    have mine : (s.threads i).own = some item := by
      rw [here]
      rfl
    have after : (s.goto i .pushCount).threads i = .pushCount := goto_threads_self ..
    obtain ⟨v, value⟩ := isSome_iff_exists.mp (linked.own mine).2
    refine ⟨item :: spine, ⟨linked.pushed here, _, outs, counted.pushed here⟩, ?_⟩
    rw [after, here, values_cons value]
    simp only [carried, value, toList_some, toList_none, nil_append, singleton_append]
  | @popped item next here top =>
    obtain ⟨rest, rfl⟩ : ∃ rest, spine = item :: rest :=
      head?_eq_some_iff.mp (linked.chain.top.trans top)
    have after : (s.goto i (.popCount item)).threads i = .popCount item := goto_threads_self ..
    obtain ⟨v, value⟩ := isSome_iff_exists.mp (linked.valued mem_cons_self)
    refine ⟨rest, ⟨linked.popped here, ins, _, counted.popped here⟩, ?_⟩
    rw [after, here, values_cons value]
    simp only [carried, value, toList_some, toList_none, nil_append, singleton_append]
  | countIn here =>
    have after : (s.goto i .idle).threads i = .idle := goto_threads_self ..
    refine ⟨spine, ⟨linked.countIn i _, _, outs, counted.countIn here⟩, ?_⟩
    rw [after, here]
    rfl
  | @countOut item here =>
    have after : (s.goto i (.popValue item)).threads i = .popValue item := goto_threads_self ..
    refine ⟨spine, ⟨linked.countOut here _, ins, _, counted.countOut here⟩, ?_⟩
    rw [after, here]
    rfl

/-- A `Push` begins with a node that nothing refers to. -/
theorem push (resting : (s.threads i).running = false) (value : α) (free : ¬ s.Referenced a) :
    Sound spine ((s.setNode a { value := some value }).goto i (.pushLoad a)) := by
  obtain ⟨linked, ins, outs, counted⟩ := sound
  obtain ⟨entering, leaving⟩ := StackPc.counts_of_resting resting
  exact ⟨linked.push i value free, ins, outs, counted.stay rfl rfl entering.symm leaving.symm⟩

/-- A `Pop` begins, or the answer of a call is taken. -/
theorem rest (resting : (s.threads i).running = false)
    (plain : pc = .idle ∨ pc = .popLoad) : Sound spine (s.goto i pc) := by
  obtain ⟨linked, ins, outs, counted⟩ := sound
  obtain ⟨entering, leaving⟩ := StackPc.counts_of_resting resting
  refine ⟨linked.rest i plain, ins, outs, counted.stay rfl rfl ?_ ?_⟩
  · rcases plain with rfl | rfl <;> exact entering.symm
  · rcases plain with rfl | rfl <;> exact leaving.symm

/-- Once nobody is in a call, the length is the number of nodes. -/
theorem len (resting : ∀ i, (s.threads i).running = false) :
    s.len.toNat = spine.length % 2 ^ 64 := by
  obtain ⟨_, ins, outs, counted⟩ := sound
  have nobody : ins = ∅ :=
    counted.entering.eq_empty fun i => (StackPc.counts_of_resting (resting i)).1
  have none' : outs = ∅ :=
    counted.leaving.eq_empty fun i => (StackPc.counts_of_resting (resting i)).2
  have size := counted.len
  rw [nobody, none', Finset.card_empty, Nat.add_zero, Nat.add_zero] at size
  rw [← size, Nat.mod_eq_of_lt s.len.toNat_lt]

end Sound

/-- A `Push` gets a node that nothing refers to. -/
def Fresh (s : LockFreeStack α) : StackLabel α → Prop
  | .push _ _ node => ¬ s.Referenced node
  | _ => True

/-- Every step keeps the stack sound. -/
theorem Sound.step {label : StackLabel α} (sound : Sound spine s) (fresh : s.Fresh label)
    (done : s.step label = some s') : ∃ spine', Sound spine' s' := by
  cases label with
  | push i value node =>
    simp only [LockFreeStack.step] at done
    split_ifs at done with running
    cases done
    exact ⟨spine, sound.push (Bool.not_eq_true _ ▸ running) value fresh⟩
  | pop i =>
    simp only [LockFreeStack.step] at done
    split_ifs at done with running
    cases done
    exact ⟨spine, sound.rest (Bool.not_eq_true _ ▸ running) (.inr rfl)⟩
  | advance i =>
    obtain ⟨spine', after, _⟩ := sound.advanced (advance_advanced done)
    exact ⟨spine', after⟩

/-- In every run the nodes form a chain from the top on, and outside of all calls the length is
their number, as far as it can be counted. -/
theorem run_len {ls : List (StackLabel α)} (ran : run step ls newLockFreeStack = some s)
    (fresh : Along step Fresh ls newLockFreeStack) : ∃ spine, s.Spine spine ∧ spine.Nodup ∧
      ((∀ i, (s.threads i).running = false) → s.len.toNat = spine.length % 2 ^ 64) := by
  have preserved : ∀ (s : LockFreeStack α) label s', s.Fresh label → s.step label = some s' →
      (∃ spine, Sound spine s) → ∃ spine, Sound spine s' :=
    fun s label s' fresh done ⟨spine, sound⟩ => sound.step fresh done
  obtain ⟨spine, sound⟩ := invariant_of_run preserved ran fresh ⟨[], newLockFreeStack_sound⟩
  exact ⟨spine, sound.linked.chain, sound.linked.nodup, sound.len⟩

/-- The label is the begin of a `Push`. -/
def pushes : StackLabel α → Bool
  | .push _ _ _ => true
  | _ => false

/-- Only a `Push` needs a node. -/
theorem along_fresh {ls : List (StackLabel α)} (none' : ∀ label ∈ ls, pushes label = false) :
    Along step Fresh ls s := by
  refine (along_of_forall none').mono fun s label quiet => ?_
  cases label with
  | push => cases quiet
  | pop | advance => trivial

/-- A `Pop` reads the node on the top, which is gone when it comes to the swap. -/
def outrun : List (StackLabel Nat) :=
  .push 0 5 7 :: List.replicate 3 (.advance 0) ++ [.pop 1, .advance 1, .advance 1, .pop 2] ++
    List.replicate 5 (.advance 2) ++ List.replicate 2 (.advance 1)

theorem run_len_outrun : ∃ s spine, run step outrun newLockFreeStack = some s ∧
    s.Spine spine ∧ spine.Nodup ∧
    ((∀ i, (s.threads i).running = false) → s.len.toNat = spine.length % 2 ^ 64) := by
  obtain ⟨s, ran⟩ := isSome_iff_exists.mp
    (show (run step outrun newLockFreeStack).isSome = true by decide)
  obtain ⟨spine, sound⟩ := run_len ran
    ⟨newLockFreeStack_free 7, fun s _ => along_fresh (by decide)⟩
  exact ⟨s, spine, ran, sound⟩

end LockFreeStack

end Gain
