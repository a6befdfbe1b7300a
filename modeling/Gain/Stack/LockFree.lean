import Mathlib.Logic.Function.Basic
import Mathlib.Tactic.SplitIfs

/-! # The lock-free stack

`stack.Stack` and the goroutines that use it. A goroutine is where it is in its call,
with the local variables of the call, and one step of it is one load, one
compare-and-swap or one add. A `Push` chooses the address of its node, which may be
one that was used before.
-/

namespace Gain

open Function

/-- A node; an address that was never used has no value. -/
structure StackNode (α : Type) where
  value : Option α := none
  next : Option Nat := none

/-- Where a goroutine is in `Push` or `Pop`, named after what it does next. -/
inductive StackPc (α : Type) where
  /-- No call, or `Push` has returned. -/
  | idle
  /-- `Pop` has returned a value, or the zero value. -/
  | answered (value : Option α)
  | popLoad
  | popNext (top : Nat)
  | popSwap (top : Nat) (next : Option Nat)
  | popCount (item : Nat)
  | popValue (item : Nat)
  | pushLoad (item : Nat)
  | pushSwap (item : Nat) (top : Option Nat)
  | pushCount
  deriving DecidableEq

namespace StackPc

variable {α : Type}

/-- The goroutine is in a call. -/
def running : StackPc α → Bool
  | idle | answered _ => false
  | _ => true

theorem running_of_idle {pc : StackPc α} (idle : pc = idle) : pc.running = false := by
  rw [idle]
  rfl

theorem running_of_answered {pc : StackPc α} {value : Option α} (answer : pc = answered value) :
    pc.running = false := by
  rw [answer]
  rfl

/-- The nodes in the local variables of a call. -/
def pointers : StackPc α → List Nat
  | popNext top => [top]
  | popSwap top next => top :: next.toList
  | popCount item | popValue item | pushLoad item => [item]
  | pushSwap item top => item :: top.toList
  | _ => []

end StackPc

inductive StackLabel (α : Type) where
  /-- `Push` with the address of its node. -/
  | push (i : Nat) (value : α) (node : Nat)
  | pop (i : Nat)
  /-- The goroutine makes the next step of its call. -/
  | advance (i : Nat)

structure LockFreeStack (α : Type) where
  top : Option Nat
  len : UInt64
  nodes : Nat → StackNode α
  threads : Nat → StackPc α

namespace LockFreeStack

variable {α : Type} {i : Nat}

/-- `NewLockFreeStack`, with every goroutine outside of the stack. -/
def newLockFreeStack : LockFreeStack α where
  top := none
  len := 0
  nodes := fun _ => {}
  threads := fun _ => .idle

def goto (s : LockFreeStack α) (i : Nat) (pc : StackPc α) : LockFreeStack α :=
  { s with threads := update s.threads i pc }

theorem goto_threads_self (s : LockFreeStack α) (i : Nat) (pc : StackPc α) :
    (s.goto i pc).threads i = pc := update_self ..

theorem goto_threads_ne (s : LockFreeStack α) {j : Nat} (pc : StackPc α) (other : j ≠ i) :
    (s.goto i pc).threads j = s.threads j := update_of_ne other ..

theorem goto_goto (s : LockFreeStack α) (i : Nat) (pc pc' : StackPc α) :
    (s.goto i pc).goto i pc' = s.goto i pc' :=
  congrArg (fun threads => { s with threads }) (update_idem ..)

theorem goto_self {s : LockFreeStack α} {pc : StackPc α} (here : s.threads i = pc) :
    s.goto i pc = s := by
  subst here
  exact congrArg (fun threads => { s with threads }) (update_eq_self ..)

/-- A node is written. -/
def setNode (s : LockFreeStack α) (a : Nat) (node : StackNode α) : LockFreeStack α :=
  { s with nodes := update s.nodes a node }

theorem setNode_self (s : LockFreeStack α) (a : Nat) (node : StackNode α) :
    (s.setNode a node).nodes a = node := update_self ..

theorem setNode_ne (s : LockFreeStack α) {a b : Nat} (node : StackNode α) (other : b ≠ a) :
    (s.setNode a node).nodes b = s.nodes b := update_of_ne other ..

/-- The next step of a goroutine. A `Push` stores what it has loaded in its own node at once, and
what is popped is counted before its value is read. -/
def advance (s : LockFreeStack α) (i : Nat) : Option (LockFreeStack α) :=
  match s.threads i with
  | .idle | .answered _ => none
  | .popLoad =>
    match s.top with
    | none => some (s.goto i (.answered none))
    | some top => some (s.goto i (.popNext top))
  | .popNext top => some (s.goto i (.popSwap top (s.nodes top).next))
  | .popSwap top next =>
    if s.top = some top then some { s.goto i (.popCount top) with top := next }
    else some (s.goto i .popLoad)
  | .popCount item => some { s.goto i (.popValue item) with len := s.len + ~~~0 }
  | .popValue item => do
    let value ← (s.nodes item).value
    return s.goto i (.answered (some value))
  | .pushLoad item =>
    some ((s.setNode item { s.nodes item with next := s.top }).goto i (.pushSwap item s.top))
  | .pushSwap item top =>
    if s.top = top then some { s.goto i .pushCount with top := some item }
    else some (s.goto i (.pushLoad item))
  | .pushCount => some { s.goto i .idle with len := s.len + 1 }

/-- One step of one goroutine. -/
def step (s : LockFreeStack α) : StackLabel α → Option (LockFreeStack α)
  | .push i value node =>
    if (s.threads i).running then none
    else some ((s.setNode node { value := some value }).goto i (.pushLoad node))
  | .pop i => if (s.threads i).running then none else some (s.goto i .popLoad)
  | .advance i => s.advance i

theorem step_push {s : LockFreeStack α} (resting : (s.threads i).running = false) (value : α)
    (node : Nat) : s.step (.push i value node) =
      some ((s.setNode node { value := some value }).goto i (.pushLoad node)) :=
  if_neg (Bool.eq_false_iff.mp resting)

theorem step_pop {s : LockFreeStack α} (resting : (s.threads i).running = false) :
    s.step (.pop i) = some (s.goto i .popLoad) :=
  if_neg (Bool.eq_false_iff.mp resting)

/-! ## What a step does

Most steps of a goroutine change its own variables only. The others write the node of
a `Push`, move the top or count. -/

/-- A step of a call that reads the stack and changes its own variables. -/
inductive Goes (s : LockFreeStack α) : StackPc α → StackPc α → Prop
  | popNil (empty : s.top = none) : Goes s .popLoad (.answered none)
  | popLoad {top : Nat} (here : s.top = some top) : Goes s .popLoad (.popNext top)
  | popNext {top : Nat} : Goes s (.popNext top) (.popSwap top (s.nodes top).next)
  | popAgain {top : Nat} {next : Option Nat} : Goes s (.popSwap top next) .popLoad
  | popValue {item : Nat} {value : α} (read : (s.nodes item).value = some value) :
      Goes s (.popValue item) (.answered (some value))
  | pushAgain {item : Nat} {top : Option Nat} : Goes s (.pushSwap item top) (.pushLoad item)

/-- A goroutine has made a step of its call. -/
inductive Advanced (s : LockFreeStack α) (i : Nat) : LockFreeStack α → Prop
  | goes {pc : StackPc α} (goes : s.Goes (s.threads i) pc) : Advanced s i (s.goto i pc)
  | aimed {item : Nat} (here : s.threads i = .pushLoad item) :
      Advanced s i
        ((s.setNode item { s.nodes item with next := s.top }).goto i (.pushSwap item s.top))
  | pushed {item : Nat} (here : s.threads i = .pushSwap item s.top) :
      Advanced s i { s.goto i .pushCount with top := some item }
  | popped {item : Nat} {next : Option Nat} (here : s.threads i = .popSwap item next)
      (top : s.top = some item) : Advanced s i { s.goto i (.popCount item) with top := next }
  | countIn (here : s.threads i = .pushCount) :
      Advanced s i { s.goto i .idle with len := s.len + 1 }
  | countOut {item : Nat} (here : s.threads i = .popCount item) :
      Advanced s i { s.goto i (.popValue item) with len := s.len + ~~~0 }

variable {s s' : LockFreeStack α} {i : Nat}

/-- The code of a thread goes one of these ways. -/
theorem advance_advanced (done : s.advance i = some s') : Advanced s i s' := by
  have goes : ∀ {pc pc' : StackPc α}, s.threads i = pc → s.Goes pc pc' →
      Advanced s i (s.goto i pc') := by
    intro pc pc' here step
    subst here
    exact .goes step
  unfold advance at done
  cases here : s.threads i with
  | idle | answered _ => simp only [here, reduceCtorEq] at done
  | popLoad =>
    simp only [here] at done
    cases top : s.top with
    | none =>
      simp only [top, Option.some.injEq] at done
      subst done
      exact goes here (.popNil top)
    | some a =>
      simp only [top, Option.some.injEq] at done
      subst done
      exact goes here (.popLoad top)
  | popNext top =>
    simp only [here, Option.some.injEq] at done
    subst done
    exact goes here .popNext
  | popSwap top next =>
    simp only [here] at done
    split_ifs at done with same
    · cases done
      exact .popped here same
    · cases done
      exact goes here .popAgain
  | popCount item =>
    simp only [here, Option.some.injEq] at done
    subst done
    exact .countOut here
  | popValue item =>
    simp only [here] at done
    obtain ⟨value, read, last⟩ := Option.bind_eq_some_iff.mp done
    cases last
    exact goes here (.popValue read)
  | pushLoad item =>
    simp only [here, Option.some.injEq] at done
    subst done
    exact .aimed here
  | pushSwap item top =>
    simp only [here] at done
    split_ifs at done with same
    · subst same
      cases done
      exact .pushed here
    · cases done
      exact goes here .pushAgain
  | pushCount =>
    simp only [here, Option.some.injEq] at done
    subst done
    exact .countIn here

end LockFreeStack

end Gain
