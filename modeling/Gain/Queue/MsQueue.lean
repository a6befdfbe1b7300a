import Mathlib.Logic.Function.Basic
import Mathlib.Tactic.SplitIfs
import Gain.Foundation.Machine
import Gain.Foundation.Run

/-! # The lock-free queue

`msQueue` and the goroutines that use it. A goroutine is where it is in its call,
with the local variables of the call, and one step of it is one load, one
compare-and-swap or one add. Nodes are never used for a second time. Two lists that
the code does not have keep the values in the order in which they were linked and
in the order in which the head moved over them.
-/

namespace Gain

open Function

/-- A node; the first one has no value. -/
structure QueueNode (α : Type) where
  value : Option α := none
  next : Option Nat := none

/-- Where a goroutine is in `Enqueue`, `Dequeue` or `IsEmpty`, named after what it does next. -/
inductive QueuePc (α : Type) where
  /-- No call, or `Enqueue` has returned. -/
  | idle
  /-- `IsEmpty` has returned. -/
  | checked (empty : Bool)
  /-- `Dequeue` has returned a value, or the zero value. -/
  | answered (value : Option α)
  | enqLoadTail (node : Nat)
  | enqLoadNext (node tail : Nat)
  | enqCheck (node tail : Nat) (next : Option Nat)
  | enqLink (node tail : Nat)
  | enqSwing (node tail : Nat)
  | enqHelp (node tail next : Nat)
  | enqCount
  | deqLoadHead
  | deqLoadTail (head : Nat)
  | deqLoadNext (head tail : Nat)
  | deqCheck (head tail : Nat) (next : Option Nat)
  | deqHelp (tail next : Nat)
  | deqValue (head : Nat) (next : Option Nat)
  | deqSwap (head next : Nat) (value : α)
  | deqCount (value : α)
deriving DecidableEq

namespace QueuePc

variable {α : Type}

/-- The goroutine is in a call of `Enqueue` or `Dequeue`. -/
def running : QueuePc α → Bool
  | idle | checked _ | answered _ => false
  | _ => true

/-- The goroutine is in a call of `Dequeue` that has not taken a value. -/
def dequeuing : QueuePc α → Bool
  | deqLoadHead | deqLoadTail _ | deqLoadNext _ _ | deqCheck _ _ _ | deqHelp _ _ | deqValue _ _
  | deqSwap _ _ _ => true
  | _ => false

/-- The goroutine has linked its node and not yet counted it. -/
def entering : QueuePc α → Bool
  | enqSwing _ _ | enqCount => true
  | _ => false

end QueuePc

inductive QueueLabel (α : Type) where
  | enqueue (i : Nat) (value : α)
  | dequeue (i : Nat)
  | isEmpty (i : Nat)
  /-- The goroutine makes the next step of its call. -/
  | advance (i : Nat)

structure MsQueue (α : Type) where
  head : Nat
  tail : Nat
  queueSize : Int
  /-- The heap, and the first address that is not in use. -/
  nodes : Nat → QueueNode α
  nextNode : Nat
  threads : Nat → QueuePc α
  /-- The values in the order of their `tail.next` swaps. -/
  enqueued : List α
  /-- The values in the order of their `head` swaps. -/
  dequeued : List α

namespace MsQueue

variable {α : Type}

/-- `NewQueue`, with every goroutine outside of the queue. -/
def newQueue : MsQueue α where
  head := 0
  tail := 0
  queueSize := 0
  nodes := fun _ => {}
  nextNode := 1
  threads := fun _ => .idle
  enqueued := []
  dequeued := []

/-- `IsEmpty` -/
def isEmpty (q : MsQueue α) : Bool := q.queueSize = 0

def goto (q : MsQueue α) (i : Nat) (pc : QueuePc α) : MsQueue α :=
  { q with threads := update q.threads i pc }

theorem goto_threads_self (q : MsQueue α) (i : Nat) (pc : QueuePc α) :
    (q.goto i pc).threads i = pc := update_self ..

theorem goto_threads_ne (q : MsQueue α) {i j : Nat} (pc : QueuePc α) (other : j ≠ i) :
    (q.goto i pc).threads j = q.threads j := update_of_ne other ..

theorem goto_goto (q : MsQueue α) (i : Nat) (pc pc' : QueuePc α) :
    (q.goto i pc).goto i pc' = q.goto i pc' := by
  rw [goto, goto, goto, update_idem]

/-- `cas(&q.tail, old, new)` -/
def casTail (q : MsQueue α) (old new : Nat) : MsQueue α :=
  if q.tail = old then { q with tail := new } else q

/-- The next step of a goroutine; a nil node has no value to read. -/
def advance (q : MsQueue α) (i : Nat) : Option (MsQueue α) :=
  match q.threads i with
  | .idle | .checked _ | .answered _ => none
  | .enqLoadTail node => some (q.goto i (.enqLoadNext node q.tail))
  | .enqLoadNext node tail => some (q.goto i (.enqCheck node tail (q.nodes tail).next))
  | .enqCheck node tail next =>
    if tail = q.tail then
      match next with
      | none => some (q.goto i (.enqLink node tail))
      | some next => some (q.goto i (.enqHelp node tail next))
    else some (q.goto i (.enqLoadTail node))
  | .enqLink node tail =>
    if (q.nodes tail).next = none then
      some { q.goto i (.enqSwing node tail) with
        nodes := update q.nodes tail { q.nodes tail with next := some node }
        enqueued := q.enqueued ++ (q.nodes node).value.toList }
    else some (q.goto i (.enqLoadTail node))
  | .enqSwing node tail => some ((q.casTail tail node).goto i .enqCount)
  | .enqHelp node tail next => some ((q.casTail tail next).goto i (.enqLoadTail node))
  | .enqCount => some { q.goto i .idle with queueSize := addInt32 q.queueSize 1 }
  | .deqLoadHead => some (q.goto i (.deqLoadTail q.head))
  | .deqLoadTail head => some (q.goto i (.deqLoadNext head q.tail))
  | .deqLoadNext head tail => some (q.goto i (.deqCheck head tail (q.nodes head).next))
  | .deqCheck head tail next =>
    if head = q.head then
      if head = tail then
        match next with
        | none => some (q.goto i (.answered none))
        | some next => some (q.goto i (.deqHelp tail next))
      else some (q.goto i (.deqValue head next))
    else some (q.goto i .deqLoadHead)
  | .deqHelp tail next => some ((q.casTail tail next).goto i .deqLoadHead)
  | .deqValue head next => do
    let next ← next
    let value ← (q.nodes next).value
    return q.goto i (.deqSwap head next value)
  | .deqSwap head next value =>
    if q.head = head then
      some { q.goto i (.deqCount value) with
        head := next, dequeued := q.dequeued ++ [value] }
    else some (q.goto i .deqLoadHead)
  | .deqCount value =>
    some { q.goto i (.answered (some value)) with queueSize := addInt32 q.queueSize (-1) }

/-- One step of one goroutine. `Enqueue` starts by allocating its node. -/
def step (q : MsQueue α) : QueueLabel α → Option (MsQueue α)
  | .enqueue i value =>
    if (q.threads i).running then none
    else some { q.goto i (.enqLoadTail q.nextNode) with
      nodes := update q.nodes q.nextNode { value := some value }
      nextNode := q.nextNode + 1 }
  | .dequeue i => if (q.threads i).running then none else some (q.goto i .deqLoadHead)
  | .isEmpty i =>
    if (q.threads i).running then none else some (q.goto i (.checked q.isEmpty))
  | .advance i => q.advance i

/-! ## What a step does

Most steps of a goroutine change its own variables only. The others link a node,
move the tail, move the head or count. -/

/-- A step of a call that reads the queue and changes its own variables. -/
inductive Goes (q : MsQueue α) : QueuePc α → QueuePc α → Prop
  | enqLoadTail {node : Nat} : Goes q (.enqLoadTail node) (.enqLoadNext node q.tail)
  | enqLoadNext {node tail : Nat} :
      Goes q (.enqLoadNext node tail) (.enqCheck node tail (q.nodes tail).next)
  | enqCheckNil {node tail : Nat} : Goes q (.enqCheck node tail none) (.enqLink node tail)
  | enqCheckSome {node tail next : Nat} :
      Goes q (.enqCheck node tail (some next)) (.enqHelp node tail next)
  | enqCheckAgain {node tail : Nat} {next : Option Nat} :
      Goes q (.enqCheck node tail next) (.enqLoadTail node)
  | enqLinkAgain {node tail : Nat} : Goes q (.enqLink node tail) (.enqLoadTail node)
  | enqSwingAgain {node tail : Nat} : Goes q (.enqSwing node tail) .enqCount
  | enqHelpAgain {node tail next : Nat} : Goes q (.enqHelp node tail next) (.enqLoadTail node)
  | deqLoadHead : Goes q .deqLoadHead (.deqLoadTail q.head)
  | deqLoadTail {head : Nat} : Goes q (.deqLoadTail head) (.deqLoadNext head q.tail)
  | deqLoadNext {head tail : Nat} :
      Goes q (.deqLoadNext head tail) (.deqCheck head tail (q.nodes head).next)
  | deqCheckNil {head : Nat} (same : head = q.head) :
      Goes q (.deqCheck head head none) (.answered none)
  | deqCheckSome {head next : Nat} : Goes q (.deqCheck head head (some next)) (.deqHelp head next)
  | deqCheckOther {head tail : Nat} {next : Option Nat} (other : head ≠ tail) :
      Goes q (.deqCheck head tail next) (.deqValue head next)
  | deqCheckAgain {head tail : Nat} {next : Option Nat} :
      Goes q (.deqCheck head tail next) .deqLoadHead
  | deqHelpAgain {tail next : Nat} : Goes q (.deqHelp tail next) .deqLoadHead
  | deqValue {head next : Nat} {value : α} (read : (q.nodes next).value = some value) :
      Goes q (.deqValue head (some next)) (.deqSwap head next value)
  | deqSwapAgain {head next : Nat} {value : α} : Goes q (.deqSwap head next value) .deqLoadHead

/-- A step of a call that moves the tail. -/
inductive Swings (old new : Nat) : QueuePc α → QueuePc α → Prop
  | enqSwing : Swings old new (.enqSwing new old) .enqCount
  | enqHelp {node : Nat} : Swings old new (.enqHelp node old new) (.enqLoadTail node)
  | deqHelp : Swings old new (.deqHelp old new) .deqLoadHead

/-- A goroutine has made a step of its call. -/
inductive Advanced (q : MsQueue α) (i : Nat) : MsQueue α → Prop
  | goes {pc : QueuePc α} (goes : q.Goes (q.threads i) pc) : Advanced q i (q.goto i pc)
  | link {node tail : Nat} (here : q.threads i = .enqLink node tail)
      (last : (q.nodes tail).next = none) :
      Advanced q i { q.goto i (.enqSwing node tail) with
        nodes := update q.nodes tail { q.nodes tail with next := some node }
        enqueued := q.enqueued ++ (q.nodes node).value.toList }
  | swing {new : Nat} {pc : QueuePc α} (swings : Swings q.tail new (q.threads i) pc) :
      Advanced q i { q.goto i pc with tail := new }
  | swap {next : Nat} {value : α} (here : q.threads i = .deqSwap q.head next value) :
      Advanced q i { q.goto i (.deqCount value) with
        head := next, dequeued := q.dequeued ++ [value] }
  | countIn (here : q.threads i = .enqCount) :
      Advanced q i { q.goto i .idle with queueSize := addInt32 q.queueSize 1 }
  | countOut {value : α} (here : q.threads i = .deqCount value) :
      Advanced q i { q.goto i (.answered (some value)) with
        queueSize := addInt32 q.queueSize (-1) }

variable {q q' : MsQueue α} {i : Nat}

/-- A swap of the tail succeeds or leaves the queue alone. -/
theorem advanced_of_casTail {old new : Nat} {pc : QueuePc α}
    (swings : Swings old new (q.threads i) pc) (goes : q.Goes (q.threads i) pc) :
    Advanced q i ((q.casTail old new).goto i pc) := by
  unfold casTail
  split_ifs with same
  · subst same
    exact .swing swings
  · exact .goes goes

/-- The code of a thread goes one of these ways. -/
theorem advance_advanced (done : q.advance i = some q') : Advanced q i q' := by
  have goes : ∀ {pc pc' : QueuePc α}, q.threads i = pc → q.Goes pc pc' →
      Advanced q i (q.goto i pc') := by
    intro pc pc' here step
    subst here
    exact .goes step
  have swings : ∀ {old new : Nat} {pc pc' : QueuePc α}, q.threads i = pc →
      Swings old new pc pc' → q.Goes pc pc' → Advanced q i ((q.casTail old new).goto i pc') := by
    intro old new pc pc' here swings step
    subst here
    exact advanced_of_casTail swings step
  unfold advance at done
  cases here : q.threads i with
  | idle | checked _ | answered _ => simp only [here, reduceCtorEq] at done
  | enqLoadTail node =>
    simp only [here, Option.some.injEq] at done
    subst done
    exact goes here .enqLoadTail
  | enqLoadNext node tail =>
    simp only [here, Option.some.injEq] at done
    subst done
    exact goes here .enqLoadNext
  | enqCheck node tail next =>
    simp only [here] at done
    split_ifs at done
    · cases next with
      | none =>
        cases done
        exact goes here .enqCheckNil
      | some next =>
        cases done
        exact goes here .enqCheckSome
    · cases done
      exact goes here .enqCheckAgain
  | enqLink node tail =>
    simp only [here] at done
    split_ifs at done with last
    · cases done
      exact .link here last
    · cases done
      exact goes here .enqLinkAgain
  | enqSwing node tail =>
    simp only [here, Option.some.injEq] at done
    subst done
    exact swings here .enqSwing .enqSwingAgain
  | enqHelp node tail next =>
    simp only [here, Option.some.injEq] at done
    subst done
    exact swings here .enqHelp .enqHelpAgain
  | enqCount =>
    simp only [here, Option.some.injEq] at done
    subst done
    exact .countIn here
  | deqLoadHead =>
    simp only [here, Option.some.injEq] at done
    subst done
    exact goes here .deqLoadHead
  | deqLoadTail head =>
    simp only [here, Option.some.injEq] at done
    subst done
    exact goes here .deqLoadTail
  | deqLoadNext head tail =>
    simp only [here, Option.some.injEq] at done
    subst done
    exact goes here .deqLoadNext
  | deqCheck head tail next =>
    simp only [here] at done
    split_ifs at done with same last
    · subst last
      cases next with
      | none =>
        cases done
        exact goes here (.deqCheckNil same)
      | some next =>
        cases done
        exact goes here .deqCheckSome
    · cases done
      exact goes here (.deqCheckOther last)
    · cases done
      exact goes here .deqCheckAgain
  | deqHelp tail next =>
    simp only [here, Option.some.injEq] at done
    subst done
    exact swings here .deqHelp .deqHelpAgain
  | deqValue head next =>
    simp only [here] at done
    obtain ⟨next, rfl, rest⟩ := Option.bind_eq_some_iff.mp done
    obtain ⟨value, read, last⟩ := Option.bind_eq_some_iff.mp rest
    cases last
    exact goes here (.deqValue read)
  | deqSwap head next value =>
    simp only [here] at done
    split_ifs at done with same
    · subst same
      cases done
      exact .swap here
    · cases done
      exact goes here .deqSwapAgain
  | deqCount value =>
    simp only [here, Option.some.injEq] at done
    subst done
    exact .countOut here

end MsQueue

end Gain
