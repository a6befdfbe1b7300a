import Mathlib.Data.Multiset.AddSub
import Gain.Foundation.Chain
import Gain.Stack.LockFree

/-! # The nodes of the stack form a chain

From the top on, every node points to the one below it. A node that a goroutine has
yet to push, or has just taken off, is not among them and belongs to that goroutine
alone. What was read of a node stays true as long as the goroutine refers to it, as
its address is not used for another node before.
-/

namespace Gain

open List

variable {α : Type}

namespace StackPc

/-- The node that a goroutine has yet to push. -/
def item : StackPc α → Option Nat
  | pushLoad item | pushSwap item _ => some item
  | _ => none

/-- The node that belongs to the goroutine, because it is not pushed yet or was taken off. -/
def own : StackPc α → Option Nat
  | pushLoad item | pushSwap item _ | popCount item | popValue item => some item
  | _ => none

/-- The node that a goroutine found on the top. -/
def seen : StackPc α → Option Nat
  | popNext top | popSwap top _ => some top
  | _ => none

variable {pc : StackPc α} {a : Nat}

theorem own_of_item (pushing : pc.item = some a) : pc.own = some a := by
  cases pc with
  | pushLoad _ | pushSwap _ _ => exact pushing
  | idle | answered _ | popLoad | popNext _ | popSwap _ _ | popCount _ | popValue _ | pushCount =>
    cases pushing

theorem item_of_seen (found : pc.seen = some a) : pc.item = none := by
  cases pc with
  | popNext _ | popSwap _ _ => rfl
  | idle | answered _ | popLoad | popCount _ | popValue _ | pushLoad _ | pushSwap _ _ | pushCount =>
    cases found

theorem mem_pointers_of_own (mine : pc.own = some a) : a ∈ pc.pointers := by
  cases pc with
  | pushLoad _ | pushSwap _ _ | popCount _ | popValue _ =>
    cases mine
    exact mem_cons_self
  | idle | answered _ | popLoad | popNext _ | popSwap _ _ | pushCount => cases mine

theorem mem_pointers_of_seen (found : pc.seen = some a) : a ∈ pc.pointers := by
  cases pc with
  | popNext _ | popSwap _ _ =>
    cases found
    exact mem_cons_self
  | idle | answered _ | popLoad | popCount _ | popValue _ | pushLoad _ | pushSwap _ _ | pushCount =>
    cases found

end StackPc

namespace LockFreeStack

variable {s s' : LockFreeStack α} {spine : List Nat} {i j a : Nat} {pc : StackPc α}

/-- The nodes from the top on. -/
structure Spine (s : LockFreeStack α) (spine : List Nat) : Prop where
  top : spine.head? = s.top
  next : Chained (fun a => (s.nodes a).next) spine

/-- The node is on the stack or in a variable of a call. -/
def Referenced (s : LockFreeStack α) (a : Nat) : Prop :=
  (∃ spine, s.Spine spine ∧ a ∈ spine) ∨ ∃ i, a ∈ (s.threads i).pointers

theorem newLockFreeStack_free (a : Nat) : ¬ (newLockFreeStack : LockFreeStack α).Referenced a := by
  rintro (⟨spine, chain, inside⟩ | ⟨i, inside⟩)
  · rw [head?_eq_none_iff.mp chain.top] at inside
    cases inside
  · cases inside

/-- What was read of a node is still there. -/
def Local (s : LockFreeStack α) : StackPc α → Prop
  | .popSwap top next => (s.nodes top).next = next
  | .pushSwap item top => (s.nodes item).next = top
  | _ => True

/-- A goroutine refers to nodes that nobody writes. -/
theorem Local.congr (here : s.Local pc)
    (same : ∀ a, pc.seen = some a ∨ pc.own = some a → s'.nodes a = s.nodes a) : s'.Local pc := by
  cases pc with
  | popSwap top next =>
    change (s'.nodes top).next = next
    rw [same top (.inl rfl)]
    exact here
  | pushSwap item top =>
    change (s'.nodes item).next = top
    rw [same item (.inr rfl)]
    exact here
  | idle | answered _ | popLoad | popNext _ | popCount _ | popValue _ | pushLoad _ | pushCount =>
    trivial

structure Linked (spine : List Nat) (s : LockFreeStack α) : Prop where
  chain : s.Spine spine
  nodup : spine.Nodup
  valued : ∀ {a}, a ∈ spine → (s.nodes a).value.isSome = true
  own : ∀ {i a}, (s.threads i).own = some a → a ∉ spine ∧ (s.nodes a).value.isSome = true
  apart : ∀ {i j a}, (s.threads i).own = some a → (s.threads j).own = some a → i = j
  seen : ∀ {i j a}, (s.threads i).seen = some a → (s.threads j).item ≠ some a
  locals : ∀ i, s.Local (s.threads i)

theorem newLockFreeStack_linked : Linked [] (newLockFreeStack : LockFreeStack α) where
  chain := ⟨rfl, Chained.nil⟩
  nodup := nodup_nil
  valued := nofun
  own := nofun
  apart := nofun
  seen := nofun
  locals := fun _ => trivial

namespace Linked

/-- What a goroutine refers to it referred to before, where the one that moves takes nothing up. -/
theorem of_goto {refers : StackPc α → Option Nat}
    (kept : refers pc = refers (s.threads i) ∨ refers pc = none)
    (found : refers ((s.goto i pc).threads j) = some a) : refers (s.threads j) = some a := by
  by_cases same : j = i
  · subst same
    rw [goto_threads_self] at found
    rcases kept with kept | none'
    · rw [← kept]
      exact found
    · cases none'.symm.trans found
  · rw [goto_threads_ne s pc same] at found
    exact found

variable (linked : Linked spine s)
include linked

/-- The goroutines refer to as much as before when one of them has moved. -/
theorem goto (own : pc.own = (s.threads i).own ∨ pc.own = none)
    (item : pc.item = (s.threads i).item ∨ pc.item = none)
    (seen : ∀ {a}, pc.seen = some a → (s.threads i).seen = some a ∨ a ∈ spine)
    (here : s.Local pc) : Linked spine (s.goto i pc) := by
  refine { linked with
    chain := ⟨linked.chain.top, linked.chain.next⟩
    own := fun mine => linked.own (of_goto own mine)
    apart := fun mine mine' => linked.apart (of_goto own mine) (of_goto own mine')
    seen := fun {j k a} found pushing => ?_
    locals := fun j => ?_ }
  · have pushed := of_goto item pushing
    by_cases same : j = i
    · subst same
      rw [goto_threads_self] at found
      rcases seen found with before | inside
      · exact linked.seen before pushed
      · exact (linked.own (StackPc.own_of_item pushed)).1 inside
    · rw [goto_threads_ne s pc same] at found
      exact linked.seen found pushed
  · by_cases same : j = i
    · subst same
      rw [goto_threads_self]
      exact here
    · rw [goto_threads_ne s pc same]
      exact linked.locals j

/-- A goroutine goes on with its own variables. -/
theorem goes (goes : s.Goes (s.threads i) pc) : Linked spine (s.goto i pc) := by
  generalize here : s.threads i = pc' at goes
  cases goes with
  | popNil | popAgain | popValue => exact linked.goto (.inr rfl) (.inr rfl) nofun trivial
  | @popLoad top found =>
    refine linked.goto (.inr rfl) (.inr rfl) (fun same => .inr ?_) trivial
    cases same
    exact mem_of_head? (linked.chain.top.trans found)
  | popNext =>
    refine linked.goto (.inr rfl) (.inr rfl) (fun same => .inl ?_) rfl
    rw [here]
    exact same
  | pushAgain =>
    refine linked.goto (.inl ?_) (.inl ?_) nofun trivial
    · rw [here]
      rfl
    · rw [here]
      rfl

/-- A goroutine takes up a node that nobody else has. -/
theorem apart_goto {k b : Nat} (alone : ∀ j ≠ i, (s.threads j).own ≠ some a) (own : pc.own = some a)
    (first : ((s.goto i pc).threads j).own = some b)
    (second : ((s.goto i pc).threads k).own = some b) : j = k := by
  by_cases same : j = i <;> by_cases same' : k = i
  · rw [same, same']
  · rw [same, goto_threads_self, own] at first
    rw [goto_threads_ne s pc same'] at second
    cases first
    exact absurd second (alone k same')
  · rw [same', goto_threads_self, own] at second
    rw [goto_threads_ne s pc same] at first
    cases second
    exact absurd first (alone j same)
  · rw [goto_threads_ne s pc same] at first
    rw [goto_threads_ne s pc same'] at second
    exact linked.apart first second

/-- A goroutine writes a node that is its own from now on. -/
theorem write {node : StackNode α} (valued : node.value.isSome = true) (outside : a ∉ spine)
    (alone : ∀ j ≠ i, (s.threads j).seen ≠ some a ∧ (s.threads j).own ≠ some a)
    (own : pc.own = some a) (item : pc.item = some a) (here : (s.setNode a node).Local pc) :
    Linked spine ((s.setNode a node).goto i pc) := by
  have seen : pc.seen = none := by
    cases found : pc.seen with
    | none => rfl
    | some b => cases (StackPc.item_of_seen found).symm.trans item
  have others : ∀ {j}, j ≠ i → ((s.setNode a node).goto i pc).threads j = s.threads j :=
    fun other => goto_threads_ne _ pc other
  have mine : ((s.setNode a node).goto i pc).threads i = pc := goto_threads_self _ i pc
  have kept : ∀ {b}, b ≠ a → ((s.setNode a node).goto i pc).nodes b = s.nodes b :=
    fun other => setNode_ne s node other
  refine ⟨⟨linked.chain.top, linked.chain.next.congr fun b inside => ?_⟩, linked.nodup,
    fun {b} inside => ?_, fun {j b} owns => ?_, fun {j k b} owns owns' => ?_,
    fun {j k b} found pushing => ?_, fun j => ?_⟩
  · rw [kept (ne_of_mem_of_not_mem inside outside)]
  · rw [kept (ne_of_mem_of_not_mem inside outside)]
    exact linked.valued inside
  · by_cases same : j = i
    · rw [same, mine, own] at owns
      cases owns
      refine ⟨outside, ?_⟩
      change ((s.setNode a node).nodes a).value.isSome = true
      rw [setNode_self]
      exact valued
    · rw [others same] at owns
      rw [kept fun equal => (alone j same).2 (equal ▸ owns)]
      exact linked.own owns
  · exact linked.apart_goto (fun j other => (alone j other).2) own owns owns'
  · have other : j ≠ i := by
      rintro rfl
      rw [mine, seen] at found
      cases found
    rw [others other] at found
    by_cases same : k = i
    · rw [same, mine, item] at pushing
      cases pushing
      exact (alone j other).1 found
    · rw [others same] at pushing
      exact linked.seen found pushing
  · by_cases same : j = i
    · rw [same, mine]
      exact here
    · rw [others same]
      refine (linked.locals j).congr fun b refers => kept ?_
      rintro rfl
      exact refers.elim (alone j same).1 (alone j same).2

/-- A `Push` stores the top in its node. -/
theorem aimed (here : s.threads i = .pushLoad a) :
    Linked spine ((s.setNode a { s.nodes a with next := s.top }).goto i (.pushSwap a s.top)) := by
  have mine : (s.threads i).own = some a := by
    rw [here]
    rfl
  have pushing : (s.threads i).item = some a := by
    rw [here]
    rfl
  refine linked.write (linked.own mine).2 (linked.own mine).1 (fun j other => ⟨fun found => ?_,
    fun own => other (linked.apart own mine)⟩) rfl rfl ?_
  · exact linked.seen found pushing
  · change ((s.setNode a _).nodes a).next = s.top
    rw [setNode_self]

/-- A `Push` begins with a node that nothing refers to. -/
theorem push (i : Nat) (value : α) (free : ¬ s.Referenced a) :
    Linked spine ((s.setNode a { value := some value }).goto i (.pushLoad a)) := by
  have outside : ∀ j, a ∉ (s.threads j).pointers := fun j inside => free (.inr ⟨j, inside⟩)
  refine linked.write rfl (fun inside => free (.inl ⟨spine, linked.chain, inside⟩))
    (fun j _ => ⟨fun found => ?_, fun own => ?_⟩) rfl rfl trivial
  · exact outside j (StackPc.mem_pointers_of_seen found)
  · exact outside j (StackPc.mem_pointers_of_own own)

/-- The top moves to a node that was pushed. -/
theorem pushed (here : s.threads i = .pushSwap a s.top) :
    Linked (a :: spine) { s.goto i .pushCount with top := some a } := by
  have mine : (s.threads i).own = some a := by
    rw [here]
    rfl
  have aims : (s.nodes a).next = s.top := by
    have read := linked.locals i
    rw [here] at read
    exact read
  obtain ⟨outside, valued⟩ := linked.own mine
  have moved : Linked spine (s.goto i .pushCount) := linked.goto (.inr rfl) (.inr rfl) nofun trivial
  have left : ∀ {j b}, ((s.goto i .pushCount).threads j).own = some b → b ≠ a := by
    rintro j b owns rfl
    by_cases same : j = i
    · rw [same, goto_threads_self] at owns
      cases owns
    · rw [goto_threads_ne s _ same] at owns
      exact same (linked.apart owns mine)
  refine { moved with
    chain := ⟨rfl, moved.chain.next.cons (aims.trans linked.chain.top.symm)⟩
    nodup := nodup_cons.mpr ⟨outside, linked.nodup⟩
    valued := fun {b} inside => ?_
    own := fun {j b} owns => ?_ }
  · rcases mem_cons.mp inside with rfl | inside
    · exact valued
    · exact linked.valued inside
  · obtain ⟨away, full⟩ := moved.own owns
    exact ⟨fun inside => (mem_cons.mp inside).elim (left owns) away, full⟩

omit linked

/-- The top moves to the node below, and the node that was on it belongs to the goroutine. -/
theorem popped {rest : List Nat} (linked : Linked (a :: rest) s) {next : Option Nat}
    (here : s.threads i = .popSwap a next) :
    Linked rest { s.goto i (.popCount a) with top := next } := by
  have read : (s.nodes a).next = next := by
    have read := linked.locals i
    rw [here] at read
    exact read
  obtain ⟨outside, nodup⟩ := nodup_cons.mp linked.nodup
  have others : ∀ {j}, j ≠ i → (s.goto i (.popCount a)).threads j = s.threads j :=
    fun other => goto_threads_ne s _ other
  have mine : (s.goto i (.popCount a)).threads i = .popCount a := goto_threads_self ..
  have nobody : ∀ j, (s.threads j).own ≠ some a := fun j owns => (linked.own owns).1 mem_cons_self
  refine ⟨⟨linked.chain.next.head.symm.trans read, linked.chain.next.of_cons⟩, nodup,
    fun inside => linked.valued (mem_cons_of_mem a inside), fun {j b} owns => ?_,
    fun {j k b} owns owns' => ?_, fun {j k b} found pushing => ?_, fun j => ?_⟩
  · by_cases same : j = i
    · rw [same, mine] at owns
      cases owns
      exact ⟨outside, linked.valued mem_cons_self⟩
    · rw [others same] at owns
      obtain ⟨away, full⟩ := linked.own owns
      exact ⟨fun inside => away (mem_cons_of_mem a inside), full⟩
  · exact linked.apart_goto (fun j _ => nobody j) rfl owns owns'
  · have other : j ≠ i := by
      rintro rfl
      rw [mine] at found
      cases found
    have other' : k ≠ i := by
      rintro rfl
      rw [mine] at pushing
      cases pushing
    rw [others other] at found
    rw [others other'] at pushing
    exact linked.seen found pushing
  · by_cases same : j = i
    · rw [same, mine]
      trivial
    · rw [others same]
      exact (linked.locals j).congr fun _ _ => rfl

/-- A goroutine goes to the start or to the end of a call. -/
theorem rest (linked : Linked spine s) (i : Nat) (plain : pc = .idle ∨ pc = .popLoad) :
    Linked spine (s.goto i pc) := by
  rcases plain with rfl | rfl <;> exact linked.goto (.inr rfl) (.inr rfl) nofun trivial

theorem countIn (linked : Linked spine s) (i : Nat) (len : UInt64) :
    Linked spine { s.goto i .idle with len := len } := by
  have rest : Linked spine (s.goto i .idle) := linked.rest i (.inl rfl)
  exact { rest with chain := ⟨rest.chain.top, rest.chain.next⟩ }

theorem countOut (linked : Linked spine s) (here : s.threads i = .popCount a) (len : UInt64) :
    Linked spine { s.goto i (.popValue a) with len := len } := by
  have rest : Linked spine (s.goto i (.popValue a)) := by
    refine linked.goto (.inl ?_) (.inr rfl) nofun trivial
    rw [here]
    rfl
  exact { rest with chain := ⟨rest.chain.top, rest.chain.next⟩ }

end Linked

end LockFreeStack

end Gain
