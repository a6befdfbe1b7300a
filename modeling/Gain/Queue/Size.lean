import Mathlib.Tactic.Ring
import Gain.Foundation.Tally
import Gain.Queue.Order

/-! # The size of the queue

`queueSize` is added to after a node was linked and subtracted from after the head
has moved, so that it differs from the number of values by the goroutines that are
in between. A single consumer that asks `IsEmpty` before every `Dequeue` is always
given a value, as long as the counter does not overflow.
-/

namespace Gain

open Function List

variable {α : Type}

namespace QueuePc

/-- The goroutine has taken a value and not yet counted it. -/
def leaving : QueuePc α → Bool
  | deqCount _ => true
  | _ => false

end QueuePc

namespace MsQueue

variable {q q' : MsQueue α} {c i : Nat} {label : QueueLabel α}

theorem Goes.entering {pc pc' : QueuePc α} (goes : q.Goes pc pc') : pc'.entering = pc.entering := by
  cases goes <;> rfl

theorem Goes.leaving {pc pc' : QueuePc α} (goes : q.Goes pc pc') :
    pc'.leaving = pc.leaving ∧ pc'.leaving = false := by
  cases goes <;> exact ⟨rfl, rfl⟩

/-- A `Dequeue` is not come into from outside. -/
theorem Goes.dequeuing {pc pc' : QueuePc α} (goes : q.Goes pc pc')
    (looking : pc'.dequeuing = true) : pc.dequeuing = true := by
  cases goes <;> first | rfl | cases looking

theorem Swings.counts {old new : Nat} {pc pc' : QueuePc α} (swings : Swings old new pc pc') :
    pc'.entering = pc.entering ∧ pc'.leaving = pc.leaving ∧ pc'.dequeuing = pc.dequeuing ∧
      pc'.leaving = false ∧ pc' ≠ .checked false ∧ ∀ v, pc' ≠ .answered v := by
  cases swings <;> exact ⟨rfl, rfl, rfl, rfl, nofun, nofun⟩

/-- Only the consumer calls `Dequeue`, and only after `IsEmpty` has returned false to it. -/
def Consumed (c : Nat) (q : MsQueue α) : QueueLabel α → Prop
  | .dequeue i => i = c ∧ q.threads c = .checked false
  | _ => True

/-- The counter is not at its largest value when it is added to. -/
def Countable (q : MsQueue α) : QueueLabel α → Prop
  | .advance i => q.threads i = .enqCount → q.queueSize < 2 ^ 31 - 1
  | _ => True

instance [DecidableEq α] (q : MsQueue α) (label : QueueLabel α) :
    Decidable (q.Consumed c label) := by
  cases label <;> unfold Consumed <;> infer_instance

instance [DecidableEq α] (q : MsQueue α) (label : QueueLabel α) :
    Decidable (q.Countable label) := by
  cases label <;> unfold Countable <;> infer_instance

/-- The counter, with the goroutines that are about to add and to subtract. -/
structure Counted (c : Nat) (ins outs : Finset Nat) (q : MsQueue α) : Prop where
  entering : Tallied QueuePc.entering q.threads ins
  leaving : Tallied QueuePc.leaving q.threads outs
  size : q.queueSize + ins.card + q.dequeued.length = q.enqueued.length + outs.card
  low : 0 ≤ q.queueSize
  high : q.queueSize < 2 ^ 31
  alone : ∀ {i}, (q.threads i).dequeuing = true ∨ (q.threads i).leaving = true → i = c
  sure : q.threads c = .checked false ∨ (q.threads c).dequeuing = true ∨
    (q.threads c).leaving = true → 0 < q.queueSize
  missed : q.Missed c
  value : ∀ {i v}, q.threads i = .deqCount v → v ∈ q.enqueued
  answer : ∀ {i v}, q.threads i = .answered v → ∃ u ∈ q.enqueued, v = some u

theorem newQueue_counted : Counted c ∅ ∅ (newQueue : MsQueue α) where
  entering := fun i => by simp [newQueue, QueuePc.entering]
  leaving := fun i => by simp [newQueue, QueuePc.leaving]
  size := rfl
  low := le_rfl
  high := show (0 : Int) < 2 ^ 31 by decide
  alone := by
    rintro i (gone | gone) <;> cases gone
  sure := by
    rintro (gone | gone | gone) <;> cases gone
  missed := fun _ _ gone => nomatch gone
  value := fun gone => nomatch gone
  answer := fun gone => nomatch gone

namespace Counted

variable {ins outs ins' outs' : Finset Nat} {pc : QueuePc α}

/-- While the consumer looks for a value there is one. -/
theorem found (counted : Counted c ins outs q) (looking : (q.threads c).dequeuing = true) :
    q.dequeued ≠ q.enqueued := by
  have nobody : outs = ∅ := by
    refine counted.leaving.eq_empty fun i => ?_
    by_contra some'
    rw [Bool.not_eq_false] at some'
    obtain rfl := counted.alone (Or.inr some')
    cases here : q.threads i <;> simp [here, QueuePc.leaving, QueuePc.dequeuing] at some' looking
  have size := counted.size
  have positive := counted.sure (Or.inr (Or.inl looking))
  rw [nobody, Finset.card_empty] at size
  intro same
  rw [same] at size
  omega

/-- One goroutine moves to a place that is in order for it. -/
structure Enters (c i : Nat) (q : MsQueue α) (pc : QueuePc α) : Prop where
  alone : pc.dequeuing = true ∨ pc.leaving = true → i = c
  sure : i = c → pc = .checked false ∨ pc.dequeuing = true ∨ pc.leaving = true → 0 < q.queueSize
  value : ∀ {v}, pc = .deqCount v → v ∈ q.enqueued
  answer : ∀ {v}, pc = .answered v → ∃ u ∈ q.enqueued, v = some u

/-- A place where there is nothing to ask for. -/
theorem Enters.of_plain (other : pc.dequeuing = false ∧ pc.leaving = false ∧ pc ≠ .checked false ∧
    ∀ v, pc ≠ .answered v) : Enters c i q pc := by
  obtain ⟨looking, gone, unchecked, unanswered⟩ := other
  refine ⟨?_, ?_, ?_, ?_⟩
  · rintro (here | here)
    · cases looking.symm.trans here
    · cases gone.symm.trans here
  · rintro _ (here | here | here)
    · exact absurd here unchecked
    · cases looking.symm.trans here
    · cases gone.symm.trans here
  · rintro v rfl
    cases gone
  · exact fun here => absurd here (unanswered _)

variable (counted : Counted c ins outs q)
include counted

/-- The counter after one goroutine has moved. -/
theorem moved (threads : q'.threads = update q.threads i pc)
    (entering : Tallied QueuePc.entering q'.threads ins')
    (leaving : Tallied QueuePc.leaving q'.threads outs')
    (size : q'.queueSize + ins'.card + q'.dequeued.length = q'.enqueued.length + outs'.card)
    (low : 0 ≤ q'.queueSize) (high : q'.queueSize < 2 ^ 31)
    (keeps : i ≠ c → q.queueSize ≤ q'.queueSize) (values : ∀ v ∈ q.enqueued, v ∈ q'.enqueued)
    (missed : q'.Missed c) (enters : Enters c i q' pc) : Counted c ins' outs' q' := by
  have self : q'.threads i = pc := by
    rw [threads, update_self]
  have rest : ∀ {j}, j ≠ i → q'.threads j = q.threads j := by
    intro j other
    rw [threads, update_of_ne other]
  refine ⟨entering, leaving, size, low, high, ?_, ?_, missed, ?_, ?_⟩
  · intro j busy
    by_cases mine : j = i
    · subst mine
      rw [self] at busy
      exact enters.alone busy
    · rw [rest mine] at busy
      exact counted.alone busy
  · intro busy
    by_cases mine : c = i
    · subst mine
      rw [self] at busy
      exact enters.sure rfl busy
    · rw [rest mine] at busy
      exact (counted.sure busy).trans_le (keeps (Ne.symm mine))
  · intro j v here
    by_cases mine : j = i
    · subst mine
      exact enters.value (self.symm.trans here)
    · rw [rest mine] at here
      exact values v (counted.value here)
  · intro j v here
    by_cases mine : j = i
    · subst mine
      exact enters.answer (self.symm.trans here)
    · rw [rest mine] at here
      obtain ⟨u, member, same⟩ := counted.answer here
      exact ⟨u, values u member, same⟩

/-- A goroutine moves on without having an effect on the counter. -/
theorem goto (threads : q'.threads = update q.threads i pc)
    (same : q'.queueSize = q.queueSize ∧ q'.enqueued = q.enqueued ∧ q'.dequeued = q.dequeued)
    (entering : pc.entering = (q.threads i).entering) (leaving : pc.leaving = (q.threads i).leaving)
    (missed : q'.Missed c) (enters : Enters c i q pc) : Counted c ins outs q' := by
  obtain ⟨size, enqueued, dequeued⟩ := same
  have enters' : Enters c i q' pc := by
    refine ⟨enters.alone, ?_, ?_, ?_⟩
    · rw [size]
      exact enters.sure
    · rw [enqueued]
      exact enters.value
    · rw [enqueued]
      exact enters.answer
  refine counted.moved threads ?_ ?_ ?_ ?_ ?_ (fun _ => size.ge) ?_ missed enters'
  · rw [threads]
    exact counted.entering.stay entering
  · rw [threads]
    exact counted.leaving.stay leaving
  · rw [size, enqueued, dequeued]
    exact counted.size
  · rw [size]
    exact counted.low
  · rw [size]
    exact counted.high
  · rw [enqueued]
    exact fun _ => id

/-- A step of a call that looks for a value, or of another one. -/
theorem enters_of_looking
    (looking : pc.dequeuing = true → (q.threads i).dequeuing = true) (gone : pc.leaving = false)
    (unchecked : pc ≠ .checked false) (unanswered : ∀ v, pc ≠ .answered v) : Enters c i q pc := by
  refine ⟨?_, ?_, ?_, fun here => absurd here (unanswered _)⟩
  · rintro (here | here)
    · exact counted.alone (Or.inl (looking here))
    · cases gone.symm.trans here
  · rintro rfl (here | here | here)
    · exact absurd here unchecked
    · exact counted.sure (Or.inr (Or.inl (looking here)))
    · cases gone.symm.trans here
  · rintro v rfl
    cases gone

variable {chain : List Nat} {h t : Nat}

/-- A thread goes on without counting. -/
theorem goes (goes : q.Goes (q.threads i) pc)
    (missed : (q.goto i pc).Missed c) : Counted c ins outs (q.goto i pc) := by
  refine counted.goto rfl ⟨rfl, rfl, rfl⟩ goes.entering goes.leaving.1 missed ?_
  refine counted.enters_of_looking goes.dequeuing goes.leaving.2 ?_ ?_
  · rintro rfl
    generalize q.threads i = pc at goes
    cases goes
  · rintro v rfl
    -- The check of the head would have found what the consumer was promised.
    generalize mine : q.threads i = pc at goes
    cases goes with
    | deqCheckNil same =>
      obtain rfl : i = c := counted.alone (Or.inl (by rw [mine]; rfl))
      exact counted.missed _ _ mine same.symm

/-- A node is linked and has yet to be counted. -/
theorem link (linked : Linked chain h t q) {node tail : Nat}
    (here : q.threads i = .enqLink node tail) {nodes : Nat → QueueNode α}
    (missed : Missed c { q.goto i (.enqSwing node tail) with
      nodes := nodes, enqueued := q.enqueued ++ (q.nodes node).value.toList }) :
    Counted c (insert i ins) outs { q.goto i (.enqSwing node tail) with
      nodes := nodes, enqueued := q.enqueued ++ (q.nodes node).value.toList } := by
  have outside : (q.threads i).entering = false := by
    rw [here]
    rfl
  have own : (q.threads i).unlinked = some node := by
    rw [here]
    rfl
  obtain ⟨v, value⟩ := Option.isSome_iff_exists.mp (linked.fresh own).2.2.2
  refine counted.moved rfl (counted.entering.enter outside rfl) (counted.leaving.stay ?_) ?_
    counted.low counted.high (fun _ => le_rfl) ?_ missed (.of_plain ⟨rfl, rfl, nofun, nofun⟩)
  · rw [here]
    rfl
  · rw [counted.entering.card_enter outside]
    change q.queueSize + ((ins.card + 1 : Nat) : Int) + q.dequeued.length =
      ((q.enqueued ++ (q.nodes node).value.toList).length : Int) + outs.card
    rw [value, Option.toList_some, length_append, length_singleton]
    have size := counted.size
    push_cast
    omega
  · exact fun v member => mem_append_left _ member

/-- A node is taken and has yet to be counted. -/
theorem swap (linked : Linked chain h t q) {next : Nat} {value : α}
    (here : q.threads i = .deqSwap q.head next value)
    (missed : Missed c { q.goto i (.deqCount value) with
      head := next, dequeued := q.dequeued ++ [value] }) :
    Counted c ins (insert i outs) { q.goto i (.deqCount value) with
      head := next, dequeued := q.dequeued ++ [value] } := by
  have outside : (q.threads i).leaving = false := by
    rw [here]
    rfl
  have looking : (q.threads i).dequeuing = true := by
    rw [here]
    rfl
  obtain rfl := counted.alone (Or.inl looking)
  have mine := linked.locals i
  rw [here] at mine
  obtain ⟨p, _, _, _, _, read⟩ := mine
  refine counted.moved rfl (counted.entering.stay ?_) (counted.leaving.enter outside rfl) ?_
    counted.low counted.high (fun _ => le_rfl) (fun _ => id) missed ⟨?_, ?_, ?_, nofun⟩
  · rw [here]
    rfl
  · rw [counted.leaving.card_enter outside]
    change q.queueSize + ins.card + ((q.dequeued ++ [value]).length : Int) =
      q.enqueued.length + ((outs.card + 1 : Nat) : Int)
    rw [length_append, length_singleton]
    have size := counted.size
    push_cast
    omega
  · exact fun _ => rfl
  · exact fun _ _ => counted.sure (Or.inr (Or.inl looking))
  · intro v same
    cases same
    exact mem_of_getElem? read

/-- An enqueued node is counted. -/
theorem countIn (here : q.threads i = .enqCount) (room : q.queueSize < 2 ^ 31 - 1)
    (missed : Missed c { q.goto i .idle with queueSize := addInt32 q.queueSize 1 }) :
    Counted c (ins.erase i) outs { q.goto i .idle with queueSize := addInt32 q.queueSize 1 } := by
  have inside : (q.threads i).entering = true := by
    rw [here]
    rfl
  have low := counted.low
  have added : addInt32 q.queueSize 1 = q.queueSize + 1 := addInt32_of_range (by omega) (by omega)
  refine counted.moved rfl (counted.entering.leave rfl) (counted.leaving.stay ?_) ?_ ?_ ?_ ?_
    (fun _ => id) missed (.of_plain ⟨rfl, rfl, nofun, nofun⟩)
  · rw [here]
    rfl
  · change addInt32 q.queueSize 1 + ((ins.erase i).card : Int) + q.dequeued.length =
      q.enqueued.length + outs.card
    have size := counted.size
    have one := counted.entering.card_leave inside
    omega
  · change 0 ≤ addInt32 q.queueSize 1
    omega
  · change addInt32 q.queueSize 1 < 2 ^ 31
    omega
  · intro _
    change q.queueSize ≤ addInt32 q.queueSize 1
    omega

/-- A dequeued node is counted. -/
theorem countOut {value : α} (here : q.threads i = .deqCount value)
    (missed : Missed c { q.goto i (.answered (some value)) with
      queueSize := addInt32 q.queueSize (-1) }) :
    Counted c ins (outs.erase i) { q.goto i (.answered (some value)) with
      queueSize := addInt32 q.queueSize (-1) } := by
  have inside : (q.threads i).leaving = true := by
    rw [here]
    rfl
  obtain rfl := counted.alone (Or.inr inside)
  have high := counted.high
  have positive := counted.sure (Or.inr (Or.inr inside))
  have subtracted : addInt32 q.queueSize (-1) = q.queueSize + -1 :=
    addInt32_of_range (by omega) (by omega)
  refine counted.moved rfl (counted.entering.stay ?_) (counted.leaving.leave rfl) ?_ ?_ ?_
    (fun other => absurd rfl other) (fun _ => id) missed ⟨?_, ?_, nofun, ?_⟩
  · rw [here]
    rfl
  · change addInt32 q.queueSize (-1) + (ins.card : Int) + q.dequeued.length =
      q.enqueued.length + (outs.erase i).card
    have size := counted.size
    have one := counted.leaving.card_leave inside
    omega
  · change 0 ≤ addInt32 q.queueSize (-1)
    omega
  · change addInt32 q.queueSize (-1) < 2 ^ 31
    omega
  · rintro (gone | gone) <;> cases gone
  · rintro _ (gone | gone | gone) <;> cases gone
  · intro v same
    cases same
    exact ⟨value, counted.value here, rfl⟩

/-- The counter after a step. -/
theorem step (linked : Linked chain h t q)
    (consumed : q.Consumed c label) (countable : q.Countable label)
    (done : q.step label = some q') : ∃ ins' outs', Counted c ins' outs' q' := by
  have missed := missed_of_step linked counted.found done counted.missed
  have idle : ∀ {i}, ¬ (q.threads i).running = true →
      (q.threads i).entering = false ∧ (q.threads i).leaving = false := by
    intro i resting
    cases here : q.threads i <;> simp [here, QueuePc.running, QueuePc.entering, QueuePc.leaving]
      at resting ⊢
  cases label with
  | enqueue i value =>
    simp only [MsQueue.step] at done
    split_ifs at done with running
    cases done
    obtain ⟨outside, staying⟩ := idle running
    refine ⟨ins, outs, counted.goto rfl ⟨rfl, rfl, rfl⟩ outside.symm staying.symm missed
      (.of_plain ⟨rfl, rfl, ?_, ?_⟩)⟩
    · rintro ⟨⟩
    · rintro _ ⟨⟩
  | dequeue i =>
    obtain ⟨rfl, checked⟩ := consumed
    simp only [MsQueue.step] at done
    split_ifs at done with running
    cases done
    obtain ⟨outside, staying⟩ := idle running
    refine ⟨ins, outs, counted.goto rfl ⟨rfl, rfl, rfl⟩ outside.symm staying.symm missed
      ⟨fun _ => rfl, fun _ _ => counted.sure (Or.inl checked), ?_, ?_⟩⟩
    · rintro _ ⟨⟩
    · rintro _ ⟨⟩
  | isEmpty i =>
    simp only [MsQueue.step] at done
    split_ifs at done with running
    cases done
    obtain ⟨outside, staying⟩ := idle running
    refine ⟨ins, outs, counted.goto rfl ⟨rfl, rfl, rfl⟩ outside.symm staying.symm missed
      ⟨?_, ?_, ?_, ?_⟩⟩
    · rintro (gone | gone) <;> cases gone
    · rintro _ (answer | gone | gone)
      · have nonzero : q.queueSize ≠ 0 := by
          simpa [MsQueue.isEmpty] using answer
        have := counted.low
        omega
      · cases gone
      · cases gone
    · rintro _ ⟨⟩
    · rintro _ ⟨⟩
  | advance i =>
    cases advance_advanced done with
    | goes goes => exact ⟨ins, outs, counted.goes goes missed⟩
    | link here last => exact ⟨insert i ins, outs, counted.link linked here missed⟩
    | swing swings =>
      obtain ⟨entering, leaving, looking, gone, unchecked, unanswered⟩ := swings.counts
      exact ⟨ins, outs, counted.goto rfl ⟨rfl, rfl, rfl⟩ entering leaving missed
        (counted.enters_of_looking (fun here => looking ▸ here) gone unchecked unanswered)⟩
    | swap here => exact ⟨ins, insert i outs, counted.swap linked here missed⟩
    | countIn here => exact ⟨ins.erase i, outs, counted.countIn here (countable here) missed⟩
    | countOut here => exact ⟨ins, outs.erase i, counted.countOut here missed⟩

end Counted

/-- In every run in which a single consumer asks before it dequeues and the counter does not
overflow, the counter is not negative, the consumer is only given values that were enqueued, and
when no call is underway the counter is 0 exactly when everything was dequeued. -/
theorem run_counted_of_countable {ls : List (QueueLabel α)} (ran : run step ls newQueue = some q)
    (consumed : Along step (Consumed c) ls newQueue)
    (countable : Along step Countable ls newQueue) :
    0 ≤ q.queueSize ∧
    (∀ answer, q.threads c = .answered answer → ∃ value ∈ q.enqueued, answer = some value) ∧
    ((∀ i, (q.threads i).running = false) → (q.isEmpty = true ↔ q.dequeued = q.enqueued)) := by
  have preserved : ∀ (s : MsQueue α) (l : QueueLabel α) (s' : MsQueue α),
      s.Consumed c l ∧ s.Countable l → s.step l = some s' →
      (∃ chain h t, Linked chain h t s) ∧ (∃ ins outs, Counted c ins outs s) →
      (∃ chain h t, Linked chain h t s') ∧ ∃ ins outs, Counted c ins outs s' := by
    rintro s l s' ⟨consumed, countable⟩ done ⟨⟨chain, h, t, linked⟩, ins, outs, counted⟩
    obtain ⟨chain', h', t', linked', _⟩ := linked.step done
    exact ⟨⟨chain', h', t', linked'⟩, counted.step linked consumed countable done⟩
  obtain ⟨⟨chain, h, t, linked⟩, ins, outs, counted⟩ :=
    invariant_of_run preserved ran (consumed.and countable)
      ⟨⟨[0], 0, 0, newQueue_linked⟩, ∅, ∅, newQueue_counted⟩
  refine ⟨counted.low, fun answer here => counted.answer here, fun resting => ?_⟩
  have nobody : ∀ i, (q.threads i).entering = false ∧ (q.threads i).leaving = false := by
    intro i
    have rests := resting i
    cases here : q.threads i <;> simp [here, QueuePc.running, QueuePc.entering, QueuePc.leaving]
      at rests ⊢
  have size := counted.size
  rw [counted.entering.eq_empty fun i => (nobody i).1,
    counted.leaving.eq_empty fun i => (nobody i).2,
    Finset.card_empty] at size
  rw [isEmpty, decide_eq_true_iff]
  constructor
  · intro zero
    have all : q.dequeued.length = q.enqueued.length := by omega
    rw [linked.taken] at all ⊢
    have initial := take_prefix h q.enqueued
    exact initial.eq_of_length all
  · intro same
    rw [same] at size
    omega

/-- Two goroutines put a value in each, and a third asks and takes one while they are not done. -/
def guarded : List (QueueLabel Nat) :=
  [QueueLabel.enqueue 0 7, QueueLabel.enqueue 1 8] ++ List.replicate 6 (QueueLabel.advance 0) ++
    List.replicate 3 (QueueLabel.advance 1) ++ QueueLabel.isEmpty 2 :: QueueLabel.dequeue 2 ::
    List.replicate 7 (QueueLabel.advance 2) ++ List.replicate 3 (QueueLabel.advance 1)

theorem run_counted_of_countable_guarded : ∃ q, run step guarded newQueue = some q ∧
    q.enqueued = [7, 8] ∧ q.threads 2 = .answered (some 7) ∧ 0 ≤ q.queueSize := by
  obtain ⟨q, ran, enqueued, answered⟩ : ∃ q, run step guarded newQueue = some q ∧
      q.enqueued = [7, 8] ∧ q.threads 2 = .answered (some 7) := exists_run_from (by decide)
  have consumed : Along step (Consumed 2) guarded newQueue := by decide
  have countable : Along step Countable guarded newQueue := by decide
  exact ⟨q, ran, enqueued, answered, (run_counted_of_countable ran consumed countable).1⟩

/-! ## The counter overflows -/

/-- One goroutine puts a value into a queue that nobody else uses. -/
def enqueueAlone (value : α) : List (QueueLabel α) :=
  .enqueue 0 value :: List.replicate 6 (.advance 0)

/-- Nobody is in a call and the tail is the last node. -/
structure Quiet (q : MsQueue α) : Prop where
  resting : ∀ i, q.threads i = .idle
  last : (q.nodes q.tail).next = none
  fresh : q.tail < q.nextNode

theorem newQueue_quiet : Quiet (newQueue : MsQueue α) := ⟨fun _ => rfl, rfl, Nat.one_pos⟩

/-- The value is linked behind the tail, and the tail moves to it. -/
def linkedAlone (q : MsQueue α) (value : α) : MsQueue α :=
  { q.goto 0 .idle with
    tail := q.nextNode
    queueSize := addInt32 q.queueSize 1
    nodes := update (update q.nodes q.nextNode { value := some value }) q.tail
      { q.nodes q.tail with next := some q.nextNode }
    nextNode := q.nextNode + 1
    enqueued := q.enqueued ++ [value] }

/-- One thread enqueues undisturbed. -/
theorem Quiet.run_enqueueAlone (quiet : q.Quiet) (value : α) :
    run step (enqueueAlone value) q = some (q.linkedAlone value) := by
  -- The node is allocated, and from then on only the goroutine moves until it links the node.
  let allocated : MsQueue α := { q with
    nodes := update q.nodes q.nextNode { value := some value },
    nextNode := q.nextNode + 1 }
  let linked : MsQueue α := { allocated with
    nodes := update allocated.nodes q.tail { q.nodes q.tail with next := some q.nextNode }
    enqueued := q.enqueued ++ [value] }
  let swung : MsQueue α := { linked with tail := q.nextNode }
  have tail : allocated.nodes q.tail = q.nodes q.tail := update_of_ne quiet.fresh.ne ..
  have node : allocated.nodes q.nextNode = { value := some value } := update_self ..
  have enqueue : q.step (.enqueue 0 value) = some (allocated.goto 0 (.enqLoadTail q.nextNode)) := by
    rw [step, quiet.resting 0]
    rfl
  have loadTail : (allocated.goto 0 (.enqLoadTail q.nextNode)).step (.advance 0) =
      some (allocated.goto 0 (.enqLoadNext q.nextNode q.tail)) := by
    rw [step, advance, goto_threads_self]
    exact congrArg some (goto_goto ..)
  have loadNext : (allocated.goto 0 (.enqLoadNext q.nextNode q.tail)).step (.advance 0) =
      some (allocated.goto 0 (.enqCheck q.nextNode q.tail none)) := by
    rw [step, advance, goto_threads_self]
    change some ((allocated.goto 0 _).goto 0 (.enqCheck _ _ (allocated.nodes q.tail).next)) = _
    rw [goto_goto, tail, quiet.last]
  have check : (allocated.goto 0 (.enqCheck q.nextNode q.tail none)).step (.advance 0) =
      some (allocated.goto 0 (.enqLink q.nextNode q.tail)) := by
    rw [step, advance, goto_threads_self]
    exact (if_pos rfl).trans (congrArg some (goto_goto ..))
  have link : (allocated.goto 0 (.enqLink q.nextNode q.tail)).step (.advance 0) =
      some (linked.goto 0 (.enqSwing q.nextNode q.tail)) := by
    have free : (allocated.nodes q.tail).next = none := by
      rw [tail, quiet.last]
    have value' : (allocated.nodes q.nextNode).value.toList = [value] := by
      rw [node]
      rfl
    rw [step, advance, goto_threads_self]
    refine (if_pos free).trans ?_
    change some { (allocated.goto 0 _).goto 0 (.enqSwing q.nextNode q.tail) with
      nodes := update allocated.nodes q.tail
        { allocated.nodes q.tail with next := some q.nextNode }
      enqueued := q.enqueued ++ (allocated.nodes q.nextNode).value.toList } = _
    rw [goto_goto, tail, value']
    rfl
  have swing : (linked.goto 0 (.enqSwing q.nextNode q.tail)).step (.advance 0) =
      some (swung.goto 0 .enqCount) := by
    have still : (linked.goto 0 (.enqSwing q.nextNode q.tail)).tail = q.tail := rfl
    rw [step, advance, goto_threads_self]
    change some (((linked.goto 0 _).casTail q.tail q.nextNode).goto 0 .enqCount) = _
    rw [casTail, if_pos still]
    exact congrArg some (goto_goto swung 0 _ _)
  have count : (swung.goto 0 .enqCount).step (.advance 0) = some (q.linkedAlone value) := by
    rw [step, advance, goto_threads_self]
    exact congrArg (fun s : MsQueue α => some { s with queueSize := addInt32 q.queueSize 1 })
      (goto_goto swung 0 .enqCount .idle)
  change run step [.enqueue 0 value, .advance 0, .advance 0, .advance 0, .advance 0, .advance 0,
    .advance 0] q = _
  rw [run_cons enqueue, run_cons loadTail, run_cons loadNext, run_cons check, run_cons link,
    run_cons swing, run_cons count]
  rfl

theorem Quiet.linkedAlone (quiet : q.Quiet) (value : α) : (q.linkedAlone value).Quiet where
  resting := by
    intro i
    by_cases self : i = 0
    · subst self
      exact goto_threads_self q 0 .idle
    · exact (goto_threads_ne q .idle self).trans (quiet.resting i)
  last := by
    have other : q.nextNode ≠ q.tail := quiet.fresh.ne'
    simp [MsQueue.linkedAlone, other]
  fresh := Nat.lt_succ_self q.nextNode

/-- So many values are put in, one after the other. -/
def filling (value : α) : Nat → List (QueueLabel α)
  | 0 => []
  | n + 1 => enqueueAlone value ++ filling value n

/-- One thread enqueues again and again. -/
theorem Quiet.run_filling (value : α) (n : Nat) {x : Int} (quiet : q.Quiet)
    (size : q.queueSize = x.bmod (2 ^ 32)) : ∃ q', run step (filling value n) q = some q' ∧
      q'.Quiet ∧ q'.queueSize = (x + n).bmod (2 ^ 32) := by
  induction n generalizing q x with
  | zero =>
    rw [Int.natCast_zero, Int.add_zero]
    exact ⟨q, rfl, quiet, size⟩
  | succ n ih =>
    have more : (q.linkedAlone value).queueSize = (x + 1).bmod (2 ^ 32) := by
      change addInt32 q.queueSize 1 = _
      rw [size, addInt32_bmod]
    obtain ⟨q', ran, quiet', size'⟩ := ih (quiet.linkedAlone value) more
    refine ⟨q', ?_, quiet', ?_⟩
    · rw [filling, run_append, quiet.run_enqueueAlone value]
      exact ran
    · rw [size', Int.natCast_add, Int.natCast_one, Int.add_assoc, Int.add_comm 1]

theorem consumed_of_mem_filling {value : α} {n : Nat} (member : label ∈ filling value n) :
    q.Consumed c label := by
  induction n with
  | zero => cases member
  | succ n ih =>
    rcases mem_append.mp member with first | rest
    · rcases mem_cons.mp first with rfl | rest
      · trivial
      · rw [eq_of_mem_replicate rest]
        trivial
    · exact ih rest

/-- After 2^31 values that nobody takes the counter is negative. -/
theorem run_not_counted : ∃ (ls : List (QueueLabel Nat)) (q : MsQueue Nat),
    run step ls newQueue = some q ∧ Along step (Consumed 1) ls newQueue ∧
    (∀ i, (q.threads i).running = false) ∧ q.queueSize < 0 := by
  obtain ⟨q, ran, quiet, size⟩ := newQueue_quiet.run_filling 7 (2 ^ 31) (x := 0) rfl
  have consumed : Along step (Consumed 1) (filling 7 (2 ^ 31)) (newQueue : MsQueue Nat) := by
    refine Along.mono (fun q label holds => ?_) (along_of_forall fun label member => member)
    exact consumed_of_mem_filling holds
  refine ⟨filling 7 (2 ^ 31), q, ran, consumed, fun i => ?_, ?_⟩
  · rw [quiet.resting i]
    rfl
  · rw [size]
    decide

end MsQueue

end Gain
