import Gain.Queue.Linked

/-! # First in, first out

The values come out in the order in which they were linked, a `Dequeue` that
returns without a value has found the queue empty, and no goroutine reads a node
that is not there. All this holds under any interleaving of any number of
goroutines.
-/

namespace Gain

open Function List

variable {α : Type}

/-- The goroutine that makes the step. -/
def QueueLabel.thread : QueueLabel α → Nat
  | enqueue i _ | dequeue i | isEmpty i | advance i => i

namespace MsQueue

variable {q q' : MsQueue α} {i : Nat} {label : QueueLabel α} {chain : List Nat} {h t : Nat}

theorem advanced_threads_ne {j : Nat} (advanced : Advanced q i q') (other : j ≠ i) :
    q'.threads j = q.threads j := by
  cases advanced <;> exact goto_threads_ne _ _ other

/-- The other goroutines stay where they are. -/
theorem step_threads_ne (done : q.step label = some q') (other : i ≠ label.thread) :
    q'.threads i = q.threads i := by
  cases label with
  | enqueue _ _ | dequeue _ | isEmpty _ =>
    simp only [step] at done
    split_ifs at done
    cases done
    exact goto_threads_ne _ _ other
  | advance j => exact advanced_threads_ne (advance_advanced done) other

theorem run_linked {ls : List (QueueLabel α)} (ran : run step ls newQueue = some q) :
    ∃ chain h t, Linked chain h t q := by
  apply run_preserves (fun q => ∃ chain h t, Linked chain h t q) ?_ ran ⟨[0], 0, 0, newQueue_linked⟩
  rintro s l s' done ⟨chain, h, t, linked⟩
  obtain ⟨chain', h', t', linked', _⟩ := linked.step done
  exact ⟨chain', h', t', linked'⟩

namespace Linked

variable {chain : List Nat} {h t : Nat}

/-- A goroutine in a call can always go on. -/
theorem progress (linked : Linked chain h t q) (running : (q.threads i).running = true) :
    ∃ q', q.advance i = some q' := by
  have mine := linked.locals i
  unfold advance
  cases here : q.threads i with
  | idle | checked _ | answered _ =>
    rw [here] at running
    cases running
  | enqLoadTail _ | enqLoadNext _ _ | enqSwing _ _ | enqHelp _ _ _ | enqCount | deqLoadHead
  | deqLoadTail _ | deqLoadNext _ _ | deqHelp _ _ | deqCount _ => exact ⟨_, rfl⟩
  | enqCheck node tail next =>
    dsimp only
    split_ifs
    · cases next <;> exact ⟨_, rfl⟩
    · exact ⟨_, rfl⟩
  | enqLink node tail =>
    dsimp only
    split_ifs <;> exact ⟨_, rfl⟩
  | deqCheck head tail next =>
    dsimp only
    split_ifs
    · cases next <;> exact ⟨_, rfl⟩
    · exact ⟨_, rfl⟩
    · exact ⟨_, rfl⟩
  | deqSwap head next value =>
    dsimp only
    split_ifs <;> exact ⟨_, rfl⟩
  | deqValue head next =>
    -- The node behind a head that is not the tail is linked and has a value.
    rw [here] at mine
    obtain ⟨p, _, lt, _, n, rfl, behind⟩ := mine
    have bound := linked.length
    have below := linked.tail_lt
    have value := linked.value behind
    rw [List.getElem?_eq_getElem (show p < q.enqueued.length by omega)] at value
    dsimp only [Option.bind_eq_bind, Option.bind_some]
    rw [value]
    exact ⟨_, rfl⟩

/-- The head at the last node means that everything was taken. -/
theorem empty_of_last (linked : Linked chain h t q) (none' : (q.nodes q.head).next = none) :
    q.dequeued = q.enqueued := by
  have last := linked.next.last linked.head none'
  have length := linked.length
  rw [linked.taken, take_of_length_le (by omega)]

end Linked

/-- Where the goroutine has found no node behind the head, the head has moved on since. -/
def Missed (i : Nat) (q : MsQueue α) : Prop :=
  ∀ head tail, q.threads i = .deqCheck head tail none → q.head ≠ head

theorem missed_of_same {chain' : List Nat} {h' t' : Nat} (linked : Linked chain h t q)
    (linked' : Linked chain' h' t' q') (le : h ≤ h')
    (grows : ∀ {p a : Nat}, chain[p]? = some a → chain'[p]? = some a)
    (same : q'.threads i = q.threads i) (missed : q.Missed i) : q'.Missed i := by
  intro head tail here moved
  rw [same] at here
  have mine := linked.locals i
  rw [here] at mine
  obtain ⟨p, early, at', _⟩ := mine
  -- The head would be back at a node it has been at, so it has not moved at all.
  have back := Chained.position linked'.nodup (grows at') (moved ▸ linked'.head)
  obtain rfl : p = h := by omega
  exact missed head tail here (Option.some.inj (linked.head.symm.trans at'))

/-- While anything is left, the head has moved on. -/
theorem missed_of_advanced (linked : Linked chain h t q)
    (some' : (q.threads i).dequeuing = true → q.dequeued ≠ q.enqueued)
    (advanced : Advanced q i q') :
    q'.Missed i := by
  have here : ∀ {q' : MsQueue α} {pc : QueuePc α}, q'.threads = update q.threads i pc →
      (∀ head tail, pc ≠ .deqCheck head tail none) → q'.Missed i := by
    intro q' pc threads other head tail found
    rw [threads, update_self] at found
    exact absurd found (other head tail)
  cases advanced with
  | @goes pc goes =>
    intro head tail found moved
    rw [goto_threads_self] at found
    subst found
    generalize mine : q.threads i = pc at goes
    generalize read : QueuePc.deqCheck head tail none = pc' at goes
    cases goes with
    | @deqLoadNext first last =>
      injection read with same _ none'
      rw [← same, ← show q.head = head from moved] at none'
      refine some' ?_ (linked.empty_of_last none'.symm)
      rw [mine]
      rfl
    | _ => cases read
  | link _ _ | swap _ | countIn _ | countOut _ => exact here rfl nofun
  | swing swings =>
    refine here rfl ?_
    generalize q.threads i = pc' at swings
    cases swings <;> exact nofun

/-- Once the head has moved on, it stays so over every step. -/
theorem missed_of_step (linked : Linked chain h t q)
    (some' : (q.threads i).dequeuing = true → q.dequeued ≠ q.enqueued)
    (done : q.step label = some q') (missed : q.Missed i) : q'.Missed i := by
  by_cases own : i = label.thread
  · have here : ∀ {pc : QueuePc α}, q'.threads i = pc →
        (∀ head tail, pc ≠ .deqCheck head tail none) →
        q'.Missed i := by
      intro pc threads other head tail found
      exact absurd (threads.symm.trans found) (other head tail)
    cases label with
    | enqueue j _ | dequeue j | isEmpty j =>
      obtain rfl : i = j := own
      simp only [step] at done
      split_ifs at done
      cases done
      exact here (update_self ..) fun _ _ gone => by cases gone
    | advance j =>
      obtain rfl : i = j := own
      exact missed_of_advanced linked some' (advance_advanced done)
  · obtain ⟨chain', h', t', linked', le, grows⟩ := linked.step done
    exact missed_of_same linked linked' le grows (step_threads_ne done own) missed

/-- A `Dequeue` returns without a value only from a check of the head. -/
theorem check_of_unanswered (advanced : Advanced q i q') (zero : q'.threads i = .answered none) :
    q.threads i = .deqCheck q.head q.head none := by
  have here : ∀ {pc : QueuePc α}, (q.goto i pc).threads i = .answered none → pc = .answered none :=
    fun zero => (goto_threads_self ..).symm.trans zero
  cases advanced with
  | @goes pc goes =>
    obtain rfl := here zero
    generalize q.threads i = pc at goes
    cases goes with
    | deqCheckNil same => rw [same]
  | link _ _ | swap _ | countIn _ | countOut _ => cases here zero
  | @swing new pc swings =>
    obtain rfl := here zero
    generalize q.threads i = pc at swings
    cases swings

/-- A call that found something in the queue at every moment returns a value. -/
theorem missed_of_throughout {during : List (QueueLabel α)} (linked : Linked chain h t q)
    (missed : q.Missed i) (ran : run step during q = some q')
    (throughout : Throughout step (fun q : MsQueue α => q.dequeued ≠ q.enqueued) during q) :
    q'.Missed i := by
  have preserved : ∀ (s : MsQueue α) (l : QueueLabel α) (s' : MsQueue α), True →
      s.dequeued ≠ s.enqueued → s'.dequeued ≠ s'.enqueued → s.step l = some s' →
      (∃ chain h t, Linked chain h t s) ∧ s.Missed i →
      (∃ chain h t, Linked chain h t s') ∧ s'.Missed i := by
    rintro s l s' _ some' _ done ⟨⟨chain, h, t, linked⟩, missed⟩
    obtain ⟨chain', h', t', linked', _⟩ := linked.step done
    exact ⟨⟨chain', h', t', linked'⟩, missed_of_step linked (fun _ => some') done missed⟩
  exact (invariant_of_run_throughout preserved ran (along_of_forall fun _ _ => trivial) throughout
    ⟨⟨chain, h, t, linked⟩, missed⟩).2

/-! ## What the callers are given -/

/-- A `Dequeue` with a value has swapped the head, or has returned the value. -/
inductive Taking (α : Type) where
  | swapped (i : Nat) (value : α)
  | returned (i : Nat) (value : α)

namespace Taking

/-- The goroutine that called `Dequeue`. -/
def thread : Taking α → Nat
  | swapped i _ | returned i _ => i

def swap : Taking α → Option α
  | swapped _ value => some value
  | returned _ _ => none

/-- A call that swaps the head for a value and returns it. -/
def call (i : Nat) (value : α) : List (Taking α) := [swapped i value, returned i value]

/-- What the call that has just come to this place shows. -/
def shown (i : Nat) : QueuePc α → List (Taking α)
  | .deqCount value => [swapped i value]
  | .answered (some value) => [returned i value]
  | _ => []

/-- The swap of a call that has not returned. -/
def unreturned (i : Nat) : QueuePc α → List (Taking α)
  | .deqCount value => [swapped i value]
  | _ => []

end Taking

/-- What a step shows. -/
def taking : QueueLabel α → MsQueue α → List (Taking α)
  | .advance i, q => Taking.shown i (q.threads i)
  | .enqueue _ _, _ | .dequeue _, _ | .isEmpty _, _ => []

/-- The values are taken in the order of the head swaps, and every goroutine returns from each
of its calls the value it has swapped the head for. -/
structure Returning (q : MsQueue α) (events : List (Taking α)) : Prop where
  taken : events.filterMap Taking.swap = q.dequeued
  calls : ∀ i, ∃ values : List α, events.filter (fun e => e.thread = i) =
    values.flatMap (Taking.call i) ++ Taking.unreturned i (q.threads i)

/-- A step that takes and returns nothing. -/
theorem Returning.quiet {events : List (Taking α)} (returning : q.Returning events) {pc : QueuePc α}
    (threads : q'.threads = update q.threads i pc) (dequeued : q'.dequeued = q.dequeued)
    (same : Taking.unreturned i pc = Taking.unreturned i (q.threads i)) :
    q'.Returning (events ++ []) := by
  rw [append_nil]
  refine ⟨returning.taken.trans dequeued.symm, fun j => ?_⟩
  by_cases own : j = i
  · subst own
    rw [threads, update_self, same]
    exact returning.calls j
  · rw [threads, update_of_ne own]
    exact returning.calls j

/-- A step of a goroutine that swaps the head or returns. -/
theorem Returning.shows {events : List (Taking α)} (returning : q.Returning events) {e : Taking α}
    {pc : QueuePc α} (mine : e.thread = i) (threads : q'.threads = update q.threads i pc)
    (dequeued : q'.dequeued = q.dequeued ++ e.swap.toList)
    (calls : ∀ values : List α, ∃ values' : List α,
      values.flatMap (Taking.call i) ++ Taking.unreturned i (q.threads i) ++ [e] =
        values'.flatMap (Taking.call i) ++ Taking.unreturned i pc) :
    q'.Returning (events ++ [e]) := by
  refine ⟨?_, fun j => ?_⟩
  · rw [filterMap_append, returning.taken, dequeued]
    cases e <;> rfl
  · obtain ⟨values, before⟩ := returning.calls j
    rw [filter_append, before, threads]
    by_cases own : j = i
    · subst own
      rw [update_self, filter_cons_of_pos (by simpa using mine), filter_nil]
      exact calls values
    · have other : e.thread ≠ j := fun same => own (same.symm.trans mine)
      rw [update_of_ne own, filter_cons_of_neg (by simpa using other), filter_nil]
      exact ⟨values, append_nil _⟩

/-- A thread goes on, and what it returns is noted. -/
theorem Returning.advanced {events : List (Taking α)} (returning : q.Returning events)
    (advanced : Advanced q i q') : q'.Returning (events ++ taking (.advance i) q') := by
  have quiet : ∀ {pc : QueuePc α}, q'.threads = update q.threads i pc →
      Taking.shown i pc = [] →
      Taking.unreturned i pc = Taking.unreturned i (q.threads i) → q'.dequeued = q.dequeued →
      q'.Returning (events ++ taking (.advance i) q') := by
    intro pc threads none' same dequeued
    rw [taking, threads, update_self, none']
    exact returning.quiet threads dequeued same
  cases advanced with
  | @goes pc goes =>
    have places : Taking.shown i pc = [] ∧
        Taking.unreturned i pc = Taking.unreturned i (q.threads i) := by
      generalize q.threads i = pc₀ at goes
      cases goes <;> exact ⟨rfl, rfl⟩
    exact quiet rfl places.1 places.2 rfl
  | @swing new pc swings =>
    have places : Taking.shown i pc = [] ∧
        Taking.unreturned i pc = Taking.unreturned i (q.threads i) := by
      generalize q.threads i = pc₀ at swings
      cases swings <;> exact ⟨rfl, rfl⟩
    exact quiet rfl places.1 places.2 rfl
  | link here _ | countIn here => exact quiet rfl rfl (by rw [here]; rfl) rfl
  | @swap next value here =>
    rw [taking, goto_threads_self]
    refine returning.shows (i := i) rfl rfl rfl fun values => ⟨values, ?_⟩
    rw [here]
    exact congrArg (· ++ _) (append_nil _)
  | @countOut value here =>
    rw [taking, goto_threads_self]
    refine returning.shows (i := i) rfl rfl (append_nil _).symm fun values =>
      ⟨values ++ [value], ?_⟩
    rw [here, flatMap_append, flatMap_singleton, append_assoc]
    exact (append_nil _).symm

/-- Every step notes what is returned. -/
theorem Returning.step {events : List (Taking α)} (returning : q.Returning events)
    (done : q.step label = some q') : q'.Returning (events ++ taking label q') := by
  have before : ∀ {i}, ¬ (q.threads i).running = true →
      Taking.unreturned i (q.threads i) = [] := by
    intro i idle
    generalize q.threads i = pc at idle
    cases pc with
    | deqCount value => exact absurd rfl idle
    | _ => rfl
  cases label with
  | enqueue i value | dequeue i | isEmpty i =>
    simp only [MsQueue.step] at done
    split_ifs at done with idle
    cases done
    exact returning.quiet rfl rfl (before idle).symm
  | advance i => exact returning.advanced (advance_advanced done)

theorem run_returning {ls : List (QueueLabel α)} (ran : run step ls newQueue = some q) :
    q.Returning (trace step taking ls newQueue) := by
  have initial : Returning (newQueue : MsQueue α) [] := ⟨rfl, fun _ => ⟨[], rfl⟩⟩
  have preserved : ∀ (s : MsQueue α) (l : QueueLabel α) (s' : MsQueue α) (events : List (Taking α)),
      s.step l = some s' → s.Returning events → s'.Returning (events ++ taking l s') :=
    fun _ _ _ _ done returning => returning.step done
  exact trace_preserves Returning preserved ran initial

/-- Under every interleaving every `Dequeue` with a value returns the one it has swapped the head
for, the values are taken in the order they went in, every goroutine in a call can go on, and a
`Dequeue` without a value has found the queue empty. -/
theorem run_ordered {ls : List (QueueLabel α)} (ran : run step ls newQueue = some q) :
    q.Returning (trace step taking ls newQueue) ∧ q.dequeued <+: q.enqueued ∧
    (∀ i, (q.threads i).running = true → ∃ q', q.step (.advance i) = some q') ∧
    ∀ i q₁ during q₂ q₃, q.step (.dequeue i) = some q₁ → run step during q₁ = some q₂ →
      q₂.step (.advance i) = some q₃ → q₃.threads i = .answered none →
      ∃ early late q₀, during = early ++ late ∧ run step early q₁ = some q₀ ∧
        q₀.dequeued = q₀.enqueued := by
  obtain ⟨chain, h, t, linked⟩ := run_linked ran
  refine ⟨run_returning ran, ?_, fun i running => linked.progress running, ?_⟩
  · rw [linked.taken]
    exact take_prefix h q.enqueued
  · intro i q₁ during q₂ q₃ called went returned zero
    obtain ⟨chain₁, h₁, t₁, linked₁, _⟩ := linked.step called
    have begun : q₁.Missed i := by
      simp only [step] at called
      split_ifs at called
      cases called
      intro head tail here
      rw [goto_threads_self] at here
      cases here
    have check := check_of_unanswered (advance_advanced returned) zero
    have fails : ¬ Throughout step (fun q : MsQueue α => q.dequeued ≠ q.enqueued) during q₁ :=
      fun throughout => missed_of_throughout linked₁ begun went throughout _ _ check rfl
    obtain ⟨early, late, q₀, split, reached, empty⟩ := exists_of_not_throughout went fails
    exact ⟨early, late, q₀, split, reached, not_not.mp empty⟩

/-- A goroutine has linked its node when another one comes in, moves the tail for it and links a
second node. A third goroutine takes the first value. -/
def crossing : List (QueueLabel Nat) :=
  [QueueLabel.enqueue 0 7, QueueLabel.enqueue 1 8] ++ List.replicate 4 (QueueLabel.advance 0) ++
    List.replicate 8 (QueueLabel.advance 1) ++ QueueLabel.dequeue 2 ::
    List.replicate 7 (QueueLabel.advance 2)

theorem run_ordered_crossing : ∃ q, run step crossing newQueue = some q ∧
    trace step taking crossing newQueue = Taking.call 2 7 ∧
    q.Returning (Taking.call 2 7) ∧ q.enqueued = [7, 8] ∧ q.dequeued <+: q.enqueued := by
  obtain ⟨q, ran, enqueued⟩ : ∃ q, run step crossing newQueue = some q ∧ q.enqueued = [7, 8] :=
    exists_run_from (by decide)
  have shown : trace step taking crossing newQueue = Taking.call 2 7 := rfl
  have ordered := run_ordered ran
  exact ⟨q, ran, shown, shown ▸ ordered.1, enqueued, ordered.2.1⟩

end MsQueue

end Gain
