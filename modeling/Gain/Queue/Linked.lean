import Mathlib.Order.Nat
import Gain.Foundation.Chain
import Gain.Queue.MsQueue

/-! # The nodes of the queue form a chain

All nodes that were ever linked form a chain that only grows at its end. The head
and the tail move forward along it, the head never past the tail, and what a
goroutine has in its variables are positions that the head or the tail have reached.
-/

namespace Gain

open Function List Option

variable {α : Type}

namespace QueuePc

/-- The node of an `Enqueue` that is not linked yet. -/
def unlinked : QueuePc α → Option Nat
  | enqLoadTail node | enqLoadNext node _ | enqCheck node _ _ | enqLink node _
  | enqHelp node _ _ => some node
  | _ => none

end QueuePc

namespace MsQueue

variable {q q' : MsQueue α} {i : Nat} {new : Nat}

theorem Goes.unlinked {pc pc' : QueuePc α} (goes : q.Goes pc pc') : pc'.unlinked = pc.unlinked := by
  cases goes <;> rfl

theorem Swings.unlinked {old : Nat} {pc pc' : QueuePc α} (swings : Swings old new pc pc') :
    pc'.unlinked = pc.unlinked := by
  cases swings <;> rfl

/-- What the variables of a goroutine are, where the head is at `h` and the tail at `t`. -/
def Local (chain : List Nat) (h t : Nat) (values : List α) : QueuePc α → Prop
  | .enqLoadNext _ tail => ∃ p ≤ t, chain[p]? = some tail
  | .enqCheck _ tail next =>
    ∃ p ≤ t, chain[p]? = some tail ∧ ∀ n, next = some n → chain[p + 1]? = some n
  | .enqLink _ tail => ∃ p ≤ t, chain[p]? = some tail
  | .enqSwing node tail => ∃ p, chain[p]? = some tail ∧ chain[p + 1]? = some node
  | .enqHelp _ tail next => ∃ p, chain[p]? = some tail ∧ chain[p + 1]? = some next
  | .deqLoadTail head => ∃ p ≤ h, chain[p]? = some head
  | .deqLoadNext head tail =>
    ∃ p ≤ h, chain[p]? = some head ∧ ∃ r ≤ t, p ≤ r ∧ chain[r]? = some tail
  | .deqCheck head tail next =>
    ∃ p ≤ h, chain[p]? = some head ∧ (∀ n, next = some n → chain[p + 1]? = some n) ∧
      (head ≠ tail → p < t ∧ next ≠ none)
  | .deqHelp tail next => ∃ p, chain[p]? = some tail ∧ chain[p + 1]? = some next
  | .deqValue head next =>
    ∃ p ≤ h, p < t ∧ chain[p]? = some head ∧ ∃ n, next = some n ∧ chain[p + 1]? = some n
  | .deqSwap head next value =>
    ∃ p ≤ h, p < t ∧ chain[p]? = some head ∧ chain[p + 1]? = some next ∧ values[p]? = some value
  | _ => True

/-- The chain grows and the head and the tail move on. -/
theorem Local.mono {chain chain' : List Nat} {h h' t t' : Nat} {values values' : List α}
    {pc : QueuePc α} (now : Local chain h t values pc)
    (grows : ∀ {p a : Nat}, chain[p]? = some a → chain'[p]? = some a) (head : h ≤ h')
    (tail : t ≤ t') (more : ∀ {p : Nat} {v : α}, values[p]? = some v → values'[p]? = some v) :
    Local chain' h' t' values' pc := by
  cases pc with
  | idle | checked _ | answered _ | enqLoadTail _ | enqCount | deqLoadHead | deqCount _ => trivial
  | enqLoadNext _ _ =>
    obtain ⟨p, le, here⟩ := now
    exact ⟨p, le.trans tail, grows here⟩
  | enqCheck _ _ next =>
    obtain ⟨p, le, here, behind⟩ := now
    exact ⟨p, le.trans tail, grows here, fun n some' => grows (behind n some')⟩
  | enqLink _ _ =>
    obtain ⟨p, le, here⟩ := now
    exact ⟨p, le.trans tail, grows here⟩
  | enqSwing _ _ | enqHelp _ _ _ | deqHelp _ _ =>
    obtain ⟨p, here, behind⟩ := now
    exact ⟨p, grows here, grows behind⟩
  | deqLoadTail _ =>
    obtain ⟨p, le, here⟩ := now
    exact ⟨p, le.trans head, grows here⟩
  | deqLoadNext _ _ =>
    obtain ⟨p, le, here, r, le', order, there⟩ := now
    exact ⟨p, le.trans head, grows here, r, le'.trans tail, order, grows there⟩
  | deqCheck _ _ _ =>
    obtain ⟨p, le, here, behind, other⟩ := now
    refine ⟨p, le.trans head, grows here, fun n some' => grows (behind n some'), fun ne => ?_⟩
    obtain ⟨lt, some'⟩ := other ne
    exact ⟨lt.trans_le tail, some'⟩
  | deqValue _ _ =>
    obtain ⟨p, le, lt, here, n, some', behind⟩ := now
    exact ⟨p, le.trans head, lt.trans_le tail, grows here, n, some', grows behind⟩
  | deqSwap _ _ _ =>
    obtain ⟨p, le, lt, here, behind, value⟩ := now
    exact ⟨p, le.trans head, lt.trans_le tail, grows here, grows behind, more value⟩

/-- The nodes linked so far, with the head at `h` and the tail at `t`. -/
structure Linked (chain : List Nat) (h t : Nat) (q : MsQueue α) : Prop where
  nodup : chain.Nodup
  bound : ∀ a ∈ chain, a < q.nextNode
  next : Chained (fun a => (q.nodes a).next) chain
  head : chain[h]? = some q.head
  tail : chain[t]? = some q.tail
  order : h ≤ t
  values : chain.tail.map (fun a => (q.nodes a).value) = q.enqueued.map some
  taken : q.dequeued = q.enqueued.take h
  fresh : ∀ {i n}, (q.threads i).unlinked = some n →
    n ∉ chain ∧ n < q.nextNode ∧ (q.nodes n).next = none ∧ (q.nodes n).value.isSome = true
  apart : ∀ {i j n}, (q.threads i).unlinked = some n → (q.threads j).unlinked = some n → i = j
  locals : ∀ i, Local chain h t q.enqueued (q.threads i)

/-- A new queue is its dummy node. -/
theorem newQueue_linked : Linked [0] 0 0 (newQueue : MsQueue α) where
  nodup := nodup_singleton 0
  bound := by simp [newQueue]
  next := by
    intro p a here
    cases p with
    | zero => rfl
    | succ p => simp at here
  head := rfl
  tail := rfl
  order := le_rfl
  values := rfl
  taken := rfl
  fresh := nofun
  apart := nofun
  locals := fun _ => trivial

namespace Linked

variable {chain : List Nat} {h t : Nat} {p : Nat}

variable (linked : Linked chain h t q)
include linked

theorem next_eq {a : Nat} (here : chain[p]? = some a) :
    (q.nodes a).next = chain[p + 1]? := linked.next p a here

theorem tail_lt : t < chain.length :=
  (List.getElem?_eq_some_iff.mp linked.tail).1

theorem length : chain.length = q.enqueued.length + 1 := by
  have same := congrArg List.length linked.values
  rw [length_map, length_map, length_tail] at same
  have := linked.tail_lt
  omega

/-- The value of a node is the one it was linked with. -/
theorem value {n : Nat} (here : chain[p + 1]? = some n) : (q.nodes n).value = q.enqueued[p]? := by
  have same := congrArg (fun values => values[p]?) linked.values
  simp only [List.getElem?_map, List.getElem?_tail, here, map_some] at same
  cases found : q.enqueued[p]? with
  | none =>
    rw [found] at same
    cases same
  | some v =>
    rw [found] at same
    exact Option.some.inj same

/-- There is a node behind every one before the tail. -/
theorem behind (lt : p < t) : ∃ n, chain[p + 1]? = some n := by
  have := linked.tail_lt
  exact ⟨_, List.getElem?_eq_getElem (show p + 1 < chain.length by omega)⟩

/-- What a goroutine reads is a position of the chain. -/
theorem goes_local {pc pc' : QueuePc α}
    (now : Local chain h t q.enqueued pc) (goes : q.Goes pc pc') :
    Local chain h t q.enqueued pc' := by
  cases goes with
  | enqLoadTail => exact ⟨t, le_rfl, linked.tail⟩
  | enqLoadNext =>
    obtain ⟨p, le, here⟩ := now
    exact ⟨p, le, here, fun n some' => (linked.next_eq here).symm.trans some'⟩
  | enqCheckNil =>
    obtain ⟨p, le, here, _⟩ := now
    exact ⟨p, le, here⟩
  | enqCheckSome =>
    obtain ⟨p, _, here, behind⟩ := now
    exact ⟨p, here, behind _ rfl⟩
  | enqCheckAgain | enqLinkAgain | enqSwingAgain | enqHelpAgain | deqCheckNil | deqCheckAgain
  | deqHelpAgain | deqSwapAgain => trivial
  | deqLoadHead => exact ⟨h, le_rfl, linked.head⟩
  | deqLoadTail =>
    obtain ⟨p, le, here⟩ := now
    exact ⟨p, le, here, t, le_rfl, le.trans linked.order, linked.tail⟩
  | @deqLoadNext head tail =>
    obtain ⟨p, le, here, r, le', order, there⟩ := now
    refine ⟨p, le, here, fun n some' => (linked.next_eq here).symm.trans some', fun other => ?_⟩
    have ne : p ≠ r := by
      rintro rfl
      exact other (Option.some.inj (here.symm.trans there))
    have lt : p < t := (lt_of_le_of_ne order ne).trans_le le'
    obtain ⟨n, behind⟩ := linked.behind lt
    refine ⟨lt, ?_⟩
    rw [linked.next_eq here, behind]
    exact some_ne_none n
  | deqCheckSome =>
    obtain ⟨p, _, here, behind, _⟩ := now
    exact ⟨p, here, behind _ rfl⟩
  | deqCheckOther other =>
    obtain ⟨p, le, here, behind, apart⟩ := now
    obtain ⟨lt, some'⟩ := apart other
    obtain ⟨n, next⟩ := ne_none_iff_exists'.mp some'
    exact ⟨p, le, lt, here, n, next, behind n next⟩
  | deqValue read =>
    obtain ⟨p, le, lt, here, n, next, behind⟩ := now
    cases next
    exact ⟨p, le, lt, here, behind, (linked.value behind).symm.trans read⟩

/-- A goroutine goes on with its own variables. -/
theorem goto {pc : QueuePc α} (same : pc.unlinked = (q.threads i).unlinked ∨ pc.unlinked = none)
    (now : Local chain h t q.enqueued pc) : Linked chain h t (q.goto i pc) := by
  have before : ∀ {j n}, ((q.goto i pc).threads j).unlinked = some n →
      (q.threads j).unlinked = some n := by
    intro j n own
    by_cases mine : j = i
    · subst mine
      rw [goto_threads_self] at own
      rcases same with same | none'
      · rw [← same]
        exact own
      · cases none'.symm.trans own
    · rw [goto_threads_ne q pc mine] at own
      exact own
  refine { linked with
    fresh := fun own => linked.fresh (before own)
    apart := fun own own' => linked.apart (before own) (before own')
    locals := fun j => ?_ }
  by_cases mine : j = i
  · subst mine
    rw [goto_threads_self]
    exact now
  · rw [goto_threads_ne q pc mine]
    exact linked.locals j

/-- The tail moves to the next node. -/
theorem swing (next : chain[t + 1]? = some new) : Linked chain h (t + 1) { q with tail := new } :=
  { linked with
    tail := next
    order := linked.order.trans (Nat.le_succ t)
    locals := fun i => (linked.locals i).mono id le_rfl (Nat.le_succ t) id }

/-- The head moves to the next node. -/
theorem swap {next : Nat} {value : α} (lt : h < t)
    (behind : chain[h + 1]? = some next) (read : q.enqueued[h]? = some value) :
    Linked chain (h + 1) t { q with head := next, dequeued := q.dequeued ++ [value] } :=
  { linked with
    head := behind
    order := lt
    taken := by
      change q.dequeued ++ [value] = q.enqueued.take (h + 1)
      rw [linked.taken, take_add_one, read]
      rfl
    locals := fun i => (linked.locals i).mono id (Nat.le_succ h) le_rfl id }

/-- A node is linked behind the last one. -/
theorem link {node tail : Nat}
    (here : q.threads i = .enqLink node tail) (none' : (q.nodes tail).next = none) :
    Linked (chain ++ [node]) h t { q.goto i (.enqSwing node tail) with
      nodes := update q.nodes tail { q.nodes tail with next := some node }
      enqueued := q.enqueued ++ (q.nodes node).value.toList } := by
  have own : (q.threads i).unlinked = some node := by
    rw [here]
    rfl
  have mine := linked.locals i
  rw [here] at mine
  obtain ⟨p, _, at'⟩ := mine
  obtain ⟨outside, bound, free, valued⟩ := linked.fresh own
  obtain ⟨v, value⟩ := isSome_iff_exists.mp valued
  have inside : tail ∈ chain := mem_of_getElem? at'
  have end' : (chain ++ [node])[p + 1]? = some node := by
    rw [linked.next.last at' none']
    exact List.getElem?_concat_length
  have pointers : (fun a => (update q.nodes tail
      { q.nodes tail with next := some node } a).next) =
      update (fun a => (q.nodes a).next) tail (some node) := by
    funext a
    by_cases same : a = tail
    · subst same
      simp only [update_self]
    · simp only [update_of_ne same]
  have values : ∀ a,
      (update q.nodes tail { q.nodes tail with next := some node } a).value =
      (q.nodes a).value := by
    intro a
    by_cases same : a = tail
    · subst same
      rw [update_self]
    · rw [update_of_ne same]
  have threads : ∀ {j n}, ((q.goto i (.enqSwing node tail)).threads j).unlinked = some n →
      j ≠ i ∧ (q.threads j).unlinked = some n := by
    intro j n found
    by_cases same : j = i
    · subst same
      rw [goto_threads_self] at found
      cases found
    · rw [goto_threads_ne q _ same] at found
      exact ⟨same, found⟩
  refine ⟨?_, ?_, ?_, Chained.getElem?_concat linked.head, Chained.getElem?_concat linked.tail,
    linked.order, ?_, ?_, ?_, ?_, ?_⟩
  · exact nodup_append.mpr ⟨linked.nodup, nodup_singleton node, fun a left b right =>
      fun same => outside (mem_singleton.mp right ▸ same ▸ left)⟩
  · intro a member
    rcases mem_append.mp member with old | new
    · exact linked.bound a old
    · rw [mem_singleton.mp new]
      exact bound
  · change Chained (fun a => (update q.nodes tail _ a).next) (chain ++ [node])
    rw [pointers]
    exact linked.next.concat linked.nodup at' none' outside free
  · have some' : chain ≠ [] := ne_nil_of_mem inside
    rw [tail_append_of_ne_nil some', map_append, map_append]
    change _ = q.enqueued.map some ++ (q.nodes node).value.toList.map some
    rw [← linked.values, value]
    simp only [values, map_cons, map_nil, value, toList_some]
  · change q.dequeued = (q.enqueued ++ _).take h
    have := linked.length
    have := linked.tail_lt
    have := linked.order
    rw [linked.taken, take_append_of_le_length (by omega)]
  · intro j n found
    obtain ⟨other, found⟩ := threads found
    obtain ⟨out, below, alone, full⟩ := linked.fresh found
    refine ⟨?_, below, ?_, ?_⟩
    · intro member
      rcases mem_append.mp member with old | new
      · exact out old
      · rw [mem_singleton.mp new] at found
        exact other (linked.apart found own)
    · change (update q.nodes tail _ n).next = none
      rw [update_of_ne (show n ≠ tail from fun same => out (same ▸ inside))]
      exact alone
    · change (update q.nodes tail _ n).value.isSome = true
      rw [values]
      exact full
  · intro j k n found found'
    exact linked.apart (threads found).2 (threads found').2
  · intro j
    have more : ∀ {p : Nat} {v : α}, q.enqueued[p]? = some v →
        (q.enqueued ++ (q.nodes node).value.toList)[p]? = some v := by
      intro p v found
      rw [List.getElem?_append_left (List.getElem?_eq_some_iff.mp found).1]
      exact found
    by_cases same : j = i
    · subst same
      change Local _ h t _ (update q.threads j _ j)
      rw [update_self]
      exact ⟨p, Chained.getElem?_concat at', end'⟩
    · change Local _ h t _ (update q.threads i _ j)
      rw [update_of_ne same]
      exact (linked.locals j).mono Chained.getElem?_concat le_rfl le_rfl more

/-- An enqueue begins with a node of its own. -/
theorem enqueue (i : Nat) (value : α) :
    Linked chain h t { q.goto i (.enqLoadTail q.nextNode) with
      nodes := update q.nodes q.nextNode { value := some value }
      nextNode := q.nextNode + 1 } := by
  have old : ∀ {a : Nat}, a < q.nextNode →
      update q.nodes q.nextNode { value := some value } a = q.nodes a :=
    fun lt => update_of_ne lt.ne ..
  have own : ∀ {j n}, ((q.goto i (.enqLoadTail q.nextNode)).threads j).unlinked = some n →
      j = i ∧ n = q.nextNode ∨ j ≠ i ∧ (q.threads j).unlinked = some n := by
    intro j n found
    by_cases same : j = i
    · subst same
      rw [goto_threads_self] at found
      exact Or.inl ⟨rfl, (Option.some.inj found).symm⟩
    · rw [goto_threads_ne q _ same] at found
      exact Or.inr ⟨same, found⟩
  refine ⟨linked.nodup, fun a member => (linked.bound a member).trans (Nat.lt_succ_self _), ?_,
    linked.head, linked.tail, linked.order, ?_, linked.taken, ?_, ?_, ?_⟩
  · intro p a found
    change (update q.nodes q.nextNode _ a).next = _
    rw [old (linked.bound a (mem_of_getElem? found))]
    exact linked.next_eq found
  · have same : ∀ a ∈ chain.tail,
        (update q.nodes q.nextNode { value := some value } a).value =
          (q.nodes a).value := by
      intro a member
      rw [old (linked.bound a (mem_of_mem_tail member))]
    exact (map_congr_left same).trans linked.values
  · intro j n found
    change n ∉ chain ∧ n < q.nextNode + 1 ∧ (update q.nodes q.nextNode _ n).next = none ∧
      (update q.nodes q.nextNode _ n).value.isSome = true
    rcases own found with ⟨_, rfl⟩ | ⟨_, before⟩
    · refine ⟨fun member => (linked.bound _ member).false, Nat.lt_succ_self _, ?_, ?_⟩
      · rw [update_self]
      · rw [update_self]
        rfl
    · obtain ⟨outside, below, free, full⟩ := linked.fresh before
      rw [old below]
      exact ⟨outside, below.trans (Nat.lt_succ_self _), free, full⟩
  · intro j k n found found'
    rcases own found with ⟨rfl, rfl⟩ | ⟨_, before⟩ <;>
      rcases own found' with ⟨rfl, same⟩ | ⟨_, before'⟩
    · rfl
    · exact absurd (linked.fresh before').2.1 (lt_irrefl _)
    · rw [same] at before
      exact absurd (linked.fresh before).2.1 (lt_irrefl _)
    · exact linked.apart before before'
  · intro j
    by_cases same : j = i
    · subst same
      change Local chain h t q.enqueued (update q.threads j _ j)
      rw [update_self]
      trivial
    · change Local chain h t q.enqueued (update q.threads i _ j)
      rw [update_of_ne same]
      exact linked.locals j

/-- The chain after a step of a call. -/
theorem advanced (advanced : Advanced q i q') :
    ∃ chain' h' t', Linked chain' h' t' q' ∧ h ≤ h' ∧ ∀ {p a : Nat},
      chain[p]? = some a → chain'[p]? = some a := by
  have mine := linked.locals i
  cases advanced with
  | goes goes =>
    exact ⟨chain, h, t, linked.goto (Or.inl goes.unlinked) (linked.goes_local mine goes),
      le_rfl, id⟩
  | @link node tail here last =>
    exact ⟨chain ++ [node], h, t, linked.link here last, le_rfl, Chained.getElem?_concat⟩
  | @swing new pc swings =>
    obtain ⟨p, here, behind⟩ : ∃ p : Nat, chain[p]? = some q.tail ∧ chain[p + 1]? = some new := by
      generalize q.threads i = pc' at swings mine
      cases swings with
      | enqSwing | enqHelp | deqHelp => exact mine
    obtain rfl := Chained.position linked.nodup here linked.tail
    have rest : Local chain h p q.enqueued pc := by
      generalize q.threads i = pc' at swings
      cases swings <;> trivial
    exact ⟨chain, h, p + 1, (linked.goto (Or.inl swings.unlinked) rest).swing behind, le_rfl, id⟩
  | @swap next value here =>
    rw [here] at mine
    obtain ⟨p, le, lt, at', behind, read⟩ := mine
    obtain rfl := Chained.position linked.nodup at' linked.head
    have rest : Linked chain p t (q.goto i (.deqCount value)) := linked.goto (Or.inr rfl) trivial
    exact ⟨chain, p + 1, t, rest.swap lt behind read, Nat.le_succ p, id⟩
  | countIn here =>
    have rest : Linked chain h t (q.goto i .idle) := linked.goto (Or.inr rfl) trivial
    exact ⟨chain, h, t, { rest with }, le_rfl, id⟩
  | @countOut value here =>
    have rest : Linked chain h t (q.goto i (.answered (some value))) :=
      linked.goto (Or.inr rfl) trivial
    exact ⟨chain, h, t, { rest with }, le_rfl, id⟩

/-- The chain after a step. -/
theorem step {label : QueueLabel α}
    (done : q.step label = some q') : ∃ chain' h' t', Linked chain' h' t' q' ∧ h ≤ h' ∧
      ∀ {p a : Nat}, chain[p]? = some a → chain'[p]? = some a := by
  cases label with
  | enqueue i value =>
    simp only [MsQueue.step] at done
    split_ifs at done
    cases done
    exact ⟨chain, h, t, linked.enqueue i value, le_rfl, id⟩
  | dequeue _ | isEmpty _ =>
    simp only [MsQueue.step] at done
    split_ifs at done
    cases done
    exact ⟨chain, h, t, linked.goto (Or.inr rfl) trivial, le_rfl, id⟩
  | advance i => exact linked.advanced (advance_advanced done)

end Linked

end MsQueue

end Gain
