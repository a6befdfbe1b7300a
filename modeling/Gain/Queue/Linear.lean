import Gain.Foundation.Linearizable
import Gain.Queue.Order

/-! # The queue is linearizable

An `Enqueue` takes effect when its node is linked, and a `Dequeue` of a value when the head
is moved. A `Dequeue` that returns without a value has found no node behind the head and
has then found the head where it was: it has taken effect at the first of the two moments,
which only the second one shows. By then others may have enqueued. So the calls take effect
one after the other, as on a list.
-/

namespace Gain

open Function List Option

variable {α : Type}

inductive QueueOp (α : Type) where
  | enqueue (value : α)
  | dequeue

inductive QueueReply (α : Type) where
  | enqueued
  | dequeued (value : Option α)

/-- The queue of a single caller, the oldest value first. -/
def QueueOp.apply : List α → QueueOp α → QueueReply α × List α
  | values, .enqueue value => (.enqueued, values ++ [value])
  | [], .dequeue => (.dequeued none, [])
  | value :: values, .dequeue => (.dequeued (some value), values)

namespace QueuePc

variable {pc : QueuePc α}

/-- What the call has returned. -/
def reply : QueuePc α → Option (QueueReply α)
  | idle => some .enqueued
  | answered value => some (.dequeued value)
  | _ => none

theorem reply_of_running (running : pc.running = true) : pc.reply = none := by
  cases pc with
  | idle | checked _ | answered _ => cases running
  | _ => rfl

end QueuePc

namespace MsQueue

variable {q q' : MsQueue α} {chain : List Nat} {hd tl i j : Nat} {next node : Nat}

/-- The values in the queue. -/
def content (q : MsQueue α) : List α := q.enqueued.drop q.dequeued.length

namespace Linked

theorem content_eq (linked : Linked chain hd tl q) : q.content = q.enqueued.drop hd := by
  have length := linked.length
  have below := linked.tail_lt
  have order := linked.order
  unfold content
  rw [linked.taken, length_take, min_eq_left (by omega)]

/-- A node is linked behind the last one. -/
theorem content_link (linked : Linked chain hd tl q) {value : α} {q' : MsQueue α}
    (more : q'.enqueued = q.enqueued ++ [value]) (same : q'.dequeued = q.dequeued) :
    q'.content = q.content ++ [value] := by
  have least : q.dequeued.length ≤ q.enqueued.length := by
    rw [linked.taken]
    exact length_take_le' ..
  unfold content
  rw [more, same, drop_append_of_le_length least]

/-- The head moves over the oldest value. -/
theorem content_swap (linked : Linked chain hd tl q) {value : α}
    (here : q.threads i = .deqSwap q.head next value) :
    q.content = value :: q.enqueued.drop (q.dequeued ++ [value]).length := by
  have mine := linked.locals i
  rw [here] at mine
  obtain ⟨p, _, _, at', _, read⟩ := mine
  obtain rfl := Chained.position linked.nodup at' linked.head
  obtain ⟨lt, same⟩ := List.getElem?_eq_some_iff.mp read
  have taken : q.dequeued.length = p := by
    rw [linked.taken, length_take, min_eq_left lt.le]
  rw [linked.content_eq, length_append, taken, drop_eq_getElem_cons lt, same]
  rfl

end Linked

/-! ## What a step leaves to the others -/

/-- A step of one goroutine, as it concerns the others. What is behind the head of one of them is
behind the head of the queue only if the head has stayed. -/
structure Onward (i : Nat) (q q' : MsQueue α) : Prop where
  linked : ∃ chain hd tl, Linked chain hd tl q'
  others : ∀ {j}, j ≠ i → q'.threads j = q.threads j
  value : ∀ {j node}, (q.threads j).unlinked = some node →
    (q'.nodes node).value = (q.nodes node).value
  back : ∀ {j head tail next}, q.threads j = .deqCheck head tail next → head = q'.head →
    head = q.head

theorem value_advanced (advanced : Advanced q i q') (a : Nat) :
    (q'.nodes a).value = (q.nodes a).value := by
  cases advanced with
  | @link node tail _ _ =>
    by_cases same : a = tail
    · subst same
      change (update q.nodes a _ a).value = _
      rw [update_self]
    · change (update q.nodes tail _ a).value = _
      rw [update_of_ne same]
  | goes | swing | swap | countIn | countOut => rfl

theorem value_step {label : QueueLabel α} (linked : Linked chain hd tl q)
    (done : q.step label = some q') (own : (q.threads j).unlinked = some node) :
    (q'.nodes node).value = (q.nodes node).value := by
  cases label with
  | enqueue i value =>
    simp only [step] at done
    split_ifs at done
    cases done
    change (update q.nodes q.nextNode _ node).value = _
    rw [update_of_ne (linked.fresh own).2.1.ne]
  | dequeue i | isEmpty i =>
    simp only [step] at done
    split_ifs at done
    cases done
    rfl
  | advance i => exact value_advanced (advance_advanced done) node

theorem Linked.onward {label : QueueLabel α} (linked : Linked chain hd tl q)
    (done : q.step label = some q') : Onward label.thread q q' := by
  obtain ⟨chain', hd', tl', linked', le, grows⟩ := linked.step done
  refine ⟨⟨chain', hd', tl', linked'⟩, fun other => step_threads_ne done other,
    fun own => value_step linked done own, fun {j head tail next} here back => ?_⟩
  have mine := linked.locals j
  rw [here] at mine
  obtain ⟨p, early, at', _⟩ := mine
  have position := Chained.position linked'.nodup (grows at') (back ▸ linked'.head)
  obtain rfl : p = hd := by omega
  exact Option.some.inj (at'.symm.trans linked.head)

/-! ## The log of the queue -/

/-- What the callers of the queue see of a step. -/
def see (_ : MsQueue α) (label : QueueLabel α) (q' : MsQueue α) :
    List (Event (QueueOp α) (QueueReply α)) :=
  match label with
  | .enqueue i value => [.call i (.enqueue value)]
  | .dequeue i => [.call i .dequeue]
  | .isEmpty _ => []
  | .advance i => ((q'.threads i).reply.map (.ret i)).toList

/-- What a goroutine there has called, and the reply if the call has taken effect. -/
inductive Accords (nodes : Nat → QueueNode α) :
    QueuePc α → Option (Pending (QueueOp α) (QueueReply α)) → Prop
  | outside {pc : QueuePc α} (resting : pc.running = false) : Accords nodes pc none
  | entering {pc : QueuePc α} {id node : Nat} {value : α} (own : pc.unlinked = some node)
      (read : (nodes node).value = some value) :
      Accords nodes pc (some ⟨id, .enqueue value, none⟩)
  | linked {pc : QueuePc α} {id : Nat} {value : α} (linked : pc.entering = true) :
      Accords nodes pc (some ⟨id, .enqueue value, some .enqueued⟩)
  | seeking {pc : QueuePc α} {id : Nat} (dequeuing : pc.dequeuing = true) :
      Accords nodes pc (some ⟨id, .dequeue, none⟩)
  | taken {id : Nat} {value : α} :
      Accords nodes (.deqCount value) (some ⟨id, .dequeue, some (.dequeued (some value))⟩)

/-- The record of the queue. Whoever has found no node behind the head has met an empty queue if
the head is still there. -/
abbrev Recorded (q : MsQueue α) : Option Nat → List (Event (QueueOp α) (QueueReply α)) →
    List (Entry (QueueOp α) (QueueReply α)) →
    (Nat → Option (Pending (QueueOp α) (QueueReply α))) → List α → Prop :=
  Record QueueOp.apply [] (fun values => values = []) (fun j => Accords q.nodes (q.threads j))
    fun j => ∃ tail, q.threads j = .deqCheck q.head tail none

/-- The queue with the log of what its callers have seen. -/
structure Logged (h : List (Event (QueueOp α) (QueueReply α))) (q : MsQueue α)
    (log : List (Entry (QueueOp α) (QueueReply α)))
    (pending : Nat → Option (Pending (QueueOp α) (QueueReply α))) : Prop where
  linked : ∃ chain hd tl, Linked chain hd tl q
  record : q.Recorded none h log pending q.content

variable {h : List (Event (QueueOp α) (QueueReply α))} {pc pc' : QueuePc α}
  {log : List (Entry (QueueOp α) (QueueReply α))}
  {pending : Nat → Option (Pending (QueueOp α) (QueueReply α))}
  {call : Option (Pending (QueueOp α) (QueueReply α))} {new old tail : Nat}

namespace Logged

/-- A goroutine makes a step. -/
theorem start (logged : Logged h q log pending) (onward : Onward i q q') :
    q'.Recorded (some i) h log pending q.content := by
  refine logged.record.start (fun {j call} other accords => ?_) fun {j} other ⟨tail, found⟩ => ?_
  · rw [onward.others other]
    generalize here : q.threads j = pc at accords
    cases accords with
    | outside resting => exact .outside resting
    | entering own read => exact .entering own ((onward.value (here ▸ own)).trans read)
    | linked linked => exact .linked linked
    | seeking dequeuing => exact .seeking dequeuing
    | taken => exact .taken
  · rw [onward.others other] at found
    exact ⟨tail, onward.back found rfl ▸ found⟩

/-- The step ends. -/
theorem of_record (record : q'.Recorded (some i) h log pending q'.content) (onward : Onward i q q')
    (now : q'.threads i = pc) (mine : pending i = call) (here : Accords q'.nodes pc call)
    (mark : ∀ tail, pc = .deqCheck q'.head tail none → ∀ c,
      call = some c → Met QueueOp.apply [] (fun values => values = []) h log c.id) :
    Logged h q' log pending := by
  subst now
  exact ⟨onward.linked, record.finish mine here fun ⟨tail, found⟩ => mark tail found⟩

end Logged

/-! ## The steps -/

/-- Where no node is found behind the head, the queue is empty. -/
theorem Linked.empty_of_goes (linked : Linked chain hd tl q)
    (goes : q.Goes pc (.deqCheck q.head tail none)) : q.content = [] := by
  generalize found : QueuePc.deqCheck q.head tail none = pc' at goes
  cases goes with
  | deqLoadNext =>
    injection found with first _ next
    rw [← first] at next
    have all := linked.empty_of_last next.symm
    unfold content
    rw [all, drop_length]
  | _ => cases found

/-- A step that changes the variables of a goroutine only. -/
theorem Accords.goes (accords : Accords q.nodes pc call) (goes : q.Goes pc pc')
    (stays : pc'.running = true) : Accords q.nodes pc' call := by
  cases accords with
  | outside resting => cases goes <;> cases resting
  | entering own read => exact .entering (goes.unlinked.trans own) read
  | linked linked =>
    cases goes with
    | enqSwingAgain => exact .linked rfl
    | _ => cases linked
  | seeking dequeuing =>
    refine .seeking ?_
    cases goes with
    | deqCheckNil => cases stays
    | deqLoadHead | deqLoadTail | deqLoadNext | deqCheckSome | deqCheckOther | deqCheckAgain
    | deqHelpAgain | deqValue | deqSwapAgain => rfl
    | _ => cases dequeuing
  | taken => cases goes

/-- A step that moves the tail. -/
theorem Accords.swings {nodes : Nat → QueueNode α} (accords : Accords nodes pc call)
    (swings : Swings old new pc pc') : Accords nodes pc' call := by
  cases accords with
  | outside resting => cases swings <;> cases resting
  | entering own read => exact .entering (swings.unlinked.trans own) read
  | linked linked =>
    cases swings with
    | enqSwing => exact .linked rfl
    | _ => cases linked
  | seeking dequeuing =>
    cases swings with
    | deqHelp => exact .seeking rfl
    | _ => cases dequeuing
  | taken => cases swings

/-- Outside of a call nothing is called. -/
theorem Accords.none_of_resting {nodes : Nat → QueueNode α} (accords : Accords nodes pc call)
    (resting : pc.running = false) : call = none := by
  cases accords with
  | outside => rfl
  | entering busy | linked busy | seeking busy => cases pc <;> cases busy <;> cases resting
  | taken => cases resting

/-- A goroutine in a call is not seen. -/
theorem see_running (running : (q'.threads i).running = true) : q.see (.advance i) q' = [] := by
  simp only [see, QueuePc.reply_of_running running, map_none, toList_none]

theorem see_reply {reply : QueueReply α} (returned : (q'.threads i).reply = some reply) :
    q.see (.advance i) q' = [.ret i reply] := by
  simp only [see, returned, map_some, toList_some]

/-- A step that changes the variables of a goroutine ends a call or does not. -/
theorem Goes.running (goes : q.Goes pc pc') :
    pc'.running = true ∨ pc = .deqCheck q.head q.head none ∧ pc' = .answered none := by
  cases goes with
  | deqCheckNil same =>
    rw [same]
    exact .inr ⟨rfl, rfl⟩
  | _ => exact .inl rfl

theorem Swings.running (swings : Swings old new pc pc') :
    pc'.running = true ∧ ∀ head tail, pc' ≠ .deqCheck head tail none := by
  cases swings <;> exact ⟨rfl, fun _ _ found => by cases found⟩

namespace Logged

variable (logged : Logged h q log pending)
include logged

/-- A `Dequeue` returns without a value. It has taken effect when the queue was empty. -/
theorem misses (found : q.threads i = .deqCheck q.head q.head none)
    (onward : Onward i q (q.goto i (.answered none))) : ∃ log' pending',
      Logged (h ++ [.ret i (.dequeued none)]) (q.goto i (.answered none)) log' pending' := by
  have record := logged.start onward
  have mine := logged.record.here i
  rw [found] at mine
  generalize pends : pending i = call at mine
  cases mine with
  | outside other | entering other | linked other => cases other
  | seeking _ =>
    -- the head is still where no node was behind it
    obtain ⟨before, after, s, rfl, replays, rfl, late⟩ := logged.record.meets ⟨_, found⟩ pends
    have effect : QueueOp.apply ([] : List α) .dequeue = (.dequeued none, []) := rfl
    have entered := record.insert pends late replays (fun s => s) effect
      (fun mid rest t _ reached _ => reached) fun _ empty => empty
    exact ⟨_, _, of_record (entered.ret (update_self ..)) onward
      (goto_threads_self ..) (update_self ..) (.outside rfl)
      fun _ found => by cases found⟩

theorem goes (goes : q.Goes (q.threads i) pc) (onward : Onward i q (q.goto i pc)) : ∃ log' pending',
      Logged (h ++ q.see (.advance i) (q.goto i pc)) (q.goto i pc) log' pending' := by
  have threads := goto_threads_self q i pc
  obtain stays | ⟨found, rfl⟩ := goes.running
  · obtain ⟨chain, hd, tl, linked⟩ := logged.linked
    have record := logged.start onward
    have mine := logged.record.here i
    rw [see_running (threads.symm ▸ stays), append_nil]
    refine ⟨log, pending, of_record record onward threads rfl (mine.goes goes stays) ?_⟩
    intro tail found c _
    exact .now record.replays (linked.empty_of_goes (found ▸ goes)) c.id
  · rw [see_reply (congrArg QueuePc.reply threads)]
    exact logged.misses found onward

variable (onward : Onward i q q')
include onward

/-- An enqueue takes effect when it links its node. -/
theorem links (here : q.threads i = .enqLink node tail) (now : q'.threads i = .enqSwing node tail)
    (more : q'.enqueued = q.enqueued ++ (q.nodes node).value.toList)
    (same : q'.dequeued = q.dequeued) :
    ∃ log' pending', Logged (h ++ q.see (.advance i) q') q' log' pending' := by
  have mine := logged.record.here i
  rw [here] at mine
  rw [see_running (now ▸ rfl), append_nil]
  obtain ⟨chain, hd, tl, linked⟩ := logged.linked
  generalize pends : pending i = call at mine
  cases mine with
  | outside other | linked other | seeking other => cases other
  | entering own read =>
    cases own
    rw [read] at more
    have effect := congrArg (Prod.mk (QueueReply.enqueued : QueueReply α))
      (linked.content_link more same).symm
    exact ⟨_, _, of_record ((logged.start onward).enter pends effect) onward now
      (update_self ..) (.linked rfl) fun _ found => by cases found⟩

theorem swings (swings : Swings old new (q.threads i) pc)
    (now : q'.threads i = pc) (nodes : q'.nodes = q.nodes) (content : q'.content = q.content) :
    ∃ log' pending', Logged (h ++ q.see (.advance i) q') q' log' pending' := by
  have record := logged.start onward
  have mine := (logged.record.here i).swings swings
  rw [← content] at record
  rw [← nodes] at mine
  obtain ⟨running, away⟩ := swings.running
  rw [see_running (now ▸ running), append_nil]
  exact ⟨log, pending, of_record record onward now rfl mine
    fun tail found => absurd found (away _ tail)⟩

/-- A dequeue takes effect when it moves the head. -/
theorem swaps {value : α}
    (here : q.threads i = .deqSwap q.head next value) (now : q'.threads i = .deqCount value)
    (same : q'.enqueued = q.enqueued) (more : q'.dequeued = q.dequeued ++ [value]) :
    ∃ log' pending', Logged (h ++ q.see (.advance i) q') q' log' pending' := by
  have mine := logged.record.here i
  rw [here] at mine
  rw [see_running (now ▸ rfl), append_nil]
  obtain ⟨chain, hd, tl, linked⟩ := logged.linked
  have effect : QueueOp.apply q.content .dequeue = (.dequeued (some value), q'.content) := by
    rw [linked.content_swap here, ← more, ← same]
    rfl
  generalize pends : pending i = call at mine
  cases mine with
  | outside other | entering other | linked other => cases other
  | seeking =>
    exact ⟨_, _, of_record ((logged.start onward).enter pends effect) onward now
      (update_self ..) .taken fun _ found => by cases found⟩

/-- A call that has taken effect returns. -/
theorem returns {id : Nat} {op : QueueOp α} {reply : QueueReply α}
    (pends : pending i = some ⟨id, op, some reply⟩) (now : q'.threads i = pc)
    (returned : pc.reply = some reply) (content : q'.content = q.content) :
    ∃ log' pending', Logged (h ++ q.see (.advance i) q') q' log' pending' := by
  have record := (logged.start onward).ret pends
  rw [← content] at record
  rw [see_reply (now ▸ returned)]
  refine ⟨log, _, of_record record onward now (update_self ..) (.outside ?_) ?_⟩
  · cases running : pc.running with
    | true => cases (QueuePc.reply_of_running running).symm.trans returned
    | false => rfl
  · rintro tail rfl
    cases returned

/-- A step of a call takes effect, returns, or is not seen. -/
theorem advance (advanced : Advanced q i q') :
    ∃ log' pending', Logged (h ++ q.see (.advance i) q') q' log' pending' := by
  have threads : ∀ pc : QueuePc α, (q.goto i pc).threads i = pc := goto_threads_self q i
  have mine := logged.record.here i
  cases advanced with
  | goes goes => exact logged.goes goes onward
  | link here last => exact logged.links onward here (threads _) rfl rfl
  | swing swings => exact logged.swings onward swings (threads _) rfl rfl
  | swap here => exact logged.swaps onward here (threads _) rfl rfl
  | countIn here =>
    rw [here] at mine
    generalize pends : pending i = call at mine
    cases mine with
    | outside other | entering other | seeking other => cases other
    | linked => exact logged.returns onward pends (threads _) rfl rfl
  | countOut here =>
    rw [here] at mine
    generalize pends : pending i = call at mine
    cases mine with
    | outside other | entering other | seeking other | linked other => cases other
    | taken => exact logged.returns onward pends (threads _) rfl rfl

omit onward

/-- Every step extends the log. -/
theorem step {label : QueueLabel α} (done : q.step label = some q') :
    ∃ log' pending', Logged (h ++ q.see label q') q' log' pending' := by
  obtain ⟨chain, hd, tl, linked⟩ := logged.linked
  have onward := linked.onward done
  have record := logged.start onward
  cases label with
  | enqueue i value =>
    simp only [MsQueue.step] at done
    split_ifs at done
    cases done
    refine ⟨log, _, of_record (record.call (.enqueue value)) onward
      (goto_threads_self q i (.enqLoadTail q.nextNode)) (update_self ..)
      (.entering rfl ?_) fun _ found => by cases found⟩
    change (update q.nodes q.nextNode _ q.nextNode).value = _
    rw [update_self]
  | dequeue i =>
    simp only [MsQueue.step] at done
    split_ifs at done
    cases done
    exact ⟨log, _, of_record (record.call .dequeue) onward (goto_threads_self ..)
      (update_self ..) (.seeking rfl) fun _ found => by cases found⟩
  | isEmpty i =>
    -- it is called outside of the other calls
    simp only [MsQueue.step] at done
    split_ifs at done with running
    cases done
    have mine := logged.record.here i
    rw [see, append_nil]
    exact ⟨log, pending, of_record record onward (goto_threads_self ..)
      (mine.none_of_resting (Bool.not_eq_true _ ▸ running)) (.outside rfl)
      fun _ found => by cases found⟩
  | advance i => exact logged.advance onward (advance_advanced done)

end Logged

/-- Whatever the goroutines do, their calls of `Enqueue` and `Dequeue` take effect one after the
other, as on a list, and what is in the queue is what these calls leave. -/
theorem run_linearizes_queue {ls : List (QueueLabel α)} (ran : run step ls newQueue = some q) :
    ∃ log, Linearizes QueueOp.apply [] (observed step see ls newQueue) log
      (q.enqueued.drop q.dequeued.length) := by
  have preserved : ∀ h (q : MsQueue α) label q', True → q.step label = some q' →
      (∃ log pending, Logged h q log pending) →
      ∃ log pending, Logged (h ++ q.see label q') q' log pending :=
    fun h q label q' _ done ⟨log, pending, logged⟩ => logged.step done
  have initial : Logged [] (newQueue : MsQueue α) [] fun _ => none :=
    ⟨⟨[0], 0, 0, newQueue_linked⟩, .nil fun _ => .outside rfl⟩
  obtain ⟨log, pending, logged⟩ := observed_invariant preserved ran
    (along_of_forall fun _ _ => trivial) ⟨[], _, initial⟩
  exact ⟨log, logged.record.replays, logged.record.journal.arranges⟩

/-- A `Dequeue` finds no node behind the head. Before it looks at the head again, another goroutine
has enqueued a value. -/
def late : List (QueueLabel Nat) :=
  .dequeue 0 :: List.replicate 3 (.advance 0) ++ .enqueue 1 5 :: List.replicate 6 (.advance 1) ++
    [.advance 0]

/-- The `Dequeue` returns without a value after the `Enqueue` has returned. -/
theorem run_linearizes_queue_late : ∃ q log, run step late newQueue = some q ∧
    Linearizes QueueOp.apply []
      [.call 0 .dequeue, .call 1 (.enqueue 5), .ret 1 .enqueued, .ret 0 (.dequeued none)] log
      (q.enqueued.drop q.dequeued.length) := by
  obtain ⟨q, ran⟩ := isSome_iff_exists.mp
    (show (run step late newQueue).isSome = true by decide)
  obtain ⟨log, linear⟩ := run_linearizes_queue ran
  exact ⟨q, log, ran, linear⟩

end MsQueue

end Gain
