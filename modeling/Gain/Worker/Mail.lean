import Gain.Worker.Stepped

/-! # The connections handed over to a consumer

A connection is handed over by a message on the consumer's ring or by an entry of
its queue, and its address is looked up by its descriptor. A step of the consumer
takes at most one of them, and leaves the others with their addresses.
-/

namespace Gain

open Function List Option

/-- The descriptor of the new connection that the completion announces. -/
def Cqe.announces (c : Cqe) : Option Int :=
  if c.sqe.flag = .addConn ∧ 0 ≤ c.res then some c.res else none

namespace Worker

variable {w w' : Worker} {o : Nat} {env : Env} {c : Cqe} {err : Option Error} {key fd : Int}
  {res : Int} {data : List UInt8} {label : Label}

/-- `setSocketAddr`, called by the acceptor -/
def setSocketAddr (w : Worker) (fd : Int) (addr : NetAddr) : Worker :=
  { w with socketAddresses := w.socketAddresses.insert fd addr }

/-- `addConnToQueue`, called by the acceptor. The queue is nil where rings can exchange
messages. -/
def addConnToQueue (w : Worker) (fd : Int) : Option Error × Worker :=
  if w.cfg.ringsMessaging then (some .connectionQueueIsNil, w)
  else (none, { w with connQueue := w.connQueue ++ [fd] })

/-- The kernel posts the acceptor's message on the ring. -/
def receive (w : Worker) (fd : Int) : Worker :=
  { w with cq := w.cq ++ [{ sqe := { flag := .addConn, key := 0, fd := fd }, res := fd }] }

theorem addConnToQueue_of_queue (queue : w.cfg.ringsMessaging = false) :
    w.addConnToQueue fd = (none, { w with connQueue := w.connQueue ++ [fd] }) := by
  rw [addConnToQueue, queue, if_neg Bool.false_ne_true]

/-- The descriptors handed over and not yet taken. -/
def waiting (w : Worker) : List Int := w.cq.filterMap Cqe.announces ++ w.connQueue

/-- The remote address that `handleNewConn` gives to the connection. -/
def remoteAddr (w : Worker) (fd : Int) : Option NetAddr :=
  let (o, w) := w.enter fd (w.socketAddresses.lookup fd)
  (w.heap o).remoteAddr

/-- The call of `handleNewConn` in a step, with the remote address it sets. -/
def newcomer (w : Worker) : Label → Option (Int × Option NetAddr)
  | .event _ =>
    match w.phase, w.cq with
    | .events (_ + 1), c :: _ => c.announces.map fun fd => (fd, w.remoteAddr fd)
    | _, _ => none
  | .newConn _ =>
    match w.phase, w.connQueue with
    | .conns, fd :: _ => some (fd, w.remoteAddr fd)
    | _, _ => none
  | _ => none

/-- The descriptor that the kernel closes in a step. -/
def closes (w : Worker) : Label → Option Int
  | .complete chain res _ _ _ =>
    match w.inflight[chain]? with
    | some (q :: _) => if q.flag = .close ∧ 0 ≤ res then some q.fd else none
    | _ => none
  | _ => none

/-- The loop may end with the step: submitting fails, all connections are closed, or a new
connection may find no submission entry. -/
def Ends (w : Worker) : Label → Prop
  | .turn _ _ result => result = .failed
  | .event env => ¬ (env.sqe 0 = true ∧ env.sqe 1 = true) ∧
      (w.cq.head?.bind Cqe.announces).isSome = true
  | .asyncWrite _ => w.asyncOpQueue = [] ∧ w.finished = true
  | _ => False

instance (w : Worker) : (label : Label) → Decidable (w.Ends label)
  | .turn _ _ result => inferInstanceAs (Decidable (result = .failed))
  | .event env => inferInstanceAs (Decidable (¬ (env.sqe 0 = true ∧ env.sqe 1 = true) ∧
      (w.cq.head?.bind Cqe.announces).isSome = true))
  | .asyncWrite _ => inferInstanceAs (Decidable (w.asyncOpQueue = [] ∧ w.finished = true))
  | .shutdown | .peek | .endBatch | .newConn _ | .complete _ _ _ _ _ | .handOff _ _ | .taskBegin _
  | .taskCall _ _ | .taskEnd _ => isFalse id

/-! ## Functions that leave the mail alone -/

theorem shutdownHandler_mail (w : Worker) (order : List (Int × Bool)) :
    (w.shutdownHandler order).mail = w.mail := by
  obtain ⟨_, _, _, _, _, _, _, swept⟩ := shutdownHandler_frame w order
  rw [swept]
  rfl

theorem Executed.mail {q : Sqe} (executed : Executed w q res data w') : w'.mail = w.mail := by
  cases executed <;> rfl

/-! ## A new connection -/

theorem remoteAddr_of_lookup {addr : NetAddr} (found : w.socketAddresses.lookup fd = some addr) :
    w.remoteAddr fd = some addr := by
  change (update (w.getFd fd).2.heap (w.getFd fd).1 _ (w.getFd fd).1).remoteAddr = _
  rw [update_self, found]
  rfl

/-- `handleNewConn` takes the address of its descriptor, and no other. -/
theorem handleNewConn_mail (done : w.handleNewConn env fd = some (err, w')) :
    w'.mail = { w.mail with socketAddresses := w.socketAddresses.erase fd } := by
  obtain ⟨x, _, rfl⟩ := (welcome_welcomed done).acts
  have same := get_mail (rfl : w.get fd fd = _)
  change Mail.mk (w.get fd fd).2.cfg (w.get fd fd).2.cq (w.get fd fd).2.connQueue
    ((w.get fd fd).2.socketAddresses.erase fd) (w.get fd fd).2.phase = _
  rw [show (w.get fd fd).2.cfg = w.cfg from congrArg Mail.cfg same,
    show (w.get fd fd).2.cq = w.cq from congrArg Mail.cq same,
    show (w.get fd fd).2.connQueue = w.connQueue from congrArg Mail.connQueue same,
    show (w.get fd fd).2.socketAddresses = w.socketAddresses from
      congrArg Mail.socketAddresses same,
    show (w.get fd fd).2.phase = w.phase from congrArg Mail.phase same]
  rfl

theorem announces_eq_some {c : Cqe} (announces : c.announces = some fd) :
    c.sqe.flag = .addConn ∧ 0 ≤ c.res ∧ c.res = fd := by
  unfold Cqe.announces at announces
  split_ifs at announces with new
  exact ⟨new.1, new.2, Option.some.inj announces⟩

/-- An event that announces no connection leaves the mail alone. -/
theorem handleEvent_mail (consumer : w.cfg.kind = .consumer) (tcp : w.cfg.sendRecvMsg = false)
    (none' : c.announces = none) (done : w.handleEvent env c = some w') : w'.mail = w.mail := by
  cases handleEvent_handled tcp done with
  | looked error _ got => exact get_mail got
  | dropped error shard => cases consumer.symm.trans shard
  | skipped fine _ flag small => rfl
  | announced fine _ flag handed =>
    rw [Cqe.announces, if_pos ⟨flag, fine⟩] at none'
    cases none'
  | served fine kind got stream served => exact served.mail.trans (get_mail got)
  | accepted fine shard got state accepted ended => cases consumer.symm.trans shard

/-- An event that announces a connection is a call of `handleNewConn`, and the loop ends when
it fails. -/
theorem handleEvent_of_announces (consumer : w.cfg.kind = .consumer)
    (announces : c.announces = some fd) (done : w.handleEvent env c = some w') :
    ∃ err w₁, w.handleNewConn env fd = some (err, w₁) ∧
      w' = if err.isSome then w₁.stop else w₁ := by
  obtain ⟨flag, fine, rfl⟩ := announces_eq_some announces
  have live := userData_ne_zero c.sqe.flag c.sqe.key
  simp only [handleEvent, consumer, consumerEvent, processEvent, live, if_false,
    if_neg (not_lt.mpr fine), if_pos flag] at done
  obtain ⟨⟨err, w₁⟩, handed, last⟩ := bind_eq_some_iff.mp done
  cases last
  exact ⟨err, w₁, handed, rfl⟩

/-! ## A step of a consumer -/

/-- What a step does to the connections handed over. -/
inductive Delivery (w : Worker) (label : Label) (w' : Worker) : Prop
  | kept (nothing : w.newcomer label = none) (waiting : w'.waiting = w.waiting)
      (addresses : w'.socketAddresses = w.socketAddresses)
  | taken {fd : Int} {addr : Option NetAddr} (newcomer : w.newcomer label = some (fd, addr))
      (waiting : w.waiting.Perm (fd :: w'.waiting))
      (addresses : w'.socketAddresses = w.socketAddresses.erase fd)
      (remote : ∀ a, w.socketAddresses.lookup fd = some a → addr = some a)

theorem Delivery.of_mail (phase : Phase) (nothing : w.newcomer label = none)
    (same : w'.mail = { w.mail with phase := phase }) : Delivery w label w' := by
  refine .kept nothing ?_ (congrArg Mail.socketAddresses same)
  rw [waiting, waiting, show w'.cq = w.cq from congrArg Mail.cq same,
    show w'.connQueue = w.connQueue from congrArg Mail.connQueue same]

/-- An event takes one newcomer at most. -/
theorem event_delivery (consumer : w.cfg.kind = .consumer) (tcp : w.cfg.sendRecvMsg = false)
    (done : w.step (.event env) = some w') :
    Delivery w (.event env) w' ∧ (w'.phase = .stopped → w.Ends (.event env)) := by
  simp only [step] at done
  split at done
  · rename_i left c cq phase first
    cases announces : c.announces with
    | none =>
      have same := handleEvent_mail (w := { w with phase := .events left, cq := cq }) consumer
        tcp announces done
      have nothing : w.newcomer (.event env) = none := by
        simp only [newcomer, phase, first, announces, map_none]
      refine ⟨.kept nothing ?_ (congrArg Mail.socketAddresses same), ?_⟩
      · rw [waiting, waiting, show w'.cq = cq from congrArg Mail.cq same,
          show w'.connQueue = w.connQueue from congrArg Mail.connQueue same, first,
          filterMap_cons_none announces]
      · intro stopped
        cases (congrArg Mail.phase same).symm.trans stopped
    | some fd =>
      obtain ⟨err, w₁, handed, same⟩ := handleEvent_of_announces
        (w := { w with phase := .events left, cq := cq }) consumer announces done
      have mail := handleNewConn_mail handed
      have fields : w'.cq = w₁.cq ∧ w'.connQueue = w₁.connQueue ∧
          w'.socketAddresses = w₁.socketAddresses ∧ (err = none → w'.phase = w₁.phase) := by
        rw [same]
        cases err with
        | none => exact ⟨rfl, rfl, rfl, fun _ => rfl⟩
        | some err =>
          obtain ⟨shut, stopped⟩ := stop_eq w₁
          simp only [isSome_some, if_true, stopped, reduceCtorEq, false_implies, and_self]
      obtain ⟨cq', connQueue, addresses, going⟩ := fields
      have newcomer : w.newcomer (.event env) = some (fd, w.remoteAddr fd) := by
        simp only [newcomer, phase, first, announces, map_some]
      refine ⟨.taken newcomer ?_ ?_ (fun a => remoteAddr_of_lookup), ?_⟩
      · rw [waiting, waiting, cq', connQueue, show w₁.cq = cq from congrArg Mail.cq mail,
          show w₁.connQueue = w.connQueue from congrArg Mail.connQueue mail, first,
          filterMap_cons_some announces]
        exact .refl _
      · rw [addresses]
        exact congrArg Mail.socketAddresses mail
      · intro stopped
        have announced : (w.cq.head?.bind Cqe.announces).isSome = true := by
          rw [first, head?_cons, bind_some, announces]
          rfl
        refine ⟨fun free => ?_, announced⟩
        have armed : err = none := (welcome_welcomed handed).armed free.1 free.2
        rw [going armed] at stopped
        cases (congrArg Mail.phase mail).symm.trans stopped
  · cases done

/-- A turn takes no newcomer. -/
theorem turn_delivery {order : List (Int × Bool)} {chains : Nat} {result : Submit}
    (done : w.step (.turn order chains result) = some w') :
    Delivery w (.turn order chains result) w' ∧ (w'.phase = .stopped → result = .failed) := by
  have mail := shutdownHandler_mail w order
  have paced : ∀ phase, Mail.mk (w.shutdownHandler order).cfg (w.shutdownHandler order).cq
      (w.shutdownHandler order).connQueue (w.shutdownHandler order).socketAddresses phase =
      { w.mail with phase := phase } := fun phase => by rw [← mail]; rfl
  simp only [step] at done
  split_ifs at done with guard
  cases result with
  | done =>
    cases done
    exact ⟨.of_mail _ rfl (paced _), fun stopped => by cases stopped⟩
  | skippable =>
    cases done
    refine ⟨.of_mail _ rfl (paced _), fun stopped => ?_⟩
    unfold afterBatch at stopped
    dsimp only at stopped
    split_ifs at stopped
  | failed =>
    cases done
    refine ⟨?_, fun _ => rfl⟩
    unfold stop
    split <;> exact .of_mail _ rfl (paced _)

/-- A newcomer is taken from the queue. -/
theorem newConn_delivery (done : w.step (.newConn env) = some w') :
    Delivery w (.newConn env) w' ∧ w'.phase ≠ .stopped := by
  simp only [step] at done
  split at done
  · rename_i phase first
    cases done
    have nothing : w.newcomer (.newConn env) = none := by
      simp only [newcomer, phase, first]
    exact ⟨.of_mail _ nothing rfl, Phase.noConfusion⟩
  · rename_i fd rest phase first
    obtain ⟨⟨err, w₁⟩, handed, rfl⟩ := map_eq_some_iff.mp done
    have mail := handleNewConn_mail handed
    have newcomer : w.newcomer (.newConn env) = some (fd, w.remoteAddr fd) := by
      simp only [newcomer, phase, first]
    refine ⟨.taken newcomer ?_ (congrArg Mail.socketAddresses mail) fun a => remoteAddr_of_lookup,
      ?_⟩
    · rw [waiting, waiting, show w₁.cq = w.cq from congrArg Mail.cq mail,
        show w₁.connQueue = rest from congrArg Mail.connQueue mail, first]
      exact perm_middle
    · rw [show w₁.phase = w.phase from congrArg Mail.phase mail, phase]
      decide
  · cases done

/-- An asynchronous operation takes no newcomer. -/
theorem asyncWrite_delivery (tcp : w.cfg.sendRecvMsg = false)
    (done : w.step (.asyncWrite env) = some w') :
    Delivery w (.asyncWrite env) w' ∧
      (w'.phase = .stopped → w.asyncOpQueue = [] ∧ w.finished = true) := by
  simp only [step] at done
  split at done
  · rename_i phase first
    cases done
    cases finished : w.finished with
    | true =>
      refine ⟨?_, fun _ => ⟨first, rfl⟩⟩
      obtain ⟨shut, same⟩ := stop_eq w
      rw [if_pos rfl, same]
      exact .of_mail _ rfl rfl
    | false =>
      rw [if_neg Bool.false_ne_true]
      exact ⟨.of_mail _ rfl rfl, fun stopped => by cases stopped⟩
  · rename_i o rest phase first
    obtain ⟨x, arming, rfl⟩ := handleAsyncWrite_eq done tcp
    refine ⟨.of_mail w.phase rfl rfl, fun stopped => ?_⟩
    cases phase.symm.trans stopped
  · cases done

/-- What the kernel completes announces no connection. -/
theorem complete_delivery (tcp : w.cfg.sendRecvMsg = false) {chain : Nat} {nonempty : Bool}
    {peer : Option NetAddr} (done : w.step (.complete chain res nonempty data peer) = some w') :
    Delivery w (.complete chain res nonempty data peer) w' ∧ w'.phase = w.phase := by
  have silent : ∀ {cqes : List Cqe}, (∀ c ∈ cqes, c.announces = none) →
      (w.cq ++ cqes).filterMap Cqe.announces = w.cq.filterMap Cqe.announces := by
    intro cqes none'
    rw [filterMap_append, filterMap_eq_nil_iff.mpr none', append_nil]
  cases complete_stepped tcp done with
  | paced quiet running kept =>
    rcases quiet with (same | same) | ⟨_, same, _⟩ | ⟨_, same, _⟩ <;> cases same
  | @completed _ _ _ _ _ q rest left cqes w₁ found executed settles =>
    have mail := executed.mail
    have own : ∀ c ∈ cqes, c.announces = none := by
      refine settles.all ?_ fun c error => ?_
      · rw [Cqe.announces, if_neg fun new => executed.flag new.1]
      · rw [Cqe.announces, if_neg fun new => absurd error (not_lt.mpr new.2)]
    refine ⟨.kept rfl ?_ (congrArg Mail.socketAddresses mail), congrArg Mail.phase mail⟩
    change (w₁.cq ++ _).filterMap _ ++ w₁.connQueue = _
    rw [show w₁.cq = w.cq from congrArg Mail.cq mail,
      show w₁.connQueue = w.connQueue from congrArg Mail.connQueue mail, silent own]
    rfl

/-- A step of a consumer takes at most one of the connections handed over to it, and ends the
loop only where it may. -/
theorem step_delivery (consumer : w.cfg.kind = .consumer) (tcp : w.cfg.sendRecvMsg = false)
    (other : ∀ fd addr, label ≠ .handOff fd addr) (done : w.step label = some w') :
    Delivery w label w' ∧ (w'.phase = .stopped → w.phase = .stopped ∨ w.Ends label) := by
  cases label with
  | shutdown =>
    cases done
    exact ⟨.of_mail w.phase rfl rfl, Or.inl⟩
  | turn order chains result =>
    obtain ⟨delivery, ends⟩ := turn_delivery done
    exact ⟨delivery, fun stopped => Or.inr (ends stopped)⟩
  | event env =>
    obtain ⟨delivery, ends⟩ := event_delivery consumer tcp done
    exact ⟨delivery, fun stopped => Or.inr (ends stopped)⟩
  | peek =>
    simp only [step] at done
    split_ifs at done with phase
    cases done
    exact ⟨.of_mail _ rfl rfl, fun stopped => by cases stopped⟩
  | endBatch =>
    simp only [step] at done
    split_ifs at done with phase
    cases done
    refine ⟨.of_mail _ rfl rfl, fun stopped => ?_⟩
    unfold afterBatch at stopped
    dsimp only at stopped
    split_ifs at stopped
  | newConn env =>
    obtain ⟨delivery, running⟩ := newConn_delivery done
    exact ⟨delivery, fun stopped => absurd stopped running⟩
  | asyncWrite env =>
    obtain ⟨delivery, ends⟩ := asyncWrite_delivery tcp done
    exact ⟨delivery, fun stopped => Or.inr (ends stopped)⟩
  | complete chain res nonempty data peer =>
    obtain ⟨delivery, phase⟩ := complete_delivery tcp done
    exact ⟨delivery, fun stopped => Or.inl (phase ▸ stopped)⟩
  | handOff fd addr => exact absurd rfl (other fd addr)
  | taskBegin i =>
    cases step_stepped tcp done with
    | taskBegin found => exact ⟨.of_mail w.phase rfl rfl, Or.inl⟩
    | paced quiet running kept =>
      rcases quiet with (same | same) | ⟨_, same, _⟩ | ⟨_, same, _⟩ <;> cases same
  | taskCall i op =>
    cases step_stepped tcp done with
    | taskCall found called => exact ⟨.of_mail w.phase rfl rfl, Or.inl⟩
    | paced quiet running kept =>
      rcases quiet with (same | same) | ⟨_, same, _⟩ | ⟨_, same, _⟩ <;> cases same
  | taskEnd i =>
    cases step_stepped tcp done with
    | taskEnd found next => exact ⟨.of_mail w.phase rfl rfl, Or.inl⟩
    | paced quiet running kept =>
      rcases quiet with (same | same) | ⟨_, same, _⟩ | ⟨_, same, _⟩ <;> cases same

end Worker

end Gain
