import Gain.Worker.Stock

/-! # Every datagram is answered

Under the conditions under which a datagram server keeps listening, every
datagram that is handled is given to one call of `OnRead`, on a fork that holds
its bytes and the address of its sender. What the handler writes is sent to that
address, and the fork is given up when the send has completed.
-/

namespace Gain

open Function List Option Session

namespace Worker

variable {m : Nat} {last : Option Datagram} {w w₁ w' : Worker} {env : Env} {c : Cqe}

namespace Stocked

variable {k : Int} {o : Nat} {x : Session}

variable (stocked : Stocked m last w)
include stocked

/-- The reply of a handler is written and sent. -/
theorem reply (serving : Serving m w) (resting : Resting w k o)
    (free : env.sqe 0 = true) (replies : env.Replies) {rb : RingBuffer}
    (present : (w.heap o).outboundBuffer = some rb) (outbox : rb.Outbox) {err : Option Error}
    {n : Int} (worked : (w.session o).workAndArm w.cfg env n = some (err, x)) :
    Stocked m last (w.setSession x) := by
  obtain ⟨_, x₁, rb', addr, called, confined, _, _, rfl⟩ :=
    workAndArm_replied (x := w.session o) serving.udp free replies
      (serving.forks resting.found resting.fork) (serving.open' o) present outbox worked
  have frame := calls_frame called
  have key : x₁.conn.key = k := frame.key.trans (serving.key resting.found)
  refine stocked.session serving.toGrounded resting.found resting.fork confined.obj frame.life
    frame.supplied frame.requests ?_ ?_ ?_
  · have paged : x₁.conn.Paged w.cfg.pageSize :=
      calls_paged (stocked.conns resting.found).paged called
    exact paged
  · intro exact'
    exact frame.sized exact' ((stocked.conns resting.found).sized (frame.exact_before exact'))
  · intro q member
    change q ∈ underway { w with sq := Chains.push x₁.sq _ } at member
    rw [show x₁.sq = w.sq from confined.sq, underway_push] at member
    rcases mem_append.mp member with old | new
    · exact Or.inl old
    · cases mem_singleton.mp new
      exact Or.inr (fun one => resting.fork (key.symm.trans one))

/-- The fork of a completed send is given up. -/
theorem sent (serving : Serving m w)
    (resting : Resting w c.sqe.key o) (state : (w.heap o).state = .write) (fine : 0 ≤ c.res)
    (done : w.handleEvent env c = some w') : Stocked m last w' := by
  have own := serving.key resting.found
  obtain ⟨x, written, released⟩ := handleEvent_sent serving.shard serving.udp resting.found state
    (by rw [own]; exact resting.fork) fine done
  obtain ⟨x₁, dropped, called⟩ := onWritten_eq written
  have frame : Session.Frame w.cfg (w.session o) x :=
    (onKernelWrite_frame dropped).trans
      ((fired_frame x₁ _).trans (calls_frame called))
  obtain ⟨rb, rb', present, moved, rfl⟩ := onKernelWrite_eq dropped
  have confined := calls_confined (serving.forks resting.found resting.fork) called
  have obj : x.obj = o := confined.obj
  have sq : x.sq = w.sq := confined.sq
  have after := serving.session resting.found resting.fork obj confined.posture sq confined.shut
  have worked : Stocked m last (w.setSession x) := by
    refine stocked.session serving.toGrounded resting.found resting.fork obj frame.life
      frame.supplied frame.requests ?_ ?_ ?_
    · have mine := (stocked.conns resting.found).paged
      refine calls_paged ⟨mine.1, fun _ here => ?_⟩ called
      cases here
      rw [RingBuffer.Paged, (RingBuffer.advanceRead_frame moved).2]
      exact mine.2 rb present
    · intro exact'
      exact frame.sized exact' ((stocked.conns resting.found).sized (frame.exact_before exact'))
    · intro q member
      change q ∈ (w.inflight ++ x.sq).flatten at member
      rw [sq] at member
      exact Or.inl member
  have key : ((w.setSession x).heap o).key = c.sqe.key := after.key resting.found
  rw [key] at released
  exact worked.release after.toGrounded resting.found resting.fork released

/-- A datagram is handed to its fork, whose reply is sent. -/
theorem received (grounded : Grounded m w)
    (room : w.keyPool.nextKey + 1 < 2 ^ 59) (quiet : 1 ∉ w.outstanding.map Sqe.key)
    (key : c.sqe.key = 1) (some' : 0 < c.res) (calm : c.nonempty = false) (free : env.sqe 0 = true)
    (free' : env.sqe 1 = true) (replies : env.Replies) (done : w.handleEvent env c = some w') :
    Stocked m last w' ∧ ∃ f base inbound grown outbound w₁ x,
      Parted w c m f base inbound grown outbound w₁ ∧ Serving m w₁ ∧ Stocked m last w₁ ∧
      Resting w₁ w.forkKey f ∧ (w₁.session f).workAndArm w₁.cfg
        { env with sqe := fun i => env.sqe (i + 1) } c.res = some (none, x) ∧
      w' = w₁.setSession x := by
  have found : w.connections.lookup c.sqe.key = some m := by
    rw [key]
    exact grounded.main
  obtain ⟨f, base, inbound, grown, outbound, w₁, parted, handled⟩ :=
    handleEvent_received grounded.shard grounded.udp grounded.poolBound
      (grounded.bound grounded.main) (grounded.free grounded.main) found grounded.state some' calm
      free done
  rcases handled with ⟨async, _⟩ | ⟨_, err, x, worked, ended⟩
  · rw [stocked.sync] at async
    cases async
  obtain ⟨serving, resting, _⟩ := grounded.parted room quiet parted
  have after := stocked.parted grounded quiet parted
  obtain ⟨_, _, out, _, _, _, present, _, conn⟩ := parted.fork
  obtain ⟨rb, same, idle⟩ := grounded.outbound
  cases present.symm.trans same
  have config : w₁.cfg = w.cfg := by rw [parted.frame]
  rw [← config] at worked
  have here : (w₁.heap f).outboundBuffer = some out := by rw [conn]
  have handler : Env.Replies { env with sqe := fun i => env.sqe (i + 1) } := replies
  obtain ⟨rfl, _⟩ := serving.reply resting free' handler here idle.outbox worked
  cases ended
  exact ⟨after.reply serving resting free' handler here idle.outbox worked,
    f, base, inbound, grown, outbound, w₁, x, parted, serving, after, resting, worked, rfl⟩

/-- An event is answered. -/
theorem event (serving : Serving m w) {left : Nat} (phase : w.phase = .events (left + 1))
    {cq : List Cqe} (first : w.cq = c :: cq) (room : w.keyPool.nextKey + 1 < 2 ^ 59)
    (free : env.sqe 0 = true) (free' : env.sqe 1 = true) (answered : c.Answered w.cfg env)
    (done : handleEvent { w with phase := .events left, cq := cq } env c = some w') :
    Stocked m last w' := by
  obtain ⟨grounded, member, fresh, _⟩ := serving.pop first phase
  have popped := stocked.popped first (.events left)
  rcases serving.requests c.sqe member with ⟨one, read, _⟩ | ⟨fork, _, o, found, state⟩
  · obtain ⟨some', calm, replies⟩ := answered read
    rw [one] at fresh
    have handler := replies.resolve_left (by rw [stocked.sync]; exact Bool.false_ne_true)
    exact (popped.received grounded room fresh one some' calm free free' handler done).1
  · by_cases error : c.res < 0
    · rw [handleEvent_error grounded.shard error] at done
      cases done
      exact popped
    · exact popped.sent (serving.popped first phase fork)
        ⟨found, fork, fresh, grounded.unheld state⟩ state (not_lt.mp error) done

/-- Every step that meets the conditions leaves the memory in order. -/
theorem step (serving : Serving m w) {label : Label} (answering : w.Answering label)
    (done : w.step label = some w') : Stocked m ((w.arrival label).or last) w' := by
  obtain ⟨tasks, queue⟩ := append_eq_nil_iff.mp stocked.idle
  have none' : w.tasks = [] := map_eq_nil_iff.mp tasks
  cases label with
  | shutdown => exact answering.elim
  | turn order chains result =>
    obtain ⟨phase, shut, rfl, _, _⟩ := serving.turn_eq done
    refine stocked.queues (fun q member => ?_) fun _ member => member
    rw [← underway_submit w chains phase shut]
    exact member
  | event env =>
    obtain ⟨room, free, free', answered⟩ := answering
    simp only [Worker.step] at done
    split at done
    · rename_i left c cq phase first
      exact stocked.event serving phase first room free free'
        (answered c (by rw [first]; rfl)) done
    · cases done
  | peek =>
    simp only [Worker.step] at done
    split_ifs at done
    cases done
    exact stocked.queues (fun _ member => member) fun _ member => member
  | endBatch =>
    simp only [Worker.step] at done
    split_ifs at done
    cases done
    rw [serving.afterBatch_eq]
    exact stocked.queues (fun _ member => member) fun _ member => member
  | newConn env =>
    simp only [Worker.step] at done
    split at done
    · exact absurd ‹_› serving.phase
    · exact absurd ‹_› serving.phase
    · cases done
  | asyncWrite env =>
    simp only [Worker.step] at done
    split at done
    · rw [serving.unfinished] at done
      cases done
      exact stocked.queues (fun _ member => member) fun _ member => member
    · rename_i first
      rw [queue] at first
      cases first
    · cases done
  | complete chain res nonempty data peer => exact stocked.complete serving done
  | handOff fd addr =>
    simp only [Worker.step, serving.shard, reduceCtorEq, false_and, if_false] at done
  | taskBegin i | taskCall i op | taskEnd i =>
    simp only [Worker.step, none', List.getElem?_nil, reduceCtorEq] at done

end Stocked

/-- The bytes of a datagram were given to one call of `OnRead`, which turned `x` into `x₁`, on a
fork of its own, and what the handler has written is sent back. -/
structure Conversed (w : Worker) (handler : List ConnOp) (bytes : List UInt8) (sender : NetAddr)
    (x x₁ : Session) (w' : Worker) : Prop where
  fork : w.connections.lookup x.conn.key = none ∧ w'.connections.lookup x.conn.key = some x.obj
  inbound : ∃ l : Layout, x.conn.inboundBuffer = some l.toRing ∧ l.content = bytes
  remote : x.conn.remoteAddr = some sender
  called : Session.calls w.cfg.source handler x = some x₁
  -- no other callback was fired
  once : (w'.histories x.conn.life).word = [.onRead bytes.length]
  others : ∀ life, life ≠ x.conn.life → (w'.histories life).word = (w.histories life).word
  -- one send is outstanding for the fork
  reply : ∃ q, w'.outstanding.filter (fun q => q.key = x.conn.key) = [q] ∧ q.flag = .write ∧
    q.fd = w.cfg.listener ∧ w'.fetch q.addr q.len = some x₁.history.written ∧
    (w'.heap q.obj).rawSockaddr = some sender

/-- Every datagram that is handled is answered. -/
theorem Stocked.conversed (stocked : Stocked m last w) (grounded : Grounded m w)
    (room : w.keyPool.nextKey + 1 < 2 ^ 59) (quiet : 1 ∉ w.outstanding.map Sqe.key)
    (key : c.sqe.key = 1) (some' : 0 < c.res)
    (calm : c.nonempty = false) (free : env.sqe 0 = true) (free' : env.sqe 1 = true)
    (replies : env.Replies) (faithful : ∀ op ∈ env.handler, op.faithful = true)
    (arrived : w.Exact → ∃ l : Layout, (w.heap m).inboundBuffer = some l.toRing ∧
      l.isEmpty = true ∧ c.res = c.data.length ∧ c.data.length ≤ l.mem.size ∧
      l.spare c.data.length = c.data ∧ last = some ⟨c.data, (w.heap m).rawSockaddr⟩)
    (done : w.handleEvent env c = some w') (exact' : w'.Exact) :
    ∃ datagram, last = some datagram ∧ c.res = datagram.bytes.length ∧
      ∀ sender, datagram.sender = some sender →
        ∃ x x₁, Conversed w env.handler datagram.bytes sender x x₁ w' := by
  obtain ⟨after, f, base, inbound, grown, outbound, w₁, x', parted, serving₁, _, resting, worked,
    rfl⟩ := stocked.received grounded room quiet key some' calm free free' replies done
  have handler : Env.Replies { env with sqe := fun i => env.sqe (i + 1) } := replies
  obtain ⟨_, _, out, front, _, _, present, _, conn⟩ := parted.fork
  obtain ⟨_, same, idle⟩ := grounded.outbound
  cases present.symm.trans same
  have here : (w₁.heap f).outboundBuffer = some out := by rw [conn]
  have config : w₁.cfg = w.cfg := by rw [parted.frame]
  obtain ⟨_, serving'⟩ := serving₁.reply resting free' handler here idle.outbox worked
  have network := serving₁.forks resting.found resting.fork
  have open' := serving₁.open' f
  have exact₀ : w.Exact := by
    obtain ⟨made, appended⟩ := parted.requests
    exact Exact.of_append appended config (workAndArm_exact serving₁.udp free' handler
      network open' here idle.outbox worked exact')
  obtain ⟨l, present', empty, count, fits, stored, rfl⟩ := arrived exact₀
  refine ⟨_, rfl, count, fun sender origin => ?_⟩
  obtain ⟨l', inside, content⟩ := parted.content present' empty count fits stored
  -- the handler starts with an empty outbound buffer and a history of its own
  obtain ⟨_, _, here₀, sized⟩ := (stocked.conns grounded.main).sized exact₀
  cases present.symm.trans here₀
  obtain ⟨l₀, rfl, empty₀⟩ := (RingBuffer.Blank.of_idle idle sized).layout
  obtain ⟨silent, blank⟩ := stocked.unborn w.nextLife le_rfl
  have life : (w₁.heap f).life = w.nextLife := by rw [conn]
  have word : ∀ life, (w₁.histories life).word = (w.histories life).word ∧
      (w₁.histories life).written = (w.histories life).written := by
    intro life
    obtain ⟨_, same⟩ := parted.histories life
    rw [same]
    exact ⟨rfl, rfl⟩
  have blank' : (w₁.session f).history.written = [] := by
    change (w₁.histories (w₁.heap f).life).written = []
    rw [life, (word _).2, blank]
  obtain ⟨x₁, l₂, called, confined, ready, written, same⟩ :=
    workAndArm_written serving₁.udp free' handler faithful network open' here idle.outbox
      empty₀ blank' worked exact'
  have frame := calls_frame called
  have queue : x'.sq = w₁.sq.push { flag := .write, key := x₁.conn.key, fd := x₁.conn.fd
                                    addr := ⟨l₂.mem.addr, l₂.r⟩, len := l₂.count, obj := x₁.obj
                                    life := x₁.conn.life } := by
    rw [same]
    exact congrArg (Chains.push · _) confined.sq
  have requests : (w₁.setSession x').outstanding.Perm (_ :: w₁.outstanding) :=
    outstanding_push rfl queue rfl
  have forked : (w₁.setSession x').heap f = x'.conn := by
    rw [show f = x'.obj by rw [same]; exact confined.obj.symm]
    exact update_self ..
  have own : x'.conn.life = (w₁.heap f).life ∧ x'.history = x₁.history := by
    rw [same]
    exact ⟨frame.life, rfl⟩
  refine ⟨(w₁.session f).setUserSpace.fired (.onRead c.res), x₁, ?_⟩
  constructor
  case fork =>
    have ownKey : (w₁.heap f).key = w.forkKey := by rw [conn]
    change w.connections.lookup (w₁.heap f).key = none ∧
      w₁.connections.lookup (w₁.heap f).key = some f
    rw [ownKey]
    refine ⟨?_, resting.found⟩
    cases known : w.connections.lookup w.forkKey with
    | none => rfl
    | some o => exact absurd (grounded.fork_key.2 known) (lt_irrefl _)
  case inbound => exact ⟨l', inside, content⟩
  case remote =>
    change (w₁.heap f).remoteAddr = some sender
    rw [conn, show (w.heap m).rawSockaddr = some sender from origin]
    rfl
  case called => rw [← config]; exact called
  case once =>
    have fired : x₁.history.word = (w₁.histories (w₁.heap f).life).word ++ [.onRead c.res] :=
      (calls_still called).word
    change (update w₁.histories x'.conn.life x'.history (w₁.heap f).life).word = _
    rw [own.1, update_self, own.2, fired, life, (word _).1, silent, count]
    rfl
  case others =>
    intro life other
    change (update w₁.histories x'.conn.life x'.history life).word = _
    rw [update_of_ne (by rw [own.1]; exact other)]
    exact (word life).1
  case reply =>
    have member := requests.symm.subset mem_cons_self
    have ownKey : x₁.conn.key = (w₁.heap f).key := frame.key
    refine ⟨_, filter_eq_singleton serving'.nodup member (decide_eq_true ownKey) ?_, rfl, ?_, ?_,
      ?_⟩
    · intro q' _ mine
      exact (of_decide_eq_true mine).trans ownKey.symm
    · rw [← config]
      exact frame.fd.trans (serving₁.fd resting.found)
    · rw [written]
      refine fetch_content after.distinct (serving'.bound resting.found) ?_
      rw [forked, same]
      exact ready
    · obtain ⟨_, _, kept⟩ := confined.conn
      change ((w₁.setSession x').heap x₁.obj).rawSockaddr = some sender
      rw [show x₁.obj = f from confined.obj, forked, same]
      change x₁.conn.rawSockaddr = some sender
      rw [kept]
      change (w₁.heap f).rawSockaddr = some sender
      rw [conn]
      exact origin

/-- A completion has been attended to: a datagram, the last one to arrive, was answered, and the
fork of a completed send is gone. -/
structure Attended (w : Worker) (last : Option Datagram) (env : Env) (c : Cqe) (w' : Worker) :
    Prop where
  received : c.sqe.flag = .read → ∃ datagram, last = some datagram ∧
    c.res = datagram.bytes.length ∧ ∀ sender, datagram.sender = some sender →
      ∃ x x₁, Conversed w env.handler datagram.bytes sender x x₁ w'
  sent : c.sqe.flag = .write → w'.connections.lookup c.sqe.key = none

/-- No reader that a handler reads from is ever without bytes, and no send that is handled has
failed. -/
def Careful (w : Worker) : Label → Prop
  | .event env => (∀ op ∈ env.handler, op.faithful = true) ∧
      ∀ c ∈ w.cq.head?, c.sqe.flag = .write → 0 ≤ c.res
  | _ => True

instance (w : Worker) : (label : Label) → Decidable (w.Careful label)
  | .event env => inferInstanceAs (Decidable ((∀ op ∈ env.handler, op.faithful = true) ∧
      ∀ c ∈ w.cq.head?, c.sqe.flag = .write → 0 ≤ c.res))
  | .shutdown | .turn _ _ _ | .peek | .endBatch | .newConn _ | .asyncWrite _ => isTrue trivial
  | .complete _ _ _ _ _ | .handOff _ _ | .taskBegin _ | .taskCall _ _ => isTrue trivial
  | .taskEnd _ => isTrue trivial

/-- The conditions under which every datagram is answered. -/
def Replying (w : Worker) (label : Label) : Prop := w.Answering label ∧ w.Careful label

instance (w : Worker) (label : Label) : Decidable (w.Replying label) :=
  inferInstanceAs (Decidable (_ ∧ _))

/-- A completion that is handled under the conditions is attended to. -/
theorem Stocked.attended (stocked : Stocked m last w) (serving : Serving m w)
    (replying : w.Replying (.event env)) (first : w.cq.head? = some c)
    (done : w.step (.event env) = some w') (exact' : w'.Exact) : Attended w last env c w' := by
  obtain ⟨⟨room, free, free', answered⟩, faithful, fine⟩ := replying
  simp only [Worker.step] at done
  split at done
  swap
  · cases done
  rename_i left c' cq phase head
  rw [head] at first
  cases first
  have here : c ∈ w.cq.head? := by rw [head]; rfl
  obtain ⟨grounded, member, fresh, _⟩ := serving.pop head phase
  rcases serving.requests c.sqe member with ⟨one, read, _⟩ | ⟨fork, write, o, found, state⟩
  · refine ⟨fun _ => ?_, fun contra => ?_⟩
    · obtain ⟨some', calm, replies⟩ := answered c here read
      have handler := replies.resolve_left (by rw [stocked.sync]; exact Bool.false_ne_true)
      rw [one] at fresh
      obtain ⟨datagram, same, size, answers⟩ := (stocked.popped head (.events left)).conversed
        grounded room fresh one some' calm free free' handler faithful
        (fun exact₀ => stocked.arrived exact₀ c
          (by rw [head]; exact mem_cons_self) one some'.le)
        done exact'
      refine ⟨datagram, same, size, fun sender from' => ?_⟩
      obtain ⟨x, x₁, conversed⟩ := answers sender from'
      exact ⟨x, x₁, { conversed with }⟩
    · rw [read] at contra
      cases contra
  · refine ⟨fun contra => ?_, fun _ => ?_⟩
    · rw [write] at contra
      cases contra
    · exact ((serving.popped head phase fork).sent ⟨found, fork, fresh, grounded.unheld state⟩ state
        (fine c here write) done).2

variable {cfg : Config} {streams : Streams}

/-- In every run that meets the conditions, a completion that is handled next is attended to. -/
theorem run_attended_of_replying (shard : cfg.kind = .shard) (udp : cfg.sendRecvMsg = true)
    (sync : cfg.asyncHandler = false) (page : minRead ≤ cfg.pageSize)
    (started : start cfg streams = some w) {ls : List Label}
    (ran : run noted ls (w, none) = some (w₁, last))
    (along : Along noted (fun s => s.1.Replying) ls (w, none)) (replying : w₁.Replying (.event env))
    (first : w₁.cq.head? = some c) (done : w₁.step (.event env) = some w') (exact' : w'.Exact) :
    Attended w₁ last env c w' := by
  obtain ⟨m, serving, stocked⟩ := start_stocked shard udp sync page started
  have preserved : ∀ (s : Worker × Option Datagram) (label : Label) (s' : Worker × Option Datagram),
      s.1.Replying label → noted s label = some s' →
      Serving m s.1 ∧ Stocked m s.2 s.1 → Serving m s'.1 ∧ Stocked m s'.2 s'.1 := by
    rintro ⟨v, earlier⟩ label s' ⟨answering, _⟩ stepped ⟨serving, stocked⟩
    obtain ⟨v', went, rfl⟩ := map_eq_some_iff.mp stepped
    exact ⟨serving.step answering went, stocked.step serving answering went⟩
  obtain ⟨serving₁, stocked₁⟩ := invariant_of_run preserved ran along ⟨serving, stocked⟩
  exact stocked₁.attended serving₁ replying first done exact'

/-- A datagram of two bytes is about to be handled, flagged or not. -/
def awaiting (nonempty : Bool) : List Label :=
  submitted ++ ([.complete 0 2 nonempty [1, 2] (some 7), .turn [] 0 .done, .peek] : List Label)

/-- A handler that sends the bytes back. -/
def echo : Env := { handler := [.next 2, .write [1, 2]] }

theorem run_attended_of_replying_echo : ∃ w w₁ w' c, start datagrams keepNothing = some w ∧
    run noted (awaiting false) (w, none) = some (w₁, some ⟨[1, 2], some 7⟩) ∧
    w₁.cq.head? = some c ∧ c.sqe.flag = .read ∧ w₁.step (.event echo) = some w' ∧
    Attended w₁ (some ⟨[1, 2], some 7⟩) echo c w' := by
  have seen : ((start datagrams keepNothing).bind fun w =>
      (run noted (awaiting false) (w, none)).bind fun s => s.1.cq.head?.bind fun c =>
        (s.1.step (.event echo)).map fun w' => decide (s.2 = some ⟨[1, 2], some 7⟩ ∧
          c.sqe.flag = .read ∧ Along noted (fun s => s.1.Replying) (awaiting false) (w, none) ∧
          s.1.Replying (.event echo) ∧ w'.Exact)) = some true := by decide +kernel
  obtain ⟨w, started, seen⟩ := bind_eq_some_iff.mp seen
  obtain ⟨⟨w₁, last⟩, ran, seen⟩ := bind_eq_some_iff.mp seen
  obtain ⟨c, first, seen⟩ := bind_eq_some_iff.mp seen
  obtain ⟨w', done, seen⟩ := map_eq_some_iff.mp seen
  obtain ⟨rfl, flag, along, replying, exact'⟩ := of_decide_eq_true seen
  exact ⟨w, w₁, w', c, started, ran, first, flag, done, run_attended_of_replying rfl rfl rfl
    (by decide) started ran along replying first done exact'⟩

/-- When more is announced, `OnRead` is not fired: the fork is armed with a receive and stays. -/
theorem run_not_replied : ∃ w w₁ w' c, start datagrams keepNothing = some w ∧
    run noted (awaiting true) (w, none) = some (w₁, some ⟨[1, 2], some 7⟩) ∧
    w₁.cq.head? = some c ∧ c.sqe.flag = .read ∧ w₁.step (.event echo) = some w' ∧ w'.Exact ∧
    (∀ life < w'.nextLife, (w'.histories life).word = []) ∧
    ¬ Attended w₁ (some ⟨[1, 2], some 7⟩) echo c w' := by
  have seen : ((start datagrams keepNothing).bind fun w =>
      (run noted (awaiting true) (w, none)).bind fun s => s.1.cq.head?.bind fun c =>
        (s.1.step (.event echo)).map fun w' => decide (s.2 = some ⟨[1, 2], some 7⟩ ∧
          c.sqe.flag = .read ∧ w'.Exact ∧ (∀ life < w'.nextLife, (w'.histories life).word = []) ∧
          ∀ q ∈ w'.outstanding, q.flag = .read)) = some true := by decide +kernel
  obtain ⟨w, started, seen⟩ := bind_eq_some_iff.mp seen
  obtain ⟨⟨w₁, last⟩, ran, seen⟩ := bind_eq_some_iff.mp seen
  obtain ⟨c, first, seen⟩ := bind_eq_some_iff.mp seen
  obtain ⟨w', done, seen⟩ := map_eq_some_iff.mp seen
  obtain ⟨rfl, flag, exact', silent, reads⟩ := of_decide_eq_true seen
  refine ⟨w, w₁, w', c, started, ran, first, flag, done, exact', silent, fun attended => ?_⟩
  obtain ⟨datagram, same, _, answers⟩ := attended.received flag
  cases same
  obtain ⟨x, x₁, conversed⟩ := answers 7 rfl
  obtain ⟨q, sends, write, _⟩ := conversed.reply
  have member : q ∈ w'.outstanding := (mem_filter.mp (sends ▸ mem_singleton_self q)).1
  rw [reads q member] at write
  cases write

end Worker

end Gain
