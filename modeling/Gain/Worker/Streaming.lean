import Gain.Worker.Ownership
import Gain.Worker.Sending

/-! # The byte streams of a connection

What a handler has consumed, followed by the content of the inbound buffer, is what
the kernel has delivered. A receive stores its bytes behind the content of the
buffer, and until its completion is handled the buffer is not changed by anything
else. With what is sent, this is all that goes through a connection.
-/

namespace Gain

open List Option

/-- The inbound buffer of a connection, with the bytes that have gone through it. -/
structure Incoming (c : Connection) (h : History) (i : Layout) : Prop where
  present : c.inboundBuffer = some i.toRing
  received : h.consumed ++ i.content = h.delivered

/-- A receive is for the free part of the buffer. -/
structure Sqe.Fills (q : Sqe) (l : Layout) : Prop where
  addr : q.addr = ⟨l.mem.addr, l.w⟩
  len : q.len = l.mem.size - l.count

/-- The bytes of a receive lie behind the content of the buffer. -/
structure Cqe.Received (c : Cqe) (l : Layout) : Prop where
  size : c.res = c.data.length
  room : l.count + c.data.length ≤ l.mem.size
  bytes : l.spare c.data.length = c.data

namespace Incoming

variable {cfg : Config} {x x' : Session} {c : Cqe} {i : Layout} {ops : List ConnOp}
  {new : List Sqe}

variable (incoming : Incoming x.conn x.history i)
include incoming

theorem calls (steady : ∀ op ∈ ops, op.steady = true)
    (done : Session.calls cfg.source ops x = some x') : ∃ i', Incoming x'.conn x'.history i' := by
  obtain ⟨i', present, consumed⟩ := Session.calls_consumed incoming.present steady done
  refine ⟨i', present, ?_⟩
  rw [consumed, incoming.received, (Session.calls_still done).delivered]

/-- A callback is fired and makes its calls. -/
theorem fired {callback : Callback} (steady : ∀ op ∈ ops, op.steady = true)
    (done : Session.calls cfg.source ops (x.setUserSpace.fired callback) = some x') :
    ∃ i', Incoming x'.conn x'.history i' := by
  have fired : Incoming (x.setUserSpace.fired callback).conn
      (x.setUserSpace.fired callback).history i := ⟨incoming.present, incoming.received⟩
  exact fired.calls steady done

theorem counted (arrived : c.Received i)
    (counted : x.onKernelRead c = some x') : ∃ i', Incoming x'.conn x'.history i' := by
  obtain ⟨rb, rb', present, moves, rfl⟩ := Session.onKernelRead_eq counted
  cases incoming.present.symm.trans present
  rw [arrived.size] at moves
  obtain ⟨i', same, content, _⟩ := i.toRing_advanceWrite arrived.room
  cases moves.symm.trans same
  refine ⟨i', rfl, ?_⟩
  rw [content, arrived.bytes, ← append_assoc, incoming.received]

theorem dropped (dropped : x.onKernelWrite c = some x') : Incoming x'.conn x'.history i := by
  obtain ⟨rb, rb', _, _, rfl⟩ := Session.onKernelWrite_eq dropped
  exact ⟨incoming.present, incoming.received⟩

/-- The kernel's part of an event and its callback. -/
theorem prelude
    (arrived : x.conn.state = .read → c.Received i) (prelude : Session.Prelude cfg ops c x x')
    (steady : ∀ op ∈ ops, op.steady = true) : ∃ i', Incoming x'.conn x'.history i' := by
  cases prelude with
  | reread state some' received more open' => exact incoming.counted (arrived state) received
  | worked state some' received called =>
    obtain ⟨i', counted⟩ := incoming.counted (arrived state) received
    exact counted.fired steady called
  | wrote state written called => exact (incoming.dropped written).fired steady called

/-- The next receive is for the free part of the buffer. -/
theorem armed (armed : Session.Armed cfg x new x')
    (exact' : ∀ q ∈ x'.mem.requests, q.Exact cfg.pageSize) :
    ∃ i', Incoming x'.conn x'.history i' ∧ ∀ q ∈ new, q.flag = .read → q.Fills i' := by
  cases armed with
  | nothing => exact ⟨i, incoming, forall_mem_nil _⟩
  | @read rb rb' mem addr present grown address =>
    cases incoming.present.symm.trans present
    obtain ⟨i', rfl, content⟩ := i.growIfUnsufficientFreeSpace_content grown exact'
    cases i'.toRing_writeAddress.symm.trans address
    refine ⟨i', ⟨rfl, ?_⟩, fun q member _ => ?_⟩
    · rw [content]
      exact incoming.received
    · rw [mem_singleton.mp member]
      exact ⟨rfl, i'.toRing_available⟩
  | write link present address | close reason =>
    refine ⟨i, ⟨incoming.present, incoming.received⟩, fun q member flag => ?_⟩
    rw [mem_singleton.mp member] at flag
    cases flag
  | writeClose closed present address =>
    refine ⟨i, ⟨incoming.present, incoming.received⟩, fun q member flag => ?_⟩
    rcases mem_cons.mp member with rfl | last
    · cases flag
    · rw [mem_singleton.mp last] at flag
      cases flag

end Incoming

namespace View

variable {k : Int} {v v' : View} {cfg : Config} {x x' : Session} {new : List Sqe} {i o : Layout}

/-- The inbound buffer and the receive that is underway. -/
structure Receiving (v : View) (i : Layout) : Prop where
  incoming : Incoming v.conn v.history i
  fills : ∀ q ∈ v.todo, q.flag = .read → q.Fills i
  received : ∀ c ∈ v.done, c.sqe.flag = .read → 0 ≤ c.res → c.Received i

namespace Receiving

/-- A connection with nothing underway is armed. -/
theorem of_armed (incoming : Incoming x.conn x.history i) (armed : Session.Armed cfg x new x')
    (exact' : ∀ q ∈ x'.mem.requests, q.Exact cfg.pageSize)
    (conn : v.conn = x'.conn) (history : v.history = x'.history) (todo : v.todo = new)
    (done : v.done = []) : ∃ i', v.Receiving i' := by
  obtain ⟨i', incoming', fills⟩ := incoming.armed armed exact'
  refine ⟨i', ?_, ?_, ?_⟩
  · rw [conn, history]
    exact incoming'
  · rw [todo]
    exact fills
  · rw [done]
    exact forall_mem_nil _

/-- No receive is underway. -/
theorem of_quiet (incoming : Incoming v.conn v.history i)
    (quiet : ∀ q ∈ v.requests, q.flag ≠ .read) : v.Receiving i := by
  refine ⟨incoming, ?_, ?_⟩
  · exact fun q member flag => absurd flag (quiet q (mem_append_right _ member))
  · exact fun c member flag => absurd flag (quiet c.sqe (mem_append_left _ (mem_map_of_mem member)))

variable {rules : Rules} {mem : VirtualMem.Ledger} {sq : Chains} {shut : List Int} {c : Cqe}
  {rest : List Cqe} {ops : List ConnOp} {q : Sqe}

variable (receiving : v.Receiving i)
include receiving

/-- The only request of a connection that reads or writes is handled. -/
theorem handled (tidy : v.Tidy k) (first : v.done = c :: rest)
    (fine : 0 ≤ c.res) (prelude : Session.Prelude cfg ops c (v.session mem sq shut) x)
    (steady : ∀ op ∈ ops, op.steady = true) : ∃ i', Incoming x.conn x.history i' := by
  obtain ⟨_, read, _⟩ := tidy.alone first prelude.state.1
  have arrived : v.conn.state = .read → c.Received i := fun state =>
    receiving.received c (by rw [first]; exact mem_cons_self) (read state) fine
  exact Incoming.prelude (x := v.session mem sq shut) receiving.incoming arrived prelude steady

/-- A receive is counted for a handler in a goroutine. -/
theorem spawned (tidy : v.Tidy k) (first : v.done = c :: rest)
    (some' : 0 < c.res) (state : v.conn.state = .read)
    (received : (v.session mem sq shut).onKernelRead c = some x) (tasks : List Task) :
    ∃ i', ({ v.worked x [] with done := rest, tasks := tasks } : View).Receiving i' := by
  obtain ⟨⟨todo, done, _, _⟩, read, _⟩ := tidy.alone first (Or.inl state)
  change rest = [] at done
  change v.todo = [] at todo
  have arrived := receiving.received c (by rw [first]; exact mem_cons_self) (read state)
    some'.le
  obtain ⟨i', incoming⟩ := Incoming.counted (x := v.session mem sq shut) receiving.incoming arrived
    received
  refine ⟨i', of_quiet incoming ?_⟩
  simp [requests, worked, todo, done]

/-- The send before a close is handled. -/
theorem flushed (tidy : v.Tidy k) (first : v.done = c :: rest) (state : v.conn.state = .close)
    (flag : c.sqe.flag = .write) (sent : (v.session mem sq shut).onKernelWrite c = some x)
    (called : Session.calls cfg.source ops (x.setUserSpace.fired (.onWrite c.res)) = some x')
    (steady : ∀ op ∈ ops, op.steady = true) :
    ∃ i', ({ v.worked x' [] with done := rest } : View).Receiving i' := by
  obtain ⟨_, quiet⟩ := tidy.behind first flag state
  have incoming := Incoming.dropped (x := v.session mem sq shut) receiving.incoming sent
  obtain ⟨i', incoming'⟩ := incoming.fired steady called
  refine ⟨i', of_quiet incoming' fun q member => ?_⟩
  change q ∈ rest.map Cqe.sqe ++ (v.todo ++ []) at member
  rw [append_nil] at member
  rw [quiet q member]
  decide

/-- The kernel stores received bytes behind the content. -/
theorem stored (tidy : v.Tidy k) {rest : List Sqe} {nonempty : Bool} {data : List UInt8}
    (first : v.todo = q :: rest) (flag : q.flag = .read) (fits : data.length ≤ q.len) :
    ({ v with conn := v.conn.deposit q.addr data, todo := rest
              done := v.done ++ [⟨q, data.length, nonempty, data⟩] } : View).Receiving
      (i.store data) := by
  obtain ⟨done, rfl⟩ := tidy.receiving first flag
  have fills := receiving.fills q (by rw [first]; exact mem_cons_self) flag
  have room : i.count + data.length ≤ i.mem.size := by
    rw [fills.len] at fits
    have := i.count_le
    omega
  have stored : i.toRing.deposit q.addr data = (i.store data).toRing := by
    rw [fills.addr]
    exact i.toRing_deposit data
  refine ⟨⟨?_, ?_⟩, forall_mem_nil _, ?_⟩
  · change v.conn.inboundBuffer.map _ = _
    rw [receiving.incoming.present, map_some, stored]
  · rw [i.store_content room]
    exact receiving.incoming.received
  · rw [done]
    intro c member _ _
    rw [mem_singleton.mp member]
    refine ⟨rfl, ?_, i.store_spare room⟩
    change (i.store data).count + data.length ≤ (i.store data).mem.size
    exact room

/-- A request completes that is no receive, or requests fail. -/
theorem completed {history : History} {todo : List Sqe} {cqes : List Cqe}
    (sub : ∀ q ∈ todo, q ∈ v.todo) (silent : ∀ c ∈ cqes, c.res < 0 ∨ c.sqe.flag ≠ .read)
    (consumed : history.consumed = v.history.consumed)
    (delivered : history.delivered = v.history.delivered) :
    ({ v with history := history, todo := todo, done := v.done ++ cqes } : View).Receiving i := by
  refine ⟨⟨receiving.incoming.present, ?_⟩, ?_, ?_⟩
  · rw [consumed, delivered]
    exact receiving.incoming.received
  · exact fun q member => receiving.fills q (sub q member)
  · intro c member flag fine
    rcases mem_append.mp member with old | added
    · exact receiving.received c old flag fine
    · rcases silent c added with error | other
      · omega
      · exact absurd flag other

/-- Every move keeps the inbound stream. -/
theorem move (calls : ∀ op, rules.call op → op.steady = true) (tidy : v.Tidy k)
    (move : Move cfg rules True v v') : ∃ i', v'.Receiving i' := by
  have steady : ∀ {ops : List ConnOp}, (∀ op ∈ ops, rules.call op) →
      ∀ op ∈ ops, op.steady = true := fun allowed op member => calls op (allowed op member)
  have same : Incoming v.conn v.history i := receiving.incoming
  have waiting : v.tasks ≠ [] → ∀ q ∈ v.done.map Cqe.sqe ++ (v.todo ++ []), q.flag ≠ .read := by
    intro some'
    rw [append_nil]
    change ∀ q ∈ v.requests, q.flag ≠ .read
    rw [(tidy.waits (Or.inl some')).1]
    exact forall_mem_nil _
  cases move with
  | dropped first error =>
    refine ⟨i, same, receiving.fills, fun c member => ?_⟩
    exact receiving.received c (by rw [first]; exact mem_cons_of_mem _ member)
  | @armed c rest mem sq shut ops x x' new first fine prelude armed allowed sized spent =>
    obtain ⟨⟨todo, done, _, _⟩, _⟩ := tidy.alone first prelude.state.1
    obtain ⟨i', incoming⟩ := receiving.handled tidy first fine prelude (steady allowed)
    refine of_armed incoming armed (sized trivial) rfl rfl ?_ done
    exact todo_append todo new
  | spawned first some' state received => exact receiving.spawned tidy first some' state received _
  | flushed first fine state flag sent called allowed sized =>
    exact receiving.flushed tidy first state flag sent called (steady allowed)
  | @asyncArmed mem sq shut x new waiting armed sized =>
    obtain ⟨done, todo, _⟩ := tidy.waiting (Or.inr (by rw [waiting]; decide))
    refine of_armed (x := v.session mem sq shut) same armed (sized trivial) rfl rfl ?_ done
    exact todo_append todo new
  | begun begins =>
    refine ⟨i, of_quiet ⟨same.present, same.received⟩ (waiting ?_)⟩
    rw [begins]
    exact cons_ne_nil _ _
  | @called n mem sq shut op x running called allowed sized =>
    have once : Session.calls cfg.source [op] (v.session mem sq shut) = some x := by
      simp only [Session.calls, called, bind_some]
    obtain ⟨i', incoming⟩ := Incoming.calls (x := v.session mem sq shut) same
      (steady (by simpa using allowed)) once
    refine ⟨i', of_quiet incoming (waiting ?_)⟩
    rw [running]
    exact cons_ne_nil _ _
  | returned running next =>
    exact ⟨i, ⟨same.present, same.received⟩, receiving.fills, receiving.received⟩
  | @swept mem sq shut idle found =>
    refine ⟨i, of_quiet ⟨same.present, same.received⟩ ?_⟩
    simp [requests, worked, idle.todo, idle.done, Session.closing, Session.entry]
  | received first flag fits apart => exact ⟨_, receiving.stored tidy first flag fits⟩
  | sent first flag _ _ _ _ _ _ | closed first flag _ =>
    refine ⟨i, receiving.completed ?_ ?_ rfl rfl⟩
    · rw [first]
      exact fun q member => mem_cons_of_mem _ member
    · simp [flag]
  | failed first error =>
    refine ⟨i, receiving.completed (forall_mem_nil _)
      (fun c member => Or.inl (Cqe.failed_of_mem error member)) ?_ ?_⟩ <;> split_ifs <;> rfl
  | cancelled =>
    exact ⟨i, receiving.completed (forall_mem_nil _)
      (fun c member => Or.inl (Sqe.failed_of_cancelled member)) rfl rfl⟩

omit receiving

/-- A new connection has received nothing. -/
theorem born (calls : ∀ op, rules.call op → op.steady = true) (born : Born cfg rules True k v) :
    ∃ i, v.Receiving i := by
  have fresh : ∀ {v : View}, v.Entrance k True → ∃ i, Incoming v.conn v.history i := by
    intro v entrance
    obtain ⟨⟨rb, present, blank⟩, _⟩ := entrance.blank trivial
    obtain ⟨i, rfl, empty⟩ := blank.layout
    refine ⟨i, present, ?_⟩
    rw [entrance.history, i.content_eq_nil_iff.mpr empty]
    rfl
  cases born with
  | entered entrance allowed =>
    obtain ⟨i, incoming⟩ := fresh entrance
    refine ⟨i, of_quiet incoming ?_⟩
    simp [requests, entrance.idle.todo, entrance.idle.done]
  | @welcomed v mem sq shut ops x x' new entrance called armed allowed sized spent =>
    obtain ⟨i, incoming⟩ := fresh entrance
    obtain ⟨i', incoming'⟩ := Incoming.fired (x := v.session mem sq shut) incoming
      (fun op member => calls op (allowed op member)) called
    refine of_armed incoming' armed (sized trivial) rfl rfl ?_ entrance.idle.done
    exact todo_append entrance.idle.todo new

end Receiving

/-- Both streams of a connection last. -/
theorem streams_lasting (tcp : cfg.sendRecvMsg = false) {rules : Rules}
    (calls : ∀ op, rules.call op → op.steady = true) :
    Lasting cfg rules True (fun _ v => (∃ i, v.Receiving i) ∧ ∃ o, v.Sending o)
      (fun _ => True) := by
  have faithful : ∀ op, rules.call op → op.faithful = true :=
    fun op call => ConnOp.faithful_of_steady (calls op call)
  refine ⟨fun born => ⟨Receiving.born calls born, Sending.born tcp faithful born⟩, ?_,
    fun _ _ _ => trivial, fun _ => trivial⟩
  rintro k v v' tidy ⟨⟨i, receiving⟩, o, sending⟩ move
  exact ⟨receiving.move calls tidy move, sending.move tcp faithful tidy move⟩

end View

/-- Handlers call the methods of a reader and a writer. -/
def Rules.steady : Rules := { call := fun op => op.steady = true }

instance : Rules.steady.Checked where
  call op := inferInstanceAs (Decidable (op.steady = true))
  send _ _ := isTrue trivial
  sweep _ := isTrue trivial
  eof := isTrue trivial
  full := isTrue trivial
  failing := isTrue trivial
  more := isTrue trivial

namespace Worker

variable {w w' : Worker} {cfg : Config} {streams : Streams} {k : Int} {o : Nat}

/-- The handler gets what was delivered and the kernel gets what was written, each in order and
up to what is in the buffer. -/
structure Conveys (w : Worker) (k : Int) (o : Nat) : Prop where
  inbound : ∃ content, (w.heap o).inboundBuffer.bind RingBuffer.bytes = some content ∧
    (w.view k o).history.consumed ++ content = (w.view k o).history.delivered
  outbound : ∃ content, (w.heap o).outboundBuffer.bind RingBuffer.bytes = some content ∧
    (w.view k o).history.accepted ++ content = (w.view k o).history.written
  taken : (w.view k o).history.taken = (w.view k o).history.accepted ++ (w.view k o).unhandled

/-- The two streams of a connection are independent. -/
theorem conveys_of_streams {i o' : Layout} (receiving : (w.view k o).Receiving i)
    (sending : (w.view k o).Sending o') : w.Conveys k o := by
  obtain ⟨inbound, received⟩ := receiving.incoming
  obtain ⟨outbound, sent⟩ := sending.outgoing
  refine ⟨⟨i.content, ?_, received⟩, ⟨o'.content, ?_, sent⟩, sending.taken⟩
  · rw [show (w.heap o).inboundBuffer = some i.toRing from inbound]
    exact i.toRing_bytes
  · rw [show (w.heap o).outboundBuffer = some o'.toRing from outbound]
    exact o'.toRing_bytes

/-- In every state of an orderly run the bytes of every connection are conveyed. -/
theorem run_conveys_of_orderly (tcp : cfg.sendRecvMsg = false)
    (started : start cfg streams = some w) {ls : List Label} (ran : run step ls w = some w')
    (along : Along step (Orderly .steady) ls w) (exact' : Throughout step Worker.Exact ls w) :
    ∀ k o, k ≠ w'.cfg.listener → w'.connections.lookup k = some o → w'.Conveys k o := by
  have lives := run_lives_exact (View.streams_lasting tcp fun _ => id) tcp started ran along
    exact'
  intro k o other found
  obtain ⟨⟨i, receiving⟩, o', sending⟩ := lives.current other found
  exact conveys_of_streams receiving sending

/-- A connection receives three bytes; its handler takes two of them and writes three, of which
the kernel takes two. -/
def exchange : List Label :=
  admission ++ ([.endBatch, .asyncWrite {}, .turn [] 1 .done, .peek, .endBatch, .asyncWrite {},
    .complete 0 3 false [1, 2, 3] none, .turn [] 0 .done, .peek,
    .event { handler := [.next 2, .write [4, 5, 6]] }, .endBatch, .asyncWrite {},
    .turn [] 1 .done, .peek, .endBatch, .asyncWrite {},
    .complete 1 2 false [4, 5] none] : List Label)

theorem run_conveys_of_orderly_exchange : ∃ w w', start (plain .consumer) keepNothing = some w ∧
    run step exchange w = some w' ∧ w'.connections.lookup 5 = some 0 ∧
    (w'.view 5 0).unhandled = [4, 5] ∧ w'.Conveys 5 0 := by
  obtain ⟨w, w', started, ran, along, exact', listener, found, unhandled⟩ : ∃ w w',
      start (plain .consumer) keepNothing = some w ∧
      run step exchange w = some w' ∧ Along step (Orderly .steady) exchange w ∧
      Throughout step Exact exchange w ∧ w'.cfg.listener = 3 ∧ w'.connections.lookup 5 = some 0 ∧
      (w'.view 5 0).unhandled = [4, 5] := exists_run (by decide +kernel)
  refine ⟨w, w', started, ran, found, unhandled, ?_⟩
  apply run_conveys_of_orderly rfl started ran along exact' 5 0 _ found
  rw [listener]
  decide

/-- Pools that hand out what was put back before the last. -/
def recycling : Streams := ⟨fun _ => some 0, fun _ => some 1, fun _ _ => none, fun _ => none⟩

/-- Two connections are swept while their receives are outstanding, and a third waits in the
queue. The close of the one is completed, and the third gets its buffers and receives three
bytes. Then the receive of the first is completed. -/
def receivedLate : List Label :=
  [.handOff 5 7, .handOff 4 7, .turn [] 0 .done, .peek, .endBatch, .newConn {}, .newConn {},
    .newConn {}, .asyncWrite {}, .turn [] 2 .done, .peek, .endBatch, .newConn {}, .asyncWrite {},
    .handOff 6 8, .shutdown, .turn [(5, true), (4, true)] 2 .done, .complete 2 0 false [] none,
    .peek, .event {}, .endBatch, .newConn {}, .newConn {}, .asyncWrite {}, .turn [] 1 .done,
    .complete 4 3 false [1, 2, 3] none, .peek, .event {}, .complete 0 1 false [9] none]

/-- The bytes of the first connection are in the stream of the third, which no one closes. -/
theorem run_not_conveys : ∃ w w', start queueing recycling = some w ∧
    run step receivedLate w = some w' ∧ Throughout step Exact receivedLate w ∧
    ∃ o, w'.connections.lookup 6 = some o ∧ (w'.heap o).state = .read ∧
      (w'.view 6 o).history.delivered = [1, 2, 3] ∧
      (w'.heap o).inboundBuffer.bind RingBuffer.bytes = some [9, 2, 3] ∧ ¬ w'.Conveys 6 o := by
  have seen : ((start queueing recycling).bind fun w =>
      (run step receivedLate w).bind fun w' => (w'.connections.lookup 6).map fun o =>
        decide (Throughout step Exact receivedLate w ∧ (w'.heap o).state = .read ∧
          (w'.view 6 o).history.consumed = [] ∧ (w'.view 6 o).history.delivered = [1, 2, 3] ∧
          (w'.heap o).inboundBuffer.bind RingBuffer.bytes = some [9, 2, 3])) = some true := by
    decide +kernel
  obtain ⟨w, started, seen⟩ := bind_eq_some_iff.mp seen
  obtain ⟨w', ran, seen⟩ := bind_eq_some_iff.mp seen
  obtain ⟨o, found, seen⟩ := map_eq_some_iff.mp seen
  obtain ⟨exact', state, consumed, delivered, content⟩ := of_decide_eq_true seen
  refine ⟨w, w', started, ran, exact', o, found, state, delivered, content, fun conveys => ?_⟩
  obtain ⟨bytes, same, received⟩ := conveys.inbound
  cases content.symm.trans same
  rw [consumed, delivered] at received
  simp at received

end Worker

end Gain
