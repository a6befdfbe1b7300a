import Gain.Worker.Ownership
import Gain.Worker.Sending

/-! # What was written before a close

A handler that has written and then calls `Close` leaves a send with a close linked
to it. The kernel closes the descriptor once the send is complete, also when it took
only part of the bytes; as long as it takes all of them, everything written before
`Close` has been taken when the descriptor is closed.
-/

namespace Gain

open Function List Session

variable {op : ConnOp}

namespace Session

variable {cfg : Config} {x x' : Session} {ops : List ConnOp}

/-- A handler that has called `Close` has closed the connection. -/
def Heeds (x : Session) : Prop := x.history.closeCalled = true → x.conn.closed = true

theorem closed_close (stream : x.conn.network = .tcp) : x.close.2.conn.closed = true := by
  unfold Session.close Connection.close
  simp only [stream, reduceCtorEq, if_false]
  by_cases closed : x.conn.closed = true
  · rw [if_pos closed]
    exact closed
  · rw [if_neg closed]

theorem Heeds.call (heeds : x.Heeds) (stream : x.conn.network = .tcp)
    (called : x.call cfg.source op = some x') : x'.Heeds := by
  cases call_method called with
  | refused | inbound _ _ _ | outbound _ _ _ => exact heeds
  | close => exact fun _ => closed_close stream

theorem Heeds.calls (heeds : x.Heeds) (stream : x.conn.network = .tcp)
    (done : calls cfg.source ops x = some x') : x'.Heeds := by
  induction ops generalizing x with
  | nil =>
    cases done
    exact heeds
  | cons op ops ih =>
    obtain ⟨x₁, first, rest⟩ := Option.bind_eq_some_iff.mp done
    have network : x₁.conn.network = .tcp := by
      rw [(call_method first).frame.network]
      exact stream
    exact ih (heeds.call stream first) network rest

/-- The prelude keeps a call of `Close` heeded. -/
theorem Heeds.prelude (heeds : x.Heeds) (stream : x.conn.network = .tcp) {c : Cqe}
    (prelude : Prelude cfg ops c x x') : x'.Heeds := by
  cases prelude with
  | reread _ _ received _ _ =>
    obtain ⟨_, _, _, _, rfl⟩ := onKernelRead_eq received
    exact heeds
  | @worked x₁ x' _ _ received called =>
    obtain ⟨_, _, _, _, rfl⟩ := onKernelRead_eq received
    refine Heeds.calls ?_ ?_ called
    · exact heeds
    · exact stream
  | @wrote x₁ x' _ sent called =>
    obtain ⟨_, _, _, _, rfl⟩ := onKernelWrite_eq sent
    refine Heeds.calls ?_ ?_ called
    · exact heeds
    · exact stream

end Session

/-- A goroutine leaves a close to the loop when there is nothing to send. -/
theorem Connection.spent_of_closeOp {c : Connection}
    (next : Worker.nextAsyncOp c = some .closeOp) : c.Spent := by
  obtain ⟨pending, buffered, rest⟩ := Option.bind_eq_some_iff.mp next
  by_cases some' : pending > 0
  · rw [if_pos some'] at rest
    cases rest
  · rw [if_neg some'] at rest
    by_cases closed : c.closed = true
    · exact ⟨closed, pending, buffered, not_lt.mp some'⟩
    · rw [if_neg closed] at rest
      cases rest

/-- When the descriptor is closed after a handler called `Close` and no send failed, the kernel
has taken all that was written. -/
def History.Flushed (h : History) : Prop :=
  0 < h.closes → h.closeCalled = true → h.sendFailed = false → h.taken = h.written

namespace View

variable {k : Int} {v v' : View} {cfg : Config} {rules : Rules} {x x' : Session}
  {new : List Sqe} {o o' : Layout}

/-- All that was written has been taken when nothing is underway or buffered. -/
theorem Sending.taken_eq_written (sending : v.Sending o) (done : v.done = [])
    (empty : ∃ n, v.conn.outboundBuffered = some n ∧ n ≤ 0) :
    v.history.taken = v.history.written := by
  rw [sending.taken_eq done]
  exact sending.outgoing.accepted_of_empty empty

/-- The next request the kernel carries out closes the descriptor, or it was closed. -/
def Closing (v : View) : Prop :=
  0 < v.history.closes ∨ (∃ q ∈ v.todo, q.flag = .close) ∧ ∀ q ∈ v.todo, q.flag ≠ .write

/-- The send before a close is linked to it, and a close goes out only when everything has been
taken. -/
structure Flushing (v : View) : Prop where
  heeds : v.history.closeCalled = true → v.conn.closed = true
  linked : v.conn.state = .close → ∀ q ∈ v.requests, q.flag = .write →
    q.link = true ∧ v.conn.closed = true
  decided : v.queued ≠ 0 → v.conn.nextAsyncOp = .closeOp → v.conn.Spent
  state : 0 < v.history.closes → v.conn.state = .close
  flushed : v.history.closeCalled = true → v.history.sendFailed = false → v.Closing →
    v.history.taken = v.history.written

namespace Flushing

/-- A connection with nothing underway is armed. -/
theorem of_armed (armed : Session.Armed cfg x new x') (heeds : x.Heeds)
    (calm : x.history.closes = 0) (spent : new = [x.closing] → x.conn.Spent)
    (sending : v.Sending o) (conn : v.conn = x'.conn) (history : v.history = x'.history)
    (todo : v.todo = new) (done : v.done = []) (queued : v.queued = 0) : v.Flushing := by
  have calm' : v.history.closes = 0 := by
    rw [history, armed.history]
    exact calm
  have requests : v.requests = new := by
    rw [requests, done, todo, map_nil, nil_append]
  refine ⟨?_, ?_, fun waits => absurd queued waits, ?_, ?_⟩
  · rw [history, armed.history, conn]
    cases armed <;> exact heeds
  · rw [requests, conn]
    intro state q member flag
    cases armed with
    | nothing => cases member
    | read _ _ _ | write _ _ _ => cases state
    | writeClose closed present address =>
      rcases mem_cons.mp member with rfl | last
      · exact ⟨rfl, closed⟩
      · rw [mem_singleton.mp last] at flag
        cases flag
    | close reason =>
      rw [mem_singleton.mp member] at flag
      cases flag
  · intro closed
    omega
  · rintro _ _ (closed | ⟨⟨q, member, flag⟩, alone⟩)
    · omega
    · rw [todo] at member alone
      cases armed with
      | nothing => cases member
      | read _ _ _ | write _ _ _ =>
        rw [mem_singleton.mp member] at flag
        cases flag
      | writeClose closed present address => exact absurd rfl (alone _ mem_cons_self)
      | close reason =>
        refine sending.taken_eq_written done ?_
        rw [conn]
        exact (spent rfl).2

variable (flushing : v.Flushing)
include flushing

/-- Nothing of the account changes, and no request is added. -/
theorem of_less (requests : ∀ q ∈ v'.requests, q ∈ v.requests)
    (todo : v'.todo = v.todo ∨ v'.todo = []) (closed : v'.conn.closed = v.conn.closed)
    (state : v'.conn.state = v.conn.state)
    (decided : v'.queued ≠ 0 → v'.conn.nextAsyncOp = .closeOp → v'.conn.Spent)
    (closeCalled : v'.history.closeCalled = v.history.closeCalled)
    (closes : v'.history.closes = v.history.closes)
    (sendFailed : v'.history.sendFailed = false → v.history.sendFailed = false)
    (taken : v'.history.taken = v.history.taken)
    (written : v'.history.written = v.history.written) : v'.Flushing := by
  have closing : v'.Closing → v.Closing := by
    rintro (over' | ⟨⟨q, member, flag⟩, alone⟩)
    · exact Or.inl (closes ▸ over')
    · rcases todo with same | none'
      · rw [same] at member alone
        exact Or.inr ⟨⟨q, member, flag⟩, alone⟩
      · rw [none'] at member
        cases member
  refine ⟨?_, ?_, decided, ?_, ?_⟩
  · rw [closeCalled, closed]
    exact flushing.heeds
  · rw [state, closed]
    exact fun close q member => flushing.linked close q (requests q member)
  · rw [closes, state]
    exact flushing.state
  · rw [closeCalled, taken, written]
    exact fun called fine closing' => flushing.flushed called (sendFailed fine) (closing closing')

variable {mem : VirtualMem.Ledger} {sq : Chains} {shut : List Int} {c : Cqe} {rest : List Cqe}
  {ops : List ConnOp} {q : Sqe}

/-- The descriptor of a connection that reads or writes is open. -/
theorem open_of_state
    (state : v.conn.state = .read ∨ v.conn.state = .write) : v.history.closes = 0 := by
  by_contra some'
  have close := flushing.state (Nat.pos_of_ne_zero some')
  rw [close] at state
  rcases state with other | other <;> cases other

/-- The send before a close is handled; the connection is closed, so that its handler can do
nothing. -/
theorem handled (tidy : v.Tidy k) (first : v.done = c :: rest) (state : v.conn.state = .close)
    (flag : c.sqe.flag = .write) (sent : (v.session mem sq shut).onKernelWrite c = some x)
    (called : Session.calls cfg.source ops (x.setUserSpace.fired (.onWrite c.res)) = some x') :
    ({ v.worked x' [] with done := rest } : View).Flushing := by
  have here : c.sqe ∈ v.requests := by
    rw [Tidy.requests_of_first first]
    exact mem_cons_self
  obtain ⟨_, closed⟩ := flushing.linked state c.sqe here flag
  obtain ⟨_, queued⟩ := tidy.unheld (Or.inl (ne_nil_of_mem here))
  obtain ⟨rb, rb', _, _, same⟩ := onKernelWrite_eq sent
  have stream : (x.setUserSpace.fired (.onWrite c.res)).conn.network = .tcp := by
    rw [same]
    exact tidy.stream
  have closed' : (x.setUserSpace.fired (.onWrite c.res)).conn.closed = true := by
    rw [same]
    exact closed
  rw [calls_of_closed stream closed'] at called
  cases called
  subst same
  refine flushing.of_less ?_ (Or.inl (append_nil _)) rfl rfl
    (fun waits => absurd queued waits) rfl rfl id rfl rfl
  change ∀ q ∈ rest.map Cqe.sqe ++ (v.todo ++ []), _
  rw [append_nil, Tidy.requests_of_first first]
  exact fun q member => mem_cons_of_mem _ member

/-- A handler in a goroutine makes a call. -/
theorem called (tidy : v.Tidy k) (running : v.tasks ≠ [])
    (called : (v.session mem sq shut).call cfg.source op = some x) : (v.worked x []).Flushing := by
  obtain ⟨none', state⟩ := tidy.waits (Or.inl running)
  have queued : v.queued = 0 := by
    have held := tidy.held
    have some' := length_pos_of_ne_nil running
    omega
  have method := call_method called
  have calm : (v.worked x []).history.closes = 0 :=
    method.frame.closes.trans (flushing.open_of_state (Or.inl state))
  have reading : (v.worked x []).conn.state = .read := method.still.state.trans state
  have todo : (v.worked x []).todo = [] := by
    rw [worked, append_nil]
    exact (requests_eq_nil_iff.mp none').2
  refine ⟨?_, ?_, fun waits => absurd queued waits, ?_, ?_⟩
  · exact Session.Heeds.call (x := v.session mem sq shut) flushing.heeds tidy.stream called
  · intro close
    cases reading.symm.trans close
  · intro closed
    omega
  · rintro _ _ (closed | ⟨⟨q, member, _⟩, _⟩)
    · omega
    · rw [todo] at member
      cases member

/-- The kernel takes a send; when a close is behind it, it takes all of it. -/
theorem took (tidy : v.Tidy k) (sending : v.Sending o) {rest : List Sqe}
    {res : Int} {nonempty : Bool} {data : List UInt8} {rb : RingBuffer} {m : VirtualMem}
    (first : v.todo = q :: rest) (flag : q.flag = .write) (fine : 0 ≤ res) (fits : res ≤ q.len)
    (whole : q.link = true → res = q.len) (present : v.conn.outboundBuffer = some rb)
    (memory : rb.vm = some m) (bytes : m.slice? q.addr.offset (q.addr.offset + res) = some data) :
    ({ v with history := { v.history with taken := v.history.taken ++ data }, todo := rest
              done := v.done ++ [⟨q, res, nonempty, data⟩] } : View).Flushing := by
  have here : q ∈ v.todo := by
    rw [first]
    exact mem_cons_self
  have asked : q ∈ v.requests := mem_append_right _ here
  obtain ⟨done, _⟩ := tidy.sending first flag
  obtain ⟨_, queued⟩ := tidy.unheld (Or.inl (ne_nil_of_mem asked))
  obtain ⟨_, content⟩ := sending.taken_bytes first flag fine fits present memory bytes
  -- With a close behind it the send is linked, and takes the content of the buffer.
  have all : v.conn.state = .close → v.history.taken ++ data = v.history.written := by
    intro state
    obtain ⟨link, _⟩ := flushing.linked state q asked flag
    have len := (sending.drains q here flag).len
    rw [← whole link] at len
    rw [content, take_of_length_le (by rw [o.content_length]; omega), sending.taken_eq done]
    exact sending.outgoing.sent
  refine ⟨flushing.heeds, ?_, fun waits => absurd queued waits, flushing.state, ?_⟩
  · intro state q' member
    refine flushing.linked state q' ?_
    rw [requests, done] at member ⊢
    rw [first]
    simpa using member
  · rintro _ _ (closed | ⟨⟨q', member, close⟩, _⟩)
    · exact all (flushing.state closed)
    · refine all (tidy.closing (q := q') ?_ close)
      rw [first]
      exact mem_cons_of_mem _ member

/-- Every move keeps the account. -/
theorem move (tcp : cfg.sendRecvMsg = false)
    (whole : ∀ q res, rules.send q res → q.link = true → res = q.len)
    (swept : ∀ v, rules.sweep v → v.conn.closed = true →
      ∃ n, v.conn.outboundBuffered = some n ∧ n ≤ 0) (tidy : v.Tidy k) (sending : v.Sending o)
    (sending' : v'.Sending o') (move : Move cfg rules True v v') : v'.Flushing := by
  cases move with
  | dropped first error =>
    refine flushing.of_less ?_ (Or.inl rfl) rfl rfl flushing.decided rfl rfl id rfl rfl
    rw [Tidy.requests_of_first first]
    exact fun q member => mem_cons_of_mem _ member
  | @armed c rest mem sq shut ops x x' new first fine prelude armed calls sized spent =>
    obtain ⟨⟨todo, done, _, queued⟩, _⟩ := tidy.alone first prelude.state.1
    have heeds := Session.Heeds.prelude (x := v.session mem sq shut) flushing.heeds tidy.stream
      prelude
    have calm := (prelude.acts.frame tcp).closes.trans
      (flushing.open_of_state prelude.state.1)
    refine of_armed armed heeds calm spent sending' rfl rfl ?_ done queued
    exact todo_append todo new
  | @spawned c rest mem sq shut x first some' state received =>
    obtain ⟨⟨_, _, _, queued⟩, _⟩ := tidy.alone first (Or.inl state)
    obtain ⟨_, _, _, _, rfl⟩ := onKernelRead_eq received
    refine flushing.of_less ?_ (Or.inl (append_nil _)) rfl rfl
      (fun waits => absurd queued waits) rfl rfl id rfl rfl
    change ∀ q ∈ rest.map Cqe.sqe ++ (v.todo ++ []), _
    rw [append_nil, Tidy.requests_of_first first]
    exact fun q member => mem_cons_of_mem _ member
  | flushed first fine state flag sent called calls sized =>
    exact flushing.handled tidy first state flag sent called
  | @asyncArmed mem sq shut x new waiting armed sized =>
    have some' : v.queued ≠ 0 := by
      rw [waiting]
      decide
    obtain ⟨done, todo, state⟩ := tidy.waiting (Or.inr some')
    have calm := flushing.open_of_state (Or.inl state)
    have spent : new = [(v.session mem sq shut).closing] → v.conn.Spent := by
      rintro rfl
      cases armed with
      | close reason =>
        rcases reason with spent | decided
        · exact spent
        · exact flushing.decided some' decided
    refine of_armed (x := v.session mem sq shut) armed flushing.heeds calm spent sending' rfl rfl
      ?_ done rfl
    exact todo_append todo new
  | begun waiting =>
    refine flushing.of_less ?_ (Or.inl (append_nil _)) rfl rfl flushing.decided rfl rfl id
      rfl rfl
    change ∀ q ∈ v.done.map Cqe.sqe ++ (v.todo ++ []), _
    rw [append_nil]
    exact fun q => id
  | called running called call sized =>
    refine flushing.called tidy ?_ called
    rw [running]
    exact cons_ne_nil _ _
  | returned running next =>
    refine flushing.of_less (fun q => id) (Or.inl rfl) rfl rfl ?_ rfl rfl id rfl rfl
    intro _ decided
    exact Connection.spent_of_closeOp (decided ▸ next)
  | @swept mem sq shut idle found =>
    have all : (v.worked ((v.session mem sq shut).addCloseConnRequest true).2
        [(v.session mem sq shut).closing]).requests = [(v.session mem sq shut).closing] :=
      idle.requests_worked _ _
    refine ⟨flushing.heeds, ?_, fun waits => absurd idle.queued waits, fun _ => rfl, ?_⟩
    · intro _ q member flag
      rw [all] at member
      rw [mem_singleton.mp member] at flag
      cases flag
    · intro called _ _
      exact sending.taken_eq_written idle.done (swept v found (flushing.heeds called))
  | received first flag fits apart =>
    obtain ⟨_, rfl⟩ := tidy.receiving first flag
    obtain ⟨_, queued⟩ := tidy.unheld (Or.inl (by simp [requests, first]))
    refine flushing.of_less ?_ (Or.inr rfl) rfl rfl (fun waits => absurd queued waits) rfl rfl id
      rfl rfl
    simp [requests, first]
  | sent first flag fine fits allowed present memory bytes =>
    exact flushing.took tidy sending first flag fine fits (whole _ _ allowed) present memory bytes
  | @closed q rest res nonempty data first flag fine =>
    have here : q ∈ v.todo := by
      rw [first]
      exact mem_cons_self
    obtain rfl := tidy.nothing_behind first flag
    have alone : ∀ q' ∈ v.todo, q'.flag ≠ .write := by
      rw [first]
      intro q' member
      rw [mem_singleton.mp member, flag]
      decide
    refine ⟨flushing.heeds, ?_, flushing.decided, fun _ => tidy.closing here flag, ?_⟩
    · intro state q' member
      refine flushing.linked state q' ?_
      simpa [requests, first] using member
    · intro called fine _
      exact flushing.flushed called fine (Or.inr ⟨⟨q, here, flag⟩, alone⟩)
  | failed first error =>
    refine flushing.of_less ?_ (Or.inr rfl) rfl rfl flushing.decided ?_ ?_ ?_ ?_ ?_
    · simp [requests, first, comp_def, Sqe.cancelled]
    · split_ifs <;> rfl
    · split_ifs <;> rfl
    · split_ifs with write
      · rintro ⟨⟩
      · exact id
    · split_ifs <;> rfl
    · split_ifs <;> rfl
  | cancelled =>
    refine flushing.of_less ?_ (Or.inr rfl) rfl rfl flushing.decided rfl rfl id rfl rfl
    simp [requests, comp_def, Sqe.cancelled]

omit flushing

/-- A new connection is open. -/
theorem born (tcp : cfg.sendRecvMsg = false) (sending : v.Sending o)
    (born : Born cfg rules True k v) : v.Flushing := by
  have fresh : ∀ {v : View}, v.Entrance k True → v.history.closeCalled = false ∧
      v.history.closes = 0 := by
    intro v entrance
    rw [entrance.history]
    exact ⟨rfl, rfl⟩
  cases born with
  | entered entrance allowed =>
    obtain ⟨uncalled, calm⟩ := fresh entrance
    refine ⟨?_, ?_, fun waits => absurd entrance.idle.queued waits, ?_, ?_⟩
    · intro called
      cases uncalled.symm.trans called
    · intro close
      cases entrance.state.symm.trans close
    · intro closed
      omega
    · intro called
      cases uncalled.symm.trans called
  | @welcomed v mem sq shut ops x x' new entrance called armed calls sized spent =>
    obtain ⟨uncalled, calm⟩ := fresh entrance
    have silent : ((v.session mem sq shut).setUserSpace.fired .onAccept).Heeds := by
      intro called
      cases uncalled.symm.trans called
    have acts : Session.Acts cfg (v.session mem sq shut) x := fired_acts called
    refine of_armed armed (silent.calls entrance.stream called)
      ((acts.frame tcp).closes.trans calm) spent sending rfl rfl ?_ entrance.idle.done
      entrance.idle.queued
    exact todo_append entrance.idle.todo new

/-- What ends has been flushed. -/
theorem ends (tcp : cfg.sendRecvMsg = false) (flushing : v.Flushing) {h : History}
    (ends : Ends cfg rules v h) : h.Flushed := by
  cases ends with
  | eof first state nothing allowed =>
    intro closed
    have calm := flushing.open_of_state (Or.inl state)
    exact absurd calm (Nat.ne_of_gt closed)
  | failed first fine prelude allowed more =>
    intro closed
    have calm := (prelude.acts.frame tcp).closes.trans (flushing.open_of_state prelude.state.1)
    exact absurd calm (Nat.ne_of_gt closed)
  | closed first state flag fine =>
    intro closed called fine
    exact flushing.flushed called fine (Or.inl closed)

end Flushing

end View

/-- The kernel takes the whole of a send that a close is linked to, and a shutdown does not find
a connection that was closed with bytes left to send. -/
def Rules.whole : Rules where
  call op := op.faithful = true
  send q res := q.link = true → res = q.len
  sweep v := v.conn.closed = true → v.conn.outboundBuffered = some 0

instance : Rules.whole.Checked where
  call op := inferInstanceAs (Decidable (op.faithful = true))
  send q res := inferInstanceAs (Decidable (q.link = true → res = q.len))
  sweep v := inferInstanceAs (Decidable (v.conn.closed = true → v.conn.outboundBuffered = some 0))
  eof := isTrue trivial
  full := isTrue trivial
  failing := isTrue trivial
  more := isTrue trivial

/-- This lasts over every life. -/
theorem View.Flushing.lasting {cfg : Config} (tcp : cfg.sendRecvMsg = false) :
    Lasting cfg .whole True (fun _ v => v.Flushing ∧ ∃ o, v.Sending o) History.Flushed where
  born := by
    intro k v born
    obtain ⟨o, sending⟩ := View.Sending.born tcp (fun _ => id) born
    exact ⟨.born tcp sending born, o, sending⟩
  move := by
    rintro k v v' tidy ⟨flushing, o, sending⟩ move
    obtain ⟨o', sending'⟩ := sending.move tcp (fun _ => id) tidy move
    have swept : ∀ v, Rules.whole.sweep v → v.conn.closed = true →
        ∃ n, v.conn.outboundBuffered = some n ∧ n ≤ 0 :=
      fun v found closed => ⟨0, found closed, le_rfl⟩
    exact ⟨flushing.move tcp (fun q res => id) swept tidy sending sending' move, o', sending'⟩
  ends tidy current ends := current.1.ends tcp ends
  unheard unheard closed := absurd unheard.closes (Nat.ne_of_gt closed)

namespace Worker

variable {w w' : Worker} {cfg : Config} {streams : Streams}

/-- In an orderly run in which the kernel takes the whole of the sends that closes are linked to,
everything written before `Close` has been taken when the descriptor is closed. -/
theorem run_flushed_of_orderly (tcp : cfg.sendRecvMsg = false)
    (started : start cfg streams = some w) {ls : List Label} (ran : run step ls w = some w')
    (along : Along step (Orderly .whole) ls w) (exact' : Throughout step Worker.Exact ls w) :
    ∀ life < w'.nextLife, (w'.histories life).Flushed := by
  have lives := run_lives_exact (View.Flushing.lasting tcp) tcp started ran along exact'
  intro life lt
  rcases lives.cases lt with ⟨k, o, _, _, rfl, flushing, _⟩ | silent | past
  · exact fun closed called fine => flushing.flushed called fine (Or.inl closed)
  · exact fun closed => absurd silent.closes (Nat.ne_of_gt closed)
  · exact past

/-- A connection receives a byte; its handler writes three bytes and closes. The kernel takes
some of them, and closes the descriptor. -/
def answered (taken : List UInt8) : List Label :=
  admission ++ ([.endBatch, .asyncWrite {}, .turn [] 1 .done, .peek, .endBatch, .asyncWrite {},
    .complete 0 1 false [9] none, .turn [] 0 .done, .peek,
    .event { handler := [.write [1, 2, 3], .close] }, .endBatch, .asyncWrite {},
    .turn [] 1 .done, .peek, .endBatch, .asyncWrite {}, .complete 1 taken.length false taken none,
    .complete 1 0 false [] none] : List Label)

theorem run_flushed_of_orderly_answered : ∃ w w', start (plain .consumer) keepNothing = some w ∧
    run step (answered [1, 2, 3]) w = some w' ∧ (w'.histories 0).closes = 1 ∧
      (w'.histories 0).taken = (w'.histories 0).written := by
  obtain ⟨w, w', started, ran, along, exact', alive, once, called, fine⟩ : ∃ w w',
      start (plain .consumer) keepNothing = some w ∧
      run step (answered [1, 2, 3]) w = some w' ∧
      Along step (Orderly .whole) (answered [1, 2, 3]) w ∧
      Throughout step Exact (answered [1, 2, 3]) w ∧ 0 < w'.nextLife ∧ (w'.histories 0).closes = 1 ∧
      (w'.histories 0).closeCalled = true ∧ (w'.histories 0).sendFailed = false :=
    exists_run (by decide +kernel)
  refine ⟨w, w', started, ran, once, ?_⟩
  exact run_flushed_of_orderly rfl started ran along exact' 0 alive (by rw [once]; decide) called
    fine

/-- The kernel takes two of the three bytes, and the descriptor is closed behind them. -/
theorem run_not_flushed : ∃ w w', start (plain .consumer) keepNothing = some w ∧
    run step (answered [1, 2]) w = some w' ∧ Along step (Orderly {}) (answered [1, 2]) w ∧
      Throughout step Exact (answered [1, 2]) w ∧ 0 < w'.nextLife ∧
      (w'.histories 0).taken = [1, 2] ∧ (w'.histories 0).written = [1, 2, 3] ∧
      ¬ (w'.histories 0).Flushed := by
  obtain ⟨w, w', started, ran, along, exact', alive, once, called, fine, taken, written⟩ : ∃ w w',
      start (plain .consumer) keepNothing = some w ∧
      run step (answered [1, 2]) w = some w' ∧ Along step (Orderly {}) (answered [1, 2]) w ∧
      Throughout step Exact (answered [1, 2]) w ∧ 0 < w'.nextLife ∧ (w'.histories 0).closes = 1 ∧
      (w'.histories 0).closeCalled = true ∧ (w'.histories 0).sendFailed = false ∧
      (w'.histories 0).taken = [1, 2] ∧ (w'.histories 0).written = [1, 2, 3] :=
    exists_run (by decide +kernel)
  refine ⟨w, w', started, ran, along, exact', alive, taken, written, fun flushed => ?_⟩
  have all := flushed (by rw [once]; decide) called fine
  rw [taken, written] at all
  exact absurd all (by decide)

end Worker

end Gain
