import Gain.Worker.Bytes
import Gain.Worker.Tidy

/-! # What a connection sends

What the kernel has taken, followed by the content of the outbound buffer, is what
the handler has written. A send takes its bytes from the front of the buffer, and
until its completion is handled the buffer is not changed by anything else.
-/

namespace Gain

open List Option Session

/-- The outbound buffer of a connection, with the bytes that have gone through it. -/
structure Outgoing (c : Connection) (h : History) (o : Layout) : Prop where
  present : c.outboundBuffer = some o.toRing
  sent : h.accepted ++ o.content = h.written

/-- A send is for all that is buffered. -/
structure Sqe.Drains (q : Sqe) (l : Layout) : Prop where
  addr : q.addr = ⟨l.mem.addr, l.r⟩
  len : q.len = l.count

/-- The bytes of a send are the first of the buffer. -/
structure Cqe.Sent (c : Cqe) (l : Layout) : Prop where
  fits : c.res ≤ l.count
  bytes : c.data = l.content.take c.res.toNat

variable {cfg : Config} {x x' : Session} {c : Cqe} {cqes : List Cqe} {res : Int} {nonempty : Bool}
  {data : List UInt8}

/-- What was asked of the memory pool before is part of what was asked. -/
theorem Session.Armed.exact_before {new : List Sqe} (armed : Session.Armed cfg x new x')
    (exact' : ∀ q ∈ x'.mem.requests, q.Exact cfg.pageSize) :
    ∀ q ∈ x.mem.requests, q.Exact cfg.pageSize := by
  cases armed with
  | @read rb rb' mem addr present grown address =>
    have supplies : RingBuffer.Supplies cfg.pageSize rb x.mem rb' mem :=
      .of_resized (RingBuffer.growWhen_resized grown)
    obtain ⟨made, appended⟩ := supplies.requests
    intro q member
    refine exact' q ?_
    change q ∈ mem.requests
    rw [appended]
    exact mem_append_left _ member
  | _ => exact exact'

/-- Only a send completion adds accepted bytes. -/
theorem Session.Prelude.accepted {ops : List ConnOp} (prelude : Session.Prelude cfg ops c x x') :
    x'.history.accepted = x.history.accepted ++ if x.conn.state = .write then c.data else [] := by
  cases prelude with
  | reread state some' received more open' =>
    obtain ⟨rb, rb', _, _, rfl⟩ := onKernelRead_eq received
    rw [if_neg (by rw [state]; decide), append_nil]
  | worked state some' received called =>
    rw [(calls_still called).accepted, if_neg (by rw [state]; decide), append_nil]
    obtain ⟨rb, rb', _, _, rfl⟩ := onKernelRead_eq received
    rfl
  | wrote state written called =>
    rw [(calls_still called).accepted, if_pos state]
    obtain ⟨rb, rb', _, _, rfl⟩ := onKernelWrite_eq written
    rfl

namespace Outgoing

variable {cfg : Config} {x x' : Session} {c : Cqe} {o : Layout} {ops : List ConnOp}
  {new : List Sqe}

variable (outgoing : Outgoing x.conn x.history o)
include outgoing

theorem calls
    (faithful : ∀ op ∈ ops, op.faithful = true) (done : Session.calls cfg.source ops x = some x')
    (exact' : ∀ q ∈ x'.mem.requests, q.Exact cfg.pageSize) :
    ∃ o', Outgoing x'.conn x'.history o' := by
  obtain ⟨o', bytes, present, content, written⟩ :=
    calls_written outgoing.present faithful done exact'
  refine ⟨o', present, ?_⟩
  rw [(calls_still done).accepted, content, ← append_assoc, outgoing.sent, written]

/-- A callback is fired and makes its calls. -/
theorem fired {callback : Callback} (faithful : ∀ op ∈ ops, op.faithful = true)
    (done : Session.calls cfg.source ops (x.setUserSpace.fired callback) = some x')
    (exact' : ∀ q ∈ x'.mem.requests, q.Exact cfg.pageSize) :
    ∃ o', Outgoing x'.conn x'.history o' := by
  have fired : Outgoing (x.setUserSpace.fired callback).conn
      (x.setUserSpace.fired callback).history o := ⟨outgoing.present, outgoing.sent⟩
  exact fired.calls faithful done exact'

theorem counted (counted : x.onKernelRead c = some x') : Outgoing x'.conn x'.history o := by
  obtain ⟨rb, rb', _, _, rfl⟩ := onKernelRead_eq counted
  exact ⟨outgoing.present, outgoing.sent⟩

theorem dropped (fine : 0 ≤ c.res) (sent : c.Sent o)
    (dropped : x.onKernelWrite c = some x') : ∃ o', Outgoing x'.conn x'.history o' := by
  obtain ⟨rb, rb', present, moves, rfl⟩ := onKernelWrite_eq dropped
  cases outgoing.present.symm.trans present
  have fits := sent.fits
  rw [← Int.toNat_of_nonneg fine] at moves
  obtain ⟨o', same, content, _⟩ := o.toRing_advanceRead (n := c.res.toNat) (by omega)
  cases moves.symm.trans same
  refine ⟨o', rfl, ?_⟩
  rw [sent.bytes, content, append_assoc, take_append_drop]
  exact outgoing.sent

/-- The kernel's part of an event and its callback. -/
theorem prelude (fine : 0 ≤ c.res) (sent : x.conn.state = .write → c.Sent o)
    (prelude : Session.Prelude cfg ops c x x') (faithful : ∀ op ∈ ops, op.faithful = true)
    (exact' : ∀ q ∈ x'.mem.requests, q.Exact cfg.pageSize) :
    ∃ o', Outgoing x'.conn x'.history o' := by
  cases prelude with
  | reread state some' received more open' => exact ⟨o, outgoing.counted received⟩
  | worked state some' received called =>
    exact (outgoing.counted received).fired faithful called exact'
  | wrote state written called =>
    obtain ⟨o', dropped⟩ := outgoing.dropped fine (sent state) written
    exact dropped.fired faithful called exact'

/-- The next send is of the content of the buffer. -/
theorem armed (armed : Session.Armed cfg x new x') :
    Outgoing x'.conn x'.history o ∧ ∀ q ∈ new, q.flag = .write → q.Drains o := by
  have send : ∀ {rb addr link}, x.conn.outboundBuffer = some rb → rb.readAddress = some addr →
      (x.entry .write addr rb.buffered link).Drains o := by
    intro rb addr link present address
    cases outgoing.present.symm.trans present
    cases o.toRing_readAddress.symm.trans address
    exact ⟨rfl, o.toRing_buffered⟩
  cases armed with
  | nothing => exact ⟨outgoing, forall_mem_nil _⟩
  | read _ _ _ | close _ =>
    refine ⟨⟨outgoing.present, outgoing.sent⟩, fun q member flag => ?_⟩
    rw [mem_singleton.mp member] at flag
    cases flag
  | write link present address =>
    refine ⟨⟨outgoing.present, outgoing.sent⟩, fun q member _ => ?_⟩
    rw [mem_singleton.mp member]
    exact send present address
  | writeClose closed present address =>
    refine ⟨⟨outgoing.present, outgoing.sent⟩, fun q member flag => ?_⟩
    rcases mem_cons.mp member with rfl | last
    · exact send present address
    · rw [mem_singleton.mp last] at flag
      cases flag

omit outgoing

/-- All that was written has been accepted when the connection has nothing to send. -/
theorem accepted_of_empty {conn : Connection} {h : History} (outgoing : Outgoing conn h o)
    (empty : ∃ n, conn.outboundBuffered = some n ∧ n ≤ 0) : h.accepted = h.written := by
  obtain ⟨n, buffered, low⟩ := empty
  rw [Connection.outboundBuffered, outgoing.present, map_some, o.toRing_buffered] at buffered
  cases buffered
  have none' : o.content = [] := eq_nil_of_length_eq_zero (by rw [o.content_length]; omega)
  rw [← outgoing.sent, none', append_nil]

end Outgoing

namespace View

variable {k : Int} {v v' : View} {cfg : Config} {x x' : Session} {new : List Sqe} {o : Layout}

/-- The bytes of sends that have completed and are not yet handled. -/
def unhandled (v : View) : List UInt8 :=
  (v.done.filter fun c => c.sqe.flag = .write ∧ 0 ≤ c.res).flatMap Cqe.data

theorem unhandled_nil (done : v.done = []) : v.unhandled = [] := by
  rw [unhandled, done]
  rfl

/-- A completion that is no send, or one that failed, has no bytes. -/
theorem unhandled_append (done : v'.done = v.done ++ cqes)
    (silent : ∀ c ∈ cqes, ¬ (c.sqe.flag = .write ∧ 0 ≤ c.res)) : v'.unhandled = v.unhandled := by
  have none' : (cqes.filter fun c => c.sqe.flag = .write ∧ 0 ≤ c.res) = [] :=
    filter_eq_nil_iff.mpr fun c member => by simpa using silent c member
  simp only [unhandled, done, filter_append, none', append_nil]

end View

theorem Sqe.failed_of_cancelled {l : List Sqe} (member : c ∈ l.map Sqe.cancelled) : c.res < 0 := by
  obtain ⟨q, _, rfl⟩ := mem_map.mp member
  exact show ecanceled < 0 by decide

/-- When a request fails, so does what is linked to it. -/
theorem Cqe.failed_of_mem {q : Sqe} {rest : List Sqe} (error : res < 0)
    (member : c ∈ (⟨q, res, nonempty, data⟩ : Cqe) :: rest.map Sqe.cancelled) : c.res < 0 := by
  rcases mem_cons.mp member with rfl | behind
  · exact error
  · exact Sqe.failed_of_cancelled behind

namespace View

variable {k : Int} {v v' : View} {cfg : Config} {x x' : Session} {new : List Sqe} {o : Layout}

/-- The outbound buffer and the send that is underway. -/
structure Sending (v : View) (o : Layout) : Prop where
  outgoing : Outgoing v.conn v.history o
  drains : ∀ q ∈ v.todo, q.flag = .write → q.Drains o
  sent : ∀ c ∈ v.done, c.sqe.flag = .write → 0 ≤ c.res → c.Sent o
  taken : v.history.taken = v.history.accepted ++ v.unhandled

namespace Sending

/-- A connection with nothing underway is armed. -/
theorem of_armed (outgoing : Outgoing x.conn x.history o) (armed : Session.Armed cfg x new x')
    (conn : v.conn = x'.conn) (history : v.history = x'.history) (todo : v.todo = new)
    (done : v.done = []) (taken : x.history.taken = x.history.accepted) : v.Sending o := by
  obtain ⟨outgoing', drains⟩ := outgoing.armed armed
  refine ⟨?_, ?_, ?_, ?_⟩
  · rw [conn, history]
    exact outgoing'
  · rw [todo]
    exact drains
  · rw [done]
    exact forall_mem_nil _
  · rw [unhandled_nil done, append_nil, history, armed.history]
    exact taken

/-- No send is underway. -/
theorem of_quiet (outgoing : Outgoing v.conn v.history o)
    (todo : ∀ q ∈ v.todo, q.flag ≠ .write) (done : ∀ c ∈ v.done, c.sqe.flag ≠ .write)
    (taken : v.history.taken = v.history.accepted) : v.Sending o := by
  have silent : v.unhandled = [] := by
    have none' : (v.done.filter fun c => c.sqe.flag = .write ∧ 0 ≤ c.res) = [] :=
      filter_eq_nil_iff.mpr fun c member => by simp [done c member]
    rw [unhandled, none']
    rfl
  refine ⟨outgoing, ?_, ?_, ?_⟩
  · exact fun q member flag => absurd flag (todo q member)
  · exact fun c member flag => absurd flag (done c member)
  · rw [silent, append_nil]
    exact taken

variable (sending : v.Sending o)
include sending

/-- What is taken is accepted when no completion is left to handle. -/
theorem taken_eq (done : v.done = []) : v.history.taken = v.history.accepted := by
  rw [sending.taken, unhandled_nil done, append_nil]

variable {rules : Rules} {mem : VirtualMem.Ledger} {sq : Chains} {shut : List Int} {c : Cqe}
  {rest : List Cqe} {ops : List ConnOp} {q : Sqe} {rb : RingBuffer} {m : VirtualMem}

/-- A completion with an error is not looked at. -/
theorem dropped (first : v.done = c :: rest) (error : c.res < 0) :
    ({ v with done := rest } : View).Sending o := by
  have same : ({ v with done := rest } : View).unhandled = v.unhandled := by
    simp only [unhandled, first]
    rw [filter_cons_of_neg]
    simpa using fun _ => error
  refine { sending with sent := ?_, taken := ?_ }
  · intro c' member
    exact sending.sent c' (by rw [first]; exact mem_cons_of_mem _ member)
  · rw [same]
    exact sending.taken

/-- The only request of a connection that reads or writes is handled. -/
theorem handled (tidy : v.Tidy k) (tcp : cfg.sendRecvMsg = false) (first : v.done = c :: rest)
    (fine : 0 ≤ c.res) (prelude : Session.Prelude cfg ops c (v.session mem sq shut) x)
    (faithful : ∀ op ∈ ops, op.faithful = true)
    (exact' : ∀ q ∈ x.mem.requests, q.Exact cfg.pageSize) :
    (∃ o', Outgoing x.conn x.history o') ∧ x.history.taken = x.history.accepted := by
  obtain ⟨⟨_, done, _, _⟩, read, write⟩ := tidy.alone first prelude.state.1
  change rest = [] at done
  subst done
  have sent : v.conn.state = .write → c.Sent o := fun state =>
    sending.sent c (by rw [first]; exact mem_cons_self) (write state) fine
  refine ⟨Outgoing.prelude (x := v.session mem sq shut) sending.outgoing fine sent prelude faithful
    exact', ?_⟩
  have bytes : v.unhandled = if v.conn.state = .write then c.data else [] := by
    rw [unhandled, first]
    rcases prelude.state.1 with state | state
    · have state : v.conn.state = .read := state
      rw [if_neg (by rw [state]; decide), filter_cons_of_neg (by simp [read state])]
      rfl
    · have state : v.conn.state = .write := state
      rw [if_pos state, filter_cons_of_pos (by simp [write state, fine])]
      simp
  rw [(prelude.acts.frame tcp).taken, prelude.accepted]
  change v.history.taken = v.history.accepted ++ if v.conn.state = .write then c.data else []
  rw [sending.taken, bytes]

/-- A receive is counted for a handler in a goroutine. -/
theorem spawned (tidy : v.Tidy k) (first : v.done = c :: rest) (state : v.conn.state = .read)
    (received : (v.session mem sq shut).onKernelRead c = some x) (tasks : List Task) :
    ({ v.worked x [] with done := rest, tasks := tasks } : View).Sending o := by
  obtain ⟨⟨todo, done, _, _⟩, read, _⟩ := tidy.alone first (Or.inl state)
  change rest = [] at done
  change v.todo = [] at todo
  subst done
  have outgoing := Outgoing.counted (x := v.session mem sq shut) sending.outgoing received
  have silent : v.unhandled = [] := by
    rw [unhandled, first, filter_cons_of_neg (by simp [read state])]
    rfl
  have taken := sending.taken
  rw [silent, append_nil] at taken
  refine of_quiet outgoing ?_ (forall_mem_nil _) ?_
  · change ∀ q ∈ v.todo ++ [], q.flag ≠ .write
    rw [todo]
    exact forall_mem_nil _
  · obtain ⟨rb, rb', _, _, rfl⟩ := onKernelRead_eq received
    exact taken

/-- The send before a close is handled. -/
theorem flushed (tidy : v.Tidy k) (tcp : cfg.sendRecvMsg = false)
    (first : v.done = c :: rest) (fine : 0 ≤ c.res) (state : v.conn.state = .close)
    (flag : c.sqe.flag = .write) (sent : (v.session mem sq shut).onKernelWrite c = some x)
    (called : Session.calls cfg.source ops (x.setUserSpace.fired (.onWrite c.res)) = some x')
    (faithful : ∀ op ∈ ops, op.faithful = true)
    (exact' : ∀ q ∈ x'.mem.requests, q.Exact cfg.pageSize) :
    ∃ o', ({ v.worked x' [] with done := rest } : View).Sending o' := by
  obtain ⟨_, quiet⟩ := tidy.behind first flag state
  have other : ∀ q ∈ rest.map Cqe.sqe ++ v.todo, q.flag ≠ .write := by
    intro q member
    rw [quiet q member]
    decide
  obtain ⟨o₁, outgoing⟩ := Outgoing.dropped (x := v.session mem sq shut) sending.outgoing fine
    (sending.sent c (by rw [first]; exact mem_cons_self) flag fine) sent
  obtain ⟨o', outgoing'⟩ := outgoing.fired faithful called exact'
  have bytes : v.unhandled = c.data := by
    have rest' : (rest.filter fun c' => c'.sqe.flag = .write ∧ 0 ≤ c'.res) = [] :=
      filter_eq_nil_iff.mpr fun c' member => by
        simp [quiet c'.sqe (mem_append_left _ (mem_map_of_mem member))]
    rw [unhandled, first, filter_cons_of_pos (by simp [flag, fine]), rest']
    simp
  have acts : Session.Acts cfg (v.session mem sq shut) x' := written_acts sent called
  have taken : x'.history.taken = v.history.taken := (acts.frame tcp).taken
  refine ⟨o', of_quiet outgoing' ?_ ?_ ?_⟩
  · change ∀ q ∈ v.todo ++ [], q.flag ≠ .write
    rw [append_nil]
    exact fun q member => other q (mem_append_right _ member)
  · exact fun c' member => other c'.sqe (mem_append_left _ (mem_map_of_mem member))
  · change x'.history.taken = x'.history.accepted
    rw [taken, sending.taken, bytes, (calls_still called).accepted]
    obtain ⟨rb, rb', _, _, rfl⟩ := onKernelWrite_eq sent
    rfl

/-- Nothing is underway on a connection whose handler runs or waits. -/
theorem of_waiting (none' : v.requests = [])
    {v' : View} (outgoing : ∃ o', Outgoing v'.conn v'.history o') (todo : v'.todo = v.todo)
    (done : v'.done = v.done) (taken : v'.history.taken = v.history.taken)
    (accepted : v'.history.accepted = v.history.accepted) : ∃ o', v'.Sending o' := by
  obtain ⟨completed, asked⟩ := requests_eq_nil_iff.mp none'
  obtain ⟨o', outgoing⟩ := outgoing
  refine ⟨o', of_quiet outgoing ?_ ?_ ?_⟩
  · rw [todo, asked]
    exact forall_mem_nil _
  · rw [done, completed]
    exact forall_mem_nil _
  · rw [taken, accepted]
    exact sending.taken_eq completed

/-- The kernel stores received bytes in other memory. -/
theorem stored {rest : List Sqe} (first : v.todo = q :: rest)
    (flag : q.flag = .read)
    (apart : v.conn.outboundBuffer.bind (fun rb => rb.vm.map VirtualMem.addr) ≠
      some q.addr.region) :
    ({ v with conn := v.conn.deposit q.addr data, todo := rest
              done := v.done ++ [⟨q, data.length, nonempty, data⟩] } : View).Sending o := by
  have kept : o.toRing.deposit q.addr data = o.toRing := by
    have other : o.mem.addr ≠ q.addr.region := by
      intro same
      rw [sending.outgoing.present] at apart
      exact apart (congrArg some same)
    have kept : o.mem.deposit q.addr data = o.mem := if_neg other
    simp only [RingBuffer.deposit, Layout.toRing_vm, map_some, kept]
    rfl
  have silent : ∀ c ∈ [(⟨q, data.length, nonempty, data⟩ : Cqe)],
      ¬ (c.sqe.flag = .write ∧ 0 ≤ c.res) := by simp [flag]
  refine ⟨⟨?_, sending.outgoing.sent⟩, ?_, ?_, ?_⟩
  · change v.conn.outboundBuffer.map _ = _
    rw [sending.outgoing.present, map_some, kept]
  · exact fun q' member => sending.drains q' (by rw [first]; exact mem_cons_of_mem _ member)
  · intro c member write fine
    rcases mem_append.mp member with old | added
    · exact sending.sent c old write fine
    · exact absurd ⟨write, fine⟩ (silent c added)
  · rw [unhandled_append (v := v) rfl silent]
    exact sending.taken

/-- The kernel takes the first bytes of the content. -/
theorem taken_bytes {rest : List Sqe} (first : v.todo = q :: rest) (flag : q.flag = .write)
    (fine : 0 ≤ res) (fits : res ≤ q.len) (present : v.conn.outboundBuffer = some rb)
    (memory : rb.vm = some m) (bytes : m.slice? q.addr.offset (q.addr.offset + res) = some data) :
    res ≤ o.count ∧ data = o.content.take res.toNat := by
  have drains := sending.drains q (by rw [first]; exact mem_cons_self) flag
  cases sending.outgoing.present.symm.trans present
  cases memory
  rw [drains.len] at fits
  have whole := o.toRing_slice_content (n := res.toNat) (by omega)
  rw [Int.toNat_of_nonneg fine] at whole
  rw [drains.addr] at bytes
  exact ⟨fits, Option.some.inj (bytes.symm.trans whole)⟩

theorem took (tidy : v.Tidy k) {rest : List Sqe}
    (first : v.todo = q :: rest) (flag : q.flag = .write) (fine : 0 ≤ res) (fits : res ≤ q.len)
    (present : v.conn.outboundBuffer = some rb) (memory : rb.vm = some m)
    (bytes : m.slice? q.addr.offset (q.addr.offset + res) = some data) :
    ({ v with history := { v.history with taken := v.history.taken ++ data }, todo := rest
              done := v.done ++ [⟨q, res, nonempty, data⟩] } : View).Sending o := by
  obtain ⟨done, close⟩ := tidy.sending first flag
  obtain ⟨fits', content⟩ := sending.taken_bytes first flag fine fits present memory bytes
  refine ⟨⟨sending.outgoing.present, sending.outgoing.sent⟩, ?_, ?_, ?_⟩
  · intro q' member write
    cases write.symm.trans (close q' member)
  · rw [done]
    intro c member _ _
    rw [mem_singleton.mp member]
    exact ⟨fits', content⟩
  · have own : unhandled { v with
        history := { v.history with taken := v.history.taken ++ data }, todo := rest
        done := v.done ++ [⟨q, res, nonempty, data⟩] } = data := by
      rw [unhandled, done, nil_append, filter_cons_of_pos (by simp [flag, fine])]
      simp
    rw [own, sending.taken_eq done]

/-- A close completes, or requests fail. -/
theorem completed {history : History} {todo : List Sqe}
    (sub : ∀ q ∈ todo, q ∈ v.todo) (silent : ∀ c ∈ cqes, c.res < 0 ∨ c.sqe.flag = .close)
    (written : history.written = v.history.written) (taken : history.taken = v.history.taken)
    (accepted : history.accepted = v.history.accepted) :
    ({ v with history := history, todo := todo, done := v.done ++ cqes } : View).Sending o := by
  have quiet : ∀ c ∈ cqes, ¬ (c.sqe.flag = .write ∧ 0 ≤ c.res) := by
    rintro c member ⟨flag, fine⟩
    rcases silent c member with error | close
    · omega
    · cases flag.symm.trans close
  refine ⟨⟨sending.outgoing.present, ?_⟩, ?_, ?_, ?_⟩
  · rw [accepted, written]
    exact sending.outgoing.sent
  · exact fun q member => sending.drains q (sub q member)
  · intro c member flag fine
    rcases mem_append.mp member with old | added
    · exact sending.sent c old flag fine
    · exact absurd ⟨flag, fine⟩ (quiet c added)
  · rw [unhandled_append (v := v) rfl quiet]
    change history.taken = history.accepted ++ v.unhandled
    rw [taken, accepted]
    exact sending.taken

/-- Every move keeps the outbound stream. -/
theorem move (tcp : cfg.sendRecvMsg = false) (calls : ∀ op, rules.call op → op.faithful = true)
    (tidy : v.Tidy k) (move : Move cfg rules True v v') : ∃ o', v'.Sending o' := by
  have faithful : ∀ {ops : List ConnOp}, (∀ op ∈ ops, rules.call op) →
      ∀ op ∈ ops, op.faithful = true := fun allowed op member => calls op (allowed op member)
  have same : Outgoing v.conn v.history o := sending.outgoing
  cases move with
  | dropped first error => exact ⟨o, sending.dropped first error⟩
  | @armed c rest mem sq shut ops x x' new first fine prelude armed allowed sized spent =>
    obtain ⟨⟨todo, done, _, _⟩, _⟩ := tidy.alone first prelude.state.1
    obtain ⟨⟨o', outgoing⟩, taken⟩ := sending.handled tidy tcp first fine prelude
      (faithful allowed) (armed.exact_before (sized trivial))
    refine ⟨o', of_armed outgoing armed rfl rfl ?_ done taken⟩
    exact todo_append todo new
  | spawned first some' state received => exact ⟨o, sending.spawned tidy first state received _⟩
  | flushed first fine state flag sent called allowed sized =>
    exact sending.flushed tidy tcp first fine state flag sent called (faithful allowed)
      (sized trivial)
  | @asyncArmed mem sq shut x new waiting armed sized =>
    obtain ⟨done, todo, _⟩ := tidy.waiting (Or.inr (by rw [waiting]; decide))
    refine ⟨o, of_armed (x := v.session mem sq shut) same armed rfl rfl ?_ done
      (sending.taken_eq done)⟩
    exact todo_append todo new
  | begun waiting =>
    have none' := (tidy.waits (Or.inl (by rw [waiting]; exact cons_ne_nil _ _))).1
    exact sending.of_waiting none' ⟨o, same.present, same.sent⟩ (append_nil _) rfl rfl rfl
  | @called n mem sq shut op x running called allowed sized =>
    have none' := (tidy.waits (Or.inl (by rw [running]; exact cons_ne_nil _ _))).1
    have once : Session.calls cfg.source [op] (v.session mem sq shut) = some x := by
      simp only [Session.calls, called, bind_some]
    have acts : Session.Acts cfg (v.session mem sq shut) x := .single (.call called)
    have outgoing := Outgoing.calls (x := v.session mem sq shut) same
      (faithful (by simpa using allowed)) once (sized trivial)
    exact sending.of_waiting none' outgoing (append_nil _) rfl (acts.frame tcp).taken
      (call_method called).still.accepted
  | returned running next =>
    have none' := (tidy.waits (Or.inl (by rw [running]; exact cons_ne_nil _ _))).1
    exact sending.of_waiting none' ⟨o, same.present, same.sent⟩ rfl rfl rfl rfl
  | @swept mem sq shut idle found =>
    refine ⟨o, of_quiet ⟨same.present, same.sent⟩ ?_ ?_ (sending.taken_eq idle.done)⟩
    · change ∀ q ∈ v.todo ++ [_], q.flag ≠ .write
      rw [idle.todo]
      simp [Session.closing, Session.entry]
    · change ∀ c ∈ v.done, c.sqe.flag ≠ .write
      rw [idle.done]
      exact forall_mem_nil _
  | received first flag fits apart => exact ⟨o, sending.stored first flag apart⟩
  | sent first flag fine fits allowed present memory bytes =>
    exact ⟨o, sending.took tidy first flag fine fits present memory bytes⟩
  | closed first flag fine =>
    refine ⟨o, sending.completed ?_ ?_ rfl rfl rfl⟩
    · rw [first]
      exact fun q member => mem_cons_of_mem _ member
    · intro c member
      rw [mem_singleton.mp member]
      exact Or.inr flag
  | failed first error =>
    refine ⟨o, sending.completed (forall_mem_nil _)
      (fun c member => Or.inl (Cqe.failed_of_mem error member)) ?_ ?_ ?_⟩ <;> split_ifs <;> rfl
  | cancelled =>
    exact ⟨o, sending.completed (forall_mem_nil _)
      (fun c member => Or.inl (Sqe.failed_of_cancelled member)) rfl rfl rfl⟩

omit sending

/-- A new connection has nothing to send. -/
theorem born (tcp : cfg.sendRecvMsg = false) (calls : ∀ op, rules.call op → op.faithful = true)
    (born : Born cfg rules True k v) : ∃ o, v.Sending o := by
  have fresh : ∀ {v : View}, v.Entrance k True → ∃ o, Outgoing v.conn v.history o := by
    intro v entrance
    obtain ⟨_, rb, present, blank⟩ := entrance.blank trivial
    obtain ⟨o, rfl, empty⟩ := blank.layout
    refine ⟨o, present, ?_⟩
    rw [entrance.history, o.content_eq_nil_iff.mpr empty]
    rfl
  cases born with
  | entered entrance allowed =>
    obtain ⟨o, outgoing⟩ := fresh entrance
    refine ⟨o, of_quiet outgoing ?_ ?_ ?_⟩
    · rw [entrance.idle.todo]
      exact forall_mem_nil _
    · rw [entrance.idle.done]
      exact forall_mem_nil _
    · rw [entrance.history]
  | @welcomed v mem sq shut ops x x' new entrance called armed allowed sized spent =>
    obtain ⟨o, outgoing⟩ := fresh entrance
    obtain ⟨o', outgoing'⟩ := Outgoing.fired (x := v.session mem sq shut) outgoing
      (fun op member => calls op (allowed op member)) called (armed.exact_before (sized trivial))
    have acts : Session.Acts cfg (v.session mem sq shut) x := fired_acts called
    refine ⟨o', of_armed outgoing' armed rfl rfl ?_ entrance.idle.done ?_⟩
    · exact todo_append entrance.idle.todo new
    · rw [(acts.frame tcp).taken, (calls_still called).accepted]
      change v.history.taken = v.history.accepted
      rw [entrance.history]

end Sending

end View

end Gain
