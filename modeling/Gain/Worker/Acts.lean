import Gain.Buffer.Regions
import Gain.Worker.Handlers

/-! # What code working on a connection can do

The code that a worker and its handlers run on one connection is made of a few
acts. Each of them leaves the identity of the connection alone, prepares
requests for that connection only, and takes no memory that is in use.
-/

namespace Gain

open List Option Relation RingBuffer

namespace Connection

/-- The regions behind the buffers of the connection. -/
def regions (c : Connection) : Multiset Nat :=
  (c.inboundBuffer.elim 0 RingBuffer.regions) + (c.outboundBuffer.elim 0 RingBuffer.regions)

/-- Both buffers are there and have a memory of their size. -/
def Sized (c : Connection) : Prop :=
  (∃ rb, c.inboundBuffer = some rb ∧ rb.Sized) ∧ ∃ rb, c.outboundBuffer = some rb ∧ rb.Sized

end Connection

variable {q : Sqe}

namespace Chains

/-- Several entries are prepared one after the other. -/
def pushAll (sq : Chains) (new : List Sqe) : Chains := new.foldl push sq

theorem pushAll_append (sq : Chains) (new more : List Sqe) :
    pushAll sq (new ++ more) = pushAll (pushAll sq new) more :=
  foldl_append

theorem flatten_pushAll (sq : Chains) (new : List Sqe) :
    (pushAll sq new).flatten = sq.flatten ++ new := by
  induction new generalizing sq with
  | nil => exact (append_nil _).symm
  | cons q new ih =>
    change (pushAll (push sq q) new).flatten = _
    rw [ih, flatten_push, append_assoc, singleton_append]

/-- A request starts a chain or joins the last one. -/
theorem push_cases (sq : Chains) (q : Sqe) :
    push sq q = sq ++ [[q]] ∨
      ∃ init last, sq = init ++ [last] ∧ push sq q = init ++ [last ++ [q]] := by
  induction sq, q using push.induct with
  | case1 q => exact Or.inl rfl
  | case2 c q open' =>
    refine Or.inr ⟨[], c, rfl, ?_⟩
    simp [push, open']
  | case3 c q closed =>
    refine Or.inl ?_
    simp [push, closed]
  | case4 c d rest q ih =>
    rw [push]
    rcases ih with alone | ⟨init, last, same, joined⟩
    · rw [alone]
      exact Or.inl rfl
    · rw [joined, same]
      exact Or.inr ⟨c :: init, last, rfl, rfl⟩

/-- An entry joins the chain of a linked one. -/
theorem push_linked (init : Chains) (last : List Sqe) {q' : Sqe} (link : q.link = true) :
    push (init ++ [last ++ [q]]) q' = init ++ [last ++ [q, q']] := by
  induction init with
  | nil => simp [push, linked, link]
  | cons c init ih =>
    cases init with
    | nil =>
      rw [cons_append, nil_append, push]
      exact congrArg (c :: ·) ih
    | cons d init =>
      rw [cons_append, cons_append, push]
      exact congrArg (c :: ·) ih

/-- A single entry, or a linked one and the next, are prepared in one chain. -/
def Joined (new : List Sqe) : Prop :=
  new.length = 1 ∨ ∃ q q', new = [q, q'] ∧ q.link = true

theorem pushAll_joined (sq : Chains) {new : List Sqe} (joined : Joined new) :
    pushAll sq new = sq ++ [new] ∨
      ∃ init last, sq = init ++ [last] ∧ pushAll sq new = init ++ [last ++ new] := by
  rcases joined with one | ⟨q, q', rfl, link⟩
  · obtain ⟨q, rfl⟩ := length_eq_one_iff.mp one
    exact push_cases sq q
  · change push (push sq q) q' = _ ∨ ∃ init last, _ ∧ push (push sq q) q' = _
    rcases push_cases sq q with alone | ⟨init, last, same, joined⟩
    · rw [alone]
      exact Or.inl (push_linked sq [] link)
    · rw [joined]
      exact Or.inr ⟨init, last, same, push_linked init last link⟩

end Chains

namespace Session

/-- The request is one of the connection's own. -/
structure Issued (x : Session) (q : Sqe) : Prop where
  obj : q.obj = x.obj
  life : q.life = x.conn.life
  key : q.key = x.conn.fd
  fd : q.fd = x.conn.fd
  flag : q.flag = .read ∨ q.flag = .write ∨ q.flag = .close

/-- What the code on a connection does not change, and what it may have taken. -/
structure Frame (cfg : Config) (x x' : Session) : Prop where
  obj : x'.obj = x.obj
  fd : x'.conn.fd = x.conn.fd
  key : x'.conn.key = x.conn.key
  life : x'.conn.life = x.conn.life
  network : x'.conn.network = x.conn.network
  taken : x'.history.taken = x.history.taken
  sendFailed : x'.history.sendFailed = x.history.sendFailed
  closes : x'.history.closes = x.history.closes
  released : x'.history.released = x.history.released
  prepared : ∃ new, x'.sq = Chains.pushAll x.sq new ∧ ∀ q ∈ new, x.Issued q
  requests : ∃ made, x'.mem.requests = x.mem.requests ++ made
  supplied : Supplied (x.conn.regions + x.mem.pool.regions) x.mem.pool.nextAddr
    (x'.conn.regions + x'.mem.pool.regions) x'.mem.pool.nextAddr
  sized : (∀ q ∈ x'.mem.requests, q.Exact cfg.pageSize) → x.conn.Sized → x'.conn.Sized

namespace Frame

variable {cfg : Config} {x x₁ x' : Session}

theorem refl : Frame cfg x x where
  obj := rfl
  fd := rfl
  key := rfl
  life := rfl
  network := rfl
  taken := rfl
  sendFailed := rfl
  closes := rfl
  released := rfl
  prepared := ⟨[], rfl, by simp⟩
  requests := ⟨[], (append_nil _).symm⟩
  supplied := Supplied.refl
  sized := fun _ sized => sized

theorem issued (frame : Frame cfg x x₁) (own : x₁.Issued q) : x.Issued q where
  obj := own.obj.trans frame.obj
  life := own.life.trans frame.life
  key := own.key.trans frame.fd
  fd := own.fd.trans frame.fd
  flag := own.flag

/-- Acts in a row keep to the frame. -/
theorem trans (first : Frame cfg x x₁) (second : Frame cfg x₁ x') : Frame cfg x x' where
  obj := second.obj.trans first.obj
  fd := second.fd.trans first.fd
  key := second.key.trans first.key
  life := second.life.trans first.life
  network := second.network.trans first.network
  taken := second.taken.trans first.taken
  sendFailed := second.sendFailed.trans first.sendFailed
  closes := second.closes.trans first.closes
  released := second.released.trans first.released
  prepared := by
    obtain ⟨new, pushed, own⟩ := first.prepared
    obtain ⟨more, pushed', own'⟩ := second.prepared
    refine ⟨new ++ more, by rw [pushed', pushed, Chains.pushAll_append], fun q member => ?_⟩
    rcases mem_append.mp member with old | added
    · exact own q old
    · exact first.issued (own' q added)
  requests := by
    obtain ⟨made, appended⟩ := first.requests
    obtain ⟨more, appended'⟩ := second.requests
    exact ⟨made ++ more, by rw [appended', appended, append_assoc]⟩
  supplied := first.supplied.trans second.supplied
  sized := by
    intro exact' sized
    obtain ⟨more, appended⟩ := second.requests
    refine second.sized exact' (first.sized (fun q member => exact' q ?_) sized)
    rw [appended]
    exact mem_append_left _ member

theorem exact_before (frame : Frame cfg x x')
    (exact' : ∀ q ∈ x'.mem.requests, q.Exact cfg.pageSize) :
    ∀ q ∈ x.mem.requests, q.Exact cfg.pageSize := by
  obtain ⟨made, appended⟩ := frame.requests
  intro q member
  refine exact' q ?_
  rw [appended]
  exact mem_append_left _ member

/-- The buffers and the queue are left alone. -/
theorem of_same (obj : x'.obj = x.obj) (fd : x'.conn.fd = x.conn.fd)
    (key : x'.conn.key = x.conn.key) (life : x'.conn.life = x.conn.life)
    (network : x'.conn.network = x.conn.network)
    (inbound : x'.conn.inboundBuffer = x.conn.inboundBuffer)
    (outbound : x'.conn.outboundBuffer = x.conn.outboundBuffer)
    (kernel : x'.history.taken = x.history.taken ∧
      x'.history.sendFailed = x.history.sendFailed ∧
      x'.history.closes = x.history.closes ∧ x'.history.released = x.history.released)
    (mem : x'.mem = x.mem)
    (prepared : ∃ new, x'.sq = Chains.pushAll x.sq new ∧ ∀ q ∈ new, x.Issued q) :
    Frame cfg x x' where
  obj := obj
  fd := fd
  key := key
  life := life
  network := network
  taken := kernel.1
  sendFailed := kernel.2.1
  closes := kernel.2.2.1
  released := kernel.2.2.2
  prepared := prepared
  requests := ⟨[], by rw [mem, append_nil]⟩
  supplied := by
    simp only [mem, Connection.regions, inbound, outbound]
    exact Supplied.refl
  sized := by
    simp only [Connection.Sized, inbound, outbound]
    exact fun _ sized => sized

end Frame

variable {α : Type} {x x' : Session} {name : String} {cfg : Config} {ops : List ConnOp}

/-- A method is refused or works on the inbound buffer. -/
theorem onInbound_cases {refused : Error → α} {method : RingBuffer → Option (α × Session)}
    (called : (x.onInbound name refused method).map Prod.snd = some x') :
    x' = x ∨ ∃ rb a, x.conn.inboundBuffer = some rb ∧ method rb = some (a, x') := by
  obtain ⟨⟨a, y⟩, done, rfl⟩ := map_eq_some_iff.mp called
  unfold onInbound at done
  cases allowed : x.conn.userOpAllowed name with
  | some err =>
    rw [allowed] at done
    cases done
    exact Or.inl rfl
  | none =>
    rw [allowed] at done
    obtain ⟨rb, present, ran⟩ := bind_eq_some_iff.mp done
    exact Or.inr ⟨rb, a, present, ran⟩

/-- A method is refused or works on the outbound buffer. -/
theorem onOutbound_cases {refused : Error → α} {method : RingBuffer → Option (α × Session)}
    (called : (x.onOutbound name refused method).map Prod.snd = some x') :
    x' = x ∨ ∃ rb a, x.conn.outboundBuffer = some rb ∧ method rb = some (a, x') := by
  obtain ⟨⟨a, y⟩, done, rfl⟩ := map_eq_some_iff.mp called
  unfold onOutbound at done
  cases allowed : x.conn.userOpAllowed name with
  | some err =>
    rw [allowed] at done
    cases done
    exact Or.inl rfl
  | none =>
    rw [allowed] at done
    obtain ⟨rb, present, ran⟩ := bind_eq_some_iff.mp done
    exact Or.inr ⟨rb, a, present, ran⟩

/-- What a method can do to a session: a buffer has been worked on and bytes were
consumed or produced, or `Close` set the flag. -/
inductive Method (cfg : Config) (x : Session) : Session → Prop
  | refused : Method cfg x x
  | inbound {rb rb' : RingBuffer} (present : x.conn.inboundBuffer = some rb)
      (supplies : ∀ l, RingBuffer.Supplies cfg.pageSize rb l rb' l) (bytes : List UInt8) :
      Method cfg x ((x.setInbound rb').consume bytes)
  | outbound {rb rb' : RingBuffer} {mem : VirtualMem.Ledger}
      (present : x.conn.outboundBuffer = some rb)
      (supplies : RingBuffer.Supplies cfg.pageSize rb x.mem rb' mem) (bytes : List UInt8) :
      Method cfg x (({ x with mem := mem }.setOutbound rb').produce bytes)
  | close : Method cfg x x.close.2

/-- Every call of a handler is a method. -/
theorem call_method {op : ConnOp} (called : x.call cfg.source op = some x') : Method cfg x x' := by
  cases op with
  | read buffer =>
    rcases onInbound_cases called with rfl | ⟨rb, _, present, ran⟩
    · exact .refused
    · obtain ⟨⟨⟨n, err, bytes⟩, rb'⟩, read, last⟩ := bind_eq_some_iff.mp ran
      cases last
      obtain ⟨⟨reply', rb₁⟩, took, inner⟩ := bind_eq_some_iff.mp read
      cases inner
      exact .inbound present (fun _ => .of_frame (readUpTo_frame took)) _
  | next n =>
    rcases onInbound_cases called with rfl | ⟨rb, _, present, ran⟩
    · exact .refused
    · obtain ⟨⟨⟨bytes, err⟩, rb'⟩, took, last⟩ := bind_eq_some_iff.mp ran
      cases last
      exact .inbound present (fun _ => .of_frame (next_frame took)) _
  | peek n =>
    rcases onInbound_cases called with rfl | ⟨rb, _, present, ran⟩
    · exact .refused
    · obtain ⟨bytes, _, last⟩ := bind_eq_some_iff.mp ran
      cases last
      exact .refused
  | discard n =>
    rcases onInbound_cases called with rfl | ⟨rb, _, present, ran⟩
    · exact .refused
    · obtain ⟨content, _, rest⟩ := bind_eq_some_iff.mp ran
      obtain ⟨⟨count, rb'⟩, dropped, last⟩ := bind_eq_some_iff.mp rest
      cases last
      exact .inbound present (fun _ => .of_frame (discard_frame dropped)) _
  | write buffer =>
    rcases onOutbound_cases called with rfl | ⟨rb, _, present, ran⟩
    · exact .refused
    · obtain ⟨⟨n, rb', mem⟩, wrote, last⟩ := bind_eq_some_iff.mp ran
      cases last
      exact .outbound present (.of_resized (write_resized wrote)) _
  | close =>
    cases called
    exact .close
  | readFrom chunks last final =>
    rcases onOutbound_cases called with rfl | ⟨rb, _, present, ran⟩
    · exact .refused
    · obtain ⟨⟨⟨n, err⟩, rb', mem⟩, wrote, inner⟩ := bind_eq_some_iff.mp ran
      cases inner
      exact .outbound present (.of_readFrom wrote) _
  | writeTo written err =>
    rcases onInbound_cases called with rfl | ⟨rb, _, present, ran⟩
    · exact .refused
    · obtain ⟨⟨⟨offered, n, err'⟩, rb'⟩, wrote, inner⟩ := bind_eq_some_iff.mp ran
      cases inner
      exact .inbound present (fun l => .of_writeTo cfg.pageSize_pos wrote) _

/-- What no method changes. -/
theorem Method.frame (method : Method cfg x x') : Frame cfg x x' := by
  have nothing : ∃ new, x.sq = Chains.pushAll x.sq new ∧ ∀ q ∈ new, x.Issued q := ⟨[], rfl, by simp⟩
  have silent : ∃ made, x.mem.requests = x.mem.requests ++ made := ⟨[], (append_nil _).symm⟩
  cases method with
  | refused => exact .refl
  | inbound present supplies bytes =>
    have regions := (supplies x.mem).regions.add
      (x.conn.outboundBuffer.elim 0 RingBuffer.regions)
    refine ⟨rfl, rfl, rfl, rfl, rfl, rfl, rfl, rfl, rfl, nothing, silent, ?_, ?_⟩
    · simpa [Connection.regions, setInbound, consume, present, add_right_comm] using regions
    · rintro exact' ⟨⟨rb, present', sized⟩, outbound⟩
      cases present.symm.trans present'
      exact ⟨⟨_, rfl, (supplies x.mem).sized exact' sized⟩, outbound⟩
  | outbound present supplies bytes =>
    have regions := supplies.regions.add (x.conn.inboundBuffer.elim 0 RingBuffer.regions)
    refine ⟨rfl, rfl, rfl, rfl, rfl, rfl, rfl, rfl, rfl, nothing, supplies.requests, ?_, ?_⟩
    · simpa [Connection.regions, setOutbound, produce, present, add_comm, add_left_comm,
        add_assoc] using regions
    · rintro exact' ⟨inbound, rb, present', sized⟩
      cases present.symm.trans present'
      exact ⟨inbound, _, rfl, supplies.sized exact' sized⟩
  | close =>
    unfold Session.close Connection.close
    split_ifs <;>
      exact .of_same rfl rfl rfl rfl rfl rfl rfl ⟨rfl, rfl, rfl, rfl⟩ rfl nothing

/-- What no method touches. -/
structure Still (x x' : Session) : Prop where
  state : x'.conn.state = x.conn.state
  nextAsyncOp : x'.conn.nextAsyncOp = x.conn.nextAsyncOp
  sq : x'.sq = x.sq
  word : x'.history.word = x.history.word
  delivered : x'.history.delivered = x.history.delivered
  receivedAt : x'.history.receivedAt = x.history.receivedAt
  accepted : x'.history.accepted = x.history.accepted

theorem Still.trans {x₁ : Session} (first : Still x x₁) (second : Still x₁ x') : Still x x' where
  state := second.state.trans first.state
  nextAsyncOp := second.nextAsyncOp.trans first.nextAsyncOp
  sq := second.sq.trans first.sq
  word := second.word.trans first.word
  delivered := second.delivered.trans first.delivered
  receivedAt := second.receivedAt.trans first.receivedAt
  accepted := second.accepted.trans first.accepted

theorem Method.still (method : Method cfg x x') : Still x x' := by
  cases method with
  | refused | inbound _ _ _ | outbound _ _ _ => exact ⟨rfl, rfl, rfl, rfl, rfl, rfl, rfl⟩
  | close =>
    unfold Session.close Connection.close
    split_ifs <;> exact ⟨rfl, rfl, rfl, rfl, rfl, rfl, rfl⟩

theorem calls_frame (done : calls cfg.source ops x = some x') : Frame cfg x x' := by
  induction ops generalizing x with
  | nil =>
    cases done
    exact .refl
  | cons op ops ih =>
    obtain ⟨x₁, first, rest⟩ := bind_eq_some_iff.mp done
    exact (call_method first).frame.trans (ih rest)

theorem calls_still (done : calls cfg.source ops x = some x') : Still x x' := by
  induction ops generalizing x with
  | nil =>
    cases done
    exact ⟨rfl, rfl, rfl, rfl, rfl, rfl, rfl⟩
  | cons op ops ih =>
    obtain ⟨x₁, first, rest⟩ := bind_eq_some_iff.mp done
    exact (call_method first).still.trans (ih rest)

/-- The callback is written down. -/
def fired (x : Session) (callback : Callback) : Session :=
  { x with history := x.history.fired callback }

/-- One act of the code on a stream connection. -/
inductive Act (cfg : Config) : Session → Session → Prop
  | call {x x' : Session} {op : ConnOp} (called : x.call cfg.source op = some x') : Act cfg x x'
  | fire (x : Session) (callback : Callback) : Act cfg x (x.fired callback)
  | userSpace (x : Session) : Act cfg x x.setUserSpace
  | received {x x' : Session} {cqe : Cqe} (counted : x.onKernelRead cqe = some x') : Act cfg x x'
  | sent {x x' : Session} {cqe : Cqe} (dropped : x.onKernelWrite cqe = some x') : Act cfg x x'
  | armRead {x x' : Session} (armed : x.addReadRequest cfg true = some (none, x')) : Act cfg x x'
  | armWrite {x x' : Session} {link : Bool}
      (armed : x.addWriteRequest cfg true link = some (none, x')) : Act cfg x x'
  | armClose (x : Session) : Act cfg x (x.addCloseConnRequest true).2
  | shutdown (x : Session) : Act cfg x (x.syscallCloseSocket x.conn.fd)
  | closed (x : Session) : Act cfg x { x with conn := x.conn.close.2 }

variable {cfg : Config} {x x' : Session} {link : Bool} {cqe : Cqe}

/-- A receive request: the buffer has grown if it had to, and its free part is given
to the kernel. -/
theorem addReadRequest_eq (tcp : cfg.sendRecvMsg = false)
    (armed : x.addReadRequest cfg true = some (none, x')) :
    ∃ rb rb' mem addr, x.conn.inboundBuffer = some rb ∧
      rb.growIfUnsufficientFreeSpace cfg.source x.mem = some (rb', mem) ∧
      rb'.writeAddress = some addr ∧
      x' = { x with
        conn := { x.conn with
          inboundBuffer := some rb', state := .read, mode := .kernelSpace }
        mem := mem
        sq := x.sq.push { flag := .read, key := x.conn.fd, fd := x.conn.fd, addr := addr,
                          len := rb'.available, obj := x.obj, life := x.conn.life } } := by
  obtain ⟨rb, present, rest⟩ := bind_eq_some_iff.mp armed
  obtain ⟨⟨rb', mem⟩, grown, rest⟩ := bind_eq_some_iff.mp rest
  obtain ⟨entry, found, last⟩ := bind_eq_some_iff.mp rest
  simp only [recvEntry, tcp, Bool.false_eq_true, if_false] at found
  obtain ⟨addr, address, rfl⟩ := map_eq_some_iff.mp found
  cases last
  exact ⟨rb, rb', mem, addr, present, grown, address, rfl⟩

theorem addWriteRequest_eq (tcp : cfg.sendRecvMsg = false)
    (armed : x.addWriteRequest cfg true link = some (none, x')) :
    ∃ rb addr, x.conn.outboundBuffer = some rb ∧ rb.readAddress = some addr ∧
      x' = { x with
        conn := { x.conn with state := .write, mode := .kernelSpace }
        sq := x.sq.push { flag := .write, key := x.conn.fd, fd := x.conn.fd, addr := addr,
                          len := rb.buffered, link := link, obj := x.obj,
                          life := x.conn.life } } := by
  obtain ⟨entry, found, last⟩ := bind_eq_some_iff.mp armed
  simp only [sendEntry, tcp, Bool.false_eq_true, if_false] at found
  obtain ⟨rb, present, made⟩ := bind_eq_some_iff.mp found
  obtain ⟨addr, address, rfl⟩ := map_eq_some_iff.mp made
  cases last
  exact ⟨rb, addr, present, address, rfl⟩

theorem addCloseConnRequest_eq (x : Session) :
    (x.addCloseConnRequest true).2 = { x with
      conn := { x.conn with state := .close }
      sq := x.sq.push { flag := .close, key := x.conn.fd, fd := x.conn.fd, obj := x.obj,
                        life := x.conn.life } } := rfl

theorem onKernelRead_eq (counted : x.onKernelRead cqe = some x') :
    ∃ rb rb', x.conn.inboundBuffer = some rb ∧ rb.advanceWrite cqe.res = some rb' ∧
      x' = { x with
        conn := { x.conn with inboundBuffer := some rb' }
        history := { x.history with delivered := x.history.delivered ++ cqe.data } } := by
  obtain ⟨conn, advanced, last⟩ := bind_eq_some_iff.mp counted
  obtain ⟨rb, present, rest⟩ := bind_eq_some_iff.mp advanced
  obtain ⟨rb', moves, inner⟩ := bind_eq_some_iff.mp rest
  cases inner
  cases last
  exact ⟨rb, rb', present, moves, rfl⟩

theorem onKernelWrite_eq (dropped : x.onKernelWrite cqe = some x') :
    ∃ rb rb', x.conn.outboundBuffer = some rb ∧ rb.advanceRead cqe.res = some rb' ∧
      x' = { x with
        conn := { x.conn with outboundBuffer := some rb' }
        history := { x.history with accepted := x.history.accepted ++ cqe.data } } := by
  obtain ⟨conn, advanced, last⟩ := bind_eq_some_iff.mp dropped
  obtain ⟨rb, present, rest⟩ := bind_eq_some_iff.mp advanced
  obtain ⟨rb', moves, inner⟩ := bind_eq_some_iff.mp rest
  cases inner
  cases last
  exact ⟨rb, rb', present, moves, rfl⟩

/-- A frame with one request prepared. -/
theorem Frame.of_push (own : x.Issued q) :
    ∃ new, x.sq.push q = Chains.pushAll x.sq new ∧ ∀ q ∈ new, x.Issued q :=
  ⟨[q], rfl, fun _ member => mem_singleton.mp member ▸ own⟩

theorem onKernelRead_frame (counted : x.onKernelRead cqe = some x') : Frame cfg x x' := by
  obtain ⟨rb, rb', present, moves, rfl⟩ := onKernelRead_eq counted
  have counting : Method cfg x ((x.setInbound rb').consume []) :=
    .inbound present (fun _ => .of_frame (advanceWrite_frame moves)) []
  have frame := counting.frame
  exact ⟨rfl, rfl, rfl, rfl, rfl, rfl, rfl, rfl, rfl, ⟨[], rfl, by simp⟩, frame.requests,
    frame.supplied, frame.sized⟩

theorem onKernelWrite_frame (dropped : x.onKernelWrite cqe = some x') : Frame cfg x x' := by
  obtain ⟨rb, rb', present, moves, rfl⟩ := onKernelWrite_eq dropped
  have dropping : Method cfg x ((x.setOutbound rb').produce []) :=
    .outbound present (.of_frame (advanceRead_frame moves)) []
  have frame := dropping.frame
  exact ⟨rfl, rfl, rfl, rfl, rfl, rfl, rfl, rfl, rfl, ⟨[], rfl, by simp⟩, frame.requests,
    frame.supplied, frame.sized⟩

/-- What no act changes. -/
theorem Act.frame (tcp : cfg.sendRecvMsg = false) (act : Act cfg x x') : Frame cfg x x' := by
  have nothing : ∃ new, x.sq = Chains.pushAll x.sq new ∧ ∀ q ∈ new, x.Issued q := ⟨[], rfl, by simp⟩
  cases act with
  | call called => exact (call_method called).frame
  | fire _ | userSpace =>
    exact .of_same rfl rfl rfl rfl rfl rfl rfl ⟨rfl, rfl, rfl, rfl⟩ rfl nothing
  | received counted => exact onKernelRead_frame counted
  | sent dropped => exact onKernelWrite_frame dropped
  | armRead armed =>
    obtain ⟨rb, rb', mem, addr, present, grown, address, rfl⟩ := addReadRequest_eq tcp armed
    have supplies : RingBuffer.Supplies cfg.pageSize rb x.mem rb' mem :=
      .of_resized (growWhen_resized grown)
    refine ⟨rfl, rfl, rfl, rfl, rfl, rfl, rfl, rfl, rfl,
      Frame.of_push ⟨rfl, rfl, rfl, rfl, Or.inl rfl⟩, supplies.requests, ?_, ?_⟩
    · simpa [Connection.regions, present, add_right_comm] using
        supplies.regions.add (x.conn.outboundBuffer.elim 0 RingBuffer.regions)
    · rintro exact' ⟨⟨rb₀, present', sized⟩, outbound⟩
      cases present.symm.trans present'
      exact ⟨⟨_, rfl, supplies.sized exact' sized⟩, outbound⟩
  | armWrite armed =>
    obtain ⟨rb, addr, present, address, rfl⟩ := addWriteRequest_eq tcp armed
    exact .of_same rfl rfl rfl rfl rfl rfl rfl ⟨rfl, rfl, rfl, rfl⟩ rfl
      (Frame.of_push ⟨rfl, rfl, rfl, rfl, Or.inr (Or.inl rfl)⟩)
  | armClose =>
    exact .of_same rfl rfl rfl rfl rfl rfl rfl ⟨rfl, rfl, rfl, rfl⟩ rfl
      (Frame.of_push ⟨rfl, rfl, rfl, rfl, Or.inr (Or.inr rfl)⟩)
  | shutdown => exact .of_same rfl rfl rfl rfl rfl rfl rfl ⟨rfl, rfl, rfl, rfl⟩ rfl nothing
  | closed =>
    unfold Connection.close
    split_ifs <;>
      exact .of_same rfl rfl rfl rfl rfl rfl rfl ⟨rfl, rfl, rfl, rfl⟩ rfl nothing

/-- Several acts. -/
abbrev Acts (cfg : Config) : Session → Session → Prop := ReflTransGen (Act cfg)

theorem Acts.frame (tcp : cfg.sendRecvMsg = false) (acts : Acts cfg x x') : Frame cfg x x' := by
  induction acts with
  | refl => exact .refl
  | tail _ last ih => exact ih.trans (last.frame tcp)

theorem calls_acts (done : calls cfg.source ops x = some x') : Acts cfg x x' := by
  induction ops generalizing x with
  | nil =>
    cases done
    exact .refl
  | cons op ops ih =>
    obtain ⟨x₁, first, rest⟩ := bind_eq_some_iff.mp done
    exact .head (.call first) (ih rest)

variable {callback : Callback}

/-- A callback is fired in user space and makes its calls. -/
theorem fired_acts (called : calls cfg.source ops (x.setUserSpace.fired callback) = some x') :
    Acts cfg x x' :=
  ((ReflTransGen.single (.userSpace x)).tail (.fire _ _)).trans (calls_acts called)

/-- A send is taken from the buffer before its callback. -/
theorem written_acts (sent : x.onKernelWrite cqe = some x₁)
    (called : calls cfg.source ops (x₁.setUserSpace.fired callback) = some x') : Acts cfg x x' :=
  .head (.sent sent) (fired_acts called)

/-- The outcome of preparing what comes next for a connection: the `GetSQE` outcomes
and the returned error tell which. A close without a send before it is prepared for
a connection whose outbound buffer is empty. -/
inductive Arming (cfg : Config) (sqe : Nat → Bool) (x : Session) : Option Error → Session → Prop
  | refused (err : Error) (full : sqe 0 = false) : Arming cfg sqe x (some err) x
  | read {x' : Session} (free : sqe 0 = true)
      (armed : x.addReadRequest cfg true = some (none, x')) : Arming cfg sqe x none x'
  | write {x' : Session} (free : sqe 0 = true) (open' : x.conn.closed = false)
      (armed : x.addWriteRequest cfg true false = some (none, x')) : Arming cfg sqe x none x'
  | writeClose {x₁ : Session} (free : sqe 0 = true) (free' : sqe 1 = true)
      (closed : x.conn.closed = true)
      (armed : x.addWriteRequest cfg true true = some (none, x₁)) :
      Arming cfg sqe x none (x₁.addCloseConnRequest true).2
  | writeOnly {x' : Session} (err : Error) (free : sqe 0 = true) (full : sqe 1 = false)
      (closed : x.conn.closed = true)
      (armed : x.addWriteRequest cfg true true = some (none, x')) : Arming cfg sqe x (some err) x'
  | close (free : sqe 0 = true) (closed : x.conn.closed = true)
      (drained : ∃ n, x.conn.outboundBuffered = some n ∧ n ≤ 0) :
      Arming cfg sqe x none (x.addCloseConnRequest true).2

/-- The same for an entry of the asynchronous queue, which names the operation. -/
inductive AsyncArming (cfg : Config) (sqe : Nat → Bool) (x : Session) : Session → Prop
  | armed {err : Option Error} {x' : Session} (arming : Arming cfg sqe x err x') :
      AsyncArming cfg sqe x x'
  | close (free : sqe 0 = true) (next : x.conn.nextAsyncOp = .closeOp) :
      AsyncArming cfg sqe x (x.addCloseConnRequest true).2
  | nothing (next : x.conn.nextAsyncOp = .noOp) : AsyncArming cfg sqe x x

variable {sqe : Nat → Bool} {err : Option Error} {free : Bool} {env : Env}

/-- A request is prepared, or there was no entry and nothing changed. -/
theorem addReadRequest_cases (done : x.addReadRequest cfg free = some (err, x')) :
    (free = false ∧ err = some .gettingSQE ∧ x' = x) ∨
      (free = true ∧ err = none ∧ x.addReadRequest cfg true = some (none, x')) := by
  cases free with
  | false =>
    cases done
    exact Or.inl ⟨rfl, rfl, rfl⟩
  | true =>
    have none' : err = none := by
      obtain ⟨rb, _, rest⟩ := bind_eq_some_iff.mp done
      obtain ⟨grown, _, rest⟩ := bind_eq_some_iff.mp rest
      obtain ⟨entry, _, last⟩ := bind_eq_some_iff.mp rest
      cases last
      rfl
    subst none'
    exact Or.inr ⟨rfl, rfl, done⟩

/-- A send is refused or prepared. -/
theorem addWriteRequest_cases (done : x.addWriteRequest cfg free link = some (err, x')) :
    (free = false ∧ err = some .gettingSQE ∧ x' = x) ∨
      (free = true ∧ err = none ∧ x.addWriteRequest cfg true link = some (none, x')) := by
  cases free with
  | false =>
    cases done
    exact Or.inl ⟨rfl, rfl, rfl⟩
  | true =>
    have none' : err = none := by
      obtain ⟨entry, _, last⟩ := bind_eq_some_iff.mp done
      cases last
      rfl
    subst none'
    exact Or.inr ⟨rfl, rfl, done⟩

/-- `writeData` arms the connection. -/
theorem writeData_arming (tcp : cfg.sendRecvMsg = false)
    (done : x.writeData cfg sqe = some (err, x')) : Arming cfg sqe x err x' := by
  simp only [writeData, tcp, Bool.false_eq_true, if_false, bind_eq_bind, bind_some] at done
  obtain ⟨⟨first, x₁⟩, wrote, rest⟩ := bind_eq_some_iff.mp done
  rcases addWriteRequest_cases wrote with ⟨full, rfl, rfl⟩ | ⟨free, rfl, armed⟩
  · cases rest
    exact .refused _ full
  · cases closed : x.conn.closed with
    | false =>
      rw [closed] at rest armed
      cases rest
      exact .write free closed armed
    | true =>
      rw [closed] at rest armed
      cases free' : sqe 1 with
      | false =>
        rw [free'] at rest
        cases rest
        exact .writeOnly _ free free' closed armed
      | true =>
        rw [free'] at rest
        cases rest
        exact .writeClose free free' closed armed

/-- `addNextRequest` arms the connection. -/
theorem addNextRequest_arming (done : x.addNextRequest cfg sqe = some (err, x')) :
    Arming cfg sqe x err x' := by
  unfold addNextRequest at done
  obtain ⟨pending, outbound, rest⟩ := bind_eq_some_iff.mp done
  by_cases some' : pending > 0
  · simp only [if_pos some'] at rest
    obtain ⟨⟨first, x₁⟩, wrote, rest⟩ := bind_eq_some_iff.mp rest
    rcases addWriteRequest_cases wrote with ⟨full, rfl, rfl⟩ | ⟨free, rfl, armed⟩
    · cases rest
      exact .refused _ full
    · cases closed : x.conn.closed with
      | false =>
        rw [closed] at rest armed
        cases rest
        exact .write free closed armed
      | true =>
        rw [closed] at rest armed
        cases free' : sqe 1 with
        | false =>
          rw [free'] at rest
          cases rest
          exact .writeOnly _ free free' closed armed
        | true =>
          rw [free'] at rest
          cases rest
          exact .writeClose free free' closed armed
  · simp only [if_neg some'] at rest
    cases closed : x.conn.closed with
    | true =>
      simp only [closed, if_true] at rest
      cases free : sqe 0 with
      | false =>
        rw [free] at rest
        cases rest
        exact .refused _ free
      | true =>
        rw [free] at rest
        cases rest
        exact .close free closed ⟨pending, outbound, not_lt.mp some'⟩
    | false =>
      simp only [closed, Bool.false_eq_true, if_false] at rest
      obtain ⟨⟨first, x₁⟩, read, last⟩ := bind_eq_some_iff.mp rest
      rcases addReadRequest_cases read with ⟨full, rfl, rfl⟩ | ⟨free, rfl, armed⟩
      · cases last
        exact .refused _ full
      · cases last
        exact .read free armed

theorem Arming.acts (arming : Arming cfg sqe x err x') : Acts cfg x x' := by
  cases arming with
  | refused err full => exact .refl
  | read free armed => exact .single (.armRead armed)
  | write free open' armed => exact .single (.armWrite armed)
  | writeClose free free' closed armed => exact .tail (.single (.armWrite armed)) (.armClose _)
  | writeOnly err free full closed armed => exact .single (.armWrite armed)
  | close free closed drained => exact .single (.armClose x)

theorem AsyncArming.acts (arming : AsyncArming cfg sqe x x') : Acts cfg x x' := by
  cases arming with
  | armed arming => exact arming.acts
  | close free next => exact .single (.armClose x)
  | nothing next => exact .refl

/-- A synchronous handler runs and then the next request is prepared. -/
theorem workAndArm_eq (tcp : cfg.sendRecvMsg = false) {n : Int}
    (done : x.workAndArm cfg env n = some (err, x')) :
    ∃ x₁, calls cfg.source env.handler (x.setUserSpace.fired (.onRead n)) = some x₁ ∧
      Arming cfg env.sqe x₁ err x' := by
  obtain ⟨x₁, worked, rest⟩ := bind_eq_some_iff.mp done
  obtain ⟨pending, outbound, rest⟩ := bind_eq_some_iff.mp rest
  refine ⟨x₁, worked, ?_⟩
  by_cases some' : pending > 0
  · rw [if_pos some'] at rest
    exact writeData_arming tcp rest
  · rw [if_neg some'] at rest
    cases closed : x₁.conn.closed with
    | true =>
      rw [closed, if_pos rfl] at rest
      cases free : env.sqe 0 with
      | false =>
        rw [free] at rest
        cases rest
        exact .refused _ free
      | true =>
        rw [free] at rest
        cases rest
        exact .close free closed ⟨pending, outbound, not_lt.mp some'⟩
    | false =>
      rw [closed, if_neg Bool.false_ne_true] at rest
      rcases addReadRequest_cases rest with ⟨full, rfl, rfl⟩ | ⟨free, rfl, armed⟩
      · exact .refused _ full
      · exact .read free armed

theorem onWritten_eq (done : x.onWritten cfg env cqe = some x') :
    ∃ x₁, x.onKernelWrite cqe = some x₁ ∧
      calls cfg.source env.handler (x₁.setUserSpace.fired (.onWrite cqe.res)) = some x' :=
  bind_eq_some_iff.mp done

/-- On a closed stream connection every call is refused. -/
theorem call_of_closed (stream : x.conn.network = .tcp) (closed : x.conn.closed = true)
    (op : ConnOp) : x.call cfg.source op = some x := by
  have refused : ∀ name, x.conn.userOpAllowed name = some .connectionClosed := by
    intro name
    simp only [Connection.userOpAllowed, closed, if_true]
  cases op with
  | close =>
    simp only [call, Session.close, Connection.close, stream, closed, reduceCtorEq, if_false,
      if_true, isNone_some, Bool.or_false]
  | read _ | next _ | peek _ | discard _ | writeTo _ _ =>
    simp only [call, read, next, peek, discard, writeTo, onInbound, refused, map_some]
  | write _ | readFrom _ _ _ => simp only [call, write, readFrom, onOutbound, refused, map_some]

theorem calls_of_closed (stream : x.conn.network = .tcp) (closed : x.conn.closed = true)
    (ops : List ConnOp) : calls cfg.source ops x = some x := by
  induction ops with
  | nil => rfl
  | cons op ops ih => rw [calls, call_of_closed stream closed op, bind_some, ih]

/-- The session at the end of its connection, with `OnClose` fired. -/
def ended (x : Session) (syscallClose : Bool) (err : Option Error) : Session :=
  { x with
    conn := { x.conn with mode := .userSpace, closed := true }
    history := { x.history with word := x.history.word ++ [.onClose err] }
    shut := if syscallClose then x.conn.fd :: x.shut else x.shut }

theorem ended_frame (x : Session) (syscallClose : Bool) (err : Option Error) :
    Frame cfg x (x.ended syscallClose err) :=
  .of_same rfl rfl rfl rfl rfl rfl rfl ⟨rfl, rfl, rfl, rfl⟩ rfl ⟨[], rfl, by simp⟩

/-- The end of a stream connection: `OnClose` is fired with the connection closed, and
its handler cannot touch it. -/
theorem closeConn_eq (stream : x.conn.network = .tcp) (syscallClose : Bool) (err : Option Error)
    (ops : List ConnOp) :
    x.closeConn cfg syscallClose err ops = some (x.ended syscallClose err) := by
  have flagged : ∀ c : Connection, c.network = .tcp →
      (if c.closed then c else c.close.2) = { c with closed := true } := by
    intro c stream
    cases closed : c.closed with
    | true =>
      cases c
      simp only at closed
      subst closed
      rfl
    | false =>
      simp only [Bool.false_eq_true, if_false, Connection.close, stream, reduceCtorEq, closed]
  have moved : ∀ y : Session, (if y.conn.closed then y else { y with conn := y.conn.close.2 }) =
      { y with conn := if y.conn.closed then y.conn else y.conn.close.2 } := by
    intro y
    split_ifs <;> rfl
  have shut : (if syscallClose then x.syscallCloseSocket x.conn.fd else x) =
      { x with shut := if syscallClose then x.conn.fd :: x.shut else x.shut } := by
    cases syscallClose <;> rfl
  simp only [Session.closeConn, shut, moved]
  change calls cfg.source ops { x with
    conn := if x.conn.setUserSpace.closed then x.conn.setUserSpace else x.conn.setUserSpace.close.2
    history := { x.history with word := x.history.word ++ [.onClose err] }
    shut := if syscallClose then x.conn.fd :: x.shut else x.shut } = _
  rw [flagged x.conn.setUserSpace stream]
  refine calls_of_closed ?_ ?_ ops
  · exact stream
  · rfl

/-- The connection after the kernel's part of an event and its callback, if it has one. -/
inductive Prelude (cfg : Config) (ops : List ConnOp) (cqe : Cqe) (x : Session) : Session → Prop
  | reread {x' : Session} (state : x.conn.state = .read) (some' : 0 < cqe.res)
      (received : x.onKernelRead cqe = some x') (more : cqe.nonempty = true)
      (open' : x'.conn.closed = false) : Prelude cfg ops cqe x x'
  | worked {x₁ x' : Session} (state : x.conn.state = .read) (some' : 0 < cqe.res)
      (received : x.onKernelRead cqe = some x₁)
      (called : calls cfg.source ops (x₁.setUserSpace.fired (.onRead cqe.res)) = some x') :
      Prelude cfg ops cqe x x'
  | wrote {x₁ x' : Session} (state : x.conn.state = .write)
      (sent : x.onKernelWrite cqe = some x₁)
      (called : calls cfg.source ops (x₁.setUserSpace.fired (.onWrite cqe.res)) = some x') :
      Prelude cfg ops cqe x x'

theorem Prelude.acts (prelude : Prelude cfg ops cqe x x') : Acts cfg x x' := by
  cases prelude with
  | reread _ _ received _ _ => exact .single (.received received)
  | worked _ _ received called => exact .head (.received received) (fired_acts called)
  | wrote _ sent called => exact written_acts sent called

/-- A prelude is run on a connection that reads or writes and leaves it in its state. -/
theorem Prelude.state (prelude : Prelude cfg ops cqe x x') :
    (x.conn.state = .read ∨ x.conn.state = .write) ∧ x'.conn.state = x.conn.state ∧
      x'.sq = x.sq := by
  cases prelude with
  | reread state _ received _ _ =>
    obtain ⟨rb, rb', _, _, rfl⟩ := onKernelRead_eq received
    exact ⟨Or.inl state, rfl, rfl⟩
  | worked state _ received called =>
    obtain ⟨rb, rb', _, _, rfl⟩ := onKernelRead_eq received
    have still := calls_still called
    exact ⟨Or.inl state, still.state, still.sq⟩
  | wrote state sent called =>
    obtain ⟨rb, rb', _, _, rfl⟩ := onKernelWrite_eq sent
    have still := calls_still called
    exact ⟨Or.inr state, still.state, still.sq⟩

end Session

end Gain
