import Gain.Worker.Registry

/-! # One connection by itself

What a worker does to one connection, as a machine of its own: its state is the
connection with its history, the requests made for it that are not yet completed,
the completions not yet handled, and the handlers that run on it. As long as the
worker is orderly, its connections are such machines that do not interfere.
-/

namespace Gain

open List VirtualMem

/-- The connection is closed and has nothing to send. -/
def Connection.Spent (c : Connection) : Prop :=
  c.closed = true ∧ ∃ n, c.outboundBuffered = some n ∧ n ≤ 0

namespace Session

variable {cfg : Config} {x x' : Session} {sqe : Nat → Bool} {new : List Sqe}

/-- A request of the connection. -/
def entry (x : Session) (flag : Flag) (addr : Address) (len : Int) (link : Bool) : Sqe :=
  { flag := flag, key := x.conn.fd, fd := x.conn.fd, addr := addr, len := len, link := link,
    obj := x.obj, life := x.conn.life }

/-- The request to close the connection. -/
def closing (x : Session) : Sqe := x.entry .close ⟨0, 0⟩ 0 false

/-- The requests prepared next, and the session with them. -/
inductive Armed (cfg : Config) (x : Session) : List Sqe → Session → Prop
  | nothing : Armed cfg x [] x
  | read {rb rb' : RingBuffer} {mem : Ledger} {addr : Address}
      (present : x.conn.inboundBuffer = some rb)
      (grown : rb.growIfUnsufficientFreeSpace cfg.source x.mem = some (rb', mem))
      (address : rb'.writeAddress = some addr) :
      Armed cfg x [x.entry .read addr rb'.available false] { x with
        conn := { x.conn with inboundBuffer := some rb', state := .read, mode := .kernelSpace }
        mem := mem
        sq := Chains.pushAll x.sq [x.entry .read addr rb'.available false] }
  | write {rb : RingBuffer} {addr : Address} (link : Bool)
      (present : x.conn.outboundBuffer = some rb) (address : rb.readAddress = some addr) :
      Armed cfg x [x.entry .write addr rb.buffered link] { x with
        conn := { x.conn with state := .write, mode := .kernelSpace }
        sq := Chains.pushAll x.sq [x.entry .write addr rb.buffered link] }
  | writeClose {rb : RingBuffer} {addr : Address} (closed : x.conn.closed = true)
      (present : x.conn.outboundBuffer = some rb) (address : rb.readAddress = some addr) :
      Armed cfg x [x.entry .write addr rb.buffered true, x.closing] { x with
        conn := { x.conn with state := .close, mode := .kernelSpace }
        sq := Chains.pushAll x.sq [x.entry .write addr rb.buffered true, x.closing] }
  | close (reason : x.conn.Spent ∨ x.conn.nextAsyncOp = .closeOp) :
      Armed cfg x [x.closing] { x with
        conn := { x.conn with state := .close }, sq := Chains.pushAll x.sq [x.closing] }

/-- What was prepared to arm the connection. -/
theorem Arming.prepared (tcp : cfg.sendRecvMsg = false) {err : Option Error}
    (arming : Arming cfg sqe x err x') :
    ∃ new, Armed cfg x new x' ∧ (err = none → new ≠ []) ∧ (new = [x.closing] → x.conn.Spent) := by
  have other : ∀ {flag addr len link behind}, flag ≠ .close →
      x.entry flag addr len link :: behind = [x.closing] → x.conn.Spent :=
    fun ne same => absurd (congrArg Sqe.flag (List.cons.inj same).1) ne
  cases arming with
  | refused err full => exact ⟨[], .nothing, (fun none' => nomatch none'), fun same => nomatch same⟩
  | read free armed =>
    obtain ⟨rb, rb', mem, addr, present, grown, address, rfl⟩ := addReadRequest_eq tcp armed
    exact ⟨_, .read present grown address, fun _ => cons_ne_nil _ _, other (by decide)⟩
  | write free open' armed =>
    obtain ⟨rb, addr, present, address, rfl⟩ := addWriteRequest_eq tcp armed
    exact ⟨_, .write false present address, fun _ => cons_ne_nil _ _, other (by decide)⟩
  | writeClose free free' closed armed =>
    obtain ⟨rb, addr, present, address, rfl⟩ := addWriteRequest_eq tcp armed
    exact ⟨_, .writeClose closed present address, fun _ => cons_ne_nil _ _, other (by decide)⟩
  | writeOnly err free full closed armed =>
    obtain ⟨rb, addr, present, address, rfl⟩ := addWriteRequest_eq tcp armed
    exact ⟨_, .write true present address, (fun none' => nomatch none'), other (by decide)⟩
  | close free closed drained =>
    exact ⟨_, .close (Or.inl ⟨closed, drained⟩), fun _ => cons_ne_nil _ _,
      fun _ => ⟨closed, drained⟩⟩

theorem AsyncArming.prepared (tcp : cfg.sendRecvMsg = false) (arming : AsyncArming cfg sqe x x') :
    ∃ new, Armed cfg x new x' := by
  cases arming with
  | armed arming =>
    obtain ⟨new, armed, _⟩ := arming.prepared tcp
    exact ⟨new, armed⟩
  | close free next => exact ⟨_, .close (Or.inr next)⟩
  | nothing next => exact ⟨_, .nothing⟩

variable (armed : Armed cfg x new x')
include armed

theorem Armed.sq : x'.sq = Chains.pushAll x.sq new := by
  cases armed <;> rfl

/-- What is prepared is of this connection, and in one chain. -/
theorem Armed.own : (∀ q ∈ new, q.key = x.conn.fd) ∧ (new = [] ∨ Chains.Joined new) := by
  cases armed with
  | nothing => exact ⟨by simp, Or.inl rfl⟩
  | read _ _ _ | write _ _ _ => exact ⟨by simp [entry], Or.inr (Or.inl rfl)⟩
  | writeClose _ _ _ => exact ⟨by simp [entry, closing], Or.inr (Or.inr ⟨_, _, rfl, rfl⟩)⟩
  | close _ => exact ⟨by simp [entry, closing], Or.inr (Or.inl rfl)⟩

theorem Armed.life : x'.conn.life = x.conn.life := by
  cases armed <;> rfl

theorem Armed.history : x'.history = x.history := by
  cases armed <;> rfl

end Session

/-- The connection has its buffers. -/
def Connection.Equipped (c : Connection) : Prop :=
  c.inboundBuffer.isSome = true ∧ c.outboundBuffer.isSome = true

/-- What of a worker concerns one connection. -/
structure View where
  obj : Nat
  conn : Connection
  history : History
  /-- The requests prepared or submitted, oldest first. -/
  todo : List Sqe
  /-- The completions not yet handled, oldest first. -/
  done : List Cqe
  tasks : List Task
  /-- How often the connection is in the asynchronous queue. -/
  queued : Nat

/-- What the surroundings of a worker are assumed not to do. -/
structure Rules where
  /-- The calls handlers make. -/
  call : ConnOp → Prop := fun _ => True
  /-- How much the kernel takes of a send. -/
  send : Sqe → Int → Prop := fun _ _ => True
  /-- The connections a shutdown may find. -/
  sweep : View → Prop := fun _ => True
  /-- A peer may end its stream. -/
  eof : Prop := True
  /-- The submission queue may be full while an event is handled. -/
  full : Prop := True
  /-- An accepted connection may not be configured or armed. -/
  failing : Prop := True
  /-- A receive may be reported with more data behind it. -/
  more : Prop := True

/-- The rules can be checked. -/
class Rules.Checked (rules : Rules) where
  call : DecidablePred rules.call
  send : ∀ q res, Decidable (rules.send q res)
  sweep : DecidablePred rules.sweep
  eof : Decidable rules.eof
  full : Decidable rules.full
  failing : Decidable rules.failing
  more : Decidable rules.more

section Checked

variable (rules : Rules) [checked : rules.Checked]

instance : DecidablePred rules.call := checked.call

instance (q : Sqe) (res : Int) : Decidable (rules.send q res) := checked.send q res

instance : DecidablePred rules.sweep := checked.sweep

instance : Decidable rules.eof := checked.eof

instance : Decidable rules.full := checked.full

instance : Decidable rules.failing := checked.failing

instance : Decidable rules.more := checked.more

end Checked

instance : Rules.Checked {} where
  call _ := isTrue trivial
  send _ _ := isTrue trivial
  sweep _ := isTrue trivial
  eof := isTrue trivial
  full := isTrue trivial
  failing := isTrue trivial
  more := isTrue trivial

namespace View

/-- The requests not yet handled, oldest first. -/
def requests (v : View) : List Sqe := v.done.map Cqe.sqe ++ v.todo

/-- Nothing is underway on the connection. -/
@[mk_iff]
structure Idle (v : View) : Prop where
  todo : v.todo = []
  done : v.done = []
  tasks : v.tasks = []
  queued : v.queued = 0

instance (v : View) : Decidable v.Idle := decidable_of_iff' _ v.idle_iff

def session (v : View) (mem : Ledger) (sq : Chains) (shut : List Int) : Session :=
  ⟨v.obj, v.conn, v.history, mem, sq, shut⟩

/-- Code has worked on the connection and prepared requests. -/
def worked (v : View) (x : Session) (new : List Sqe) : View :=
  { v with conn := x.conn, history := x.history, todo := v.todo ++ new }

variable {v : View}

theorem todo_append (todo : v.todo = []) (new : List Sqe) : v.todo ++ new = new := by
  rw [todo, nil_append]

theorem requests_eq_nil_iff : v.requests = [] ↔ v.done = [] ∧ v.todo = [] := by
  rw [requests, append_eq_nil_iff, map_eq_nil_iff]

/-- On an idle connection there is what was prepared last. -/
theorem Idle.requests_worked (idle : v.Idle) (x : Session) (new : List Sqe) :
    (v.worked x new).requests = new := by
  change v.done.map Cqe.sqe ++ (v.todo ++ new) = new
  rw [todo_append idle.todo, idle.done, map_nil, nil_append]

/-- The moves of a connection. Whether the requests for memory are answered exactly
is `exact'`. -/
inductive Move (cfg : Config) (rules : Rules) (exact' : Prop) (v : View) : View → Prop
  /-- A completion with an error is not looked at. -/
  | dropped {c : Cqe} {rest : List Cqe} (first : v.done = c :: rest) (error : c.res < 0) :
      Move cfg rules exact' v { v with done := rest }
  /-- A completion is handled and the next request prepared. -/
  | armed {c : Cqe} {rest : List Cqe} {mem : Ledger} {sq : Chains} {shut : List Int}
      {ops : List ConnOp} {x x' : Session} {new : List Sqe} (first : v.done = c :: rest)
      (fine : 0 ≤ c.res) (prelude : Session.Prelude cfg ops c (v.session mem sq shut) x)
      (armed : Session.Armed cfg x new x') (calls : ∀ op ∈ ops, rules.call op)
      (sized : exact' → ∀ q ∈ x'.mem.requests, q.Exact cfg.pageSize)
      (spent : new = [x.closing] → x.conn.Spent)
      (more : c.sqe.flag = .read → c.nonempty = true → rules.more) :
      Move cfg rules exact' v { v.worked x' new with done := rest }
  /-- A receive is counted and its handler left to a goroutine. -/
  | spawned {c : Cqe} {rest : List Cqe} {mem : Ledger} {sq : Chains}
      {shut : List Int} {x : Session} (first : v.done = c :: rest) (some' : 0 < c.res)
      (state : v.conn.state = .read)
      (received : (v.session mem sq shut).onKernelRead c = some x) :
      Move cfg rules exact' v
        { v.worked x [] with done := rest, tasks := v.tasks ++ [⟨v.obj, c.res, false⟩] }
  /-- The send before a close is handled. -/
  | flushed {c : Cqe} {rest : List Cqe} {mem : Ledger} {sq : Chains}
      {shut : List Int} {ops : List ConnOp} {x x' : Session} (first : v.done = c :: rest)
      (fine : 0 ≤ c.res) (state : v.conn.state = .close) (flag : c.sqe.flag = .write)
      (sent : (v.session mem sq shut).onKernelWrite c = some x)
      (called : Session.calls cfg.source ops (x.setUserSpace.fired (.onWrite c.res)) = some x')
      (calls : ∀ op ∈ ops, rules.call op)
      (sized : exact' → ∀ q ∈ x'.mem.requests, q.Exact cfg.pageSize) :
      Move cfg rules exact' v { v.worked x' [] with done := rest }
  /-- The operation of an asynchronous handler is carried out. -/
  | asyncArmed {mem : Ledger} {sq : Chains} {shut : List Int} {x : Session}
      {new : List Sqe} (waiting : v.queued = 1)
      (armed : Session.Armed cfg (v.session mem sq shut) new x)
      (sized : exact' → ∀ q ∈ x.mem.requests, q.Exact cfg.pageSize) :
      Move cfg rules exact' v { v.worked x new with queued := 0 }
  | begun {n : Int} {mem : Ledger} {sq : Chains} {shut : List Int}
      (waiting : v.tasks = [⟨v.obj, n, false⟩]) :
      Move cfg rules exact' v
        { v.worked ((v.session mem sq shut).setUserSpace.fired (.onRead n)) [] with
          tasks := [⟨v.obj, n, true⟩] }
  | called {n : Int} {mem : Ledger} {sq : Chains} {shut : List Int} {op : ConnOp}
      {x : Session} (running : v.tasks = [⟨v.obj, n, true⟩])
      (called : (v.session mem sq shut).call cfg.source op = some x) (call : rules.call op)
      (sized : exact' → ∀ q ∈ x.mem.requests, q.Exact cfg.pageSize) :
      Move cfg rules exact' v (v.worked x [])
  | returned {n : Int} {op : AsyncOp} (running : v.tasks = [⟨v.obj, n, true⟩])
      (next : Worker.nextAsyncOp v.conn = some op) :
      Move cfg rules exact' v
        { v with conn := { v.conn with nextAsyncOp := op }, tasks := [], queued := v.queued + 1 }
  /-- The shutdown sweep requests the close. -/
  | swept {mem : Ledger} {sq : Chains} {shut : List Int} (idle : v.Idle)
      (found : rules.sweep v) :
      Move cfg rules exact' v (v.worked ((v.session mem sq shut).addCloseConnRequest true).2
        [(v.session mem sq shut).closing])
  /-- The kernel stores received bytes. -/
  | received {q : Sqe} {rest : List Sqe} {nonempty : Bool} {data : List UInt8}
      (first : v.todo = q :: rest) (flag : q.flag = .read) (fits : data.length ≤ q.len)
      (apart : v.conn.outboundBuffer.bind (fun rb => rb.vm.map addr) ≠
        some q.addr.region) :
      Move cfg rules exact' v
        { v with conn := v.conn.deposit q.addr data, todo := rest
                 done := v.done ++ [⟨q, data.length, nonempty, data⟩] }
  /-- The kernel takes bytes to be sent. -/
  | sent {q : Sqe} {rest : List Sqe} {res : Int} {nonempty : Bool} {data : List UInt8}
      {rb : RingBuffer} {m : VirtualMem} (first : v.todo = q :: rest) (flag : q.flag = .write)
      (fine : 0 ≤ res) (fits : res ≤ q.len) (taken : rules.send q res)
      (present : v.conn.outboundBuffer = some rb) (memory : rb.vm = some m)
      (bytes : m.slice? q.addr.offset (q.addr.offset + res) = some data) :
      Move cfg rules exact' v
        { v with history := { v.history with taken := v.history.taken ++ data }, todo := rest
                 done := v.done ++ [⟨q, res, nonempty, data⟩] }
  /-- The kernel closes the descriptor. -/
  | closed {q : Sqe} {rest : List Sqe} {res : Int} {nonempty : Bool} {data : List UInt8}
      (first : v.todo = q :: rest) (flag : q.flag = .close) (fine : 0 ≤ res) :
      Move cfg rules exact' v
        { v with history := { v.history with closes := v.history.closes + 1 }, todo := rest
                 done := v.done ++ [⟨q, res, nonempty, data⟩] }
  /-- A request fails and what is linked to it is cancelled. -/
  | failed {q : Sqe} {rest : List Sqe} {res : Int} {nonempty : Bool} {data : List UInt8}
      (first : v.todo = q :: rest) (error : res < 0) :
      Move cfg rules exact' v
        { v with history := if q.flag = .write then { v.history with sendFailed := true }
                   else v.history
                 todo := []
                 done := v.done ++ ⟨q, res, nonempty, data⟩ :: rest.map Sqe.cancelled }
  /-- A request of another connection fails that these are linked to. -/
  | cancelled :
      Move cfg rules exact' v
        { v with todo := [], done := v.done ++ v.todo.map Sqe.cancelled }

/-- The end of a connection, with its history. -/
inductive Ends (cfg : Config) (rules : Rules) (v : View) : History → Prop
  | eof {c : Cqe} {rest : List Cqe} (first : v.done = c :: rest) (state : v.conn.state = .read)
      (nothing : c.res = 0) (allowed : rules.eof) :
      Ends cfg rules v { v.history with
        word := v.history.word ++ [.onClose (some .eof)], released := true }
  | failed {c : Cqe} {rest : List Cqe} {mem : Ledger} {sq : Chains}
      {shut : List Int} {ops : List ConnOp} {x : Session} {err : Error}
      (first : v.done = c :: rest) (fine : 0 ≤ c.res)
      (prelude : Session.Prelude cfg ops c (v.session mem sq shut) x) (allowed : rules.full)
      (more : c.sqe.flag = .read → c.nonempty = true → rules.more) :
      Ends cfg rules v { x.history with
        word := x.history.word ++ [.onClose (some err)], released := true }
  | closed {c : Cqe} {rest : List Cqe} (first : v.done = c :: rest)
      (state : v.conn.state = .close) (flag : c.sqe.flag = .close) (fine : 0 ≤ c.res) :
      Ends cfg rules v { v.history with
        word := v.history.word ++ [.onClose none], released := true }

/-- A connection that has just been entered under a key. -/
structure Entrance (k : Int) (exact' : Prop) (v : View) : Prop where
  idle : v.Idle
  fd : v.conn.fd = k
  stream : v.conn.network = .tcp
  state : v.conn.state = .invalid
  open' : v.conn.closed = false
  history : v.history = {}
  blank : exact' → v.conn.Blank
  equipped : v.conn.Equipped

/-- A connection is entered, and announced and armed unless that failed. -/
inductive Born (cfg : Config) (rules : Rules) (exact' : Prop) (k : Int) : View → Prop
  | entered {v : View} (entrance : v.Entrance k exact') (allowed : rules.failing) :
      Born cfg rules exact' k v
  | welcomed {v : View} {mem : Ledger} {sq : Chains} {shut : List Int}
      {ops : List ConnOp} {x x' : Session} {new : List Sqe} (entrance : v.Entrance k exact')
      (called : Session.calls cfg.source ops
        ((v.session mem sq shut).setUserSpace.fired .onAccept) = some x)
      (armed : Session.Armed cfg x new x') (calls : ∀ op ∈ ops, rules.call op)
      (sized : exact' → ∀ q ∈ x'.mem.requests, q.Exact cfg.pageSize)
      (spent : new = [x.closing] → x.conn.Spent) :
      Born cfg rules exact' k (v.worked x' new)

end View

end Gain
