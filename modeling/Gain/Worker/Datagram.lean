import Gain.Buffer.Outbox
import Gain.Worker.Bytes
import Gain.Worker.Ownership
import Gain.Worker.Vacancy

/-! # Serving datagrams, one step at a time

A datagram server has one socket. The bytes of a receive on it are moved, with
their buffers and the message header, to a forked connection, and the main
connection is equipped anew and armed again. What the code does then is done to
the fork, whose end is the completion of its send.
-/

namespace Gain

open Function List Option RingBuffer

variable {rb : RingBuffer} {env : Env}

/-- All free buffers are idle. -/
def BufferPool.Idle (p : BufferPool) : Prop := ∀ rb ∈ p.pool.items, rb.Idle

/-- The handler writes at least one byte with `Write`. -/
def Env.Replies (env : Env) : Prop := env.handler.any ConnOp.replies = true

instance (env : Env) : Decidable env.Replies := inferInstanceAs (Decidable (_ = true))

namespace Session

variable {cfg : Config} {x x' : Session} {err : Option Error} {ops : List ConnOp} {n : Int}

/-- A receive request of a message names the header as it is, also when the buffer had to
grow. -/
theorem addReadRequest_msg (udp : cfg.sendRecvMsg = true)
    (armed : x.addReadRequest cfg true = some (err, x')) :
    err = none ∧ ∃ rb rb' mem, x.conn.inboundBuffer = some rb ∧
      rb.growIfUnsufficientFreeSpace cfg.source x.mem = some (rb', mem) ∧
      x' = { x with
        conn := { x.conn with
          inboundBuffer := some rb', state := .read, mode := .kernelSpace }
        mem := mem
        sq := x.sq.push { flag := .read, key := x.conn.key, fd := x.conn.fd
                          addr := (x.conn.msgHdr.getD ⟨⟨0, 0⟩, 0⟩).base
                          len := (x.conn.msgHdr.getD ⟨⟨0, 0⟩, 0⟩).len
                          obj := x.obj, life := x.conn.life } } := by
  obtain ⟨rb, present, rest⟩ := bind_eq_some_iff.mp armed
  obtain ⟨⟨rb', mem⟩, grown, rest⟩ := bind_eq_some_iff.mp rest
  obtain ⟨entry, found, last⟩ := bind_eq_some_iff.mp rest
  simp only [recvEntry, udp, if_true] at found
  cases found
  cases last
  exact ⟨rfl, rb, rb', mem, present, grown, rfl⟩

/-- A send of a message carries the content of the outbound buffer. -/
theorem writeData_msg (udp : cfg.sendRecvMsg = true) {sqe : Nat → Bool} (free : sqe 0 = true)
    (open' : x.conn.closed = false) (done : x.writeData cfg sqe = some (err, x')) :
    err = none ∧ ∃ rb addr, x.conn.outboundBuffer = some rb ∧ rb.readAddress = some addr ∧
      x' = { x with
        conn := { x.conn with
          msgHdr := some ⟨addr, rb.buffered⟩, state := .write, mode := .kernelSpace }
        sq := x.sq.push { flag := .write, key := x.conn.key, fd := x.conn.fd, addr := addr
                          len := rb.buffered, obj := x.obj, life := x.conn.life } } := by
  simp only [writeData, udp, if_true] at done
  obtain ⟨conn, headed, rest⟩ := bind_eq_some_iff.mp done
  obtain ⟨rb, present, headed⟩ := bind_eq_some_iff.mp headed
  obtain ⟨addr, address, headed⟩ := bind_eq_some_iff.mp headed
  obtain ⟨header, _, headed⟩ := bind_eq_some_iff.mp headed
  have same : { x.conn with msgHdr := some ⟨addr, rb.buffered⟩ } = conn := Option.some.inj headed
  have still : conn.closed = false := by
    rw [← same]
    exact open'
  obtain ⟨⟨first, x₁⟩, wrote, rest⟩ := bind_eq_some_iff.mp rest
  dsimp only at wrote rest
  rw [still, free] at wrote
  rw [still] at rest
  obtain ⟨entry, found, last⟩ := bind_eq_some_iff.mp wrote
  simp only [sendEntry, udp, if_true] at found
  subst same
  cases found
  cases last
  cases rest
  exact ⟨rfl, rb, addr, present, address, rfl⟩

/-- The session has only been worked on in its buffers and its history. -/
structure Confined (x x' : Session) : Prop where
  conn : ∃ inbound outbound, x'.conn = { x.conn with
    inboundBuffer := inbound, outboundBuffer := outbound }
  obj : x'.obj = x.obj
  sq : x'.sq = x.sq
  shut : x'.shut = x.shut

theorem Confined.trans {x₁ : Session} (first : Confined x x₁) (second : Confined x₁ x') :
    Confined x x' := by
  obtain ⟨inbound, outbound, conn⟩ := first.conn
  obtain ⟨inbound', outbound', conn'⟩ := second.conn
  refine ⟨⟨inbound', outbound', ?_⟩, second.obj.trans first.obj, second.sq.trans first.sq,
    second.shut.trans first.shut⟩
  rw [conn', conn]

/-- A handler has no other hold on the connection of a datagram: `Close` does nothing. -/
theorem Method.confined (method : Method cfg x x') (udp : x.conn.network = .udp) :
    Confined x x' := by
  cases method with
  | refused | inbound _ _ _ | outbound _ _ _ => exact ⟨⟨_, _, rfl⟩, rfl, rfl, rfl⟩
  | close =>
    unfold Session.close Connection.close
    rw [if_pos udp]
    exact ⟨⟨_, _, rfl⟩, rfl, rfl, rfl⟩

theorem calls_confined (udp : x.conn.network = .udp) (done : calls cfg.source ops x = some x') :
    Confined x x' := by
  induction ops generalizing x with
  | nil =>
    cases done
    exact ⟨⟨_, _, rfl⟩, rfl, rfl, rfl⟩
  | cons op ops ih =>
    obtain ⟨x₁, first, rest⟩ := bind_eq_some_iff.mp done
    have confined := (call_method first).confined udp
    obtain ⟨inbound, outbound, conn⟩ := confined.conn
    exact confined.trans (ih (by rw [conn]; exact udp) rest)

/-- In user space nothing is refused on an open connection. -/
theorem userOpAllowed_eq_none (open' : x.conn.closed = false) (mode : x.conn.mode = .userSpace)
    (name : String) : x.conn.userOpAllowed name = none := by
  simp only [Connection.userOpAllowed, open', mode, Bool.false_eq_true, if_false, if_true]

/-- After the calls of a handler that replies there is something to send. -/
theorem calls_replied (udp : x.conn.network = .udp) (open' : x.conn.closed = false)
    (mode : x.conn.mode = .userSpace) (present : x.conn.outboundBuffer = some rb)
    (outbox : rb.Outbox) (done : calls cfg.source ops x = some x') :
    ∃ rb', x'.conn.outboundBuffer = some rb' ∧ rb'.Outbox ∧
      (rb.isEmpty = false ∨ ops.any ConnOp.replies = true → rb'.isEmpty = false) := by
  induction ops generalizing x rb with
  | nil =>
    cases done
    exact ⟨rb, present, outbox, fun some' => some'.resolve_right (by simp)⟩
  | cons op ops ih =>
    obtain ⟨x₁, first, rest⟩ := bind_eq_some_iff.mp done
    obtain ⟨_, _, conn⟩ := ((call_method first).confined udp).conn
    have allowed := userOpAllowed_eq_none open' mode
    have step : ∃ rb₁, x₁.conn.outboundBuffer = some rb₁ ∧ rb₁.Outbox ∧
        (rb.isEmpty = false ∨ op.replies = true → rb₁.isEmpty = false) := by
      rcases call_outboundBuffer first with
        ⟨same, _, silent⟩ | ⟨buffer, rfl⟩ | ⟨chunks, last, final, rfl⟩
      · refine ⟨rb, same.trans present, outbox, fun either => either.resolve_right ?_⟩
        rw [silent]
        exact Bool.false_ne_true
      · simp only [call, write, onOutbound, allowed, present, bind_some] at first
        obtain ⟨⟨reply, y⟩, ran, rfl⟩ := map_eq_some_iff.mp first
        obtain ⟨⟨n, rb₁, mem⟩, wrote, last⟩ := bind_eq_some_iff.mp ran
        cases last
        obtain ⟨outbox₁, some'⟩ := outbox.write wrote
        refine ⟨rb₁, rfl, outbox₁, fun either => some' (either.imp id fun replies => ?_)⟩
        simpa [ConnOp.replies] using replies
      · simp only [call, readFrom, onOutbound, allowed, present, bind_some] at first
        obtain ⟨⟨reply, y⟩, ran, rfl⟩ := map_eq_some_iff.mp first
        obtain ⟨⟨n, rb₁, mem⟩, wrote, last⟩ := bind_eq_some_iff.mp ran
        cases last
        obtain ⟨outbox₁, some'⟩ := outbox.readFrom wrote
        exact ⟨rb₁, rfl, outbox₁, fun _ => some'⟩
    obtain ⟨rb₁, present₁, outbox₁, some₁⟩ := step
    obtain ⟨rb', present', outbox', some'⟩ := ih (by rw [conn]; exact udp)
      (by rw [conn]; exact open') (by rw [conn]; exact mode) present₁ outbox₁ rest
    refine ⟨rb', present', outbox', fun either => some' ?_⟩
    rw [any_cons, Bool.or_eq_true] at either
    rcases either with before | mine | later
    · exact Or.inl (some₁ (Or.inl before))
    · exact Or.inl (some₁ (Or.inr mine))
    · exact Or.inr later

/-- A handler that replies is followed by a send of what it has written. -/
theorem workAndArm_replied (udp : cfg.sendRecvMsg = true) (free : env.sqe 0 = true)
    (replies : env.Replies) (network : x.conn.network = .udp) (open' : x.conn.closed = false)
    (present : x.conn.outboundBuffer = some rb) (outbox : rb.Outbox)
    (done : x.workAndArm cfg env n = some (err, x')) :
    err = none ∧ ∃ x₁ rb' addr,
      calls cfg.source env.handler (x.setUserSpace.fired (.onRead n)) = some x₁ ∧
      Confined (x.setUserSpace.fired (.onRead n)) x₁ ∧
      x₁.conn.outboundBuffer = some rb' ∧ rb'.readAddress = some addr ∧
      x' = { x₁ with
        conn := { x₁.conn with
          msgHdr := some ⟨addr, rb'.buffered⟩, state := .write, mode := .kernelSpace }
        sq := x₁.sq.push { flag := .write, key := x₁.conn.key, fd := x₁.conn.fd, addr := addr
                           len := rb'.buffered, obj := x₁.obj, life := x₁.conn.life } } := by
  obtain ⟨x₁, worked, rest⟩ := bind_eq_some_iff.mp done
  have confined := calls_confined (x := x.setUserSpace.fired (.onRead n)) network worked
  obtain ⟨_, _, conn⟩ := confined.conn
  obtain ⟨rb', present', outbox', some'⟩ :=
    calls_replied (x := x.setUserSpace.fired (.onRead n)) network open' rfl present outbox worked
  have pending : rb'.buffered > 0 := outbox'.buffered_pos (some' (Or.inr replies))
  simp only [Connection.outboundBuffered, present', map_some, bind_eq_bind,
    bind_some, if_pos pending] at rest
  have still : x₁.conn.closed = false := by
    rw [conn]
    exact open'
  obtain ⟨rfl, rb₁, addr, same, address, rfl⟩ := writeData_msg udp free still rest
  cases present'.symm.trans same
  exact ⟨rfl, x₁, rb', addr, worked, confined, present', address, rfl⟩

/-- What was asked of the memory pool before a handler ran is part of what was asked. -/
theorem workAndArm_exact (udp : cfg.sendRecvMsg = true) (free : env.sqe 0 = true)
    (replies : env.Replies) (network : x.conn.network = .udp) (open' : x.conn.closed = false)
    (present : x.conn.outboundBuffer = some rb) (outbox : rb.Outbox)
    (done : x.workAndArm cfg env n = some (err, x'))
    (exact' : ∀ q ∈ x'.mem.requests, q.Exact cfg.pageSize) :
    ∀ q ∈ x.mem.requests, q.Exact cfg.pageSize := by
  obtain ⟨_, x₁, _, _, called, _, _, _, rfl⟩ :=
    workAndArm_replied udp free replies network open' present outbox done
  exact (calls_frame called).exact_before exact'

/-- Where the handler starts with nothing written, the send carries what it has written. -/
theorem workAndArm_written (udp : cfg.sendRecvMsg = true) (free : env.sqe 0 = true)
    (replies : env.Replies) (faithful : ∀ op ∈ env.handler, op.faithful = true)
    (network : x.conn.network = .udp) (open' : x.conn.closed = false) {l : Layout}
    (present : x.conn.outboundBuffer = some l.toRing) (outbox : l.toRing.Outbox)
    (empty : l.isEmpty = true) (blank : x.history.written = [])
    (done : x.workAndArm cfg env n = some (err, x'))
    (exact' : ∀ q ∈ x'.mem.requests, q.Exact cfg.pageSize) :
    ∃ (x₁ : Session) (l' : Layout),
      calls cfg.source env.handler (x.setUserSpace.fired (.onRead n)) = some x₁ ∧
      Confined (x.setUserSpace.fired (.onRead n)) x₁ ∧
      x₁.conn.outboundBuffer = some l'.toRing ∧ x₁.history.written = l'.content ∧
      x' = { x₁ with
        conn := { x₁.conn with
          msgHdr := some ⟨⟨l'.mem.addr, l'.r⟩, l'.count⟩, state := .write, mode := .kernelSpace }
        sq := x₁.sq.push { flag := .write, key := x₁.conn.key, fd := x₁.conn.fd
                           addr := ⟨l'.mem.addr, l'.r⟩, len := l'.count
                           obj := x₁.obj, life := x₁.conn.life } } := by
  obtain ⟨_, x₁, rb, addr, called, confined, ready, address, rfl⟩ :=
    workAndArm_replied udp free replies network open' present outbox done
  obtain ⟨l', bytes, ready', content, written⟩ :=
    calls_written (x := x.setUserSpace.fired (.onRead n)) present faithful called exact'
  cases ready.symm.trans ready'
  rw [l'.toRing_readAddress] at address
  cases address
  refine ⟨x₁, l', called, confined, ready, ?_, ?_⟩
  · rw [written, content, l.content_eq_nil_iff.mpr empty]
    exact congrArg (· ++ bytes) blank
  · rw [l'.toRing_buffered]

end Session

namespace Worker

variable {w w' : Worker} {o f : Nat} {err : Option Error}

/-- The main connection `o` has been forked: its buffers, its header and the sender's address
went to the new connection `f`, and it was equipped with two other buffers. -/
structure Forked (w : Worker) (o f : Nat) (base : Connection) (inbound outbound : RingBuffer)
    (w' : Worker) : Prop where
  taken : Taken w f base w'
  fork : ∃ rb addr, (w.heap o).outboundBuffer = some rb ∧ rb.readAddress = some addr ∧
    w'.heap f = { base with
      inboundBuffer := (w.heap o).inboundBuffer, outboundBuffer := (w.heap o).outboundBuffer
      msgHdr := some ⟨addr, rb.buffered⟩, rawSockaddr := (w.heap o).rawSockaddr
      state := (w.heap o).state, fd := (w.heap o).fd, key := w.forkKey, network := .udp
      remoteAddr := (w.heap o).rawSockaddr.or base.remoteAddr, life := w.nextLife }
  main : ∃ addr, inbound.writeAddress = some addr ∧ w'.heap o = { w.heap o with
    inboundBuffer := some inbound, outboundBuffer := some outbound
    msgHdr := some ⟨addr, inbound.cap⟩, rawSockaddr := none }
  others : ∀ i, i ≠ f → i ≠ o → w'.heap i = w.heap i
  frame : w' = { w with
    heap := w'.heap, nextObj := w'.nextObj, connPool := w'.connPool, bufPool := w'.bufPool
    mem := w'.mem, keyPool := w.keyPool.get.2, connections := w.connections.insert w.forkKey f
    connectionsCount := addInt32 w.connectionsCount 1, nextLife := w.nextLife + 1 }
  all : ∀ {p : RingBuffer → Prop}, (∀ rb ∈ w.bufPool.pool.items, p rb) →
    (∀ l, p (RingBuffer.newMagicBuffer w.cfg.source w.bufPool.defaultSize l).1) →
    p inbound ∧ p outbound ∧ ∀ rb ∈ w'.bufPool.pool.items, p rb
  requests : ∃ made, w'.mem.requests = w.mem.requests ++ made
  supplied : Supplied w.regions w.mem.pool.nextAddr w'.regions w'.mem.pool.nextAddr
  blank : w.Shelved → w'.Shelved ∧ (w'.Exact → inbound.Blank ∧ outbound.Blank)

/-- The regions when the buffers of `o` have gone to `f` and `o` has two others. -/
theorem sum_fork (heap : Nat → Connection) {n : Nat} (lt : o < n) (lt' : f < n) (ne : f ≠ o)
    {forked main : Connection} {inbound outbound : RingBuffer}
    (took : forked.regions = (heap o).regions)
    (equipped : main.regions = inbound.regions + outbound.regions) :
    ∑ i ∈ Finset.range n, (update (update heap o main) f forked i).regions ≤
      inbound.regions + outbound.regions + ∑ i ∈ Finset.range n, (heap i).regions := by
  have moved : ∀ i, (update (update heap o main) f forked i).regions =
      update (update (fun i => (heap i).regions) o main.regions) f
        forked.regions i := by
    intro i
    by_cases new : i = f
    · subst new
      simp only [update_self]
    · by_cases old : i = o
      · subst old
        simp only [update_of_ne new, update_self]
      · simp only [update_of_ne new, update_of_ne old]
  have inside : o ∈ Finset.range n \ {f} :=
    Finset.mem_sdiff.mpr ⟨Finset.mem_range.mpr lt, by simpa using ne.symm⟩
  have whole := sum_update heap lt (heap o)
  rw [update_eq_self] at whole
  simp only [moved]
  rw [Finset.sum_update_of_mem (Finset.mem_range.mpr lt'), Finset.sum_update_of_mem inside, took,
    equipped, whole, add_left_comm]
  refine Multiset.add_le_add_left (Multiset.add_le_add_left (Finset.sum_le_sum_of_subset ?_))
  exact Finset.sdiff_subset_sdiff Finset.sdiff_subset subset_rfl

/-- The steps of `connectionManager.fork`. -/
theorem fork_forked (bound : ∀ o ∈ w.connPool.items, o < w.nextObj) (lt : o < w.nextObj)
    (used : o ∉ w.connPool.items) (done : w.fork o true = some (f, w')) :
    ∃ base inbound outbound, Forked w o f base inbound outbound w' := by
  rcases keyed : w.keyPool.get with ⟨key, keyPool⟩
  obtain ⟨base, obtained⟩ := getConnection_obtained { w with keyPool := keyPool } bound
  have size := getConnection_defaultSize { w with keyPool := keyPool }
  have kept : ∀ {property : RingBuffer → Prop}, (∀ rb ∈ w.bufPool.pool.items, property rb) →
      (∀ l, property (RingBuffer.newMagicBuffer w.cfg.source w.bufPool.defaultSize l).1) → _ :=
    fun all made => (getConnection_all (w := { w with keyPool := keyPool }) all made).1
  rcases got : getConnection { w with keyPool := keyPool } with ⟨f', w₁⟩
  rw [got] at obtained kept size
  change Obtained { w with keyPool := keyPool } f' base w₁ at obtained
  simp only [fork, keyed, got] at done
  obtain ⟨forked, headed, rest⟩ := bind_eq_some_iff.mp done
  obtain ⟨rb, present, headed⟩ := bind_eq_some_iff.mp headed
  obtain ⟨addr, address, headed⟩ := bind_eq_some_iff.mp headed
  obtain ⟨header, _, headed⟩ := bind_eq_some_iff.mp headed
  cases headed
  rcases first : w₁.bufPool.get w₁.cfg.source w₁.mem with ⟨inbound, bufPool₁, mem₁⟩
  rcases second : bufPool₁.get w₁.cfg.source mem₁ with ⟨outbound, bufPool, mem⟩
  simp only [first, second] at rest
  obtain ⟨main, initialised, last⟩ := bind_eq_some_iff.mp rest
  obtain ⟨front, address', initialised⟩ := bind_eq_some_iff.mp initialised
  cases initialised
  cases last
  have ne := (obtained.ne lt used).symm
  obtain ⟨after, mono⟩ := obtained.lt bound
  have main : w₁.heap o = w.heap o := obtained.others o ne.symm
  have life : w₁.nextLife = w.nextLife := by rw [obtained.frame]
  obtain ⟨_, _, conn⟩ := obtained.conn
  have handed := BufferPool.handed first second
  refine ⟨base, inbound, outbound, ?_⟩
  constructor
  case taken => exact ⟨obtained.source, obtained.pool⟩
  case fork =>
    rw [main] at present
    refine ⟨rb, addr, present, address, ?_⟩
    simp only [register, update_self, setConn, conn, main, life, forkKey, keyed]
  case main =>
    refine ⟨front, address', ?_⟩
    simp only [register, setConn, update_of_ne ne.symm, update_self, main]
  case others =>
    intro i new old
    simp only [register, setConn, update_of_ne new, update_of_ne old]
    exact obtained.others i new
  case frame =>
    rw [forkKey, keyed, obtained.frame]
    rfl
  case all =>
    intro p all made
    have config : w₁.cfg = w.cfg := by rw [obtained.frame]
    have shelf := kept all made
    rw [← config, ← show w₁.bufPool.defaultSize = w.bufPool.defaultSize from size] at made
    obtain ⟨one, all⟩ := BufferPool.get_all shelf made first
    rw [← BufferPool.get_defaultSize first] at made
    obtain ⟨two, all⟩ := BufferPool.get_all all made second
    exact ⟨one, two, all⟩
  case requests =>
    obtain ⟨made, appended⟩ := obtained.requests
    obtain ⟨more, appended'⟩ := handed.requests
    refine ⟨made ++ more, ?_⟩
    change mem.requests = _
    rw [appended', appended, append_assoc]
  case supplied =>
    refine obtained.supplied.trans (supplied_of_buffers w₁ handed.supplied ?_)
    exact sum_fork w₁.heap (lt.trans_le mono) after ne rfl rfl
  case blank =>
    intro shelved
    obtain ⟨shelved, _⟩ := obtained.blank shelved
    obtain ⟨default, blank⟩ := shelved.handed handed
    exact ⟨⟨default, fun exact' => (blank exact').2.2⟩,
      fun exact' => ⟨(blank exact').1, (blank exact').2.1⟩⟩

/-- The bytes of a receive on the main connection `o` have gone to the fork `f`, and the main
connection is armed again with a header made before its buffer could grow. -/
structure Parted (w : Worker) (c : Cqe) (o f : Nat) (base : Connection)
    (inbound grown outbound : RingBuffer) (w' : Worker) : Prop where
  taken : Taken w f base w'
  fork : ∃ rb rb' out addr, (w.heap o).inboundBuffer = some rb ∧
    rb.advanceWrite c.res = some rb' ∧ (w.heap o).outboundBuffer = some out ∧
    out.readAddress = some addr ∧ w'.heap f = { base with
      inboundBuffer := some rb', outboundBuffer := some out
      msgHdr := some ⟨addr, out.buffered⟩, rawSockaddr := (w.heap o).rawSockaddr
      state := (w.heap o).state, fd := (w.heap o).fd, key := w.forkKey, network := .udp
      localAddr := w.cfg.localAddr, remoteAddr := (w.heap o).rawSockaddr.or base.remoteAddr
      life := w.nextLife }
  main : ∃ addr mem, inbound.writeAddress = some addr ∧
    inbound.growIfUnsufficientFreeSpace w.cfg.source mem = some (grown, w'.mem) ∧
    w'.heap o = { w.heap o with
      inboundBuffer := some grown, outboundBuffer := some outbound
      msgHdr := some ⟨addr, inbound.cap⟩, rawSockaddr := none, state := .read
      mode := .kernelSpace } ∧
    w'.sq = w.sq.push { flag := .read, key := (w.heap o).key, fd := (w.heap o).fd, addr := addr
                        len := inbound.cap, obj := o, life := (w.heap o).life }
  others : ∀ i, i ≠ f → i ≠ o → w'.heap i = w.heap i
  frame : w' = { w with
    heap := w'.heap, nextObj := w'.nextObj, connPool := w'.connPool, bufPool := w'.bufPool
    mem := w'.mem, keyPool := w.keyPool.get.2, connections := w.connections.insert w.forkKey f
    connectionsCount := addInt32 w.connectionsCount 1, nextLife := w.nextLife + 1, sq := w'.sq
    histories := update w.histories (w.heap o).life { w.histories (w.heap o).life with
      delivered := (w.histories (w.heap o).life).delivered ++ c.data } }
  all : ∀ {p : RingBuffer → Prop}, (∀ rb ∈ w.bufPool.pool.items, p rb) →
    (∀ l, p (RingBuffer.newMagicBuffer w.cfg.source w.bufPool.defaultSize l).1) →
    p inbound ∧ p outbound ∧ ∀ rb ∈ w'.bufPool.pool.items, p rb
  requests : ∃ made, w'.mem.requests = w.mem.requests ++ made
  supplied : Supplied w.regions w.mem.pool.nextAddr w'.regions w'.mem.pool.nextAddr
  blank : w.Shelved → w'.Shelved ∧ (w'.Exact → inbound.Blank ∧ outbound.Blank)

section Parted

variable {c : Cqe} {base : Connection} {inbound grown outbound : RingBuffer}

variable (parted : Parted w c o f base inbound grown outbound w')
include parted

theorem Parted.idle (idle : w.bufPool.Idle) : inbound.Idle ∧ outbound.Idle ∧ w'.bufPool.Idle :=
  parted.all idle (newMagicBuffer_idle _ _)

theorem Parted.lookup_self : w'.connections.lookup w.forkKey = some f := by
  rw [parted.frame]
  exact AList.lookup_insert _

/-- What is registered after a fork is the fork or was registered before. -/
theorem Parted.lookup_cases {k : Int} {i : Nat} (found : w'.connections.lookup k = some i) :
    (k = w.forkKey ∧ i = f) ∨ (k ≠ w.forkKey ∧ w.connections.lookup k = some i) := by
  by_cases same : k = w.forkKey
  · subst same
    rw [parted.lookup_self] at found
    cases found
    exact Or.inl ⟨rfl, rfl⟩
  · rw [parted.frame] at found
    rw [AList.lookup_insert_ne same] at found
    exact Or.inr ⟨same, found⟩

/-- Apart from the bytes delivered to the main connection nothing is written down. -/
theorem Parted.histories (life : Nat) :
    ∃ delivered, w'.histories life = { w.histories life with delivered := delivered } := by
  have noted : w'.histories = update w.histories (w.heap o).life
      { w.histories (w.heap o).life with
        delivered := (w.histories (w.heap o).life).delivered ++ c.data } := by rw [parted.frame]
  rw [noted]
  by_cases mine : life = (w.heap o).life
  · subst mine
    exact ⟨_, update_self ..⟩
  · exact ⟨_, update_of_ne mine ..⟩

end Parted

/-- The receiver of a datagram is a fork; the main connection is armed with its new header. -/
theorem receiver_forked (udp : w.cfg.sendRecvMsg = true)
    (bound : ∀ o ∈ w.connPool.items, o < w.nextObj) (lt : o < w.nextObj)
    (used : o ∉ w.connPool.items) (free : env.sqe 0 = true)
    (done : w.receiver env o = some ((err, f), w')) :
    err = none ∧ ∃ base inbound outbound w₁ grown mem,
      Forked w o f base inbound outbound w₁ ∧
      inbound.growIfUnsufficientFreeSpace w.cfg.source w₁.mem = some (grown, mem) ∧
      w' = { w₁ with
        heap := update
          (update w₁.heap f { w₁.heap f with localAddr := w.cfg.localAddr }) o
          { w₁.heap o with inboundBuffer := some grown, state := .read, mode := .kernelSpace }
        mem := mem
        sq := w₁.sq.push { flag := .read, key := (w₁.heap o).key, fd := (w₁.heap o).fd
                           addr := ((w₁.heap o).msgHdr.getD ⟨⟨0, 0⟩, 0⟩).base
                           len := ((w₁.heap o).msgHdr.getD ⟨⟨0, 0⟩, 0⟩).len
                           obj := o, life := (w₁.heap o).life } } := by
  simp only [receiver, udp, if_true] at done
  obtain ⟨⟨f', w₁⟩, forking, rest⟩ := bind_eq_some_iff.mp done
  obtain ⟨⟨err', w₂⟩, arming, last⟩ := bind_eq_some_iff.mp rest
  cases last
  dsimp only at arming
  obtain ⟨base, inbound, outbound, forked⟩ := fork_forked bound lt used forking
  obtain ⟨y, armed, rfl⟩ := within_eq arming
  have config : w₁.cfg = w.cfg := by rw [forked.frame]
  have udp₁ : w₁.cfg.sendRecvMsg = true := by rw [config, udp]
  rw [free] at armed
  obtain ⟨rfl, rb, grown, mem, inside, grew, rfl⟩ := Session.addReadRequest_msg udp₁ armed
  have ne := (forked.taken.ne lt used).symm
  have main : (w₁.setConn f' { w₁.heap f' with localAddr := w₁.cfg.localAddr }).session o =
      w₁.session o := by
    simp only [session, setConn, update_of_ne ne.symm]
  simp only [main] at inside grew
  obtain ⟨front, _, conn⟩ := forked.main
  have same : some rb = some inbound := by
    rw [← inside]
    exact congrArg Connection.inboundBuffer conn
  cases same
  refine ⟨rfl, base, inbound, outbound, w₁, grown, mem, forked, ?_, ?_⟩
  · rw [← config]
    exact grew
  · rw [main]
    simp only [setSession, session, setConn, update_eq_self, config]

/-- The steps of a receive on the main connection. -/
theorem receiver_parted (udp : w.cfg.sendRecvMsg = true)
    (bound : ∀ o ∈ w.connPool.items, o < w.nextObj) (lt : o < w.nextObj)
    (used : o ∉ w.connPool.items) (free : env.sqe 0 = true) {c : Cqe} {x : Session}
    (received : (w.session o).onKernelRead c = some x)
    (done : (w.setSession x).receiver env o = some ((err, f), w')) :
    err = none ∧ ∃ base inbound grown outbound, Parted w c o f base inbound grown outbound w' := by
  obtain ⟨rb, rb', present, moved, same⟩ := Session.onKernelRead_eq received
  obtain ⟨rfl, base, inbound, outbound, w₁, grown, mem, forked, grew, rfl⟩ :=
    receiver_forked (w := w.setSession x) udp bound lt used free done
  have ne := (forked.taken.ne lt used).symm
  have mine : (w.setSession x).heap o = { w.heap o with inboundBuffer := some rb' } := by
    rw [same]
    exact update_self ..
  have others : ∀ i, i ≠ o → (w.setSession x).heap i = w.heap i := by
    intro i old
    rw [same]
    exact update_of_ne old ..
  obtain ⟨out, addr, present', address, conn⟩ := forked.fork
  obtain ⟨front, address', main⟩ := forked.main
  rw [mine] at present' conn main
  have queue : w₁.sq = w.sq := by
    rw [forked.frame, same]
    rfl
  have supplies : RingBuffer.Supplies w.cfg.pageSize inbound w₁.mem grown mem :=
    .of_resized (growWhen_resized grew)
  refine ⟨rfl, base, inbound, grown, outbound, ?_⟩
  constructor
  case taken =>
    refine ⟨?_, forked.taken.pool⟩
    rcases forked.taken.source with ⟨member, fresh, next⟩ | new
    · rw [others f ne] at fresh
      exact Or.inl ⟨member, fresh, next⟩
    · exact Or.inr new
  case fork =>
    refine ⟨rb, rb', out, addr, present, moved, present', address, ?_⟩
    simp only [update_of_ne ne, update_self, conn]
    rw [← present']
    rfl
  case main =>
    refine ⟨front, w₁.mem, address', grew, ?_, ?_⟩
    · simp only [update_self, main]
    · simp only [main, queue, getD_some]
  case others =>
    intro i new old
    simp only [update_of_ne new, update_of_ne old]
    rw [forked.others i new old, others i old]
  case frame =>
    rw [forked.frame, same]
    rfl
  case all =>
    intro p all made
    have mine := forked.all (p := p)
    rw [same] at mine
    exact mine all made
  case requests =>
    obtain ⟨made, appended⟩ := forked.requests
    obtain ⟨more, appended'⟩ := supplies.requests
    refine ⟨made ++ more, ?_⟩
    rw [appended', appended, same, append_assoc]
    rfl
  case supplied =>
    -- the main inbound buffer moves its index, the fork takes it over, the new one may grow
    have first : (w.setSession x).regions = w.regions := by
      have moves := regions_of_vm (advanceWrite_frame moved).1
      rw [same]
      refine regions_setConn w lt ?_
      change rb'.regions + _ = (w.heap o).inboundBuffer.elim 0 RingBuffer.regions + _
      rw [show (w.heap o).inboundBuffer = some rb from present, moves]
      rfl
    have second : Supplied w.regions w.mem.pool.nextAddr w₁.regions w₁.mem.pool.nextAddr := by
      have supplied := forked.supplied
      rw [first, same] at supplied
      exact supplied
    obtain ⟨after, mono⟩ := forked.taken.lt bound
    have third : (w₁.setConn f { w₁.heap f with localAddr := w.cfg.localAddr }).regions =
        w₁.regions := regions_setConn w₁ after rfl
    have main' : (w₁.setConn f { w₁.heap f with localAddr := w.cfg.localAddr }).heap o =
        w₁.heap o := update_of_ne ne.symm ..
    rw [← third] at second
    refine second.trans (supplied_setSession (x := ⟨o, { w₁.heap o with
      inboundBuffer := some grown, state := .read, mode := .kernelSpace },
      w₁.histories (w₁.heap o).life, mem, w₁.sq, w₁.shut⟩) _ (lt.trans_le mono) ?_)
    rw [main', main]
    change Supplied (inbound.regions + outbound.regions + _) _
      (grown.regions + outbound.regions + _) _
    rw [add_right_comm, add_right_comm grown.regions]
    exact supplies.regions.add outbound.regions
  case blank =>
    intro shelved
    obtain ⟨⟨default, free⟩, blank⟩ := forked.blank (by rw [same]; exact shelved)
    have before : (∀ q ∈ mem.requests, q.Exact w₁.cfg.pageSize) → w₁.Exact := by
      intro exact' q member
      obtain ⟨more, appended⟩ := supplies.requests
      refine exact' q ?_
      rw [appended]
      exact mem_append_left _ member
    exact ⟨⟨default, fun exact' => free (before exact')⟩, fun exact' => blank (before exact')⟩

/-- The key of a connection is only returned after it was reset. -/
theorem release_keyPool {key : Int} (found : w.connections.lookup key = some o)
    (done : w.release key = some w') : w'.keyPool = w.keyPool.put 0 := by
  simp only [release, found] at done
  obtain ⟨w₁, put, last⟩ := bind_eq_some_iff.mp done
  obtain ⟨p, _, rest⟩ := bind_eq_some_iff.mp put
  obtain ⟨p', _, placed⟩ := bind_eq_some_iff.mp rest
  cases placed
  cases last
  simp only [setConn, update_self]
  rfl

variable {env : Env} {c : Cqe}

variable (shard : w.cfg.kind = .shard)
include shard

/-- A completion that is no error is handled for the registered connection. -/
theorem handleEvent_found (found : w.connections.lookup c.sqe.key = some o) (fine : 0 ≤ c.res) :
    w.handleEvent env c = w.shardHandleConn env c o := by
  have passed : w.processEvent c = (false, w) := by
    unfold processEvent
    rw [if_neg (not_lt.mpr fine), if_neg (userData_ne_zero _ _)]
  simp only [handleEvent, shard, shardEvent, passed, get, found]

/-- An error only shows in the log. -/
theorem handleEvent_error (error : c.res < 0) : w.handleEvent env c = some w := by
  simp only [handleEvent, shard, shardEvent, processEvent, if_pos error]

/-- A datagram is handed to a goroutine or to the handler of its fork. -/
theorem handleEvent_received (udp : w.cfg.sendRecvMsg = true)
    (bound : ∀ o ∈ w.connPool.items, o < w.nextObj) (lt : o < w.nextObj)
    (used : o ∉ w.connPool.items) (found : w.connections.lookup c.sqe.key = some o)
    (state : (w.heap o).state = .read) (some' : 0 < c.res) (calm : c.nonempty = false)
    (free : env.sqe 0 = true) (done : w.handleEvent env c = some w') :
    ∃ f base inbound grown outbound w₁, Parted w c o f base inbound grown outbound w₁ ∧
      ((w.cfg.asyncHandler = true ∧ w' = { w₁ with tasks := w₁.tasks ++ [⟨f, c.res, false⟩] }) ∨
        (w.cfg.asyncHandler = false ∧ ∃ err x, (w₁.session f).workAndArm w.cfg
          { env with sqe := fun i => env.sqe (i + 1) } c.res = some (err, x) ∧
          (w₁.setSession x).endOnError env o err = some w')) := by
  rw [handleEvent_found shard found some'.le] at done
  simp only [shardHandleConn, state] at done
  obtain ⟨⟨err, w₂⟩, read, ended⟩ := bind_eq_some_iff.mp done
  simp only [onRead, if_neg (not_le.mpr some')] at read
  obtain ⟨⟨_, w₀⟩, counted, rest⟩ := bind_eq_some_iff.mp read
  obtain ⟨x, ran, rfl⟩ := within_eq counted
  obtain ⟨x', received, last⟩ := map_eq_some_iff.mp ran
  cases last
  obtain ⟨⟨⟨err₁, f⟩, w₁⟩, taken, rest⟩ := bind_eq_some_iff.mp rest
  obtain ⟨rfl, base, inbound, grown, outbound, parted⟩ :=
    receiver_parted udp bound lt used free received taken
  have config : w₁.cfg = w.cfg := by rw [parted.frame]
  have udp₁ : w₁.cfg.sendRecvMsg = true := by rw [config, udp]
  have same : w₁.cfg.asyncHandler = w.cfg.asyncHandler := by rw [config]
  refine ⟨f, base, inbound, grown, outbound, w₁, parted, ?_⟩
  simp only [calm, Bool.false_eq_true, false_and, if_false, udp₁, if_true, same] at rest
  cases async : w.cfg.asyncHandler with
  | true =>
    simp only [async, if_true] at rest
    cases rest
    cases ended
    exact Or.inl ⟨rfl, rfl⟩
  | false =>
    simp only [async, Bool.false_eq_true, if_false] at rest
    obtain ⟨x₁, worked, rfl⟩ := within_eq rest
    rw [config] at worked
    exact Or.inr ⟨rfl, err, x₁, worked, ended⟩

/-- When the send of a fork has completed, `OnWrite` is fired and the fork released. -/
theorem handleEvent_sent (udp : w.cfg.sendRecvMsg = true)
    (found : w.connections.lookup c.sqe.key = some o) (state : (w.heap o).state = .write)
    (fork : (w.heap o).key ≠ 1) (fine : 0 ≤ c.res) (done : w.handleEvent env c = some w') :
    ∃ x, (w.session o).onWritten w.cfg env c = some x ∧
      (w.setSession x).release ((w.setSession x).heap o).key = some w' := by
  rw [handleEvent_found shard found fine] at done
  simp only [shardHandleConn, state, udp, if_true, if_neg fork] at done
  obtain ⟨⟨_, w₁⟩, written, released⟩ := bind_eq_some_iff.mp done
  obtain ⟨x, ran, rfl⟩ := within_eq written
  obtain ⟨x', wrote, last⟩ := map_eq_some_iff.mp ran
  cases last
  exact ⟨x, wrote, released⟩

omit shard

/-- A datagram server starts with its main connection entered under the key 1 and armed. -/
theorem start_entered {cfg : Config} {streams : Streams} (shard : cfg.kind = .shard)
    (udp : cfg.sendRecvMsg = true) (started : start cfg streams = some w) :
    ∃ o base inbound grown outbound addr w₁ mem,
      Entered (init cfg streams) 1 cfg.listener o base w₁ ∧
      (w₁.heap o).inboundBuffer = some inbound ∧ (w₁.heap o).outboundBuffer = some outbound ∧
      (∀ {p : RingBuffer → Prop},
        (∀ l, p (RingBuffer.newMagicBuffer cfg.source cfg.pageSize l).1) →
        p inbound ∧ p outbound ∧ ∀ rb ∈ w₁.bufPool.pool.items, p rb) ∧
      inbound.writeAddress = some addr ∧
      inbound.growIfUnsufficientFreeSpace cfg.source w₁.mem = some (grown, mem) ∧
      w = { w₁ with
        heap := update w₁.heap o { w₁.heap o with
          inboundBuffer := some grown, msgHdr := some ⟨addr, inbound.cap⟩, rawSockaddr := none
          state := .read, mode := .kernelSpace }
        mem := mem
        sq := [[{ flag := .read, key := 1, fd := cfg.listener, addr := addr, len := inbound.cap
                  obj := o, life := (w₁.heap o).life }]] } := by
  have bound : ∀ o ∈ (init cfg streams).connPool.items, o < (init cfg streams).nextObj :=
    fun _ member => nomatch member
  rcases get_cases (init cfg streams) bound 1 cfg.listener with
    ⟨_, found, _⟩ | ⟨o, base, w₁, entered, got⟩
  · cases found
  obtain ⟨inbound, outbound, conn⟩ := entered.conn
  have present : (w₁.heap o).inboundBuffer = some inbound := by rw [conn]
  have present' : (w₁.heap o).outboundBuffer = some outbound := by rw [conn]
  have all : ∀ {p : RingBuffer → Prop},
      (∀ l, p (RingBuffer.newMagicBuffer cfg.source cfg.pageSize l).1) →
      p inbound ∧ p outbound ∧ ∀ rb ∈ w₁.bufPool.pool.items, p rb := by
    intro p made
    have empty : ∀ rb ∈ (init cfg streams).bufPool.pool.items, p rb :=
      fun _ member => nomatch member
    obtain ⟨shelf, buffers⟩ := get_all empty made got
    obtain ⟨⟨rb, here, mine⟩, rb', here', mine'⟩ := buffers entered.absent
    cases present.symm.trans here
    cases present'.symm.trans here'
    exact ⟨mine, mine', shelf⟩
  simp only [start, shard, udp, if_true, got] at started
  obtain ⟨c, initialised, rest⟩ := bind_eq_some_iff.mp started
  obtain ⟨rb, same, initialised⟩ := bind_eq_some_iff.mp initialised
  cases present.symm.trans same
  obtain ⟨addr, address, initialised⟩ := bind_eq_some_iff.mp initialised
  cases initialised
  obtain ⟨⟨err, w₂⟩, arming, last⟩ := bind_eq_some_iff.mp rest
  obtain ⟨x, armed, rfl⟩ := within_eq arming
  obtain ⟨rfl, rb, grown, mem, same, grew, rfl⟩ := Session.addReadRequest_msg udp armed
  simp only [session, setConn, update_self, present, Option.some.injEq] at same grew
  subst same
  have mine : (w₁.heap o).fd = cfg.listener ∧ (w₁.heap o).key = 1 := by
    rw [conn]
    exact ⟨rfl, rfl⟩
  have queue : w₁.sq = [] := by
    rw [entered.frame]
    rfl
  refine ⟨o, base, _, grown, outbound, addr, w₁, mem, entered, present, present', all, address,
    grew, ?_⟩
  cases last
  simp only [setSession, session, setConn, update_self, update_idem,
    update_eq_self, mine, queue, getD_some, Chains.push]

end Worker

end Gain
