import Gain.Worker.View

/-! # Connections are tidy

At any time at most one receive, one send, one close or a send and the close
behind it is underway for a connection, as its state says, and while a handler
runs in a goroutine nothing is. A request names the buffer it was made for.
-/

namespace Gain

open Function List Option RingBuffer Session VirtualMem

variable {r : Nat} {state : ConnState} {flag : Flag} {before : List Flag}

namespace RingBuffer

/-- The region of memory behind the buffer. -/
def region (rb : RingBuffer) : Option Nat := rb.vm.map addr

variable {rb : RingBuffer}

theorem region_of_addressOf {i : Int} {a : Address} (address : rb.addressOf i = some a) :
    rb.region = some a.region := by
  obtain ⟨m, present, rest⟩ := bind_eq_some_iff.mp address
  obtain ⟨_, _, rfl⟩ := map_eq_some_iff.mp rest
  rw [region, present, map_some]

theorem mem_regions_of_region (region : rb.region = some r) : r ∈ rb.regions := by
  obtain ⟨m, memory, same⟩ := map_eq_some_iff.mp region
  rw [← same]
  change m.addr ∈ (rb.vm.toList.map addr : List Nat)
  rw [memory]
  exact mem_singleton_self _

@[simp] theorem region_deposit (rb : RingBuffer) (a : Address) (data : List UInt8) :
    (rb.deposit a data).region = rb.region := by
  simp only [region, RingBuffer.deposit, Option.map_map, comp_def, deposit_addr]

end RingBuffer

namespace Connection

def inboundRegion (c : Connection) : Option Nat := c.inboundBuffer.bind RingBuffer.region

def outboundRegion (c : Connection) : Option Nat := c.outboundBuffer.bind RingBuffer.region

theorem mem_regions_of_inbound {c : Connection} (region : c.inboundRegion = some r) :
    r ∈ c.inboundBuffer.elim 0 RingBuffer.regions := by
  obtain ⟨rb, present, region⟩ := bind_eq_some_iff.mp region
  rw [present]
  exact mem_regions_of_region region

theorem mem_regions_of_outbound {c : Connection} (region : c.outboundRegion = some r) :
    r ∈ c.outboundBuffer.elim 0 RingBuffer.regions := by
  obtain ⟨rb, present, region⟩ := bind_eq_some_iff.mp region
  rw [present]
  exact mem_regions_of_region region

@[simp] theorem inboundRegion_deposit (c : Connection) (a : Address) (data : List UInt8) :
    (c.deposit a data).inboundRegion = c.inboundRegion := by
  simp only [inboundRegion, deposit, bind_map, comp_def, region_deposit]

@[simp] theorem outboundRegion_deposit (c : Connection) (a : Address) (data : List UInt8) :
    (c.deposit a data).outboundRegion = c.outboundRegion := by
  simp only [outboundRegion, deposit, bind_map, comp_def, region_deposit]

end Connection

/-- The requests that may be underway in a state. -/
inductive Shape : ConnState → List Flag → Prop
  | idle {state : ConnState} (other : state ≠ .accept) : Shape state []
  | read : Shape .read [.read]
  | write : Shape .write [.write]
  | close : Shape .close [.close]
  | flush : Shape .close [.write, .close]

theorem Shape.tail {flags : List Flag} (shape : Shape state (flag :: flags)) :
    Shape state flags := by
  cases shape with
  | read | write | close => exact .idle (by decide)
  | flush => exact .close

/-- The first request is of the kind its state says. -/
theorem Shape.head {flags : List Flag} (shape : Shape state (flag :: flags)) :
    (state = .read ∧ flag = .read) ∨ (state = .write ∧ flag = .write) ∨
      (state = .close ∧ (flag = .write ∨ flag = .close)) := by
  cases shape with
  | read => exact Or.inl ⟨rfl, rfl⟩
  | write => exact Or.inr (Or.inl ⟨rfl, rfl⟩)
  | close => exact Or.inr (Or.inr ⟨rfl, Or.inr rfl⟩)
  | flush => exact Or.inr (Or.inr ⟨rfl, Or.inl rfl⟩)

theorem Shape.flags {flags : List Flag} (shape : Shape state flags) :
    ∀ flag ∈ flags, flag = .read ∨ flag = .write ∨ flag = .close := by
  cases shape <;> simp

theorem Shape.ne_accept {flags : List Flag} (shape : Shape state flags) : state ≠ .accept := by
  cases shape with
  | idle other => exact other
  | read | write | close | flush => decide

theorem Shape.read_alone {behind : List Flag} (shape : Shape state (before ++ .read :: behind)) :
    before = [] ∧ behind = [] := by
  generalize whole : before ++ .read :: behind = flags at shape
  cases shape with
  | idle other => simp at whole
  | read => simpa [append_eq_singleton_iff] using whole
  | write | close => simp [append_eq_singleton_iff] at whole
  | flush => rcases before with _ | ⟨_, _ | ⟨_, before⟩⟩ <;> simp at whole

/-- A send is the first request, with closes behind. -/
theorem Shape.write_first {behind : List Flag} (shape : Shape state (before ++ .write :: behind)) :
    before = [] ∧ ∀ flag ∈ behind, flag = .close := by
  generalize whole : before ++ .write :: behind = flags at shape
  cases shape with
  | idle other => simp at whole
  | write =>
    obtain ⟨rfl, rfl⟩ : before = [] ∧ behind = [] := by
      simpa [append_eq_singleton_iff] using whole
    exact ⟨rfl, forall_mem_nil _⟩
  | read | close => simp [append_eq_singleton_iff] at whole
  | flush =>
    rcases before with _ | ⟨_, _ | ⟨_, before⟩⟩
    · cases whole
      exact ⟨rfl, by simp⟩
    · cases whole
    · simp at whole

/-- A close is the last request of its connection. -/
theorem Shape.close_last {behind : List Flag} (shape : Shape state (before ++ .close :: behind)) :
    state = .close ∧ behind = [] := by
  generalize whole : before ++ .close :: behind = flags at shape
  cases shape with
  | idle other => simp at whole
  | read | write => simp [append_eq_singleton_iff] at whole
  | close =>
    obtain ⟨_, rfl⟩ : before = [] ∧ behind = [] := by
      simpa [append_eq_singleton_iff] using whole
    exact ⟨rfl, rfl⟩
  | flush =>
    rcases before with _ | ⟨_, _ | ⟨_, before⟩⟩
    · cases whole
    · cases whole
      exact ⟨rfl, rfl⟩
    · simp at whole

namespace View

variable {k : Int} {v v' : View}

/-- The connection under a key is tidy. -/
structure Tidy (k : Int) (v : View) : Prop where
  fd : v.conn.fd = k
  stream : v.conn.network = .tcp
  own : ∀ q ∈ v.requests, q.key = k ∧ q.fd = k ∧ q.obj = v.obj ∧ q.life = v.conn.life
  shape : Shape v.conn.state (v.requests.map Sqe.flag)
  held : v.tasks.length + v.queued ≤ 1
  waits : v.tasks ≠ [] ∨ v.queued ≠ 0 → v.requests = [] ∧ v.conn.state = .read
  recv : ∀ q ∈ v.requests, q.flag = .read → v.conn.inboundRegion = some q.addr.region
  send : ∀ q ∈ v.requests, q.flag = .write → v.conn.outboundRegion = some q.addr.region

namespace Tidy

theorem unheld (tidy : v.Tidy k) (busy : v.requests ≠ [] ∨ v.conn.state ≠ .read) :
    v.tasks = [] ∧ v.queued = 0 := by
  by_contra held
  rw [not_and_or] at held
  obtain ⟨none', read⟩ := tidy.waits held
  rcases busy with some' | other
  · exact some' none'
  · exact other read

/-- While a handler runs or waits nothing else is underway. -/
theorem waiting (tidy : v.Tidy k) (held : v.tasks ≠ [] ∨ v.queued ≠ 0) :
    v.done = [] ∧ v.todo = [] ∧ v.conn.state = .read := by
  obtain ⟨none', read⟩ := tidy.waits held
  obtain ⟨done, todo⟩ := requests_eq_nil_iff.mp none'
  exact ⟨done, todo, read⟩

variable {c : Cqe} {rest : List Cqe} {q : Sqe}

theorem requests_of_first (first : v.done = c :: rest) :
    v.requests = c.sqe :: (rest.map Cqe.sqe ++ v.todo) := by
  rw [requests, first, map_cons, cons_append]

variable (tidy : v.Tidy k)
include tidy

theorem flags : ∀ q ∈ v.requests, q.flag = .read ∨ q.flag = .write ∨ q.flag = .close :=
  fun _ member => tidy.shape.flags _ (mem_map_of_mem member)

theorem head (first : v.done = c :: rest) :
    (v.conn.state = .read ∧ c.sqe.flag = .read) ∨ (v.conn.state = .write ∧ c.sqe.flag = .write) ∨
      (v.conn.state = .close ∧ (c.sqe.flag = .write ∨ c.sqe.flag = .close)) := by
  have shape := tidy.shape
  rw [requests_of_first first, map_cons] at shape
  exact shape.head

/-- The only request of a connection that reads or writes has completed. -/
theorem alone (first : v.done = c :: rest) (state : v.conn.state = .read ∨ v.conn.state = .write) :
    { v with done := rest }.Idle ∧ (v.conn.state = .read → c.sqe.flag = .read) ∧
      (v.conn.state = .write → c.sqe.flag = .write) := by
  have shape := tidy.shape
  obtain ⟨tasks, queued⟩ := tidy.unheld (Or.inl (by rw [requests_of_first first]; simp))
  rw [requests_of_first first, map_cons] at shape
  revert shape
  generalize flags : (rest.map Cqe.sqe ++ v.todo).map Sqe.flag = left
  generalize flag : c.sqe.flag = flag'
  generalize same : v.conn.state = state' at state ⊢
  intro shape
  have empty : left = [] → { v with done := rest }.Idle := by
    rintro rfl
    rw [map_eq_nil_iff, append_eq_nil_iff, map_eq_nil_iff] at flags
    exact ⟨flags.2, flags.1, tasks, queued⟩
  cases shape with
  | read => exact ⟨empty rfl, fun _ => rfl, (fun other => nomatch other)⟩
  | write => exact ⟨empty rfl, (fun other => nomatch other), fun _ => rfl⟩
  | close | flush => rcases state with other | other <;> cases other

/-- The close has completed, and it was the last request. -/
theorem last (first : v.done = c :: rest) (flag : c.sqe.flag = .close) :
    { v with done := rest }.Idle := by
  have shape := tidy.shape
  obtain ⟨tasks, queued⟩ := tidy.unheld (Or.inl (by rw [requests_of_first first]; simp))
  rw [requests_of_first first, map_cons, flag] at shape
  revert shape
  generalize flags : (rest.map Cqe.sqe ++ v.todo).map Sqe.flag = left
  generalize v.conn.state = state
  intro shape
  cases shape with
  | close =>
    rw [map_eq_nil_iff, append_eq_nil_iff, map_eq_nil_iff] at flags
    exact ⟨flags.2, flags.1, tasks, queued⟩

/-- A receive is the only request of its connection. -/
theorem receiving {rest : List Sqe} (first : v.todo = q :: rest)
    (flag : q.flag = .read) : v.done = [] ∧ rest = [] := by
  have shape := tidy.shape
  rw [requests, first, map_append, map_cons, flag] at shape
  have alone := shape.read_alone
  simpa only [map_eq_nil_iff] using alone

/-- A send is the first request of its connection, and behind it there is only a close. -/
theorem sending {rest : List Sqe} (first : v.todo = q :: rest)
    (flag : q.flag = .write) : v.done = [] ∧ ∀ q' ∈ rest, q'.flag = .close := by
  have shape := tidy.shape
  rw [requests, first, map_append, map_cons, flag] at shape
  obtain ⟨before, close⟩ := shape.write_first
  rw [map_eq_nil_iff, map_eq_nil_iff] at before
  exact ⟨before, fun q' member => close _ (mem_map_of_mem member)⟩

theorem closing (member : q ∈ v.todo) (flag : q.flag = .close) : v.conn.state = .close := by
  obtain ⟨before, behind, split⟩ := append_of_mem member
  have shape := tidy.shape
  rw [requests, split, ← append_assoc, map_append, map_cons, flag] at shape
  exact shape.close_last.1

/-- Nothing is behind a close. -/
theorem nothing_behind {rest : List Sqe} (first : v.todo = q :: rest)
    (flag : q.flag = .close) : rest = [] := by
  have shape := tidy.shape
  rw [requests, first, map_append, map_cons, flag] at shape
  exact map_eq_nil_iff.mp shape.close_last.2

theorem popped (first : v.done = c :: rest) : { v with done := rest }.Tidy k := by
  have all := requests_of_first first
  have sub : ∀ q ∈ rest.map Cqe.sqe ++ v.todo, q ∈ v.requests := by
    intro q member
    rw [all]
    exact mem_cons_of_mem _ member
  have shape := tidy.shape
  rw [all, map_cons] at shape
  refine ⟨tidy.fd, tidy.stream, fun q member => tidy.own q (sub q member), shape.tail, tidy.held,
    ?_, fun q member => tidy.recv q (sub q member), fun q member => tidy.send q (sub q member)⟩
  intro held
  have none' := (tidy.waits held).1
  rw [all] at none'
  cases none'

omit tidy

/-- An idle connection is tidy. -/
theorem of_idle (idle : v.Idle) (fd : v.conn.fd = k) (stream : v.conn.network = .tcp)
    (state : v.conn.state ≠ .accept) : v.Tidy k := by
  have none' : v.requests = [] := by
    rw [requests, idle.done, idle.todo]
    rfl
  refine ⟨fd, stream, ?_, ?_, ?_, ?_, ?_, ?_⟩
  · simp [none']
  · rw [none']
    exact .idle state
  · simp [idle.tasks, idle.queued]
  · intro held
    rcases held with tasks | queued
    · exact absurd idle.tasks tasks
    · exact absurd idle.queued queued
  · simp [none']
  · simp [none']

variable {cfg : Config} {x x' : Session} {new : List Sqe}

/-- A connection with nothing underway is armed. -/
theorem of_armed (armed : Session.Armed cfg x new x') (fd : x.conn.fd = k)
    (stream : x.conn.network = .tcp) (state : x.conn.state ≠ .accept) (obj : v.obj = x.obj)
    (conn : v.conn = x'.conn) (todo : v.todo = new) (done : v.done = []) (tasks : v.tasks = [])
    (queued : v.queued = 0) : v.Tidy k := by
  have all : v.requests = new := by
    rw [requests, done, todo]
    rfl
  have mine : ∀ {flag addr len link}, (x.entry flag addr len link).key = k ∧
      (x.entry flag addr len link).fd = k ∧ (x.entry flag addr len link).obj = v.obj ∧
      (x.entry flag addr len link).life = x.conn.life :=
    ⟨fd, fd, obj.symm, rfl⟩
  have free : ∀ {p : Prop}, v.tasks ≠ [] ∨ v.queued ≠ 0 → p := by
    intro p held
    rcases held with some' | some'
    · exact absurd tasks some'
    · exact absurd queued some'
  have held : v.tasks.length + v.queued ≤ 1 := by
    rw [tasks, queued]
    exact Nat.zero_le 1
  cases armed with
  | nothing =>
    refine of_idle ⟨todo, done, tasks, queued⟩ ?_ ?_ ?_
    · rw [conn, fd]
    · rw [conn, stream]
    · rw [conn]
      exact state
  | @read rb rb' mem addr present grown address =>
    refine ⟨by rw [conn, ← fd], by rw [conn, ← stream], ?_, ?_, held, free, ?_, ?_⟩
    · rw [all, conn]
      simpa using mine
    · rw [all, conn]
      exact .read
    · rw [all, conn]
      intro q member _
      rw [mem_singleton.mp member]
      exact region_of_addressOf address
    · rw [all]
      intro q member flag
      rw [mem_singleton.mp member] at flag
      cases flag
  | @write rb addr link present address =>
    refine ⟨by rw [conn, ← fd], by rw [conn, ← stream], ?_, ?_, held, free, ?_, ?_⟩
    · rw [all, conn]
      simpa using mine
    · rw [all, conn]
      exact .write
    · rw [all]
      intro q member flag
      rw [mem_singleton.mp member] at flag
      cases flag
    · rw [all, conn]
      intro q member _
      rw [mem_singleton.mp member, Connection.outboundRegion, present]
      exact region_of_addressOf address
  | @writeClose rb addr closed present address =>
    refine ⟨by rw [conn, ← fd], by rw [conn, ← stream], ?_, ?_, held, free, ?_, ?_⟩
    · rw [all, conn]
      intro q member
      rcases mem_cons.mp member with rfl | member
      · exact mine
      · rw [mem_singleton.mp member]
        exact mine
    · rw [all, conn]
      exact .flush
    · rw [all]
      intro q member flag
      rcases mem_cons.mp member with rfl | member
      · cases flag
      · rw [mem_singleton.mp member] at flag
        cases flag
    · rw [all, conn]
      intro q member flag
      rcases mem_cons.mp member with rfl | member
      · rw [Connection.outboundRegion, present]
        exact region_of_addressOf address
      · rw [mem_singleton.mp member] at flag
        cases flag
  | close reason =>
    refine ⟨by rw [conn, ← fd], by rw [conn, ← stream], ?_, ?_, held, free, ?_, ?_⟩
    · rw [all, conn]
      intro q member
      rw [mem_singleton.mp member]
      exact mine
    · rw [all, conn]
      exact .close
    · rw [all]
      intro q member flag
      rw [mem_singleton.mp member] at flag
      cases flag
    · rw [all]
      intro q member flag
      rw [mem_singleton.mp member] at flag
      cases flag

/-- The code on a connection with no receive and no send underway leaves it at that. -/
theorem of_still (tidy : v.Tidy k) (quiet : ∀ q ∈ v.requests, q.flag = .close)
    {mem : Ledger} {sq : Chains} {shut : List Int}
    (frame : Session.Frame cfg (v.session mem sq shut) x) (state : x.conn.state = v.conn.state)
    (tasks : List Task) (queued : Nat) (held : tasks.length + queued ≤ 1)
    (waits : tasks ≠ [] ∨ queued ≠ 0 → v.requests = [] ∧ v.conn.state = .read) :
    Tidy k { v.worked x [] with tasks := tasks, queued := queued } := by
  have all : ({ v.worked x [] with tasks := tasks, queued := queued } :
      View).requests = v.requests := by
    simp only [requests, worked, append_nil]
  have life : x.conn.life = v.conn.life := frame.life
  refine ⟨frame.fd.trans tidy.fd, frame.network.trans tidy.stream, ?_, ?_, held, ?_, ?_, ?_⟩
  · rw [all]
    change ∀ q ∈ v.requests, q.key = k ∧ q.fd = k ∧ q.obj = v.obj ∧ q.life = x.conn.life
    rw [life]
    exact tidy.own
  · rw [all]
    change Shape x.conn.state _
    rw [state]
    exact tidy.shape
  · intro busy
    obtain ⟨none', read⟩ := waits busy
    exact ⟨all.trans none', state.trans read⟩
  · rw [all]
    intro q member flag
    rw [quiet q member] at flag
    cases flag
  · rw [all]
    intro q member flag
    rw [quiet q member] at flag
    cases flag

/-- Behind the send of a closing connection there is the close. -/
theorem behind (tidy : v.Tidy k) (first : v.done = c :: rest) (flag : c.sqe.flag = .write)
    (state : v.conn.state = .close) :
    (v.tasks = [] ∧ v.queued = 0) ∧ ∀ q ∈ rest.map Cqe.sqe ++ v.todo, q.flag = .close := by
  have shape := tidy.shape
  refine ⟨tidy.unheld (Or.inr (by rw [state]; decide)), ?_⟩
  rw [requests_of_first first, map_cons, flag, state] at shape
  revert shape
  generalize flags : (rest.map Cqe.sqe ++ v.todo).map Sqe.flag = left
  intro shape q member
  have flag' := mem_map_of_mem (f := Sqe.flag) member
  rw [flags] at flag'
  cases shape with
  | flush => exact mem_singleton.mp flag'

/-- The kernel moves requests along and leaves the connection as it is, up to the bytes
it stores. -/
theorem of_kernel (tidy : v.Tidy k) {conn : Connection} {history : History} {todo : List Sqe}
    {done : List Cqe} (same : done.map Cqe.sqe ++ todo = v.requests)
    (stored : conn = v.conn ∨ ∃ a data, conn = v.conn.deposit a data) :
    Tidy k { v with conn := conn, history := history, todo := todo, done := done } := by
  have kept : conn.fd = v.conn.fd ∧ conn.network = v.conn.network ∧ conn.life = v.conn.life ∧
      conn.state = v.conn.state ∧ conn.inboundRegion = v.conn.inboundRegion ∧
      conn.outboundRegion = v.conn.outboundRegion := by
    rcases stored with rfl | ⟨a, data, rfl⟩
    · exact ⟨rfl, rfl, rfl, rfl, rfl, rfl⟩
    · exact ⟨rfl, rfl, rfl, rfl, v.conn.inboundRegion_deposit a data,
        v.conn.outboundRegion_deposit a data⟩
  obtain ⟨fd, network, life, state, inbound, outbound⟩ := kept
  have all : ({ v with conn := conn, history := history, todo := todo, done := done } :
      View).requests = v.requests := same
  refine ⟨fd.trans tidy.fd, network.trans tidy.stream, ?_, ?_, tidy.held, ?_, ?_, ?_⟩
  · rw [all, life]
    exact tidy.own
  · rw [all, state]
    exact tidy.shape
  · rw [all, state]
    exact tidy.waits
  · rw [all, inbound]
    exact tidy.recv
  · rw [all, outbound]
    exact tidy.send

variable {rules : Rules} {exact' : Prop}

/-- Every move keeps a connection tidy. -/
theorem move (tidy : v.Tidy k) (tcp : cfg.sendRecvMsg = false)
    (move : Move cfg rules exact' v v') : v'.Tidy k := by
  cases move with
  | dropped first error => exact tidy.popped first
  | @armed c rest mem sq shut ops x x' new first fine prelude armed calls sized =>
    obtain ⟨state, kept, _⟩ := prelude.state
    obtain ⟨⟨todo, done, tasks, queued⟩, _⟩ := tidy.alone first state
    have frame := prelude.acts.frame tcp
    refine of_armed armed (frame.fd.trans tidy.fd) (frame.network.trans tidy.stream) ?_
      frame.obj.symm rfl ?_ done tasks queued
    · rw [kept]
      exact tidy.shape.ne_accept
    · exact todo_append todo new
  | @spawned c rest mem sq shut x first some' state received =>
    obtain ⟨⟨todo, done, tasks, queued⟩, _⟩ := tidy.alone first (Or.inl state)
    change rest = [] at done
    change v.todo = [] at todo
    change v.tasks = [] at tasks
    change v.queued = 0 at queued
    subst done
    have act : Session.Act cfg (v.session mem sq shut) x := .received received
    have frame := act.frame tcp
    obtain ⟨rb, rb', _, _, rfl⟩ := onKernelRead_eq received
    refine (tidy.popped first).of_still ?_ frame rfl (v.tasks ++ [⟨v.obj, c.res, false⟩])
      v.queued ?_ fun _ => ⟨?_, state⟩
    · simp [requests, todo]
    · simp [tasks, queued]
    · simp [requests, todo]
  | @flushed c rest mem sq shut ops x x' first fine state flag sent called calls sized =>
    obtain ⟨⟨tasks, queued⟩, quiet⟩ := tidy.behind first flag state
    have acts : Session.Acts cfg (v.session mem sq shut) x' := written_acts sent called
    have kept : x'.conn.state = v.conn.state := by
      rw [(calls_still called).state]
      obtain ⟨rb, rb', _, _, rfl⟩ := onKernelWrite_eq sent
      rfl
    have after := (tidy.popped first).of_still quiet (acts.frame tcp) kept v.tasks v.queued
      tidy.held
    refine after fun busy => ?_
    rcases busy with some' | some'
    · exact absurd tasks some'
    · exact absurd queued some'
  | @asyncArmed mem sq shut x new waiting armed sized =>
    obtain ⟨done, todo, state⟩ := tidy.waiting (Or.inr (by rw [waiting]; decide))
    have tasks : v.tasks = [] := by
      have held := tidy.held
      rw [waiting] at held
      exact length_eq_zero_iff.mp (by omega)
    refine of_armed armed tidy.fd tidy.stream tidy.shape.ne_accept rfl rfl ?_ done tasks rfl
    exact todo_append todo new
  | @begun n mem sq shut waiting =>
    have waits := tidy.waits (Or.inl (by rw [waiting]; simp))
    have acts : Session.Acts cfg (v.session mem sq shut)
        ((v.session mem sq shut).setUserSpace.fired (.onRead n)) :=
      (Relation.ReflTransGen.single (.userSpace _)).tail (.fire _ _)
    have held := tidy.held
    rw [waiting] at held
    exact tidy.of_still (by simp [waits.1]) (acts.frame tcp) rfl [⟨v.obj, n, true⟩] v.queued held
      fun _ => waits
  | @called n mem sq shut op x running called call sized =>
    have waits := tidy.waits (Or.inl (by rw [running]; simp))
    have act : Session.Act cfg (v.session mem sq shut) x := .call called
    exact tidy.of_still (by simp [waits.1]) (act.frame tcp)
      (call_method called).still.state v.tasks v.queued tidy.held fun _ => waits
  | @returned n op running next =>
    have waits := tidy.waits (Or.inl (by rw [running]; simp))
    have held := tidy.held
    rw [running] at held
    have free : v.queued = 0 := by simpa using held
    refine ⟨tidy.fd, tidy.stream, tidy.own, tidy.shape, ?_, fun _ => waits, tidy.recv, tidy.send⟩
    simp [free]
  | @swept mem sq shut idle found =>
    have all : (v.worked ((v.session mem sq shut).addCloseConnRequest true).2
        [(v.session mem sq shut).closing]).requests = [(v.session mem sq shut).closing] :=
      idle.requests_worked _ _
    refine ⟨tidy.fd, tidy.stream, ?_, ?_, tidy.held, ?_, ?_, ?_⟩
    · rw [all]
      intro q member
      rw [mem_singleton.mp member]
      exact ⟨tidy.fd, tidy.fd, rfl, rfl⟩
    · rw [all]
      exact .close
    · intro busy
      rcases busy with some' | some'
      · exact absurd idle.tasks some'
      · exact absurd idle.queued some'
    · rw [all]
      intro q member flag
      rw [mem_singleton.mp member] at flag
      cases flag
    · rw [all]
      intro q member flag
      rw [mem_singleton.mp member] at flag
      cases flag
  | received first flag fits =>
    refine tidy.of_kernel ?_ (Or.inr ⟨_, _, rfl⟩)
    simp [requests, first]
  | sent first _ _ _ _ _ _ _ | closed first _ _ =>
    refine tidy.of_kernel ?_ (Or.inl rfl)
    simp [requests, first]
  | failed first error =>
    refine tidy.of_kernel ?_ (Or.inl rfl)
    simp [requests, first, comp_def, Sqe.cancelled]
  | cancelled =>
    refine tidy.of_kernel ?_ (Or.inl rfl)
    simp [requests, comp_def, Sqe.cancelled]

/-- A connection that is entered is tidy. -/
theorem born (tcp : cfg.sendRecvMsg = false) (born : Born cfg rules exact' k v) : v.Tidy k := by
  cases born with
  | entered entrance allowed =>
    refine of_idle entrance.idle entrance.fd entrance.stream ?_
    rw [entrance.state]
    decide
  | @welcomed v mem sq shut ops x x' new entrance called armed calls sized =>
    have acts : Session.Acts cfg (v.session mem sq shut) x := fired_acts called
    have frame := acts.frame tcp
    have kept : x.conn.state = v.conn.state := (calls_still called).state
    refine of_armed armed (frame.fd.trans entrance.fd) (frame.network.trans entrance.stream) ?_
      frame.obj.symm rfl ?_ entrance.idle.done entrance.idle.tasks entrance.idle.queued
    · rw [kept, entrance.state]
      decide
    · exact todo_append entrance.idle.todo new

end Tidy

variable {cfg : Config} {rules : Rules} {exact' : Prop}

/-- Moves keep the object and its life. -/
theorem Move.identity (tcp : cfg.sendRecvMsg = false) (move : Move cfg rules exact' v v') :
    v'.obj = v.obj ∧ v'.conn.life = v.conn.life := by
  cases move with
  | armed first fine prelude armed calls sized =>
    have frame := prelude.acts.frame tcp
    exact ⟨rfl, armed.life.trans frame.life⟩
  | spawned first some' state received =>
    exact ⟨rfl, (Session.Act.frame tcp (.received received)).life⟩
  | @flushed c rest mem sq shut ops x x' first fine state flag sent called calls sized =>
    have acts : Session.Acts cfg (v.session mem sq shut) x' := written_acts sent called
    exact ⟨rfl, (acts.frame tcp).life⟩
  | asyncArmed waiting armed sized => exact ⟨rfl, armed.life⟩
  | called running called call sized => exact ⟨rfl, (Session.Act.frame tcp (.call called)).life⟩
  | dropped _ _ | begun _ | returned _ _ | swept _ _ | received _ _ _ | sent _ _ _ _ _ _ _ _
  | closed _ _ _ | failed _ _ | cancelled => exact ⟨rfl, rfl⟩

end View

end Gain
