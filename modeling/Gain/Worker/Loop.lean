import Gain.Foundation.Run
import Gain.Worker.Handlers

/-! # The loop of a worker and its surroundings

One step is the submission or the peek of one turn of the loop, one event of a
batch, one entry of a queue, one completion by the kernel, one action of a handler's
goroutine, one hand-off by the acceptor or the request to shut down. Any order of
steps that their guards allow is a run.
-/

namespace Gain

/-- The result of submitting: events may be peeked, the error is skippable, or the
loop ends. -/
inductive Submit where
  | done
  | skippable
  | failed
  deriving DecidableEq, Repr

inductive Label where
  /-- Another goroutine calls `shutdown`. -/
  | shutdown
  /-- The shutdown handler with its iteration order, and the submission of chains. -/
  | turn (order : List (Int × Bool)) (chains : Nat) (result : Submit)
  /-- `PeekBatchCQE`, which may already find completions of what was just submitted. -/
  | peek
  | event (env : Env)
  | endBatch
  | newConn (env : Env)
  | asyncWrite (env : Env)
  /-- The kernel executes the first entry of a submitted chain. -/
  | complete (chain : Nat) (res : Int) (nonempty : Bool) (data : List UInt8)
      (peer : Option NetAddr)
  /-- The acceptor hands a new connection to a consumer. -/
  | handOff (fd : Int) (addr : NetAddr)
  | taskBegin (i : Nat)
  | taskCall (i : Nat) (op : ConnOp)
  | taskEnd (i : Nat)

namespace Worker

/-- The whole memory of the process that a kernel address may lie in. -/
def memories (w : Worker) : List VirtualMem :=
  (List.range w.nextObj).flatMap (fun o => (w.heap o).memories) ++
    w.bufPool.pool.items.flatMap (fun rb => rb.vm.toList) ++
    (List.range 32).flatMap fun k => (w.mem.pool.pools k).items

/-- The bytes at an address. -/
def fetch (w : Worker) (a : Address) (n : Int) : Option (List UInt8) :=
  (w.memories.find? fun m => m.addr = a.region).bind fun m => m.slice? a.offset (a.offset + n)

/-- The kernel stores bytes at an address, in whatever buffer or free memory it lies. -/
def deposit (w : Worker) (a : Address) (data : List UInt8) : Worker :=
  { w with
    heap := fun o => (w.heap o).deposit a data
    bufPool := { w.bufPool with pool := w.bufPool.pool.map fun rb => rb.deposit a data }
    mem := w.mem.deposit a data }

def record (w : Worker) (life : Nat) (f : History → History) : Worker :=
  { w with histories := Function.update w.histories life (f (w.histories life)) }

/-- Whether the loop ends: `loopFinishCondition`. -/
def finished (w : Worker) : Bool :=
  match w.cfg.kind with
  | .consumer => w.allClosed
  | .shard =>
    w.allClosed || (!w.cfg.sendRecvMsg && !w.accepting && w.activeConnections = 0)

/-- The loop returns; a shard shuts its listener down. -/
def stop (w : Worker) : Worker :=
  match w.cfg.kind with
  | .consumer => { w with phase := .stopped }
  | .shard => { w with phase := .stopped, shut := w.cfg.listener :: w.shut }

/-- The first phase after a batch. -/
def afterBatch (w : Worker) : Worker :=
  { w with phase := if w.cfg.kind = .consumer ∧ !w.cfg.ringsMessaging then .conns else .asyncs }

def needToShutdown (w : Worker) : Bool := w.shutdowning && !w.inProgress

/-- `shutdownHandler` -/
def shutdownHandler (w : Worker) (order : List (Int × Bool)) : Worker :=
  if w.needToShutdown then
    { w.onCloseHandler order with inProgress := true }
  else w

/-- `processEvent` and the loop function's own code for an error: whether the event
is left at that. -/
def processEvent (w : Worker) (cqe : Cqe) : Bool × Worker :=
  if cqe.res < 0 then
    match w.cfg.kind with
    | .consumer => (true, (w.get cqe.sqe.key 0).2)
    | .shard => (true, w)
  else if userData cqe.sqe.flag cqe.sqe.key = 0 then (true, w)
  else (false, w)

/-- The loop function of a consumer. -/
def consumerEvent (w : Worker) (env : Env) (cqe : Cqe) : Option Worker :=
  match w.processEvent cqe with
  | (true, w) => some w
  | (false, w) =>
    if cqe.sqe.flag = .addConn then do
      let (err, w) ← w.handleNewConn env cqe.res
      return if err.isSome then w.stop else w
    else if cqe.sqe.key < 2 then some w
    else
      let (o, w) := w.getFd cqe.sqe.key
      w.consumerHandleConn env cqe o

/-- The loop function of a shard. -/
def shardEvent (w : Worker) (env : Env) (cqe : Cqe) : Option Worker :=
  match w.processEvent cqe with
  | (true, w) => some w
  | (false, w) =>
    let (o, w) := w.get cqe.sqe.key
      (if w.cfg.sendRecvMsg then w.cfg.listener else cqe.sqe.key)
    w.shardHandleConn env cqe o

def handleEvent (w : Worker) (env : Env) (cqe : Cqe) : Option Worker :=
  match w.cfg.kind with
  | .consumer => w.consumerEvent env cqe
  | .shard => w.shardEvent env cqe

/-- What a request's execution does in the kernel. An accepted descriptor was not
open; a failed close leaves its descriptor open. -/
def execute (w : Worker) (q : Sqe) (res : Int) (data : List UInt8) (peer : Option NetAddr) :
    Option Worker :=
  match q.flag with
  | .accept =>
    if res < 0 then some w
    else if res ∈ w.openFds ∨ 2 ^ 31 ≤ res then none
    else some { w with openFds := res :: w.openFds, clientAddr := peer }
  | .read =>
    if res < 0 then if data = [] then some w else none
    else if res ≤ q.len ∧ res = data.length then
      let w := w.deposit q.addr data
      some (if w.cfg.sendRecvMsg then
        w.setConn q.obj { w.heap q.obj with rawSockaddr := peer } else w)
    else none
  | .write =>
    if res < 0 then
      if data = [] then some (w.record q.life fun h => { h with sendFailed := true }) else none
    else if res ≤ q.len ∧ w.fetch q.addr res = some data then
      some (w.record q.life fun h => { h with taken := h.taken ++ data })
    else none
  | .close =>
    if res < 0 then some w
    else some ({ w with openFds := w.openFds.filter (· ≠ q.fd) }.record q.life
      fun h => { h with closes := h.closes + 1 })
  | .addConn => none

/-- The first entry of a chain completes; behind a failed entry the chain is cancelled. -/
def complete (w : Worker) (chain : Nat) (res : Int) (nonempty : Bool) (data : List UInt8)
    (peer : Option NetAddr) : Option Worker :=
  match w.inflight[chain]? with
  | some (q :: rest) => do
    let w ← w.execute q res data peer
    let cqe : Cqe := { sqe := q, res := res, nonempty := nonempty, data := data }
    if res < 0 then
      return { w with
        inflight := w.inflight.set chain []
        cq := w.cq ++ cqe :: rest.map Sqe.cancelled }
    else return { w with inflight := w.inflight.set chain rest, cq := w.cq ++ [cqe] }
  | _ => none

/-- The next operation after an asynchronous handler, from `doAsyncWork`. -/
def nextAsyncOp (c : Connection) : Option AsyncOp := do
  let pending ← c.outboundBuffered
  return if pending > 0 then .writeOp else if c.closed then .closeOp else .readOp

/-- One step, if its guard allows it and no code of it panics. -/
def step (w : Worker) : Label → Option Worker
  | .shutdown => some { w with shutdowning := true }
  | .turn order chains result =>
    if w.phase = .top ∧ (w.needToShutdown → (order.map Prod.fst).Perm w.connections.keys) then
      let w := w.shutdownHandler order
      let w := { w with inflight := w.inflight ++ w.sq.take chains, sq := w.sq.drop chains }
      match result with
      | .done => some { w with phase := .peek }
      | .skippable => some w.afterBatch
      | .failed => some w.stop
    else none
  | .peek =>
    if w.phase = .peek then
      some { w with phase := .events (min w.cq.length w.cfg.maxCQEvents) }
    else none
  | .event env =>
    match w.phase, w.cq with
    | .events (left + 1), cqe :: cq =>
      { w with phase := .events left, cq := cq }.handleEvent env cqe
    | _, _ => none
  | .endBatch => if w.phase = .events 0 then some w.afterBatch else none
  | .newConn env =>
    match w.phase, w.connQueue with
    | .conns, [] => some { w with phase := .asyncs }
    | .conns, fd :: rest =>
      ({ w with connQueue := rest }.handleNewConn env fd).map Prod.snd
    | _, _ => none
  | .asyncWrite env =>
    match w.phase, w.asyncOpQueue with
    | .asyncs, [] => some (if w.finished then w.stop else { w with phase := .top })
    | .asyncs, o :: rest => { w with asyncOpQueue := rest }.handleAsyncWrite env o
    | _, _ => none
  | .complete chain res nonempty data peer => w.complete chain res nonempty data peer
  | .handOff fd addr =>
    if w.cfg.kind = .consumer ∧ 0 ≤ fd ∧ fd < 2 ^ 31 ∧ fd ∉ w.openFds then
      let w := { w with
        openFds := fd :: w.openFds, socketAddresses := w.socketAddresses.insert fd addr }
      if w.cfg.ringsMessaging then
        some { w with
          cq := w.cq ++ [{ sqe := { flag := .addConn, key := 0, fd := fd }, res := fd }] }
      else some { w with connQueue := w.connQueue ++ [fd] }
    else none
  | .taskBegin i =>
    match w.tasks[i]? with
    | some ⟨o, n, false⟩ =>
      ((w.session o).work w.cfg n []).map fun x =>
        { w.setSession x with tasks := w.tasks.set i ⟨o, n, true⟩ }
    | _ => none
  | .taskCall i op =>
    match w.tasks[i]? with
    | some ⟨o, _, true⟩ => ((w.session o).call w.cfg.source op).map w.setSession
    | _ => none
  | .taskEnd i =>
    match w.tasks[i]? with
    | some ⟨o, _, true⟩ => do
      let op ← nextAsyncOp (w.heap o)
      return { w.setConn o { w.heap o with nextAsyncOp := op } with
        tasks := w.tasks.eraseIdx i, asyncOpQueue := w.asyncOpQueue ++ [o] }
    | _ => none

/-- What the pools of the process will answer. -/
structure Streams where
  conns : Nat → Option Nat
  buffers : Nat → Option Nat
  mems : Nat → Nat → Option Nat
  calibration : Nat → Option (Fin 15 × Fin 15)

/-- A worker with no connection. The standard descriptors and the listener are open. -/
def init (cfg : Config) (streams : Streams) : Worker where
  cfg := cfg
  heap := fun _ => {}
  nextObj := 0
  connPool := .empty streams.conns
  bufPool := ⟨.empty streams.buffers, cfg.pageSize, 0, streams.calibration, 0⟩
  mem := ⟨⟨fun k => .empty (streams.mems k), 0⟩, [], []⟩
  connections := ∅
  connectionsCount := 0
  closing := false
  releaseFdSet := ∅
  keyPool := ⟨[], 2⟩
  sq := []
  inflight := []
  cq := []
  phase := .top
  shutdowning := false
  inProgress := false
  accepting := false
  clientAddr := none
  socketAddresses := ∅
  connQueue := []
  asyncOpQueue := []
  tasks := []
  openFds := [0, 1, 2, cfg.listener]
  shut := []
  histories := fun _ => {}
  nextLife := 0

/-- The state in which the loop starts, after `prepareHandler`. -/
def start (cfg : Config) (streams : Streams) : Option Worker :=
  let w := init cfg streams
  match cfg.kind with
  | .consumer => some w
  | .shard =>
    if cfg.sendRecvMsg then do
      let (o, w) := w.get 1 cfg.listener
      let c ← { w.heap o with fd := cfg.listener }.initMsgHeader
      let (err, w) ← (w.setConn o c).within o (Session.addReadRequest cfg true)
      if err.isSome then none else some w
    else some { (w.addAcceptConnRequest true).2 with accepting := true }

end Worker

end Gain
