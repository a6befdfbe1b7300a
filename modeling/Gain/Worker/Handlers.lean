import Gain.Worker.Requests

/-! # Handling events

What a worker does with one completion, with one connection handed to it and
with one entry of its queues. An `Env` holds what the surroundings answer while
it does so.
-/

namespace Gain

/-- The outcomes of the `GetSQE` calls made, in order; the calls of the handler of
`OnAccept`, `OnRead` or `OnWrite` and of `OnClose`; and the results of the system
calls on a new socket. -/
structure Env where
  sqe : Nat → Bool := fun _ => true
  handler : List ConnOp := []
  onClose : List ConnOp := []
  incomingCpu : Option Error := none
  keepAlive : Option Error := none

namespace Session

/-- `work` -/
def work (cfg : Config) (n : Int) (ops : List ConnOp) (x : Session) : Option Session :=
  x.setUserSpace.fire cfg.source (.onRead n) ops

/-- A synchronous handler and the request that follows it. -/
def workAndArm (cfg : Config) (env : Env) (n : Int) (x : Session) :
    Option (Option Error × Session) := do
  let x ← x.work cfg n env.handler
  let pending ← x.conn.outboundBuffered
  if pending > 0 then x.writeData cfg env.sqe
  else if x.conn.closed then return x.addCloseConnRequest (env.sqe 0)
  else x.addReadRequest cfg (env.sqe 0)

/-- The bytes written are dropped and `OnWrite` is fired. -/
def onWritten (cfg : Config) (env : Env) (cqe : Cqe) (x : Session) : Option Session := do
  let x ← x.onKernelWrite cqe
  x.setUserSpace.fire cfg.source (.onWrite cqe.res) env.handler

end Session

namespace Worker

/-- The connection the bytes of a receive belong to: of a datagram, a fork of the
main connection, which is armed again. -/
def receiver (w : Worker) (env : Env) (o : Nat) : Option ((Option Error × Nat) × Worker) :=
  if w.cfg.sendRecvMsg then do
    let (forked, w) ← w.fork o true
    let w := w.setConn forked { w.heap forked with localAddr := w.cfg.localAddr }
    let (err, w) ← w.within o (Session.addReadRequest w.cfg (env.sqe 0))
    return ((err, forked), w)
  else some ((none, o), w)

/-- `onRead` -/
def onRead (w : Worker) (env : Env) (cqe : Cqe) (o : Nat) : Option (Option Error × Worker) :=
  if cqe.res ≤ 0 then do
    let w ← w.closeConn o true (some .eof) env.onClose
    return (none, w)
  else do
    let (_, w) ← w.within o fun x => (x.onKernelRead cqe).map fun x => ((), x)
    let ((err, o'), w) ← w.receiver env o
    let env := if w.cfg.sendRecvMsg then { env with sqe := fun i => env.sqe (i + 1) } else env
    match err with
    | some err => return (some err, w)
    | none =>
      if cqe.nonempty ∧ !(w.heap o').closed then
        w.within o' (Session.addReadRequest w.cfg (env.sqe 0))
      else if w.cfg.asyncHandler then
        return (none, { w with tasks := w.tasks ++ [⟨o', cqe.res, false⟩] })
      else w.within o' (Session.workAndArm w.cfg env cqe.res)

/-- A send has completed: `OnWrite` is fired and the next request prepared. -/
def onWrite (w : Worker) (env : Env) (cqe : Cqe) (o : Nat) : Option (Option Error × Worker) :=
  w.within o fun x => do
    let x ← x.onWritten w.cfg env cqe
    x.addNextRequest w.cfg env.sqe

/-- A completion in state `connClose`. -/
def onClosing (w : Worker) (env : Env) (cqe : Cqe) (o : Nat) : Option Worker :=
  match cqe.sqe.flag with
  | .close => w.closeConn o false none env.onClose
  | .write =>
    (w.within o fun x => (x.onWritten w.cfg env cqe).map fun x => ((), x)).map Prod.snd
  | _ => some w

/-- An error of a handler ends the connection the completion is for. -/
def endOnError (w : Worker) (env : Env) (o : Nat) : Option Error → Option Worker
  | none => some w
  | some err => w.closeConn o true (some err) env.onClose

/-- `consumerWorker.handleConn` -/
def consumerHandleConn (w : Worker) (env : Env) (cqe : Cqe) (o : Nat) : Option Worker :=
  match (w.heap o).state with
  | .read => do
    let (err, w) ← w.onRead env cqe o
    w.endOnError env o err
  | .write => do
    let (err, w) ← w.onWrite env cqe o
    w.endOnError env o err
  | .close => w.onClosing env cqe o
  | state => w.endOnError env o (some (.unknownConnectionState state.toNat))

/-- The entry of an accepted socket, with its addresses. -/
def enter (w : Worker) (fd : Int) (addr : Option NetAddr) : Nat × Worker :=
  let (o, w) := w.getFd fd
  (o, w.setConn o { w.heap o with
    fd := fd, localAddr := w.cfg.localAddr, remoteAddr := addr.or (w.heap o).remoteAddr })

/-- `OnAccept` is fired and the first request prepared. -/
def welcome (w : Worker) (env : Env) (sqe : Nat → Bool) (o : Nat) :
    Option (Option Error × Worker) :=
  w.within o fun x => do
    let x ← x.setUserSpace.fire w.cfg.source .onAccept env.handler
    x.addNextRequest w.cfg sqe

/-- `onAccept` of a shard -/
def onAccept (w : Worker) (env : Env) (cqe : Cqe) : Option (Option Error × Worker) :=
  match w.addAcceptConnRequest (env.sqe 0) with
  | (some err, w) =>
    some (some (.wrapped "add accept() request error" err), { w with accepting := false })
  | (none, w) =>
    let fd := cqe.res
    let (o, w) := w.enter fd w.clientAddr
    let incomingCpu := if w.cfg.cpuAffinity then env.incomingCpu else none
    let keepAlive := if w.cfg.tcpKeepAlive then env.keepAlive else none
    match incomingCpu, keepAlive with
    | some err, _ => some (some (.wrapped s!"fd: {fd}, setting SO_INCOMING_CPU error" err), w)
    | none, some err => some (some (.wrapped s!"fd: {fd}, setting tcpKeepAlive error" err), w)
    | none, none => w.welcome env (fun i => env.sqe (i + 1)) o

/-- `shardWorker.handleConn`. The main socket of a datagram server is never in
state `connWrite`, and a reply's connection ends when it is sent. -/
def shardHandleConn (w : Worker) (env : Env) (cqe : Cqe) (o : Nat) : Option Worker :=
  match (w.heap o).state with
  | .accept => do
    let (err, w) ← w.onAccept env cqe
    w.endOnError env o err
  | .read => do
    let (err, w) ← w.onRead env cqe o
    w.endOnError env o err
  | .write =>
    if w.cfg.sendRecvMsg then
      if (w.heap o).key = 1 then some w
      else do
        let (_, w) ← w.within o fun x => (x.onWritten w.cfg env cqe).map fun x => ((), x)
        w.release (w.heap o).key
    else do
      let (err, w) ← w.onWrite env cqe o
      w.endOnError env o err
  | .close => w.onClosing env cqe o
  | .invalid => w.endOnError env o (some (.unknownConnectionState 0))

/-- `handleNewConn` -/
def handleNewConn (w : Worker) (env : Env) (fd : Int) : Option (Option Error × Worker) :=
  let (o, w) := w.enter fd (w.socketAddresses.lookup fd)
  { w with socketAddresses := w.socketAddresses.erase fd }.welcome env env.sqe o

/-- One entry of `handleAsyncWrites`: an error is only logged. -/
def handleAsyncWrite (w : Worker) (env : Env) (o : Nat) : Option Worker :=
  (w.within o fun x =>
    match x.conn.nextAsyncOp with
    | .readOp => x.addReadRequest w.cfg (env.sqe 0)
    | .writeOp => x.writeData w.cfg env.sqe
    | .closeOp => some (x.addCloseConnRequest (env.sqe 0))
    | .noOp => some (none, x)).map Prod.snd

/-- `closeAllConns` and `closeAllConnsAndRings`: a close request for every
connection, in the order of the map's iteration, with the outcome of each
`GetSQE`. -/
def closeConns (w : Worker) (skipped : Int) : List (Int × Bool) → Worker
  | [] => w
  | (key, sqe) :: rest =>
    match w.connections.lookup key with
    | none => w.closeConns skipped rest
    | some o =>
      if (w.heap o).fd = skipped then w.closeConns skipped rest
      else
        let (err, x) := (w.session o).addCloseConnRequest sqe
        let w := w.setSession x
        let w := if err.isNone then
          { w with releaseFdSet := insert (w.heap o).fd w.releaseFdSet } else w
        w.closeConns skipped rest

/-- `onCloseHandler` -/
def onCloseHandler (w : Worker) (order : List (Int × Bool)) : Worker :=
  match w.cfg.kind with
  | .consumer => { w with closing := true, releaseFdSet := ∅ }.closeConns (-1) order
  | .shard =>
    { w with
      accepting := false, shut := w.cfg.listener :: w.shut, closing := true
      releaseFdSet := ∅ }.closeConns w.cfg.listener order

end Worker

end Gain
