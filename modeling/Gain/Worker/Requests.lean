import Gain.Worker.State

/-! # Preparing requests

The requests a worker prepares for a connection, and the end of a connection.
Every `GetSQE` of the source is an outcome given by the caller: whether there
was a free entry.
-/

namespace Gain

namespace Session

variable (cfg : Config)

/-- The entry of a receive: of a message through the header, otherwise into the
free part of the inbound buffer. -/
def recvEntry (conn : Connection) (inbound : RingBuffer) : Option Sqe :=
  if cfg.sendRecvMsg then
    let header := conn.msgHdr.getD ⟨⟨0, 0⟩, 0⟩
    some { flag := .read, key := conn.key, fd := conn.fd, addr := header.base, len := header.len }
  else
    inbound.writeAddress.map fun addr =>
      { flag := .read, key := conn.fd, fd := conn.fd, addr := addr, len := inbound.available }

/-- The entry of a send: of a message through the header, otherwise of the content
of the outbound buffer. -/
def sendEntry (conn : Connection) (link : Bool) : Option Sqe :=
  if cfg.sendRecvMsg then
    let header := conn.msgHdr.getD ⟨⟨0, 0⟩, 0⟩
    some { flag := .write, key := conn.key, fd := conn.fd, addr := header.base,
           len := header.len, link := link }
  else
    conn.outboundBuffer.bind fun outbound => outbound.readAddress.map fun addr =>
      { flag := .write, key := conn.fd, fd := conn.fd, addr := addr,
        len := outbound.buffered, link := link }

/-- `addReadRequest` -/
def addReadRequest (sqe : Bool) (x : Session) : Option (Option Error × Session) :=
  if !sqe then some (some .gettingSQE, x)
  else do
    let inbound ← x.conn.inboundBuffer
    let (inbound, mem) ← inbound.growIfUnsufficientFreeSpace cfg.source x.mem
    let x := { x with mem := mem }.setInbound inbound
    let entry ← recvEntry cfg x.conn inbound
    let x := x.prepare entry
    return (none, { x with conn := { x.conn with state := .read }.setKernelSpace })

/-- `addWriteRequest` -/
def addWriteRequest (sqe link : Bool) (x : Session) : Option (Option Error × Session) :=
  if !sqe then some (some .gettingSQE, x)
  else do
    let entry ← sendEntry cfg x.conn link
    let x := x.prepare entry
    return (none, { x with conn := { x.conn with state := .write }.setKernelSpace })

/-- `addCloseConnRequest` -/
def addCloseConnRequest (sqe : Bool) (x : Session) : Option Error × Session :=
  if !sqe then (some .gettingSQE, x)
  else
    let x := x.prepare { flag := .close, key := x.conn.fd, fd := x.conn.fd }
    (none, { x with conn := { x.conn with state := .close } })

/-- `syscallCloseSocket` shuts the socket down; its result is never used. -/
def syscallCloseSocket (fd : Int) (x : Session) : Session := { x with shut := fd :: x.shut }

/-- `writeData` -/
def writeData (sqe : Nat → Bool) (x : Session) : Option (Option Error × Session) := do
  let conn ← if cfg.sendRecvMsg then x.conn.setMsgHeaderWrite else some x.conn
  let x := { x with conn := conn }
  let closed := x.conn.closed
  let (err, x) ← x.addWriteRequest cfg (sqe 0) closed
  match err with
  | some err => return (some err, x)
  | none => if closed then return x.addCloseConnRequest (sqe 1) else return (none, x)

/-- `addNextRequest` -/
def addNextRequest (sqe : Nat → Bool) (x : Session) : Option (Option Error × Session) := do
  let closed := x.conn.closed
  let pending ← x.conn.outboundBuffered
  if pending > 0 then
    let (err, x) ← x.addWriteRequest cfg (sqe 0) closed
    match err with
    | some err => return (some (.wrapped "add read() request error" err), x)
    | none =>
      if closed then
        let (err, x) := x.addCloseConnRequest (sqe 1)
        return (err.map (.wrapped "add close() request error"), x)
      else return (none, x)
  else if closed then
    let (err, x) := x.addCloseConnRequest (sqe 0)
    return (err.map (.wrapped "add close() request error"), x)
  else
    let (err, x) ← x.addReadRequest cfg (sqe 0)
    return (err.map (.wrapped "add read() request error"), x)

/-- The bytes of a completed receive are counted. -/
def onKernelRead (cqe : Cqe) (x : Session) : Option Session := do
  let conn ← x.conn.onKernelRead cqe.res
  return { x with
    conn := conn
    history := { x.history with delivered := x.history.delivered ++ cqe.data } }

/-- The bytes of a completed send are dropped. -/
def onKernelWrite (cqe : Cqe) (x : Session) : Option Session := do
  let conn ← x.conn.onKernelWrite cqe.res
  return { x with
    conn := conn
    history := { x.history with accepted := x.history.accepted ++ cqe.data } }

/-- `closeConn` up to the release. -/
def closeConn (syscallClose : Bool) (err : Option Error) (ops : List ConnOp) (x : Session) :
    Option Session :=
  let x := if syscallClose then x.syscallCloseSocket x.conn.fd else x
  let x := x.setUserSpace
  let x := if x.conn.closed then x else { x with conn := x.conn.close.2 }
  x.fire cfg.source (.onClose err) ops

end Session

namespace Worker

/-- Code that works on one connection. -/
def within {α : Type} (w : Worker) (o : Nat) (code : Session → Option (α × Session)) :
    Option (α × Worker) :=
  (code (w.session o)).map fun (a, x) => (a, w.setSession x)

/-- `closeConn` -/
def closeConn (w : Worker) (o : Nat) (syscallClose : Bool) (err : Option Error)
    (ops : List ConnOp) : Option Worker := do
  let x ← (w.session o).closeConn w.cfg syscallClose err ops
  (w.setSession x).release x.conn.key

/-- `addAcceptConnRequest` -/
def addAcceptConnRequest (w : Worker) (sqe : Bool) : Option Error × Worker :=
  if !sqe then (some .gettingSQE, w)
  else
    let fd := w.cfg.listener
    let w := { w with sq := Chains.push w.sq { flag := .accept, key := fd, fd := fd } }
    let (o, w) := w.getFd fd
    (none, w.setConn o { w.heap o with state := .accept })

end Worker

end Gain
