import Gain.Pool.Ledger
import Gain.Uring.Queue

/-! # Connections

A connection as the workers and the handlers use it. A handler may only touch
the buffers while the connection is open and in user space. What a handler has
done with a connection, and what was done to it, is written down in a history
that the program itself does not have.
-/

namespace Gain

inductive ConnState where
  | invalid
  | accept
  | read
  | write
  | close
  deriving DecidableEq, Repr

/-- The value of the Go constant. -/
def ConnState.toNat : ConnState → Nat
  | invalid => 0
  | accept => 1
  | read => 2
  | write => 3
  | close => 4

inductive ConnMode where
  | kernelSpace
  | userSpace
  deriving DecidableEq, Repr

/-- `connModeString` -/
def connModeString : ConnMode → String
  | .kernelSpace => "kernelSpace"
  | .userSpace => "userSpace"

inductive AsyncOp where
  | noOp
  | readOp
  | writeOp
  | closeOp
  deriving DecidableEq, Repr

inductive Network where
  | tcp
  | udp
  deriving DecidableEq, Repr

/-- A network address, which is only stored and handed on. -/
abbrev NetAddr := Nat

/-- The buffer of a message header. -/
structure MsgHdr where
  base : Address
  len : Int
  deriving DecidableEq, Repr

structure Connection where
  fd : Int := 0
  key : Int := 0
  network : Network := .tcp
  inboundBuffer : Option RingBuffer := none
  outboundBuffer : Option RingBuffer := none
  state : ConnState := .invalid
  mode : ConnMode := .kernelSpace
  closed : Bool := false
  msgHdr : Option MsgHdr := none
  /-- The sender the kernel stored, if it can be read as an address. -/
  rawSockaddr : Option NetAddr := none
  localAddr : Option NetAddr := none
  remoteAddr : Option NetAddr := none
  nextAsyncOp : AsyncOp := .noOp
  /-- Which registration of the object this is. -/
  life : Nat := 0

inductive Callback where
  | onAccept
  | onRead (n : Int)
  | onWrite (n : Int)
  | onClose (err : Option Error)
  deriving DecidableEq, Repr

/-- What happened in one life of a connection object. -/
structure History where
  /-- The callbacks fired with it, oldest first. -/
  word : List Callback := []
  /-- The bytes its handlers took out of the inbound buffer. -/
  consumed : List UInt8 := []
  /-- The bytes its handlers put into the outbound buffer. -/
  written : List UInt8 := []
  /-- The bytes of the receive completions handled. -/
  delivered : List UInt8 := []
  /-- How many of them had been handled at each call of `OnRead`. -/
  receivedAt : List Nat := []
  /-- The bytes of the send completions handled. -/
  accepted : List UInt8 := []
  /-- The bytes the kernel has taken. -/
  taken : List UInt8 := []
  /-- A handler has called `Close`. -/
  closeCalled : Bool := false
  /-- A send has failed. -/
  sendFailed : Bool := false
  /-- The close requests that took effect. -/
  closes : Nat := 0
  released : Bool := false

/-- A callback is written down. -/
def History.fired (h : History) (callback : Callback) : History :=
  { h with
    word := h.word ++ [callback]
    receivedAt := match callback with
      | .onRead _ => h.receivedAt ++ [h.delivered.length]
      | _ => h.receivedAt }

namespace Connection

def setKernelSpace (c : Connection) : Connection := { c with mode := .kernelSpace }

def setUserSpace (c : Connection) : Connection := { c with mode := .userSpace }

def userOpAllowed (c : Connection) (name : String) : Option Error :=
  if c.closed then some .connectionClosed
  else if c.mode = .userSpace then none
  else some (.opNotAvailableInMode name (connModeString c.mode))

/-- `Close` -/
def close (c : Connection) : Option Error × Connection :=
  if c.network = .udp then (none, c)
  else if c.closed then (some .connectionAlreadyClosed, c)
  else (none, { c with closed := true })

def outboundBuffered (c : Connection) : Option Int := c.outboundBuffer.map RingBuffer.buffered

def onKernelRead (c : Connection) (n : Int) : Option Connection := do
  let inbound ← c.inboundBuffer
  let inbound ← inbound.advanceWrite n
  return { c with inboundBuffer := some inbound }

def onKernelWrite (c : Connection) (n : Int) : Option Connection := do
  let outbound ← c.outboundBuffer
  let outbound ← outbound.advanceRead n
  return { c with outboundBuffer := some outbound }

def setMsgHeaderWrite (c : Connection) : Option Connection := do
  let outbound ← c.outboundBuffer
  let base ← outbound.readAddress
  let _ ← c.msgHdr
  return { c with msgHdr := some ⟨base, outbound.buffered⟩ }

def initMsgHeader (c : Connection) : Option Connection := do
  let inbound ← c.inboundBuffer
  let base ← inbound.writeAddress
  return { c with msgHdr := some ⟨base, inbound.cap⟩, rawSockaddr := none }

/-- The kernel stores bytes at an address, which may lie in a buffer of the connection. -/
def deposit (c : Connection) (a : Address) (data : List UInt8) : Connection :=
  { c with
    inboundBuffer := c.inboundBuffer.map fun rb => rb.deposit a data
    outboundBuffer := c.outboundBuffer.map fun rb => rb.deposit a data }

/-- The memories behind the buffers of the connection. -/
def memories (c : Connection) : List VirtualMem :=
  (c.inboundBuffer.bind RingBuffer.vm).toList ++ (c.outboundBuffer.bind RingBuffer.vm).toList

end Connection

/-- A call of a handler on its connection. -/
inductive ConnOp where
  | read (buffer : List UInt8)
  | next (n : Int)
  | peek (n : Int)
  | discard (n : Int)
  | write (buffer : List UInt8)
  | close
  /-- The reader's chunks, its last chunk and its final error. -/
  | readFrom (chunks : List (List UInt8)) (last : List UInt8) (final : Error)
  /-- The writer's result. -/
  | writeTo (written : Int) (err : Option Error)

/-- What the code working on one connection reads and changes. -/
structure Session where
  /-- The object the connection is. -/
  obj : Nat
  conn : Connection
  history : History
  mem : VirtualMem.Ledger
  sq : Chains
  /-- The sockets shut down with `shutdown(2)`. -/
  shut : List Int

namespace Session

variable (source : MemSource VirtualMem.Ledger)

def setInbound (x : Session) (rb : RingBuffer) : Session :=
  { x with conn := { x.conn with inboundBuffer := some rb } }

def setOutbound (x : Session) (rb : RingBuffer) : Session :=
  { x with conn := { x.conn with outboundBuffer := some rb } }

def consume (x : Session) (bytes : List UInt8) : Session :=
  { x with history := { x.history with consumed := x.history.consumed ++ bytes } }

def produce (x : Session) (bytes : List UInt8) : Session :=
  { x with history := { x.history with written := x.history.written ++ bytes } }

/-- The method is refused, or works on the inbound buffer. -/
def onInbound {α : Type} (x : Session) (name : String) (refused : Error → α)
    (method : RingBuffer → Option (α × Session)) : Option (α × Session) :=
  match x.conn.userOpAllowed name with
  | some err => some (refused err, x)
  | none => x.conn.inboundBuffer.bind method

/-- The method is refused, or works on the outbound buffer. -/
def onOutbound {α : Type} (x : Session) (name : String) (refused : Error → α)
    (method : RingBuffer → Option (α × Session)) : Option (α × Session) :=
  match x.conn.userOpAllowed name with
  | some err => some (refused err, x)
  | none => x.conn.outboundBuffer.bind method

def next (x : Session) (n : Int) : Option ((List UInt8 × Option Error) × Session) :=
  x.onInbound "next" (fun err => ([], some err)) fun rb => do
    let ((bytes, err), rb) ← rb.next n
    return ((bytes, err), (x.setInbound rb).consume bytes)

def discard (x : Session) (n : Int) : Option ((Int × Option Error) × Session) :=
  x.onInbound "discard" (fun err => (0, some err)) fun rb => do
    let content ← rb.bytes
    let (count, rb) ← rb.discard n
    return ((count, none), (x.setInbound rb).consume (content.take count.toNat))

def peek (x : Session) (n : Int) : Option ((List UInt8 × Option Error) × Session) :=
  x.onInbound "peek" (fun err => ([], some err)) fun rb => do
    let bytes ← rb.peek n
    return ((bytes, none), x)

def read (x : Session) (buffer : List UInt8) :
    Option ((Int × Option Error × List UInt8) × Session) :=
  x.onInbound "read" (fun err => (0, some err, buffer)) fun rb => do
    let ((n, err, buffer), rb) ← rb.read buffer
    return ((n, err, buffer), (x.setInbound rb).consume (buffer.take n.toNat))

def writeTo (x : Session) (written : Int) (err : Option Error) :
    Option ((Int × Option Error) × Session) :=
  x.onInbound "writeTo" (fun err => (0, some err)) fun rb => do
    let ((offered, n, err), rb) ← rb.writeTo written err
    return ((n, err), (x.setInbound rb).consume (offered.take n.toNat))

def write (x : Session) (buffer : List UInt8) : Option ((Int × Option Error) × Session) :=
  x.onOutbound "write" (fun err => (0, some err)) fun rb => do
    let (n, rb, mem) ← rb.write source buffer x.mem
    return ((n, none), ({ x with mem := mem }.setOutbound rb).produce buffer)

def readFrom (x : Session) (chunks : List (List UInt8)) (last : List UInt8) (final : Error) :
    Option ((Int × Option Error) × Session) :=
  x.onOutbound "readFrom" (fun err => (0, some err)) fun rb => do
    let ((n, err), rb, mem) ← rb.readFrom source chunks last final x.mem
    return ((n, err), ({ x with mem := mem }.setOutbound rb).produce (chunks.flatten ++ last))

/-- `Close` called by a handler. -/
def close (x : Session) : Option Error × Session :=
  let (err, conn) := x.conn.close
  (err, { x with
    conn := conn
    history := { x.history with closeCalled := x.history.closeCalled || err.isNone } })

/-- One call of a handler, whose result the handler alone sees. -/
def call (x : Session) : ConnOp → Option Session
  | .read buffer => (x.read buffer).map Prod.snd
  | .next n => (x.next n).map Prod.snd
  | .peek n => (x.peek n).map Prod.snd
  | .discard n => (x.discard n).map Prod.snd
  | .write buffer => (x.write source buffer).map Prod.snd
  | .close => some x.close.2
  | .readFrom chunks last final => (x.readFrom source chunks last final).map Prod.snd
  | .writeTo written err => (x.writeTo written err).map Prod.snd

/-- The calls a handler makes. -/
def calls : List ConnOp → Session → Option Session
  | [], x => some x
  | op :: ops, x => (x.call source op).bind (calls ops)

/-- A callback is fired and its handler makes the calls. -/
def fire (x : Session) (callback : Callback) (ops : List ConnOp) : Option Session :=
  calls source ops { x with history := x.history.fired callback }

def setUserSpace (x : Session) : Session := { x with conn := x.conn.setUserSpace }

def prepare (x : Session) (q : Sqe) : Session :=
  { x with sq := Chains.push x.sq { q with obj := x.obj, life := x.conn.life } }

end Session

end Gain
