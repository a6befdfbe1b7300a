import Gain.Process.RingStore

/-! # Connections as objects of the process

The connections, the pools they come from and the connection managers of all
workers. Connections and ring buffers are objects, and one step is one operation of
a manager, one use of a ring buffer, or other changes to a connection by the worker
that has it. The operations of different managers come in any order.
-/

namespace Gain

open Function

/-- `connection`, with pointers to its ring buffers. -/
structure ConnObject where
  fd : Int := 0
  key : Int := 0
  network : Network := .tcp
  inboundBuffer : Option Nat := none
  outboundBuffer : Option Nat := none
  state : ConnState := .invalid
  mode : ConnMode := .kernelSpace
  closed : Bool := false
  msgHdr : Option MsgHdr := none
  /-- The space for a sender, and the sender if it can be read as an address. -/
  rawSockaddr : Option (Option NetAddr) := none
  localAddr : Option NetAddr := none
  remoteAddr : Option NetAddr := none
  ctx : Option Nat := none
  nextAsyncOp : AsyncOp := .noOp
  deriving DecidableEq

inductive Side where
  | inbound
  | outbound
  deriving DecidableEq

namespace ConnObject

def buffer (c : ConnObject) : Side → Option Nat
  | .inbound => c.inboundBuffer
  | .outbound => c.outboundBuffer

def setMsgHeaderWrite (c : ConnObject) (rings : RingStore) : Option ConnObject := do
  let r ← c.outboundBuffer
  let base ← (rings.heap r).readAddress
  let _ ← c.msgHdr
  return { c with msgHdr := some ⟨base, (rings.heap r).buffered⟩ }

def initMsgHeader (c : ConnObject) (rings : RingStore) : Option ConnObject := do
  let r ← c.inboundBuffer
  let base ← (rings.heap r).writeAddress
  return { c with msgHdr := some ⟨base, (rings.heap r).cap⟩, rawSockaddr := some none }

end ConnObject

/-- `connectionManager` -/
structure Manager where
  connections : AList fun _ : Int => Nat := ∅
  connectionsCount : Int := 0
  releaseFdSet : Finset Int := ∅
  keyPool : KeyPool := ⟨[], 2⟩

structure Process where
  rings : RingStore
  conns : Nat → ConnObject
  nextConn : Nat
  connPool : SyncPool Nat
  managers : Nat → Manager

namespace Process

variable (pageSize : Nat) (pos : 0 < pageSize)

def start (conns rings : Nat → Option Nat) (mems : Nat → Nat → Option Nat)
    (calibration : Nat → Option (Fin 15 × Fin 15)) : Process where
  rings := .start pageSize rings mems calibration
  conns := fun _ => {}
  nextConn := 0
  connPool := .empty conns
  managers := fun _ => {}

def setConn (p : Process) (o : Nat) (c : ConnObject) : Process :=
  { p with conns := update p.conns o c }

def setManager (p : Process) (m : Nat) (manager : Manager) : Process :=
  { p with managers := update p.managers m manager }

/-- Two ring buffers are taken for a connection. -/
def getBuffers (p : Process) : (Nat × Nat) × Process :=
  let (inbound, rings) := p.rings.get pageSize pos
  let (outbound, rings) := rings.get pageSize pos
  ((inbound, outbound), { p with rings := rings })

/-- `newConnection` -/
def newConnection (p : Process) : Nat × Process :=
  let ((inbound, outbound), p) := p.getBuffers pageSize pos
  (p.nextConn, { p with nextConn := p.nextConn + 1 }.setConn p.nextConn
    { inboundBuffer := some inbound, outboundBuffer := some outbound })

/-- `getConnection` -/
def getConnection (p : Process) : Nat × Process :=
  let (ptr, connPool) := p.connPool.get
  let p := { p with connPool := connPool }
  match ptr with
  | some o =>
    let ((inbound, outbound), p) := p.getBuffers pageSize pos
    (o, p.setConn o { p.conns o with
      inboundBuffer := some inbound, outboundBuffer := some outbound })
  | none => p.newConnection pageSize pos

/-- `putConnection` -/
def putConnection (p : Process) (o : Nat) : Option Process := do
  let c := p.conns o
  let rings ← p.rings.put c.inboundBuffer
  let rings ← rings.put c.outboundBuffer
  let c := { c with
    inboundBuffer := none, outboundBuffer := none, fd := 0, key := 0, state := .invalid
    msgHdr := none, rawSockaddr := none, mode := .kernelSpace, closed := false, network := .tcp
    ctx := none }
  return { p.setConn o c with rings := rings, connPool := p.connPool.put o }

/-- A connection is entered in the table of a manager. -/
def register (p : Process) (m : Nat) (key : Int) (o : Nat) : Process :=
  p.setManager m { p.managers m with
    connections := (p.managers m).connections.insert key o
    connectionsCount := addInt32 (p.managers m).connectionsCount 1 }

/-- `connectionManager.get` -/
def get (p : Process) (m : Nat) (key fd : Int) : Nat × Process :=
  match (p.managers m).connections.lookup key with
  | some o => (o, p)
  | none =>
    let (o, p) := p.getConnection pageSize pos
    (o, (p.setConn o { p.conns o with fd := fd, key := key }).register m key o)

/-- `connection.fork`, of one connection into another. -/
def forkConn (p : Process) (o f : Nat) (key : Int) (write : Bool) : Option Process := do
  let c := p.conns o
  let sender ← c.rawSockaddr
  let forked := { p.conns f with
    inboundBuffer := c.inboundBuffer, outboundBuffer := c.outboundBuffer, msgHdr := c.msgHdr
    rawSockaddr := c.rawSockaddr, state := c.state, fd := c.fd, key := key, network := .udp
    remoteAddr := sender.or (p.conns f).remoteAddr }
  let forked ← if write then forked.setMsgHeaderWrite p.rings else some forked
  let ((inbound, outbound), p) := p.getBuffers pageSize pos
  let c ← { c with inboundBuffer := some inbound, outboundBuffer := some outbound }.initMsgHeader
    p.rings
  return (p.setConn f forked).setConn o c

/-- `connectionManager.fork` -/
def fork (p : Process) (m o : Nat) (write : Bool) : Option (Nat × Process) := do
  let (key, keyPool) := (p.managers m).keyPool.get
  let p := p.setManager m { p.managers m with keyPool := keyPool }
  let (f, p) := p.getConnection pageSize pos
  let p ← p.forkConn pageSize pos o f (toInt64 key) write
  return (f, p.register m (toInt64 key) f)

/-- `connectionManager.release`. The key is pushed after the connection was reset. -/
def release (p : Process) (m : Nat) (key : Int) : Option Process :=
  match (p.managers m).connections.lookup key with
  | none => some p
  | some o => do
    let p := p.setManager m { p.managers m with
      connections := (p.managers m).connections.erase key
      connectionsCount := addInt32 (p.managers m).connectionsCount (-1) }
    let p ← p.putConnection o
    return p.setManager m { p.managers m with
      releaseFdSet := (p.managers m).releaseFdSet.erase key
      keyPool := (p.managers m).keyPool.put (toUint64 (p.conns o).key) }

inductive Label where
  | get (m : Nat) (key fd : Int)
  | fork (m : Nat) (key : Int) (write : Bool)
  | release (m : Nat) (key : Int)
  /-- The worker, the handler or the kernel uses a ring buffer of a connection. -/
  | use (m : Nat) (key : Int) (side : Side) (deed : RingBuffer.Deed)
  /-- The worker or the handler changes other fields of a connection. -/
  | assign (m : Nat) (key : Int) (c : ConnObject)

/-- One step, if the connection it is about is there and no code of it panics. -/
def step (p : Process) : Label → Option Process
  | .get m key fd => some (p.get pageSize pos m key fd).2
  | .fork m key write => do
    let o ← (p.managers m).connections.lookup key
    let (_, p) ← p.fork pageSize pos m o write
    return p
  | .release m key => p.release m key
  | .use m key side deed => do
    let o ← (p.managers m).connections.lookup key
    let r ← (p.conns o).buffer side
    let rings ← p.rings.use pageSize pos r deed
    return { p with rings := rings }
  | .assign m key c => do
    let o ← (p.managers m).connections.lookup key
    return p.setConn o { c with
      key := (p.conns o).key, inboundBuffer := (p.conns o).inboundBuffer
      outboundBuffer := (p.conns o).outboundBuffer }

end Process

end Gain
