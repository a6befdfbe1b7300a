import Mathlib.Data.List.AList
import Mathlib.Data.Finset.Basic
import Gain.Conn.Connection
import Gain.Foundation.Machine

/-! # The state of a worker

A worker owns an `io_uring` instance, a connection manager and, through the
process, the pools of connections and of ring buffers. Connection objects are
numbered, so that a goroutine or a queue may hold one that has been released in
the meantime. The descriptors that are open belong to the kernel.
-/

namespace Gain

open Function VirtualMem

/-- The pool of ring buffers. When a `Put` calibrates it and which of the 15 classes
of sizes become the default and the maximal one is left open. -/
structure BufferPool where
  pool : SyncPool RingBuffer
  defaultSize : Int
  maxSize : Int
  calibration : Nat → Option (Fin 15 × Fin 15)
  puts : Nat

namespace BufferPool

def get (source : MemSource Ledger) (p : BufferPool) (mem : Ledger) :
    RingBuffer × BufferPool × Ledger :=
  match p.pool.get with
  | (some rb, pool) => (rb, { p with pool := pool }, mem)
  | (none, pool) =>
    let (rb, mem) := RingBuffer.newMagicBuffer source p.defaultSize mem
    (rb, { p with pool := pool }, mem)

/-- `minSize << i` -/
def callSize (i : Fin 15) : Int := 2 ^ 12 * 2 ^ i.val

/-- `ringbuffer.Put` of a pointer, which panics on nil. -/
def put (p : BufferPool) (ptr : Option RingBuffer) : Option BufferPool := do
  let rb ← ptr
  let rb ← rb.zeroes
  let (defaultSize, maxSize) := match p.calibration p.puts with
    | some (i, j) => (callSize i, callSize j)
    | none => (p.defaultSize, p.maxSize)
  let p := { p with defaultSize := defaultSize, maxSize := maxSize, puts := p.puts + 1 }
  if maxSize = 0 ∨ rb.cap ≤ maxSize then return { p with pool := p.pool.put rb.reset }
  else return p

end BufferPool

/-- The free keys, the last one returned first, and the 64-bit counter of keys. -/
structure KeyPool where
  stack : List Nat
  nextKey : Nat

namespace KeyPool

/-- An empty stack and a returned key 0 both lead to the counter. -/
def get (p : KeyPool) : Nat × KeyPool :=
  match p.stack with
  | [] => (p.nextKey, { p with nextKey := (p.nextKey + 1) % 2 ^ 64 })
  | 0 :: rest => (p.nextKey, ⟨rest, (p.nextKey + 1) % 2 ^ 64⟩)
  | key :: rest => (key, { p with stack := rest })

def put (p : KeyPool) (key : Nat) : KeyPool := { p with stack := key :: p.stack }

/-- As long as only the key 0 is returned, every key is taken from the counter. -/
theorem get_of_zeros {p : KeyPool} (zeros : ∀ key ∈ p.stack, key = 0) :
    p.get.1 = p.nextKey ∧ p.get.2.nextKey = (p.nextKey + 1) % 2 ^ 64 ∧
      ∀ key ∈ p.get.2.stack, key = 0 := by
  unfold KeyPool.get
  split
  · exact ⟨rfl, rfl, zeros⟩
  · rename_i rest same
    refine ⟨rfl, rfl, fun key member => zeros key ?_⟩
    rw [same]
    exact List.mem_cons_of_mem 0 member
  · rename_i key rest nonzero same
    refine absurd (zeros key ?_) nonzero
    rw [same]
    exact List.mem_cons_self

end KeyPool

inductive Kind where
  | consumer
  | shard
  deriving DecidableEq, Repr

structure Config where
  kind : Kind
  pageSize : Nat
  pageSize_pos : 0 < pageSize
  /-- The listening socket of a shard. -/
  listener : Int
  asyncHandler : Bool
  sendRecvMsg : Bool
  cpuAffinity : Bool
  /-- `tcpKeepAlive > 0` -/
  tcpKeepAlive : Bool
  maxCQEvents : Nat
  /-- The kernel can send messages between rings. -/
  ringsMessaging : Bool
  localAddr : Option NetAddr

/-- The memory of the process. -/
def Config.source (cfg : Config) : MemSource Ledger :=
  Ledger.source cfg.pageSize cfg.pageSize_pos

/-- A handler that runs, or is about to run, in a goroutine of its own. -/
structure Task where
  obj : Nat
  n : Int
  begun : Bool

/-- Where the loop is: before an iteration, in a batch with some events left, in
the queue of new connections, in the queue of asynchronous operations, or at its
end. -/
inductive Phase where
  | top
  /-- The prepared requests are submitted. -/
  | peek
  | events (left : Nat)
  | conns
  | asyncs
  | stopped
  deriving DecidableEq, Repr

structure Worker where
  cfg : Config
  -- the connection objects of the process
  heap : Nat → Connection
  nextObj : Nat
  connPool : SyncPool Nat
  bufPool : BufferPool
  mem : Ledger
  -- the connection manager
  connections : AList fun _ : Int => Nat
  connectionsCount : Int
  closing : Bool
  releaseFdSet : Finset Int
  keyPool : KeyPool
  -- the ring: prepared, submitted and completed requests
  sq : Chains
  inflight : Chains
  cq : List Cqe
  -- the loop and what it shares with other goroutines
  phase : Phase
  shutdowning : Bool
  inProgress : Bool
  accepting : Bool
  clientAddr : Option NetAddr
  socketAddresses : AList fun _ : Int => NetAddr
  connQueue : List Int
  asyncOpQueue : List Nat
  tasks : List Task
  -- the kernel's descriptors, and those shut down
  openFds : List Int
  shut : List Int
  -- what happened in each life of an object
  histories : Nat → History
  nextLife : Nat

namespace Worker

/-- What code working on the object reads and changes. -/
def session (w : Worker) (o : Nat) : Session :=
  ⟨o, w.heap o, w.histories (w.heap o).life, w.mem, w.sq, w.shut⟩

def setSession (w : Worker) (x : Session) : Worker :=
  { w with
    heap := update w.heap x.obj x.conn
    histories := update w.histories x.conn.life x.history
    mem := x.mem
    sq := x.sq
    shut := x.shut }

def setConn (w : Worker) (o : Nat) (c : Connection) : Worker :=
  { w with heap := update w.heap o c }

/-- `getConnection` -/
def getConnection (w : Worker) : Nat × Worker :=
  let (ptr, connPool) := w.connPool.get
  let (inbound, bufPool, mem) := w.bufPool.get w.cfg.source w.mem
  let (outbound, bufPool, mem) := bufPool.get w.cfg.source mem
  let w := { w with connPool := connPool, bufPool := bufPool, mem := mem }
  match ptr with
  | some o =>
    (o, w.setConn o { w.heap o with
      inboundBuffer := some inbound, outboundBuffer := some outbound })
  | none =>
    (w.nextObj, { w with nextObj := w.nextObj + 1 }.setConn w.nextObj
      { inboundBuffer := some inbound, outboundBuffer := some outbound })

/-- `putConnection` -/
def putConnection (w : Worker) (o : Nat) : Option Worker := do
  let c := w.heap o
  let bufPool ← w.bufPool.put c.inboundBuffer
  let bufPool ← bufPool.put c.outboundBuffer
  let c := { c with
    inboundBuffer := none, outboundBuffer := none, fd := 0, key := 0, state := .invalid
    msgHdr := none, rawSockaddr := none, mode := .kernelSpace, closed := false, network := .tcp }
  return { w.setConn o c with bufPool := bufPool, connPool := w.connPool.put o }

/-- The object is entered under the key, in a life of its own. -/
def register (w : Worker) (key : Int) (o : Nat) (c : Connection) : Worker :=
  { w.setConn o { c with life := w.nextLife } with
    connections := w.connections.insert key o
    connectionsCount := addInt32 w.connectionsCount 1
    nextLife := w.nextLife + 1 }

/-- `connectionManager.get`, which enters a connection under an unknown key. -/
def get (w : Worker) (key fd : Int) : Nat × Worker :=
  match w.connections.lookup key with
  | some o => (o, w)
  | none =>
    let (o, w) := w.getConnection
    (o, w.register key o { w.heap o with fd := fd, key := key })

def getFd (w : Worker) (fd : Int) : Nat × Worker := w.get fd fd

/-- `connectionManager.release`. The key is pushed after the connection was reset. -/
def release (w : Worker) (key : Int) : Option Worker :=
  match w.connections.lookup key with
  | none => some w
  | some o => do
    let life := (w.heap o).life
    let w ← { w with
      connections := w.connections.erase key
      connectionsCount := addInt32 w.connectionsCount (-1) }.putConnection o
    return { w with
      releaseFdSet := w.releaseFdSet.erase key
      keyPool := w.keyPool.put (toUint64 (w.heap o).key)
      histories := update w.histories life
        { w.histories life with released := true } }

/-- The key of the next fork. -/
def forkKey (w : Worker) : Int := toInt64 w.keyPool.get.1

/-- `connectionManager.fork`: the buffers and the header go to a new connection,
and the main one is equipped anew. -/
def fork (w : Worker) (o : Nat) (write : Bool) : Option (Nat × Worker) := do
  let (key, keyPool) := w.keyPool.get
  let (f, w) := { w with keyPool := keyPool }.getConnection
  let c := w.heap o
  let forked := { w.heap f with
    inboundBuffer := c.inboundBuffer, outboundBuffer := c.outboundBuffer, msgHdr := c.msgHdr
    rawSockaddr := c.rawSockaddr, state := c.state, fd := c.fd, key := toInt64 key, network := .udp
    remoteAddr := c.rawSockaddr.or (w.heap f).remoteAddr }
  let forked ← if write then forked.setMsgHeaderWrite else some forked
  let (inbound, bufPool, mem) := w.bufPool.get w.cfg.source w.mem
  let (outbound, bufPool, mem) := bufPool.get w.cfg.source mem
  let c ← { c with inboundBuffer := some inbound, outboundBuffer := some outbound }.initMsgHeader
  let w := { w with bufPool := bufPool, mem := mem }.setConn o c
  return (f, w.register (toInt64 key) f forked)

/-- `connectionManager.allClosed` -/
def allClosed (w : Worker) : Bool := w.closing && w.releaseFdSet = ∅

/-- `activeConnections`: a shard does not count its listener. -/
def activeConnections (w : Worker) : Int :=
  match w.cfg.kind with
  | .consumer => w.connectionsCount
  | .shard => w.connectionsCount - 1

end Worker

end Gain
