import Mathlib.Order.Basic
import Mathlib.Tactic.SplitIfs
import Gain.Errors
import Gain.Foundation.Run

/-! # The engine

`Start` brings the workers up and waits for them; `Shutdown` and `AsyncShutdown`
signal a goroutine that `Start` has spawned, which closes the workers and hands
back. All of them run at the same time and share the state of the engine and two
channels without buffers. Each load, store and exchange is one step.
-/

namespace Gain

/-- A string, by its characters. -/
abbrev Text := List Char

def udp : Text := ['u', 'd', 'p']

def tcp : Text := ['t', 'c', 'p']

/-- What stands before and after the first `://`. -/
def cutProto : Text → Option (Text × Text)
  | ':' :: '/' :: '/' :: rest => some ([], rest)
  | c :: rest => (cutProto rest).map fun (before, after) => (c :: before, after)
  | [] => none

/-- The network and the address, which ends at a second `://`. -/
def parseProtoAddr (addr : Text) : Text × Text :=
  let address := addr.map Char.toLower
  match cutProto address with
  | none => (tcp, address)
  | some (network, rest) => (network, ((cutProto rest).map Prod.fst).getD rest)

inductive Architecture where
  | reactor
  | socketSharding
  deriving DecidableEq

inductive LoadBalancing where
  | roundRobin
  | leastConnections
  | sourceIPHash
  | other (n : Int)
  deriving DecidableEq

/-- The error of `createLoadBalancer`. -/
def createLoadBalancer : LoadBalancing → Option Error
  | .other _ => some .notSupported
  | _ => none

namespace Engine

structure Config where
  architecture : Architecture := .reactor
  workers : Int
  cbpFilter : Bool := false
  loadBalancing : LoadBalancing := .roundRobin

/-- What the environment answers to one step of `start`. -/
structure Outcome where
  /-- The error of the probe, the socket, the ring or the worker. -/
  err : Option Error := none
  /-- The error of the packet filter. -/
  filter : Option Error := none

/-- The kind of socket that `normalize` opens for a network. -/
inductive SocketKind where
  | stream
  | datagram
  deriving DecidableEq

/-- The networks `normalize` knows. -/
def socketKind (network : Text) : Option SocketKind :=
  if network = tcp ∨ network = tcp ++ ['4'] ∨ network = tcp ++ ['6'] then some .stream
  else if network = udp ∨ network = udp ++ ['4'] ∨ network = udp ++ ['6'] then some .datagram
  else none

/-- The error of `normalize`. -/
def normalize (network : Text) (o : Outcome) : Option Error :=
  match socketKind network with
  | some _ => o.err
  | none => some .unsupportedProtocol

/-- The error of `initListener`: the one of the packet filter replaces the other. -/
def initListener (cfg : Config) (network : Text) (o : Outcome) : Option Error :=
  if cfg.cbpFilter then o.filter else normalize network o

inductive Phase where
  | inactive
  | starting
  | running
  | closing
  deriving DecidableEq

inductive CloseSignal where
  | system
  | user
  deriving DecidableEq

/-- Where a call of `Start` or `StartAsMainProcess` is. -/
inductive StartAt where
  | isRunning
  | load
  | store
  | probe
  | notify
  | spawn
  | parse
  /-- Opening the listeners of the shards. -/
  | listeners (i : Nat)
  /-- Creating the shards. -/
  | shards (i : Nat)
  /-- Opening the listener of the reactor. -/
  | listener
  | balancer
  | acceptor
  | consumers (i : Nat)
  | closer
  | launch
  | running
  /-- `OnStart` and waiting for the workers. -/
  | serving
  | returned (err : Option Error)
  deriving DecidableEq

structure StartCall where
  mainProcess : Bool
  address : Text
  place : StartAt := .isRunning
  /-- The run of the engine that the call starts. -/
  run : Nat := 0

inductive CallKind where
  | shutdown
  | asyncShutdown
  deriving DecidableEq

/-- Where a call of `Shutdown` or `AsyncShutdown` is. -/
inductive CallAt where
  | load
  | store
  | sending
  | awaiting
  | skipped
  | returned
  deriving DecidableEq

structure Call where
  kind : CallKind
  place : CallAt := .load
  /-- The run of the engine that the call shuts down. -/
  run : Nat := 0

/-- Where a close goroutine is. -/
inductive CloserAt where
  | receiving
  | received (signal : CloseSignal)
  /-- In the closer of a run. -/
  | closing (signal : CloseSignal) (run : Nat)
  | storing (signal : CloseSignal)
  | handingBack (signal : CloseSignal)
  | exiting
  | finished
  deriving DecidableEq

/-- Where a goroutine that waits for a signal of the system is. -/
inductive NotifyAt where
  | waiting
  | sending
  | finished
  deriving DecidableEq

end Engine

open Engine in
structure Engine where
  state : Engine.Phase := .inactive
  network : Text := []
  address : Text := []
  /-- The run whose closer is stored. -/
  closer : Option Nat := none
  starts : List StartCall := []
  calls : List Call := []
  closers : List CloserAt := []
  notifiers : List NotifyAt := []
  exited : Bool := false
  /-- The number of runs begun. -/
  runs : Nat := 0
  /-- The run that reached its end of starting last. -/
  current : Nat := 0
  /-- The runs whose closer has returned. -/
  closed : List Nat := []

namespace Engine

/-- One step of `start`, which panics when the number of shards is negative. -/
def advance (cfg : Config) : Engine × StartCall → Outcome → Option (Engine × StartCall)
  | (e, c), o =>
    match c.place with
    | .isRunning =>
      if e.state = .running then
        some (e, { c with place := .returned (some .serverAlreadyRunning) })
      else some (e, { c with place := .load })
    | .load =>
      if e.state ≠ .inactive then some (e, { c with place := .returned (some .invalidState) })
      else some (e, { c with place := .store })
    | .store =>
      some ({ e with state := .starting, runs := e.runs + 1 },
        { c with place := .probe, run := e.runs })
    | .probe =>
      match o.err with
      | some err => some (e, { c with place := .returned (some (.wrapped "getProbe err" err)) })
      | none => some (e, { c with place := .notify })
    | .notify =>
      if c.mainProcess then
        some ({ e with notifiers := e.notifiers ++ [.waiting] }, { c with place := .spawn })
      else some (e, { c with place := .spawn })
    | .spawn => some ({ e with closers := e.closers ++ [.receiving] }, { c with place := .parse })
    | .parse =>
      let (network, address) := parseProtoAddr c.address
      let e := { e with network := network, address := address }
      if cfg.architecture = .socketSharding ∨ network = udp then
        if cfg.workers < 0 then none else some (e, { c with place := .listeners 0 })
      else some (e, { c with place := .listener })
    | .listeners i =>
      if (i : Int) < cfg.workers then
        match initListener cfg e.network o with
        | some err => some (e, { c with place := .returned (some err) })
        | none => some (e, { c with place := .listeners (i + 1) })
      else some (e, { c with place := .shards 0 })
    | .shards i =>
      if (i : Int) < cfg.workers then
        match o.err with
        | some err =>
          some (e, { c with place := .returned (some (.wrapped "creating ring error" err)) })
        | none => some (e, { c with place := .shards (i + 1) })
      else some (e, { c with place := .closer })
    | .listener =>
      match initListener cfg e.network o with
      | some err => some (e, { c with place := .returned (some err) })
      | none => some (e, { c with place := .balancer })
    | .balancer =>
      match createLoadBalancer cfg.loadBalancing with
      | some err => some (e, { c with place := .returned (some err) })
      | none => some (e, { c with place := .acceptor })
    | .acceptor =>
      match o.err with
      | some err =>
        some (e, { c with place := .returned (some (.wrapped "creating ring error" err)) })
      | none => some (e, { c with place := .consumers 0 })
    | .consumers i =>
      if (i : Int) < cfg.workers then
        match o.err with
        | some err =>
          some (e, { c with place := .returned (some (.wrapped "creating ring error" err)) })
        | none => some (e, { c with place := .consumers (i + 1) })
      else some (e, { c with place := .closer })
    | .closer => some ({ e with closer := some c.run }, { c with place := .launch })
    | .launch => some (e, { c with place := .running })
    | .running =>
      some ({ e with state := .running, current := c.run }, { c with place := .serving })
    | .serving => some (e, { c with place := .returned none })
    | .returned _ => none

inductive Label where
  | callStart (mainProcess : Bool) (address : Text)
  | call (kind : CallKind)
  /-- The next step of a `Start`. -/
  | start (i : Nat) (o : Outcome)
  /-- The next load or store of a `Shutdown` or `AsyncShutdown`. -/
  | caller (i : Nat)
  /-- A signal of the system arrives. -/
  | notified (n : Nat)
  /-- A caller and a close goroutine meet on `closeChan`. -/
  | signal (i j : Nat)
  | systemSignal (n j : Nat)
  /-- The next step of a close goroutine by itself. -/
  | closer (j : Nat)
  /-- A close goroutine and a caller meet on `closeBackChan`. -/
  | back (j i : Nat)

/-- A load or a store of `Shutdown` or `AsyncShutdown`. -/
def stepCall (e : Engine) (i : Nat) (c : Call) : Option Engine :=
  match c.place with
  | .load =>
    if e.state = .running then
      some { e with calls := e.calls.set i { c with place := .store, run := e.current } }
    else some { e with calls := e.calls.set i { c with place := .skipped } }
  | .store =>
    some { e with state := .closing, calls := e.calls.set i { c with place := .sending } }
  | _ => none

/-- A close goroutine by itself. Calling a closer that is not set panics; the error of a
closer is only logged. -/
def stepCloser (e : Engine) (j : Nat) (g : CloserAt) : Option Engine :=
  match g with
  | .received signal =>
    e.closer.map fun run => { e with closers := e.closers.set j (.closing signal run) }
  | .closing signal run =>
    some { e with closers := e.closers.set j (.storing signal), closed := run :: e.closed }
  | .storing signal =>
    some { e with state := .inactive, closers := e.closers.set j (.handingBack signal) }
  | .exiting => some { e with exited := true, closers := e.closers.set j .finished }
  | _ => none

/-- What a caller does once its signal was received. -/
def CallKind.signalled : CallKind → CallAt
  | .shutdown => .awaiting
  | .asyncShutdown => .returned

def step (cfg : Config) (e : Engine) (l : Label) : Option Engine :=
  if e.exited then none else
  match l with
  | .callStart mainProcess address =>
    some { e with starts := e.starts ++ [{ mainProcess := mainProcess, address := address }] }
  | .call kind => some { e with calls := e.calls ++ [{ kind := kind }] }
  | .start i o => do
    let c ← e.starts[i]?
    let (e, c) ← advance cfg (e, c) o
    return { e with starts := e.starts.set i c }
  | .caller i => do stepCall e i (← e.calls[i]?)
  | .notified n =>
    if e.notifiers[n]? = some .waiting then
      some { e with notifiers := e.notifiers.set n .sending }
    else none
  | .signal i j => do
    let c ← e.calls[i]?
    if c.place = .sending ∧ e.closers[j]? = some .receiving then
      return { e with
        calls := e.calls.set i { c with place := c.kind.signalled }
        closers := e.closers.set j (.received .user) }
    else none
  | .systemSignal n j =>
    if e.notifiers[n]? = some .sending ∧ e.closers[j]? = some .receiving then
      some { e with
        notifiers := e.notifiers.set n .finished
        closers := e.closers.set j (.received .system) }
    else none
  | .closer j => do stepCloser e j (← e.closers[j]?)
  | .back j i => do
    let c ← e.calls[i]?
    match e.closers[j]? with
    | some (.handingBack signal) =>
      if c.place = .awaiting then
        return { e with
          calls := e.calls.set i { c with place := .returned }
          closers := e.closers.set j (if signal = .system then .exiting else .finished) }
      else none
    | _ => none

end Engine

end Gain
