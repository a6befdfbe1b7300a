import Mathlib.Data.Fintype.Option
import Gain.Foundation.Parcels
import Gain.Worker.Mail

/-! # The acceptor and its consumers

An acceptor accepts connections and hands each to one of its consumers, by a message
from ring to ring or through the consumer's queue. The address of the connection goes
a way of its own: the acceptor stores it for the descriptor before the message is
even submitted. Any order of steps of the acceptor, the kernel and the consumers is a
run.
-/

namespace Gain

/-- A request on the acceptor's ring. -/
inductive AcceptorSqe (n : Nat) where
  | accept
  /-- The message that announces a connection to a consumer. -/
  | addConn (consumer : Fin n) (fd : Int)
  deriving DecidableEq

structure AcceptorCqe (n : Nat) where
  sqe : AcceptorSqe n
  res : Int

/-- The outcomes of `GetSQE`, the result of setting the keep-alive period and the choice of the
load balancer. -/
structure AcceptorEnv (n : Nat) where
  sqe : Nat → Bool := fun _ => true
  keepAlive : Option Error := none
  consumer : Fin n

/-- `acceptorWorker` -/
structure Acceptor (n : Nat) where
  /-- `tcpKeepAlive > 0` -/
  tcpKeepAlive : Bool
  maxCQEvents : Nat
  /-- The connections are added by `addConnViaRing`. -/
  ringsMessaging : Bool
  fd : Int
  sq : List (AcceptorSqe n)
  inflight : List (AcceptorSqe n)
  cq : List (AcceptorCqe n)
  phase : Phase
  shutdowning : Bool
  inProgress : Bool
  accepting : Bool
  clientAddr : Option NetAddr
  shut : List Int

namespace Acceptor

variable {n : Nat}

def needToShutdown (a : Acceptor n) : Bool := a.shutdowning && !a.inProgress

/-- `syscallCloseSocket` -/
def syscallCloseSocket (a : Acceptor n) (fd : Int) : Acceptor n := { a with shut := fd :: a.shut }

/-- `addAcceptRequest` -/
def addAcceptRequest (a : Acceptor n) (sqe : Bool) : Option Error × Acceptor n :=
  if !sqe then (some .gettingSQE, a) else (none, { a with sq := a.sq ++ [.accept] })

/-- `addConnViaRing` -/
def addConnViaRing (a : Acceptor n) (sqe : Bool) (consumer : Fin n) (fd : Int) :
    Option Error × Acceptor n :=
  if !sqe then (some .gettingSQE, a)
  else (none, { a with sq := a.sq ++ [.addConn consumer fd] })

/-- The kernel posts the result of a submitted request. -/
def completed (a : Acceptor n) (i : Nat) (sqe : AcceptorSqe n) (res : Int) : Acceptor n :=
  { a with inflight := a.inflight.eraseIdx i, cq := a.cq ++ [⟨sqe, res⟩] }

end Acceptor

/-- The acceptor, its consumers and the descriptors of the process, with what happened to the
connections accepted. -/
structure Reactor (n : Nat) where
  acceptor : Acceptor n
  consumers : Fin n → Worker
  openFds : List Int
  /-- The successful accepts, with the address of the peer. -/
  accepted : List (Int × Option NetAddr)
  /-- The descriptors the acceptor has disposed of. -/
  disposed : List (Int × Option NetAddr)
  /-- The calls of `handleNewConn`, with the remote address they set. -/
  handled : List (Fin n × Int × Option NetAddr)

namespace Reactor

variable {n : Nat}

inductive Label (n : Nat) where
  /-- Another goroutine asks the acceptor to shut down. -/
  | shutdown
  /-- The shutdown handler and the submission of prepared requests. -/
  | turn (entries : Nat) (result : Submit)
  /-- `PeekBatchCQE` -/
  | peek
  | event (env : AcceptorEnv n)
  | endBatch
  /-- The kernel executes a submitted request. -/
  | complete (i : Nat) (res : Int) (peer : Option NetAddr)
  | consumer (i : Fin n) (label : Gain.Label)

def setConsumer (r : Reactor n) (i : Fin n) (w : Worker) : Reactor n :=
  { r with consumers := Function.update r.consumers i w }

/-- The acceptor's loop returns. -/
def stop (r : Reactor n) : Reactor n := { r with acceptor := { r.acceptor with phase := .stopped } }

/-- `closeRingAndConsumers` -/
def closeRingAndConsumers (r : Reactor n) : Reactor n :=
  { r with
    acceptor := { r.acceptor.syscallCloseSocket r.acceptor.fd with accepting := false }
    consumers := fun i => { r.consumers i with shutdowning := true } }

/-- `addConnViaQueue` -/
def addConnViaQueue (r : Reactor n) (consumer : Fin n) (fd : Int) : Option Error × Reactor n :=
  match (r.consumers consumer).addConnToQueue fd with
  | (some err, _) => (some (.wrapped "error adding connection to queue" err), r)
  | (none, w) => (none, r.setConsumer consumer w)

/-- `addConnMethod` -/
def addConnMethod (r : Reactor n) (sqe : Bool) (consumer : Fin n) (fd : Int) :
    Option Error × Reactor n :=
  if r.acceptor.ringsMessaging then
    let (err, a) := r.acceptor.addConnViaRing sqe consumer fd
    (err, { r with acceptor := a })
  else r.addConnViaQueue consumer fd

/-- The acceptor disposes of a descriptor. -/
def dispose (r : Reactor n) (fd : Int) : Reactor n :=
  { r with
    acceptor := r.acceptor.syscallCloseSocket fd
    disposed := r.disposed ++ [(fd, r.acceptor.clientAddr)] }

/-- The rest of the loop function for an accepted connection. `lastClientAddr` fails when the
address is of no known family. -/
def forward (r : Reactor n) (env : AcceptorEnv n) (fd : Int) : Reactor n :=
  if r.acceptor.tcpKeepAlive ∧ env.keepAlive.isSome then r.stop
  else
    match r.acceptor.clientAddr with
    | none => r.dispose fd
    | some addr =>
      let r := r.setConsumer env.consumer ((r.consumers env.consumer).setSocketAddr fd addr)
      match r.addConnMethod (env.sqe 1) env.consumer fd with
      | (none, r) => r
      | (some _, r) => r.dispose fd

/-- The loop function of the acceptor. -/
def handleEvent (r : Reactor n) (env : AcceptorEnv n) (cqe : AcceptorCqe n) : Reactor n :=
  match cqe.sqe with
  | .addConn _ _ => r
  | .accept =>
    match r.acceptor.addAcceptRequest (env.sqe 0) with
    | (some _, _) => r.stop
    | (none, a) =>
      let r := { r with acceptor := a }
      if cqe.res < 0 then r else r.forward env cqe.res

/-- The kernel executes a request: an accepted descriptor was not open, and a message reaches
a ring that is not closed. -/
def execute (r : Reactor n) (sqe : AcceptorSqe n) (res : Int) (peer : Option NetAddr) :
    Option (Reactor n) :=
  if res < 0 then some r
  else
    match sqe with
    | .accept =>
      if res ∈ r.openFds ∨ 2 ^ 31 ≤ res then none
      else some { r with
        acceptor := { r.acceptor with clientAddr := peer }
        openFds := res :: r.openFds
        accepted := r.accepted ++ [(res, peer)] }
    | .addConn i fd =>
      if (r.consumers i).phase = .stopped then none
      else some (r.setConsumer i ((r.consumers i).receive fd))

/-- A consumer has taken a step. -/
def consumed (r : Reactor n) (i : Fin n) (label : Gain.Label) (w : Worker) : Reactor n :=
  { r.setConsumer i w with
    openFds := r.openFds.filter fun fd => (r.consumers i).closes label ≠ some fd
    handled := r.handled ++ ((r.consumers i).newcomer label).toList.map (Prod.mk i) }

def step (r : Reactor n) : Label n → Option (Reactor n)
  | .shutdown => some { r with acceptor := { r.acceptor with shutdowning := true } }
  | .turn entries result =>
    if r.acceptor.phase = .top then
      if r.acceptor.needToShutdown then
        let r := r.closeRingAndConsumers
        some { r with acceptor := { r.acceptor with inProgress := true } }.stop
      else
        let a := { r.acceptor with
          inflight := r.acceptor.inflight ++ r.acceptor.sq.take entries
          sq := r.acceptor.sq.drop entries }
        match result with
        | .done =>
          some { r with acceptor := { a with phase := .peek } }
        | .skippable => some { r with acceptor := a }
        | .failed => some { r with acceptor := a }.stop
    else none
  | .peek =>
    if r.acceptor.phase = .peek then
      some { r with acceptor := { r.acceptor with
        phase := .events (min r.acceptor.cq.length r.acceptor.maxCQEvents) } }
    else none
  | .event env =>
    match r.acceptor.phase, r.acceptor.cq with
    | .events (left + 1), cqe :: cq =>
      some ({ r with acceptor := { r.acceptor with
        phase := .events left, cq := cq } }.handleEvent env cqe)
    | _, _ => none
  | .endBatch =>
    if r.acceptor.phase = .events 0 then
      some { r with acceptor := { r.acceptor with phase := .top } }
    else none
  | .complete i res peer =>
    match r.acceptor.inflight[i]? with
    | none => none
    | some sqe =>
      { r with acceptor := r.acceptor.completed i sqe res }.execute sqe res peer
  | .consumer _ (.handOff _ _) => none
  | .consumer i label => ((r.consumers i).step label).map (r.consumed i label)

/-- What the workers of a stream server are started with. -/
structure Setup (n : Nat) where
  tcpKeepAlive : Bool
  maxCQEvents : Nat
  ringsMessaging : Bool
  fd : Int
  openFds : List Int
  consumers : Fin n → Config
  streams : Fin n → Worker.Streams
  kind : ∀ i, (consumers i).kind = .consumer
  tcp : ∀ i, (consumers i).sendRecvMsg = false
  features : ∀ i, (consumers i).ringsMessaging = ringsMessaging

/-- The loops start: the first accept request is prepared. -/
def start (setup : Setup n) : Reactor n where
  acceptor := {
    tcpKeepAlive := setup.tcpKeepAlive, maxCQEvents := setup.maxCQEvents
    ringsMessaging := setup.ringsMessaging, fd := setup.fd, sq := [.accept], inflight := []
    cq := [], phase := .top, shutdowning := false, inProgress := false, accepting := true
    clientAddr := none, shut := [] }
  consumers := fun i => Worker.init (setup.consumers i) (setup.streams i)
  openFds := setup.openFds
  accepted := []
  disposed := []
  handled := []

end Reactor

/-! ## Connections that are under way -/

/-- The descriptor of a successful accept. -/
def AcceptorCqe.accepted? {n : Nat} (c : AcceptorCqe n) : Option Int :=
  if c.sqe = .accept ∧ 0 ≤ c.res then some c.res else none

/-- The descriptor of a message to the consumer. -/
def AcceptorSqe.message? {n : Nat} (i : Fin n) : AcceptorSqe n → Option Int
  | .accept => none
  | .addConn j fd => if j = i then some fd else none

namespace Acceptor

variable {n : Nat}

/-- The accepted descriptors that wait for the loop function. -/
def accepts (a : Acceptor n) : List Int := a.cq.filterMap AcceptorCqe.accepted?

/-- The messages to a consumer that are prepared or submitted. -/
def messages (a : Acceptor n) (i : Fin n) : List Int :=
  (a.inflight ++ a.sq).filterMap (AcceptorSqe.message? i)

/-- The accepts that are asked for or answered. -/
def asked (a : Acceptor n) : Nat :=
  (a.inflight ++ a.sq).countP (fun q => q = .accept) + a.cq.countP fun c => c.sqe = .accept

/-- No connection is under way with the acceptor. -/
@[mk_iff]
structure Clear (a : Acceptor n) : Prop where
  accepts : a.accepts = []
  messages : ∀ i, a.messages i = []

instance (a : Acceptor n) : Decidable a.Clear := decidable_of_iff' _ a.clear_iff

end Acceptor

namespace Reactor

variable {n : Nat} {r r' : Reactor n} {i : Fin n} {fd : Int}

/-- The descriptors on their way to a consumer. -/
def letters (r : Reactor n) (i : Fin n) : List Int :=
  r.acceptor.messages i ++ (r.consumers i).waiting

/-- The connections under way, each with the address that is known of it: those that wait for
the acceptor and those on their way to a consumer. -/
def parcels (r : Reactor n) : Parcels (Option (Fin n)) Int (Option NetAddr) where
  box
    | none => r.acceptor.accepts
    | some i => r.letters i
  tag
    | none, _ => r.acceptor.clientAddr
    | some i, fd => (r.consumers i).socketAddresses.lookup fd

/-- The descriptor is that of a connection under way. -/
def Underway (r : Reactor n) (fd : Int) : Prop := ∃ b, fd ∈ r.parcels.box b

instance (r : Reactor n) (fd : Int) : Decidable (r.Underway fd) :=
  inferInstanceAs (Decidable (∃ b, fd ∈ r.parcels.box b))

/-- Every connection accepted is under way with a worker that runs, was handed to a consumer with
the address of its peer, or was disposed of; and it is one of these only, and once. -/
structure Delivers (r : Reactor n) : Prop where
  account : (r.accepted : Multiset (Int × Option NetAddr)) =
    (r.handled.map Prod.snd : List (Int × Option NetAddr)) + r.disposed + r.parcels.content
  apart : r.parcels.Apart
  stopped : r.acceptor.phase = .stopped → r.acceptor.Clear
  gone : ∀ i, (r.consumers i).phase = .stopped → r.letters i = []

/-- The workers are those of one stream server. -/
structure Uniform (r : Reactor n) : Prop where
  kind : ∀ i, (r.consumers i).cfg.kind = .consumer
  tcp : ∀ i, (r.consumers i).cfg.sendRecvMsg = false
  features : ∀ i, (r.consumers i).cfg.ringsMessaging = r.acceptor.ringsMessaging

/-- What holds in every state of a careful run. -/
structure Sound (r : Reactor n) : Prop extends Delivers r where
  opened : ∀ fd, r.Underway fd → fd ∈ r.openFds
  valid : ∀ fd, r.Underway fd → 0 ≤ fd
  known : ∀ i, ∀ fd ∈ r.letters i, ((r.consumers i).socketAddresses.lookup fd).isSome = true
  asked : r.acceptor.asked ≤ 1
  uniform : r.Uniform

/-- Messages arrive, the acceptor always finds an entry for the next accept and can set the
keep-alive period, chooses a consumer that runs, and no worker ends while a connection is under
way with it or to it. No descriptor is closed while its connection is under way. -/
def Careful (r : Reactor n) : Label n → Prop
  | .turn _ result => r.acceptor.needToShutdown = true ∨ result = .failed → r.acceptor.Clear
  | .event env => ∀ c ∈ r.acceptor.cq.head?, c.sqe = .accept → env.sqe 0 = true ∧
      (0 ≤ c.res → (r.acceptor.tcpKeepAlive = true → env.keepAlive = none) ∧
        (r.consumers env.consumer).phase ≠ .stopped)
  | .complete i res _ => ∀ q ∈ r.acceptor.inflight[i]?,
      if q = .accept then 0 ≤ res → r.acceptor.phase ≠ .stopped else 0 ≤ res
  | .consumer i label =>
    ((r.consumers i).Ends label → ∀ fd ∈ r.letters i,
      ((r.consumers i).newcomer label).map Prod.fst = some fd) ∧
    ∀ fd ∈ (r.consumers i).closes label, ¬ r.Underway fd
  | _ => True

instance (r : Reactor n) : (label : Label n) → Decidable (r.Careful label)
  | .turn _ result => inferInstanceAs (Decidable
      (r.acceptor.needToShutdown = true ∨ result = .failed → r.acceptor.Clear))
  | .event env => inferInstanceAs (Decidable (∀ c ∈ r.acceptor.cq.head?, c.sqe = .accept →
      env.sqe 0 = true ∧ (0 ≤ c.res → (r.acceptor.tcpKeepAlive = true → env.keepAlive = none) ∧
        (r.consumers env.consumer).phase ≠ .stopped)))
  | .complete i res _ => inferInstanceAs (Decidable (∀ q ∈ r.acceptor.inflight[i]?,
      if q = .accept then 0 ≤ res → r.acceptor.phase ≠ .stopped else 0 ≤ res))
  | .consumer i label => inferInstanceAs (Decidable (
      ((r.consumers i).Ends label → ∀ fd ∈ r.letters i,
        ((r.consumers i).newcomer label).map Prod.fst = some fd) ∧
      ∀ fd ∈ (r.consumers i).closes label, ¬ r.Underway fd))
  | .shutdown | .peek | .endBatch => isTrue trivial

end Reactor

end Gain
