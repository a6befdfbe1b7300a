import Gain.Worker.Datagram

/-! # A datagram server keeps listening

As long as every receive yields bytes and no more are announced, and every
handler replies, the main connection of a datagram server always has its one
receive outstanding. All other requests are sends of forks. The keys of forks
are never given out twice, so that a completion is handled for the connection
its request was made for.
-/

namespace Gain

open Function List Option Session

/-- What the loop reads of a connection apart from its buffers. -/
structure Posture where
  fd : Int
  key : Int
  network : Network
  closed : Bool
  state : ConnState

def Connection.posture (c : Connection) : Posture := ⟨c.fd, c.key, c.network, c.closed, c.state⟩

variable {x : Session}

theorem Session.Confined.posture {x' : Session} (confined : x.Confined x') :
    x'.conn.posture = x.conn.posture ∧ x'.conn.nextAsyncOp = x.conn.nextAsyncOp := by
  obtain ⟨inbound, outbound, conn⟩ := confined.conn
  rw [conn]
  exact ⟨rfl, rfl⟩

/-- A receive that is handled yields bytes and announces no more, and its handler, unless it
is left to a goroutine, writes a reply. -/
def Cqe.Answered (cfg : Config) (env : Env) (c : Cqe) : Prop :=
  c.sqe.flag = .read → 0 < c.res ∧ c.nonempty = false ∧ (cfg.asyncHandler = true ∨ env.Replies)

instance (cfg : Config) (env : Env) (c : Cqe) : Decidable (Cqe.Answered cfg env c) :=
  inferInstanceAs (Decidable (_ = _ → _ < _ ∧ _ = _ ∧ (_ = _ ∨ env.Replies)))

namespace Worker

variable {m : Nat} {w w' : Worker} {env : Env} {c : Cqe} {q : Sqe} {cq : List Cqe}
  {chains i left o : Nat} {k : Int} {order : List (Int × Bool)} {result : Submit}

/-- The objects that goroutines work on or that wait for the loop. -/
def holders (w : Worker) : List Nat := w.tasks.map Task.obj ++ w.asyncOpQueue

/-- The keys are taken from the counter one after the other, and leave room for the flag of a
request. -/
structure Counting (w : Worker) : Prop where
  below : ∀ {k : Int} {o : Nat}, w.connections.lookup k = some o → k < w.keyPool.nextKey
  zeros : ∀ k ∈ w.keyPool.stack, k = 0
  room : w.keyPool.nextKey < 2 ^ 59

/-- The loop of a datagram server that goes on. -/
structure Steady (w : Worker) : Prop where
  shard : w.cfg.kind = .shard
  udp : w.cfg.sendRecvMsg = true
  unasked : w.shutdowning = false
  unclosed : w.closing = false
  phase : w.phase ≠ .conns
  live : w.phase = .stopped ∨ w.cfg.listener ∉ w.shut

/-- A datagram server in order, whose main connection is the object `m`. -/
structure Grounded (m : Nat) (w : Worker) : Prop extends Counting w, Steady w, Indexed w where
  -- the main connection and the forks
  idle : w.bufPool.Idle
  open' : ∀ o, (w.heap o).closed = false
  main : w.connections.lookup 1 = some m
  fd : ∀ {k : Int} {o : Nat}, w.connections.lookup k = some o → (w.heap o).fd = w.cfg.listener
  state : (w.heap m).state = .read
  outbound : ∃ rb, (w.heap m).outboundBuffer = some rb ∧ rb.Idle
  forks : ∀ {k : Int} {o : Nat}, w.connections.lookup k = some o → k ≠ 1 →
    (w.heap o).network = .udp
  -- the requests
  nodup : (w.outstanding.map Sqe.key).Nodup
  requests : ∀ q ∈ w.outstanding,
    (q.key = 1 ∧ q.flag = .read ∧ q.fd = w.cfg.listener ∧ q.obj = m) ∨
      (q.key ≠ 1 ∧ q.flag = .write ∧
        ∃ o, w.connections.lookup q.key = some o ∧ (w.heap o).state = .write)
  -- the handlers in goroutines
  once : w.holders.Nodup
  held : ∀ o ∈ w.holders, ∃ k, w.connections.lookup k = some o ∧ k ≠ 1 ∧ (w.heap o).state = .read
  replied : ∀ o ∈ w.asyncOpQueue, (w.heap o).nextAsyncOp = .writeOp

/-- The main connection has its receive outstanding. -/
structure Serving (m : Nat) (w : Worker) : Prop extends Grounded m w where
  receive : ∃ q ∈ w.outstanding, q.key = 1

/-- A fork that nothing is outstanding for and that no goroutine holds. -/
structure Resting (w : Worker) (k : Int) (o : Nat) : Prop where
  found : w.connections.lookup k = some o
  fork : k ≠ 1
  quiet : k ∉ w.outstanding.map Sqe.key
  unheld : o ∉ w.holders

/-- Where no key occurs twice, requests with the key of one of them are that one. -/
theorem filter_eq_singleton {requests : List Sqe} (nodup : (requests.map Sqe.key).Nodup)
    (member : q ∈ requests) {p : Sqe → Bool} (mine : p q = true)
    (same : ∀ q' ∈ requests, p q' = true → q'.key = q.key) : requests.filter p = [q] := by
  have inside : q ∈ requests.filter p := mem_filter.mpr ⟨member, mine⟩
  have keys : ∀ q' ∈ requests.filter p, q' = q := by
    intro q' member'
    obtain ⟨member', mine'⟩ := mem_filter.mp member'
    exact inj_on_of_nodup_map nodup member' member (same q' member' mine')
  refine perm_singleton.mp ((perm_ext_iff_of_nodup ?_ (nodup_singleton q)).mpr ?_)
  · exact (List.Nodup.of_map Sqe.key nodup).filter p
  · intro q'
    refine ⟨fun member' => mem_singleton.mpr (keys q' member'), fun member' => ?_⟩
    rw [mem_singleton.mp member']
    exact inside

namespace Grounded

/-- The two keys below the first one that is given out are known. -/
theorem two_le (grounded : Grounded m w) : 1 < w.keyPool.nextKey := by
  have := grounded.below grounded.main
  omega

/-- Steps that only work on buffers, move or drop requests and pass handlers on leave the server
in order. -/
theorem of_posture (grounded : Grounded m w)
    (frame : w' = { w with
      heap := w'.heap, bufPool := w'.bufPool, mem := w'.mem, sq := w'.sq, inflight := w'.inflight
      cq := w'.cq, phase := w'.phase, shut := w'.shut, tasks := w'.tasks
      asyncOpQueue := w'.asyncOpQueue, histories := w'.histories })
    (posture : ∀ o, (w'.heap o).posture = (w.heap o).posture)
    (outbound : ∃ rb, (w'.heap m).outboundBuffer = some rb ∧ rb.Idle) (idle : w'.bufPool.Idle)
    (requests : w'.outstanding.Subperm w.outstanding) (holders : w'.holders.Perm w.holders)
    (replied : ∀ o ∈ w'.asyncOpQueue, (w'.heap o).nextAsyncOp = .writeOp)
    (phase : w'.phase ≠ .conns) (live : w'.phase = .stopped ∨ w'.cfg.listener ∉ w'.shut) :
    Grounded m w' := by
  have cfg : w'.cfg = w.cfg := by rw [frame]
  have connections : w'.connections = w.connections := by rw [frame]
  have fd := fun o => congrArg Posture.fd (posture o)
  have state := fun o => congrArg Posture.state (posture o)
  constructor
  case idle => exact idle
  case outbound => exact outbound
  case replied => exact replied
  case toSteady =>
    refine ⟨?_, ?_, ?_, ?_, phase, live⟩ <;> rw [frame]
    · exact grounded.shard
    · exact grounded.udp
    · exact grounded.unasked
    · exact grounded.unclosed
  case toIndexed =>
    have key := fun o => congrArg Posture.key (posture o)
    rw [frame]
    exact { grounded.toIndexed with key := fun {_ o} found => (key o).trans (grounded.key found) }
  case toCounting => rw [frame]; exact { grounded.toCounting with }
  case main => rw [connections]; exact grounded.main
  case nodup =>
    obtain ⟨rest, perm, sub⟩ := requests
    exact (perm.map Sqe.key).nodup_iff.mp ((sub.map Sqe.key).nodup grounded.nodup)
  case once => exact holders.nodup_iff.mpr grounded.once
  case open' => intro o; exact (congrArg Posture.closed (posture o)).trans (grounded.open' o)
  case state => exact (state m).trans grounded.state
  case fd =>
    intro k o found
    rw [connections] at found
    rw [cfg]
    exact (fd o).trans (grounded.fd found)
  case forks =>
    intro k o found
    rw [connections] at found
    intro fork
    exact (congrArg Posture.network (posture o)).trans (grounded.forks found fork)
  case requests =>
    intro q member
    rw [cfg, connections]
    refine (grounded.requests q (requests.subset member)).imp_right ?_
    rintro ⟨fork, write, o, found, sending⟩
    exact ⟨fork, write, o, found, (state o).trans sending⟩
  case held =>
    intro o member
    obtain ⟨k, found, fork, reading⟩ := grounded.held o (holders.subset member)
    rw [connections]
    exact ⟨k, found, fork, (state o).trans reading⟩

/-- The next completion is taken from the queue. -/
theorem pop (grounded : Grounded m w) (first : w.cq = c :: cq)
    (phase : w.phase = .events (left + 1)) :
    Grounded m { w with phase := .events left, cq := cq } ∧ c.sqe ∈ w.outstanding ∧
      c.sqe.key ∉ (outstanding { w with phase := .events left, cq := cq }).map Sqe.key ∧
      ∀ q ∈ w.outstanding, q.key ≠ c.sqe.key →
        q ∈ outstanding { w with phase := .events left, cq := cq } := by
  have perm : ([c.sqe] ++ outstanding { w with phase := .events left, cq := cq }).Perm
      w.outstanding := outstanding_pop first _
  have all := (perm.map Sqe.key).nodup_iff.mpr grounded.nodup
  refine ⟨?_, perm.subset mem_cons_self, (nodup_cons.mp all).1, ?_⟩
  swap
  · intro q member other
    refine (mem_cons.mp (perm.symm.subset member)).resolve_left ?_
    rintro rfl
    exact other rfl
  have running : w.cfg.listener ∉ w.shut := by
    refine grounded.live.resolve_left fun stopped => ?_
    rw [stopped] at phase
    cases phase
  exact grounded.of_posture rfl (fun _ => rfl) grounded.outbound grounded.idle
    ((sublist_append_right _ _).subperm.trans perm.subperm) (.refl _) grounded.replied nofun
    (Or.inr running)

variable {f : Nat} {base : Connection} {inbound grown outbound : RingBuffer}

theorem fork_holders (parted : Parted w c m f base inbound grown outbound w') :
    w'.holders = w.holders := by
  rw [Worker.holders, parted.frame]
  rfl

/-- The key of the next fork is what the counter shows. -/
theorem forkKey_eq (grounded : Grounded m w) : w.forkKey = w.keyPool.nextKey := by
  have room := grounded.room
  rw [forkKey, (KeyPool.get_of_zeros grounded.zeros).1]
  exact toInt64_of_lt (by omega)

/-- The key handed out next is above all those in use. -/
theorem fork_key (grounded : Grounded m w) : w.forkKey ≠ 1 ∧
    ∀ {k : Int} {o : Nat}, w.connections.lookup k = some o → k < w.forkKey := by
  have given := grounded.forkKey_eq
  have two := grounded.two_le
  refine ⟨by omega, fun found => ?_⟩
  have below := grounded.below found
  omega

section Parted

variable (grounded : Grounded m w) (parted : Parted w c m f base inbound grown outbound w')

include grounded parted

/-- The fork is none of the connections there are. -/
theorem ne_fork (found : w.connections.lookup k = some o) : o ≠ f :=
  grounded.unused parted.taken found

/-- The fork comes under a key of its own, and the others are those there were. -/
theorem fork_cases (found : w'.connections.lookup k = some o) :
    (k = w.forkKey ∧ o = f) ∨ (k ≠ w.forkKey ∧ o ≠ f ∧ w.connections.lookup k = some o) := by
  refine (parted.lookup_cases found).imp_right ?_
  rintro ⟨other, old⟩
  exact ⟨other, grounded.ne_fork parted old, old⟩

theorem fork_kept (found : w.connections.lookup k = some o) : w'.connections.lookup k = some o := by
  have below := grounded.fork_key.2 found
  rw [parted.frame]
  exact (AList.lookup_insert_ne below.ne).trans found

theorem fork_posture (new : i ≠ f) : (w'.heap i).posture = (w.heap i).posture := by
  obtain ⟨_, _, _, _, main, _⟩ := parted.main
  by_cases old : i = m
  · subst old
    rw [main]
    simp only [Connection.posture, grounded.state]
  · rw [parted.others i new old]

/-- The receive of the main connection is the one request that is new. -/
theorem fork_requests : ∃ q : Sqe, w'.outstanding.Perm (q :: w.outstanding) ∧
    q.key = 1 ∧ q.flag = .read ∧ q.fd = w.cfg.listener ∧ q.obj = m := by
  obtain ⟨_, _, _, _, _, queue⟩ := parted.main
  exact ⟨_, outstanding_push (by rw [parted.frame]) queue (by rw [parted.frame]),
    grounded.key grounded.main, rfl, grounded.fd grounded.main, rfl⟩

/-- The fork has no request and no handler. -/
theorem fork_resting : Resting w' w.forkKey f := by
  obtain ⟨key, above⟩ := grounded.fork_key
  refine ⟨parted.lookup_self, key, fun member => ?_, fun member => ?_⟩
  · obtain ⟨r, requests, one, _⟩ := grounded.fork_requests parted
    obtain ⟨q, member, same⟩ := mem_map.mp member
    rcases mem_cons.mp (requests.subset member) with rfl | old
    · exact key (same.symm.trans one)
    · rcases grounded.requests q old with ⟨one, _⟩ | ⟨_, _, o, found, _⟩
      · exact key (same.symm.trans one)
      · have below := above found
        omega
  · rw [fork_holders parted] at member
    obtain ⟨k, found, _, _⟩ := grounded.held f member
    exact grounded.ne_fork parted found rfl

end Parted

/-- The main connection is armed again and its datagram has a connection of its own. -/
theorem parted (grounded : Grounded m w) (room : w.keyPool.nextKey + 1 < 2 ^ 59)
    (quiet : 1 ∉ w.outstanding.map Sqe.key)
    (parted : Parted w c m f base inbound grown outbound w') :
    Serving m w' ∧ Resting w' w.forkKey f ∧ (w'.heap f).state = .read := by
  obtain ⟨_, next, zeros⟩ := KeyPool.get_of_zeros grounded.zeros
  rw [Nat.mod_eq_of_lt (by omega)] at next
  obtain ⟨rb, rb', out, addr, _, _, _, _, conn⟩ := parted.fork
  obtain ⟨front, mem, _, _, main, _⟩ := parted.main
  obtain ⟨r, requests, one, receive⟩ := grounded.fork_requests parted
  have cfg : w'.cfg = w.cfg := by rw [parted.frame]
  have pool : w'.keyPool = w.keyPool.get.2 := by rw [parted.frame]
  have holders := fork_holders parted
  have posture : ∀ i, i ≠ f → (w'.heap i).posture = (w.heap i).posture :=
    fun i new => grounded.fork_posture parted new
  have state := fun i new => congrArg Posture.state (posture i new)
  have closed : base.closed = false := by
    rcases parted.taken.source with ⟨_, rfl, _⟩ | ⟨_, rfl, _⟩
    · exact grounded.open' f
    · rfl
  refine ⟨⟨?_, r, requests.symm.subset mem_cons_self, one⟩, grounded.fork_resting parted,
    by rw [conn]; exact grounded.state⟩
  obtain ⟨_, spare, idle⟩ := parted.idle grounded.idle
  constructor
  case toSteady => rw [parted.frame]; exact { grounded.toSteady with }
  case toIndexed =>
    exact grounded.toIndexed.entered parted.taken parted.lookup_cases (by rw [conn]) fun i new =>
      congrArg Posture.key (posture i new)
  case idle => exact idle
  case open' =>
    intro o
    by_cases new : o = f
    · rw [new, conn]
      exact closed
    · exact (congrArg Posture.closed (posture o new)).trans (grounded.open' o)
  case toCounting =>
    constructor
    case below =>
      intro k o found
      rw [pool, next]
      rcases grounded.fork_cases parted found with ⟨rfl, _⟩ | ⟨_, _, found⟩
      · have given := grounded.forkKey_eq
        omega
      · have := grounded.below found
        omega
    case zeros => rw [pool]; exact zeros
    case room => rw [pool, next]; exact room
  case main => exact grounded.fork_kept parted grounded.main
  case fd =>
    intro k o found
    rw [cfg]
    rcases grounded.fork_cases parted found with ⟨_, rfl⟩ | ⟨_, new, found⟩
    · rw [conn]
      exact grounded.fd grounded.main
    · exact (congrArg Posture.fd (posture o new)).trans (grounded.fd found)
  case state => rw [main]
  case outbound => rw [main]; exact ⟨outbound, rfl, spare⟩
  case forks =>
    intro k o found fork
    rcases grounded.fork_cases parted found with ⟨_, rfl⟩ | ⟨_, new, found⟩
    · rw [conn]
    · exact (congrArg Posture.network (posture o new)).trans (grounded.forks found fork)
  case nodup =>
    refine (requests.map Sqe.key).nodup_iff.mpr (nodup_cons.mpr ⟨?_, grounded.nodup⟩)
    rw [one]
    exact quiet
  case requests =>
    intro q member
    rw [cfg]
    rcases mem_cons.mp (requests.subset member) with rfl | old
    · exact Or.inl ⟨one, receive⟩
    · refine (grounded.requests q old).imp_right ?_
      rintro ⟨fork, write, o, found, sending⟩
      exact ⟨fork, write, o, grounded.fork_kept parted found,
        (state o (grounded.ne_fork parted found)).trans sending⟩
  case once => rw [holders]; exact grounded.once
  case held =>
    intro o member
    rw [holders] at member
    obtain ⟨k, found, fork, reading⟩ := grounded.held o member
    exact ⟨k, grounded.fork_kept parted found, fork,
      (state o (grounded.ne_fork parted found)).trans reading⟩
  case replied =>
    intro o member
    rw [parted.frame] at member
    obtain ⟨k, found, fork, _⟩ := grounded.held o (mem_append_right _ member)
    rw [parted.others o (grounded.ne_fork parted found)]
    · exact grounded.replied o member
    · rintro rfl
      exact fork (grounded.inj found grounded.main)

end Grounded

namespace Serving

variable {k : Int} {o : Nat} {x : Session} {q : Sqe}

/-- The server stays in order, and so do its requests. -/
theorem of_grounded (serving : Serving m w) (grounded : Grounded m w')
    (requests : w'.outstanding.Perm w.outstanding) : Serving m w' := by
  refine ⟨grounded, ?_⟩
  obtain ⟨q, member, mine⟩ := serving.receive
  exact ⟨q, requests.symm.subset member, mine⟩

/-- A send is prepared for a fork that rests. -/
theorem send (serving : Serving m w) (resting : Resting w k o) (obj : x.obj = o)
    (posture : x.conn.posture = { (w.heap o).posture with state := .write })
    (shut : x.shut = w.shut) (sq : x.sq = w.sq.push q) (key : q.key = k) (flag : q.flag = .write) :
    Serving m (w.setSession x) := by
  subst obj
  have aside : m ≠ x.obj := by
    rintro rfl
    exact resting.fork (serving.inj resting.found serving.main)
  have self : (w.setSession x).heap x.obj = x.conn := update_self ..
  have others : ∀ i, i ≠ x.obj → (w.setSession x).heap i = w.heap i :=
    fun i ne => update_of_ne ne ..
  have fields : ∀ i, ((w.setSession x).heap i).fd = (w.heap i).fd ∧
      ((w.setSession x).heap i).key = (w.heap i).key ∧
      ((w.setSession x).heap i).network = (w.heap i).network ∧
      ((w.setSession x).heap i).closed = (w.heap i).closed := by
    intro i
    by_cases same : i = x.obj
    · subst same
      rw [self]
      exact ⟨congrArg Posture.fd posture, congrArg Posture.key posture,
        congrArg Posture.network posture, congrArg Posture.closed posture⟩
    · rw [others i same]
      exact ⟨rfl, rfl, rfl, rfl⟩
  have state : (x.conn).state = .write := congrArg Posture.state posture
  have requests : (w.setSession x).outstanding.Perm (q :: w.outstanding) :=
    outstanding_push rfl sq rfl
  constructor
  case receive =>
    obtain ⟨q', member, one⟩ := serving.receive
    exact ⟨q', requests.symm.subset (mem_cons_of_mem _ member), one⟩
  refine { serving.toGrounded with
    live := ?live, open' := ?open', key := ?key, fd := ?fd, state := ?state
    outbound := ?outbound, forks := ?forks, nodup := ?nodup, requests := ?requests
    held := ?held, replied := ?replied }
  case live =>
    change w.phase = .stopped ∨ w.cfg.listener ∉ x.shut
    rw [shut]
    exact serving.live
  case open' => exact fun i => (fields i).2.2.2.trans (serving.open' i)
  case key => exact fun {_ i} found => (fields i).2.1.trans (serving.key found)
  case fd => exact fun {_ i} found => (fields i).1.trans (serving.fd found)
  case state => rw [others m aside]; exact serving.state
  case outbound => rw [others m aside]; exact serving.outbound
  case forks => exact fun {_ i} found fork => (fields i).2.2.1.trans (serving.forks found fork)
  case nodup =>
    refine (requests.map Sqe.key).nodup_iff.mpr (nodup_cons.mpr ⟨?_, serving.nodup⟩)
    rw [key]
    exact resting.quiet
  case requests =>
    intro q' member
    rcases mem_cons.mp (requests.subset member) with rfl | old
    · rw [key]
      refine Or.inr ⟨resting.fork, flag, x.obj, resting.found, ?_⟩
      rw [self]
      exact state
    · refine (serving.requests q' old).imp_right ?_
      rintro ⟨fork, write, i, found, sending⟩
      refine ⟨fork, write, i, found, ?_⟩
      by_cases same : i = x.obj
      · rw [same, self]
        exact state
      · rw [others i same]
        exact sending
  case held =>
    intro i member
    obtain ⟨k', found, fork, reading⟩ := serving.held i member
    refine ⟨k', found, fork, ?_⟩
    rw [others i]
    · exact reading
    · rintro rfl
      exact resting.unheld member
  case replied =>
    intro i member
    rw [others i]
    · exact serving.replied i member
    · rintro rfl
      exact resting.unheld (mem_append_right _ member)

/-- A fork that rests is given up. -/
theorem release (serving : Serving m w) (resting : Resting w k o)
    (done : w.release k = some w') : Serving m w' ∧ w'.connections.lookup k = none := by
  rcases release_cases done serving.bound with ⟨absent, _⟩ | ⟨o', released⟩
  · rw [resting.found] at absent
    cases absent
  cases resting.found.symm.trans released.found
  have keys := release_keyPool resting.found done
  have idle : w'.bufPool.Idle := release_all serving.idle (fun _ _ _ => ⟨rfl, rfl, rfl⟩) done
  have cfg : w'.cfg = w.cfg := by rw [released.frame]
  have requests : w'.outstanding = w.outstanding := by
    rw [outstanding, underway, released.frame]
    rfl
  have holders : w'.holders = w.holders := by rw [Worker.holders, released.frame]; rfl
  have split : ∀ {k' : Int} {i : Nat}, w'.connections.lookup k' = some i →
      i ≠ o ∧ w.connections.lookup k' = some i := by
    intro k' i found
    obtain ⟨_, before, ne, _⟩ := serving.of_released released found
    exact ⟨ne, before⟩
  have kept : ∀ {k' : Int} {i : Nat}, k' ≠ k → w.connections.lookup k' = some i →
      w'.connections.lookup k' = some i :=
    fun other found => (released.lookup_ne other).trans found
  have aside : m ≠ o := by
    rintro rfl
    exact resting.fork (serving.inj resting.found serving.main)
  refine ⟨⟨?_, ?_⟩, released.lookup_self⟩
  · constructor
    case toSteady => rw [released.frame]; exact { serving.toSteady with }
    case toIndexed => exact serving.toIndexed.released released
    case idle => exact idle
    case open' =>
      intro i
      by_cases same : i = o
      · rw [same, released.conn]
      · rw [released.others i same]
        exact serving.open' i
    case toCounting =>
      refine ⟨?_, ?_, ?_⟩ <;> rw [keys]
      · exact fun found => serving.below (split found).2
      · exact forall_mem_cons.mpr ⟨rfl, serving.zeros⟩
      · exact serving.room
    case main => exact kept resting.fork.symm serving.main
    case fd =>
      intro k' i found
      rw [released.others i (split found).1, cfg]
      exact serving.fd (split found).2
    case state => rw [released.others m aside]; exact serving.state
    case outbound => rw [released.others m aside]; exact serving.outbound
    case forks =>
      intro k' i found fork
      rw [released.others i (split found).1]
      exact serving.forks (split found).2 fork
    case nodup => rw [requests]; exact serving.nodup
    case requests =>
      intro q member
      rw [requests] at member
      rw [cfg]
      refine (serving.requests q member).imp_right ?_
      rintro ⟨fork, write, i, found, sending⟩
      have other : q.key ≠ k := by
        rintro rfl
        exact resting.quiet (mem_map_of_mem member)
      refine ⟨fork, write, i, kept other found, ?_⟩
      rw [released.others i (split (kept other found)).1]
      exact sending
    case once => rw [holders]; exact serving.once
    case held =>
      intro i member
      rw [holders] at member
      obtain ⟨k', found, fork, reading⟩ := serving.held i member
      have other : i ≠ o := by
        rintro rfl
        exact resting.unheld member
      refine ⟨k', kept ?_ found, fork, ?_⟩
      · rintro rfl
        cases found.symm.trans resting.found
        exact other rfl
      · rw [released.others i other]
        exact reading
    case replied =>
      intro i member
      rw [released.frame] at member
      rw [released.others i]
      · exact serving.replied i member
      · rintro rfl
        exact resting.unheld (mem_append_right _ member)
  · obtain ⟨q, member, one⟩ := serving.receive
    rw [requests]
    exact ⟨q, member, one⟩

/-- Code works on the buffers of a fork. -/
theorem session (serving : Serving m w) (found : w.connections.lookup k = some o) (fork : k ≠ 1)
    (obj : x.obj = o)
    (posture : x.conn.posture = (w.heap o).posture ∧ x.conn.nextAsyncOp = (w.heap o).nextAsyncOp)
    (sq : x.sq = w.sq) (shut : x.shut = w.shut) : Serving m (w.setSession x) := by
  subst obj
  have aside : m ≠ x.obj := by
    rintro rfl
    exact fork (serving.inj found serving.main)
  have requests : (w.setSession x).outstanding = w.outstanding := by
    change (w.inflight ++ x.sq).flatten ++ _ = _
    rw [sq]
    rfl
  refine serving.of_grounded (serving.of_posture rfl ?_ ?_ serving.idle
    (Perm.of_eq requests).subperm (.refl _) ?_ serving.phase ?_) (.of_eq requests)
  · intro i
    by_cases same : i = x.obj
    · rw [same]
      exact (congrArg Connection.posture (update_self ..)).trans posture.1
    · exact congrArg Connection.posture (update_of_ne same ..)
  · rw [show (w.setSession x).heap m = w.heap m from update_of_ne aside ..]
    exact serving.outbound
  · intro i member
    by_cases same : i = x.obj
    · subst same
      exact ((congrArg Connection.nextAsyncOp (update_self ..)).trans posture.2).trans
        (serving.replied x.obj member)
    · exact (congrArg Connection.nextAsyncOp (update_of_ne same ..)).trans
        (serving.replied i member)
  · change w.phase = .stopped ∨ w.cfg.listener ∉ x.shut
    rw [shut]
    exact serving.live

end Serving

/-- A fork that has its send outstanding is not held. -/
theorem Grounded.unheld (grounded : Grounded m w) (state : (w.heap o).state = .write) :
    o ∉ w.holders := by
  intro member
  obtain ⟨_, _, _, reading⟩ := grounded.held o member
  rw [state] at reading
  cases reading

/-- A fork that is held has nothing outstanding. -/
theorem Grounded.quiet (grounded : Grounded m w) (found : w.connections.lookup k = some o)
    (fork : k ≠ 1) (state : (w.heap o).state = .read) : k ∉ w.outstanding.map Sqe.key := by
  intro inside
  obtain ⟨q, member, rfl⟩ := mem_map.mp inside
  rcases grounded.requests q member with ⟨one, _⟩ | ⟨_, _, o', found', sending⟩
  · exact fork one
  · cases found.symm.trans found'
    rw [state] at sending
    cases sending

/-- The conditions under which a datagram server keeps listening: nobody asks for a shutdown,
entries are free, receives are answered, a handler in a goroutine has written something when
it returns, and fewer than 2 ^ 59 datagrams have come, so that the key of a fork does not run into
the flags of its requests. -/
def Answering (w : Worker) : Label → Prop
  | .shutdown => False
  | .event env =>
    w.keyPool.nextKey + 1 < 2 ^ 59 ∧ env.sqe 0 = true ∧ env.sqe 1 = true ∧
      ∀ c ∈ w.cq.head?, Cqe.Answered w.cfg env c
  | .asyncWrite env => env.sqe 0 = true
  | .taskEnd i => ∀ t ∈ w.tasks[i]?, nextAsyncOp (w.heap t.obj) = some .writeOp
  | _ => True

instance (w : Worker) : (label : Label) → Decidable (w.Answering label)
  | .shutdown => isFalse id
  | .event env =>
    inferInstanceAs (Decidable
      (_ < _ ∧ _ = _ ∧ _ = _ ∧ ∀ c ∈ w.cq.head?, Cqe.Answered w.cfg env c))
  | .asyncWrite env => inferInstanceAs (Decidable (env.sqe 0 = true))
  | .taskEnd i =>
    inferInstanceAs (Decidable (∀ t ∈ w.tasks[i]?, nextAsyncOp (w.heap t.obj) = some .writeOp))
  | .turn _ _ _ | .peek | .endBatch | .newConn _ | .complete _ _ _ _ _ | .handOff _ _
  | .taskBegin _ | .taskCall _ _ => isTrue trivial

/-- Storing a sender's address changes nothing else. -/
theorem setConn_sender (w : Worker) (o : Nat) (peer : Option NetAddr) (i : Nat) :
    ∃ sender, (w.setConn o { w.heap o with rawSockaddr := peer }).heap i =
      { w.heap i with rawSockaddr := sender } := by
  by_cases same : i = o
  · subst same
    exact ⟨peer, update_self ..⟩
  · exact ⟨_, update_of_ne same ..⟩

theorem Grounded.afterBatch_eq (grounded : Grounded m w) :
    w.afterBatch = { w with phase := .asyncs } := by
  simp only [Worker.afterBatch, grounded.shard, reduceCtorEq, false_and, if_false]

theorem Grounded.unfinished (grounded : Grounded m w) : w.finished = false := by
  simp only [finished, grounded.shard, allClosed, grounded.unclosed, grounded.udp,
    Bool.false_and, Bool.not_true, Bool.or_self]

/-- An iteration begins with nothing but a submission. -/
theorem Grounded.turn_eq (grounded : Grounded m w)
    (done : w.step (.turn order chains result) = some w') :
    ∃ phase shut, w' = w.submit chains phase shut ∧ phase ≠ .conns ∧
      (phase = .stopped ∨ w.cfg.listener ∉ shut) := by
  simp only [Worker.step] at done
  split_ifs at done with guard
  have calm : w.shutdownHandler order = w := by
    simp only [shutdownHandler, needToShutdown, grounded.unasked, Bool.false_and,
      Bool.false_eq_true, if_false]
  have live : w.cfg.listener ∉ w.shut := by
    refine grounded.live.resolve_left ?_
    rw [guard.1]
    decide
  rw [calm] at done
  cases result with
  | done =>
    cases done
    refine ⟨_, w.shut, rfl, ?_, Or.inr live⟩
    rintro ⟨⟩
  | skippable =>
    cases done
    refine ⟨.asyncs, w.shut, ?_, by decide, Or.inr live⟩
    simp only [Worker.afterBatch, grounded.shard, reduceCtorEq, false_and, if_false]
    rfl
  | failed =>
    cases done
    obtain ⟨shut, same⟩ := stop_eq (w.submit chains w.phase w.shut)
    exact ⟨.stopped, shut, same, by decide, Or.inl rfl⟩

namespace Serving

variable {k : Int} {o : Nat} {n res : Int} {data : List UInt8} {peer : Option NetAddr} {t : Task}

/-- A fork that rests is handed to a goroutine. -/
theorem spawn (serving : Serving m w) (resting : Resting w k o) (state : (w.heap o).state = .read)
    (t : Task) (obj : t.obj = o) : Serving m { w with tasks := w.tasks ++ [t] } := by
  have perm : (holders { w with tasks := w.tasks ++ [t] }).Perm (o :: w.holders) := by
    change ((w.tasks ++ [t]).map Task.obj ++ w.asyncOpQueue).Perm _
    rw [map_append, map_singleton, obj, append_assoc]
    exact perm_middle
  refine ⟨{ serving.toGrounded with once := ?_, held := ?_ }, serving.receive⟩
  · exact perm.nodup_iff.mpr (nodup_cons.mpr ⟨resting.unheld, serving.once⟩)
  · intro i member
    rcases mem_cons.mp (perm.subset member) with rfl | old
    · exact ⟨k, resting.found, resting.fork, state⟩
    · exact serving.held i old

/-- The completion of a send is taken from the queue. -/
theorem popped (serving : Serving m w) (first : w.cq = c :: cq)
    (phase : w.phase = .events (left + 1)) (fork : c.sqe.key ≠ 1) :
    Serving m { w with phase := .events left, cq := cq } := by
  obtain ⟨grounded, _, _, others⟩ := serving.pop first phase
  obtain ⟨q, member, one⟩ := serving.receive
  refine ⟨grounded, q, others q member ?_, one⟩
  rw [one]
  exact fork.symm

/-- The reply of a handler is sent. -/
theorem reply (serving : Serving m w) (resting : Resting w k o) {err : Option Error}
    (free : env.sqe 0 = true) (replies : env.Replies) {rb : RingBuffer}
    (present : (w.heap o).outboundBuffer = some rb) (outbox : rb.Outbox)
    (worked : (w.session o).workAndArm w.cfg env n = some (err, x)) :
    err = none ∧ Serving m (w.setSession x) := by
  obtain ⟨rfl, x₁, rb', addr, _, confined, _, _, rfl⟩ :=
    workAndArm_replied (x := w.session o) serving.udp free replies
      (serving.forks resting.found resting.fork) (serving.open' o) present outbox worked
  obtain ⟨_, _, conn⟩ := confined.conn
  refine ⟨rfl, serving.send resting confined.obj ?_ confined.shut
    (congrArg (Chains.push · _) confined.sq) ?_ rfl⟩
  · rw [conn]
    rfl
  · rw [conn]
    exact serving.key resting.found

/-- A datagram is received and replied to, now or by a goroutine. -/
theorem received (grounded : Grounded m w) (room : w.keyPool.nextKey + 1 < 2 ^ 59)
    (quiet : 1 ∉ w.outstanding.map Sqe.key) (key : c.sqe.key = 1) (some' : 0 < c.res)
    (calm : c.nonempty = false) (free : env.sqe 0 = true) (free' : env.sqe 1 = true)
    (replies : w.cfg.asyncHandler = true ∨ env.Replies) (done : w.handleEvent env c = some w') :
    Serving m w' := by
  have found : w.connections.lookup c.sqe.key = some m := by
    rw [key]
    exact grounded.main
  obtain ⟨f, base, inbound, grown, outbound, w₁, parted, handled⟩ :=
    handleEvent_received grounded.shard grounded.udp grounded.poolBound
      (grounded.bound grounded.main) (grounded.free grounded.main) found grounded.state some' calm
      free done
  obtain ⟨serving, resting, state⟩ := grounded.parted room quiet parted
  rcases handled with ⟨_, rfl⟩ | ⟨sync, err, x, worked, ended⟩
  · exact serving.spawn resting state _ rfl
  · obtain ⟨_, _, out, _, _, _, present, _, conn⟩ := parted.fork
    obtain ⟨rb, same, idle⟩ := grounded.outbound
    cases present.symm.trans same
    have config : w₁.cfg = w.cfg := by rw [parted.frame]
    rw [← config] at worked
    have handler : Env.Replies { env with sqe := fun i => env.sqe (i + 1) } :=
      replies.resolve_left (by rw [sync]; exact Bool.false_ne_true)
    obtain ⟨rfl, serving⟩ := serving.reply resting free' handler (by rw [conn]) idle.outbox worked
    cases ended
    exact serving

variable (serving : Serving m w)
include serving

/-- The send of a fork has completed, and the fork is given up. -/
theorem sent (resting : Resting w c.sqe.key o)
    (state : (w.heap o).state = .write) (fine : 0 ≤ c.res) (done : w.handleEvent env c = some w') :
    Serving m w' ∧ w'.connections.lookup c.sqe.key = none := by
  have key := serving.key resting.found
  obtain ⟨x, written, released⟩ := handleEvent_sent serving.shard serving.udp resting.found state
    (by rw [key]; exact resting.fork) fine done
  obtain ⟨x₁, dropped, called⟩ := onWritten_eq written
  obtain ⟨rb, rb', _, _, rfl⟩ := onKernelWrite_eq dropped
  have confined := calls_confined (serving.forks resting.found resting.fork) called
  have obj : x.obj = o := confined.obj
  have sq : x.sq = w.sq := confined.sq
  have after := serving.session resting.found resting.fork obj confined.posture sq confined.shut
  have requests : (w.setSession x).outstanding = w.outstanding := by
    change (w.inflight ++ x.sq).flatten ++ _ = _
    rw [sq]
    rfl
  have rests : Resting (w.setSession x) c.sqe.key o :=
    ⟨resting.found, resting.fork, by rw [requests]; exact resting.quiet, resting.unheld⟩
  have own : ((w.setSession x).heap o).key = c.sqe.key := after.key resting.found
  rw [own] at released
  exact after.release rests released

/-- Every completion leaves the server serving. -/
theorem event (phase : w.phase = .events (left + 1))
    (first : w.cq = c :: cq) (room : w.keyPool.nextKey + 1 < 2 ^ 59) (free : env.sqe 0 = true)
    (free' : env.sqe 1 = true) (answered : c.Answered w.cfg env)
    (done : handleEvent { w with phase := .events left, cq := cq } env c = some w') :
    Serving m w' := by
  obtain ⟨grounded, member, fresh, _⟩ := serving.pop first phase
  rcases serving.requests c.sqe member with ⟨one, read, _⟩ | ⟨fork, _, o, found, state⟩
  · obtain ⟨some', calm, replies⟩ := answered read
    rw [one] at fresh
    exact received grounded room fresh one some' calm free free' replies done
  · have popped := serving.popped first phase fork
    by_cases error : c.res < 0
    · rw [handleEvent_error grounded.shard error] at done
      cases done
      exact popped
    · exact (popped.sent ⟨found, fork, fresh, grounded.unheld state⟩ state (not_lt.mp error) done).1

/-- A goroutine that has replied hands its fork back, and its send is prepared. -/
theorem asyncWrite {rest : List Nat} (first : w.asyncOpQueue = o :: rest) (free : env.sqe 0 = true)
    (done : handleAsyncWrite { w with asyncOpQueue := rest } env o = some w') : Serving m w' := by
  have member : o ∈ w.asyncOpQueue := by
    rw [first]
    exact mem_cons_self
  obtain ⟨k, found, fork, state⟩ := serving.held o (mem_append_right _ member)
  have perm : w.holders.Perm (o :: holders { w with asyncOpQueue := rest }) := by
    rw [holders, first]
    exact perm_middle
  have once := nodup_cons.mp (perm.nodup_iff.mp serving.once)
  have popped : Serving m { w with asyncOpQueue := rest } := by
    refine ⟨{ serving.toGrounded with once := once.2, held := ?_, replied := ?_ }, serving.receive⟩
    · exact fun i held => serving.held i (perm.symm.subset (mem_cons_of_mem _ held))
    · intro i queued
      refine serving.replied i ?_
      rw [first]
      exact mem_cons_of_mem _ queued
  have resting : Resting { w with asyncOpQueue := rest } k o :=
    ⟨found, fork, serving.quiet found fork state, once.1⟩
  obtain ⟨⟨err, w₁⟩, ran, rfl⟩ := map_eq_some_iff.mp done
  obtain ⟨x, wrote, rfl⟩ := within_eq ran
  have next : (Worker.session { w with asyncOpQueue := rest } o).conn.nextAsyncOp = .writeOp :=
    serving.replied o member
  rw [next] at wrote
  obtain ⟨_, rb, addr, _, _, rfl⟩ := writeData_msg serving.udp free (serving.open' o) wrote
  exact popped.send resting rfl rfl rfl rfl (serving.key found) rfl

/-- The kernel executes a receive or a send. -/
theorem executed (flag : q.flag = .read ∨ q.flag = .write)
    (done : w.execute q res data peer = some w') :
    Serving m w' ∧ w'.inflight = w.inflight ∧ w'.sq = w.sq ∧ w'.cq = w.cq := by
  have moved : Serving m (w.deposit q.addr data) := by
    refine serving.of_grounded (serving.of_posture rfl (fun _ => rfl) ?_ ?_ (.refl _) (.refl _)
      serving.replied serving.phase serving.live) (.refl _)
    · obtain ⟨rb, present, idle⟩ := serving.outbound
      refine ⟨rb.deposit q.addr data, ?_, idle.r, idle.w, idle.isEmpty⟩
      simp only [Worker.deposit, Connection.deposit, present, map_some]
    · intro rb member
      obtain ⟨rb₀, member₀, rfl⟩ := mem_map.mp member
      have idle := serving.idle rb₀ member₀
      exact ⟨idle.r, idle.w, idle.isEmpty⟩
  have noted : ∀ f, Serving m (w.record q.life f) := by
    intro f
    exact serving.of_grounded (serving.of_posture rfl (fun _ => rfl) serving.outbound serving.idle
      (.refl _) (.refl _) serving.replied serving.phase serving.live) (.refl _)
  unfold execute at done
  rcases flag with flag | flag
  · simp only [flag] at done
    split_ifs at done
    · cases done
      exact ⟨serving, rfl, rfl, rfl⟩
    · cases done
      refine ⟨moved.of_grounded (moved.of_posture rfl ?_ ?_ moved.idle (.refl _) (.refl _) ?_
        moved.phase moved.live) (.refl _), rfl, rfl, rfl⟩
      · intro i
        obtain ⟨sender, conn⟩ := setConn_sender (w.deposit q.addr data) q.obj peer i
        rw [conn]
        rfl
      · obtain ⟨rb, present, idle⟩ := moved.outbound
        obtain ⟨sender, conn⟩ := setConn_sender (w.deposit q.addr data) q.obj peer m
        exact ⟨rb, (congrArg Connection.outboundBuffer conn).trans present, idle⟩
      · intro i member
        obtain ⟨sender, conn⟩ := setConn_sender (w.deposit q.addr data) q.obj peer i
        exact (congrArg Connection.nextAsyncOp conn).trans (moved.replied i member)
    · cases done
      exact ⟨moved, rfl, rfl, rfl⟩
  · simp only [flag] at done
    split_ifs at done <;> cases done
    · exact ⟨noted _, rfl, rfl, rfl⟩
    · exact ⟨noted _, rfl, rfl, rfl⟩

/-- A completion leaves the main connection served. -/
theorem complete {chain : Nat} {nonempty : Bool}
    (done : w.complete chain res nonempty data peer = some w') : Serving m w' := by
  unfold Worker.complete at done
  split at done
  · rename_i q rest found
    obtain ⟨w₁, ran, last⟩ := bind_eq_some_iff.mp done
    have member : q ∈ w.outstanding :=
      mem_append_left _ (mem_underway_of_getElem? found mem_cons_self)
    have flag : q.flag = .read ∨ q.flag = .write := by
      rcases serving.requests q member with ⟨_, read, _⟩ | ⟨_, write, _⟩
      · exact Or.inl read
      · exact Or.inr write
    obtain ⟨serving₁, inflight, sq, cq⟩ := serving.executed flag ran
    have moved : ∀ {new : List Sqe} {cqes : List Cqe},
        (new ++ cqes.map Cqe.sqe).Perm (q :: rest) →
        Serving m { w₁ with inflight := w₁.inflight.set chain new, cq := w₁.cq ++ cqes } := by
      intro new cqes perm
      rw [← inflight] at found
      have requests := outstanding_complete found perm
      exact serving₁.of_grounded (serving₁.of_posture rfl (fun _ => rfl) serving₁.outbound
        serving₁.idle requests.subperm (.refl _) serving₁.replied serving₁.phase serving₁.live)
        requests
    split_ifs at last
    · cases last
      refine moved ?_
      simp only [map_cons, List.map_map, comp_def, Sqe.cancelled, List.map_id', nil_append]
      exact .refl _
    · cases last
      exact moved (perm_append_singleton q rest)
  · cases done

theorem of_task (place : w.tasks[i]? = some t) :
    ∃ k, w.connections.lookup k = some t.obj ∧ k ≠ 1 ∧ (w.heap t.obj).state = .read :=
  serving.held t.obj
    (mem_append_left _ (mem_map_of_mem (mem_of_getElem? place)))

/-- A goroutine begins with its handler. -/
theorem taskBegin {begun begun' : Bool}
    (place : w.tasks[i]? = some ⟨o, n, begun⟩) (worked : (w.session o).work w.cfg n [] = some x) :
    Serving m { w.setSession x with tasks := w.tasks.set i ⟨o, n, begun'⟩ } := by
  obtain ⟨k, found, fork, _⟩ := serving.of_task place
  cases worked
  have after : Serving m (w.setSession ((w.session o).setUserSpace.fired (.onRead n))) :=
    serving.session found fork rfl ⟨rfl, rfl⟩ rfl rfl
  refine after.of_grounded (after.of_posture rfl (fun _ => rfl) after.outbound after.idle (.refl _)
    (.of_eq (congrArg (· ++ w.asyncOpQueue) ?_)) after.replied after.phase after.live) (.refl _)
  change (w.tasks.set i ⟨o, n, begun'⟩).map Task.obj = w.tasks.map Task.obj
  apply ext_getElem?
  intro j
  obtain ⟨lt, _⟩ := List.getElem?_eq_some_iff.mp place
  simp only [List.getElem?_map, List.getElem?_set]
  split_ifs with same
  · rw [← same, place]
    rfl
  · rfl

theorem taskCall {op : ConnOp} (place : w.tasks[i]? = some t)
    (called : (w.session t.obj).call w.cfg.source op = some x) : Serving m (w.setSession x) := by
  obtain ⟨k, found, fork, _⟩ := serving.of_task place
  have confined := (call_method called).confined (serving.forks found fork)
  exact serving.session found fork confined.obj confined.posture confined.sq confined.shut

/-- A goroutine ends and asks for a reply. -/
theorem taskEnd (place : w.tasks[i]? = some t) :
    Serving m { w.setConn t.obj { w.heap t.obj with nextAsyncOp := .writeOp } with
      tasks := w.tasks.eraseIdx i, asyncOpQueue := w.asyncOpQueue ++ [t.obj] } := by
  obtain ⟨lt, here⟩ := List.getElem?_eq_some_iff.mp place
  have perm : ((w.tasks.eraseIdx i).map Task.obj ++ (w.asyncOpQueue ++ [t.obj])).Perm
      w.holders := by
    have taken := (List.getElem_cons_eraseIdx_perm lt).map Task.obj
    rw [here, map_cons] at taken
    rw [← append_assoc]
    exact perm_append_comm.trans (taken.append_right w.asyncOpQueue)
  have ended : ∀ o, o ≠ t.obj →
      (w.setConn t.obj { w.heap t.obj with nextAsyncOp := .writeOp }).heap o = w.heap o :=
    fun _ ne => update_of_ne ne ..
  have own : (w.setConn t.obj { w.heap t.obj with nextAsyncOp := .writeOp }).heap t.obj =
    { w.heap t.obj with nextAsyncOp := .writeOp } := update_self ..
  refine serving.of_grounded (serving.of_posture rfl ?_ ?_ serving.idle (.refl _) perm ?_
    serving.phase serving.live) (.refl _)
  · intro o
    by_cases same : o = t.obj
    · subst same
      exact (congrArg Connection.posture own).trans rfl
    · exact congrArg Connection.posture (ended o same)
  · by_cases same : m = t.obj
    · obtain ⟨rb, present, idle⟩ := serving.outbound
      subst same
      exact ⟨rb, (congrArg Connection.outboundBuffer own).trans present, idle⟩
    · rw [show Worker.heap _ m = w.heap m from ended m same]
      exact serving.outbound
  · intro o member
    by_cases same : o = t.obj
    · subst same
      exact congrArg Connection.nextAsyncOp own
    · rw [show Worker.heap _ o = w.heap o from ended o same]
      refine serving.replied o ((mem_append.mp member).resolve_right fun new => ?_)
      exact same (mem_singleton.mp new)

/-- A batch and the queue of asynchronous operations end with a change of phase. -/
theorem paced (running : w.phase ≠ .stopped) {phase : Phase}
    (next : phase ≠ .conns) : Serving m { w with phase := phase } :=
  serving.of_grounded (serving.of_posture rfl (fun _ => rfl) serving.outbound serving.idle (.refl _)
    (.refl _) serving.replied next (Or.inr (serving.live.resolve_left running))) (.refl _)

theorem turn (done : w.step (.turn order chains result) = some w') : Serving m w' := by
  obtain ⟨phase, shut, rfl, next, live⟩ := serving.turn_eq done
  have requests : (w.submit chains phase shut).outstanding = w.outstanding := by
    rw [outstanding, underway_submit]
    rfl
  exact serving.of_grounded (serving.of_posture rfl (fun _ => rfl) serving.outbound serving.idle
    (Perm.of_eq requests).subperm (.refl _) serving.replied next live) (.of_eq requests)

/-- Every step that meets the conditions leaves the server serving. -/
theorem step {label : Label} (answering : w.Answering label)
    (done : w.step label = some w') : Serving m w' := by
  cases label with
  | shutdown => exact answering.elim
  | turn order chains result => exact serving.turn done
  | event env =>
    obtain ⟨room, free, free', answered⟩ := answering
    simp only [Worker.step] at done
    split at done
    · rename_i left c cq phase first
      exact serving.event phase first room free free' (answered c (by rw [first]; rfl)) done
    · cases done
  | peek =>
    simp only [Worker.step] at done
    split_ifs at done with phase
    cases done
    refine serving.paced ?_ (by simp)
    rw [phase]
    decide
  | endBatch =>
    simp only [Worker.step] at done
    split_ifs at done with phase
    cases done
    rw [serving.afterBatch_eq]
    refine serving.paced ?_ (by decide)
    rw [phase]
    decide
  | newConn env =>
    simp only [Worker.step] at done
    split at done
    · exact absurd ‹_› serving.phase
    · exact absurd ‹_› serving.phase
    · cases done
  | asyncWrite env =>
    simp only [Worker.step] at done
    split at done
    · rename_i phase empty
      rw [serving.unfinished] at done
      cases done
      refine serving.paced ?_ (by decide)
      rw [phase]
      decide
    · rename_i first
      exact serving.asyncWrite first answering done
    · cases done
  | complete chain res nonempty data peer => exact serving.complete done
  | handOff fd addr =>
    simp only [Worker.step, serving.shard, reduceCtorEq, false_and, if_false] at done
  | taskBegin i =>
    simp only [Worker.step] at done
    split at done
    · rename_i o n place
      obtain ⟨x, worked, rfl⟩ := map_eq_some_iff.mp done
      exact serving.taskBegin place worked
    · cases done
  | taskCall i op =>
    simp only [Worker.step] at done
    split at done
    · rename_i o n place
      obtain ⟨x, called, rfl⟩ := map_eq_some_iff.mp done
      exact serving.taskCall place called
    · cases done
  | taskEnd i =>
    simp only [Worker.step] at done
    split at done
    · rename_i o n place
      have next : nextAsyncOp (w.heap o) = some .writeOp := answering _ place
      rw [next] at done
      cases done
      exact serving.taskEnd place
    · cases done

end Serving

variable {cfg : Config} {streams : Streams}

/-- The server starts serving. -/
theorem start_serving (shard : cfg.kind = .shard) (udp : cfg.sendRecvMsg = true)
    (started : start cfg streams = some w) : ∃ m, Serving m w := by
  obtain ⟨o, base, inbound, grown, outbound, addr, w₁, mem, entered, _, present, all, _, _, rfl⟩ :=
    start_entered shard udp started
  obtain ⟨_, idle, shelf⟩ := all (RingBuffer.newMagicBuffer_idle _ _)
  have blank : base = {} := by
    rcases entered.source with ⟨member, _⟩ | ⟨_, rfl, _⟩
    · cases member
    · rfl
  obtain ⟨_, _, conn⟩ := entered.conn
  have fresh : ∀ i, i ≠ o → w₁.heap i = {} := entered.others
  have only : ∀ {k : Int} {i : Nat}, w₁.connections.lookup k = some i → k = 1 ∧ i = o := by
    intro k i found
    rcases entered.lookup_cases found with new | ⟨_, before⟩
    · exact new
    · cases before
  -- one request is prepared and nothing else is going on
  have inflight : w₁.inflight = [] := by rw [entered.frame]; rfl
  have cq : w₁.cq = [] := by rw [entered.frame]; rfl
  have tasks : w₁.tasks = [] ∧ w₁.asyncOpQueue = [] := by
    rw [entered.frame]
    exact ⟨rfl, rfl⟩
  have config : w₁.cfg = cfg := by rw [entered.frame]; rfl
  refine ⟨o, ?_, ?_⟩
  swap
  · refine ⟨⟨.read, 1, cfg.listener, addr, inbound.cap, false, o, (w₁.heap o).life⟩, ?_, rfl⟩
    simp only [outstanding, underway, inflight, cq]
    exact mem_singleton_self _
  constructor
  case toSteady =>
    rw [entered.frame]
    exact ⟨shard, udp, rfl, rfl, show Phase.top ≠ .conns by decide,
      Or.inr fun member => absurd member not_mem_nil⟩
  case toIndexed =>
    have indexed := (init_indexed cfg streams).entered entered.toTaken entered.lookup_cases
      (by rw [conn]) fun i other => by rw [entered.others i other]
    refine { indexed with key := fun {k i} found => ?_ }
    obtain ⟨rfl, rfl⟩ := only found
    simp only [update_self, conn]
  case idle => exact shelf
  case open' =>
    intro i
    by_cases same : i = o
    · subst same
      simp only [update_self, conn, blank]
    · simp only [update_of_ne same, fresh i same]
  case toCounting =>
    have keys : w₁.keyPool = ⟨[], 2⟩ := by rw [entered.frame]; rfl
    constructor <;> simp only [keys]
    case below => exact fun found => (only found).1 ▸ by decide
    case zeros => exact fun _ member => absurd member not_mem_nil
    case room => decide
  case main => exact entered.lookup_self
  case fd =>
    intro k i found
    obtain ⟨rfl, rfl⟩ := only found
    simp only [update_self, conn, config]
  case state => simp only [update_self]
  case outbound =>
    refine ⟨outbound, ?_, idle⟩
    simp only [update_self]
    exact present
  case forks => exact fun found fork => absurd (only found).1 fork
  case nodup =>
    simp only [outstanding, underway, inflight, cq]
    exact nodup_singleton _
  case requests =>
    simp only [outstanding, underway, inflight, cq]
    intro q member
    cases mem_singleton.mp member
    exact Or.inl ⟨rfl, rfl, by rw [config], rfl⟩
  case once => simp only [holders, tasks]; exact nodup_nil
  case held => simp only [holders, tasks]; exact fun _ member => absurd member not_mem_nil
  case replied => simp only [tasks]; exact fun _ member => absurd member not_mem_nil

/-- Exactly one receive is outstanding, on the listening socket and for the main connection,
which is registered, and the socket is not shut down. -/
structure Listening (w : Worker) : Prop where
  receive : ∃ q, w.outstanding.filter (fun q => q.flag = .read) = [q] ∧ q.key = 1 ∧
    q.fd = w.cfg.listener ∧ w.connections.lookup 1 = some q.obj
  open' : w.cfg.listener ∉ w.shut

/-- A server that serves is listening. -/
theorem Serving.listening (serving : Serving m w) (running : w.phase ≠ .stopped) : w.Listening := by
  refine ⟨?_, serving.live.resolve_left running⟩
  have main : ∀ q ∈ w.outstanding, q.flag = .read →
      q.key = 1 ∧ q.fd = w.cfg.listener ∧ q.obj = m := by
    intro q member read
    rcases serving.requests q member with ⟨one, _, fd, obj⟩ | ⟨_, write, _⟩
    · exact ⟨one, fd, obj⟩
    · rw [read] at write
      cases write
  obtain ⟨q, member, one⟩ := serving.receive
  have read : q.flag = .read := by
    rcases serving.requests q member with ⟨_, read, _⟩ | ⟨fork, _⟩
    · exact read
    · exact absurd one fork
  obtain ⟨_, fd, obj⟩ := main q member read
  refine ⟨q, ?_, one, fd, by rw [obj]; exact serving.main⟩
  refine filter_eq_singleton serving.nodup member (decide_eq_true read) ?_
  intro q' member' read'
  rw [one]
  exact (main q' member' (of_decide_eq_true read')).1

/-- In every state of such a run, before the loop has ended, the server listens. -/
theorem run_listening_of_answering (shard : cfg.kind = .shard) (udp : cfg.sendRecvMsg = true)
    (started : start cfg streams = some w) {ls : List Label} (ran : run step ls w = some w')
    (along : Along step Answering ls w) (running : w'.phase ≠ .stopped) : w'.Listening := by
  obtain ⟨m, serving⟩ := start_serving shard udp started
  have after : Serving m w' :=
    invariant_of_run (fun s l s' answering done serving => serving.step answering done) ran along
      serving
  exact after.listening running

/-- A datagram server with synchronous handlers. -/
def datagrams : Config := { plain .shard with sendRecvMsg := true }

/-- The receive of the main connection is submitted. -/
def submitted : List Label := [.turn [] 1 .done, .peek, .endBatch, .asyncWrite {}]

/-- A datagram of two bytes is received and answered, and the reply is sent. -/
def echoed : List Label :=
  submitted ++ ([.complete 0 2 false [1, 2] (some 7), .turn [] 0 .done, .peek,
    .event { handler := [.next 2, .write [1, 2]] }, .endBatch, .asyncWrite {},
    .turn [] 2 .done, .peek, .endBatch, .asyncWrite {}, .complete 2 2 false [1, 2] none,
    .turn [] 0 .done, .peek, .event {}, .endBatch, .asyncWrite {}] : List Label)

theorem run_listening_of_answering_echoed : ∃ w w', start datagrams keepNothing = some w ∧
    run step echoed w = some w' ∧ w'.phase = .top ∧ w'.Listening := by
  obtain ⟨w, w', started, ran, along, top⟩ : ∃ w w', start datagrams keepNothing = some w ∧
      run step echoed w = some w' ∧ Along step Answering echoed w ∧ w'.phase = .top :=
    exists_run (by decide +kernel)
  refine ⟨w, w', started, ran, top, run_listening_of_answering rfl rfl started ran along ?_⟩
  rw [top]
  exact nofun

/-- A datagram without any bytes is received. -/
def emptyReceived : List Label :=
  submitted ++ ([.complete 0 0 false [] (some 7), .turn [] 0 .done, .peek, .event {}, .endBatch,
    .asyncWrite {}] : List Label)

theorem run_not_listening : ∃ w w', start datagrams keepNothing = some w ∧
    run step emptyReceived w = some w' ∧ w'.phase = .top ∧ w'.cfg.listener ∈ w'.shut ∧
    w'.connections.lookup 1 = none ∧ ¬ w'.Listening := by
  obtain ⟨w, w', started, ran, top, shut, gone⟩ : ∃ w w', start datagrams keepNothing = some w ∧
      run step emptyReceived w = some w' ∧ w'.phase = .top ∧ w'.cfg.listener ∈ w'.shut ∧
      w'.connections.lookup 1 = none := exists_run (by decide +kernel)
  exact ⟨w, w', started, ran, top, shut, gone, fun listening => listening.open' shut⟩

end Worker

end Gain
