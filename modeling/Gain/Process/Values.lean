import Gain.Process.Separation
import Gain.Worker.Loop

/-! # The worker's connections are those of the process

The model of a worker has its connections hold their ring buffers as values and its pool hold
ring buffers, where the process has pointers. The state of a worker is the one of the process
with the pointers followed, and the operations of its manager do the same to both, because no
ring buffer belongs to two connections.
-/

namespace Gain

open Function Option VirtualMem

variable {pageSize : Nat} {pos : 0 < pageSize} {c c' : ConnObject} {o r life : Nat}
  {rings rings' : Nat → RingBuffer}

namespace ConnObject

/-- The connection with its pointers followed. -/
def value (c : ConnObject) (rings : Nat → RingBuffer) (life : Nat) : Connection where
  fd := c.fd
  key := c.key
  network := c.network
  inboundBuffer := c.inboundBuffer.map rings
  outboundBuffer := c.outboundBuffer.map rings
  state := c.state
  mode := c.mode
  closed := c.closed
  msgHdr := c.msgHdr
  rawSockaddr := c.rawSockaddr.join
  localAddr := c.localAddr
  remoteAddr := c.remoteAddr
  nextAsyncOp := c.nextAsyncOp
  life := life

/-- Only the connection's own ring buffers matter. -/
theorem value_congr (same : ∀ side r, c.buffer side = some r → rings' r = rings r) :
    c.value rings' life = c.value rings life := by
  have inbound : c.inboundBuffer.map rings' = c.inboundBuffer.map rings :=
    map_congr fun r here => same .inbound r here
  have outbound : c.outboundBuffer.map rings' = c.outboundBuffer.map rings :=
    map_congr fun r here => same .outbound r here
  unfold value
  rw [inbound, outbound]

theorem headed_value {s : RingStore} {write : Bool}
    (done : (if write then c.setMsgHeaderWrite s else some c) = some c') :
    (if write then (c.value s.heap life).setMsgHeaderWrite else some (c.value s.heap life)) =
      some (c'.value s.heap life) := by
  cases write with
  | false =>
    cases done
    rfl
  | true =>
    obtain ⟨r, outbound, rest⟩ := bind_eq_some_iff.mp done
    obtain ⟨base, address, rest⟩ := bind_eq_some_iff.mp rest
    obtain ⟨header, headed, last⟩ := bind_eq_some_iff.mp rest
    cases last
    simp [Connection.setMsgHeaderWrite, value, outbound, address, headed]

theorem initMsgHeader_value {s : RingStore} (done : c.initMsgHeader s = some c') :
    (c.value s.heap life).initMsgHeader = some (c'.value s.heap life) := by
  obtain ⟨r, inbound, rest⟩ := bind_eq_some_iff.mp done
  obtain ⟨base, address, last⟩ := bind_eq_some_iff.mp rest
  cases last
  simp [Connection.initMsgHeader, value, inbound, address]

end ConnObject

namespace RingStore

variable {s s' s₁ s₂ : RingStore} {r₁ r₂ : Nat}

/-- The pool of ring buffers with its pointers followed. -/
def values (s : RingStore) : BufferPool where
  pool := s.pool.map s.heap
  defaultSize := s.defaultSize
  maxSize := s.maxSize
  calibration := s.calibration
  puts := s.puts

/-- `Get` of pointers is `Get` of ring buffers. -/
theorem Got.values (got : s.Got pageSize pos r s') (bound : ∀ r ∈ s.pool.items, r < s.nextRing) :
    s.values.get (Ledger.source pageSize pos) s.mem = (s'.heap r, s'.values, s'.mem) := by
  have mapped := s.pool.get_map s.heap
  cases got with
  | pooled got =>
    rw [got] at mapped
    simp only [BufferPool.get, RingStore.values, mapped]
    rfl
  | @made pool rb mem got new =>
    rw [got] at mapped
    -- the free ring buffers are older than the new one
    have fresh : s.nextRing ∉ pool.items := by
      rw [SyncPool.get_none got]
      exact fun member => (bound _ member).ne rfl
    simp only [BufferPool.get, RingStore.values, mapped, new, SyncPool.map_update fresh,
      update_self, map_none]

/-- `Put` of a pointer is `Put` of its ring buffer. -/
theorem put_values (away : r ∉ s.pool.items) (done : s.put (some r) = some s') :
    s.values.put (some (s.heap r)) = some s'.values ∧ s'.mem = s.mem ∧
      ∀ r' ≠ r, s'.heap r' = s.heap r' := by
  obtain ⟨rb, zeroed, last⟩ := bind_eq_some_iff.mp done
  dsimp only at last
  split_ifs at last with fits
  · cases last
    refine ⟨?_, rfl, fun r' other => ?_⟩
    · have back : (s.pool.put r).map (update s.heap r rb.reset) =
          (s.pool.map s.heap).put rb.reset := by
        rw [← SyncPool.map_update away rb.reset, SyncPool.map, SyncPool.put, List.map_cons,
          update_self]
        rfl
      simp only [values, update_idem, back]
      exact bind_eq_some_iff.mpr ⟨rb, zeroed, if_pos fits⟩
    · exact (update_of_ne other ..).trans (update_of_ne other ..)
  · cases last
    refine ⟨?_, rfl, fun r' other => update_of_ne other ..⟩
    simp only [values, SyncPool.map_update away]
    exact bind_eq_some_iff.mpr ⟨rb, zeroed, if_neg fits⟩

/-- Two ring buffers are handed out, and the others stay as they are. -/
theorem Got.values_twice (first : s.Got pageSize pos r₁ s₁) (second : s₁.Got pageSize pos r₂ s₂)
    (distinct : Supplied.Distinct s.pool.items s.nextRing) :
    s.values.get (Ledger.source pageSize pos) s.mem = (s₂.heap r₁, s₁.values, s₁.mem) ∧
      s₁.values.get (Ledger.source pageSize pos) s₁.mem = (s₂.heap r₂, s₂.values, s₂.mem) ∧
      ∀ r < s.nextRing, s₂.heap r = s.heap r := by
  obtain ⟨bound, old⟩ := first.bounds distinct
  refine ⟨?_, second.values bound, fun r early => ?_⟩
  · rw [second.heap_of_lt old]
    exact first.values distinct.2
  · rw [second.heap_of_lt (early.trans_le first.supplied.1), first.heap_of_lt early]

end RingStore

/-- The connections of a worker are those of the process. -/
def Valued (heap : Nat → Connection) (conns : Nat → ConnObject) (rings : Nat → RingBuffer) : Prop :=
  ∀ o, heap o = (conns o).value rings (heap o).life

/-- One connection changes, and the ring buffers of the others do not. -/
theorem Valued.update {heap : Nat → Connection} {conns : Nat → ConnObject} {x : Connection}
    (valued : Valued heap conns rings) (own : x = c.value rings' x.life)
    (others : ∀ o' ≠ o, ∀ side r, (conns o').buffer side = some r → rings' r = rings r) :
    Valued (update heap o x) (update conns o c) rings' := by
  intro o'
  by_cases self : o' = o
  · subst self
    rw [update_self, update_self]
    exact own
  · rw [update_of_ne self, update_of_ne self, ConnObject.value_congr (others o' self)]
    exact valued o'

/-- The connection manager of a worker. -/
def Worker.manager (w : Worker) : Manager :=
  ⟨w.connections, w.connectionsCount, w.releaseFdSet, w.keyPool⟩

/-- The connection with another ring buffer on one side. -/
def Connection.setBuffer (c : Connection) (rb : RingBuffer) : Side → Connection
  | .inbound => { c with inboundBuffer := some rb }
  | .outbound => { c with outboundBuffer := some rb }

namespace Process

variable {p p' : Process} {m f : Nat} {key fd : Int} {write : Bool} {w : Worker} {x : Connection}

/-- What the worker and the process with its manager `m` have in common. -/
structure Represents (pageSize : Nat) (pos : 0 < pageSize) (p : Process) (m : Nat) (w : Worker) :
    Prop where
  source : w.cfg.source = Ledger.source pageSize pos
  conns : Valued w.heap p.conns p.rings.heap
  nextConn : w.nextObj = p.nextConn
  connPool : w.connPool = p.connPool
  rings : w.bufPool = p.rings.values
  mem : w.mem = p.rings.mem
  manager : w.manager = p.managers m

theorem start_represents (cfg : Config) (streams : Worker.Streams) (m : Nat) :
    Represents cfg.pageSize cfg.pageSize_pos
      (start cfg.pageSize streams.conns streams.buffers streams.mems streams.calibration) m
      (Worker.init cfg streams) :=
  ⟨rfl, fun _ => rfl, rfl, rfl, rfl, rfl, rfl⟩

namespace Represents

variable (represents : Represents pageSize pos p m w)
include represents

theorem connections : w.connections = (p.managers m).connections :=
  congrArg Manager.connections represents.manager

theorem keyPool : w.keyPool = (p.managers m).keyPool :=
  congrArg Manager.keyPool represents.manager

theorem setConn (own : x = c.value p.rings.heap x.life) :
    Represents pageSize pos (p.setConn o c) m (w.setConn o x) where
  __ := represents
  conns := represents.conns.update own fun _ _ _ _ _ => rfl
  manager := represents.manager

/-- A connection is entered in the table, in a new life. -/
theorem register (own : x = c.value p.rings.heap x.life) :
    Represents pageSize pos ((p.setConn o c).register m key o) m (w.register key o x) where
  __ := represents
  conns := represents.conns.update (by rw [own]; rfl) fun _ _ _ _ _ => rfl
  manager := by
    simp only [Process.register, Process.setManager, Process.setConn, update_self,
      ← represents.manager]
    rfl

/-- The process has taken ring buffers that no connection had. -/
theorem taken {s : RingStore}
    (holding : Holding (buffers p.conns) p.rings.pool.items p.rings.nextRing)
    (others : ∀ r < p.rings.nextRing, s.heap r = p.rings.heap r) :
    Represents pageSize pos { p with rings := s } m
      { w with bufPool := s.values, mem := s.mem } where
  __ := represents
  conns := by
    intro o
    refine (represents.conns o).trans (ConnObject.value_congr fun side r here => ?_).symm
    exact others r (holding.bound (x := (o, side)) here)
  rings := rfl
  mem := rfl
  manager := represents.manager

/-- The worker obtains the connection of the process. -/
theorem getConnection (apart : p.Apart) :
    ∃ w', w.getConnection = ((p.getConnection pageSize pos).1, w') ∧
      Represents pageSize pos (p.getConnection pageSize pos).2 m w' := by
  unfold Worker.getConnection Process.getConnection newConnection getBuffers
  rcases taken : p.connPool.get with ⟨ptr, connPool⟩
  obtain ⟨r₁, s₁, r₂, s₂, one, two, first, second⟩ := @RingStore.get_twice pageSize pos p.rings
  obtain ⟨got₁, got₂, others⟩ := first.values_twice second apart.rings.distinct
  have after := represents.taken apart.rings others
  simp only [represents.connPool, taken, represents.rings, represents.mem, represents.source, got₁,
    got₂, one, two]
  cases ptr with
  | some o =>
    refine ⟨_, rfl, { after with
      conns := after.conns.update ?_ fun _ _ _ _ _ => rfl, connPool := rfl }⟩
    rw [represents.conns o]
    rfl
  | none =>
    simp only [represents.nextConn]
    exact ⟨_, rfl, { after with
      conns := after.conns.update rfl fun _ _ _ _ _ => rfl, nextConn := rfl, connPool := rfl }⟩

/-- `get` does the same to both. -/
theorem get (apart : p.Apart) :
    ∃ w', w.get key fd = ((p.get pageSize pos m key fd).1, w') ∧
      Represents pageSize pos (p.get pageSize pos m key fd).2 m w' := by
  unfold Worker.get Process.get
  rw [represents.connections]
  cases (p.managers m).connections.lookup key with
  | some o => exact ⟨w, rfl, represents⟩
  | none =>
    obtain ⟨w₁, got, after⟩ := represents.getConnection apart
    simp only [got]
    refine ⟨_, rfl, after.register ?_⟩
    rw [after.conns]
    rfl

/-- `fork` does the same to both. -/
theorem fork (apart : p.Apart) (found : entries p.managers (m, key) = some o)
    (done : p.fork pageSize pos m o write = some (f, p')) :
    ∃ w', w.fork o write = some (f, w') ∧ Represents pageSize pos p' m w' := by
  unfold Worker.fork
  rcases keyed : (p.managers m).keyPool.get with ⟨new, keyPool⟩
  have before : (p.setKeyPool m keyPool).Apart := apart.setManager rfl
  have keys : Represents pageSize pos (p.setKeyPool m keyPool) m { w with keyPool := keyPool } := by
    refine { represents with manager := ?_ }
    simp only [setKeyPool, setManager, update_self, ← represents.manager]
    rfl
  have obtained := @getConnection_obtained pageSize pos (p.setKeyPool m keyPool)
  obtain ⟨w₁, got, after⟩ := keys.getConnection before
  rcases taken : (p.setKeyPool m keyPool).getConnection pageSize pos with ⟨f', p₁⟩
  rw [taken] at obtained got after
  simp only [setKeyPool] at taken
  simp only [Process.fork, keyed, taken] at done
  obtain ⟨p₂, forks, last⟩ := bind_eq_some_iff.mp done
  cases last
  have other : o ≠ f := apart.ne_of_supplied found obtained.supplied
  obtain ⟨holding, _⟩ := before.obtained_rings obtained
  obtain ⟨sender, sent, rest⟩ := bind_eq_some_iff.mp forks
  obtain ⟨forked, headed, rest⟩ := bind_ite_eq_some_iff.mp rest
  obtain ⟨r₁, s₁, r₂, s₂, one, two, first, second⟩ := @RingStore.get_twice pageSize pos p₁.rings
  obtain ⟨got₁, got₂, others⟩ := first.values_twice second holding.distinct
  simp only [getBuffers, one, two] at rest
  obtain ⟨c, initialised, last⟩ := bind_eq_some_iff.mp rest
  cases last
  have initialised' := @ConnObject.initMsgHeader_value _ _ (w₁.heap o).life _ initialised
  have headed' := @ConnObject.headed_value _ _ (w₁.heap f).life _ _ headed
  simp only [represents.keyPool, keyed, got, after.rings, after.mem, after.source, got₁, got₂]
  refine ⟨_, bind_ite_eq_some_iff.mpr ⟨forked.value p₁.rings.heap (w₁.heap f).life, ?_,
    bind_eq_some_iff.mpr ⟨c.value s₂.heap (w₁.heap o).life, ?_, rfl⟩⟩, ?_⟩
  · rw [after.conns f, after.conns o]
    simp only [ConnObject.value, sent, join_some] at headed' ⊢
    exact headed'
  · rw [after.conns o]
    exact initialised'
  · have swapped : ∀ q : Process,
        (q.setConn f forked).setConn o c = (q.setConn o c).setConn f forked := by
      intro q
      simp only [Process.setConn, update_comm other]
    rw [swapped]
    refine ((after.taken holding others).setConn rfl).register ?_
    refine (ConnObject.value_congr fun side r here => others r ?_).symm
    rw [(headed_same headed).1 side] at here
    refine holding.bound (x := (o, side)) ?_
    cases side <;> exact here

/-- Both ring buffers are given back. -/
theorem putConnection (holding : Holding (buffers p.conns) p.rings.pool.items p.rings.nextRing)
    (done : p.putConnection o = some p') :
    ∃ w', w.putConnection o = some w' ∧ Represents pageSize pos p' m w' := by
  obtain ⟨s₁, first, rest⟩ := bind_eq_some_iff.mp done
  obtain ⟨s₂, second, last⟩ := bind_eq_some_iff.mp rest
  cases last
  obtain ⟨r₁, inbound, gave⟩ := RingStore.put_gave first
  obtain ⟨r₂, outbound, _⟩ := RingStore.put_gave second
  have here₁ : (w.heap o).inboundBuffer = some (p.rings.heap r₁) := by
    rw [represents.conns o, ConnObject.value, inbound, map_some]
  have here₂ : (w.heap o).outboundBuffer = some (p.rings.heap r₂) := by
    rw [represents.conns o, ConnObject.value, outbound, map_some]
  rw [inbound] at first
  rw [outbound] at second
  replace inbound : buffers p.conns (o, .inbound) = some r₁ := inbound
  replace outbound : buffers p.conns (o, .outbound) = some r₂ := outbound
  have other : r₂ ≠ r₁ := by
    rintro rfl
    cases holding.apart inbound outbound
  have middle : Holding (update (buffers p.conns) (o, .inbound) none) s₁.pool.items
      s₁.nextRing :=
    Apart.gave_rings holding gave inbound (update_self ..) fun y ne => update_of_ne ne ..
  have left : update (buffers p.conns) (o, .inbound) none (o, .outbound) = some r₂ := by
    rw [update_of_ne (by simp)]
    exact outbound
  obtain ⟨put₁, mem₁, kept₁⟩ := RingStore.put_values (holding.taken inbound) first
  obtain ⟨put₂, mem₂, kept₂⟩ := RingStore.put_values (middle.taken left) second
  rw [← here₁, ← represents.rings] at put₁
  rw [kept₁ r₂ other, ← here₂] at put₂
  refine ⟨_, bind_eq_some_iff.mpr ⟨_, put₁, bind_eq_some_iff.mpr ⟨_, put₂, rfl⟩⟩, ?_⟩
  refine ⟨represents.source, represents.conns.update ?_ fun o' away side r here => ?_,
    represents.nextConn, ?_, rfl, ?_, represents.manager⟩
  · rw [represents.conns o]
    rfl
  · have ne : ∀ side' r', buffers p.conns (o, side') = some r' → r ≠ r' := by
      rintro side' r' there rfl
      exact away (congrArg Prod.fst (holding.apart (x := (o', side)) here there))
    exact (kept₂ r (ne _ r₂ outbound)).trans (kept₁ r (ne _ r₁ inbound))
  · rw [← represents.connPool]
  · exact represents.mem.trans (mem₂.trans mem₁).symm

/-- `release` does the same to both. -/
theorem release (apart : p.Apart) (done : p.release m key = some p') :
    ∃ w', w.release key = some w' ∧ Represents pageSize pos p' m w' := by
  unfold Worker.release
  unfold Process.release at done
  rw [represents.connections]
  cases found : (p.managers m).connections.lookup key with
  | none =>
    rw [found] at done
    cases done
    exact ⟨w, rfl, represents⟩
  | some o =>
    rw [found] at done
    obtain ⟨p₁, puts, last⟩ := bind_eq_some_iff.mp done
    cases last
    have unregistered : Represents pageSize pos (p.unregister m key) m { w with
        connections := w.connections.erase key
        connectionsCount := addInt32 w.connectionsCount (-1) } := by
      refine { represents with manager := ?_ }
      simp only [unregister, setManager, update_self, ← represents.manager]
      rfl
    obtain ⟨w₁, puts', after⟩ := unregistered.putConnection apart.rings puts
    rw [represents.connections] at puts'
    refine ⟨_, bind_eq_some_iff.mpr ⟨w₁, puts', rfl⟩, { after with manager := ?_ }⟩
    simp only [setManager, update_self, ← after.manager]
    rw [show (w₁.heap o).key = (p₁.conns o).key by rw [after.conns o]; rfl]
    rfl

/-- The holder of a ring buffer uses it, and no other connection notices. -/
theorem use {side : Side} {deed : RingBuffer.Deed} {s : RingStore}
    (holding : Holding (buffers p.conns) p.rings.pool.items p.rings.nextRing)
    (here : buffers p.conns (o, side) = some r) (used : p.rings.use pageSize pos r deed = some s) :
    ∃ rb mem, deed.exec pageSize pos (p.rings.heap r) w.mem = some (rb, mem) ∧
      Represents pageSize pos { p with rings := s } m
        ({ w with mem := mem }.setConn o ((w.heap o).setBuffer rb side)) := by
  obtain ⟨⟨rb, mem⟩, ran, last⟩ := bind_eq_some_iff.mp used
  cases last
  rw [← represents.mem] at ran
  have others : ∀ x ≠ (o, side), ∀ r', buffers p.conns x = some r' →
      update p.rings.heap r rb r' = p.rings.heap r' := by
    intro x ne r' there
    refine update_of_ne ?_ ..
    rintro rfl
    exact ne (holding.apart there here)
  have own : (w.heap o).setBuffer rb side =
      (p.conns o).value (update p.rings.heap r rb) ((w.heap o).setBuffer rb side).life := by
    rw [represents.conns o]
    replace here : (p.conns o).buffer side = some r := here
    have kept : ∀ side' ≠ side, ((p.conns o).buffer side').map (update p.rings.heap r rb) =
        ((p.conns o).buffer side').map p.rings.heap := fun side' ne =>
      map_congr fun r' there => others (o, side') (by simpa using ne) r' there
    cases side with
    | inbound =>
      have same := kept .outbound (by simp)
      simp_all [Connection.setBuffer, ConnObject.value, ConnObject.buffer]
    | outbound =>
      have same := kept .inbound (by simp)
      simp_all [Connection.setBuffer, ConnObject.value, ConnObject.buffer]
  have changed := represents.conns.update (o := o) own fun o' away side' r' there =>
    others (o', side') (fun same => away (congrArg Prod.fst same)) r' there
  rw [update_eq_self] at changed
  refine ⟨rb, mem, ran, { represents with conns := changed, rings := ?_, mem := rfl }⟩
  simp only [RingStore.values, SyncPool.map_update (holding.taken here)]
  exact represents.rings

end Represents

end Process

end Gain
