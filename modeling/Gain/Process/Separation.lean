import Gain.Process.State

/-! # Nothing is shared

A connection is in one table at most, a ring buffer belongs to one connection, and
a region to one ring buffer; what is in a pool belongs to nobody. Each of the three
is kept by exchanges of one place with the pool.
-/

namespace Gain

open Function Option

namespace Process

variable {pageSize : Nat} {pos : 0 < pageSize} {p p' : Process} {o m : Nat} {key : Int}
  {r r₁ r₂ : Nat} {s s₁ s₂ : RingStore} {holds holds' : Nat × Side → Option Nat} {c c' : ConnObject}
  {f : Nat} {write : Bool} {manager : Manager}

/-- The connection a manager has under a key. -/
def entries (managers : Nat → Manager) (x : Nat × Int) : Option Nat :=
  (managers x.1).connections.lookup x.2

/-- The ring buffer a connection has on one side. -/
def buffers (conns : Nat → ConnObject) (x : Nat × Side) : Option Nat := (conns x.1).buffer x.2

structure Apart (p : Process) : Prop where
  conns : Holding (entries p.managers) p.connPool.items p.nextConn
  rings : Holding (buffers p.conns) p.rings.pool.items p.rings.nextRing
  regions : p.rings.Separate

theorem start_apart (conns rings : Nat → Option Nat) (mems : Nat → Nat → Option Nat)
    (calibration : Nat → Option (Fin 15 × Fin 15)) :
    (start pageSize conns rings mems calibration).Apart where
  conns := .empty
  rings := by
    have nothing : buffers (start pageSize conns rings mems calibration).conns = fun _ => none := by
      funext ⟨o, side⟩
      cases side <;> rfl
    rw [nothing]
    exact .empty
  regions := RingStore.start_separate rings mems calibration

/-! ## Connections are taken and given back -/

/-- A connection is given two ring buffers of the pool. -/
theorem equip (o : Nat) (holding : Holding holds s.pool.items s.nextRing)
    (first : s.Got pageSize pos r₁ s₁) (second : s₁.Got pageSize pos r₂ s₂)
    (inbound : holds' (o, .inbound) = some r₁) (outbound : holds' (o, .outbound) = some r₂)
    (others : ∀ x, x.1 ≠ o → holds' x = holds x) : Holding holds' s₂.pool.items s₂.nextRing := by
  have middle : Holding (update holds (o, .inbound) (some r₁)) s₁.pool.items
      s₁.nextRing := by
    refine Holding.exchange (x := (o, .inbound)) holding ?_ ?_
    · intro y ne
      exact update_of_ne ne ..
    · rw [update_self]
      exact (Supplied.of_le (Multiset.le_add_left _ _)).trans first.supplied
  refine Holding.exchange (x := (o, .outbound)) middle ?_ ?_
  · rintro ⟨o', side⟩ ne
    by_cases self : o' = o
    · subst self
      cases side with
      | inbound => rw [inbound, update_self]
      | outbound => exact absurd rfl ne
    · have other : (o', side) ≠ (o, Side.inbound) := fun same => self (congrArg Prod.fst same)
      rw [others _ self, update_of_ne other]
  · rw [outbound]
    exact (Supplied.of_le (Multiset.le_add_left _ _)).trans second.supplied

/-- What `getConnection` does: the connection was in the pool or is a new one, and is given two
ring buffers. -/
structure Obtained (pageSize : Nat) (pos : 0 < pageSize) (p : Process) (o : Nat) (p' : Process) :
    Prop where
  rings : ∃ r₁ r₂ s₁ base, p.rings.Got pageSize pos r₁ s₁ ∧ s₁.Got pageSize pos r₂ p'.rings ∧
    p'.conns = update p.conns o
      { base with inboundBuffer := some r₁, outboundBuffer := some r₂ } ∧
    (base = p.conns o ∧ o ∈ p.connPool.items ∧ p'.nextConn = p.nextConn ∨
      base = {} ∧ o = p.nextConn ∧ p'.nextConn = p.nextConn + 1)
  managers : p'.managers = p.managers
  supplied : Supplied p.connPool.items p.nextConn (([o] : Multiset Nat) + p'.connPool.items)
    p'.nextConn
  kept : ∀ o' ∈ p'.connPool.items, o' ∈ p.connPool.items

/-- The steps of `getConnection`. -/
theorem getConnection_obtained (p : Process) :
    Obtained pageSize pos p (p.getConnection pageSize pos).1 (p.getConnection pageSize pos).2 := by
  unfold getConnection newConnection getBuffers
  rcases taken : p.connPool.get with ⟨ptr, connPool⟩
  obtain ⟨r₁, s₁, r₂, s₂, one, two, first, second⟩ := @RingStore.get_twice pageSize pos p.rings
  cases ptr with
  | some o =>
    simp only [one, two]
    obtain ⟨member, kept⟩ := SyncPool.get_some taken
    refine ⟨⟨r₁, r₂, s₁, _, first, second, rfl, Or.inl ⟨rfl, member, rfl⟩⟩, rfl, ?_, kept⟩
    refine Supplied.of_le (le_of_eq ?_)
    exact Multiset.coe_eq_coe.mpr (SyncPool.get_perm taken)
  | none =>
    simp only [one, two]
    have same := SyncPool.get_none taken
    refine ⟨⟨r₁, r₂, s₁, {}, first, second, rfl, Or.inr ⟨rfl, rfl, rfl⟩⟩, rfl, ?_, fun o' => ?_⟩
    · change Supplied _ _ _ (p.nextConn + 1)
      rw [← same]
      exact Supplied.one (connPool.items : Multiset Nat) p.nextConn
    · rw [← same]
      exact id

/-- What `fork` does with the two connections: the forked one takes over the ring buffers, and the
other one is given two others. -/
structure Parted (pageSize : Nat) (pos : 0 < pageSize) (p : Process) (o f : Nat) (key : Int)
    (p' : Process) : Prop where
  rings : ∃ r₁ r₂ s₁ c forked, p.rings.Got pageSize pos r₁ s₁ ∧ s₁.Got pageSize pos r₂ p'.rings ∧
    p'.conns = update (update p.conns f forked) o c ∧
    (∀ side, forked.buffer side = (p.conns o).buffer side) ∧ forked.key = key ∧
    c.inboundBuffer = some r₁ ∧ c.outboundBuffer = some r₂ ∧ c.key = (p.conns o).key
  managers : p'.managers = p.managers
  connPool : p'.connPool = p.connPool
  nextConn : p'.nextConn = p.nextConn

theorem setMsgHeaderWrite_same (done : c.setMsgHeaderWrite s = some c') :
    (∀ side, c'.buffer side = c.buffer side) ∧ c'.key = c.key := by
  obtain ⟨r, _, rest⟩ := bind_eq_some_iff.mp done
  obtain ⟨base, _, rest⟩ := bind_eq_some_iff.mp rest
  obtain ⟨header, _, last⟩ := bind_eq_some_iff.mp rest
  cases last
  exact ⟨fun side => by cases side <;> rfl, rfl⟩

/-- A choice and what follows it. -/
theorem bind_ite_eq_some_iff {α β : Type} {a b : Option α} {k : α → Option β} {y : β} :
    (if write then a.bind k else b.bind k) = some y ↔
      ∃ x, (if write then a else b) = some x ∧ k x = some y := by
  rw [← bind_eq_some_iff]
  cases write <;> rfl

theorem headed_same
    (done : (if write then c.setMsgHeaderWrite s else some c) = some c') :
    (∀ side, c'.buffer side = c.buffer side) ∧ c'.key = c.key := by
  split_ifs at done
  · exact setMsgHeaderWrite_same done
  · cases done
    exact ⟨fun _ => rfl, rfl⟩

theorem initMsgHeader_same (done : c.initMsgHeader s = some c') :
    (∀ side, c'.buffer side = c.buffer side) ∧ c'.key = c.key := by
  obtain ⟨r, _, rest⟩ := bind_eq_some_iff.mp done
  obtain ⟨base, _, last⟩ := bind_eq_some_iff.mp rest
  cases last
  exact ⟨fun side => by cases side <;> rfl, rfl⟩

/-- The steps of `connection.fork`. -/
theorem forkConn_parted (done : p.forkConn pageSize pos o f key write = some p') :
    Parted pageSize pos p o f key p' := by
  obtain ⟨sender, _, rest⟩ := bind_eq_some_iff.mp done
  obtain ⟨forked, headed, rest⟩ := bind_ite_eq_some_iff.mp rest
  obtain ⟨taken, mine⟩ := headed_same headed
  have sides : ∀ side, forked.buffer side = (p.conns o).buffer side := by
    intro side
    rw [taken side]
    cases side <;> rfl
  obtain ⟨r₁, s₁, r₂, s₂, one, two, first, second⟩ := @RingStore.get_twice pageSize pos p.rings
  simp only [getBuffers, one, two] at rest
  obtain ⟨c, initialised, last⟩ := bind_eq_some_iff.mp rest
  obtain ⟨equipped, kept⟩ := initMsgHeader_same initialised
  cases last
  exact ⟨⟨r₁, r₂, s₁, c, forked, first, second, rfl, sides, mine, equipped .inbound,
    equipped .outbound, kept⟩, rfl, rfl, rfl⟩

/-- What `putConnection` does: the ring buffers are given back, and all but three fields are
reset. -/
structure Returned (p : Process) (o : Nat) (p' : Process) : Prop where
  rings : ∃ r₁ r₂ s₁, (p.conns o).buffer .inbound = some r₁ ∧
    (p.conns o).buffer .outbound = some r₂ ∧ p.rings.Gave r₁ s₁ ∧ s₁.Gave r₂ p'.rings
  conns : p'.conns = update p.conns o
    { localAddr := (p.conns o).localAddr, remoteAddr := (p.conns o).remoteAddr
      nextAsyncOp := (p.conns o).nextAsyncOp }
  connPool : p'.connPool = p.connPool.put o
  nextConn : p'.nextConn = p.nextConn
  managers : p'.managers = p.managers

theorem putConnection_returned (done : p.putConnection o = some p') : Returned p o p' := by
  obtain ⟨s₁, first, rest⟩ := bind_eq_some_iff.mp done
  obtain ⟨s₂, second, last⟩ := bind_eq_some_iff.mp rest
  obtain ⟨r₁, inbound, gave₁⟩ := RingStore.put_gave first
  obtain ⟨r₂, outbound, gave₂⟩ := RingStore.put_gave second
  cases last
  exact ⟨⟨r₁, r₂, s₁, inbound, outbound, gave₁, gave₂⟩, rfl, rfl, rfl, rfl⟩

/-- The manager without the entry. -/
def unregister (p : Process) (m : Nat) (key : Int) : Process :=
  p.setManager m { p.managers m with
    connections := (p.managers m).connections.erase key
    connectionsCount := addInt32 (p.managers m).connectionsCount (-1) }

/-- The steps of `connectionManager.release`. -/
theorem release_steps (done : p.release m key = some p') :
    entries p.managers (m, key) = none ∧ p' = p ∨
      ∃ o p₁, entries p.managers (m, key) = some o ∧ Returned (p.unregister m key) o p₁ ∧
        p' = p₁.setManager m { p₁.managers m with
          releaseFdSet := (p₁.managers m).releaseFdSet.erase key
          keyPool := (p₁.managers m).keyPool.put (toUint64 (p₁.conns o).key) } := by
  unfold release at done
  cases found : (p.managers m).connections.lookup key with
  | none =>
    rw [found] at done
    cases done
    exact Or.inl ⟨found, rfl⟩
  | some o =>
    rw [found] at done
    obtain ⟨p₁, puts, last⟩ := bind_eq_some_iff.mp done
    cases last
    exact Or.inr ⟨o, p₁, found, putConnection_returned puts, rfl⟩

/-- The manager with another pool of keys. -/
def setKeyPool (p : Process) (m : Nat) (keyPool : KeyPool) : Process :=
  p.setManager m { p.managers m with keyPool := keyPool }

/-- The connection a fork is made of, and the process that has taken it. -/
def forkee (pageSize : Nat) (pos : 0 < pageSize) (p : Process) (m : Nat) : Nat × Process :=
  (p.setKeyPool m (p.managers m).keyPool.get.2).getConnection pageSize pos

/-- The steps of `connectionManager.fork`. -/
theorem fork_steps (done : p.fork pageSize pos m o write = some (f, p')) :
    ∃ key keyPool p₁ p₂, (p.managers m).keyPool.get = (key, keyPool) ∧
      p.forkee pageSize pos m = (f, p₁) ∧ Obtained pageSize pos (p.setKeyPool m keyPool) f p₁ ∧
      Parted pageSize pos p₁ o f (toInt64 key) p₂ ∧ p' = p₂.register m (toInt64 key) f := by
  unfold forkee
  rcases keyed : (p.managers m).keyPool.get with ⟨key, keyPool⟩
  have obtained : Obtained pageSize pos (p.setKeyPool m keyPool) _ _ := getConnection_obtained _
  rcases taken : (p.setKeyPool m keyPool).getConnection pageSize pos with ⟨f', p₁⟩
  rw [taken] at obtained
  simp only [setKeyPool] at taken
  simp only [fork, keyed, taken] at done
  obtain ⟨p₂, forks, last⟩ := bind_eq_some_iff.mp done
  cases last
  exact ⟨key, keyPool, p₁, p₂, rfl, rfl, obtained, forkConn_parted forks, rfl⟩

/-- The ways a step can go. -/
inductive Stepped (pageSize : Nat) (pos : 0 < pageSize) (p : Process) : Label → Process → Prop
  | found {m o : Nat} {key fd : Int} (found : entries p.managers (m, key) = some o) :
      Stepped pageSize pos p (.get m key fd) p
  | entered {m o : Nat} {key fd : Int} {c : ConnObject} {p₁ : Process}
      (absent : entries p.managers (m, key) = none) (obtained : Obtained pageSize pos p o p₁)
      (sides : ∀ side, c.buffer side = (p₁.conns o).buffer side) (mine : c.key = key) :
      Stepped pageSize pos p (.get m key fd) ((p₁.setConn o c).register m key o)
  | forked {m o f new : Nat} {key : Int} {write : Bool} {keyPool : KeyPool} {p₁ p₂ : Process}
      (found : entries p.managers (m, key) = some o)
      (got : (p.managers m).keyPool.get = (new, keyPool))
      (taken : p.forkee pageSize pos m = (f, p₁))
      (obtained : Obtained pageSize pos (p.setKeyPool m keyPool) f p₁)
      (parted : Parted pageSize pos p₁ o f (toInt64 new) p₂) :
      Stepped pageSize pos p (.fork m key write) (p₂.register m (toInt64 new) f)
  | absent {m : Nat} {key : Int} (absent : entries p.managers (m, key) = none) :
      Stepped pageSize pos p (.release m key) p
  | released {m o : Nat} {key : Int} {p₁ : Process} (found : entries p.managers (m, key) = some o)
      (back : Returned (p.unregister m key) o p₁) :
      Stepped pageSize pos p (.release m key) (p₁.setManager m { p₁.managers m with
        releaseFdSet := (p₁.managers m).releaseFdSet.erase key
        keyPool := (p₁.managers m).keyPool.put (toUint64 (p₁.conns o).key) })
  | used {m o r : Nat} {key : Int} {side : Side} {deed : RingBuffer.Deed} {rings : RingStore}
      (here : buffers p.conns (o, side) = some r)
      (used : p.rings.use pageSize pos r deed = some rings) :
      Stepped pageSize pos p (.use m key side deed) { p with rings := rings }
  | assigned {m o : Nat} {key : Int} {c c' : ConnObject}
      (found : entries p.managers (m, key) = some o)
      (sides : ∀ side, c'.buffer side = (p.conns o).buffer side) (own : c'.key = (p.conns o).key) :
      Stepped pageSize pos p (.assign m key c) (p.setConn o c')

/-- Every step is one of these. -/
theorem step_stepped {label : Label} (done : p.step pageSize pos label = some p') :
    Stepped pageSize pos p label p' := by
  cases label with
  | get m key fd =>
    cases done
    unfold Process.get
    cases found : (p.managers m).connections.lookup key with
    | some o => exact .found found
    | none =>
      exact .entered found (getConnection_obtained p) (fun side => by cases side <;> rfl) rfl
  | fork m key write =>
    obtain ⟨o, found, rest⟩ := bind_eq_some_iff.mp done
    obtain ⟨⟨f, p₁⟩, forks, last⟩ := bind_eq_some_iff.mp rest
    cases last
    obtain ⟨new, keyPool, p₁, p₂, got, taken, obtained, parted, rfl⟩ := fork_steps forks
    exact .forked found got taken obtained parted
  | release m key =>
    rcases release_steps done with ⟨absent, rfl⟩ | ⟨o, p₁, found, back, rfl⟩
    · exact .absent absent
    · exact .released found back
  | use m key side deed =>
    obtain ⟨o, found, rest⟩ := bind_eq_some_iff.mp done
    obtain ⟨r, here, rest⟩ := bind_eq_some_iff.mp rest
    obtain ⟨rings, used, last⟩ := bind_eq_some_iff.mp rest
    cases last
    exact .used here used
  | assign m key c =>
    obtain ⟨o, found, last⟩ := bind_eq_some_iff.mp done
    cases last
    exact .assigned found (fun side => by cases side <;> rfl) rfl

/-- The new entry of a table. -/
theorem entries_register (p : Process) (m : Nat) (key : Int) (o : Nat) :
    entries (p.register m key o).managers = update (entries p.managers) (m, key) (some o) := by
  funext ⟨m', key'⟩
  by_cases same : m' = m
  · subst same
    by_cases equal : key' = key
    · subst equal
      simp [entries, register, setManager]
    · have other : (m', key') ≠ (m', key) := fun eq => equal (congrArg Prod.snd eq)
      simp [entries, register, setManager, other, AList.lookup_insert_ne equal]
  · have other : (m', key') ≠ (m, key) := fun eq => same (congrArg Prod.fst eq)
    rw [update_of_ne other]
    simp [entries, register, setManager, update_of_ne same]

theorem entries_unregister (p : Process) (m : Nat) (key : Int) :
    entries (p.unregister m key).managers = update (entries p.managers) (m, key) none := by
  funext ⟨m', key'⟩
  by_cases same : m' = m
  · subst same
    by_cases equal : key' = key
    · subst equal
      simp [entries, unregister, setManager]
    · have other : (m', key') ≠ (m', key) := fun eq => equal (congrArg Prod.snd eq)
      simp [entries, unregister, setManager, other, AList.lookup_erase_ne equal]
  · have other : (m', key') ≠ (m, key) := fun eq => same (congrArg Prod.fst eq)
    rw [update_of_ne other]
    simp [entries, unregister, setManager, update_of_ne same]

/-- A manager changes and keeps its table. -/
theorem entries_setManager (same : manager.connections = (p.managers m).connections) :
    entries (p.setManager m manager).managers = entries p.managers := by
  funext ⟨m', key⟩
  by_cases self : m' = m
  · subst self
    simp only [entries, setManager, update_self, same]
  · simp only [entries, setManager, update_of_ne self]

theorem entries_setKeyPool (p : Process) (m : Nat) (keyPool : KeyPool) :
    entries (p.setKeyPool m keyPool).managers = entries p.managers :=
  entries_setManager rfl

/-- A connection changes and keeps its ring buffers. -/
theorem buffers_setConn (same : ∀ side, c.buffer side = (p.conns o).buffer side) :
    buffers (p.setConn o c).conns = buffers p.conns := by
  funext ⟨o', side⟩
  by_cases self : o' = o
  · subst self
    simp only [buffers, setConn, update_self, same]
  · simp only [buffers, setConn, update_of_ne self]

namespace Apart

/-- A connection that was taken and is entered under a key, with its two ring buffers. -/
theorem enter (apart : p.Apart) (obtained : Obtained pageSize pos p o p') {p₁ : Process}
    (managers : entries p₁.managers = update (entries p'.managers) (m, key) (some o))
    (pool : p₁.connPool = p'.connPool) (next : p₁.nextConn = p'.nextConn) :
    Holding (entries p₁.managers) p₁.connPool.items p₁.nextConn := by
  rw [managers, obtained.managers, pool, next]
  refine Holding.exchange (x := (m, key)) apart.conns ?_ ?_
  · intro y ne
    exact update_of_ne ne ..
  · rw [update_self]
    exact (Supplied.of_le (Multiset.le_add_left _ _)).trans obtained.supplied

theorem obtained_rings (apart : p.Apart) (obtained : Obtained pageSize pos p o p') :
    Holding (buffers p'.conns) p'.rings.pool.items p'.rings.nextRing ∧ p'.rings.Separate := by
  obtain ⟨r₁, r₂, s₁, base, first, second, conns, _⟩ := obtained.rings
  refine ⟨equip o apart.rings first second ?_ ?_ ?_, second.separate (first.separate apart.regions)⟩
  · rw [conns, buffers, update_self]
    rfl
  · rw [conns, buffers, update_self]
    rfl
  · intro x other
    rw [conns, buffers, update_of_ne other, buffers]

/-- Two connections are different if one of them is in a table and the other was just taken. -/
theorem ne_of_supplied (apart : p.Apart) (found : entries p.managers (m, key) = some o)
    {free : Multiset Nat} {next : Nat}
    (supplied : Supplied p.connPool.items p.nextConn (([f] : Multiset Nat) + free) next) :
    o ≠ f := by
  rintro rfl
  obtain ⟨_, fresh, _, range, sub⟩ := supplied
  have member : o ∈ ([o] : Multiset Nat) + free :=
    Multiset.mem_add.mpr (Or.inl (List.mem_singleton_self o))
  rcases Multiset.mem_add.mp (Multiset.mem_of_le sub member) with pooled | new
  · exact apart.conns.taken found pooled
  · exact absurd (apart.conns.bound found) (not_lt.mpr (range o new).1)

/-- The ring buffers of a connection go to another one, and it is given two others. -/
theorem parted_rings (holding : Holding (buffers p.conns) p.rings.pool.items p.rings.nextRing)
    (separate : p.rings.Separate) (other : o ≠ f) (parted : Parted pageSize pos p o f key p') :
    Holding (buffers p'.conns) p'.rings.pool.items p'.rings.nextRing ∧ p'.rings.Separate := by
  obtain ⟨r₁, r₂, s₁, c, forked, first, second, conns, sides, _, inbound, outbound, _⟩ :=
    parted.rings
  refine ⟨?_, second.separate (first.separate separate)⟩
  -- the two connections change places before the forked one's old buffers are dropped
  have swapped : Holding (fun x : Nat × Side => buffers p.conns (Equiv.swap o f x.1, x.2))
      p.rings.pool.items p.rings.nextRing := by
    refine holding.comp fun x y same => ?_
    obtain ⟨firsts, seconds⟩ := Prod.mk.inj same
    exact Prod.ext ((Equiv.swap o f).injective firsts) seconds
  refine equip o swapped first second ?_ ?_ ?_
  · simp only [buffers, conns, update_self]
    exact inbound
  · simp only [buffers, conns, update_self]
    exact outbound
  · rintro ⟨o', side⟩ away
    replace away : o' ≠ o := away
    by_cases new : o' = f
    · subst new
      simp only [buffers, conns, update_of_ne away, update_self, Equiv.swap_apply_right]
      exact sides side
    · simp only [buffers, conns, update_of_ne away, update_of_ne new,
        Equiv.swap_apply_of_ne_of_ne away new]

theorem setManager (apart : p.Apart) (same : manager.connections = (p.managers m).connections) :
    (p.setManager m manager).Apart where
  __ := apart
  conns := by
    rw [entries_setManager same]
    exact apart.conns

/-- A ring buffer leaves a connection, for the pool or for good. -/
theorem gave_rings {x : Nat × Side} (holding : Holding holds s.pool.items s.nextRing)
    (gave : s.Gave r s₁) (here : holds x = some r) (gone : holds' x = none)
    (others : ∀ y ≠ x, holds' y = holds y) : Holding holds' s₁.pool.items s₁.nextRing := by
  refine Holding.exchange (x := x) holding others ?_
  rw [here, gone]
  cases gave with
  | kept _ => exact Supplied.refl
  | dropped _ => exact Supplied.of_le (Multiset.le_add_left _ _)

/-- A connection and its ring buffers go back. -/
theorem returned (apart : p.Apart) (found : entries p.managers (m, key) = some o)
    (back : Returned (p.unregister m key) o p') : p'.Apart := by
  obtain ⟨r₁, r₂, s₁, inbound, outbound, first, second⟩ := back.rings
  have middle : Holding (update (buffers p.conns) (o, .inbound) none) s₁.pool.items
      s₁.nextRing := by
    have here : buffers p.conns (o, .inbound) = some r₁ := inbound
    refine gave_rings apart.rings first here (update_self ..) fun y ne => ?_
    exact update_of_ne ne ..
  refine ⟨?_, ?_, second.separate (first.separate apart.regions)⟩
  · rw [back.managers, entries_unregister, back.connPool, back.nextConn]
    refine Holding.exchange (x := (m, key)) apart.conns ?_ ?_
    · intro y ne
      exact update_of_ne ne ..
    · rw [found, update_self]
      exact Supplied.refl
  · refine gave_rings (x := (o, .outbound)) middle second ?_ ?_ ?_
    · have other : (o, Side.outbound) ≠ (o, Side.inbound) := by simp
      rw [update_of_ne other]
      exact outbound
    · simp only [buffers, back.conns, update_self]
      rfl
    · rintro ⟨o', side⟩ ne
      by_cases self : o' = o
      · subst self
        cases side with
        | inbound =>
          simp only [buffers, back.conns, update_self]
          rfl
        | outbound => exact absurd rfl ne
      · have other : (o', side) ≠ (o, Side.inbound) := fun same => self (congrArg Prod.fst same)
        rw [update_of_ne other]
        simp only [buffers, back.conns, update_of_ne self]
        rfl

/-- Every step keeps everything apart. -/
theorem step {label : Label} (apart : p.Apart) (done : p.step pageSize pos label = some p') :
    p'.Apart := by
  cases step_stepped done with
  | found | absent => exact apart
  | @entered m o key fd c p₁ absent obtained sides mine =>
    obtain ⟨rings, regions⟩ := apart.obtained_rings obtained
    refine ⟨apart.enter obtained (entries_register _ m key o) rfl rfl, ?_, regions⟩
    change Holding (buffers (p₁.setConn o c).conns) _ _
    rw [buffers_setConn sides]
    exact rings
  | @forked m o f new key write keyPool p₁ p₂ found got taken obtained parted =>
    have before : (p.setKeyPool m keyPool).Apart := apart.setManager rfl
    have other : o ≠ f := apart.ne_of_supplied found obtained.supplied
    obtain ⟨rings, regions⟩ := before.obtained_rings obtained
    obtain ⟨rings, regions⟩ := parted_rings rings regions other parted
    have table : entries (p₂.register m (toInt64 new) f).managers =
        update (entries p₁.managers) (m, toInt64 new) (some f) := by
      rw [entries_register, parted.managers]
    exact ⟨before.enter obtained table parted.connPool parted.nextConn, rings, regions⟩
  | released found back => exact (apart.returned found back).setManager rfl
  | used here used =>
    have regions := RingStore.use_separate used apart.regions
    obtain ⟨⟨rb, mem⟩, _, last⟩ := bind_eq_some_iff.mp used
    cases last
    exact ⟨apart.conns, apart.rings, regions⟩
  | assigned found sides own =>
    refine ⟨apart.conns, ?_, apart.regions⟩
    rw [buffers_setConn sides]
    exact apart.rings

end Apart

/-- The ring buffer of a live connection on one side. -/
def LiveRing (p : Process) (m : Nat) (key : Int) (side : Side) (r : Nat) : Prop :=
  ∃ o, (p.managers m).connections.lookup key = some o ∧ (p.conns o).buffer side = some r

/-- The ring buffer belongs to a live connection, or is in the pool. -/
def UsedRing (p : Process) (r : Nat) : Prop :=
  (∃ m key side, p.LiveRing m key side r) ∨ r ∈ p.rings.pool.items

/-- Whatever the managers do in whatever order, the ring buffers of live connections are different
ones and not in the pool, and the regions behind live and pooled ring buffers are different ones and
not free. -/
theorem run_apart {conns rings : Nat → Option Nat} {mems : Nat → Nat → Option Nat}
    {calibration : Nat → Option (Fin 15 × Fin 15)} {ls : List Label}
    (ran : run (step pageSize pos) ls (start pageSize conns rings mems calibration) = some p) :
    (∀ m key side m' key' side' r, p.LiveRing m key side r → p.LiveRing m' key' side' r →
      m = m' ∧ key = key' ∧ side = side') ∧
    (∀ m key side r, p.LiveRing m key side r → r ∉ p.rings.pool.items) ∧
    p.rings.pool.items.Nodup ∧
    (∀ r r' a, p.UsedRing r → p.UsedRing r' → p.rings.region r = some a →
      p.rings.region r' = some a → r = r') ∧
    ∀ r a, p.UsedRing r → p.rings.region r = some a → a ∉ p.rings.mem.pool.regions := by
  have apart : p.Apart := run_preserves Apart (fun p label p' done apart => apart.step done) ran
    (start_apart conns rings mems calibration)
  refine ⟨?_, ?_, ?_, ?_, ?_⟩
  · rintro m key side m' key' side' r ⟨o, found, here⟩ ⟨o', found', here'⟩
    obtain ⟨rfl, rfl⟩ :=
      Prod.mk.inj (apart.rings.apart (x := (o, side)) (y := (o', side')) here here')
    obtain ⟨rfl, rfl⟩ :=
      Prod.mk.inj (apart.conns.apart (x := (m, key)) (y := (m', key')) found found')
    exact ⟨rfl, rfl, rfl⟩
  · rintro m key side r ⟨o, _, here⟩
    exact apart.rings.taken (x := (o, side)) here
  · exact apart.rings.distinct.1
  · exact fun r r' a _ _ first second => apart.regions.apart first second
  · exact fun r a _ here => apart.regions.taken here

/-- Pools that hand out what was put back last. -/
def recycling : Process :=
  start 4096 (fun _ => some 0) (fun _ => some 0) (fun _ _ => some 0) fun _ => none

/-- A datagram server forks its main connection, and the connection of another worker grows a
buffer. The fork is released, and its connection and its buffers go to the other worker. -/
def exchanged : List Label :=
  [.get 0 1 9, .assign 0 1 { fd := 9, msgHdr := some ⟨⟨0, 0⟩, 4096⟩, rawSockaddr := some (some 7) },
    .fork 0 1 true, .get 1 5 5, .use 1 5 .outbound (.op (.grow 8192)), .release 0 2, .get 1 6 6]

theorem run_apart_exchanged : ∃ p, run (step 4096 (by decide)) exchanged recycling = some p ∧
    p.LiveRing 1 6 .inbound 1 ∧ 1 ∉ p.rings.pool.items := by
  obtain ⟨p, ran, found, here⟩ : ∃ p, run (step 4096 (by decide)) exchanged recycling = some p ∧
      (p.managers 1).connections.lookup 6 = some 1 ∧ (p.conns 1).buffer .inbound = some 1 := by
    exact exists_run_from (by decide +kernel)
  have live : p.LiveRing 1 6 .inbound 1 := ⟨1, found, here⟩
  exact ⟨p, ran, live, (run_apart ran).2.1 1 6 .inbound 1 live⟩

end Process

end Gain
