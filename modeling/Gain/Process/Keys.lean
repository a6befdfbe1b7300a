import Gain.Foundation.Table
import Gain.Process.Separation

/-! # The keys of a manager

A connection is in the table under its own key. `release` pushes the key of the
connection after `putConnection` has reset it, so that the stack of free keys only
ever holds zeros, which mean that there is none: `fork` takes a key from the counter
every time, and it is a new one until the counter leaves the range of an `int`. The
entries are counted until there are more than an `int32` can count.
-/

namespace Gain

open Function List Option VirtualMem

/-- The keys of the connections that were forked. -/
def Manager.forkedKeys (manager : Manager) : List Int :=
  manager.connections.keys.filter (2 ≤ ·)

namespace Process

variable {pageSize : Nat} {pos : 0 < pageSize} {p p' : Process} {o m : Nat} {key : Int} {f : Nat}
  {write : Bool} {label : Label} {manager manager' : Manager}

/-- Every connection is in the table under its own key. -/
structure Keyed (p : Process) : Prop where
  apart : p.Apart
  own : ∀ {x : Nat × Int} {o : Nat}, entries p.managers x = some o → (p.conns o).key = x.2

namespace Keyed

/-- A connection that was taken is entered under its key, and the keys of the others are kept. -/
theorem own_of_entered (keyed : p.Keyed) (m : Nat) (key : Int) {p₁ : Process}
    {free : Multiset Nat} {next : Nat}
    (supplied : Supplied p.connPool.items p.nextConn (([o] : Multiset Nat) + free) next)
    (table : entries p₁.managers = update (entries p.managers) (m, key) (some o))
    (mine : (p₁.conns o).key = key) (others : ∀ o' ≠ o, (p₁.conns o').key = (p.conns o').key) :
    ∀ {x : Nat × Int} {o' : Nat}, entries p₁.managers x = some o' → (p₁.conns o').key = x.2 := by
  intro x o' found
  rw [table] at found
  by_cases here : x = (m, key)
  · subst here
    rw [update_self] at found
    cases found
    exact mine
  · rw [update_of_ne here] at found
    have other : o' ≠ o := keyed.apart.ne_of_supplied found supplied
    rw [others o' other]
    exact keyed.own found

/-- Every step keeps connections under their keys. -/
theorem step (keyed : p.Keyed) (done : p.step pageSize pos label = some p') : p'.Keyed := by
  have apart := keyed.apart.step done
  cases step_stepped done with
  | found | absent => exact keyed
  | used => exact ⟨apart, keyed.own⟩
  | @entered m o key fd c p₁ absent obtained sides mine =>
    obtain ⟨_, _, _, _, _, _, conns, _⟩ := obtained.rings
    refine ⟨apart, keyed.own_of_entered m key obtained.supplied ?_ ?_ ?_⟩
    · rw [entries_register]
      exact congrArg (fun managers => update (entries managers) _ _) obtained.managers
    · exact (congrArg ConnObject.key (update_self ..)).trans mine
    · intro o' other
      change (update p₁.conns o _ o').key = _
      rw [update_of_ne other, conns, update_of_ne other]
  | @forked m o f new key write keyPool p₁ p₂ found got taken obtained parted =>
    have other : o ≠ f := keyed.apart.ne_of_supplied found obtained.supplied
    obtain ⟨_, _, _, _, _, _, conns, _⟩ := obtained.rings
    obtain ⟨_, _, _, c, forked, _, _, parts, _, mine, _, _, main⟩ := parted.rings
    refine ⟨apart, keyed.own_of_entered m (toInt64 new) obtained.supplied ?_ ?_ ?_⟩
    · rw [entries_register, parted.managers, obtained.managers, entries_setKeyPool]
    · change (p₂.conns f).key = _
      rw [parts, update_of_ne other.symm, update_self]
      exact mine
    · intro o' away
      change (p₂.conns o').key = (p.conns o').key
      rw [parts]
      by_cases self : o' = o
      · subst self
        rw [update_self, main, conns, update_of_ne away]
        rfl
      · rw [update_of_ne self, update_of_ne away, conns, update_of_ne away]
        rfl
  | @released m o key p₁ found back =>
    refine ⟨apart, fun {x o'} entry => ?_⟩
    replace entry : update (entries p.managers) (m, key) none x = some o' := by
      rw [← entries_unregister, ← back.managers, ← entry, entries_setManager]
      rfl
    by_cases here : x = (m, key)
    · subst here
      rw [update_self] at entry
      cases entry
    · rw [update_of_ne here] at entry
      have other : o' ≠ o := by
        rintro rfl
        exact here (keyed.apart.conns.apart entry found)
      change (p₁.conns o').key = _
      rw [back.conns, update_of_ne other]
      exact keyed.own entry
  | @assigned m o key c c' found sides own =>
    refine ⟨apart, fun {x o'} entry => ?_⟩
    have same : (update p.conns o c' o').key = (p.conns o').key := by
      by_cases self : o' = o
      · subst self
        rw [update_self, own]
      · rw [update_of_ne self]
    exact same.trans (keyed.own entry)

end Keyed

/-- What a step does to a manager. -/
inductive Changed (m : Nat) (manager : Manager) : Label → Manager → Prop
  | kept (label : Label) : Changed m manager label manager
  | entered {key fd : Int} {o : Nat} (absent : manager.connections.lookup key = none) :
      Changed m manager (.get m key fd) { manager with
        connections := manager.connections.insert key o
        connectionsCount := addInt32 manager.connectionsCount 1 }
  | forked {key : Int} {write : Bool} {new f : Nat} {keyPool : KeyPool}
      (got : manager.keyPool.get = (new, keyPool)) :
      Changed m manager (.fork m key write) { manager with
        connections := manager.connections.insert (toInt64 new) f
        connectionsCount := addInt32 manager.connectionsCount 1
        keyPool := keyPool }
  | released {key : Int} {o : Nat} (found : manager.connections.lookup key = some o) :
      Changed m manager (.release m key) { manager with
        connections := manager.connections.erase key
        connectionsCount := addInt32 manager.connectionsCount (-1)
        releaseFdSet := manager.releaseFdSet.erase key
        keyPool := manager.keyPool.put 0 }

/-- What `get` does to the managers when there is no entry under the key. -/
theorem Obtained.managers_eq (obtained : Obtained pageSize pos p o p') {c : ConnObject} :
    ((p'.setConn o c).register m key o).managers = update p.managers m { p.managers m with
      connections := (p.managers m).connections.insert key o
      connectionsCount := addInt32 (p.managers m).connectionsCount 1 } := by
  simp only [register, setManager, setConn, obtained.managers]

/-- What `fork` does to the managers. -/
theorem Parted.managers_eq {new : Int} {keyPool : KeyPool} {p₁ p₂ : Process}
    (obtained : Obtained pageSize pos (p.setKeyPool m keyPool) f p₁)
    (parted : Parted pageSize pos p₁ o f new p₂) :
    (p₂.register m new f).managers = update p.managers m { p.managers m with
      connections := (p.managers m).connections.insert new f
      connectionsCount := addInt32 (p.managers m).connectionsCount 1
      keyPool := keyPool } := by
  simp only [register, setManager, parted.managers, obtained.managers, setKeyPool, update_self,
    update_idem]

/-- What `release` does to the managers. The key of the connection was reset before it is
pushed. -/
theorem Returned.managers_eq (back : Returned (p.unregister m key) o p') :
    (p'.setManager m { p'.managers m with
      releaseFdSet := (p'.managers m).releaseFdSet.erase key
      keyPool := (p'.managers m).keyPool.put (toUint64 (p'.conns o).key) }).managers =
    update p.managers m { p.managers m with
      connections := (p.managers m).connections.erase key
      connectionsCount := addInt32 (p.managers m).connectionsCount (-1)
      releaseFdSet := (p.managers m).releaseFdSet.erase key
      keyPool := (p.managers m).keyPool.put 0 } := by
  have reset : (p'.conns o).key = 0 := by
    rw [back.conns, update_self]
  simp only [setManager, back.managers, unregister, reset, update_self, update_idem]
  rfl

/-- What one step does to one manager. -/
theorem step_changed (done : p.step pageSize pos label = some p') (m : Nat) :
    Changed m (p.managers m) label (p'.managers m) := by
  have changed : ∀ {m' manager}, Changed m' (p.managers m') label manager →
      Changed m (p.managers m) label (update p.managers m' manager m) := by
    intro m' manager change
    by_cases self : m = m'
    · subst self
      rw [update_self]
      exact change
    · rw [update_of_ne self]
      exact .kept _
  cases step_stepped done with
  | found | absent | used | assigned => exact .kept _
  | entered absent obtained =>
    rw [obtained.managers_eq]
    exact changed (.entered absent)
  | forked found got taken obtained parted =>
    rw [parted.managers_eq obtained]
    exact changed (.forked got)
  | released found back =>
    rw [back.managers_eq]
    exact changed (.released found)

/-- The keys are taken from the counter. -/
structure Drawn (manager : Manager) : Prop where
  zeros : ∀ k ∈ manager.keyPool.stack, k = 0
  fits : manager.keyPool.nextKey < 2 ^ 64

theorem Drawn.changed (drawn : Drawn manager) (change : Changed m manager label manager') :
    Drawn manager' := by
  cases change with
  | kept | entered => exact ⟨drawn.zeros, drawn.fits⟩
  | @forked key write new f keyPool got =>
    obtain ⟨_, next, zeros⟩ := KeyPool.get_of_zeros drawn.zeros
    rw [got] at next zeros
    exact ⟨zeros, next ▸ Nat.mod_lt _ (by decide)⟩
  | released found =>
    refine ⟨fun k member => ?_, drawn.fits⟩
    rcases mem_cons.mp member with rfl | old
    · rfl
    · exact drawn.zeros k old

/-- The entries are counted, and their keys have been given out. -/
structure Numbered (manager : Manager) : Prop extends Drawn manager where
  count : manager.connectionsCount = manager.connections.keys.length
  few : manager.connections.keys.length < 2 ^ 31
  range : ∀ key ∈ manager.connections, 1 ≤ key ∧ key < manager.keyPool.nextKey
  first : 2 ≤ manager.keyPool.nextKey

/-- The manager is asked for the main connection, or for one whose key it has given out. -/
def Decoded (m : Nat) (p : Process) : Label → Prop
  | .get m' key _ => m' = m → 1 ≤ key ∧ key < (p.managers m).keyPool.nextKey
  | _ => True

instance (m : Nat) (p : Process) : (label : Label) → Decidable (p.Decoded m label)
  | .get m' key _ =>
    inferInstanceAs (Decidable (m' = m → 1 ≤ key ∧ key < (p.managers m).keyPool.nextKey))
  | .fork .. | .release .. | .use .. | .assign .. => isTrue trivial

/-- The counter of the keys is not above the largest `int`, and an `int32` can count one entry
more. -/
def Within (m : Nat) (p : Process) : Label → Prop
  | .get m' key _ => m' = m → (p.managers m).connections.lookup key = none →
      (p.managers m).connections.keys.length + 1 < 2 ^ 31
  | .fork m' _ _ => m' = m → (p.managers m).keyPool.nextKey < 2 ^ 63 ∧
      (p.managers m).connections.keys.length + 1 < 2 ^ 31
  | _ => True

instance (m : Nat) (p : Process) : (label : Label) → Decidable (p.Within m label)
  | .get .. => inferInstanceAs (Decidable (_ = _ → _ = _ → _ < _))
  | .fork .. => inferInstanceAs (Decidable (_ = _ → _ < _ ∧ _ < _))
  | .release .. | .use .. | .assign .. => isTrue trivial

namespace Numbered

variable {manager manager' : Manager} {label : Label}

/-- A new key has no entry. -/
theorem fresh (numbered : Numbered manager) (within : manager.keyPool.nextKey < 2 ^ 63) {new : Nat}
    {keyPool : KeyPool} (got : manager.keyPool.get = (new, keyPool)) :
    2 ≤ toInt64 new ∧ toInt64 new ∉ manager.connections := by
  have given := KeyPool.get_of_zeros numbered.zeros
  have first := numbered.first
  rw [got] at given
  obtain ⟨rfl, _⟩ := given
  rw [toInt64_of_lt within]
  refine ⟨by omega, fun present => ?_⟩
  have := (numbered.range _ present).2
  omega

/-- One entry more is counted. -/
theorem count_insert (numbered : Numbered manager) {o : Nat} (absent : key ∉ manager.connections)
    (few : manager.connections.keys.length + 1 < 2 ^ 31) :
    addInt32 manager.connectionsCount 1 = (manager.connections.insert key o).keys.length ∧
      (manager.connections.insert key o).keys.length < 2 ^ 31 := by
  rw [Table.length_insert absent, numbered.count, addInt32_of_range (by omega) (by omega)]
  exact ⟨rfl, few⟩

/-- The entries stay counted and below the counter. -/
theorem changed (numbered : Numbered manager) (decoded : p.Decoded m label)
    (within : p.Within m label) (same : p.managers m = manager)
    (change : Changed m manager label manager') : Numbered manager' := by
  have drawn := numbered.toDrawn.changed change
  subst same
  cases change with
  | kept => exact numbered
  | @entered key fd o absent =>
    obtain ⟨count, few⟩ := numbered.count_insert (o := o) (AList.lookup_eq_none.mp absent)
      (within rfl absent)
    refine ⟨drawn, count, few, fun key' present => ?_, numbered.first⟩
    rcases (AList.mem_insert _).mp present with rfl | old
    · exact decoded rfl
    · exact numbered.range key' old
  | @forked key write new f keyPool got =>
    obtain ⟨low, few⟩ := within rfl
    obtain ⟨least, missing⟩ := numbered.fresh low got
    have given := KeyPool.get_of_zeros numbered.zeros
    rw [got, Nat.mod_eq_of_lt (by omega)] at given
    obtain ⟨rfl, next, _⟩ := given
    obtain ⟨count, few⟩ := numbered.count_insert (o := f) missing few
    refine ⟨drawn, count, few, fun key' present => ?_, next ▸ Nat.le_succ_of_le numbered.first⟩
    rw [next]
    rcases (AList.mem_insert _).mp present with rfl | old
    · rw [toInt64_of_lt low] at least ⊢
      omega
    · have := numbered.range key' old
      omega
  | @released key o found =>
    have fewer := Table.length_erase (Table.mem_of_lookup found)
    have count := numbered.count
    have few := numbered.few
    refine ⟨drawn, ?_, lt_of_le_of_lt (Nat.le.intro fewer) few, fun key' there => ?_,
      numbered.first⟩
    · change addInt32 _ (-1) = (((p.managers m).connections.erase key).keys.length : Int)
      rw [addInt32_of_range (by omega) (by omega)]
      omega
    · exact numbered.range key' (AList.mem_erase.mp there).2

end Numbered

/-- The entries of a manager are counted, and each has the key it is under. -/
structure Tallied (m : Nat) (p : Process) : Prop where
  count : (p.managers m).connectionsCount = (p.managers m).connections.keys.length
  own : ∀ key o, (p.managers m).connections.lookup key = some o → (p.conns o).key = key

/-- A fork is entered under a key of at least 2 that has no entry. -/
def Allocates (pageSize : Nat) (pos : 0 < pageSize) (m : Nat) (p : Process) : Label → Prop
  | .fork m' key write => m' = m → ∀ o f p', (p.managers m).connections.lookup key = some o →
      p.fork pageSize pos m o write = some (f, p') →
      ∃ new : Int, 2 ≤ new ∧ (p.managers m).connections.lookup new = none ∧
        (p'.managers m).connections = (p.managers m).connections.insert new f
  | _ => True

theorem Numbered.allocates (numbered : Numbered (p.managers m)) (within : p.Within m label) :
    p.Allocates pageSize pos m label := by
  cases label with
  | get | release | use | assign => trivial
  | fork m' key write =>
    rintro rfl o f p' _ done
    obtain ⟨new, keyPool, p₁, p₂, got, _, obtained, parted, rfl⟩ := fork_steps done
    obtain ⟨least, missing⟩ := numbered.fresh (within rfl).1 got
    refine ⟨_, least, AList.lookup_eq_none.mpr missing, ?_⟩
    rw [parted.managers_eq obtained, update_self]

/-- A step after which the entries are counted, and which enters a fork under a key of its own, has
kept within the bounds. -/
theorem within_of_tallied (drawn : Drawn (p.managers m))
    (done : p.step pageSize pos label = some p') (tallied : p'.Tallied m)
    (allocates : p.Allocates pageSize pos m label) : p.Within m label := by
  have counted := tallied.count
  cases label with
  | release | use | assign => trivial
  | get m' key fd =>
    rintro rfl absent
    have high := addInt32_lt (p.managers m').connectionsCount 1
    cases step_stepped done with
    | found found => cases absent.symm.trans found
    | entered _ obtained =>
    rw [obtained.managers_eq, update_self] at counted
    dsimp only at counted
    rw [counted, Table.length_insert (AList.lookup_eq_none.mp absent)] at high
    omega
  | fork m' key write =>
    rintro rfl
    obtain ⟨o, found, rest⟩ := bind_eq_some_iff.mp done
    obtain ⟨⟨f, p₁⟩, forks, last⟩ := bind_eq_some_iff.mp rest
    cases last
    obtain ⟨k, least, absent, same⟩ := allocates rfl o f p' found forks
    obtain ⟨new, keyPool, p₁, p₂, got, _, obtained, parted, rfl⟩ := fork_steps forks
    have managers := parted.managers_eq obtained
    -- the key of the fork is the one from the counter
    obtain rfl : k = toInt64 new := by
      by_contra other
      rw [managers, update_self] at same
      have entry := AList.lookup_insert (a := k) (b := f) (p.managers m').connections
      rw [← same] at entry
      cases absent.symm.trans ((AList.lookup_insert_ne other).symm.trans entry)
    have high := addInt32_lt (p.managers m').connectionsCount 1
    rw [managers, update_self] at counted
    dsimp only at counted
    rw [counted, Table.length_insert (AList.lookup_eq_none.mp absent)] at high
    have drawn' := (KeyPool.get_of_zeros drawn.zeros).1
    rw [got] at drawn'
    have fits := drawn.fits
    rw [← show new = _ from drawn'] at fits ⊢
    exact ⟨lt_of_toInt64_nonneg fits (by omega), by omega⟩

section Runs

variable {conns rings : Nat → Option Nat} {mems : Nat → Nat → Option Nat}
  {calibration : Nat → Option (Fin 15 × Fin 15)} {ls : List Label}

theorem start_keyed : (start pageSize conns rings mems calibration).Keyed :=
  ⟨start_apart conns rings mems calibration, fun entry => nomatch entry⟩

theorem start_numbered : Numbered ((start pageSize conns rings mems calibration).managers m) where
  zeros k member := absurd member not_mem_nil
  fits := show 2 < 2 ^ 64 by decide
  count := rfl
  few := show 0 < 2 ^ 31 by decide
  range key present := absurd present (AList.notMem_empty key)
  first := le_rfl

/-- In every run in which a manager is only asked for the main connection and for keys it has given
out, while the other managers do anything: its entries are counted and have their own keys all the
time, and every fork comes under a new key, exactly if no fork is made when the counter of the keys
has left the range of an `int`, and no entry when there are as many as an `int32` can count. -/
theorem run_allocates_iff_within
    (ran : run (Process.step pageSize pos) ls (start pageSize conns rings mems calibration) =
      some p)
    (along : Along (Process.step pageSize pos) (Decoded m) ls
      (start pageSize conns rings mems calibration)) :
    Throughout (Process.step pageSize pos) (Tallied m) ls
        (start pageSize conns rings mems calibration) ∧
      Along (Process.step pageSize pos) (Allocates pageSize pos m) ls
        (start pageSize conns rings mems calibration) ↔
    Along (Process.step pageSize pos) (Within m) ls
      (start pageSize conns rings mems calibration) := by
  constructor
  · rintro ⟨tallied, allocates⟩
    have preserved : ∀ p label p', Decoded m p label →
        Process.step pageSize pos p label = some p' → Drawn (p.managers m) →
        Drawn (p'.managers m) :=
      fun p label p' _ done drawn => drawn.changed (step_changed done m)
    have drawn := (throughout_of_along preserved along start_numbered.toDrawn).along
    have after := along_of_throughout (fun p label after => after) tallied
    refine (((along_of_run ran).and after).and (allocates.and drawn)).mono ?_
    rintro p label ⟨⟨⟨p', done⟩, after⟩, allocates, drawn⟩
    exact within_of_tallied drawn done (after p' done) allocates
  · intro within
    have preserved : ∀ p label p', Decoded m p label ∧ Within m p label →
        Process.step pageSize pos p label = some p' → p.Keyed ∧ Numbered (p.managers m) →
        p'.Keyed ∧ Numbered (p'.managers m) :=
      fun p label p' meets done holds =>
        ⟨holds.1.step done, holds.2.changed meets.1 meets.2 rfl (step_changed done m)⟩
    have holds := throughout_of_along preserved (along.and within) ⟨start_keyed, start_numbered⟩
    refine ⟨holds.mono ?_, (within.and holds.along).mono ?_⟩
    · rintro p ⟨keyed, numbered⟩
      exact ⟨numbered.count, fun key o found => keyed.own (x := (m, key)) found⟩
    · rintro p label ⟨within, _, numbered⟩
      exact numbered.allocates within

/-- A late completion brings back the key of a fork that was released. -/
def revived : List Label :=
  [.get 0 1 9, .assign 0 1 { fd := 9, msgHdr := some ⟨⟨0, 0⟩, 4096⟩, rawSockaddr := some (some 7) },
    .fork 0 1 true, .release 0 2, .get 1 5 5, .get 0 2 9, .fork 0 1 true]

theorem run_allocates_iff_within_revived :
    Throughout (Process.step 4096 (by decide)) (Tallied 0) revived recycling ∧
    Along (Process.step 4096 (by decide)) (Allocates 4096 (by decide) 0) revived recycling ∧
    ∃ p, run (Process.step 4096 (by decide)) revived recycling = some p ∧
      (p.managers 0).connectionsCount = 3 ∧ (p.managers 0).connections.lookup 2 = some 2 := by
  have along : Along (Process.step 4096 (by decide)) (Decoded 0) revived recycling := by
    decide +kernel
  have within : Along (Process.step 4096 (by decide)) (Within 0) revived recycling := by
    decide +kernel
  obtain ⟨p, ran, seen⟩ : ∃ p, run (Process.step 4096 (by decide)) revived recycling = some p ∧
      (p.managers 0).connectionsCount = 3 ∧ (p.managers 0).connections.lookup 2 = some 2 := by
    exact exists_run_from (by decide +kernel)
  obtain ⟨tallied, allocates⟩ := (run_allocates_iff_within ran along).mpr within
  exact ⟨tallied, allocates, p, ran, seen⟩

end Runs

/-- No ring buffer and no memory has been given back. -/
structure Untouched (pageSize : Nat) (s : RingStore) : Prop where
  rings : s.pool.items = []
  mems : ∀ k, (s.mem.pool.pools k).items = []
  size : s.defaultSize = pageSize

/-- A ring buffer that is handed out is a new one and has an address to write at. -/
theorem Untouched.got {s s' : RingStore} {r : Nat} (untouched : Untouched pageSize s)
    (got : s.Got pageSize pos r s') :
    Untouched pageSize s' ∧ r < s'.nextRing ∧ ∃ a, (s'.heap r).writeAddress = some a := by
  cases got with
  | pooled got =>
    have member := (SyncPool.get_some got).1
    rw [untouched.rings] at member
    cases member
  | @made pool rb mem got new =>
    have asked : (0 : Int) < pageSize := Int.natCast_pos.mpr pos
    have rounded := adjustBufferSize_pos pos asked
    obtain ⟨vm, next, answer, fits⟩ := Pool.get_answer pos rounded s.mem.pool
    have large : 0 < vm.size := by
      have rounded' := adjustBufferSize_pos pos rounded
      rcases fits with fresh | member
      · omega
      · unfold Pool.shelf at member
        simp only [untouched.mems, ite_self] at member
        cases member
    rw [untouched.size, RingBuffer.newMagicBuffer, if_neg asked.ne'] at new
    simp only [Ledger.source, Ledger.get, answer] at new
    cases new
    refine ⟨⟨(SyncPool.get_none got).trans untouched.rings, fun k => ?_, untouched.size⟩,
      Nat.lt_succ_self _, ⟨vm.addr, 0⟩, ?_⟩
    · refine eq_nil_iff_forall_not_mem.mpr fun m member => ?_
      have before := @VirtualMem.Pool.get_items pageSize _ _ _ _ (by rw [answer]; exact member)
      rw [untouched.mems] at before
      cases before
    · simp only [update_self, RingBuffer.writeAddress, RingBuffer.addressOf, bind_some, get?]
      rw [if_pos ⟨le_rfl, by omega⟩]
      rfl

/-- A connection whose sender has been stored can be forked. -/
theorem fork_isSome (pos : 0 < pageSize) (apart : p.Apart) (untouched : Untouched pageSize p.rings)
    (found : entries p.managers (m, key) = some o) {sender : Option NetAddr}
    (stored : (p.conns o).rawSockaddr = some sender) :
    (p.fork pageSize pos m o false).isSome = true := by
  rcases keyed : (p.managers m).keyPool.get with ⟨new, keyPool⟩
  have obtained : Obtained pageSize pos (p.setKeyPool m keyPool) _ _ := getConnection_obtained _
  rcases taken : (p.setKeyPool m keyPool).getConnection pageSize pos with ⟨f, p₁⟩
  rw [taken] at obtained
  have other : o ≠ f := apart.ne_of_supplied found obtained.supplied
  obtain ⟨_, _, s₁, _, first, second, conns, _⟩ := obtained.rings
  have main : (p₁.conns o).rawSockaddr = some sender := by
    rw [show p₁.conns = _ from conns, update_of_ne other]
    exact stored
  have third : p₁.rings.Got pageSize pos _ _ := RingStore.get_got p₁.rings
  rcases three : p₁.rings.get pageSize pos with ⟨r₁, s₂⟩
  have fourth : s₂.Got pageSize pos _ _ := RingStore.get_got s₂
  rcases four : s₂.get pageSize pos with ⟨r₂, s₃⟩
  rw [three] at third
  rw [four] at fourth
  obtain ⟨_, new', a, address⟩ := ((untouched.got first).1.got second).1.got third
  rw [← fourth.heap_of_lt new'] at address
  simp only [setKeyPool] at taken
  simp only [Process.fork, keyed, taken, forkConn, main, getBuffers, three, four,
    ConnObject.initMsgHeader, address, bind_eq_bind, bind_some, Bool.false_eq_true, if_false]
  rfl

/-- The sender of a datagram is stored, and the main connection is forked for it. -/
def datagram : List Label := [.assign 0 1 { rawSockaddr := some (some 7) }, .fork 0 1 false]

/-- A fork takes four new ring buffers. -/
theorem Untouched.fork (untouched : Untouched pageSize p.rings)
    (done : p.fork pageSize pos m o write = some (f, p')) : Untouched pageSize p'.rings := by
  obtain ⟨_, _, p₁, p₂, _, _, obtained, parted, rfl⟩ := fork_steps done
  obtain ⟨_, _, _, _, first, second, _⟩ := obtained.rings
  obtain ⟨_, _, _, _, _, third, fourth, _⟩ := parted.rings
  have equipped := ((untouched.got first).1.got second).1
  exact ((equipped.got third).1.got fourth).1

/-- A datagram is forked for, and the manager counts it. -/
theorem run_datagram (pos : 0 < pageSize) (apart : p.Apart) (untouched : Untouched pageSize p.rings)
    (found : (p.managers 0).connections.lookup 1 = some o) : ∃ p',
    run (Process.step pageSize pos) datagram p = some p' ∧ p'.Apart ∧ Untouched pageSize p'.rings ∧
    (∃ o, (p'.managers 0).connections.lookup 1 = some o) ∧
    (p'.managers 0).connectionsCount = addInt32 (p.managers 0).connectionsCount 1 := by
  obtain ⟨p₁, assigned, rings, managers, stored⟩ : ∃ p₁,
      p.step pageSize pos (.assign 0 1 { rawSockaddr := some (some 7) }) = some p₁ ∧
      p₁.rings = p.rings ∧ p₁.managers = p.managers ∧
      (p₁.conns o).rawSockaddr = some (some 7) := by
    rw [Process.step, found]
    exact ⟨_, rfl, rfl, rfl, by simp only [setConn, update_self]⟩
  have apart₁ := apart.step assigned
  rw [← rings] at untouched
  rw [← managers] at found ⊢
  obtain ⟨⟨f, p'⟩, forks⟩ := isSome_iff_exists.mp
    (fork_isSome pos apart₁ untouched (show entries p₁.managers (0, 1) = some o from found) stored)
  have last : p₁.step pageSize pos (.fork 0 1 false) = some p' :=
    bind_eq_some_iff.mpr ⟨o, found, bind_eq_some_iff.mpr ⟨_, forks, rfl⟩⟩
  obtain ⟨new, _, _, _, _, _, obtained, parted, rfl⟩ := fork_steps forks
  have forked := parted.managers_eq obtained
  refine ⟨_, ?_, apart₁.step last, untouched.fork forks, ?_, ?_⟩
  · rw [datagram, run_cons assigned, run_cons last, run]
  · rw [forked, update_self]
    by_cases same : (1 : Int) = toInt64 new
    · rw [same]
      exact ⟨f, AList.lookup_insert _⟩
    · exact ⟨o, (AList.lookup_insert_ne same).trans found⟩
  · rw [forked, update_self]

/-- Any number of forks may be there at a time. -/
theorem exists_datagrams (n : Nat) : ∃ ls p,
    run (Process.step 4096 (by decide)) ls recycling = some p ∧
    Along (Process.step 4096 (by decide)) (Decoded 0) ls recycling ∧ p.Apart ∧
    Untouched 4096 p.rings ∧ (∃ o, (p.managers 0).connections.lookup 1 = some o) ∧
    (p.managers 0).connectionsCount = ((n : Int) + 1).bmod (2 ^ 32) := by
  induction n with
  | zero =>
    have untouched : Untouched 4096 recycling.rings := ⟨rfl, fun _ => rfl, rfl⟩
    obtain ⟨p, got⟩ : ∃ p, recycling.step 4096 (by decide) (.get 0 1 9) = some p := ⟨_, rfl⟩
    cases step_stepped got with
    | found found => cases found
    | @entered _ o _ _ _ _ absent obtained =>
      obtain ⟨_, _, _, _, first, second, _⟩ := obtained.rings
      refine ⟨[.get 0 1 9], _, run_cons got, ⟨fun _ => by decide, fun _ _ => trivial⟩,
        (start_apart ..).step got, ((untouched.got first).1.got second).1, ⟨o, ?_⟩, ?_⟩
      · rw [obtained.managers_eq, update_self]
        exact AList.lookup_insert _
      · rw [obtained.managers_eq, update_self]
        rfl
  | succ n ih =>
    obtain ⟨ls, p, ran, along, apart, untouched, ⟨o, found⟩, count⟩ := ih
    obtain ⟨p', more, apart', untouched', found', count'⟩ :=
      run_datagram (by decide) apart untouched found
    refine ⟨ls ++ datagram, p', ?_, along.append fun _ _ => ⟨trivial, fun _ _ => ⟨trivial,
      fun _ _ => trivial⟩⟩, apart', untouched', found', ?_⟩
    · rw [run_append, ran, bind_some, more]
    · rw [count', count, addInt32_bmod]
      push_cast
      rfl

/-- When there are 2 ^ 31 - 1 forks, the counter of the entries is negative. -/
theorem not_run_allocates : ¬ ∀ ls p,
    run (Process.step 4096 (by decide)) ls recycling = some p →
    Along (Process.step 4096 (by decide)) (Decoded 0) ls recycling →
    Throughout (Process.step 4096 (by decide)) (Tallied 0) ls recycling := by
  intro always
  obtain ⟨ls, p, ran, along, _, _, _, count⟩ := exists_datagrams (2 ^ 31 - 1)
  have counted := ((always ls p ran along).last ran).count
  rw [count] at counted
  have negative : (((2 ^ 31 - 1 : Nat) : Int) + 1).bmod (2 ^ 32) = -2 ^ 31 := by decide +kernel
  omega

/-- The keys that were given out are those of the forked connections, and none is free. -/
structure Given (manager : Manager) : Prop where
  stack : manager.keyPool.stack = []
  keys : ∀ k : Nat, 2 ≤ k → ((k : Int) ∈ manager.connections ↔ k < manager.keyPool.nextKey)
  length : manager.keyPool.nextKey = manager.forkedKeys.length + 2

/-- The manager is asked for the main connection only, and to release what it does not have. It has
fewer forks than an `int` can number. -/
def Unreleased (m : Nat) (p : Process) : Label → Prop
  | .get m' key _ => m' = m → key = 1
  | .fork m' _ _ => m' = m → (p.managers m).forkedKeys.length + 2 < 2 ^ 63
  | .release m' key => m' = m → (p.managers m).connections.lookup key = none
  | _ => True

instance (m : Nat) (p : Process) : (label : Label) → Decidable (p.Unreleased m label)
  | .get m' key _ => inferInstanceAs (Decidable (m' = m → key = 1))
  | .release m' key =>
    inferInstanceAs (Decidable (m' = m → (p.managers m).connections.lookup key = none))
  | .fork .. => inferInstanceAs (Decidable (_ = _ → _ < _))
  | .use .. | .assign .. => isTrue trivial

/-- No key given out becomes free. -/
theorem Given.changed (given : Given manager) (unreleased : p.Unreleased m label)
    (same : p.managers m = manager) (change : Changed m manager label manager') :
    Given manager' := by
  cases change with
  | kept => exact given
  | @entered key fd o absent =>
    obtain rfl : key = 1 := unreleased rfl
    have missing : (1 : Int) ∉ manager.connections.keys :=
      mt AList.mem_keys.mpr (AList.lookup_eq_none.mp absent)
    refine ⟨given.stack, fun k least => ?_, ?_⟩
    · have other : (k : Int) ≠ 1 := by omega
      rw [AList.mem_insert, or_iff_right other]
      exact given.keys k least
    · rw [Manager.forkedKeys, AList.keys_insert, erase_of_not_mem missing]
      exact given.length
  | @forked key write new f keyPool got =>
    have few := unreleased rfl
    rw [same, ← given.length] at few
    rw [KeyPool.get, given.stack] at got
    cases got
    have next : (manager.keyPool.nextKey + 1) % 2 ^ 64 = manager.keyPool.nextKey + 1 :=
      Nat.mod_eq_of_lt (by omega)
    have first : 2 ≤ manager.keyPool.nextKey := by
      rw [given.length]
      exact Nat.le_add_left ..
    have missing : (manager.keyPool.nextKey : Int) ∉ manager.connections.keys := by
      intro present
      have := (given.keys _ first).mp (AList.mem_keys.mpr present)
      omega
    refine ⟨rfl, fun k least => ?_, ?_⟩
    · rw [AList.mem_insert, given.keys k least, toInt64_of_lt few]
      change _ ↔ k < (manager.keyPool.nextKey + 1) % 2 ^ 64
      omega
    · rw [Manager.forkedKeys, toInt64_of_lt few, AList.keys_insert,
        erase_of_not_mem missing,
        filter_cons_of_pos (by simpa using Int.ofNat_le.mpr first), length_cons]
      exact next.trans (congrArg (· + 1) given.length)
  | @released key o found =>
    rw [← same] at found
    cases (unreleased rfl).symm.trans found

/-- In every run in which a manager forks its main connection and releases none that it has, the
keys it has given out are those of its forks and the free ones, and there are no more of them
than forks at some moment. -/
theorem run_partition_of_unreleased {conns rings : Nat → Option Nat}
    {mems : Nat → Nat → Option Nat} {calibration : Nat → Option (Fin 15 × Fin 15)} {ls : List Label}
    (ran : run (Process.step pageSize pos) ls (start pageSize conns rings mems calibration) =
      some p)
    (along : Along (Process.step pageSize pos) (Unreleased m) ls
      (start pageSize conns rings mems calibration)) :
    (p.managers m).keyPool.stack.Nodup ∧
    (∀ k : Nat, 2 ≤ k ∧ k < (p.managers m).keyPool.nextKey ↔
      2 ≤ k ∧ (k : Int) ∈ (p.managers m).connections ∨ k ∈ (p.managers m).keyPool.stack) ∧
    (∀ k ∈ (p.managers m).keyPool.stack, (k : Int) ∉ (p.managers m).connections) ∧
    ∃ early late q, ls = early ++ late ∧
      run (Process.step pageSize pos) early (start pageSize conns rings mems calibration) =
        some q ∧
      (p.managers m).keyPool.nextKey - 2 ≤ (q.managers m).forkedKeys.length := by
  have preserved : ∀ p label p', Unreleased m p label →
      Process.step pageSize pos p label = some p' → Given (p.managers m) → Given (p'.managers m) :=
    fun p label p' unreleased done given => given.changed unreleased rfl (step_changed done m)
  have initial : Given ((start pageSize conns rings mems calibration).managers m) := by
    refine ⟨rfl, fun k least => iff_of_false (AList.notMem_empty _) ?_, rfl⟩
    exact Nat.not_lt.mpr least
  have given : Given (p.managers m) := invariant_of_run preserved ran along initial
  rw [given.stack]
  refine ⟨nodup_nil, fun k => ?_, fun k member => absurd member not_mem_nil,
    ls, [], p, (append_nil ls).symm, ran, ?_⟩
  · rw [or_iff_left not_mem_nil]
    exact and_congr_right fun least => (given.keys k least).symm
  · rw [given.length]
    exact le_of_eq (Nat.add_sub_cancel ..)

/-- The main connection is forked twice. -/
def forkedTwice (between : List Label) : List Label :=
  ([.get 0 1 9,
    .assign 0 1 { fd := 9, msgHdr := some ⟨⟨0, 0⟩, 4096⟩, rawSockaddr := some (some 7) },
    .fork 0 1 true] : List Label) ++ between ++ ([.fork 0 1 true] : List Label)

theorem run_partition_of_unreleased_forkedTwice : ∃ p,
    run (Process.step 4096 (by decide)) (forkedTwice [.release 0 5]) recycling = some p ∧
    (p.managers 0).keyPool.nextKey = 4 ∧ (3 : Int) ∈ (p.managers 0).connections := by
  have along : Along (Process.step 4096 (by decide)) (Unreleased 0) (forkedTwice [.release 0 5])
      recycling := by decide +kernel
  obtain ⟨p, ran, next, stack⟩ : ∃ p,
      run (Process.step 4096 (by decide)) (forkedTwice [.release 0 5]) recycling = some p ∧
      (p.managers 0).keyPool.nextKey = 4 ∧ (p.managers 0).keyPool.stack = [] := by
    exact exists_run_from (by decide +kernel)
  obtain ⟨_, split, _⟩ := run_partition_of_unreleased ran along
  refine ⟨p, ran, next, ?_⟩
  rcases (split 3).mp (by rw [next]; decide) with ⟨_, live⟩ | free
  · exact live
  · rw [stack] at free
    cases free

/-- The release of the fork with key 2 gives back 0. The next fork takes key 3, although there was
never more than one. -/
theorem run_not_partitioned : ∃ p q,
    run (Process.step 4096 (by decide)) ((forkedTwice [.release 0 2]).dropLast) recycling =
      some p ∧
    (p.managers 0).keyPool.stack = [0] ∧ (p.managers 0).keyPool.nextKey = 3 ∧
    (2 : Int) ∉ (p.managers 0).connections ∧
    run (Process.step 4096 (by decide)) (forkedTwice [.release 0 2]) recycling = some q ∧
    (q.managers 0).keyPool.nextKey - 2 = 2 ∧
    Throughout (Process.step 4096 (by decide)) (fun p => (p.managers 0).forkedKeys.length ≤ 1)
      (forkedTwice [.release 0 2]) recycling := by
  obtain ⟨p, released, stack, next, absent⟩ : ∃ p, run (Process.step 4096 (by decide))
        ((forkedTwice [.release 0 2]).dropLast) recycling = some p ∧
      (p.managers 0).keyPool.stack = [0] ∧ (p.managers 0).keyPool.nextKey = 3 ∧
      (p.managers 0).connections.lookup 2 = none := by
    exact exists_run_from (by decide +kernel)
  obtain ⟨q, ran, second⟩ : ∃ q,
      run (Process.step 4096 (by decide)) (forkedTwice [.release 0 2]) recycling = some q ∧
      (q.managers 0).keyPool.nextKey - 2 = 2 := by
    exact exists_run_from (by decide +kernel)
  have few : Throughout (Process.step 4096 (by decide))
      (fun p => (p.managers 0).forkedKeys.length ≤ 1) (forkedTwice [.release 0 2]) recycling := by
    decide +kernel
  exact ⟨p, q, released, stack, next, AList.lookup_eq_none.mp absent, ran, second, few⟩

end Process

end Gain
