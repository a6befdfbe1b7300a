import Gain.Worker.Sane

/-! # Free buffers are empty

Whatever sizes the memory pool answers with, a buffer in the pool of ring buffers
is empty, and so are the buffers of a connection that has just been entered.
-/

namespace Gain

open BufferPool Function Option

/-- The connection has its buffers and both are empty. -/
def Connection.Vacant (c : Connection) : Prop :=
  (∃ rb, c.inboundBuffer = some rb ∧ rb.buffered = 0) ∧
    ∃ rb, c.outboundBuffer = some rb ∧ rb.buffered = 0

theorem RingBuffer.newMagicBuffer_vacant {σ : Type} (source : MemSource σ) (size : Int) (s : σ) :
    (newMagicBuffer source size s).1.buffered = 0 := by
  unfold newMagicBuffer
  split_ifs <;> simp [buffered]

variable {property : RingBuffer → Prop}

namespace BufferPool

/-- All free buffers are empty. -/
def Vacant (p : BufferPool) : Prop := ∀ rb ∈ p.pool.items, rb.buffered = 0

variable {p p' : BufferPool} {source : MemSource VirtualMem.Ledger} {l l' : VirtualMem.Ledger}
  {rb : RingBuffer}

theorem get_defaultSize (got : p.get source l = (rb, p', l')) : p'.defaultSize = p.defaultSize := by
  unfold BufferPool.get at got
  rcases answer : p.pool.get with ⟨ptr, pool⟩
  rw [answer] at got
  cases ptr <;> cases got <;> rfl

/-- What all free buffers and all new ones have, a buffer that is handed out has. -/
theorem get_all (all : ∀ rb ∈ p.pool.items, property rb)
    (made : ∀ l, property (RingBuffer.newMagicBuffer source p.defaultSize l).1)
    (got : p.get source l = (rb, p', l')) : property rb ∧ ∀ rb ∈ p'.pool.items, property rb := by
  unfold BufferPool.get at got
  rcases answer : p.pool.get with ⟨ptr, pool⟩
  rw [answer] at got
  cases ptr with
  | some found =>
    cases got
    obtain ⟨member, rest⟩ := SyncPool.get_some answer
    exact ⟨all _ member, fun rb kept => all rb (rest rb kept)⟩
  | none =>
    have fresh := made l
    generalize RingBuffer.newMagicBuffer source p.defaultSize l = result at got fresh
    cases got
    refine ⟨fresh, ?_⟩
    change ∀ rb ∈ pool.items, property rb
    rw [SyncPool.get_none answer]
    exact all

/-- What all free buffers have and the one given back has after it was reset, the free ones have
then. -/
theorem put_all (all : ∀ rb ∈ p.pool.items, property rb) {ptr : Option RingBuffer}
    (reset : ∀ rb rb' : RingBuffer, ptr = some rb → rb.zeroes = some rb' → property rb'.reset)
    (done : p.put ptr = some p') : ∀ rb ∈ p'.pool.items, property rb := by
  obtain ⟨rb, rfl, rest⟩ := bind_eq_some_iff.mp done
  obtain ⟨rb', cleared, rest⟩ := bind_eq_some_iff.mp rest
  dsimp only at rest
  split_ifs at rest <;> cases rest
  · intro rb₁ member
    rcases SyncPool.mem_put.mp member with rfl | kept
    · exact reset rb rb' rfl cleared
    · exact all rb₁ kept
  · exact all

end BufferPool

namespace Worker

variable {w w' : Worker} {env : Env} {o : Nat} {c : Cqe} {err : Option Error} {key fd : Int}

/-- What all free buffers and all new ones have, those of an obtained connection have. -/
theorem getConnection_all (all : ∀ rb ∈ w.bufPool.pool.items, property rb)
    (made : ∀ l, property (RingBuffer.newMagicBuffer w.cfg.source w.bufPool.defaultSize l).1) :
    (∀ rb ∈ (w.getConnection).2.bufPool.pool.items, property rb) ∧
      (∃ rb, ((w.getConnection).2.heap (w.getConnection).1).inboundBuffer = some rb ∧
        property rb) ∧
      ∃ rb, ((w.getConnection).2.heap (w.getConnection).1).outboundBuffer = some rb ∧
        property rb := by
  unfold getConnection
  rcases first : w.bufPool.get w.cfg.source w.mem with ⟨inbound, p, mem⟩
  obtain ⟨mine, all⟩ := get_all all made first
  rcases second : p.get w.cfg.source mem with ⟨outbound, p', mem'⟩
  rw [← get_defaultSize first] at made
  obtain ⟨mine', all⟩ := get_all all made second
  rcases w.connPool.get with ⟨ptr, pool⟩
  cases ptr with
  | some _ | none =>
    simp only [second, setConn, update_self]
    exact ⟨all, ⟨_, rfl, mine⟩, _, rfl, mine'⟩

theorem getConnection_defaultSize (w : Worker) :
    (w.getConnection).2.bufPool.defaultSize = w.bufPool.defaultSize := by
  unfold getConnection
  rcases first : w.bufPool.get w.cfg.source w.mem with ⟨inbound, p, mem⟩
  rcases second : p.get w.cfg.source mem with ⟨outbound, p', mem'⟩
  have same := (get_defaultSize second).trans (get_defaultSize first)
  rcases w.connPool.get with ⟨ptr, pool⟩
  cases ptr <;> simp only [second] <;> exact same

/-- The same for a look-up, which may have entered a connection. -/
theorem get_all (all : ∀ rb ∈ w.bufPool.pool.items, property rb)
    (made : ∀ l, property (RingBuffer.newMagicBuffer w.cfg.source w.bufPool.defaultSize l).1)
    (got : w.get key fd = (o, w')) :
    (∀ rb ∈ w'.bufPool.pool.items, property rb) ∧ (w.connections.lookup key = none →
      (∃ rb, (w'.heap o).inboundBuffer = some rb ∧ property rb) ∧
        ∃ rb, (w'.heap o).outboundBuffer = some rb ∧ property rb) := by
  unfold get at got
  cases found : w.connections.lookup key with
  | some o' =>
    rw [found] at got
    cases got
    exact ⟨all, fun none' => nomatch none'⟩
  | none =>
    obtain ⟨pool, mine⟩ := getConnection_all all made
    rw [found] at got
    rcases taken : w.getConnection with ⟨i, w₁⟩
    rw [taken] at got pool mine
    cases got
    refine ⟨pool, fun _ => ?_⟩
    simp only [register, setConn, update_self]
    exact mine

theorem get_vacant (vacant : w.bufPool.Vacant) (got : w.get key fd = (o, w')) :
    w'.bufPool.Vacant ∧ (w.connections.lookup key = none → (w'.heap o).Vacant) :=
  get_all vacant (RingBuffer.newMagicBuffer_vacant _ _) got

/-- What all free buffers have and those of the connection have after they were reset, the free
ones have after its release. -/
theorem release_all (all : ∀ rb ∈ w.bufPool.pool.items, property rb)
    (reset : ∀ {o : Nat} {rb rb' : RingBuffer}, w.connections.lookup key = some o →
      (w.heap o).inboundBuffer = some rb ∨ (w.heap o).outboundBuffer = some rb →
      rb.zeroes = some rb' → property rb'.reset) (done : w.release key = some w') :
    ∀ rb ∈ w'.bufPool.pool.items, property rb := by
  unfold release at done
  split at done
  · cases done
    exact all
  · rename_i found
    obtain ⟨w₁, put, last⟩ := bind_eq_some_iff.mp done
    cases last
    obtain ⟨p, first, rest⟩ := bind_eq_some_iff.mp put
    obtain ⟨p', second, last⟩ := bind_eq_some_iff.mp rest
    cases last
    refine put_all (put_all all ?inbound first) ?outbound second
    case inbound => exact fun rb rb' present => reset found (Or.inl present)
    case outbound => exact fun rb rb' present => reset found (Or.inr present)

theorem release_vacant (vacant : w.bufPool.Vacant) (done : w.release key = some w') :
    w'.bufPool.Vacant :=
  release_all vacant (fun _ _ _ => by simp [RingBuffer.buffered, RingBuffer.reset]) done

theorem closeConn_vacant (vacant : w.bufPool.Vacant) {syscallClose : Bool} {ops : List ConnOp}
    (done : w.closeConn o syscallClose err ops = some w') : w'.bufPool.Vacant := by
  obtain ⟨x, _, rest⟩ := bind_eq_some_iff.mp done
  exact release_vacant (w := w.setSession x) vacant rest

theorem endOnError_vacant (vacant : w.bufPool.Vacant) (done : w.endOnError env o err = some w') :
    w'.bufPool.Vacant := by
  cases err with
  | none =>
    cases done
    exact vacant
  | some err => exact closeConn_vacant vacant done

theorem Served.vacant (served : Served w env c o w') (vacant : w.bufPool.Vacant) :
    w'.bufPool.Vacant := by
  cases served with
  | eof _ _ ended | closed _ _ ended | unknown _ ended => exact closeConn_vacant vacant ended
  | @failed x x' err w' prelude arming ended =>
    exact closeConn_vacant (w := w.setSession x') vacant ended
  | armed _ _ | spawned _ _ _ _ | flushed _ _ _ _ | ignored _ _ _ => exact vacant

theorem Addressed.vacant (addressed : Addressed w fd o w') (vacant : w.bufPool.Vacant) :
    w'.bufPool.Vacant := by
  obtain ⟨got⟩ := addressed
  exact (get_vacant vacant got).1

theorem Welcomed.vacant {sqe : Nat → Bool} (welcomed : Welcomed w env sqe o err w')
    (vacant : w.bufPool.Vacant) : w'.bufPool.Vacant := by
  obtain ⟨x, _, rfl⟩ := welcomed.acts
  exact vacant

theorem Rearmed.vacant (rearmed : Rearmed w o w') (vacant : w.bufPool.Vacant) :
    w'.bufPool.Vacant := by
  obtain ⟨got⟩ := rearmed
  exact (get_vacant (w := w.prepareAccept) vacant got).1

theorem Accepted.vacant (accepted : Accepted w env c err w') (vacant : w.bufPool.Vacant) :
    w'.bufPool.Vacant := by
  cases accepted with
  | refused err full => exact vacant
  | failed err free reason rearmed addressed => exact addressed.vacant (rearmed.vacant vacant)
  | welcomed free rearmed addressed welcomed =>
    exact welcomed.vacant (addressed.vacant (rearmed.vacant vacant))

/-- An event leaves the pool vacant. -/
theorem Handled.vacant (handled : Handled w env c w') (vacant : w.bufPool.Vacant) :
    w'.bufPool.Vacant := by
  cases handled with
  | looked error consumer got => exact (get_vacant vacant got).1
  | dropped _ _ | skipped _ _ _ _ => exact vacant
  | @announced err w₁ fine consumer flag handed =>
    obtain ⟨addressed, welcomed⟩ := handed
    have after := welcomed.vacant (addressed.vacant vacant)
    cases err with
    | none => exact after
    | some err =>
      obtain ⟨shut, same⟩ := stop_eq w₁
      simp only [isSome_some, if_true, same]
      exact after
  | served fine kind got stream served => exact served.vacant (get_vacant vacant got).1
  | accepted fine shard got state accepted ended =>
    exact endOnError_vacant (accepted.vacant (get_vacant vacant got).1) ended

theorem Executed.vacant {q : Sqe} {res : Int} {data : List UInt8}
    (executed : Executed w q res data w') (vacant : w.bufPool.Vacant) : w'.bufPool.Vacant := by
  cases executed with
  | received fine flag fits size =>
    intro rb member
    obtain ⟨rb₀, member₀, rfl⟩ := List.mem_map.mp member
    exact vacant rb₀ member₀
  | error _ _ | sendError _ _ _ | accepted _ _ _ _ | sent _ _ _ _ | closed _ _ => exact vacant

/-- Every step leaves the free buffers empty. -/
theorem Stepped.vacant {label : Label} (stepped : Stepped w label w')
    (vacant : w.bufPool.Vacant) : w'.bufPool.Vacant := by
  cases stepped with
  | shutdown | paced _ _ _ | asyncWrite _ _ _ | handOff _ _ _ _ _ | taskBegin _ | taskCall _ _
  | taskEnd _ _ => exact vacant
  | @turn order chains result phase shut top all kept =>
    obtain ⟨_, _, _, _, _, _, _, swept⟩ := shutdownHandler_frame w order
    rw [swept]
    exact vacant
  | @event env left c cq w' phase first handled =>
    exact handled.vacant (w := { w with phase := .events left, cq := cq }) vacant
  | @newConn env fd rest err w' phase first handed =>
    obtain ⟨addressed, welcomed⟩ := handed
    exact welcomed.vacant (addressed.vacant (w := { w with connQueue := rest }) vacant)
  | completed found executed settles => exact (executed.vacant vacant :)

end Worker

end Gain
