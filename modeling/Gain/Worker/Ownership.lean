import Gain.Worker.Lives

/-! # Who owns the buffers the kernel works on

A receive or a send carries an address in a buffer. In an orderly run the
connection it was made for is registered until the request has been handled, and
neither the connection nor the buffer is free in the meantime.
-/

namespace Gain

open List Option

namespace Worker

variable {w w' : Worker} {rules : Rules} {cfg : Config} {streams : Streams} {q : Sqe}
  {new : List Sqe} {o : Nat}

/-- The requests prepared, submitted, or completed and not yet handled. -/
def outstanding (w : Worker) : List Sqe := w.underway ++ w.cq.map Cqe.sqe

theorem outstanding_push (inflight : w'.inflight = w.inflight) (sq : w'.sq = w.sq.push q)
    (cq : w'.cq = w.cq) : w'.outstanding.Perm (q :: w.outstanding) := by
  rw [outstanding, underway_of_push inflight sq, cq, append_assoc]
  exact perm_middle

theorem outstanding_setSession {x : Session} (pushed : x.sq = Chains.pushAll w.sq new) :
    (w.setSession x).outstanding = w.underway ++ new ++ w.cq.map Cqe.sqe :=
  congrArg (· ++ w.cq.map Cqe.sqe) (underway_setSession w pushed)

/-- The first completion is taken from the queue. -/
theorem outstanding_pop {c : Cqe} {cq : List Cqe} (first : w.cq = c :: cq) (phase : Phase) :
    (c.sqe :: outstanding { w with phase := phase, cq := cq }).Perm w.outstanding := by
  have whole : w.outstanding = w.underway ++ c.sqe :: cq.map Cqe.sqe := by
    rw [outstanding, first, map_cons]
  rw [whole]
  change (c.sqe :: (w.underway ++ cq.map Cqe.sqe)).Perm _
  exact perm_middle.symm

/-- Entries of a submitted chain are completed. -/
theorem outstanding_complete {chain : Nat} {old : List Sqe} {cqes : List Cqe}
    (found : w.inflight[chain]? = some old) (perm : (new ++ cqes.map Cqe.sqe).Perm old) :
    (outstanding { w with inflight := w.inflight.set chain new, cq := w.cq ++ cqes }).Perm
      w.outstanding := by
  have chains := Chains.flatten_set_perm found new
  change ((w.inflight.set chain new ++ w.sq).flatten ++ (w.cq ++ cqes).map Cqe.sqe).Perm
    ((w.inflight ++ w.sq).flatten ++ w.cq.map Cqe.sqe)
  rw [← Multiset.coe_eq_coe] at chains perm ⊢
  simp only [flatten_append, map_append, ← Multiset.coe_add] at chains perm ⊢
  rw [← perm, add_assoc] at chains
  rw [← add_left_cancel chains]
  abel

/-- The request belongs to a registered connection, in the life it was made in, and its
address lies in a buffer of that connection and not in a free buffer or free memory. -/
structure Owned (w : Worker) (q : Sqe) : Prop where
  registered : w.connections.lookup (userKey (userData q.flag q.key)) = some q.obj
  life : (w.heap q.obj).life = q.life
  connection : q.obj ∉ w.connPool.items
  recv : q.flag = .read → (w.heap q.obj).inboundRegion = some q.addr.region
  send : q.flag = .write → (w.heap q.obj).outboundRegion = some q.addr.region
  pooled : ∀ rb ∈ w.bufPool.pool.items, rb.region ≠ some q.addr.region
  memory : ∀ k < 32, ∀ m ∈ (w.mem.pool.pools k).items, m.addr ≠ q.addr.region

/-- A region behind a buffer of an object is in no free buffer and in no free memory. -/
theorem Sane.region_used (sane : w.Sane) (lt : o < w.nextObj) {r : Nat}
    (used : r ∈ (w.heap o).regions) : (∀ rb ∈ w.bufPool.pool.items, rb.region ≠ some r) ∧
      ∀ k < 32, ∀ m ∈ (w.mem.pool.pools k).items, m.addr ≠ r := by
  have nodup := sane.distinct.1
  rw [regions_eq w lt, Multiset.nodup_add] at nodup
  obtain ⟨first, _, across⟩ := nodup
  rw [Multiset.nodup_add] at first
  refine ⟨?_, ?_⟩
  · intro rb member region
    obtain ⟨m, memory, rfl⟩ := map_eq_some_iff.mp region
    refine Multiset.disjoint_left.mp across (Multiset.mem_add.mpr (Or.inl used)) ?_
    refine Multiset.mem_add.mpr (Or.inr ?_)
    obtain ⟨before, behind, split⟩ := mem_iff_append.mp member
    have own : m.addr ∈ rb.regions := by
      change m.addr ∈ (rb.vm.toList.map VirtualMem.addr : List Nat)
      rw [memory]
      exact mem_singleton_self _
    rw [BufferPool.regions, split, map_append, sum_append, map_cons, sum_cons]
    exact Multiset.mem_add.mpr (Or.inr (Multiset.mem_add.mpr (Or.inl own)))
  · intro k small m member same
    refine Multiset.disjoint_left.mp first.2.2 used ?_
    rw [VirtualMem.Pool.regions, Multiset.mem_sum]
    refine ⟨k, Finset.mem_range.mpr small, ?_⟩
    rw [← same]
    exact mem_map_of_mem member

/-- A tidy connection owns its receives and sends. -/
theorem Regular.owned (regular : w.Regular rules) {k : Int}
    (found : w.connections.lookup k = some o) (other : k ≠ w.cfg.listener)
    (member : q ∈ (w.view k o).requests) (flag : q.flag = .read ∨ q.flag = .write) : w.Owned q := by
  have tidy := regular.tidy found other
  have fresh := regular.fresh found other
  obtain ⟨key, _, obj, life⟩ := tidy.own q member
  change q.obj = o at obj
  subst obj
  have decoded : userKey (userData q.flag q.key) = k := by
    have low := fresh.low
    have high := fresh.high
    rw [key]
    exact userKey_userData _ (by omega) (by omega)
  have used : q.addr.region ∈ (w.heap q.obj).regions := by
    rcases flag with flag | flag
    · exact Multiset.mem_add.mpr (Or.inl (Connection.mem_regions_of_inbound
        (tidy.recv q member flag)))
    · exact Multiset.mem_add.mpr (Or.inr (Connection.mem_regions_of_outbound
        (tidy.send q member flag)))
  obtain ⟨pooled, memory⟩ := regular.sane.region_used (regular.sane.bound found) used
  refine ⟨?_, life.symm, regular.sane.free found, tidy.recv q member, tidy.send q member, pooled,
    memory⟩
  rw [decoded]
  exact found

/-- A receive or a send outstanding is one of a registered connection. -/
theorem Regular.requester (regular : w.Regular rules) (member : q ∈ w.outstanding)
    (flag : q.flag = .read ∨ q.flag = .write) :
    ∃ k o, k ≠ w.cfg.listener ∧ w.connections.lookup k = some o ∧ q ∈ (w.view k o).requests := by
  have ne : ∀ {other : Flag}, other ≠ .read → other ≠ .write → q.flag ≠ other := by
    rintro other read write rfl
    exact flag.elim read write
  rcases mem_append.mp member with underway | completed
  · rcases regular.request_cases underway with ⟨_, _, accept⟩ | ⟨other, o, found, mine⟩
    · exact absurd accept (ne (by decide) (by decide))
    · exact ⟨q.key, o, other, found, mine⟩
  · obtain ⟨c, place, rfl⟩ := mem_map.mp completed
    rcases regular.completion_cases place (ne (by decide) (by decide)) with
      ⟨_, _, accept⟩ | ⟨other, o, found, mine⟩
    · exact absurd accept (ne (by decide) (by decide))
    · exact ⟨c.sqe.key, o, other, found, mem_append_left _ (mem_map_of_mem mine)⟩

/-- In every state of an orderly run all receives and sends that are outstanding are owned. -/
theorem run_owned_of_orderly (tcp : cfg.sendRecvMsg = false) (started : start cfg streams = some w)
    {ls : List Label} (ran : run step ls w = some w') (along : Along step (Orderly {}) ls w) :
    ∀ q ∈ w'.outstanding, q.flag = .read ∨ q.flag = .write → w'.Owned q := by
  have regular := run_regular tcp started ran along
  intro q member flag
  obtain ⟨k, o, other, found, mine⟩ := regular.requester member flag
  exact regular.owned found other mine flag

/-- A consumer or a shard with default options. -/
def plain (kind : Kind) : Config where
  kind := kind
  pageSize := 4096
  pageSize_pos := Nat.succ_pos 4095
  listener := 3
  asyncHandler := false
  sendRecvMsg := false
  cpuAffinity := false
  tcpKeepAlive := false
  maxCQEvents := 16
  ringsMessaging := true
  localAddr := none

/-- A consumer that is handed connections through its queue. -/
def queueing : Config := { plain .consumer with ringsMessaging := false }

/-- Pools that keep nothing. -/
def keepNothing : Streams := ⟨fun _ => none, fun _ => none, fun _ _ => none, fun _ => none⟩

/-- A connection is handed over and its first receive prepared. -/
def admission : List Label := [.handOff 5 7, .turn [] 0 .done, .peek, .event {}]

theorem run_owned_of_orderly_admission : ∃ w w', start (plain .consumer) keepNothing = some w ∧
    run step admission w = some w' ∧ w'.outstanding.map Sqe.flag = [.read] ∧
    ∀ q ∈ w'.outstanding, q.flag = .read ∨ q.flag = .write → w'.Owned q := by
  have started : start (plain .consumer) keepNothing =
      some (init (plain .consumer) keepNothing) := rfl
  have along : Along step (Orderly {}) admission (init (plain .consumer) keepNothing) := by decide
  have seen : (run step admission (init (plain .consumer) keepNothing)).map
      (fun w => w.outstanding.map Sqe.flag) = some [.read] := by decide
  obtain ⟨w', ran, seen⟩ := map_eq_some_iff.mp seen
  exact ⟨_, w', started, ran, seen, run_owned_of_orderly rfl started ran along⟩

/-- The connection is swept while its receive is outstanding, and given up when the close
completes. -/
def sweptWhileReceiving : List Label :=
  admission ++ ([.endBatch, .asyncWrite {}, .turn [] 1 .done, .peek, .endBatch, .asyncWrite {},
    .shutdown, .turn [(5, true)] 1 .done, .peek, .endBatch, .asyncWrite {},
    .complete 1 0 false [] none, .turn [] 0 .done, .peek, .event {}] : List Label)

theorem run_not_owned : ∃ w w', start (plain .consumer) keepNothing = some w ∧
    run step sweptWhileReceiving w = some w' ∧
    ∃ q ∈ w'.outstanding, q.flag = .read ∧ ¬ w'.Owned q := by
  have seen : ((start (plain .consumer) keepNothing).bind (run step sweptWhileReceiving)).map
      (fun w => (w.underway.map Sqe.flag, w.underway.map Sqe.key, w.connections.lookup 5)) =
        some ([.read], [5], none) := by decide
  obtain ⟨w', ran, seen⟩ := map_eq_some_iff.mp seen
  obtain ⟨w, started, ran⟩ := bind_eq_some_iff.mp ran
  obtain ⟨flags, keys, absent⟩ : w'.underway.map Sqe.flag = [.read] ∧
      w'.underway.map Sqe.key = [5] ∧ w'.connections.lookup 5 = none := by
    simpa using seen
  obtain ⟨q, only, flag⟩ := map_eq_singleton_iff.mp flags
  rw [only] at keys
  have key : q.key = 5 := by simpa using keys
  refine ⟨w, w', started, ran, q, ?_, flag, fun owned => ?_⟩
  · refine mem_append_left _ ?_
    rw [only]
    exact mem_singleton_self q
  · have found := owned.registered
    rw [flag, key, show userKey (userData .read 5) = 5 by decide, absent] at found
    cases found

end Worker

end Gain
