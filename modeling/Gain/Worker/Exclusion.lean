import Gain.Worker.Ownership

/-! # Connections that handlers hold

While a handler runs in a goroutine, or its connection waits in the queue of
asynchronous operations, the connection is not given up.
-/

namespace Gain

open List

namespace Session

variable {cfg : Config} {x x' : Session}

/-- Acts keep both buffers. -/
theorem Act.equipped (act : Act cfg x x') (tcp : cfg.sendRecvMsg = false)
    (equipped : x.conn.Equipped) : x'.conn.Equipped := by
  cases act with
  | call called =>
    cases call_method called with
    | refused => exact equipped
    | inbound _ _ _ => exact ⟨rfl, equipped.2⟩
    | outbound _ _ _ => exact ⟨equipped.1, rfl⟩
    | close =>
      unfold Session.close Connection.close
      split_ifs <;> exact equipped
  | fire | userSpace | shutdown => exact equipped
  | received counted =>
    obtain ⟨_, _, _, _, rfl⟩ := onKernelRead_eq counted
    exact ⟨rfl, equipped.2⟩
  | sent dropped =>
    obtain ⟨_, _, _, _, rfl⟩ := onKernelWrite_eq dropped
    exact ⟨equipped.1, rfl⟩
  | armRead armed =>
    obtain ⟨_, _, _, _, _, _, _, rfl⟩ := addReadRequest_eq tcp armed
    exact ⟨rfl, equipped.2⟩
  | armWrite armed =>
    obtain ⟨_, _, _, _, rfl⟩ := addWriteRequest_eq tcp armed
    exact equipped
  | armClose => exact equipped
  | closed =>
    unfold Connection.close
    split_ifs <;> exact equipped

theorem Acts.equipped (acts : Acts cfg x x') (tcp : cfg.sendRecvMsg = false)
    (equipped : x.conn.Equipped) : x'.conn.Equipped := by
  induction acts with
  | refl => exact equipped
  | tail _ act ih => exact act.equipped tcp ih

theorem Armed.equipped {new : List Sqe} (armed : Armed cfg x new x') (equipped : x.conn.Equipped) :
    x'.conn.Equipped := by
  cases armed with
  | nothing => exact equipped
  | read _ _ _ => exact ⟨rfl, equipped.2⟩
  | write _ _ _ | writeClose _ _ _ | close _ => exact equipped

end Session

namespace View

variable {k : Int} {v v' : View} {cfg : Config} {rules : Rules} {exact' : Prop}

/-- The connection has its buffers and was not given up. -/
def Live (v : View) : Prop := v.conn.Equipped ∧ v.history.released = false

theorem Live.of_acts {mem : VirtualMem.Ledger} {sq : Chains} {shut : List Int} {x : Session}
    (live : v.Live) (tcp : cfg.sendRecvMsg = false)
    (acts : Session.Acts cfg (v.session mem sq shut) x) :
    x.conn.Equipped ∧ x.history.released = false :=
  ⟨acts.equipped tcp live.1, (acts.frame tcp).released.trans live.2⟩

/-- Every move keeps the connection live. -/
theorem Live.move (tcp : cfg.sendRecvMsg = false) (live : v.Live)
    (move : Move cfg rules exact' v v') : v'.Live := by
  cases move with
  | dropped _ _ | returned _ _ | swept _ _ | cancelled => exact live
  | @armed c rest mem sq shut ops x x' new first fine prelude armed calls sized =>
    obtain ⟨equipped, unreleased⟩ := live.of_acts tcp prelude.acts
    refine ⟨armed.equipped equipped, ?_⟩
    change x'.history.released = false
    rw [armed.history]
    exact unreleased
  | spawned first some' state received => exact live.of_acts tcp (.single (.received received))
  | @flushed c rest mem sq shut ops x x' first fine state flag sent called calls sized =>
    exact live.of_acts tcp
      (Session.written_acts sent called)
  | @asyncArmed mem sq shut x new waiting armed sized =>
    refine ⟨armed.equipped live.1, ?_⟩
    change x.history.released = false
    rw [armed.history]
    exact live.2
  | begun waiting => exact live
  | called running called call sized => exact live.of_acts tcp (.single (.call called))
  | received first flag fits =>
    refine ⟨?_, live.2⟩
    simpa [Connection.Equipped, Connection.deposit] using live.1
  | sent _ _ _ _ _ _ _ _ | closed _ _ _ => exact live
  | failed _ _ =>
    refine ⟨live.1, ?_⟩
    change History.released (if _ then _ else _) = false
    split_ifs <;> exact live.2

theorem Live.born (tcp : cfg.sendRecvMsg = false) (born : Born cfg rules exact' k v) : v.Live := by
  cases born with
  | entered entrance allowed => exact ⟨entrance.equipped, by rw [entrance.history]⟩
  | @welcomed v mem sq shut ops x x' new entrance called armed calls sized =>
    have live : v.Live := ⟨entrance.equipped, by rw [entrance.history]⟩
    obtain ⟨equipped, unreleased⟩ := live.of_acts tcp
      (Session.fired_acts called)
    refine ⟨armed.equipped equipped, ?_⟩
    change x'.history.released = false
    rw [armed.history]
    exact unreleased

end View

namespace Worker

variable {w w' : Worker} {cfg : Config} {streams : Streams} {o : Nat}

/-- A handler runs on the object in a goroutine, or the object waits in the queue. -/
def Held (w : Worker) (o : Nat) : Prop := (∃ t ∈ w.tasks, t.obj = o) ∨ o ∈ w.asyncOpQueue

/-- The object is a connection that is registered under its descriptor, has not been given up
and has nothing underway that could end it. -/
structure Kept (w : Worker) (o : Nat) : Prop where
  registered : w.connections.lookup (w.heap o).fd = some o
  connection : o ∉ w.connPool.items
  buffers : (w.heap o).Equipped
  unreleased : (w.histories (w.heap o).life).released = false
  quiet : ∀ q ∈ w.outstanding, q.key = (w.heap o).fd → q.flag = .addConn

/-- In every state of an orderly run the connections held by handlers or by the queue are kept. -/
theorem run_kept_of_orderly (tcp : cfg.sendRecvMsg = false)
    (started : start cfg streams = some w) {ls : List Label} (ran : run step ls w = some w')
    (along : Along step (Orderly {}) ls w) : ∀ o, w'.Held o → w'.Kept o := by
  have lasting : Lasting cfg {} False (fun _ v => v.Live) (fun _ => True) :=
    ⟨.born tcp, fun _ live move => live.move tcp move, fun _ _ _ => trivial, fun _ => trivial⟩
  have lives := run_lives lasting tcp started ran along
  have regular := run_regular tcp started ran along
  intro o held
  have busy : w'.tasksOf o ≠ [] ∨ w'.asyncOpQueue.count o ≠ 0 := by
    rcases held with ⟨t, member, rfl⟩ | member
    · refine Or.inl (ne_nil_of_mem (mem_filter.mpr ⟨member, ?_⟩))
      simp
    · exact Or.inr (Nat.pos_iff_ne_zero.mp (count_pos_iff.mpr member))
  obtain ⟨k, found⟩ : ∃ k, w'.connections.lookup k = some o := by
    by_contra none'
    rw [not_exists] at none'
    obtain ⟨tasks, queued⟩ := regular.free none'
    exact busy.elim (fun some' => some' tasks) fun some' => some' queued
  have other : k ≠ w'.cfg.listener := by
    rintro rfl
    obtain ⟨_, _, tasks, queued⟩ := regular.listener found
    exact busy.elim (fun some' => some' tasks) fun some' => some' queued
  have tidy := regular.tidy found other
  have fd : (w'.heap o).fd = k := tidy.fd
  obtain ⟨equipped, unreleased⟩ := lives.current other found
  refine ⟨?_, regular.sane.free found, equipped, unreleased, ?_⟩
  · rw [fd]
    exact found
  · intro q member key
    by_contra flag
    rw [fd] at key
    have none' := (tidy.waits busy).1
    have mine : q ∈ (w'.view k o).requests := by
      rcases mem_append.mp member with underway | completed
      · exact mem_append_right _ (mem_filter.mpr ⟨underway, by simpa using key⟩)
      · obtain ⟨c, place, rfl⟩ := mem_map.mp completed
        refine mem_append_left _ (mem_map_of_mem (mem_filter.mpr ⟨place, ?_⟩))
        simpa using ⟨key, flag⟩
    rw [none'] at mine
    cases mine

/-- A consumer that runs its handlers in goroutines. -/
def spawning : Config := { plain .consumer with asyncHandler := true }

/-- A connection receives two bytes and its handler is left to a goroutine. -/
def handlerSpawned : List Label :=
  admission ++ ([.endBatch, .asyncWrite {}, .turn [] 1 .done, .peek, .endBatch, .asyncWrite {},
    .complete 0 2 false [1, 2] none, .turn [] 0 .done, .peek, .event {}] : List Label)

theorem run_kept_of_orderly_handlerSpawned : ∃ w w', start spawning keepNothing = some w ∧
    run step handlerSpawned w = some w' ∧ w'.Held 0 ∧ ∀ o, w'.Held o → w'.Kept o := by
  have started : start spawning keepNothing = some (init spawning keepNothing) := rfl
  have along : Along step (Orderly {}) handlerSpawned (init spawning keepNothing) := by decide
  have seen : (run step handlerSpawned (init spawning keepNothing)).map
      (fun w => w.tasks.map Task.obj) = some [0] := by decide
  obtain ⟨w', ran, seen⟩ := Option.map_eq_some_iff.mp seen
  obtain ⟨t, only, obj⟩ := map_eq_singleton_iff.mp seen
  refine ⟨_, w', started, ran, Or.inl ⟨t, ?_, obj⟩, run_kept_of_orderly rfl started ran along⟩
  rw [only]
  exact mem_singleton_self t

/-- The connection of the handler is swept, and given up when the close completes. -/
def sweptWhileHandled : List Label :=
  handlerSpawned ++ ([.endBatch, .asyncWrite {}, .shutdown, .turn [(5, true)] 1 .done, .peek,
    .endBatch, .asyncWrite {}, .complete 1 0 false [] none, .turn [] 0 .done, .peek,
    .event {}] : List Label)

theorem run_not_kept : ∃ w w', start spawning keepNothing = some w ∧
    run step sweptWhileHandled w = some w' ∧ w'.Held 0 ∧ ¬ w'.Kept 0 := by
  obtain ⟨w, w', started, ran, t, member, obj, free⟩ : ∃ w w', start spawning keepNothing = some w ∧
      run step sweptWhileHandled w = some w' ∧ ∃ t ∈ w'.tasks, t.obj = 0 ∧ 0 ∈ w'.connPool.items :=
    exists_run (by decide)
  exact ⟨w, w', started, ran, Or.inl ⟨t, member, obj⟩, fun kept => kept.connection free⟩

end Worker

end Gain
