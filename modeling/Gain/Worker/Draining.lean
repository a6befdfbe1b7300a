import Gain.Worker.Reuse

/-! # The end of a worker

After the shutdown sweep nothing new is requested: the completions of what is
underway are handled, and the loop ends when the close of every swept connection
has been handled.
-/

namespace Gain

open Function List

/-- What happened in a life is not undone. -/
structure History.Grows (h h' : History) : Prop where
  closes : h.closes ≤ h'.closes
  word : ∀ callback ∈ h.word, callback ∈ h'.word
  released : h.released = true → h'.released = true

theorem History.Grows.refl (h : History) : h.Grows h := ⟨le_rfl, fun _ => id, id⟩

/-- The descriptor was closed, `OnClose` was fired and the entry released. -/
structure History.Disposed (h : History) : Prop where
  closes : 1 ≤ h.closes
  word : ∃ err, .onClose err ∈ h.word
  released : h.released = true

theorem History.Disposed.grows {h h' : History} (disposed : h.Disposed) (grows : h.Grows h') :
    h'.Disposed := by
  obtain ⟨err, fired⟩ := disposed.word
  exact ⟨disposed.closes.trans grows.closes, ⟨err, grows.word _ fired⟩,
    grows.released disposed.released⟩

namespace Worker

variable {w w' : Worker} {k : Int} {o : Nat} {key skipped : Int} {rest : List (Int × Bool)}
  {w₁ : Worker}

/-! ## The sweep -/

/-- What a sweep with a free submission entry for every connection does. -/
structure Sweep (keys : List Int) (skipped : Int) (w w' : Worker) : Prop where
  frame : w' = { w with heap := w'.heap, sq := w'.sq, releaseFdSet := w'.releaseFdSet }
  heap : ∀ i, w'.heap i = w.heap i ∨
    (∃ k, w.connections.lookup k = some i) ∧ w'.heap i = { w.heap i with state := .close }
  fds : ∀ fd ∈ w.releaseFdSet, fd ∈ w'.releaseFdSet
  swept : ∀ {k i}, k ∈ keys → w.connections.lookup k = some i → (w.heap i).fd ≠ skipped →
    (w'.heap i).state = .close ∧ (w.heap i).fd ∈ w'.releaseFdSet
  underway : ∀ q ∈ w'.underway, q ∈ w.underway ∨
    ∃ k i, w.connections.lookup k = some i ∧ (w.heap i).fd ≠ skipped ∧
      q = (w.session i).closing

/-- One connection is swept. -/
theorem sweepOne_sweep (found : w.connections.lookup k = some o) (kept : (w.heap o).fd ≠ skipped) :
    Sweep [k] skipped w (w.sweepOne o) := by
  rw [sweepOne_eq]
  refine ⟨rfl, ?_, fun fd member => Finset.mem_insert_of_mem member, ?_, ?_⟩
  · intro i
    by_cases same : i = o
    · subst same
      exact Or.inr ⟨⟨k, found⟩, update_self ..⟩
    · exact Or.inl (update_of_ne same ..)
  · intro k' i member found' _
    rw [mem_singleton.mp member, found] at found'
    cases found'
    refine ⟨?_, Finset.mem_insert_self ..⟩
    change (update w.heap o _ o).state = _
    rw [update_self]
  · intro q member
    change q ∈ { w with sq := w.sq.push (w.session o).closing }.underway at member
    rw [underway_push] at member
    rcases mem_append.mp member with old | new
    · exact Or.inl old
    · exact Or.inr ⟨k, o, found, kept, mem_singleton.mp new⟩

/-- One more connection is swept. -/
theorem Sweep.cons {keys : List Int} (first : Sweep [k] skipped w w₁)
    (rest : Sweep keys skipped w₁ w') : Sweep (k :: keys) skipped w w' := by
  have same : w₁.connections = w.connections := by rw [first.frame]
  have fd : ∀ i, (w₁.heap i).fd = (w.heap i).fd ∧ (w₁.heap i).life = (w.heap i).life := by
    intro i
    rcases first.heap i with kept | ⟨_, kept⟩ <;> rw [kept] <;> exact ⟨rfl, rfl⟩
  have closed : ∀ {i}, (w₁.heap i).state = .close → (w'.heap i).state = .close := by
    intro i state
    rcases rest.heap i with kept | ⟨_, kept⟩
    · rw [kept]
      exact state
    · rw [kept]
  refine ⟨?_, ?_, fun fd' member => rest.fds fd' (first.fds fd' member), ?_, ?_⟩
  · rw [rest.frame, first.frame]
  · intro i
    rcases rest.heap i with kept | ⟨⟨k', found⟩, kept⟩
    · rw [kept]
      exact first.heap i
    · rw [same] at found
      refine Or.inr ⟨⟨k', found⟩, ?_⟩
      rcases first.heap i with before | ⟨_, before⟩ <;> rw [kept, before]
  · intro k' i member found kept
    rcases mem_cons.mp member with here | later
    · obtain ⟨state, listed⟩ := first.swept (mem_singleton.mpr here) found kept
      exact ⟨closed state, rest.fds _ listed⟩
    · rw [← (fd i).1] at kept ⊢
      rw [← same] at found
      exact rest.swept later found kept
  · intro q member
    rcases rest.underway q member with old | ⟨k', i, found, kept, rfl⟩
    · exact first.underway q old
    · rw [same] at found
      rw [(fd i).1] at kept
      refine Or.inr ⟨k', i, found, kept, ?_⟩
      simp only [Session.closing, Session.entry, session, (fd i).1, (fd i).2]

/-- `closeConns` sweeps all it is given. -/
theorem closeConns_sweep (w : Worker) (skipped : Int) (order : List (Int × Bool))
    (free : ∀ e ∈ order, e.2 = true) :
    Sweep (order.map Prod.fst) skipped w (w.closeConns skipped order) := by
  induction order generalizing w with
  | nil =>
    exact ⟨rfl, fun _ => Or.inl rfl, fun _ => id, (fun none' => nomatch none'), fun _ => Or.inl⟩
  | cons entry order ih =>
    obtain ⟨key, here⟩ := entry
    obtain rfl : here = true := free _ mem_cons_self
    have later : ∀ e ∈ order, e.2 = true := fun e member => free e (mem_cons_of_mem _ member)
    rcases closeConns_cases w skipped key true order with ⟨same, skip⟩ | ⟨o, found, kept, same⟩
    · rw [same]
      have rest := ih w later
      refine ⟨rest.frame, rest.heap, rest.fds, ?_, rest.underway⟩
      intro k i member found kept
      rcases mem_cons.mp member with rfl | member
      · exact absurd (skip rfl i found) kept
      · exact rest.swept member found kept
    · rw [same]
      exact (sweepOne_sweep found kept).cons (ih _ later)

/-! ## After the sweep -/

/-- The sweep is over and nothing can be requested or entered any more, but an entry that a late
completion is looked up under. -/
structure Draining (w : Worker) : Prop where
  inProgress : w.inProgress = true
  connQueue : w.connQueue = []
  tasks : w.tasks = []
  asyncs : w.asyncOpQueue = []
  news : ∀ c ∈ w.cq, 0 ≤ c.res → c.sqe.flag ≠ .addConn ∧ c.sqe.flag ≠ .accept
  accepts : ∀ q ∈ w.underway, q.key = w.cfg.listener → q.flag = .accept
  accepted : ∀ c ∈ w.cq, c.sqe.key = w.cfg.listener → c.sqe.flag = .accept
  pool : w.Rested
  states : ∀ {k i}, w.connections.lookup k = some i → k ≠ w.cfg.listener →
    (w.heap i).state = .close ∨ (w.heap i).state = .invalid

/-- A connection of the sweep waits for its close, or is disposed of. -/
inductive Swept (k : Int) (o life : Nat) (w : Worker) : Prop
  | waiting (found : w.connections.lookup k = some o) (same : (w.heap o).life = life)
      (state : (w.heap o).state = .close) (listed : k ∈ w.releaseFdSet)
      (own : ∀ q ∈ w.underway, q.key = k → q.flag = .close → q.life = life)
      (closed : ClosedIn w.cq k → 1 ≤ (w.histories life).closes) : Swept k o life w
  | ceased (disposed : (w.histories life).Disposed) : Swept k o life w

theorem Swept.disposed {life : Nat} (swept : Swept k o life w) (all : w.allClosed = true) :
    (w.histories life).Disposed := by
  cases swept with
  | waiting found same state listed own closed =>
    have none' : w.releaseFdSet = ∅ := by
      rw [allClosed, Bool.and_eq_true] at all
      exact of_decide_eq_true all.2
    rw [none'] at listed
    cases listed
  | ceased disposed => exact disposed

variable {life : Nat} {c : Cqe} {cq : List Cqe} {fd : Int} {base : Connection} {i : Nat}
  {err : Option Error} {syscallClose : Bool} {ops : List ConnOp} {x : Session}

/-- Only the loop, the queues or another life have changed. -/
theorem Swept.of_frame (swept : Swept k o life w) (connections : w'.connections = w.connections)
    (heap : (w'.heap o).life = (w.heap o).life ∧ (w'.heap o).state = (w.heap o).state)
    (listed : w'.releaseFdSet = w.releaseFdSet) (underway : ∀ q ∈ w'.underway, q ∈ w.underway)
    (closed : ClosedIn w'.cq k → ClosedIn w.cq k)
    (grows : (w.histories life).Grows (w'.histories life)) : Swept k o life w' := by
  cases swept with
  | waiting found same state here own closes =>
    refine .waiting ?_ (heap.1.trans same) (heap.2.trans state) ?_ ?_ ?_
    · rw [connections]
      exact found
    · rw [listed]
      exact here
    · exact fun q member => own q (underway q member)
    · exact fun waits => (closes (closed waits)).trans grows.closes
  | ceased disposed => exact .ceased (disposed.grows grows)

theorem Draining.pop (draining : w.Draining) (first : w.cq = c :: cq) (phase : Phase) :
    (w.pop phase cq).Draining := by
  have sub : ∀ d ∈ cq, d ∈ w.cq := by
    rw [first]
    exact fun d member => mem_cons_of_mem _ member
  exact { draining with
    news := fun d member => draining.news d (sub d member)
    accepted := fun d member => draining.accepted d (sub d member) }

/-- The registry has changed, and the loop has not. -/
theorem Draining.of_registry (draining : w.Draining) (registers : Registers w w')
    (pool : w'.Rested) (states : ∀ {k i}, w'.connections.lookup k = some i → k ≠ w.cfg.listener →
      (w'.heap i).state = .close ∨ (w'.heap i).state = .invalid) : w'.Draining := by
  rw [registers] at pool ⊢
  exact { draining with pool := pool, states := states }

/-- A late completion is looked up under a key that is not registered. -/
theorem Draining.entered (draining : w.Draining) (sane : w.Sane)
    (entered : Entered w key fd o base w') : w'.Draining ∧ (w'.heap o).state = .invalid := by
  obtain ⟨pool, state⟩ := draining.pool.entered sane.toIndexed entered
  refine ⟨draining.of_registry entered.registers pool ?_, state⟩
  intro k i found ne
  rcases entered.lookup_cases found with ⟨_, rfl⟩ | ⟨_, before⟩
  · exact Or.inr state
  · rw [entered.others i (sane.unused entered.toTaken before)]
    exact draining.states before ne

/-- A new entry leaves the swept one alone. -/
theorem Swept.entered (swept : Swept k o life w) (sane : w.Sane)
    (entered : Entered w key fd i base w') : Swept k o life w' := by
  cases swept with
  | waiting found same state listed own closed =>
    have heap := entered.others o (sane.unused entered.toTaken found)
    have ne : k ≠ key := by
      rintro rfl
      cases entered.absent.symm.trans found
    have kept : w'.connections.lookup k = some o := (entered.lookup_ne ne).trans found
    rw [← heap] at same state
    rw [entered.frame] at kept ⊢
    exact .waiting kept same state listed own closed
  | ceased disposed =>
    rw [entered.frame]
    exact .ceased disposed

theorem ClosedConn.grows (closed : ClosedConn w k o err w') (life : Nat) :
    (w.histories life).Grows (w'.histories life) := by
  by_cases mine : life = (w.heap o).life
  · subst mine
    rw [closed.history]
    exact ⟨le_rfl, fun _ member => mem_append_left _ member, fun _ => rfl⟩
  · rw [closed.touched.histories mine]
    exact .refl _

/-- A connection is given up; if it is this one, its descriptor was closed. -/
theorem Swept.closeConn (swept : Swept k o life w) (sane : w.Sane)
    (found : w.connections.lookup key = some i)
    (mine : k = key → (w.heap i).state = .close → 1 ≤ (w.histories life).closes)
    (done : w.closeConn i syscallClose err ops = some w') : Swept k o life w' := by
  have closed := closeConn_closed sane found done
  have grows := closed.grows life
  have fds : w'.releaseFdSet = w.releaseFdSet.erase key := by
    rw [(sane.ended found done).frame]
    rfl
  have touched := closed.touched
  cases swept with
  | waiting found' same state listed own closes =>
    by_cases other : k = key
    · subst other
      cases found.symm.trans found'
      have history := closed.history
      rw [same] at history
      refine .ceased ⟨(mine rfl state).trans grows.closes, ⟨err, ?_⟩, ?_⟩
      · rw [history]
        exact mem_append_right _ (mem_singleton_self _)
      · rw [history]
    · have apart : o ≠ i := by
        rintro rfl
        exact other (sane.inj found' found)
      have heap := touched.heap apart (sane.bound found')
      refine .waiting ?_ ?_ ?_ ?_ ?_ ?_
      · rw [touched.lookup other]
        exact found'
      · rw [heap]
        exact same
      · rw [heap]
        exact state
      · rw [fds]
        exact Finset.mem_erase_of_ne_of_mem other listed
      · rw [closed.underway]
        exact own
      · rw [closed.cq]
        exact fun waits => (closes waits).trans grows.closes
  | ceased disposed => exact .ceased (disposed.grows grows)

/-- Code works on a connection and requests nothing. -/
theorem setSession_state (obj : x.obj = o) (state : x.conn.state = (w.heap o).state) (i : Nat) :
    ((w.setSession x).heap i).state = (w.heap i).state := by
  subst obj
  by_cases same : i = x.obj
  · subst same
    change (update w.heap x.obj x.conn x.obj).state = _
    rw [update_self, state]
  · change (update w.heap x.obj x.conn i).state = _
    rw [update_of_ne same]

/-- Code works on a connection. -/
theorem Draining.session (draining : w.Draining) (obj : x.obj = o)
    (state : x.conn.state = (w.heap o).state) (sq : x.sq = w.sq) : (w.setSession x).Draining := by
  have underway : (w.setSession x).underway = w.underway := by
    change (w.inflight ++ x.sq).flatten = _
    rw [sq]
    rfl
  have states := setSession_state (w := w) obj state
  refine ⟨draining.inProgress, draining.connQueue, draining.tasks, draining.asyncs, draining.news,
    ?_, draining.accepted, ?_, ?_⟩
  · rw [underway]
    exact draining.accepts
  · intro i member
    rw [states i]
    exact draining.pool i member
  · intro k i found ne
    rw [states i]
    exact draining.states found ne

theorem Draining.closeConn (draining : w.Draining) (sane : w.Sane)
    (found : w.connections.lookup k = some o)
    (done : w.closeConn o syscallClose err ops = some w') :
    w'.Draining := by
  have ended := draining.session (x := (w.session o).ended syscallClose err) rfl rfl rfl
  have sane' := sane.setSession (sane.bound found) (Session.ended_frame _ syscallClose err)
  have released := sane.ended found done
  refine ended.of_registry released.registers (ended.pool.released released) ?_
  intro k' i found' ne
  obtain ⟨_, before, _, same⟩ := sane'.of_released released found'
  rw [same]
  exact ended.states before ne

/-- A session on any connection leaves the swept one swept. -/
theorem Swept.session (swept : Swept k o life w) (obj : x.obj = i)
    (same : x.conn.life = (w.heap i).life) (state : x.conn.state = (w.heap i).state)
    (sq : x.sq = w.sq) (grows : (w.histories (w.heap i).life).Grows x.history) :
    Swept k o life (w.setSession x) := by
  subst obj
  refine swept.of_frame rfl ⟨?_, setSession_state rfl state o⟩ rfl ?_ id ?_
  · by_cases mine : o = x.obj
    · subst mine
      change (update w.heap x.obj x.conn x.obj).life = _
      rw [update_self, same]
    · change (update w.heap x.obj x.conn o).life = _
      rw [update_of_ne mine]
  · intro q member
    change q ∈ (w.inflight ++ x.sq).flatten at member
    rw [sq] at member
    exact member
  · change (w.histories life).Grows (update w.histories x.conn.life x.history life)
    by_cases mine : life = x.conn.life
    · rw [mine, update_self, same]
      exact grows
    · rw [update_of_ne mine]
      exact .refl _

variable {env : Env} {q : Sqe} {res : Int} {data : List UInt8} {inflight : Chains}
  {order : List (Int × Bool)} {rules : Rules}

/-- A completion is handled for a connection that closes, or for an entry made for it. -/
theorem Draining.served (draining : w.Draining) (sane : w.Sane)
    (found : w.connections.lookup key = some i)
    (state : (w.heap i).state = .close ∨ (w.heap i).state = .invalid) (fine : 0 ≤ c.res)
    (served : Served w env c i w') :
    w'.Draining ∧ ∀ {k o life}, Swept k o life w →
      (k = key → c.closes = true → 1 ≤ (w.histories life).closes) → Swept k o life w' := by
  have other : ∀ {state' : ConnState} {p : Prop}, (w.heap i).state = state' → state' ≠ .close →
      state' ≠ .invalid → p := by
    intro state' p same closing invalid
    rcases state with state | state
    · exact absurd (same.symm.trans state) closing
    · exact absurd (same.symm.trans state) invalid
  cases served with
  | eof state' _ _ | spawned state' _ _ _ => exact other state' (by decide) (by decide)
  | armed prelude _ | failed prelude _ _ =>
    rcases prelude.state.1 with state' | state' <;> exact other state' (by decide) (by decide)
  | closed state' flag ended =>
    refine ⟨draining.closeConn sane found ended, fun swept mine => ?_⟩
    refine swept.closeConn sane found (fun same _ => mine same ?_) ended
    simp [Cqe.closes, flag, fine]
  | @flushed x₁ x state' flag sent called =>
    have acts : Session.Acts w.cfg (w.session i) x := Session.written_acts sent called
    have frame := acts.frame sane.tcp
    have still := Session.calls_still called
    obtain ⟨_, _, _, _, rfl⟩ := Session.onKernelWrite_eq sent
    refine ⟨draining.session frame.obj still.state still.sq, fun swept _ => ?_⟩
    refine swept.session frame.obj frame.life still.state still.sq ⟨frame.closes.ge, ?_, ?_⟩
    · rw [still.word]
      exact fun callback member => mem_append_left _ member
    · intro released
      exact frame.released.trans released
  | ignored state' _ _ => exact ⟨draining, fun swept _ => swept⟩
  | unknown state' ended =>
    refine ⟨draining.closeConn sane found ended, fun swept _ => ?_⟩
    refine swept.closeConn sane found (fun _ closing => ?_) ended
    rcases state' with state' | state' <;> cases state'.symm.trans closing

/-- An event after the sweep. -/
theorem Draining.event (draining : w.Draining) (sane : w.Sane)
    (first : w.cq = c :: cq) (phase : Phase) (handled : Handled (w.pop phase cq) env c w') :
    w'.Draining ∧ ∀ {k o life}, Swept k o life w → Swept k o life w' := by
  have member : c ∈ w.cq := by
    rw [first]
    exact mem_cons_self
  have popped := draining.pop first phase
  have sane₁ : (w.pop phase cq).Sane := { sane with }
  have swept₁ : ∀ {k o life}, Swept k o life w → Swept k o life (w.pop phase cq) := by
    intro k o life swept
    refine swept.of_frame rfl ⟨rfl, rfl⟩ rfl (fun _ => id) ?_ (.refl _)
    rintro ⟨d, later, closes⟩
    rw [first]
    exact ⟨d, mem_cons_of_mem _ later, closes⟩
  have mine : ∀ {k o life}, Swept k o life w → k = c.sqe.key → c.closes = true →
      1 ≤ (w.histories life).closes := by
    intro k o life swept same closes
    cases swept with
    | waiting found _ _ _ _ closed => exact closed ⟨c, member, closes, same.symm⟩
    | ceased disposed => exact disposed.closes
  have listener : 0 ≤ c.res → c.sqe.key ≠ w.cfg.listener := fun fine key =>
    (draining.news c member fine).2 (draining.accepted c member key)
  cases handled with
  | @looked i w' error consumer got =>
    rcases get_cases (w.pop phase cq) sane.poolBound c.sqe.key 0 with
      ⟨_, _, same⟩ | ⟨_, base, w₁, entered, same⟩
    · cases got.symm.trans same
      exact ⟨popped, swept₁⟩
    · cases got.symm.trans same
      exact ⟨(popped.entered sane₁ entered).1, fun swept => (swept₁ swept).entered sane₁ entered⟩
  | dropped _ _ | skipped _ _ _ _ => exact ⟨popped, swept₁⟩
  | announced fine consumer flag handed => exact absurd flag (draining.news c member fine).1
  | @served i w₁ w' fine kind got stream served =>
    rcases get_cases (w.pop phase cq) sane.poolBound c.sqe.key c.sqe.key with
      ⟨_, found, same⟩ | ⟨_, base, w₂, entered, same⟩
    · cases got.symm.trans same
      obtain ⟨after, keeps⟩ := popped.served sane₁ found
        (popped.states found (listener fine)) fine served
      exact ⟨after, fun swept => keeps (swept₁ swept) (mine swept)⟩
    · cases got.symm.trans same
      obtain ⟨between, invalid⟩ := popped.entered sane₁ entered
      have histories : w₁.histories = w.histories := by
        rw [entered.frame]
        rfl
      obtain ⟨after, keeps⟩ := between.served (entered.sane sane₁) entered.lookup_self
        (Or.inr invalid) fine served
      refine ⟨after, fun swept => keeps ((swept₁ swept).entered sane₁ entered) ?_⟩
      rw [histories]
      exact mine swept
  | @accepted i err w₁ w₂ w' fine shard got state accepted ended =>
    rcases get_cases (w.pop phase cq) sane.poolBound c.sqe.key c.sqe.key with
      ⟨_, found, same⟩ | ⟨_, base, w₂, entered, same⟩
    · cases got.symm.trans same
      rcases popped.states found (listener fine) with other | other <;>
        cases state.symm.trans other
    · cases got.symm.trans same
      cases state.symm.trans (popped.entered sane₁ entered).2

/-- What the execution of a request leaves of the connections, and what it adds to the
histories. -/
theorem Executed.keeps (executed : Executed w q res data w') :
    (∀ i, (w'.heap i).state = (w.heap i).state ∧ (w'.heap i).life = (w.heap i).life) ∧
      (∀ life, (w.histories life).Grows (w'.histories life)) ∧
      (q.flag = .close → 0 ≤ res → 1 ≤ (w'.histories q.life).closes) := by
  have grows : ∀ (l life : Nat) (f : History → History), (w.histories l).Grows (f (w.histories l)) →
      (w.histories life).Grows (update w.histories l (f (w.histories l)) life) := by
    intro l life f more
    by_cases same : life = l
    · subst same
      rw [update_self]
      exact more
    · rw [update_of_ne same]
      exact .refl _
  have other : ∀ {flag : Flag} {p : Prop}, q.flag = flag → flag ≠ .close → q.flag = .close → p := by
    intro flag p same ne closing
    exact absurd (same.symm.trans closing) ne
  cases executed with
  | error error flag =>
    exact ⟨fun _ => ⟨rfl, rfl⟩, fun _ => .refl _, fun _ fine => absurd error (not_lt.mpr fine)⟩
  | sendError error flag nothing =>
    refine ⟨fun _ => ⟨rfl, rfl⟩, fun life => ?_, other flag (by decide)⟩
    exact grows q.life life (fun h => { h with sendFailed := true }) ⟨le_rfl, fun _ => id, id⟩
  | accepted fine flag _ _ | received fine flag _ _ =>
    exact ⟨fun _ => ⟨rfl, rfl⟩, fun _ => .refl _, other flag (by decide)⟩
  | sent fine flag fits bytes =>
    refine ⟨fun _ => ⟨rfl, rfl⟩, fun life => ?_, other flag (by decide)⟩
    exact grows q.life life (fun h => { h with taken := h.taken ++ data })
      ⟨le_rfl, fun _ => id, id⟩
  | closed fine flag =>
    refine ⟨fun _ => ⟨rfl, rfl⟩, fun life => ?_, fun _ _ => ?_⟩
    · exact grows q.life life (fun h => { h with closes := h.closes + 1 })
        ⟨Nat.le_succ _, fun _ => id, id⟩
    · change 1 ≤ (update w.histories q.life _ q.life).closes
      rw [update_self]
      exact Nat.le_add_left ..

/-- What is underway after a completion was underway before. -/
theorem Executed.left {chain : Nat} {old new : List Sqe} (executed : Executed w q res data w')
    (found : w.inflight[chain]? = some old) (sub : ∀ q' ∈ new, q' ∈ old) :
    ∀ q' ∈ (w'.inflight.set chain new ++ w'.sq).flatten, q' ∈ w.underway := by
  obtain ⟨inflight, sq, _⟩ := executed.queues
  rw [inflight, sq]
  intro q' place
  have after : q' ∈ underway { w with inflight := w.inflight.set chain new, cq := w.cq } := place
  exact mem_underway_of_set found sub after

/-- A request completes after the sweep. -/
theorem Draining.executed (draining : w.Draining) (executed : Executed w q res data w₁)
    (member : q ∈ w.underway) (refused : q.flag = .accept → res < 0) {nonempty : Bool}
    {rest' left' : List Sqe} {cqes : List Cqe}
    (settles : Settles ⟨q, res, nonempty, data⟩ rest' left' cqes)
    (others : ∀ q' ∈ rest', q' ∈ w.underway)
    (left : ∀ q' ∈ (inflight ++ w₁.sq).flatten, q' ∈ w.underway) :
    { w₁ with inflight := inflight, cq := w₁.cq ++ cqes }.Draining ∧
      ∀ {k o life}, Swept k o life w →
        Swept k o life { w₁ with inflight := inflight, cq := w₁.cq ++ cqes } := by
  obtain ⟨heap, grows, closes⟩ := executed.keeps
  have new : ∀ c ∈ w.cq ++ cqes,
      c ∈ w.cq ∨ c = ⟨q, res, nonempty, data⟩ ∨ ∃ q' ∈ w.underway, c = q'.cancelled := by
    intro c place
    refine (mem_append.mp place).imp_right fun place => ?_
    refine (settles.cases c place).imp_right ?_
    rintro ⟨q', behind, rfl⟩
    exact ⟨q', others q' behind, rfl⟩
  rw [executed.frame] at left ⊢
  refine ⟨{ draining with news := ?_, accepts := ?_, accepted := ?_, pool := ?_, states := ?_ }, ?_⟩
  · intro c place fine
    rcases new c place with old | rfl | ⟨q', _, rfl⟩
    · exact draining.news c old fine
    · exact ⟨executed.flag, fun accept => absurd (refused accept) (not_lt.mpr fine)⟩
    · exact absurd fine (by decide : ¬ 0 ≤ ecanceled)
  · exact fun q' place => draining.accepts q' (left q' place)
  · intro c place key
    rcases new c place with old | rfl | ⟨q', old, rfl⟩
    · exact draining.accepted c old key
    · exact draining.accepts q member key
    · exact draining.accepts q' old key
  · exact fun i place => (heap i).1.trans (draining.pool i place)
  · intro k i found ne
    change (w₁.heap i).state = _ ∨ (w₁.heap i).state = _
    rw [(heap i).1]
    exact draining.states found ne
  · intro k o life swept
    cases swept with
    | waiting found same state listed own closed =>
      refine .waiting found ((heap o).2.trans same) ((heap o).1.trans state) listed
        (fun q' place => own q' (left q' place)) ?_
      rintro ⟨c, place, done, key⟩
      rcases new c place with old | rfl | ⟨q', _, rfl⟩
      · exact (closed ⟨c, old, done, key⟩).trans (grows life).closes
      · obtain ⟨close, fine⟩ := of_decide_eq_true done
        have mine := own q member key close
        rw [← mine]
        exact closes close fine
      · rw [q'.cancelled_closes] at done
        cases done
    | ceased disposed => exact .ceased (disposed.grows (grows life))

/-- No connection comes in. -/
def Undisturbed (w : Worker) : Label → Prop
  | .handOff _ _ => False
  | .complete chain res _ _ _ => ∀ q rest, w.inflight[chain]? = some (q :: rest) →
      q.flag = .accept → res < 0
  | _ => True

instance (w : Worker) : (label : Label) → Decidable (w.Undisturbed label)
  | .handOff _ _ => isFalse id
  | .complete chain res _ _ _ =>
    match found : w.inflight[chain]? with
    | some (q :: rest) => decidable_of_iff (q.flag = .accept → res < 0)
        ⟨fun refused q' rest' head => by
          cases found.symm.trans head
          exact refused, fun all => all q rest found⟩
    | some [] => isTrue fun _ _ head => nomatch found.symm.trans head
    | none => isTrue fun _ _ head => nomatch found.symm.trans head
  | .shutdown | .turn _ _ _ | .peek | .event _ | .endBatch | .newConn _ | .asyncWrite _
  | .taskBegin _ | .taskCall _ _ | .taskEnd _ => isTrue trivial

/-- The loop goes on, and nothing of what matters here has changed. -/
theorem Draining.of_loop (draining : w.Draining) {sq : Chains} {phase : Phase} {shut : List Int}
    {shutdowning : Bool} (same : (inflight ++ sq).flatten = (w.inflight ++ w.sq).flatten) :
    { w with
      inflight := inflight, sq := sq, phase := phase, shut := shut
      shutdowning := shutdowning }.Draining ∧
      ∀ {k o life}, Swept k o life w → Swept k o life { w with
        inflight := inflight, sq := sq, phase := phase, shut := shut
        shutdowning := shutdowning } := by
  refine ⟨{ draining with accepts := ?_ }, fun swept => ?_⟩
  · change ∀ q ∈ (inflight ++ sq).flatten, _
    rw [same]
    exact draining.accepts
  · refine swept.of_frame rfl ⟨rfl, rfl⟩ rfl ?_ id (.refl _)
    change ∀ q ∈ (inflight ++ sq).flatten, _
    rw [same]
    exact fun _ => id

/-- Every step after the sweep, unless a connection comes in. -/
theorem Draining.step (draining : w.Draining) (sane : w.Sane)
    {label : Label} (undisturbed : w.Undisturbed label) (stepped : Stepped w label w') :
    w'.Draining ∧ ∀ {k o life}, Swept k o life w → Swept k o life w' := by
  have noTask : ∀ {i : Nat} {t : Task}, w.tasks[i]? ≠ some t := by
    intro i t
    simp [draining.tasks]
  cases stepped with
  | shutdown => exact draining.of_loop rfl
  | @turn order chains result phase shut top all kept =>
    have ceased : w.shutdownHandler order = w := by
      unfold shutdownHandler needToShutdown
      simp [draining.inProgress]
    rw [ceased]
    refine draining.of_loop ?_
    rw [append_assoc, take_append_drop]
  | @event env left c cq w' phase first handled =>
    exact draining.event sane first (.events left) handled
  | paced quiet running kept => exact draining.of_loop rfl
  | newConn phase first handed =>
    rw [draining.connQueue] at first
    cases first
  | asyncWrite phase first arming =>
    rw [draining.asyncs] at first
    cases first
  | @completed chain res nonempty data peer q rest left cqes w₁ found executed settles =>
    have member := mem_underway_of_getElem? found mem_cons_self
    have others : ∀ q' ∈ rest, q' ∈ w.underway := fun q' behind =>
      mem_underway_of_getElem? found (mem_cons_of_mem q behind)
    exact draining.executed executed member (undisturbed q rest found) settles others
      (executed.left found settles.sub)
  | handOff consumer nonneg small closed announced => exact undisturbed.elim
  | taskBegin found | taskCall found _ | taskEnd found _ => exact absurd found noTask

/-! ## From the sweep to the end -/

/-- There is a free submission entry for every connection, no handler runs in a goroutine or waits
for its next request, and no connection waits to be entered. -/
@[mk_iff]
structure Clear (w : Worker) (order : List (Int × Bool)) : Prop where
  free : ∀ e ∈ order, e.2 = true
  tasks : w.tasks = []
  asyncs : w.asyncOpQueue = []
  connQueue : w.connQueue = []
  news : ∀ c ∈ w.cq, 0 ≤ c.res → c.sqe.flag ≠ .addConn ∧ c.sqe.flag ≠ .accept

instance (w : Worker) (order : List (Int × Bool)) : Decidable (w.Clear order) :=
  decidable_of_iff' _ (w.clear_iff order)

theorem shutdownHandler_sweep (free : ∀ e ∈ order, e.2 = true) (needed : w.needToShutdown = true) :
    ∃ accepting shut w₁, w.shutdownHandler order = { w₁ with inProgress := true } ∧
      Sweep (order.map Prod.fst) w.skipped
        { w with closing := true, releaseFdSet := ∅, accepting := accepting, shut := shut } w₁ := by
  unfold shutdownHandler onCloseHandler skipped
  rw [if_pos needed]
  cases w.cfg.kind with
  | consumer => exact ⟨w.accepting, w.shut, _, rfl, closeConns_sweep _ _ order free⟩
  | shard => exact ⟨_, _, _, rfl, closeConns_sweep _ _ order free⟩

/-- The sweep leaves out no connection but the listener. -/
theorem Regular.kept (regular : w.Regular rules) (other : k ≠ w.cfg.listener)
    (found : w.connections.lookup k = some o) : (w.heap o).fd = k ∧ (w.heap o).fd ≠ w.skipped := by
  have fd : (w.heap o).fd = k := (regular.tidy found other).fd
  refine ⟨fd, ?_⟩
  rw [fd, skipped]
  cases w.cfg.kind with
  | consumer =>
    have := (regular.fresh found other).low
    change k ≠ -1
    omega
  | shard => exact other

/-- After a sweep that found the way clear the worker drains, and every connection it found was
swept. -/
theorem Clear.draining (clear : w.Clear order) (regular : w.Regular rules)
    (needed : w.needToShutdown = true) (all : (order.map Prod.fst).Perm w.connections.keys)
    (closes : ∀ {k o}, k ≠ w.cfg.listener → w.connections.lookup k = some o → (w.view k o).Closes)
    (chains : Nat) (phase : Phase) (shut : List Int) :
    ((w.shutdownHandler order).submit chains phase shut).Draining ∧
      ∀ {k o}, k ≠ w.cfg.listener → w.connections.lookup k = some o →
        Swept k o (w.heap o).life ((w.shutdownHandler order).submit chains phase shut) := by
  obtain ⟨accepting, shut', w₁, same, sweep⟩ := shutdownHandler_sweep clear.free needed
  have listed : ∀ {k o}, w.connections.lookup k = some o → k ∈ order.map Prod.fst := by
    intro k o found
    exact all.symm.subset (AList.mem_keys.mpr (AList.lookup_isSome.mp (by rw [found]; rfl)))
  have swept : ∀ {k o}, k ≠ w.cfg.listener → w.connections.lookup k = some o →
      (w₁.heap o).state = .close ∧ k ∈ w₁.releaseFdSet := by
    intro k o other found
    obtain ⟨fd, kept⟩ := regular.kept other found
    obtain ⟨state, member⟩ := sweep.swept (listed found) found kept
    exact ⟨state, fd ▸ member⟩
  have after : w₁.cfg = w.cfg ∧ w₁.connections = w.connections ∧ w₁.connPool = w.connPool ∧
      w₁.cq = w.cq ∧ w₁.connQueue = w.connQueue ∧ w₁.tasks = w.tasks ∧
      w₁.asyncOpQueue = w.asyncOpQueue ∧ w₁.histories = w.histories := by
    rw [sweep.frame]
    exact ⟨rfl, rfl, rfl, rfl, rfl, rfl, rfl, rfl⟩
  obtain ⟨cfg, connections, pool, cq, connQueue, tasks, asyncs, histories⟩ := after
  have underway : ((w.shutdownHandler order).submit chains phase shut).underway = w₁.underway := by
    rw [underway_submit, same]
    rfl
  rw [same] at underway ⊢
  refine ⟨⟨rfl, connQueue.trans clear.connQueue, tasks.trans clear.tasks,
    asyncs.trans clear.asyncs, ?_, ?_, ?_, ?_, ?_⟩, ?_⟩
  · change ∀ c ∈ w₁.cq, _
    rw [cq]
    exact clear.news
  · rw [underway]
    change ∀ q ∈ w₁.underway, q.key = w₁.cfg.listener → _
    rw [cfg]
    intro q member key
    rcases sweep.underway q member with old | ⟨k, i, found, kept, rfl⟩
    · exact regular.accepts.1 q (mem_filter.mpr ⟨old, by simpa using key⟩)
    · change w.connections.lookup k = some i at found
      have other := regular.ne_listener found kept
      exact absurd ((regular.kept other found).1.symm.trans key) other
  · change ∀ c ∈ w₁.cq, c.sqe.key = w₁.cfg.listener → _
    rw [cq, cfg]
    intro c member key
    have flag : c.sqe.flag ≠ .addConn := by
      intro announced
      have fresh := ((regular.news c member).1 announced).2.low
      exact (clear.news c member (by omega)).1 announced
    exact regular.accepts.2 c (mem_filter.mpr ⟨member, by simpa using ⟨key, flag⟩⟩)
  · change ∀ i ∈ w₁.connPool.items, (w₁.heap i).state = _
    rw [pool]
    intro i member
    rcases sweep.heap i with kept | ⟨⟨k, found⟩, _⟩
    · rw [kept]
      exact (regular.pool i member).1
    · exact absurd member (regular.sane.free found)
  · intro k i found other
    change w₁.connections.lookup k = some i at found
    change k ≠ w₁.cfg.listener at other
    rw [connections] at found
    rw [cfg] at other
    exact Or.inl (swept other found).1
  · intro k o other found
    have tidy := regular.tidy found other
    refine .waiting ?_ ?_ (swept other found).1 (swept other found).2 ?_ ?_
    · change w₁.connections.lookup k = some o
      rw [connections]
      exact found
    · change (w₁.heap o).life = _
      rcases sweep.heap o with kept | ⟨_, kept⟩ <;> rw [kept]
    · rw [underway]
      intro q member key flag
      rcases sweep.underway q member with old | ⟨k', i, found', kept, rfl⟩
      · have mine : q ∈ (w.view k o).requests :=
          mem_append_right _ (mem_filter.mpr ⟨old, by simpa using key⟩)
        exact (tidy.own q mine).2.2.2
      · have other' := regular.ne_listener found' kept
        obtain rfl : k' = k := (regular.kept other' found').1.symm.trans key
        cases found.symm.trans found'
        rfl
    · change ClosedIn w₁.cq k → 1 ≤ (w₁.histories _).closes
      rw [cq, histories]
      rintro ⟨c, member, done, key⟩
      have mine : c ∈ (w.view k o).done := by
        refine mem_filter.mpr ⟨member, ?_⟩
        simp [key, (of_decide_eq_true done).1]
      change 1 ≤ (w.view k o).history.closes
      rw [closes other found]
      exact countP_pos_iff.mpr ⟨c, mine, done⟩

variable {cfg : Config} {streams : Streams}

/-- In every run that is orderly before the sweep, finds the way clear for it and is undisturbed
afterwards, every connection the sweep found is disposed of when all are closed. -/
theorem run_disposed_of_clear (tcp : cfg.sendRecvMsg = false) (started : start cfg streams = some w)
    {before after : List Label} {w₁ w₂ w₃ : Worker} (ran : run step before w = some w₁)
    (along : Along step (Orderly {}) before w) (needed : w₁.needToShutdown = true)
    {order : List (Int × Bool)} {chains : Nat} {result : Submit} (clear : w₁.Clear order)
    (swept : step w₁ (.turn order chains result) = some w₂) (ran' : run step after w₂ = some w₃)
    (along' : Along step Undisturbed after w₂) (all : w₃.allClosed = true) :
    ∀ k o, w₁.connections.lookup k = some o → k ≠ w₁.cfg.listener →
      (w₃.histories (w₁.heap o).life).Disposed := by
  intro k o found other
  have lasting : Lasting cfg {} False (fun _ v => v.Closes) (fun _ => True) :=
    ⟨.born tcp, fun tidy closes move => closes.move tidy tcp move, fun _ _ _ => trivial,
      fun _ => trivial⟩
  have lives := run_lives lasting tcp started ran along
  have regular := run_regular tcp started ran along
  have stepped := step_stepped regular.sane.tcp swept
  have start' : w₂.Draining ∧ Swept k o (w₁.heap o).life w₂ := by
    cases stepped with
    | @turn order chains result phase shut top keys kept =>
      obtain ⟨draining, each⟩ := clear.draining regular needed (keys needed) lives.current chains
        phase shut
      exact ⟨draining, each other found⟩
    | paced quiet running kept =>
      rcases quiet with (label | label) | ⟨_, label, _⟩ | ⟨_, label, _⟩ <;> cases label
  have preserved : ∀ s l s', s.Sane → Undisturbed s l → Stepped s l s' →
      s.Draining ∧ Swept k o (w₁.heap o).life s →
      s'.Draining ∧ Swept k o (w₁.heap o).life s' := by
    rintro s l s' sane undisturbed stepped ⟨draining, swept⟩
    obtain ⟨draining', keeps⟩ := draining.step sane undisturbed stepped
    exact ⟨draining', keeps swept⟩
  have final := Sane.run preserved (regular.sane.step stepped) ran' along' start'
  exact final.2.2.disposed all

/-- A connection waits for data when the shutdown is requested. -/
def requested : List Label :=
  admission ++ ([.endBatch, .asyncWrite {}, .turn [] 1 .done, .peek, .endBatch, .asyncWrite {},
    .shutdown] : List Label)

/-- The close of the swept connection completes and the loop ends. -/
def drained : List Label :=
  [.peek, .endBatch, .asyncWrite {}, .complete 1 0 false [] none, .turn [] 0 .done, .peek,
    .event {}, .endBatch, .asyncWrite {}]

theorem run_disposed_of_clear_drained : ∃ w w₁ w₂ w₃,
    start (plain .consumer) keepNothing = some w ∧ run step requested w = some w₁ ∧
      step w₁ (.turn [(5, true)] 1 .done) = some w₂ ∧ run step drained w₂ = some w₃ ∧
      w₁.connections.lookup 5 = some 0 ∧ w₃.phase = .stopped ∧
      (w₃.histories (w₁.heap 0).life).Disposed := by
  obtain ⟨w, w₁, started, ran, along, needed, clear, found, other, seen⟩ : ∃ w w₁,
      start (plain .consumer) keepNothing = some w ∧ run step requested w = some w₁ ∧
      Along step (Orderly {}) requested w ∧ w₁.needToShutdown = true ∧ w₁.Clear [(5, true)] ∧
      w₁.connections.lookup 5 = some 0 ∧ 5 ≠ w₁.cfg.listener ∧
      ((step w₁ (.turn [(5, true)] 1 .done)).bind fun w₂ => (run step drained w₂).map fun w₃ =>
        decide (Along step Undisturbed drained w₂ ∧ w₃.allClosed = true ∧ w₃.phase = .stopped)) =
        some true := exists_run (by decide)
  obtain ⟨w₂, w₃, swept, ran', along', all, stopped⟩ := exists_run seen
  exact ⟨w, w₁, w₂, w₃, started, ran, swept, ran', found, stopped,
    run_disposed_of_clear rfl started ran along needed clear swept ran' along' all 5 0 found other⟩

/-- There is no free submission entry when the connection is swept. -/
theorem run_not_disposed : ∃ w w₁ w₂ w₃,
    start (plain .consumer) keepNothing = some w ∧ run step requested w = some w₁ ∧
      w₁.needToShutdown = true ∧ step w₁ (.turn [(5, false)] 0 .done) = some w₂ ∧
      run step [.peek, .endBatch, .asyncWrite {}] w₂ = some w₃ ∧ w₃.phase = .stopped ∧
      w₃.allClosed = true ∧ w₁.connections.lookup 5 = some 0 ∧
      ¬ (w₃.histories (w₁.heap 0).life).Disposed := by
  obtain ⟨w, w₁, started, ran, needed, found, life, seen⟩ : ∃ w w₁,
      start (plain .consumer) keepNothing = some w ∧ run step requested w = some w₁ ∧
      w₁.needToShutdown = true ∧ w₁.connections.lookup 5 = some 0 ∧ (w₁.heap 0).life = 0 ∧
      ((step w₁ (.turn [(5, false)] 0 .done)).bind fun w₂ =>
        (run step [.peek, .endBatch, .asyncWrite {}] w₂).map fun w₃ => decide (w₃.phase = .stopped ∧
          w₃.allClosed = true ∧ (w₃.histories 0).released = false)) = some true :=
    exists_run (by decide)
  obtain ⟨w₂, w₃, swept, ran', stopped, all, kept⟩ := exists_run seen
  refine ⟨w, w₁, w₂, w₃, started, ran, needed, swept, ran', stopped, all, found, fun disposed => ?_⟩
  rw [life] at disposed
  cases kept.symm.trans disposed.released

end Worker

end Gain
