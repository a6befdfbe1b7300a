import Gain.Worker.Orderly

/-! # New connections, and the listener

A new connection is entered under a descriptor that has no entry, and starts with
nothing underway. The listener of a shard has an entry of its own, on which
nothing but accepts is underway.
-/

namespace Gain

open Function List

namespace Worker

variable {w w₁ w' : Worker} {k fd : Int} {o : Nat} {rules : Rules} {exact' : Prop} {env : Env}
  {err : Option Error} {key : Int} {base : Connection} {c : Cqe} {cq : List Cqe}
  {syscallClose : Bool} {ops : List ConnOp}

/-- A regular worker becomes another one by moves, births and ends of connections, and
is regular in between. -/
def Leads (rules : Rules) (exact' : Prop) (w w' : Worker) : Prop :=
  w'.Regular rules ∧ Relation.ReflTransGen
    (fun v v' : Worker => v'.Regular rules ∧ Evolution rules exact' v v') w w'

theorem Leads.refl (regular : w.Regular rules) : Leads rules exact' w w := ⟨regular, .refl⟩

theorem Leads.one (step : w'.Regular rules ∧ Evolution rules exact' w w') :
    Leads rules exact' w w' :=
  ⟨step.1, .single step⟩

theorem Leads.trans (first : Leads rules exact' w w₁) (second : Leads rules exact' w₁ w') :
    Leads rules exact' w w' :=
  ⟨second.1, first.2.trans second.2⟩

theorem Leads.carried (regular : w.Regular rules)
    (ground : w'.Ground) (carried : Carried rules exact' w w') : Leads rules exact' w w' :=
  .one ⟨regular.carried ground carried, carried.evolution regular.sane⟩

/-- Nothing but the loop's own state has changed. -/
theorem Leads.loop (regular : w.Regular rules)
    (same : w' = { w with
      closing := w'.closing, releaseFdSet := w'.releaseFdSet, phase := w'.phase
      shutdowning := w'.shutdowning, inProgress := w'.inProgress, accepting := w'.accepting
      shut := w'.shut }) : Leads rules exact' w w' := by
  rw [same]
  exact .carried regular { regular.toGround with sane := { regular.sane with } }
    (.of_same rfl rfl rfl rfl rfl rfl rfl (fun _ => rfl) (fun _ => rfl) (Or.inl ⟨rfl, rfl⟩))

/-! ## Births -/

/-- A connection has been entered under a new descriptor. -/
structure Admitted (w : Worker) (fd : Int) (o : Nat) (w' : Worker) : Prop where
  touched : Touched fd o w.nextLife w w'
  ground : w'.Ground
  found : w'.connections.lookup fd = some o
  unused : ∀ k, w.connections.lookup k ≠ some o
  nextLife : w'.nextLife = w.nextLife + 1
  life : (w'.heap o).life = w.nextLife
  entrance : ∀ {exact' : Prop}, (exact' → w'.Exact) → (w'.view fd o).Entrance fd exact'

/-- Before it is used, an entered object has the state of a free one. -/
theorem Entered.invalid (entered : Entered w key fd o base w') (ground : w.Ground) :
    base.state = .invalid ∧ base.closed = false ∧ base.network = .tcp := by
  rcases entered.source with ⟨member, rfl, _⟩ | ⟨_, rfl, _⟩
  · obtain ⟨state, closed⟩ := ground.pool o member
    exact ⟨state, closed, ground.sane.stream o⟩
  · exact ⟨rfl, rfl, rfl⟩

theorem Entered.ground (entered : Entered w key fd o base w') (ground : w.Ground) : w'.Ground := by
  obtain ⟨_, notMem, sub⟩ := ground.sane.pool_sub entered.toTaken
  have sane := entered.sane ground.sane
  have pool : ∀ i ∈ w'.connPool.items,
      (w'.heap i).state = .invalid ∧ (w'.heap i).closed = false := by
    intro i member
    have ne : i ≠ o := by
      rintro rfl
      exact notMem member
    rw [entered.others i ne]
    exact ground.pool i (sub i member)
  rw [entered.frame] at sane pool ⊢
  exact { ground with sane := sane, pool := pool }

theorem Ground.setConn (ground : w.Ground) (found : w.connections.lookup k = some o)
    {c : Connection} (sane : (w.setConn o c).Sane) : (w.setConn o c).Ground := by
  refine { ground with sane := sane, pool := fun i member => ?_ }
  have ne : i ≠ o := by
    rintro rfl
    exact ground.sane.free found member
  change (update w.heap o c i).state = _ ∧ (update w.heap o c i).closed = _
  rw [update_of_ne ne]
  exact ground.pool i member

/-- A new entry is admitted. -/
theorem Regular.admitted (regular : w.Regular rules) (fresh : w.cfg.Fresh fd)
    (absent : w.connections.lookup fd = none) (addressed : Addressed w fd o w') :
    Admitted w fd o w' := by
  have sane' := (regular.sane.addressed addressed).1
  obtain @⟨w₁, localAddr, remoteAddr, addresses, got⟩ := addressed
  rcases get_cases w regular.sane.poolBound fd fd with
    ⟨o', found, _⟩ | ⟨o', base, w₂, entered, same⟩
  · rw [absent] at found
    cases found
  · cases got.symm.trans same
    obtain ⟨inbound, outbound, conn⟩ := entered.conn
    obtain ⟨state, closed, network⟩ := entered.invalid regular.toGround
    have unused : ∀ k, w.connections.lookup k ≠ some o :=
      fun k found => regular.sane.unused entered.toTaken found rfl
    obtain ⟨todo, completed⟩ := regular.quiet absent fresh.other
    obtain ⟨tasks, queued⟩ := regular.free unused
    have ground := entered.ground regular.toGround
    have placed : (w₁.setConn o { w₁.heap o with
        fd := fd, localAddr := localAddr, remoteAddr := remoteAddr }).Sane :=
      ground.sane.setConn (ground.sane.bound entered.lookup_self) rfl rfl rfl rfl rfl
    have ground' := ground.setConn entered.lookup_self placed
    have touched : Touched fd o w.nextLife w w₁ := touched_entered entered
    have after : Touched fd o w.nextLife w₁ (w₁.setConn o { w₁.heap o with
        fd := fd, localAddr := localAddr, remoteAddr := remoteAddr }) := touched_setConn _
    have heap : ({ w₁.setConn o { w₁.heap o with
        fd := fd, localAddr := localAddr, remoteAddr := remoteAddr } with
        socketAddresses := addresses } : Worker).heap o = { w₁.heap o with
        fd := fd, localAddr := localAddr, remoteAddr := remoteAddr } := update_self ..
    have life : (w₁.heap o).life = w.nextLife := entered.life
    have queues : w₁.underway = w.underway ∧ w₁.cq = w.cq ∧ w₁.tasks = w.tasks ∧
        w₁.asyncOpQueue = w.asyncOpQueue ∧ w₁.histories = w.histories := by
      rw [entered.frame]
      exact ⟨rfl, rfl, rfl, rfl, rfl⟩
    obtain ⟨underway, cq, tasks', queue, histories⟩ := queues
    refine ⟨touched.trans { after with }, { ground' with sane := sane' }, entered.lookup_self,
      unused, ?_, ?_, ?_⟩
    · change w₁.nextLife = _
      rw [entered.frame]
    · rw [heap]
      exact life
    · intro exact' sized
      refine ⟨idle_of_queues underway cq tasks' queue ⟨todo, completed, tasks, queued⟩, ?_, ?_, ?_,
        ?_, ?_, ?_, ?_⟩
      · rw [view, heap]
      · rw [view, heap]
        change (w₁.heap o).network = .tcp
        rw [conn]
        exact network
      · rw [view, heap]
        change (w₁.heap o).state = .invalid
        rw [conn]
        exact state
      · rw [view, heap]
        change (w₁.heap o).closed = false
        rw [conn]
        exact closed
      · rw [view, heap]
        change w₁.histories (w₁.heap o).life = {}
        rw [histories, life]
        exact regular.sane.unborn _ le_rfl
      · intro assumed
        have blank := (entered.blank regular.sane.shelved).2 (sized assumed)
        rw [view, heap]
        exact blank
      · rw [view, heap]
        change (w₁.heap o).Equipped
        rw [conn]
        exact ⟨rfl, rfl⟩

/-- A new connection that is not announced. -/
theorem Regular.entered (regular : w.Regular rules) (fresh : w.cfg.Fresh fd)
    (admitted : Admitted w fd o w') (absent : w.connections.lookup fd = none)
    (failing : rules.failing) (sized : exact' → w'.Exact) : Leads rules exact' w w' :=
  .one (regular.born admitted.ground fresh admitted.touched absent admitted.found
    admitted.unused (.entered (admitted.entrance sized) failing) admitted.nextLife admitted.life)

/-- A new connection that is announced and armed. -/
theorem Regular.welcomed (regular : w.Regular rules) (fresh : w.cfg.Fresh fd)
    (admitted : Admitted w fd o w₁) (absent : w.connections.lookup fd = none) {sqe : Nat → Bool}
    (welcomed : Welcomed w₁ env sqe o err w') (calls : ∀ op ∈ env.handler, rules.call op)
    (sized : exact' → w'.Exact) : Leads rules exact' w w' := by
  obtain @⟨x, x', err, called, arming⟩ := welcomed
  have tcp := admitted.ground.sane.tcp
  obtain ⟨new, armed, _, spent⟩ := arming.prepared tcp
  have before : Session.Acts w₁.cfg (w₁.session o) x := Session.fired_acts called
  have acts : Session.Acts w₁.cfg (w₁.session o) x' := before.trans arming.acts
  have frame := acts.frame tcp
  have entrance : (w₁.view fd o).Entrance fd exact' :=
    admitted.entrance fun assumed => frame.exact_before (sized assumed)
  have pushed : x'.sq = Chains.pushAll w₁.sq new := by
    rw [armed.sq, (Session.calls_still called).sq]
    rfl
  have own : ∀ q ∈ new, q.key = fd := by
    intro q member
    rw [armed.own.1 q member, (before.frame tcp).fd]
    exact entrance.fd
  have ground := admitted.ground.setSession admitted.found frame pushed own
    (armed.own.2.imp id fun joined => ⟨joined, entrance.idle.todo⟩)
  have after := touched_setSession frame pushed own
  rw [admitted.life] at after
  have view := view_setSession frame pushed own
  refine .one (regular.born ground fresh (admitted.touched.trans after) absent admitted.found
    admitted.unused ?_ admitted.nextLife ?_)
  · rw [view, ← admitted.touched.cfg]
    exact .welcomed entrance called armed calls sized spent
  · have conn := congrArg (fun v => v.conn.life) view
    exact conn.trans (frame.life.trans admitted.life)

/-- A hand-off is taken up. -/
theorem Regular.handedOver (regular : w.Regular rules)
    (fresh : w.cfg.Fresh fd) (absent : w.connections.lookup fd = none)
    (handed : HandedOver w env fd err w') (calls : ∀ op ∈ env.handler, rules.call op)
    (sized : exact' → w'.Exact) : Leads rules exact' w w' := by
  obtain ⟨addressed, welcomed⟩ := handed
  exact regular.welcomed fresh (regular.admitted fresh absent addressed) absent welcomed calls
    sized

/-! ## The listener -/

theorem get_found (found : w.connections.lookup key = some o) (fd : Int) :
    w.get key fd = (o, w) := by
  rw [get, found]

theorem Ground.prepareAccept (ground : w.Ground) : w.prepareAccept.Ground := by
  refine ⟨ground.sane.prepareAccept, ground.std, ground.queue, ground.news, ?_, ground.pool⟩
  have pushed : w.prepareAccept.sq = Chains.pushAll w.sq
      [{ flag := .accept, key := w.cfg.listener, fd := w.cfg.listener }] := rfl
  rw [pushed]
  refine ground.solo.pushAll (Or.inl rfl) fun q _ q' added same => ?_
  rw [mem_singleton.mp added] at same
  exact same

variable (regular : w.Regular rules)
include regular

/-- A completed accept is taken. -/
theorem Regular.popListener (shard : w.cfg.kind = .shard) (first : w.cq = c :: cq)
    (key : c.sqe.key = w.cfg.listener) (phase : Phase) : Leads rules exact' w (w.pop phase cq) := by
  refine .carried regular (regular.toGround.pop first phase)
    (.of_same rfl rfl rfl rfl rfl rfl rfl (fun _ => rfl) ?_ (Or.inr ⟨shard, ?_, ?_⟩))
  · intro k ne
    have touched : Touched w.cfg.listener 0 0 w (w.pop phase cq) := touched_pop first key phase
    exact touched.completed ne
  · exact regular.accepts.1
  · intro d member
    refine regular.accepts.2 d ?_
    obtain ⟨place, mine⟩ := mem_filter.mp member
    refine mem_filter.mpr ⟨?_, mine⟩
    rw [first]
    exact mem_cons_of_mem _ place

/-- The next accept is prepared. -/
theorem Regular.prepareAccept
    (shard : w.cfg.kind = .shard) : Leads rules exact' w w.prepareAccept := by
  have pushed : w.prepareAccept.underway = w.underway ++ [_] := underway_push w _
  refine .carried regular regular.toGround.prepareAccept
    (.of_same rfl rfl rfl rfl rfl rfl rfl ?_ (fun _ => rfl)
      (Or.inr ⟨shard, ?_, regular.accepts.2⟩))
  · intro k ne
    rw [todo, pushed]
    exact underway_filter_append (by simp) ne
  · intro q member
    rw [todo, pushed, filter_append] at member
    rcases mem_append.mp member with old | added
    · exact regular.accepts.1 q old
    · rw [mem_singleton.mp (mem_filter.mp added).1]

/-- The listener is armed again. -/
theorem Regular.rearmed_eq {i : Nat} (found : w.connections.lookup w.cfg.listener = some i)
    (rearmed : Rearmed w o w') : w' = w.prepareAccept := by
  obtain @⟨w₁, got⟩ := rearmed
  cases got.symm.trans (get_found (w := w.prepareAccept) found _)
  have same : { w.heap o with state := .accept } = w.heap o := by
    have state := (regular.listener found).1
    generalize w.heap o = c at state ⊢
    cases c
    cases state
    rfl
  change w.prepareAccept.setConn o { w.heap o with state := .accept } = _
  rw [same, setConn]
  change { w.prepareAccept with heap := update w.heap o (w.heap o) } = _
  rw [update_eq_self]
  rfl

/-- The entry of the listener is given up. -/
theorem Regular.listenerClosed (shard : w.cfg.kind = .shard)
    (failing : rules.failing) (found : w.connections.lookup w.cfg.listener = some o)
    (ended : w.closeConn o syscallClose err ops = some w') : Leads rules exact' w w' := by
  have apart := regular.sane.apart found
  have closed := closeConn_closed regular.sane found ended
  obtain ⟨_, _, tasks, queued⟩ := regular.listener found
  refine .one ⟨regular.touchedListener (closed.ground regular.toGround) closed.touched apart shard
    ⟨?_, ?_⟩ ⟨?_, ?_⟩ ?_ (absurd failing), closed.touched.evolutionListener regular.sane apart
    ?_ ?_ ?_⟩
  · rw [todo, closed.underway]
    exact regular.accepts.1
  · rw [completed, closed.cq]
    exact regular.accepts.2
  · rw [tasksOf, closed.tasks]
    exact tasks
  · rw [closed.queue]
    exact queued
  · intro i after
    rw [closed.absent] at after
    cases after
  · intro l le lt
    rw [closed.nextLife] at lt
    exact absurd lt (not_lt.mpr le)
  · intro _ silent
    rw [closed.history]
    exact ⟨silent.closes, silent.closeCalled, Or.inr ⟨failing, err, by rw [silent.word]; rfl⟩⟩
  · intro i after
    rw [closed.absent] at after
    cases after

/-- An accept completes for a listener that has no entry: one is made and given up. -/
theorem Regular.phantom (shard : w.cfg.kind = .shard)
    (entered : Entered w w.cfg.listener fd o base w₁)
    (ended : w₁.closeConn o syscallClose err ops = some w') : Leads rules exact' w w' := by
  have failing : rules.failing := by
    by_contra never
    obtain ⟨i, found⟩ := regular.listening never shard
    rw [entered.absent] at found
    cases found
  have ground := entered.ground regular.toGround
  have unused : ∀ k, w.connections.lookup k ≠ some o :=
    fun k found => regular.sane.unused entered.toTaken found rfl
  have apart := regular.sane.apart_new entered.absent unused
  have closed := closeConn_closed ground.sane entered.lookup_self ended
  have history := closed.history
  have second := closed.touched
  rw [entered.life] at second history
  have touched := (touched_entered entered).trans second
  have fields : w₁.underway = w.underway ∧ w₁.cq = w.cq ∧ w₁.tasks = w.tasks ∧
      w₁.asyncOpQueue = w.asyncOpQueue ∧ w₁.histories = w.histories ∧
      w₁.nextLife = w.nextLife + 1 := by
    rw [entered.frame]
    exact ⟨rfl, rfl, rfl, rfl, rfl, rfl⟩
  obtain ⟨underway, cq, tasks, queue, histories, nextLife⟩ := fields
  obtain ⟨tasks', queued'⟩ := regular.free unused
  refine .one ⟨regular.touchedListener (closed.ground ground) touched apart shard
    ⟨?_, ?_⟩ ⟨?_, ?_⟩ ?_ (absurd failing), touched.evolutionListener regular.sane apart ?_ ?_ ?_⟩
  · rw [todo, closed.underway, underway]
    exact regular.accepts.1
  · rw [completed, closed.cq, cq]
    exact regular.accepts.2
  · rw [tasksOf, closed.tasks, tasks]
    exact tasks'
  · rw [closed.queue, queue]
    exact queued'
  · intro i after
    rw [closed.absent] at after
    cases after
  · intro l le lt
    rw [closed.nextLife, nextLife] at lt
    obtain rfl : l = w.nextLife := le_antisymm (Nat.lt_succ_iff.mp lt) le
    rw [history, histories, regular.sane.unborn _ le_rfl]
    exact ⟨rfl, rfl, Or.inr ⟨failing, err, rfl⟩⟩
  · intro found
    rw [entered.absent] at found
    cases found
  · intro i after
    rw [closed.absent] at after
    cases after

/-! ## Events -/

/-- A completion is one of a registered connection, or of the listener. -/
theorem Regular.completion_cases (member : c ∈ w.cq) (flag : c.sqe.flag ≠ .addConn) :
    (w.cfg.kind = .shard ∧ c.sqe.key = w.cfg.listener ∧ c.sqe.flag = .accept) ∨
      (c.sqe.key ≠ w.cfg.listener ∧ ∃ o, w.connections.lookup c.sqe.key = some o ∧
        c ∈ (w.view c.sqe.key o).done) := by
  have mine : c ∈ w.completed c.sqe.key := mem_filter.mpr ⟨member, by simpa using flag⟩
  by_cases key : c.sqe.key = w.cfg.listener
  · refine Or.inl ⟨?_, key, ?_⟩
    · cases kind : w.cfg.kind with
      | shard => rfl
      | consumer =>
        rw [key, (regular.consumer kind).2.2] at mine
        cases mine
    · rw [key] at mine
      exact regular.accepts.2 c mine
  · refine Or.inr ⟨key, ?_⟩
    cases found : w.connections.lookup c.sqe.key with
    | some o => exact ⟨o, rfl, mine⟩
    | none =>
      rw [(regular.quiet found key).2] at mine
      cases mine

/-- A completion with an error, which nothing looks at. -/
theorem Regular.dropped (first : w.cq = c :: cq) (phase : Phase) (flag : c.sqe.flag ≠ .addConn)
    (other : c.sqe.key ≠ w.cfg.listener) (found : w.connections.lookup c.sqe.key = some o)
    (error : c.res < 0) : Leads rules exact' w (w.pop phase cq) := by
  have head : (w.view c.sqe.key o).done = c :: (w.pop phase cq).completed c.sqe.key :=
    completed_of_first first rfl flag phase
  exact .one (regular.moved (regular.toGround.pop first phase) other
    (touched_pop first rfl phase) found found (.dropped head error) rfl)

/-- A hand-off is announced on the ring. -/
theorem Regular.popAnnounced (first : w.cq = c :: cq) (phase : Phase)
    (flag : c.sqe.flag = .addConn) : Leads rules exact' w (w.pop phase cq) := by
  have same : ∀ k, (w.pop phase cq).completed k = w.completed k := by
    intro k
    rw [completed, completed, first, filter_cons_of_neg]
    · rfl
    · simp [flag]
  exact .carried regular (regular.toGround.pop first phase)
    (.of_same rfl rfl rfl rfl rfl rfl rfl (fun _ => rfl) (fun _ => same _)
      (Or.inl ⟨rfl, same _⟩))

theorem Regular.stopped : Leads rules exact' w w.stop := by
  obtain ⟨shut, same⟩ := stop_eq w
  rw [same]
  exact .loop regular rfl

/-- An accept has completed: the next one is prepared, and the new connection entered. -/
theorem Regular.accepted (shard : w.cfg.kind = .shard)
    (found : w.connections.lookup w.cfg.listener = some o) (fresh : w.cfg.Fresh c.res)
    (absent : w.connections.lookup c.res = none) (calls : ∀ op ∈ env.handler, rules.call op)
    (welcoming : rules.failing ∨ w.Welcoming env) (accepted : Accepted w env c err w₁)
    (ended : w₁.endOnError env o err = some w') (sized : exact' → w'.Exact) :
    Leads rules exact' w w' := by
  -- an error gives up the listener's entry
  have close : ∀ {err : Error}, Leads rules exact' w w₁ → w₁.cfg = w.cfg → rules.failing →
      w₁.connections.lookup w.cfg.listener = some o →
      w₁.closeConn o true (some err) env.onClose = some w' → Leads rules exact' w w' := by
    intro err first same failing kept closed
    refine first.trans (first.1.listenerClosed ?_ failing ?_ closed)
    · rw [same]
      exact shard
    · rw [same]
      exact kept
  have keeps := (regular.sane.accepted accepted).2 found
  have before : ∀ {err : Error}, w₁.closeConn o true (some err) env.onClose = some w' →
      exact' → w₁.Exact := by
    intro err closed assumed
    have sane := (regular.sane.accepted accepted).1
    exact (closeConn_closed sane keeps closed).exact_of (sized assumed)
  have same := accepted.cfg
  have ready : Leads rules exact' w w.prepareAccept := regular.prepareAccept shard
  cases accepted with
  | refused err full =>
    have failing : rules.failing := by
      refine welcoming.resolve_right fun welcoming => ?_
      rw [welcoming.accept] at full
      cases full
    exact close (.loop regular rfl) rfl failing found ended
  | @failed i i' w₂ w₁ err free reason rearmed addressed =>
    have failing : rules.failing := by
      refine welcoming.resolve_right fun welcoming => ?_
      rcases reason with ⟨chosen, refused⟩ | ⟨chosen, refused⟩
      · exact refused (welcoming.incomingCpu chosen)
      · exact refused (welcoming.keepAlive chosen)
    obtain rfl := regular.rearmed_eq found rearmed
    have admitted := ready.1.admitted fresh absent addressed
    refine close (ready.trans (ready.1.entered fresh admitted absent failing ?_)) same failing
      keeps ended
    exact before ended
  | @welcomed i i' w₂ w₃ w₁ err free rearmed addressed welcomed =>
    obtain rfl := regular.rearmed_eq found rearmed
    have admitted := ready.1.admitted fresh absent addressed
    cases err with
    | none =>
      cases ended
      exact ready.trans (ready.1.welcomed fresh admitted absent welcomed calls sized)
    | some err =>
      have failing : rules.failing := by
        refine welcoming.resolve_right fun welcoming => ?_
        cases welcomed.armed welcoming.arm.1 welcoming.arm.2
      refine close (ready.trans (ready.1.welcomed fresh admitted absent welcomed calls ?_))
        same failing keeps ended
      exact before ended

omit regular

/-- A connection in no known state is given up. -/
theorem Served.of_invalid (served : Served w env c o w') (invalid : (w.heap o).state = .invalid) :
    ∃ err, w.closeConn o true (some err) env.onClose = some w' := by
  have other : ∀ {state}, (w.heap o).state = state → state = .invalid :=
    fun same => same.symm.trans invalid
  cases served with
  | unknown state ended => exact ⟨_, ended⟩
  | eof state _ _ | spawned state _ _ _ | closed state _ _ | flushed state _ _ _
  | ignored state _ _ => cases other state
  | armed prelude _ | failed prelude _ _ =>
    rcases prelude.state.1 with state | state <;> cases other state

/-- An event of an orderly worker. -/
theorem Regular.handled (regular : w.Regular rules) (first : w.cq = c :: cq) (phase : Phase)
    (orderly : OrderlyEvent rules w env c) (handled : Handled (w.pop phase cq) env c w')
    (sized : exact' → w'.Exact) : Leads rules exact' w w' := by
  have member : c ∈ w.cq := by
    rw [first]
    exact mem_cons_self
  obtain ⟨announced, accepts⟩ := regular.news c member
  have notNew : c.res < 0 ∨ w.cfg.kind = .shard → c.sqe.flag ≠ .addConn := by
    rintro unlike flag
    obtain ⟨consumer, fresh⟩ := announced flag
    rcases unlike with error | shard
    · have := fresh.low
      omega
    · rw [shard] at consumer
      cases consumer
  cases handled with
  | @looked i w' error consumer got =>
    have flag := notNew (Or.inl error)
    rcases regular.completion_cases member flag with ⟨shard, _⟩ | ⟨other, o, found, _⟩
    · rw [show w.cfg.kind = .consumer from consumer] at shard
      cases shard
    · cases got.symm.trans (get_found (w := w.pop phase cq) found _)
      exact regular.dropped first phase flag other found error
  | dropped error shard =>
    have flag := notNew (Or.inl error)
    rcases regular.completion_cases member flag with ⟨shard, key, _⟩ | ⟨other, o, found, _⟩
    · exact regular.popListener shard first key phase
    · exact regular.dropped first phase flag other found error
  | skipped fine consumer flag small =>
    rcases regular.completion_cases member flag with ⟨shard, _⟩ | ⟨other, o, found, _⟩
    · rw [show w.cfg.kind = .consumer from consumer] at shard
      cases shard
    · have := (regular.fresh found other).low
      omega
  | @announced err w₁ fine consumer flag handed =>
    obtain ⟨_, fresh⟩ := announced flag
    have popped : Leads rules exact' w (w.pop phase cq) := regular.popAnnounced first phase flag
    have absent := orderly.unregistered (Or.inl flag) fine
    have sized₁ : exact' → w₁.Exact := by
      intro assumed
      have after := sized assumed
      cases err with
      | none => exact after
      | some err =>
        obtain ⟨shut, same⟩ := stop_eq w₁
        simp only [Option.isSome_some, if_true, same] at after
        exact after
    have born := popped.trans (popped.1.handedOver fresh absent handed orderly.calls sized₁)
    cases err with
    | none => exact born
    | some err => exact born.trans born.1.stopped
  | @served i w₁ w' fine kind got stream served =>
    have flag : c.sqe.flag ≠ .addConn := by
      cases same : w.cfg.kind with
      | consumer => exact (kind same).1
      | shard => exact notNew (Or.inr same)
    rcases regular.completion_cases member flag with ⟨shard, key, _⟩ | ⟨other, o, found, _⟩
    · rw [key] at got
      have popped : Leads rules exact' w (w.pop phase cq) :=
        regular.popListener shard first key phase
      rcases get_cases (w.pop phase cq) regular.sane.poolBound w.cfg.listener w.cfg.listener with
        ⟨o', found, same⟩ | ⟨o', base, w₂, entered, same⟩
      · cases got.symm.trans same
        exact absurd (regular.listener found).1 (stream shard)
      · cases got.symm.trans same
        have invalid : (w₁.heap i).state = .invalid := by
          obtain ⟨inbound, outbound, conn⟩ := entered.conn
          rw [conn]
          exact (entered.invalid popped.1.toGround).1
        obtain ⟨err, ended⟩ := served.of_invalid invalid
        exact popped.trans (popped.1.phantom shard entered ended)
    · cases got.symm.trans (get_found (w := w.pop phase cq) found _)
      exact .one (regular.served first phase orderly rfl other flag found fine served sized)
  | @accepted i err w₁ w₂ w' fine shard got state accepted ended =>
    rcases regular.completion_cases member (notNew (Or.inr shard)) with
      ⟨_, key, flag⟩ | ⟨other, o, found, _⟩
    · rw [key] at got
      have popped : Leads rules exact' w (w.pop phase cq) :=
        regular.popListener shard first key phase
      rcases get_cases (w.pop phase cq) regular.sane.poolBound w.cfg.listener w.cfg.listener with
        ⟨o', found, same⟩ | ⟨o', base, w₂, entered, same⟩
      · cases got.symm.trans same
        refine popped.trans (popped.1.accepted shard found (accepts flag fine) ?_ ?_ ?_
          accepted
          ended sized)
        · exact orderly.unregistered (Or.inr flag) fine
        · exact orderly.calls
        · exact (orderly.welcoming flag fine).imp id fun welcoming =>
            ⟨welcoming.accept, welcoming.arm, welcoming.incomingCpu, welcoming.keepAlive⟩
      · cases got.symm.trans same
        obtain ⟨inbound, outbound, conn⟩ := entered.conn
        rw [conn] at state
        cases (entered.invalid popped.1.toGround).1.symm.trans state
    · cases got.symm.trans (get_found (w := w.pop phase cq) found _)
      exact absurd state (regular.tidy found other).shape.ne_accept

end Worker

end Gain
