import Gain.Worker.Regular

/-! # Orderly steps keep a worker regular

Each step of an orderly worker is a move, the birth or the end of one connection,
or concerns the listener, or nothing but the loop.
-/

namespace Gain

open Function List Session

namespace Worker

variable {w w' : Worker} {k : Int} {o : Nat} {rules : Rules} {exact' : Prop} {x : Session}
  {new : List Sqe} {c : Cqe} {cq : List Cqe} {life : Nat}

/-! ## One connection -/

/-- One connection moves. -/
theorem Regular.moved (regular : w.Regular rules) (ground : w'.Ground) (other : k ≠ w.cfg.listener)
    (touched : Touched k o (w.heap o).life w w') (before : w.connections.lookup k = some o)
    (after : w'.connections.lookup k = some o)
    (move : View.Move w.cfg rules exact' (w.view k o) (w'.view k o))
    (lives : w'.nextLife = w.nextLife) : w'.Regular rules ∧ Evolution rules exact' w w' := by
  have apart := regular.sane.apart before
  have slot : Slot rules exact' w w' k := .moved before after move
  refine ⟨regular.touched ground other touched apart slot ?_ ?_ ?_,
    touched.evolution regular.sane apart other slot ?_⟩
  · intro i found
    rw [after] at found
    cases found
    rfl
  · intro none'
    rw [before] at none'
    cases none'
  · intro none'
    rw [after] at none'
    cases none'
  · intro l le lt
    rw [lives] at lt
    exact absurd lt (not_lt.mpr le)

/-- One connection ends. -/
theorem Regular.ended (regular : w.Regular rules) (ground : w'.Ground) (other : k ≠ w.cfg.listener)
    (touched : Touched k o (w.heap o).life w w') (before : w.connections.lookup k = some o)
    (after : w'.connections.lookup k = none)
    (ends : View.Ends w.cfg rules (w.view k o) (w'.histories (w.heap o).life))
    (idle : (w'.view k o).Idle) (lives : w'.nextLife = w.nextLife) :
    w'.Regular rules ∧ Evolution rules exact' w w' := by
  have apart := regular.sane.apart before
  have slot : Slot rules exact' w w' k := .ended before after ends
  refine ⟨regular.touched ground other touched apart slot ?_ ?_ ?_,
    touched.evolution regular.sane apart other slot ?_⟩
  · intro i found
    rw [after] at found
    cases found
  · intro none'
    rw [before] at none'
    cases none'
  · exact fun _ => ⟨idle.todo, idle.done, idle.tasks, idle.queued⟩
  · intro l le lt
    rw [lives] at lt
    exact absurd lt (not_lt.mpr le)

/-- One connection is born. -/
theorem Regular.born (regular : w.Regular rules) (ground : w'.Ground) (fresh : w.cfg.Fresh k)
    (touched : Touched k o w.nextLife w w') (before : w.connections.lookup k = none)
    (after : w'.connections.lookup k = some o) (unused : ∀ k', w.connections.lookup k' ≠ some o)
    (born : View.Born w.cfg rules exact' k (w'.view k o)) (lives : w'.nextLife = w.nextLife + 1)
    (life : (w'.heap o).life = w.nextLife) : w'.Regular rules ∧ Evolution rules exact' w w' := by
  have apart := regular.sane.apart_new before unused
  have slot : Slot rules exact' w w' k := .born before after born
  refine ⟨regular.touched ground fresh.other touched apart slot ?_ (fun _ _ => fresh) ?_,
    touched.evolution regular.sane apart fresh.other slot ?_⟩
  · intro i found
    rw [after] at found
    cases found
    rfl
  · intro none'
    rw [after] at none'
    cases none'
  · intro l le lt
    rw [lives] at lt
    exact ⟨after, life.trans (le_antisymm le (Nat.lt_succ_iff.mp lt))⟩

/-! ## What the parts of a step touch -/

theorem underway_filter_append {l new : List Sqe} {k' : Int} (own : ∀ q ∈ new, q.key = k)
    (ne : k' ≠ k) : (l ++ new).filter (fun q => q.key = k') = l.filter fun q => q.key = k' := by
  have none' : new.filter (fun q => q.key = k') = [] := by
    rw [filter_eq_nil_iff]
    intro q member
    rw [own q member]
    simpa using ne.symm
  rw [filter_append, none', append_nil]

/-- Code touches one connection only. -/
theorem touched_setSession (frame : Session.Frame w.cfg (w.session o) x)
    (pushed : x.sq = Chains.pushAll w.sq new) (own : ∀ q ∈ new, q.key = k) :
    Touched k o (w.heap o).life w (w.setSession x) where
  __ := (Touched.refl : Touched k o (w.heap o).life w w)
  heap ne _ := by
    have obj : x.obj = o := frame.obj
    change update w.heap x.obj x.conn _ = _
    rw [obj, update_of_ne ne]
  todo ne := by
    rw [todo, underway_setSession w pushed]
    exact underway_filter_append own ne
  histories ne := by
    have life : x.conn.life = (w.heap o).life := frame.life
    change update w.histories x.conn.life x.history _ = _
    rw [life, update_of_ne ne]

theorem view_setSession (frame : Session.Frame w.cfg (w.session o) x)
    (pushed : x.sq = Chains.pushAll w.sq new) (own : ∀ q ∈ new, q.key = k) :
    (w.setSession x).view k o = (w.view k o).worked x new := by
  have obj : x.obj = o := frame.obj
  have todo : (w.setSession x).todo k = w.todo k ++ new := by
    rw [Worker.todo, underway_setSession w pushed, filter_append]
    congr 1
    rw [filter_eq_self]
    intro q member
    simpa using own q member
  subst obj
  have conn : (w.setSession x).heap x.obj = x.conn := update_self ..
  have history : (w.setSession x).histories x.conn.life = x.history := update_self ..
  rw [view, conn, history, todo]
  rfl

/-- The first completion is taken. -/
def pop (w : Worker) (phase : Phase) (cq : List Cqe) : Worker := { w with phase := phase, cq := cq }

theorem completed_of_first (first : w.cq = c :: cq) (key : c.sqe.key = k)
    (flag : c.sqe.flag ≠ .addConn) (phase : Phase) :
    w.completed k = c :: (w.pop phase cq).completed k := by
  rw [completed, first, filter_cons_of_pos]
  · rfl
  · simpa using ⟨key, flag⟩

theorem touched_pop (first : w.cq = c :: cq) (key : c.sqe.key = k) (phase : Phase) {o : Nat} :
    Touched k o life w (w.pop phase cq) where
  __ := Touched.refl
  completed ne := by
    rw [completed, completed, first, filter_cons_of_neg]
    · rfl
    · rw [key]
      simp [ne.symm]

theorem touched_released {key : Int} (released : Released w key o w') :
    Touched key o (w.heap o).life w w' := by
  have lookup := @released.lookup_ne
  rw [released.frame] at lookup ⊢
  exact { (Touched.refl : Touched key o (w.heap o).life w w) with
    lookup := lookup _
    heap := fun ne _ => released.others _ ne
    histories := fun ne => update_of_ne ne .. }

/-- Entering touches one connection only. -/
theorem touched_entered {fd : Int} {base : Connection} (entered : Entered w k fd o base w') :
    Touched k o life w w' := by
  have lookup := @entered.lookup_ne
  have more : w.nextObj ≤ w'.nextObj := by
    rcases entered.source with ⟨_, _, same⟩ | ⟨_, _, more⟩
    · exact same.ge
    · rw [more]
      exact Nat.le_succ _
  rw [entered.frame] at lookup ⊢
  exact { (Touched.refl : Touched k o life w w) with
    lookup := lookup _
    heap := fun ne _ => entered.others _ ne
    nextObj := more
    nextLife := Nat.le_succ _ }

theorem touched_setConn (c : Connection) : Touched k o life w (w.setConn o c) where
  __ := Touched.refl
  heap ne _ := update_of_ne ne ..

/-! ## Handling an event -/

theorem Ground.pop (ground : w.Ground) (first : w.cq = c :: cq) (phase : Phase) :
    (w.pop phase cq).Ground := by
  refine ⟨{ ground.sane with }, ground.std, ground.queue, ?_, ground.solo, ground.pool⟩
  intro d member
  refine ground.news d ?_
  rw [first]
  exact mem_cons_of_mem _ member

/-- Code on a connection keeps the ground. -/
theorem Ground.setSession (ground : w.Ground) (found : w.connections.lookup k = some o)
    (frame : Session.Frame w.cfg (w.session o) x) (pushed : x.sq = Chains.pushAll w.sq new)
    (own : ∀ q ∈ new, q.key = k) (clear : new = [] ∨ Chains.Joined new ∧ w.todo k = []) :
    (w.setSession x).Ground := by
  have obj : x.obj = o := frame.obj
  refine ⟨ground.sane.setSession (ground.sane.bound found) frame, ground.std, ground.queue,
    ground.news, ?_, ?_⟩
  · change Chains.Solo w.cfg.listener (w.inflight ++ x.sq)
    rw [pushed]
    rcases clear with rfl | ⟨joined, none'⟩
    · exact ground.solo
    · refine ground.solo.pushAll joined fun q member q' added same => ?_
      have mine : q ∈ w.todo k := by
        rw [own q' added] at same
        exact mem_filter.mpr ⟨member, by simpa using same⟩
      rw [none'] at mine
      cases mine
  · intro i member
    have ne : i ≠ o := by
      rintro rfl
      exact ground.sane.free found member
    change (update w.heap x.obj x.conn i).state = _ ∧
      (update w.heap x.obj x.conn i).closed = _
    rw [obj, update_of_ne ne]
    exact ground.pool i member

/-- `closeConn` on a registered connection. -/
structure ClosedConn (w : Worker) (k : Int) (o : Nat) (err : Option Error) (w' : Worker) :
    Prop where
  touched : Touched k o (w.heap o).life w w'
  absent : w'.connections.lookup k = none
  history : w'.histories (w.heap o).life = { w.histories (w.heap o).life with
    word := (w.histories (w.heap o).life).word ++ [.onClose err], released := true }
  nextLife : w'.nextLife = w.nextLife
  underway : w'.underway = w.underway
  cq : w'.cq = w.cq
  tasks : w'.tasks = w.tasks
  queue : w'.asyncOpQueue = w.asyncOpQueue
  exact_of : w'.Exact → w.Exact
  ground : w.Ground → w'.Ground

/-- Whether anything is underway for a connection is seen from the queues. -/
theorem idle_of_queues (underway : w'.underway = w.underway) (cq : w'.cq = w.cq)
    (tasks : w'.tasks = w.tasks) (queue : w'.asyncOpQueue = w.asyncOpQueue)
    (idle : (w.view k o).Idle) : (w'.view k o).Idle := by
  refine ⟨?_, ?_, ?_, ?_⟩
  · change w'.todo k = []
    rw [todo, underway]
    exact idle.todo
  · change w'.completed k = []
    rw [completed, cq]
    exact idle.done
  · change w'.tasksOf o = []
    rw [tasksOf, tasks]
    exact idle.tasks
  · change w'.asyncOpQueue.count o = 0
    rw [queue]
    exact idle.queued

theorem ClosedConn.idle {err : Option Error} (closed : ClosedConn w k o err w')
    (idle : (w.view k o).Idle) : (w'.view k o).Idle :=
  idle_of_queues closed.underway closed.cq closed.tasks closed.queue idle

/-- The steps of `closeConn`. -/
theorem closeConn_closed (sane : w.Sane) (found : w.connections.lookup k = some o)
    {syscallClose : Bool} {err : Option Error} {ops : List ConnOp}
    (done : w.closeConn o syscallClose err ops = some w') : ClosedConn w k o err w' := by
  have released := sane.ended found done
  have frame : Session.Frame w.cfg (w.session o) ((w.session o).ended syscallClose err) :=
    ended_frame _ _ _
  have conn : (w.setSession ((w.session o).ended syscallClose err)).heap o =
      { w.heap o with mode := .userSpace, closed := true } := update_self ..
  have first : Touched k o (w.heap o).life w _ :=
    touched_setSession frame (rfl : _ = Chains.pushAll w.sq []) (by simp)
  have second := touched_released released
  rw [conn] at second
  have queues : w'.underway = w.underway ∧ w'.cq = w.cq ∧ w'.tasks = w.tasks ∧
      w'.asyncOpQueue = w.asyncOpQueue ∧ w'.nextLife = w.nextLife := by
    rw [released.frame]
    exact ⟨rfl, rfl, rfl, rfl, rfl⟩
  obtain ⟨underway, cq, tasks, queue, nextLife⟩ := queues
  refine ⟨first.trans second, released.lookup_self, ?_, nextLife, underway, cq, tasks, queue,
    ?_, ?_⟩
  · rw [released.frame]
    simp only [conn, update_self]
    change { update w.histories (w.heap o).life _ (w.heap o).life with
      released := true } = _
    rw [update_self]
    rfl
  · rw [released.frame]
    exact id
  · intro ground
    have sane' := sane.closeConn found done
    have pool : ∀ i ∈ w'.connPool.items,
        (w'.heap i).state = .invalid ∧ (w'.heap i).closed = false := by
      intro i member
      by_cases same : i = o
      · subst same
        rw [released.conn]
        exact ⟨rfl, rfl⟩
      · rw [released.frame] at member
        have old := (mem_cons.mp member).resolve_left same
        rw [(first.trans second).heap same (sane.poolBound i old)]
        exact ground.pool i old
    rw [released.frame] at sane' pool ⊢
    exact { ground with sane := sane', pool := pool }

/-- Code has worked on a registered connection. -/
theorem Regular.session (regular : w.Regular rules) {p : Worker} (ground : p.Ground)
    (touched : Touched k o (w.heap o).life w p) (lives : p.nextLife = w.nextLife)
    (before : w.connections.lookup k = some o) (found : p.connections.lookup k = some o)
    (other : k ≠ w.cfg.listener) (frame : Session.Frame p.cfg (p.session o) x)
    (life : (p.heap o).life = (w.heap o).life) (pushed : x.sq = Chains.pushAll p.sq new)
    (own : ∀ q ∈ new, q.key = k) (clear : new = [] ∨ Chains.Joined new ∧ p.todo k = [])
    (move : View.Move w.cfg rules exact' (w.view k o) ((p.view k o).worked x new)) :
    (p.setSession x).Regular rules ∧ Evolution rules exact' w (p.setSession x) := by
  have after := touched_setSession frame pushed own
  rw [life] at after
  refine regular.moved (ground.setSession found frame pushed own clear) other
    (touched.trans after) before found ?_ lives
  rw [view_setSession frame pushed own]
  exact move

theorem touched_tasks {tasks : List Task}
    (others : ∀ {i}, i ≠ o → (tasks.filter fun t => t.obj = i) = w.tasksOf i) :
    Touched k o life w { w with tasks := tasks } :=
  { Touched.refl with tasks := others }

theorem Ground.tasks (ground : w.Ground) {tasks : List Task}
    (bound : ∀ t ∈ tasks, t.obj < w.nextObj) : { w with tasks := tasks }.Ground :=
  { ground with sane := { ground.sane with tasks := bound } }

section Served

variable {env : Env} {c : Cqe} {cq : List Cqe} {x x' : Session} {err : Error}

/-- No submission entry is free, and the connection is closed. -/
theorem Regular.refused (regular : w.Regular rules) (first : w.cq = c :: cq) (phase : Phase)
    (orderly : OrderlyEvent rules w env c) (key : c.sqe.key = k) (other : k ≠ w.cfg.listener)
    (flag : c.sqe.flag ≠ .addConn) (found : w.connections.lookup k = some o) (fine : 0 ≤ c.res)
    (prelude : Session.Prelude w.cfg env.handler c (w.session o) x)
    (arming : Session.Arming w.cfg env.sqe x (some err) x')
    (ended : ((w.pop phase cq).setSession x').closeConn o true (some err) env.onClose = some w') :
    w'.Regular rules ∧ Evolution rules exact' w w' := by
  have tidy := regular.tidy found other
  have head : (w.view k o).done = c :: (w.pop phase cq).completed k :=
    completed_of_first first key flag phase
  have ground := regular.toGround.pop first phase
  have touched : Touched k o (w.heap o).life w (w.pop phase cq) := touched_pop first key phase
  have notAccept : c.sqe.flag ≠ .accept := by
    rcases tidy.head head with ⟨_, same⟩ | ⟨_, same⟩ | ⟨_, same | same⟩ <;> rw [same] <;> decide
  obtain ⟨state, _, sq⟩ := prelude.state
  obtain ⟨idle, _⟩ := tidy.alone head state
  have refused : x' = x ∧ env.sqe 0 = false := by
    cases arming with
    | refused err full => exact ⟨rfl, full⟩
    | writeOnly err free full closed armed =>
      rw [orderly.pair notAccept free] at full
      cases full
  obtain ⟨rfl, full⟩ := refused
  have frame := prelude.acts.frame regular.sane.tcp
  have obj : x'.obj = o := frame.obj
  have life : x'.conn.life = (w.heap o).life := frame.life
  have pushed : x'.sq = Chains.pushAll (w.pop phase cq).sq [] := sq
  have worked := ground.setSession found frame pushed (by simp) (Or.inl rfl)
  have closed := closeConn_closed worked.sane found ended
  have between := touched_setSession (w := w.pop phase cq) (k := k) frame pushed (by simp)
  have view := view_setSession (w := w.pop phase cq) (k := k) frame pushed (by simp)
  have after := closed.touched
  have history := closed.history
  have conn : ((w.pop phase cq).setSession x').heap o = x'.conn := by
    subst obj
    exact update_self ..
  have word : ((w.pop phase cq).setSession x').histories (w.heap o).life = x'.history := by
    rw [← life]
    exact update_self ..
  rw [conn, life] at after history
  rw [word] at history
  refine regular.ended (closed.ground worked) other
    ((touched.trans between).trans after) found closed.absent ?_ (closed.idle ?_)
    closed.nextLife
  · rw [history]
    exact .failed head fine prelude (orderly.full notAccept full) orderly.more
  · rw [view]
    exact ⟨(append_nil _).trans idle.todo, idle.done, idle.tasks, idle.queued⟩

/-- The handler is left to a goroutine. -/
theorem Regular.spawned (regular : w.Regular rules) (first : w.cq = c :: cq) (phase : Phase)
    (key : c.sqe.key = k) (other : k ≠ w.cfg.listener) (flag : c.sqe.flag ≠ .addConn)
    (found : w.connections.lookup k = some o) (state : (w.heap o).state = .read) (some' : 0 < c.res)
    (received : (w.session o).onKernelRead c = some x) :
    Regular rules { (w.pop phase cq).setSession x with tasks := w.tasks ++ [⟨o, c.res, false⟩] } ∧
      Evolution rules exact' w
        { (w.pop phase cq).setSession x with tasks := w.tasks ++ [⟨o, c.res, false⟩] } := by
  have head : (w.view k o).done = c :: (w.pop phase cq).completed k :=
    completed_of_first first key flag phase
  have ground := regular.toGround.pop first phase
  have touched : Touched k o (w.heap o).life w (w.pop phase cq) := touched_pop first key phase
  have act : Session.Act w.cfg (w.session o) x := .received received
  have pushed : x.sq = Chains.pushAll w.sq [] := by
    obtain ⟨rb, rb', _, _, rfl⟩ := onKernelRead_eq received
    rfl
  have bound : ∀ t ∈ w.tasks ++ [(⟨o, c.res, false⟩ : Task)], t.obj < w.nextObj := by
    intro t member
    rcases mem_append.mp member with old | new
    · exact regular.sane.tasks t old
    · rw [mem_singleton.mp new]
      exact regular.sane.bound found
  have spawned : Touched k o (w.heap o).life (w.pop phase cq)
      { w.pop phase cq with tasks := w.tasks ++ [⟨o, c.res, false⟩] } := by
    refine touched_tasks fun ne => ?_
    simp [filter_append, ne.symm, tasksOf, pop]
  refine regular.session (ground.tasks bound) (touched.trans spawned) rfl found found other
    (act.frame regular.sane.tcp) rfl pushed (by simp) (Or.inl rfl) ?_
  have move : View.Move w.cfg rules exact' (w.view k o) _ := .spawned head some' state received
  have tasks : (w.tasks ++ [(⟨o, c.res, false⟩ : Task)]).filter (fun t => t.obj = o) =
      w.tasksOf o ++ [⟨o, c.res, false⟩] := by
    rw [filter_append, filter_singleton]
    simp [tasksOf]
  simp only [view, tasksOf, tasks] at move ⊢
  exact move

end Served

/-- An event of a connection. -/
theorem Regular.served (regular : w.Regular rules) {env : Env} (first : w.cq = c :: cq)
    (phase : Phase) (orderly : OrderlyEvent rules w env c) (key : c.sqe.key = k)
    (other : k ≠ w.cfg.listener) (flag : c.sqe.flag ≠ .addConn)
    (found : w.connections.lookup k = some o) (fine : 0 ≤ c.res)
    (served : Served (w.pop phase cq) env c o w') (sized : exact' → w'.Exact) :
    w'.Regular rules ∧ Evolution rules exact' w w' := by
  have tidy := regular.tidy found other
  have head : (w.view k o).done = c :: (w.pop phase cq).completed k :=
    completed_of_first first key flag phase
  have ground := regular.toGround.pop first phase
  have touched : Touched k o (w.heap o).life w (w.pop phase cq) := touched_pop first key phase
  have kind := tidy.head head
  cases served with
  | @eof w' state nothing ended =>
    obtain ⟨idle, reads, _⟩ := tidy.alone head (Or.inl state)
    have zero := le_antisymm nothing fine
    have closed := closeConn_closed ground.sane found ended
    have history : w'.histories (w.heap o).life = _ := closed.history
    refine regular.ended (closed.ground ground) other (touched.trans closed.touched) found
      closed.absent ?_ (closed.idle idle) closed.nextLife
    rw [history]
    exact .eof head state zero (orderly.eof (reads state) zero)
  | @armed x x' prelude arming =>
    obtain ⟨new, armed, _, spent⟩ := arming.prepared regular.sane.tcp
    obtain ⟨state, _, sq⟩ := prelude.state
    obtain ⟨idle, _⟩ := tidy.alone head state
    have acts : Session.Acts w.cfg (w.session o) x' := prelude.acts.trans arming.acts
    have pushed : x'.sq = Chains.pushAll w.sq new := by
      rw [armed.sq, sq]
      rfl
    have own : ∀ q ∈ new, q.key = k := by
      intro q member
      rw [armed.own.1 q member, (prelude.acts.frame regular.sane.tcp).fd]
      exact tidy.fd
    refine regular.session ground touched rfl found found other (acts.frame regular.sane.tcp) rfl
      pushed own ?_ ?_
    · exact armed.own.2.imp id fun joined => ⟨joined, idle.todo⟩
    · exact .armed head fine prelude armed orderly.calls sized spent orderly.more
  | failed prelude arming ended =>
    exact regular.refused first phase orderly key other flag found fine prelude arming ended
  | spawned state some' received async =>
    exact regular.spawned first phase key other flag found state some' received
  | @closed w' state flag' ended =>
    have idle := tidy.last head flag'
    have closed := closeConn_closed ground.sane found ended
    have history : w'.histories (w.heap o).life = _ := closed.history
    refine regular.ended (closed.ground ground) other (touched.trans closed.touched) found
      closed.absent ?_ (closed.idle idle) closed.nextLife
    rw [history]
    exact .closed head state flag' fine
  | @flushed x₁ x state flag' sent called =>
    have acts : Session.Acts w.cfg (w.session o) x := written_acts sent called
    have pushed : x.sq = Chains.pushAll w.sq [] := by
      rw [(calls_still called).sq]
      obtain ⟨rb, rb', _, _, rfl⟩ := onKernelWrite_eq sent
      rfl
    refine regular.session ground touched rfl found found other (acts.frame regular.sane.tcp) rfl
      pushed (by simp) (Or.inl rfl) ?_
    exact .flushed head fine state flag' sent called orderly.calls sized
  | ignored state notClose notWrite =>
    rcases kind with ⟨state', _⟩ | ⟨state', _⟩ | ⟨_, write | close⟩
    · cases state.symm.trans state'
    · cases state.symm.trans state'
    · exact absurd write notWrite
    · exact absurd close notClose
  | unknown state ended =>
    have other : (w.heap o).state ≠ .invalid ∧ (w.heap o).state ≠ .accept := by
      have states : (w.heap o).state = .read ∨ (w.heap o).state = .write ∨
          (w.heap o).state = .close := by
        rcases kind with ⟨state', _⟩ | ⟨state', _⟩ | ⟨state', _⟩
        · exact Or.inl state'
        · exact Or.inr (Or.inl state')
        · exact Or.inr (Or.inr state')
      rcases states with same | same | same <;> rw [same] <;> decide
    rcases state with invalid | accept
    · exact absurd invalid other.1
    · exact absurd accept other.2

end Worker

end Gain
