import Gain.Worker.Registry

/-! # What holds in every run

Connection objects and memory regions have one owner: an object is registered
under one key or free, never both, and no region is behind two buffers. Every
registration is a life of its own. None of this depends on what the kernel
answers.
-/

namespace Gain

open Function List

namespace Worker

/-- What holds in every state of every run of a stream worker. -/
structure Sane (w : Worker) : Prop extends Indexed w where
  tcp : w.cfg.sendRecvMsg = false
  lives : ∀ o < w.nextObj, (w.heap o).life < w.nextLife
  lifeInj : ∀ {k k' : Int} {o o' : Nat}, w.connections.lookup k = some o →
    w.connections.lookup k' = some o' → (w.heap o).life = (w.heap o').life → k = k'
  unborn : ∀ life, w.nextLife ≤ life → w.histories life = {}
  stream : ∀ o, (w.heap o).network = .tcp
  tasks : ∀ t ∈ w.tasks, t.obj < w.nextObj
  queued : ∀ o ∈ w.asyncOpQueue, o < w.nextObj
  born : ∀ q ∈ w.underway, q.flag ≠ .accept → q.life < w.nextLife
  distinct : Supplied.Distinct w.regions w.mem.pool.nextAddr
  shelved : w.Shelved
  sized : w.Exact → ∀ {k : Int} {o : Nat}, w.connections.lookup k = some o → (w.heap o).Sized

variable {w w' : Worker} {o : Nat} {x : Session}

/-- Work on a connection object keeps the order of things. -/
theorem Sane.setSession (sane : w.Sane) (lt : o < w.nextObj)
    (frame : Session.Frame w.cfg (w.session o) x) : (w.setSession x).Sane := by
  obtain rfl : x.obj = o := frame.obj
  have conn : ∀ i, ((w.setSession x).heap i).key = (w.heap i).key ∧
      ((w.setSession x).heap i).life = (w.heap i).life ∧
      ((w.setSession x).heap i).network = (w.heap i).network := by
    intro i
    by_cases same : i = x.obj
    · subst same
      simp only [Worker.setSession, update_self]
      exact ⟨frame.key, frame.life, frame.network⟩
    · simp only [Worker.setSession, update_of_ne same, and_self]
  refine { sane with key := ?_, lives := ?_, lifeInj := ?_, unborn := ?_, stream := ?_,
                     born := ?_, distinct := ?_, shelved := ?_, sized := ?_ }
  · intro k i found
    exact (conn i).1.trans (sane.key found)
  · intro i lt
    rw [(conn i).2.1]
    exact sane.lives i lt
  · intro k k' i i' found found' same
    rw [(conn i).2.1, (conn i').2.1] at same
    exact sane.lifeInj found found' same
  · intro life unborn
    have other : life ≠ x.conn.life := by
      rintro rfl
      rw [frame.life] at unborn
      exact absurd (sane.lives _ lt) (not_lt.mpr unborn)
    change update w.histories x.conn.life x.history life = {}
    rw [update_of_ne other]
    exact sane.unborn life unborn
  · intro i
    exact (conn i).2.2.trans (sane.stream i)
  · obtain ⟨new, pushed, own⟩ := frame.prepared
    intro q member other
    rw [underway_setSession w pushed] at member
    rcases mem_append.mp member with old | added
    · exact sane.born q old other
    · rw [(own q added).life]
      exact sane.lives _ lt
  · exact (supplied_setSession w lt frame.supplied).distinct sane.distinct
  · exact ⟨sane.shelved.1, fun exact' => sane.shelved.2 (frame.exact_before exact')⟩
  · intro exact' k i found
    have before := frame.exact_before exact'
    by_cases same : i = x.obj
    · subst same
      simp only [Worker.setSession, update_self]
      exact frame.sized exact' (sane.sized before found)
    · simp only [Worker.setSession, update_of_ne same]
      exact sane.sized before found

variable {key fd : Int} {base : Connection}

namespace Entered

variable {w w' : Worker}

/-- A new entry keeps the worker sane. -/
theorem sane (entered : Entered w key fd o base w') (sane : w.Sane) : w'.Sane := by
  obtain ⟨inbound, outbound, conn⟩ := entered.conn
  obtain ⟨lt, mono⟩ := entered.lt sane.poolBound
  have next : w'.nextLife = w.nextLife + 1 := by rw [entered.frame]
  have split : ∀ {k : Int} {o' : Nat}, w'.connections.lookup k = some o' →
      (k = key ∧ o' = o) ∨ (k ≠ key ∧ o' ≠ o ∧ w.connections.lookup k = some o') := by
    intro k o' found
    refine (entered.lookup_cases found).imp_right ?_
    rintro ⟨same, before⟩
    exact ⟨same, sane.unused entered.toTaken before, before⟩
  have old : ∀ i, i ≠ o → w'.heap i = w.heap i := entered.others
  obtain ⟨shelved, blank⟩ := entered.blank sane.shelved
  refine ⟨sane.toIndexed.entered entered.toTaken entered.lookup_cases (by rw [conn])
    fun i ne => by rw [old i ne], ?_, ?_, ?_, ?_, ?_, ?_, ?_, ?_,
    entered.supplied.distinct sane.distinct, shelved, ?_⟩
  · rw [entered.frame]
    exact sane.tcp
  · intro i lt'
    rw [next]
    by_cases same : i = o
    · subst same
      rw [entered.life]
      exact Nat.lt_succ_self _
    · rw [old i same]
      refine Nat.lt_succ_of_lt (sane.lives i ?_)
      rcases entered.source with ⟨_, _, kept⟩ | ⟨rfl, _, more⟩
      · rwa [← kept]
      · rw [more] at lt'
        exact lt_of_le_of_ne (Nat.lt_succ_iff.mp lt') same
  · intro k k' i i' found found' same
    have fresh : ∀ {k : Int} {i : Nat}, w.connections.lookup k = some i →
        (w.heap i).life ≠ w.nextLife :=
      fun before => (sane.lives _ (sane.bound before)).ne
    rcases split found with ⟨rfl, rfl⟩ | ⟨_, ne, before⟩
    · rcases split found' with ⟨rfl, _⟩ | ⟨_, ne', before'⟩
      · rfl
      · rw [entered.life, old i' ne'] at same
        exact absurd same.symm (fresh before')
    · rcases split found' with ⟨rfl, rfl⟩ | ⟨_, ne', before'⟩
      · rw [entered.life, old i ne] at same
        exact absurd same (fresh before)
      · rw [old i ne, old i' ne'] at same
        exact sane.lifeInj before before' same
  · intro life unborn
    rw [next] at unborn
    have histories : w'.histories = w.histories := by rw [entered.frame]
    rw [histories]
    exact sane.unborn life (Nat.le_of_succ_le unborn)
  · intro i
    by_cases same : i = o
    · subst same
      rw [conn]
      rcases entered.source with ⟨_, rfl, _⟩ | ⟨_, rfl, _⟩
      · exact sane.stream i
      · rfl
    · rw [old i same]
      exact sane.stream i
  · intro t member
    have tasks : w'.tasks = w.tasks := by rw [entered.frame]
    rw [tasks] at member
    exact (sane.tasks t member).trans_le mono
  · intro i member
    have queue : w'.asyncOpQueue = w.asyncOpQueue := by rw [entered.frame]
    rw [queue] at member
    exact (sane.queued i member).trans_le mono
  · intro q member other
    have underway : w'.underway = w.underway := by
      rw [entered.frame]
      rfl
    rw [underway] at member
    rw [next]
    exact Nat.lt_succ_of_lt (sane.born q member other)
  · intro exact' k i found
    rcases split found with ⟨_, rfl⟩ | ⟨_, ne, before⟩
    · obtain ⟨⟨inbound, present, first⟩, outbound, present', second⟩ := blank exact'
      exact ⟨⟨inbound, present, first.sized⟩, outbound, present', second.sized⟩
    · rw [old i ne]
      refine sane.sized (fun q member => ?_) before
      obtain ⟨made, appended⟩ := entered.requests
      have cfg : w'.cfg = w.cfg := by rw [entered.frame]
      rw [← cfg]
      refine exact' q ?_
      rw [appended]
      exact mem_append_left _ member

end Entered

namespace Sane

variable {env : Env} {cqe : Cqe} {err : Option Error}

variable (sane : w.Sane)
include sane

theorem get (got : w.get key fd = (o, w')) : w'.Sane ∧ w'.connections.lookup key = some o := by
  rcases get_cases w sane.poolBound key fd with ⟨o', found, same⟩ | ⟨o', base, w₁, entered, same⟩
  · cases got.symm.trans same
    exact ⟨sane, found⟩
  · cases got.symm.trans same
    exact ⟨entered.sane sane, entered.lookup_self⟩

/-- A registered connection is rewritten, with its identity and its buffers. -/
theorem setConn {c : Connection} (lt : o < w.nextObj) (key : c.key = (w.heap o).key)
    (life : c.life = (w.heap o).life) (network : c.network = (w.heap o).network)
    (inbound : c.inboundBuffer = (w.heap o).inboundBuffer)
    (outbound : c.outboundBuffer = (w.heap o).outboundBuffer) : (w.setConn o c).Sane := by
  have conn : ∀ i, ((w.setConn o c).heap i).key = (w.heap i).key ∧
      ((w.setConn o c).heap i).life = (w.heap i).life ∧
      ((w.setConn o c).heap i).network = (w.heap i).network := by
    intro i
    by_cases same : i = o
    · subst same
      simp only [Worker.setConn, update_self]
      exact ⟨key, life, network⟩
    · simp only [Worker.setConn, update_of_ne same, and_self]
  refine { sane with key := ?_, lives := ?_, lifeInj := ?_, stream := ?_, distinct := ?_
                     shelved := ⟨sane.shelved.1, sane.shelved.2⟩, sized := ?_ }
  · intro k i found
    exact (conn i).1.trans (sane.key found)
  · intro i lt
    rw [(conn i).2.1]
    exact sane.lives i lt
  · intro k k' i i' found found' same
    rw [(conn i).2.1, (conn i').2.1] at same
    exact sane.lifeInj found found' same
  · intro i
    exact (conn i).2.2.trans (sane.stream i)
  · have regions : c.regions = (w.heap o).regions := by
      simp only [Connection.regions, inbound, outbound]
    have same : (w.setConn o c).regions = w.regions := by
      simp only [Worker.regions, Worker.setConn]
      rw [sum_update w.heap lt, regions, ← sum_update w.heap lt, update_eq_self]
    rw [same]
    exact sane.distinct
  · intro exact' k i found
    have before := sane.sized exact' found
    by_cases same : i = o
    · subst same
      simp only [Worker.setConn, update_self, Connection.Sized, inbound, outbound]
      exact before
    · simp only [Worker.setConn, update_of_ne same]
      exact before

/-- Giving up a connection keeps the worker sane. -/
theorem released (released : Released w key o w') : w'.Sane := by
  have before : ∀ {k : Int} {i : Nat}, w'.connections.lookup k = some i →
      w.connections.lookup k = some i ∧ i ≠ o := by
    intro k i found
    obtain ⟨_, before, ne, _⟩ := sane.of_released released found
    exact ⟨before, ne⟩
  have lives : ∀ i < w.nextObj, (w'.heap i).life < w.nextLife := by
    intro i below
    by_cases same : i = o
    · subst same
      rw [released.conn]
      exact sane.lives i below
    · rw [released.others i same]
      exact sane.lives i below
  have lifeInj : ∀ {k k' : Int} {i i' : Nat}, w'.connections.lookup k = some i →
      w'.connections.lookup k' = some i' → (w'.heap i).life = (w'.heap i').life → k = k' := by
    intro k k' i i' found found' same
    rw [released.others i (before found).2, released.others i' (before found').2] at same
    exact sane.lifeInj (before found).1 (before found').1 same
  have stream : ∀ i, (w'.heap i).network = .tcp := by
    intro i
    by_cases same : i = o
    · subst same
      rw [released.conn]
    · rw [released.others i same]
      exact sane.stream i
  have sized : w.Exact → ∀ {k : Int} {i : Nat}, w'.connections.lookup k = some i →
      (w'.heap i).Sized := by
    intro exact' k i found
    rw [released.others i (before found).2]
    exact sane.sized exact' (before found).1
  have indexed := sane.toIndexed.released released
  have shelved := released.shelved sane.shelved fun exact' => sane.sized exact' released.found
  have distinct := (Supplied.of_le released.regions).distinct sane.distinct
  rw [released.frame] at indexed shelved lifeInj sized distinct ⊢
  refine { sane with
    toIndexed := indexed, lives := lives, lifeInj := lifeInj, unborn := fun life unborn => ?_
    stream := stream, distinct := distinct, shelved := shelved, sized := sized }
  have other : life ≠ (w.heap o).life := by
    rintro rfl
    exact absurd (sane.lives o (sane.bound released.found)) (not_lt.mpr unborn)
  exact (update_of_ne other ..).trans (sane.unborn life unborn)

variable {syscallClose : Bool} {ops : List ConnOp}

/-- A registered connection is given up after `OnClose`. -/
theorem ended (found : w.connections.lookup key = some o)
    (done : w.closeConn o syscallClose err ops = some w') :
    Released (w.setSession ((w.session o).ended syscallClose err)) key o w' := by
  have own := sane.key found
  have released := closeConn_released (sane.stream o) (by rw [own, found]) (sane.bound found) done
  rwa [own] at released

theorem closeConn (found : w.connections.lookup key = some o)
    (done : w.closeConn o syscallClose err ops = some w') : w'.Sane :=
  (sane.setSession (sane.bound found) (Session.ended_frame _ _ _)).released (sane.ended found done)

theorem acts (lt : o < w.nextObj)
    (acts : Session.Acts w.cfg (w.session o) x) : (w.setSession x).Sane :=
  sane.setSession lt (acts.frame sane.tcp)

theorem addressed (addressed : Addressed w fd o w') :
    w'.Sane ∧ w'.connections.lookup fd = some o ∧ ∀ {k : Int} {i : Nat},
      w.connections.lookup k = some i → w'.connections.lookup k = some i := by
  cases addressed with
  | @intro w₁ localAddr remoteAddr addresses got =>
    obtain ⟨sane₁, found⟩ := sane.get got
    have placed := sane₁.setConn (sane₁.bound found) (c := { w₁.heap o with
      fd := fd, localAddr := localAddr, remoteAddr := remoteAddr }) rfl rfl rfl rfl rfl
    exact ⟨{ placed with }, found, get_keeps sane.poolBound got⟩

theorem prepareAccept : w.prepareAccept.Sane := by
  refine { sane with born := ?_ }
  intro q member other
  have pushed : w.prepareAccept.underway = w.underway ++ [_] := underway_push w _
  rw [pushed] at member
  rcases mem_append.mp member with old | added
  · exact sane.born q old other
  · rw [mem_singleton.mp added] at other
    exact absurd rfl other

theorem rearmed (rearmed : Rearmed w o w') :
    w'.Sane ∧ w'.connections.lookup w.cfg.listener = some o ∧ ∀ {k : Int} {i : Nat},
      w.connections.lookup k = some i → w'.connections.lookup k = some i := by
  obtain ⟨got⟩ := rearmed
  obtain ⟨sane₁, found⟩ := sane.prepareAccept.get got
  have keeps : ∀ {k : Int} {i : Nat}, w.connections.lookup k = some i → _ :=
    get_keeps sane.prepareAccept.poolBound got
  exact ⟨sane₁.setConn (sane₁.bound found) rfl rfl rfl rfl rfl, found, keeps⟩

theorem welcomed (lt : o < w.nextObj)
    {sqe : Nat → Bool} (welcomed : Welcomed w env sqe o err w') : w'.Sane := by
  obtain ⟨x, acts, rfl⟩ := welcomed.acts
  exact sane.acts lt acts

theorem handedOver (handed : HandedOver w env fd err w') : w'.Sane := by
  obtain ⟨addressed, welcomed⟩ := handed
  obtain ⟨sane, found, _⟩ := sane.addressed addressed
  exact sane.welcomed (sane.bound found) welcomed

/-- A connection is served. -/
theorem served
    (found : w.connections.lookup key = some o) (served : Served w env cqe o w') : w'.Sane := by
  have lt := sane.bound found
  cases served with
  | eof state nothing ended => exact sane.closeConn found ended
  | armed prelude arming => exact sane.acts lt (prelude.acts.trans arming.acts)
  | failed prelude arming ended =>
    exact (sane.acts lt (prelude.acts.trans arming.acts)).closeConn found ended
  | spawned state some' received async =>
    have sane := sane.acts lt (.single (.received received))
    refine { sane with tasks := ?_ }
    intro t member
    rcases mem_append.mp member with old | new
    · exact sane.tasks t old
    · rw [mem_singleton.mp new]
      exact lt
  | closed state flag ended => exact sane.closeConn found ended
  | flushed state flag sent called => exact sane.acts lt (Session.written_acts sent called)
  | ignored state other other' => exact sane
  | unknown state ended => exact sane.closeConn found ended

/-- An accept keeps the worker sane and what is registered in place. -/
theorem accepted (accepted : Accepted w env cqe err w') :
    w'.Sane ∧ ∀ {k : Int} {i : Nat},
      w.connections.lookup k = some i → w'.connections.lookup k = some i := by
  cases accepted with
  | refused err full => exact ⟨{ sane with }, id⟩
  | failed err free reason rearmed addressed =>
    obtain ⟨sane₁, _, keeps⟩ := sane.rearmed rearmed
    obtain ⟨sane₂, _, keeps'⟩ := sane₁.addressed addressed
    exact ⟨sane₂, fun found => keeps' (keeps found)⟩
  | welcomed free rearmed addressed welcomed =>
    obtain ⟨sane₁, _, keeps⟩ := sane.rearmed rearmed
    obtain ⟨sane₂, found, keeps'⟩ := sane₁.addressed addressed
    obtain ⟨x, acts, rfl⟩ := welcomed.acts
    exact ⟨sane₂.acts (sane₂.bound found) acts, fun found => keeps' (keeps found)⟩

theorem endOnError (found : w.connections.lookup key = some o)
    (ended : w.endOnError env o err = some w') : w'.Sane := by
  cases err with
  | none =>
    cases ended
    exact sane
  | some err => exact sane.closeConn found ended

theorem stop : w.stop.Sane := by
  unfold Worker.stop
  split <;> exact { sane with }

/-- An event is handled. -/
theorem handled (handled : Handled w env cqe w') : w'.Sane := by
  cases handled with
  | looked error consumer got => exact (sane.get got).1
  | dropped _ _ | skipped _ _ _ _ => exact sane
  | announced fine consumer flag handed =>
    have after := sane.handedOver handed
    split_ifs
    · exact after.stop
    · exact after
  | served fine kind got stream served =>
    obtain ⟨sane₁, found⟩ := sane.get got
    exact sane₁.served found served
  | accepted fine shard got state accepted ended =>
    obtain ⟨sane₁, found⟩ := sane.get got
    obtain ⟨sane₂, keeps⟩ := sane₁.accepted accepted
    exact sane₂.endOnError (keeps found) ended

theorem sweepOne (found : w.connections.lookup key = some o) : (w.sweepOne o).Sane :=
  { sane.acts (sane.bound found) (.single (.armClose _)) with }

/-- What the kernel stores and notes down. -/
theorem executed {q : Sqe} (member : q ∈ w.underway) {res : Int}
    {data : List UInt8} (executed : Executed w q res data w') : w'.Sane := by
  have record : ∀ {w : Worker} (f : History → History), w.Sane → q.life < w.nextLife →
      (w.record q.life f).Sane := by
    intro w f sane lt
    refine { sane with unborn := ?_ }
    intro life unborn
    change update w.histories q.life (f (w.histories q.life)) life = {}
    rw [update_of_ne (lt.trans_le unborn).ne']
    exact sane.unborn life unborn
  cases executed with
  | error error flag => exact sane
  | sendError error flag nothing => exact record _ sane (sane.born q member (by rw [flag]; decide))
  | accepted fine flag closed small => exact { sane with }
  | received fine flag fits size =>
    refine { sane with distinct := ?_, shelved := ?_, sized := ?_ }
    · rw [regions_deposit]
      exact sane.distinct
    · refine ⟨sane.shelved.1, fun exact' rb member => ?_⟩
      obtain ⟨rb₀, old, rfl⟩ := mem_map.mp member
      have blank := sane.shelved.2 exact' rb₀ old
      exact ⟨deposit_sized blank.sized _ _, blank.r, blank.w, blank.isEmpty⟩
    · intro exact' k o found
      obtain ⟨⟨inbound, present, first⟩, outbound, present', second⟩ := sane.sized exact' found
      refine ⟨⟨inbound.deposit q.addr data, ?_, deposit_sized first _ _⟩,
        outbound.deposit q.addr data, ?_, deposit_sized second _ _⟩
      · simp only [deposit, Connection.deposit, present, Option.map_some]
      · simp only [deposit, Connection.deposit, present', Option.map_some]
  | sent fine flag fits bytes => exact record _ sane (sane.born q member (by rw [flag]; decide))
  | closed fine flag => exact record _ { sane with } (sane.born q member (by rw [flag]; decide))

theorem submit (chains : Nat) (phase : Phase) (shut : List Int) :
    (w.submit chains phase shut).Sane := by
  refine { sane with born := ?_ }
  intro q member
  rw [underway_submit] at member
  exact sane.born q member

/-- A chain loses entries when they complete. -/
theorem complete {chain : Nat} {old rest : List Sqe} {cq : List Cqe}
    (found : w.inflight[chain]? = some old) (sub : ∀ q ∈ rest, q ∈ old) :
    Sane { w with inflight := w.inflight.set chain rest, cq := cq } := by
  refine { sane with born := ?_ }
  intro q member
  exact sane.born q (mem_underway_of_set found sub member)

/-- Every step keeps the order of things. -/
theorem step {label : Label} (stepped : Stepped w label w') : w'.Sane := by
  cases stepped with
  | shutdown => exact { sane with }
  | @turn order chains result phase shut top all kept =>
    have swept : (w.shutdownHandler order).Sane := shutdownHandler_invariant
      (fun sane => { sane with }) (fun found sane => sane.sweepOne found) order sane
    exact swept.submit chains phase shut
  | @event env left cqe cq w' phase first handled =>
    have popped : Sane { w with phase := .events left, cq := cq } := { sane with }
    exact popped.handled handled
  | paced quiet running kept => exact { sane with }
  | @newConn env fd rest err w' phase first handed =>
    have taken : Sane { w with connQueue := rest } := { sane with }
    exact taken.handedOver handed
  | @asyncWrite env o rest x phase first arming =>
    have member : o ∈ w.asyncOpQueue := by
      rw [first]
      exact mem_cons_self
    have armed := sane.acts (sane.queued o member) arming.acts
    refine { armed with queued := ?_ }
    intro i member
    refine sane.queued i ?_
    rw [first]
    exact mem_cons_of_mem _ member
  | completed found executed settles =>
    have sane₁ := sane.executed (mem_underway_of_getElem? found mem_cons_self) executed
    rw [← executed.queues.1] at found
    exact sane₁.complete found settles.sub
  | handOff consumer nonneg small closed announced => exact { sane with }
  | @taskBegin i o n found =>
    have lt := sane.tasks _ (mem_of_getElem? found)
    have begun := sane.acts lt ((Relation.ReflTransGen.single (.userSpace _)).tail
      (.fire _ (.onRead n)))
    refine { begun with tasks := ?_ }
    intro t member
    rcases mem_or_eq_of_mem_set member with old | rfl
    · exact sane.tasks t old
    · exact lt
  | taskCall found called =>
    exact sane.acts (sane.tasks _ (mem_of_getElem? found)) (.single (.call called))
  | @taskEnd i o n op found next =>
    have lt := sane.tasks _ (mem_of_getElem? found)
    have placed := sane.setConn lt (c := { w.heap o with nextAsyncOp := op }) rfl rfl rfl rfl rfl
    refine { placed with tasks := ?_, queued := ?_ }
    · intro t member
      exact sane.tasks t (mem_of_mem_eraseIdx member)
    · intro i member
      rcases mem_append.mp member with old | new
      · exact sane.queued i old
      · rw [mem_singleton.mp new]
        exact lt

omit sane in
/-- What a step from a sane state keeps holds along every run. -/
theorem run {allowed : Worker → Label → Prop} {invariant : Worker → Prop} {ls : List Label}
    (preserved : ∀ s l s', s.Sane → allowed s l → Stepped s l s' → invariant s → invariant s')
    (sane : w.Sane) (ran : Gain.run Worker.step ls w = some w')
    (along : Along Worker.step allowed ls w) (initial : invariant w) : w'.Sane ∧ invariant w' := by
  have both : ∀ s l s', allowed s l → Worker.step s l = some s' → s.Sane ∧ invariant s →
      s'.Sane ∧ invariant s' := by
    rintro s l s' legal done ⟨sane, holds⟩
    have stepped := step_stepped sane.tcp done
    exact ⟨sane.step stepped, preserved s l s' sane legal stepped holds⟩
  exact invariant_of_run both ran along ⟨sane, initial⟩

end Sane

variable {cfg : Config} {streams : Streams}

theorem init_shelved (cfg : Config) (streams : Streams) : (init cfg streams).Shelved :=
  ⟨Int.natCast_pos.mpr cfg.pageSize_pos, by simp [init, SyncPool.empty]⟩

theorem init_distinct (cfg : Config) (streams : Streams) :
    Supplied.Distinct (init cfg streams).regions (init cfg streams).mem.pool.nextAddr := by
  have regions : (init cfg streams).regions = 0 := by
    simp only [Worker.regions, init, Finset.range_zero, Finset.sum_empty, BufferPool.regions,
      SyncPool.empty, map_nil, sum_nil, VirtualMem.Pool.regions, Multiset.coe_nil,
      Finset.sum_const_zero, add_zero]
  rw [regions]
  exact ⟨Multiset.nodup_zero, by simp⟩

theorem init_sane (tcp : cfg.sendRecvMsg = false) (streams : Streams) :
    (init cfg streams).Sane := by
  have nothing : ∀ {k : Int} {o : Nat}, ¬ (init cfg streams).connections.lookup k = some o := by
    intro k o found
    rw [init, AList.lookup_empty] at found
    cases found
  exact ⟨init_indexed cfg streams, tcp, fun o lt => absurd lt (Nat.not_lt_zero o),
    fun found => absurd found nothing, fun _ _ => rfl, fun _ => rfl, by simp [init],
    by simp [init], by simp [init, underway], init_distinct cfg streams, init_shelved cfg streams,
    fun _ _ _ found => absurd found nothing⟩

/-- The state in which the loop of a stream worker starts. -/
theorem start_eq (tcp : cfg.sendRecvMsg = false) (started : start cfg streams = some w) :
    (cfg.kind = .consumer ∧ w = init cfg streams) ∨
      (cfg.kind = .shard ∧ ∃ o w₁, Rearmed (init cfg streams) o w₁ ∧
        w = { w₁ with accepting := true }) := by
  unfold start at started
  cases kind : cfg.kind with
  | consumer =>
    rw [kind] at started
    cases started
    exact Or.inl ⟨rfl, rfl⟩
  | shard =>
    rw [kind] at started
    simp only [tcp, Bool.false_eq_true, if_false] at started
    cases started
    obtain ⟨o, rearmed⟩ := addAcceptConnRequest_rearmed (init cfg streams)
    exact Or.inr ⟨rfl, o, _, rearmed, rfl⟩

/-- The first accept request of a shard makes its first entry. -/
theorem rearmed_init (rearmed : Rearmed (init cfg streams) o w) : ∃ base w₁,
    Entered (init cfg streams).prepareAccept cfg.listener cfg.listener o base w₁ ∧
      w = w₁.setConn o { w₁.heap o with state := .accept } := by
  obtain @⟨w₁, got⟩ := rearmed
  rcases get_cases (init cfg streams).prepareAccept (forall_mem_nil _)
    cfg.listener cfg.listener with ⟨o', found, _⟩ | ⟨o', base, w₂, entered, answer⟩
  · have none' : (init cfg streams).prepareAccept.connections.lookup cfg.listener = none :=
      AList.lookup_empty _
    rw [none'] at found
    cases found
  · cases got.symm.trans answer
    exact ⟨base, w₁, entered, rfl⟩

theorem start_cfg (tcp : cfg.sendRecvMsg = false)
    (started : start cfg streams = some w) : w.cfg = cfg := by
  rcases start_eq tcp started with ⟨_, rfl⟩ | ⟨_, o, w₁, rearmed, rfl⟩
  · rfl
  · exact rearmed.cfg

theorem start_sane (tcp : cfg.sendRecvMsg = false)
    (started : start cfg streams = some w) : w.Sane := by
  rcases start_eq tcp started with ⟨_, rfl⟩ | ⟨_, o, w₁, rearmed, rfl⟩
  · exact init_sane tcp streams
  · exact { ((init_sane tcp streams).rearmed rearmed).1 with }

end Worker

end Gain
