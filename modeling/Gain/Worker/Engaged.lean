import Gain.Worker.Ownership

/-! # Every connection has something underway

With synchronous handlers a connection is left with a request each time an event
of it is handled: the next receive or send, or a close. What leads on from a
connection in state `close` is its close alone. A completion with an error is not
looked at, and an admission that fails leaves its connection registered; without
these no connection is forgotten.
-/

namespace Gain

open Function List Session

/-- The states of a connection that is served. -/
def ConnState.Working (state : ConnState) : Prop :=
  state = .read ∨ state = .write ∨ state = .close

/-- A request that will lead to an event of the connection under the key, in its state. -/
structure Sqe.Leads (k : Int) (state : ConnState) (q : Sqe) : Prop where
  key : q.key = k
  flag : q.flag = .read ∨ q.flag = .write ∨ q.flag = .close
  close : state = .close → q.flag = .close

variable {new : List Sqe}

theorem Session.Armed.leads {cfg : Config} {x x' : Session} (armed : Session.Armed cfg x new x')
    (some' : new ≠ []) : x'.conn.state.Working ∧ ∃ q ∈ new, q.Leads x.conn.fd x'.conn.state := by
  cases armed with
  | nothing => exact absurd rfl some'
  | read present grown address =>
    exact ⟨Or.inl rfl, _, mem_singleton_self _, rfl, Or.inl rfl, nofun⟩
  | write link present address =>
    exact ⟨Or.inr (Or.inl rfl), _, mem_singleton_self _, rfl, Or.inr (Or.inl rfl), nofun⟩
  | writeClose closed present address =>
    exact ⟨Or.inr (Or.inr rfl), x.closing, by simp, rfl, Or.inr (Or.inr rfl), fun _ => rfl⟩
  | close reason =>
    exact ⟨Or.inr (Or.inr rfl), _, mem_singleton_self _, rfl, Or.inr (Or.inr rfl), fun _ => rfl⟩

namespace Worker

variable {w w' : Worker} {o : Nat} {k key fd : Int} {x x' : Session} {env : Env} {c : Cqe}
  {err : Option Error} {base : Connection} {spared spared' : Int → Prop} {label : Label}

/-- The connection is served and has a request that leads on. -/
def Pending (w : Worker) (k : Int) (o : Nat) : Prop :=
  (w.heap o).state.Working ∧ ∃ q ∈ w.outstanding, q.Leads k (w.heap o).state

theorem Pending.mono (pending : w.Pending k o) (state : (w'.heap o).state = (w.heap o).state)
    (kept : ∀ q ∈ w.outstanding, q.Leads k (w.heap o).state → q ∈ w'.outstanding) :
    w'.Pending k o := by
  obtain ⟨working, q, member, leads⟩ := pending
  rw [← state] at working
  refine ⟨working, q, kept q member leads, ?_⟩
  rw [state]
  exact leads

/-- Handlers are synchronous, no shutdown has been requested, and every connection has a
request that leads on, but for those under the spared keys. -/
structure Engaged (spared : Int → Prop) (w : Worker) : Prop where
  sync : w.cfg.asyncHandler = false
  calm : w.shutdowning = false
  tasks : w.tasks = []
  queued : w.asyncOpQueue = []
  pool : w.Rested
  fd : ∀ {k : Int} {o : Nat}, w.connections.lookup k = some o → (w.heap o).fd = k
  busy : ∀ {k : Int} {o : Nat}, w.connections.lookup k = some o → ¬ spared k → w.Pending k o
  -- a consumer's descriptors are not the first two, whose completions it skips
  std : w.cfg.kind = .consumer → 0 ∈ w.openFds ∧ 1 ∈ w.openFds
  requests : w.cfg.kind = .consumer → ∀ q ∈ w.outstanding, q.flag ≠ .addConn →
    2 ≤ q.key ∧ 2 ≤ q.fd
  announced : w.cfg.kind = .consumer → ∀ c ∈ w.cq, c.sqe.flag = .addConn → 0 ≤ c.res → 2 ≤ c.res
  connQueue : w.cfg.kind = .consumer → ∀ fd ∈ w.connQueue, 2 ≤ fd
  entries : w.cfg.kind = .consumer →
    ∀ {k : Int} {o : Nat}, w.connections.lookup k = some o → 2 ≤ k

namespace Engaged

/-- Code on a connection takes no request back. -/
theorem outstanding_sub (frame : Session.Frame w.cfg (w.session o) x) :
    ∀ q ∈ w.outstanding, q ∈ (w.setSession x).outstanding := by
  obtain ⟨new, pushed, _⟩ := frame.prepared
  intro q member
  rw [outstanding_setSession pushed]
  rcases mem_append.mp member with underway | completed
  · exact mem_append_left _ (mem_append_left _ underway)
  · exact mem_append_right _ completed

variable (engaged : Engaged spared w)
include engaged

/-- Code works on a registered connection. -/
theorem session (sane : w.Sane) (found : w.connections.lookup key = some o)
    (frame : Session.Frame w.cfg (w.session o) x) (sub : ∀ k, k ≠ key → spared k → spared' k)
    (pending : ¬ spared' key → (w.setSession x).Pending key o) :
    Engaged spared' (w.setSession x) := by
  obtain rfl : x.obj = o := frame.obj
  have kept := outstanding_sub frame
  obtain ⟨new, pushed, own⟩ := frame.prepared
  have whole := outstanding_setSession pushed
  have heap : ∀ i, i ≠ x.obj → (w.setSession x).heap i = w.heap i := fun i ne => update_of_ne ne ..
  have mine : (w.setSession x).heap x.obj = x.conn := update_self ..
  refine { engaged with pool := engaged.pool.update sane.toIndexed found rfl heap, fd := ?_
                        busy := ?_, requests := ?_ }
  · intro k i found'
    by_cases same : i = x.obj
    · subst same
      rw [mine]
      exact frame.fd.trans (engaged.fd found')
    · rw [heap i same]
      exact engaged.fd found'
  · intro k i found' open'
    by_cases same : k = key
    · subst same
      cases found.symm.trans found'
      exact pending open'
    · have ne : i ≠ x.obj := by
        rintro rfl
        exact same (sane.inj found' found)
      have before := engaged.busy found' fun spare => open' (sub k same spare)
      exact before.mono (by rw [heap i ne]) fun q member _ => kept q member
  · intro consumer q member
    rw [whole] at member
    rcases mem_append.mp member with underway | completed
    · rcases mem_append.mp underway with old | added
      · exact engaged.requests consumer q (mem_append_left _ old)
      · intro _
        have issued := own q added
        have same : (w.session x.obj).conn.fd = key := engaged.fd found
        rw [issued.key, issued.fd, same]
        exact ⟨engaged.entries consumer found, engaged.entries consumer found⟩
    · exact engaged.requests consumer q (mem_append_right _ completed)

/-- The registry has changed, and the requests have not. What is not spared was there
before. -/
theorem of_registry (registers : Registers w w') (pool : w'.Rested)
    (fd : ∀ {k : Int} {o : Nat}, w'.connections.lookup k = some o → (w'.heap o).fd = k)
    (kept : ∀ {k : Int} {o : Nat}, w'.connections.lookup k = some o → ¬ spared' k →
      w.connections.lookup k = some o ∧ ¬ spared k ∧ (w'.heap o).state = (w.heap o).state)
    (entries : w.cfg.kind = .consumer →
      ∀ {k : Int} {o : Nat}, w'.connections.lookup k = some o → 2 ≤ k) : Engaged spared' w' := by
  rw [registers] at pool ⊢
  refine { engaged with pool := pool, fd := fd, busy := ?_, entries := entries }
  intro k o found open'
  obtain ⟨found, open', state⟩ := kept found open'
  exact (engaged.busy found open').mono state fun q member _ => member

variable (sane : w.Sane)
include sane

/-- A connection given up needs no request. -/
theorem released (released : Released w key o w')
    (sub : ∀ k, k ≠ key → spared k → spared' k) : Engaged spared' w' := by
  have before : ∀ {k i}, w'.connections.lookup k = some i →
      w.connections.lookup k = some i ∧ k ≠ key ∧ w'.heap i = w.heap i := by
    intro k i found
    obtain ⟨other, registered, _, same⟩ := sane.of_released released found
    exact ⟨registered, other, same⟩
  apply engaged.of_registry released.registers (engaged.pool.released released)
  case fd =>
    intro k i found
    obtain ⟨found, _, heap⟩ := before found
    rw [heap]
    exact engaged.fd found
  case kept =>
    intro k i found open'
    obtain ⟨found, other, heap⟩ := before found
    exact ⟨found, fun spare => open' (sub k other spare), by rw [heap]⟩
  case entries => exact fun consumer _ _ found => engaged.entries consumer (before found).1

/-- A connection is entered, and may be idle for now. -/
theorem entered (range : w.cfg.kind = .consumer → 2 ≤ key) (entered : Entered w key key o base w')
    (sub : ∀ k, spared k → spared' k) (spare : spared' key) :
    Engaged spared' w' ∧ (w'.heap o).state = .invalid := by
  obtain ⟨inbound, outbound, conn⟩ := entered.conn
  have before : ∀ {k i}, k ≠ key → w'.connections.lookup k = some i →
      w.connections.lookup k = some i ∧ w'.heap i = w.heap i := by
    intro k i ne found
    rw [entered.lookup_ne ne] at found
    exact ⟨found, entered.others i (sane.unused entered.toTaken found)⟩
  obtain ⟨pool, state⟩ := engaged.pool.entered sane.toIndexed entered
  refine ⟨?_, state⟩
  apply engaged.of_registry entered.registers pool
  case fd =>
    intro k i found
    by_cases same : k = key
    · subst same
      cases found.symm.trans entered.lookup_self
      rw [conn]
    · obtain ⟨found, heap⟩ := before same found
      rw [heap]
      exact engaged.fd found
  case kept =>
    intro k i found open'
    have ne : k ≠ key := by
      rintro rfl
      exact open' spare
    obtain ⟨found, heap⟩ := before ne found
    exact ⟨found, fun spare => open' (sub k spare), by rw [heap]⟩
  case entries =>
    intro consumer k i found
    by_cases same : k = key
    · rw [same]
      exact range consumer
    · exact engaged.entries consumer (before same found).1

/-- A connection is found, or it is a new one in no state. -/
theorem get (range : w.cfg.kind = .consumer → 2 ≤ key)
    (got : w.get key key = (o, w')) (sub : ∀ k, spared k → spared' k) (spare : spared' key) :
    Engaged spared' w' ∧ (w.connections.lookup key = some o ∧ w' = w ∨
      w.connections.lookup key = none ∧ (w'.heap o).state = .invalid) := by
  rcases get_cases w sane.poolBound key key with ⟨o', found, same⟩ | ⟨o', base, w₁, entered, same⟩
  · cases got.symm.trans same
    refine ⟨{ engaged with busy := ?_ }, Or.inl ⟨found, rfl⟩⟩
    exact fun found open' => engaged.busy found fun spare => open' (sub _ spare)
  · cases got.symm.trans same
    obtain ⟨engaged, state⟩ := engaged.entered sane range entered sub spare
    exact ⟨engaged, Or.inr ⟨entered.absent, state⟩⟩

theorem closeConn (found : w.connections.lookup key = some o)
    (sub : ∀ k, k ≠ key → spared k → spared' k) {syscallClose : Bool} {ops : List ConnOp}
    (done : w.closeConn o syscallClose err ops = some w') : Engaged spared' w' := by
  have frame : Session.Frame w.cfg _ _ := ended_frame (w.session o) syscallClose err
  have ended : Engaged (fun k => spared k ∨ k = key) _ :=
    engaged.session sane found frame (fun _ _ => Or.inl) fun open' => absurd (Or.inr rfl) open'
  refine ended.released (sane.setSession (sane.bound found) frame) (sane.ended found done) ?_
  intro k ne spare
  exact sub k ne (spare.resolve_right ne)

variable {sqe : Nat → Bool} {cq : List Cqe}

/-- A connection that has been armed again has a request that leads on. -/
theorem armed (found : w.connections.lookup key = some o)
    (acts : Session.Acts w.cfg (w.session o) x) (arming : Session.Arming w.cfg sqe x none x')
    (sub : ∀ k, k ≠ key → spared k → spared' k) : Engaged spared' (w.setSession x') := by
  have both : Session.Acts w.cfg (w.session o) x' := acts.trans arming.acts
  have frame := both.frame sane.tcp
  refine engaged.session sane found frame sub fun _ => ?_
  obtain ⟨before, pushed, _⟩ := (acts.frame sane.tcp).prepared
  obtain ⟨new, armed, some', _⟩ := arming.prepared sane.tcp
  obtain ⟨working, q, member, leads⟩ := armed.leads (some' rfl)
  have whole : (w.setSession x').outstanding = w.underway ++ (before ++ new) ++ w.cq.map Cqe.sqe :=
    outstanding_setSession (by rw [armed.sq, pushed, Chains.pushAll_append]; rfl)
  have mine : (w.setSession x').heap o = x'.conn := by
    rw [← show x'.obj = o from frame.obj]
    exact update_self ..
  have fd : x.conn.fd = key := (acts.frame sane.tcp).fd.trans (engaged.fd found)
  refine ⟨by rw [mine]; exact working, q, ?_, ?_⟩
  · rw [whole]
    exact mem_append_left _ (mem_append_right _ (mem_append_right _ member))
  · rw [mine, ← fd]
    exact leads

/-- An event of a connection is handled. In state `close` the close is still to come,
unless it is this event. -/
theorem served (found : w.connections.lookup key = some o)
    (served : Served w env c o w') (sub : ∀ k, k ≠ key → spared k → spared' k)
    (left : ¬ spared' key → (w.heap o).state = .close → c.sqe.flag ≠ .close → w.Pending key o) :
    Engaged spared' w' := by
  have lt := sane.bound found
  cases served with
  | eof state nothing ended => exact engaged.closeConn sane found sub ended
  | armed prelude arming => exact engaged.armed sane found prelude.acts arming sub
  | failed prelude arming ended =>
    have acts : Session.Acts w.cfg (w.session o) _ := prelude.acts.trans arming.acts
    have worked : Engaged (fun k => spared k ∨ k = key) _ := engaged.session sane found
      (acts.frame sane.tcp) (fun _ _ => Or.inl) fun open' => absurd (Or.inr rfl) open'
    refine worked.closeConn (sane.acts lt acts) found ?_ ended
    intro k ne spare
    exact sub k ne (spare.resolve_right ne)
  | spawned state some' received async =>
    rw [engaged.sync] at async
    cases async
  | closed state flag ended => exact engaged.closeConn sane found sub ended
  | @flushed x₁ x state flag sent called =>
    have acts : Session.Acts w.cfg (w.session o) x := written_acts sent called
    have frame := acts.frame sane.tcp
    refine engaged.session sane found frame sub fun open' => ?_
    have before := left open' state (by rw [flag]; decide)
    refine before.mono ?_ fun q member _ => outstanding_sub frame q member
    obtain ⟨rb, rb', _, _, rfl⟩ := onKernelWrite_eq sent
    have obj : x.obj = o := frame.obj
    have same : x.conn.state = (w.heap o).state := (calls_still called).state
    rw [← same, ← obj]
    exact congrArg Connection.state (update_self ..)
  | ignored state other other' =>
    refine { engaged with busy := ?_ }
    intro k i found' open'
    by_cases same : k = key
    · subst same
      cases found.symm.trans found'
      exact left open' state other
    · exact engaged.busy found' fun spare => open' (sub k same spare)
  | unknown state ended => exact engaged.closeConn sane found sub ended

/-- The connection of a new socket, found or entered. -/
theorem addressed (range : w.cfg.kind = .consumer → 2 ≤ fd) (addressed : Addressed w fd o w')
    (sub : ∀ k, spared k → spared' k) (spare : spared' fd) : Engaged spared' w' := by
  cases addressed with
  | @intro w₁ localAddr remoteAddr addresses got =>
    obtain ⟨engaged₁, _⟩ := engaged.get sane range got sub spare
    obtain ⟨sane₁, found⟩ := sane.get got
    have state : ∀ i, (update w₁.heap o { w₁.heap o with
        fd := fd, localAddr := localAddr, remoteAddr := remoteAddr } i).state =
          (w₁.heap i).state := by
      intro i
      by_cases same : i = o
      · rw [same, update_self]
      · rw [update_of_ne same]
    apply engaged₁.of_registry
    case registers => rfl
    case pool => exact fun i member => (state i).trans (engaged₁.pool i member)
    case fd =>
      intro k i found'
      by_cases same : i = o
      · subst same
        simp only [setConn, update_self]
        exact sane₁.inj found found'
      · simp only [setConn, update_of_ne same]
        exact engaged₁.fd found'
    case kept => exact fun found open' => ⟨found, open', state _⟩
    case entries => exact engaged₁.entries

/-- A new connection is announced and armed. -/
theorem welcomed
    (found : w.connections.lookup key = some o) (welcomed : Welcomed w env sqe o none w')
    (sub : ∀ k, k ≠ key → spared k → spared' k) : Engaged spared' w' := by
  obtain ⟨called, arming⟩ := welcomed
  exact engaged.armed sane found (fired_acts called) arming sub

/-- A connection is admitted. -/
theorem admitted {w₁ : Worker}
    (range : w.cfg.kind = .consumer → 2 ≤ fd) (addressed : Addressed w fd o w₁)
    (welcomed : Welcomed w₁ env sqe o none w') : Engaged spared w' := by
  have entered : Engaged (fun k => spared k ∨ k = fd) w₁ :=
    engaged.addressed sane range addressed (fun _ => Or.inl) (Or.inr rfl)
  obtain ⟨sane₁, found, _⟩ := sane.addressed addressed
  exact entered.welcomed sane₁ found welcomed fun k ne spare => spare.resolve_right ne

/-- The accept request of a shard is prepared again. -/
theorem rearmed (shard : w.cfg.kind = .shard)
    (spare : spared w.cfg.listener) (rearmed : Rearmed w o w') : Engaged spared w' := by
  obtain @⟨w₁, got⟩ := rearmed
  have requests : w.prepareAccept.outstanding.Perm (_ :: w.outstanding) :=
    outstanding_push rfl rfl rfl
  have other : ∀ {p : Prop}, w.cfg.kind = .consumer → p :=
    fun consumer => nomatch consumer.symm.trans shard
  have prepared : Engaged spared w.prepareAccept := by
    refine { engaged with busy := ?_, requests := other }
    intro k i found open'
    refine (engaged.busy found open').mono rfl fun q member _ => ?_
    exact requests.symm.subset (mem_cons_of_mem _ member)
  obtain ⟨engaged₁, _⟩ := prepared.get sane.prepareAccept other got (fun _ => id) spare
  obtain ⟨sane₁, found⟩ := sane.prepareAccept.get got
  have cfg := get_cfg got
  apply engaged₁.of_registry
  case registers => rfl
  case pool => exact engaged₁.pool.update sane₁.toIndexed found rfl fun i ne => update_of_ne ne ..
  case fd =>
    intro k i found'
    by_cases same : i = o
    · subst same
      simp only [setConn, update_self]
      exact engaged₁.fd found'
    · simp only [setConn, update_of_ne same]
      exact engaged₁.fd found'
  case kept =>
    intro k i found' open'
    have ne : i ≠ o := by
      rintro rfl
      rw [sane₁.inj found' found] at open'
      exact open' spare
    refine ⟨found', open', ?_⟩
    simp only [setConn, update_of_ne ne]
  case entries =>
    intro consumer
    rw [cfg] at consumer
    exact other consumer

omit sane

/-- The next completion is taken from the queue. -/
theorem pop (first : w.cq = c :: cq) (phase : Phase) (sub : ∀ k, spared k → spared' k)
    (own : c.sqe.flag = .read ∨ c.sqe.flag = .write ∨ c.sqe.flag = .close → spared' c.sqe.key) :
    Engaged spared' { w with phase := phase, cq := cq } := by
  have perm := outstanding_pop first phase
  refine { engaged with busy := ?_, requests := ?_, announced := ?_ }
  · intro k o found open'
    refine (engaged.busy found fun spare => open' (sub k spare)).mono rfl fun q member leads => ?_
    refine (mem_cons.mp (perm.symm.subset member)).resolve_left ?_
    rintro rfl
    rw [← leads.key] at open'
    exact open' (own leads.flag)
  · intro consumer q member
    exact engaged.requests consumer q (perm.subset (mem_cons_of_mem _ member))
  · intro consumer c' member
    refine engaged.announced consumer c' ?_
    rw [first]
    exact mem_cons_of_mem _ member

/-- What is left of a connection when one of its completions has been taken. -/
theorem left (first : w.cq = c :: cq) (phase : Phase)
    (found : w.connections.lookup c.sqe.key = some o) (open' : ¬ spared c.sqe.key) :
    (w.heap o).state.Working ∧ ((w.heap o).state = .close → c.sqe.flag ≠ .close →
      Pending { w with phase := phase, cq := cq } c.sqe.key o) := by
  have pending := engaged.busy found open'
  refine ⟨pending.1, fun state other => ?_⟩
  refine pending.mono rfl fun q member leads => ?_
  refine (mem_cons.mp ((outstanding_pop first phase).symm.subset member)).resolve_left ?_
  rintro rfl
  exact other (leads.close state)

/-- The loop goes on or ends. -/
theorem paced (phase : Phase) (shut : List Int) (accepting : Bool) :
    Engaged spared { w with phase := phase, shut := shut, accepting := accepting } :=
  { engaged with }

omit engaged

/-- An event of a shard's listener. -/
theorem handled_reserved (engaged : Engaged w.cfg.Reserved w) (sane : w.Sane)
    (reserved : w.cfg.Reserved c.sqe.key) (welcoming : env.sqe 0 = true → w.Welcoming env)
    (handled : Handled w env c w') : Engaged w.cfg.Reserved w' := by
  obtain ⟨shard, key⟩ := reserved
  have other : ∀ {p : Prop}, w.cfg.kind = .consumer → p :=
    fun consumer => nomatch consumer.symm.trans shard
  cases handled with
  | looked error consumer got => exact other consumer
  | dropped error _ => exact engaged
  | skipped _ consumer _ _ | announced _ consumer _ _ => exact other consumer
  | served fine kind got stream served =>
    obtain ⟨engaged₁, _⟩ := engaged.get sane other got (fun _ => id) ⟨shard, key⟩
    obtain ⟨sane₁, found⟩ := sane.get got
    refine engaged₁.served sane₁ found served (fun _ _ => id) ?_
    exact fun open' => absurd ⟨shard, key⟩ open'
  | @accepted o err w₁ w₂ w' fine _ got state accepted ended =>
    obtain ⟨engaged₁, _⟩ := engaged.get sane other got (fun _ => id) ⟨shard, key⟩
    obtain ⟨sane₁, found⟩ := sane.get got
    have cfg := get_cfg got
    cases accepted with
    | refused err full =>
      have refused := engaged₁.paced w₁.phase w₁.shut false
      exact refused.closeConn { sane₁ with } found (fun _ _ => id) ended
    | failed err free reason rearmed addressed =>
      have welcoming := welcoming free
      rw [cfg] at reason
      rcases reason with ⟨chosen, refused⟩ | ⟨chosen, refused⟩
      · exact absurd (welcoming.incomingCpu chosen) refused
      · exact absurd (welcoming.keepAlive chosen) refused
    | @welcomed i i' w₃ w₄ w₂ err free rearmed addressed welcomed =>
      have welcoming := welcoming free
      obtain rfl := welcomed.armed welcoming.arm.1 welcoming.arm.2
      cases ended
      rw [← cfg] at shard
      have spare : w.cfg.Reserved w₁.cfg.listener := by
        rw [← cfg]
        exact ⟨shard, rfl⟩
      have rearmed' := engaged₁.rearmed sane₁ shard spare rearmed
      obtain ⟨sane₂, _, _⟩ := sane₁.rearmed rearmed
      have same := rearmed.cfg
      rw [← same] at shard
      refine rearmed'.admitted sane₂ ?_ addressed welcomed
      exact fun consumer => nomatch consumer.symm.trans shard

/-- Any other event, which carries no error. -/
theorem event (engaged : Engaged w.cfg.Reserved w) (sane : w.Sane) (first : w.cq = c :: cq)
    (phase : Phase) (open' : ¬ w.cfg.Reserved c.sqe.key) (fine : 0 ≤ c.res)
    (handled : Handled { w with phase := phase, cq := cq } env c w') :
    w'.phase = .stopped ∨ Engaged w.cfg.Reserved w' := by
  have sane₀ : Sane { w with phase := phase, cq := cq } := { sane with }
  have inside : c ∈ w.cq := by
    rw [first]
    exact mem_cons_self
  have member : c.sqe ∈ w.outstanding := mem_append_right _ (mem_map_of_mem inside)
  have popped : Engaged (fun k => w.cfg.Reserved k ∨ k = c.sqe.key) _ :=
    engaged.pop first phase (fun _ => Or.inl) fun _ => Or.inr rfl
  cases handled with
  | looked error _ _ | dropped error _ => exact absurd error (not_lt.mpr fine)
  | skipped fine consumer flag small =>
    have range := (engaged.requests consumer _ member flag).1
    omega
  | @announced err w₂ fine consumer flag handed =>
    have popped : Engaged w.cfg.Reserved _ := engaged.pop first phase (fun _ => id) (by simp [flag])
    have range := engaged.announced consumer c inside flag fine
    obtain ⟨addressed, welcomed⟩ := handed
    cases err with
    | none => exact Or.inr (popped.admitted sane₀ (fun _ => range) addressed welcomed)
    | some err =>
      obtain ⟨shut, same⟩ := stop_eq w₂
      refine Or.inl ?_
      change w₂.stop.phase = _
      rw [same]
  | @served o w₁ w' fine kind got stream served =>
    have range : w.cfg.kind = .consumer → 2 ≤ c.sqe.key := fun consumer =>
      (engaged.requests consumer _ member (kind consumer).1).1
    obtain ⟨engaged₁, cases'⟩ := popped.get sane₀ range got (fun _ => id) (Or.inr rfl)
    obtain ⟨sane₁, found⟩ := sane₀.get got
    refine Or.inr (engaged₁.served sane₁ found served ?_ ?_)
    · exact fun k ne spare => spare.resolve_right ne
    · intro _ state other
      rcases cases' with ⟨before, rfl⟩ | ⟨_, invalid⟩
      · exact (engaged.left first phase before open').2 state other
      · cases state.symm.trans invalid
  | @accepted o err w₁ w₂ w' fine shard got state accepted ended =>
    have range : w.cfg.kind = .consumer → 2 ≤ c.sqe.key :=
      fun consumer => nomatch consumer.symm.trans shard
    obtain ⟨_, ⟨before, rfl⟩ | ⟨_, invalid⟩⟩ :=
      popped.get sane₀ range got (fun _ => id) (Or.inr rfl)
    · rcases (engaged.left first phase before open').1 with other | other | other <;>
        cases other.symm.trans state
    · cases state.symm.trans invalid

variable (engaged : Engaged spared w)
include engaged

/-- The kernel's part of a request leaves every connection in its state. -/
theorem executed {q : Sqe} (member : q ∈ w.outstanding) {res : Int}
    {data : List UInt8} (executed : Executed w q res data w') : Engaged spared w' := by
  cases executed with
  | error error flag => exact engaged
  | sendError error flag nothing => exact { engaged with }
  | accepted fine flag closed small =>
    refine { engaged with std := fun consumer => ?_ }
    exact (engaged.std consumer).imp (mem_cons_of_mem _) (mem_cons_of_mem _)
  | received _ _ _ _ | sent _ _ _ _ => exact { engaged with }
  | closed fine flag =>
    refine { engaged with std := fun consumer => ?_ }
    have range := (engaged.requests consumer q member (by rw [flag]; decide)).2
    exact (engaged.std consumer).imp
      (fun open' => mem_filter.mpr ⟨open', decide_eq_true (by omega)⟩)
      fun open' => mem_filter.mpr ⟨open', decide_eq_true (by omega)⟩

/-- Entries of a submitted chain are completed. -/
theorem complete {chain : Nat} {old : List Sqe} {cqes : List Cqe}
    (found : w.inflight[chain]? = some old) (perm : (new ++ cqes.map Cqe.sqe).Perm old)
    (news : ∀ c ∈ cqes, c.sqe.flag = .addConn → c.res < 0) :
    Engaged spared { w with inflight := w.inflight.set chain new, cq := w.cq ++ cqes } := by
  have perm := outstanding_complete found perm
  refine { engaged with busy := ?_, requests := ?_, announced := ?_ }
  · intro k o found open'
    exact (engaged.busy found open').mono rfl fun q member _ => perm.symm.subset member
  · exact fun consumer q member => engaged.requests consumer q (perm.subset member)
  · intro consumer c member flag fine
    rcases mem_append.mp member with old | new
    · exact engaged.announced consumer c old flag fine
    · exact absurd (news c new flag) (not_lt.mpr fine)

theorem submit (chains : Nat) (phase : Phase) (shut : List Int) :
    Engaged spared (w.submit chains phase shut) := by
  have same : (w.submit chains phase shut).outstanding = w.outstanding :=
    congrArg (· ++ w.cq.map Cqe.sqe) (underway_submit w chains phase shut)
  refine { engaged with busy := ?_, requests := ?_ }
  · intro k o found open'
    refine (engaged.busy found open').mono rfl fun q member _ => ?_
    rw [same]
    exact member
  · rw [same]
    exact engaged.requests

/-- The acceptor hands a descriptor over that was not open. -/
theorem handOff (nonneg : 0 ≤ fd) (closed : fd ∉ w.openFds)
    {addresses : AList fun _ : Int => NetAddr} {connQueue : List Int}
    (announced : (cq = w.cq ++ [{ sqe := { flag := .addConn, key := 0, fd := fd }, res := fd }] ∧
      connQueue = w.connQueue) ∨ (cq = w.cq ∧ connQueue = w.connQueue ++ [fd])) :
    Engaged spared { w with openFds := fd :: w.openFds, socketAddresses := addresses, cq := cq
                            connQueue := connQueue } := by
  have kept : ∀ q ∈ w.outstanding, q ∈ w.underway ++ cq.map Cqe.sqe := by
    intro q member
    rcases announced with ⟨rfl, _⟩ | ⟨rfl, _⟩
    · rw [map_append, ← append_assoc]
      exact mem_append_left _ member
    · exact member
  have range : w.cfg.kind = .consumer → 2 ≤ fd := by
    intro consumer
    have zero : fd ≠ 0 := fun same => closed (same ▸ (engaged.std consumer).1)
    have one : fd ≠ 1 := fun same => closed (same ▸ (engaged.std consumer).2)
    omega
  refine { engaged with
    busy := ?busy, std := ?std, requests := ?requests, announced := ?announced
    connQueue := ?connQueue }
  case busy =>
    intro k o found open'
    exact (engaged.busy found open').mono rfl fun q member _ => kept q member
  case std =>
    exact fun consumer => (engaged.std consumer).imp (mem_cons_of_mem _)
      (mem_cons_of_mem _)
  case requests =>
    intro consumer q member flag
    refine engaged.requests consumer q ?_ flag
    rcases announced with ⟨rfl, _⟩ | ⟨rfl, _⟩
    · change q ∈ w.underway ++ List.map Cqe.sqe (_ ++ [_]) at member
      rw [map_append, ← append_assoc] at member
      refine (mem_append.mp member).resolve_right fun added => ?_
      rw [mem_singleton.mp added] at flag
      exact flag rfl
    · exact member
  case announced =>
    intro consumer c member flag
    rcases announced with ⟨rfl, _⟩ | ⟨rfl, _⟩
    · rcases mem_append.mp member with old | added
      · exact engaged.announced consumer c old flag
      · rw [mem_singleton.mp added]
        exact fun _ => range consumer
    · exact engaged.announced consumer c member flag
  case connQueue =>
    intro consumer fd' member
    rcases announced with ⟨_, rfl⟩ | ⟨_, rfl⟩
    · exact engaged.connQueue consumer fd' member
    · rcases mem_append.mp member with old | added
      · exact engaged.connQueue consumer fd' old
      · rw [mem_singleton.mp added]
        exact range consumer

end Engaged

/-- No shutdown is requested and no completion but the listener's carries an error. A
connection that is accepted is configured and armed, and so is one from the queue. -/
def Provided (w : Worker) : Label → Prop
  | .shutdown => False
  | .event env => ∀ c ∈ w.cq.head?,
      if w.cfg.Reserved c.sqe.key then env.sqe 0 = true → w.Welcoming env else 0 ≤ c.res
  | .newConn env => env.sqe 0 = true ∧ env.sqe 1 = true
  | _ => True

instance (w : Worker) : (label : Label) → Decidable (w.Provided label)
  | .shutdown => isFalse id
  | .event _ => inferInstanceAs (Decidable (∀ c ∈ w.cq.head?, _))
  | .newConn _ => inferInstanceAs (Decidable (_ ∧ _))
  | .turn .. | .peek | .endBatch | .asyncWrite _ | .complete .. | .handOff .. | .taskBegin _
  | .taskCall .. | .taskEnd _ => isTrue trivial

/-- A loop that has ended does not go on. -/
theorem Stepped.stopped (stepped : Stepped w label w') (ended : w.phase = .stopped) :
    w'.phase = .stopped := by
  have other : ∀ {phase : Phase} {p : Prop}, w.phase = phase → phase ≠ .stopped → p :=
    fun same running => absurd (same.symm.trans ended) running
  cases stepped with
  | shutdown => exact ended
  | turn top all kept => exact other top nofun
  | event phase first handled => exact other phase nofun
  | paced quiet running kept => exact absurd ended running
  | newConn phase _ _ | asyncWrite phase _ _ => exact other phase nofun
  | completed found executed settles => cases executed <;> exact ended
  | handOff _ _ _ _ _ | taskBegin _ | taskCall _ _ | taskEnd _ _ => exact ended

namespace Engaged

/-- Every provided step keeps connections engaged. -/
theorem step (engaged : Engaged w.cfg.Reserved w) (sane : w.Sane) (provided : w.Provided label)
    (stepped : Stepped w label w') : w'.phase = .stopped ∨ Engaged w.cfg.Reserved w' := by
  have noTask : ∀ {i : Nat} {t : Task} {p : Prop}, w.tasks[i]? = some t → p := by
    intro i t p found
    rw [engaged.tasks] at found
    cases found
  cases stepped with
  | shutdown => exact provided.elim
  | @turn order chains result phase shut top all kept =>
    have same : w.shutdownHandler order = w := by
      unfold shutdownHandler needToShutdown
      rw [engaged.calm]
      rfl
    rw [same]
    exact Or.inr (engaged.submit chains phase shut)
  | @event env left c cq w' phase first handled =>
    have head : c ∈ w.cq.head? := by
      rw [first]
      rfl
    have provided := provided c head
    by_cases reserved : w.cfg.Reserved c.sqe.key
    · rw [if_pos reserved] at provided
      have popped := engaged.pop first (.events left) (fun _ => id) fun _ => reserved
      have sane₀ : Sane { w with phase := .events left, cq := cq } := { sane with }
      refine Or.inr (handled_reserved (w := { w with phase := .events left, cq := cq }) popped
        sane₀ reserved (fun free => ?_) handled)
      have welcoming := provided free
      exact ⟨welcoming.accept, welcoming.arm, welcoming.incomingCpu, welcoming.keepAlive⟩
    · rw [if_neg reserved] at provided
      exact engaged.event sane first _ reserved provided handled
  | @paced label phase shut quiet running kept =>
    exact Or.inr (engaged.paced phase shut w.accepting)
  | @newConn env fd rest err w' phase first handed =>
    have range : w.cfg.kind = .consumer → 2 ≤ fd := fun consumer =>
      engaged.connQueue consumer fd (by rw [first]; exact mem_cons_self)
    have taken : Engaged w.cfg.Reserved { w with connQueue := rest } := by
      refine { engaged with connQueue := fun consumer fd' member => ?_ }
      refine engaged.connQueue consumer fd' ?_
      rw [first]
      exact mem_cons_of_mem _ member
    obtain ⟨addressed, welcomed⟩ := handed
    obtain rfl := welcomed.armed provided.1 provided.2
    have sane₀ : Sane { w with connQueue := rest } := { sane with }
    exact Or.inr (taken.admitted sane₀ range addressed welcomed)
  | asyncWrite phase first arming =>
    rw [engaged.queued] at first
    cases first
  | completed found executed settles =>
    have member := mem_append_left (w.cq.map Cqe.sqe)
      (mem_underway_of_getElem? found mem_cons_self)
    have engaged₁ := engaged.executed member executed
    rw [← executed.queues.1] at found
    exact Or.inr (engaged₁.complete found settles.perm (settles.all
      (fun flag => absurd flag executed.flag) fun _ error _ => error))
  | handOff consumer nonneg small closed announced =>
    exact Or.inr (engaged.handOff nonneg closed announced)
  | taskBegin found | taskCall found _ | taskEnd found _ => exact noTask found

end Engaged

variable {cfg : Config} {streams : Streams}

/-- No connection is idle at the start. -/
theorem init_engaged (sync : cfg.asyncHandler = false) (streams : Streams) :
    Engaged cfg.Reserved (init cfg streams) where
  sync := sync
  calm := rfl
  tasks := rfl
  queued := rfl
  pool := forall_mem_nil _
  fd := fun found => by cases found
  busy := fun found => by cases found
  std := fun _ => ⟨mem_cons_self, mem_cons_of_mem _ mem_cons_self⟩
  requests := fun _ => forall_mem_nil _
  announced := fun _ => forall_mem_nil _
  connQueue := fun _ => forall_mem_nil _
  entries := fun _ _ _ found => by cases found

theorem start_engaged (tcp : cfg.sendRecvMsg = false) (sync : cfg.asyncHandler = false)
    (started : start cfg streams = some w) : Engaged cfg.Reserved w := by
  have initial := init_engaged sync streams
  rcases start_eq tcp started with ⟨_, rfl⟩ | ⟨shard, o, w₁, rearmed, rfl⟩
  · exact initial
  · have engaged := initial.rearmed (init_sane tcp streams) shard ⟨shard, rfl⟩ rearmed
    exact engaged.paced w₁.phase w₁.shut true

/-- In every state of a run of a stream worker with synchronous handlers in which no
completion of a connection carries an error and every admission succeeds, unless the loop has
ended, every connection but the listener has a receive, a send or a close that is not yet
handled. -/
theorem run_pending_of_provided (tcp : cfg.sendRecvMsg = false) (sync : cfg.asyncHandler = false)
    (started : start cfg streams = some w) {ls : List Label} (ran : run step ls w = some w')
    (along : Along step Provided ls w) (running : w'.phase ≠ .stopped)
    (found : w'.connections.lookup k = some o) (other : ¬ w'.cfg.Reserved k) :
    ∃ q ∈ w'.outstanding, q.key = k ∧ (q.flag = .read ∨ q.flag = .write ∨ q.flag = .close) := by
  have preserved : ∀ s l s', s.Sane → Provided s l → Stepped s l s' →
      s.cfg = cfg ∧ (s.phase = .stopped ∨ Engaged cfg.Reserved s) →
      s'.cfg = cfg ∧ (s'.phase = .stopped ∨ Engaged cfg.Reserved s') := by
    rintro s l s' sane provided stepped ⟨rfl, stopped | engaged⟩
    · exact ⟨stepped.cfg, Or.inl (stepped.stopped stopped)⟩
    · exact ⟨stepped.cfg, engaged.step sane provided stepped⟩
  obtain ⟨_, rfl, engaged⟩ := Sane.run preserved (start_sane tcp started) ran along
    ⟨start_cfg tcp started, Or.inr (start_engaged tcp sync started)⟩
  obtain ⟨_, q, member, leads⟩ := (engaged.resolve_left running).busy found other
  exact ⟨q, member, leads.key, leads.flag⟩

/-- A consumer takes a connection from its queue and arms its first receive; in the next
turn it is submitted. -/
def dequeued : List Label :=
  [.handOff 5 7, .turn [] 0 .done, .peek, .endBatch, .newConn {}, .newConn {}, .asyncWrite {},
    .turn [] 1 .done, .peek, .endBatch, .newConn {}, .asyncWrite {}]

theorem run_pending_of_provided_dequeued : ∃ w w' o, start queueing keepNothing = some w ∧
    run step dequeued w = some w' ∧ w'.connections.lookup 5 = some o ∧ w'.phase = .top ∧
    ∃ q ∈ w'.outstanding, q.key = 5 ∧ (q.flag = .read ∨ q.flag = .write ∨ q.flag = .close) := by
  obtain ⟨w, w', started, ran, along, top, found, other⟩ : ∃ w w',
      start queueing keepNothing = some w ∧
      run step dequeued w = some w' ∧ Along step Provided dequeued w ∧ w'.phase = .top ∧
      w'.connections.lookup 5 = some 0 ∧ ¬ w'.cfg.Reserved 5 := exists_run (by decide)
  have running : w'.phase ≠ .stopped := by
    rw [top]
    exact nofun
  exact ⟨w, w', 0, started, ran, found, top,
    run_pending_of_provided rfl rfl started ran along running found other⟩

/-- The peer of a connection resets it. -/
def peerReset : List Label :=
  [.handOff 5 7, .turn [] 0 .done, .peek, .endBatch, .newConn {}, .newConn {}, .asyncWrite {},
    .turn [] 1 .done, .peek, .endBatch, .newConn {}, .asyncWrite {},
    .complete 0 (-104) false [] none, .turn [] 0 .done, .peek, .event {}, .endBatch, .newConn {},
    .asyncWrite {}]

/-- There is no submission entry for the first receive of a connection from the queue. -/
def crowded : List Label :=
  [.handOff 5 7, .turn [] 0 .done, .peek, .endBatch, .newConn { sqe := fun _ => false },
    .newConn {}, .asyncWrite {}]

/-- A connection that was reset, and one that could not be armed, stay registered with
nothing underway. -/
theorem run_not_pending :
    (∃ w w', start queueing keepNothing = some w ∧ run step peerReset w = some w' ∧
      w'.phase = .top ∧ w'.shutdowning = false ∧ w'.connections.lookup 5 = some 0 ∧
      w'.outstanding = []) ∧
    ∃ w w', start queueing keepNothing = some w ∧ run step crowded w = some w' ∧
      w'.phase = .top ∧ w'.shutdowning = false ∧ w'.connections.lookup 5 = some 0 ∧
      w'.outstanding = [] := by
  exact ⟨exists_run (by decide), exists_run (by decide)⟩

end Worker

end Gain
