import Gain.Worker.Ownership

/-! # The kernel and the handlers keep out of each other's way

While the kernel holds the address of a buffer, the methods of the connection are
refused. The kernel has one buffer of a connection at most, and the completion
that opens the guard is the one that gives it back; a shutdown sweep queues the
close of a connection and leaves its guard as it is. What can break this is a
descriptor that is taken up while something is still outstanding under it.
-/

namespace Gain

open Function List Session

namespace Session

end Session

/-- A receive or a send of a connection in that life. -/
def Sqe.Holds (life : Nat) (q : Sqe) : Prop := (q.flag = .read ∨ q.flag = .write) ∧ q.life = life

instance (life : Nat) (q : Sqe) : Decidable (q.Holds life) := inferInstanceAs (Decidable (_ ∧ _))

/-- How many buffers of the life the requests give to the kernel. -/
def held (life : Nat) (l : List Sqe) : Nat := l.countP fun q => q.Holds life

/-- The states in which the next completion is of a receive or a send. -/
def ConnState.Transferring (state : ConnState) : Prop := state = .read ∨ state = .write

section Fenced

variable {cfg : Config} {k : Int} {c : Connection} {l l' new : List Sqe} {q : Sqe} {x x' : Session}
  {life : Nat}

theorem held_eq_zero : held life l = 0 ↔ ∀ q ∈ l, ¬ q.Holds life := by
  rw [held, countP_eq_zero]
  simp

theorem held_append (life : Nat) : held life (new ++ l) = held life new + held life l :=
  countP_append

/-- The descriptor is the connection's alone: whatever is outstanding under it was requested
by this connection in this life. -/
structure Claimed (cfg : Config) (k fd : Int) (life : Nat) (l : List Sqe) : Prop where
  fd : fd = k
  nonzero : k ≠ 0
  other : ¬ cfg.Reserved k
  own : ∀ q ∈ l, q.key = k →
    q.life = life ∧ (q.flag = .read ∨ q.flag = .write ∨ q.flag = .close)

theorem Claimed.mono {fd : Int} (claimed : Claimed cfg k fd life l)
    (sub : ∀ q ∈ l', q.key = k → q ∈ l) : Claimed cfg k fd life l' :=
  { claimed with own := fun q member key => claimed.own q (sub q member key) key }

/-- The kernel has at most one buffer of the connection, and while it has one the methods of
the connection are kept out. -/
structure Fenced (cfg : Config) (k : Int) (c : Connection) (l : List Sqe) : Prop where
  one : held c.life l ≤ 1
  guarded : held c.life l = 0 ∨ c.mode = .kernelSpace ∨ c.closed = true
  claimed : c.state.Transferring ∨ held c.life l ≠ 0 → Claimed cfg k c.fd c.life l
  open' : c.state.Transferring → ∀ q ∈ l, q.key = k → q.flag ≠ .close
  listener : c.state = .accept → k = cfg.listener
  fd : c.fd = k ∨ c.fd = 0

namespace Fenced

/-- Requests are dropped, or requests of others are added. -/
theorem mono (fenced : Fenced cfg k c l) (fewer : held c.life l' ≤ held c.life l)
    (sub : k ≠ 0 → ¬ cfg.Reserved k → ∀ q ∈ l', q.key = k → q ∈ l) : Fenced cfg k c l' where
  __ := fenced
  one := fewer.trans fenced.one
  guarded := fenced.guarded.imp_left fun none' => Nat.le_zero.mp (fewer.trans_eq none')
  claimed some' := by
    have claimed := fenced.claimed (some'.imp_right fun some' none' => some' (by omega))
    exact claimed.mono (sub claimed.nonzero claimed.other)
  open' state q member key := by
    have claimed := fenced.claimed (Or.inl state)
    exact fenced.open' state q (sub claimed.nonzero claimed.other q member key) key

theorem perm (fenced : Fenced cfg k c l) (perm : l'.Perm l) : Fenced cfg k c l' :=
  fenced.mono (perm.countP_eq _).le fun _ _ _ member _ => perm.subset member

/-- Requests of others are added. -/
theorem join (fenced : Fenced cfg k c l) (perm : l'.Perm (new ++ l))
    (lives : ∀ q ∈ new, ¬ q.Holds c.life)
    (keys : ∀ q ∈ new, q.key = k → k = 0 ∨ cfg.Reserved k) : Fenced cfg k c l' := by
  refine fenced.mono ?_ fun nonzero other q member key => ?_
  · rw [held, perm.countP_eq]
    change held c.life (new ++ l) ≤ _
    rw [held_append, held_eq_zero.mpr lives, Nat.zero_add]
  · refine (mem_append.mp (perm.subset member)).resolve_left fun added => ?_
    exact (keys q added key).elim nonzero other

/-- A connection that is not transferring and of which the kernel has no buffer. -/
theorem of_none (none' : held c.life l = 0) (state : ¬ c.state.Transferring)
    (listener : c.state = .accept → k = cfg.listener) (fd : c.fd = k ∨ c.fd = 0) :
    Fenced cfg k c l where
  one := none'.trans_le (Nat.zero_le 1)
  guarded := Or.inl none'
  claimed some' := absurd (some'.resolve_left state) (not_not.mpr none')
  open' transferring := absurd transferring state
  listener := listener
  fd := fd

/-- What completes in states `read` and `write` is the one buffer the kernel had. -/
theorem first (fenced : Fenced cfg k c (q :: l)) (key : q.key = k) (state : c.state.Transferring) :
    held c.life l = 0 ∧ Claimed cfg k c.fd c.life l ∧ ∀ q ∈ l, q.key = k → q.flag ≠ .close := by
  have claimed := fenced.claimed (Or.inl state)
  obtain ⟨life, flag⟩ := claimed.own q mem_cons_self key
  have mine : q.Holds c.life := by
    refine ⟨?_, life⟩
    rcases flag with read | write | close
    · exact Or.inl read
    · exact Or.inr write
    · exact absurd close (fenced.open' state q mem_cons_self key)
  have one := fenced.one
  rw [held, countP_cons_of_pos (by simpa using mine)] at one
  refine ⟨?_, claimed.mono fun q member _ => mem_cons_of_mem _ member, ?_⟩
  · exact Nat.le_zero.mp (Nat.le_of_succ_le_succ one)
  · exact fun q member => fenced.open' state q (mem_cons_of_mem _ member)

/-- A send that completes is the one buffer the kernel had, if it had any. -/
theorem sent (fenced : Fenced cfg k c (q :: l)) (key : q.key = k) (flag : q.flag = .write) :
    held c.life l = 0 := by
  have one := fenced.one
  by_cases none' : held c.life (q :: l) = 0
  · exact held_eq_zero.mpr fun q' member => held_eq_zero.mp none' q' (mem_cons_of_mem _ member)
  · have claimed := fenced.claimed (Or.inr none')
    have mine : q.Holds c.life := ⟨Or.inr flag, (claimed.own q mem_cons_self key).1⟩
    rw [held, countP_cons_of_pos (by simpa using mine)] at one
    exact Nat.le_zero.mp (Nat.le_of_succ_le_succ one)

end Fenced

/-- What arming a connection adds: at most one buffer, with the connection in kernel space. -/
theorem Session.Armed.fences (armed : Session.Armed cfg x new x') :
    x'.conn.fd = x.conn.fd ∧ (∀ q ∈ new, q.life = x.conn.life ∧
        (q.flag = .read ∨ q.flag = .write ∨ q.flag = .close)) ∧ held x.conn.life new ≤ 1 ∧
      (held x.conn.life new = 0 ∨ x'.conn.mode = .kernelSpace) ∧
      (x'.conn.state.Transferring → ∀ q ∈ new, q.flag ≠ .close) ∧
      (x'.conn.state = .accept → x.conn.state = .accept) := by
  cases armed with
  | nothing => simp [held]
  | read _ _ _ | write _ _ _ | writeClose _ _ _ | close _ =>
    simp [held, Session.entry, Session.closing, Sqe.Holds, ConnState.Transferring]

/-- A connection of which the kernel has no buffer is armed. -/
theorem Fenced.armed (armed : Session.Armed cfg x new x') (perm : l'.Perm (new ++ l))
    (none' : held x.conn.life l = 0) (claimed : Claimed cfg k x.conn.fd x.conn.life l)
    (open' : ∀ q ∈ l, q.key = k → q.flag ≠ .close) (state : x.conn.state ≠ .accept) :
    Fenced cfg k x'.conn l' := by
  obtain ⟨fd, issued, one, guarded, transferring, accept⟩ := armed.fences
  have life := armed.life
  have count : held x'.conn.life l' = held x.conn.life new := by
    rw [life, held, perm.countP_eq]
    change held x.conn.life (new ++ l) = _
    rw [held_append, none', Nat.add_zero]
  refine ⟨count.trans_le one, ?_, fun _ => ?_, ?_, fun same => absurd (accept same) state,
    Or.inl (fd.trans claimed.fd)⟩
  · rw [count]
    exact guarded.imp_right Or.inl
  · refine ⟨fd.trans claimed.fd, claimed.nonzero, claimed.other, fun q member key => ?_⟩
    rw [life]
    rcases mem_append.mp (perm.subset member) with added | old
    · exact issued q added
    · exact claimed.own q old key
  · intro busy q member key
    rcases mem_append.mp (perm.subset member) with added | old
    · exact transferring busy q added
    · exact open' q old key

/-- The close of the connection is requested, whatever is outstanding. -/
theorem Fenced.swept (fenced : Fenced cfg k x.conn l) (perm : l'.Perm (x.closing :: l)) :
    Fenced cfg k { x.conn with state := .close } l' := by
  have count : held x.conn.life l' = held x.conn.life l := by
    rw [held, perm.countP_eq, countP_cons_of_neg (by simp [Session.closing, Session.entry,
      Sqe.Holds])]
    rfl
  refine ⟨count.trans_le fenced.one, ?_, ?_, ?_, fun opened => ?_, fenced.fd⟩
  · change held x.conn.life l' = 0 ∨ _
    rw [count]
    exact fenced.guarded
  · rintro (busy | some')
    · exact absurd busy (by simp [ConnState.Transferring])
    · change held x.conn.life l' ≠ 0 at some'
      rw [count] at some'
      have claimed := fenced.claimed (Or.inr some')
      refine { claimed with own := fun q member key => ?_ }
      rcases mem_cons.mp (perm.subset member) with rfl | old
      · exact ⟨rfl, Or.inr (Or.inr rfl)⟩
      · exact claimed.own q old key
  · exact fun busy => absurd busy (by simp [ConnState.Transferring])
  · cases opened

end Fenced

namespace Worker

variable {w w' : Worker} {o : Nat} {k key fd : Int} {x x' : Session} {env : Env} {c : Cqe}
  {err : Option Error} {cfg : Config} {streams : Streams}

/-- Handlers are synchronous, and every connection is fenced. -/
structure Fences (w : Worker) : Prop where
  sync : w.cfg.asyncHandler = false
  tasks : w.tasks = []
  queued : w.asyncOpQueue = []
  pool : w.Rested
  born : ∀ q ∈ w.outstanding, q.flag = .read ∨ q.flag = .write → q.life < w.nextLife
  entries : ∀ {k : Int} {o : Nat}, w.connections.lookup k = some o →
    Fenced w.cfg k (w.heap o) w.outstanding

/-- Nothing stands in the way of a new connection under the descriptor, which is neither the
first standard stream nor the listener: it has no entry, and nothing is outstanding under it. -/
@[mk_iff]
structure Unclaimed (w : Worker) (fd : Int) : Prop where
  nonzero : fd ≠ 0
  other : ¬ w.cfg.Reserved fd
  absent : w.connections.lookup fd = none
  quiet : ∀ q ∈ w.outstanding, q.key ≠ fd

namespace Fences

variable (fences : w.Fences)
include fences

/-- The requests have changed, and the connections have not. -/
theorem of_requests (cfg : w'.cfg = w.cfg) (heap : w'.heap = w.heap)
    (connections : w'.connections = w.connections) (connPool : w'.connPool = w.connPool)
    (tasks : w'.tasks = w.tasks) (queued : w'.asyncOpQueue = w.asyncOpQueue)
    (nextLife : w'.nextLife = w.nextLife)
    (born : ∀ q ∈ w'.outstanding, q.flag = .read ∨ q.flag = .write → q ∈ w.outstanding)
    (entries : ∀ {k : Int} {c : Connection}, Fenced w.cfg k c w.outstanding →
      Fenced w.cfg k c w'.outstanding) : w'.Fences := by
  refine ⟨?_, tasks.trans fences.tasks, queued.trans fences.queued, ?_, ?_, ?_⟩
  · rw [cfg]
    exact fences.sync
  · rw [Rested, connPool, heap]
    exact fences.pool
  · intro q member flag
    rw [nextLife]
    exact fences.born q (born q member flag) flag
  · intro k o found
    rw [connections] at found
    rw [cfg, heap]
    exact entries (fences.entries found)

theorem of_perm (cfg : w'.cfg = w.cfg) (heap : w'.heap = w.heap)
    (connections : w'.connections = w.connections) (connPool : w'.connPool = w.connPool)
    (tasks : w'.tasks = w.tasks) (queued : w'.asyncOpQueue = w.asyncOpQueue)
    (nextLife : w'.nextLife = w.nextLife) (perm : w'.outstanding.Perm w.outstanding) : w'.Fences :=
  fences.of_requests cfg heap connections connPool tasks queued nextLife
    (fun _ member _ => perm.subset member) fun fenced => fenced.perm perm

variable (sane : w.Sane)
include sane

/-- Code works on a registered connection. -/
theorem session (found : w.connections.lookup key = some o)
    (frame : Session.Frame w.cfg (w.session o) x)
    (mine : Fenced w.cfg key x.conn (w.setSession x).outstanding) : (w.setSession x).Fences := by
  obtain rfl : x.obj = o := frame.obj
  obtain ⟨new, pushed, own⟩ := frame.prepared
  have whole : (w.setSession x).outstanding.Perm (new ++ w.outstanding) := by
    rw [outstanding_setSession pushed, append_assoc]
    exact (perm_append_comm_assoc ..)
  have heap : ∀ i, i ≠ x.obj → (w.setSession x).heap i = w.heap i := fun i ne => update_of_ne ne ..
  refine { fences with pool := fences.pool.update sane.toIndexed found rfl heap, born := ?_
                       entries := ?_ }
  · intro q member flag
    rcases mem_append.mp (whole.subset member) with added | old
    · rw [(own q added).life]
      exact sane.lives _ (sane.bound found)
    · exact fences.born q old flag
  · intro k i found'
    by_cases same : k = key
    · subst same
      cases found.symm.trans found'
      rw [show (w.setSession x).heap x.obj = x.conn from update_self ..]
      exact mine
    · rw [heap i fun same' => same (sane.inj (same' ▸ found') found)]
      refine (fences.entries found').join whole (fun q added holds => ?_) fun q added key' => ?_
      · exact same (sane.lifeInj found' found (holds.2.symm.trans (own q added).life))
      · have fd := (fences.entries found).fd
        rw [← show q.key = (w.heap x.obj).fd from (own q added).key, key'] at fd
        exact Or.inl (fd.resolve_left same)

/-- A registered connection is rewritten. -/
theorem setConn (found : w.connections.lookup key = some o)
    {c : Connection} (mine : Fenced w.cfg key c w.outstanding) : (w.setConn o c).Fences := by
  have heap : ∀ i, i ≠ o → (w.setConn o c).heap i = w.heap i := fun i ne => update_of_ne ne ..
  refine { fences with pool := fences.pool.update sane.toIndexed found rfl heap, entries := ?_ }
  intro k i found'
  by_cases same : i = o
  · subst same
    cases sane.inj found found'
    rw [show (w.setConn i c).heap i = c from update_self ..]
    exact mine
  · rw [heap i same]
    exact fences.entries found'

theorem released (released : Released w key o w') : w'.Fences := by
  have pool := fences.pool.released released
  have entries : ∀ {k i}, w'.connections.lookup k = some i →
      Fenced w.cfg k (w'.heap i) w.outstanding := by
    intro k i found
    obtain ⟨_, registered, _, same⟩ := sane.of_released released found
    rw [same]
    exact fences.entries registered
  rw [released.frame] at pool entries ⊢
  exact { fences with pool := pool, entries := entries }

theorem closeConn (found : w.connections.lookup key = some o) {syscallClose : Bool}
    {ops : List ConnOp} (done : w.closeConn o syscallClose err ops = some w') : w'.Fences := by
  have frame : Session.Frame w.cfg _ _ := ended_frame (w.session o) syscallClose err
  refine (fences.session sane found frame ?_).released (sane.setSession (sane.bound found) frame)
    (sane.ended found done)
  exact { fences.entries found with guarded := Or.inr (Or.inr rfl) }

/-- A new connection object is entered, and nothing is outstanding for its life. -/
theorem entered {base : Connection}
    (entered : Entered w key fd o base w') (own : fd = key ∨ fd = 0) :
    w'.Fences ∧ (w'.heap o).state = .invalid ∧ (w'.heap o).fd = fd ∧
      held (w'.heap o).life w.outstanding = 0 := by
  obtain ⟨inbound, outbound, conn⟩ := entered.conn
  obtain ⟨pool, state⟩ := fences.pool.entered sane.toIndexed entered
  have fd' : (w'.heap o).fd = fd := by rw [conn]
  have none' : held (w'.heap o).life w.outstanding = 0 := by
    refine held_eq_zero.mpr fun q member holds => ?_
    have lt := fences.born q member holds.1
    rw [holds.2, entered.life] at lt
    exact lt_irrefl _ lt
  refine ⟨?_, state, fd', none'⟩
  have entries : ∀ {k i}, w'.connections.lookup k = some i →
      Fenced w.cfg k (w'.heap i) w.outstanding := by
    intro k i found
    rcases entered.lookup_cases found with ⟨rfl, rfl⟩ | ⟨_, before⟩
    · refine .of_none none' (by simp [state, ConnState.Transferring]) (by simp [state]) ?_
      rw [fd']
      exact own
    · rw [entered.others i (sane.unused entered.toTaken before)]
      exact fences.entries before
  rw [entered.frame] at pool entries ⊢
  refine { fences with pool := pool, born := fun q member flag => ?_, entries := entries }
  exact Nat.lt_succ_of_lt (fences.born q member flag)

/-- A connection is found, or it is a new one in no state. -/
theorem get (got : w.get key fd = (o, w')) (own : fd = key ∨ fd = 0) :
    w'.Fences ∧ (w' = w ∧ w.connections.lookup key = some o ∨ (w'.heap o).state = .invalid) := by
  rcases get_cases w sane.poolBound key fd with ⟨o', found, same⟩ | ⟨o', base, w₁, entered, same⟩
  · cases got.symm.trans same
    exact ⟨fences, Or.inl ⟨rfl, found⟩⟩
  · cases got.symm.trans same
    obtain ⟨fences, state, _⟩ := fences.entered sane entered own
    exact ⟨fences, Or.inr state⟩

variable {sqe : Nat → Bool}

/-- A connection of which the kernel has no buffer is armed. -/
theorem armed (found : w.connections.lookup key = some o)
    (acts : Session.Acts w.cfg (w.session o) x) (sq : x.sq = w.sq) (state : x.conn.state ≠ .accept)
    (arming : Session.Arming w.cfg sqe x err x') (none' : held (w.heap o).life w.outstanding = 0)
    (claimed : Claimed w.cfg key (w.heap o).fd (w.heap o).life w.outstanding)
    (open' : ∀ q ∈ w.outstanding, q.key = key → q.flag ≠ .close) : (w.setSession x').Fences := by
  have frame := acts.frame sane.tcp
  have life : x.conn.life = (w.heap o).life := frame.life
  obtain ⟨new, armed, _⟩ := arming.prepared sane.tcp
  have pushed : x'.sq = Chains.pushAll w.sq new := by rw [armed.sq, sq]
  have both : Session.Acts w.cfg (w.session o) x' := acts.trans arming.acts
  refine fences.session sane found (both.frame sane.tcp) ?_
  refine .armed armed (l := w.outstanding) ?_ (life ▸ none') ?_ open' state
  · rw [outstanding_setSession pushed, append_assoc]
    exact perm_append_comm_assoc ..
  · rw [life, show x.conn.fd = (w.heap o).fd from frame.fd]
    exact claimed

/-- A completion of a connection is handled. What the connection had outstanding before is
what it has now and this request. -/
theorem served (found : w.connections.lookup c.sqe.key = some o) (served : Served w env c o w')
    (before : (w.heap o).state = .invalid ∨
      Fenced w.cfg c.sqe.key (w.heap o) (c.sqe :: w.outstanding)) : w'.Fences := by
  have lt := sane.bound found
  have armed : ∀ {x x' : Session} {err : Option Error},
      Session.Prelude w.cfg env.handler c (w.session o) x →
      Session.Arming w.cfg env.sqe x err x' → (w.setSession x').Fences := by
    intro x x' err prelude arming
    obtain ⟨transferring, state, sq⟩ := prelude.state
    have other : ∀ {p : Prop}, (w.heap o).state = .invalid → p := fun invalid =>
      transferring.elim (fun read => nomatch read.symm.trans invalid)
        fun write => nomatch write.symm.trans invalid
    obtain ⟨none', claimed, open'⟩ := (before.resolve_left other).first rfl transferring
    refine fences.armed sane found prelude.acts sq ?_ arming none' claimed open'
    rw [state]
    rcases transferring with read | write
    · rw [read]
      decide
    · rw [write]
      decide
  cases served with
  | eof state nothing ended => exact fences.closeConn sane found ended
  | armed prelude arming => exact armed prelude arming
  | failed prelude arming ended =>
    exact (armed prelude arming).closeConn
      (sane.acts lt (prelude.acts.trans arming.acts)) found ended
  | spawned state some' received async =>
    rw [fences.sync] at async
    cases async
  | closed state flag ended => exact fences.closeConn sane found ended
  | @flushed x₁ x state flag sent called =>
    have acts : Session.Acts w.cfg (w.session o) x := written_acts sent called
    have frame := acts.frame sane.tcp
    have invalid : (w.heap o).state ≠ .invalid := by
      rw [state]
      decide
    have none' := (before.resolve_left invalid).sent rfl flag
    have still := calls_still called
    obtain ⟨rb, rb', _, _, rfl⟩ := onKernelWrite_eq sent
    have same : x.conn.state = .close := still.state.trans state
    have outstanding : (w.setSession x).outstanding = w.outstanding := by
      rw [outstanding_setSession (show x.sq = Chains.pushAll w.sq [] from still.sq), append_nil]
      rfl
    refine fences.session sane found frame ?_
    rw [outstanding]
    refine .of_none ?_ (by simp [same, ConnState.Transferring]) (by simp [same]) ?_
    · rw [show x.conn.life = (w.heap o).life from frame.life]
      exact none'
    · rw [show x.conn.fd = (w.heap o).fd from frame.fd]
      exact (fences.entries found).fd
  | ignored state other other' => exact fences
  | unknown state ended => exact fences.closeConn sane found ended

/-- The entry of a new socket, which had none. -/
theorem addressed (absent : w.connections.lookup fd = none) (addressed : Addressed w fd o w') :
    w'.Fences ∧ (w'.heap o).state = .invalid ∧ (w'.heap o).fd = fd ∧
      held (w'.heap o).life w.outstanding = 0 ∧ w'.outstanding = w.outstanding := by
  obtain @⟨w₁, localAddr, remoteAddr, addresses, got⟩ := addressed
  rcases get_cases w sane.poolBound fd fd with ⟨o', found, same⟩ | ⟨o', base, w₂, entered, same⟩
  · cases found.symm.trans absent
  · cases got.symm.trans same
    obtain ⟨fences₁, state, fd', none'⟩ := fences.entered sane entered (Or.inl rfl)
    have outstanding : w₁.outstanding = w.outstanding := by
      rw [entered.frame]
      rfl
    have mine : Fenced w₁.cfg fd { w₁.heap o with
        fd := fd, localAddr := localAddr, remoteAddr := remoteAddr } w₁.outstanding :=
      .of_none (outstanding ▸ none') (by simp [state, ConnState.Transferring]) (by simp [state])
        (Or.inl rfl)
    have placed := fences₁.setConn (entered.sane sane) entered.lookup_self mine
    have conn : (w₁.setConn o { w₁.heap o with
        fd := fd, localAddr := localAddr, remoteAddr := remoteAddr }).heap o = _ :=
      update_self ..
    refine ⟨{ placed with }, ?_, ?_, ?_, outstanding⟩
    · exact (congrArg Connection.state conn).trans state
    · exact congrArg Connection.fd conn
    · exact (congrArg (fun c : Connection => held c.life w.outstanding) conn).trans none'

/-- A new connection is entered, announced and armed. -/
theorem admitted {w₁ : Worker} (unclaimed : w.Unclaimed fd)
    (addressed : Addressed w fd o w₁) (welcomed : Welcomed w₁ env sqe o err w') : w'.Fences := by
  obtain ⟨fences₁, state, fd', none', outstanding⟩ :=
    fences.addressed sane unclaimed.absent addressed
  obtain ⟨sane₁, found, _⟩ := sane.addressed addressed
  have other := unclaimed.other
  rw [← addressed.cfg] at other
  rw [← outstanding] at none'
  have quiet := unclaimed.quiet
  rw [← outstanding] at quiet
  obtain @⟨x, x', err, called, arming⟩ := welcomed
  have still := calls_still called
  refine fences₁.armed sane₁ found (fired_acts called) still.sq ?_ arming none' ?_ ?_
  · rw [still.state.trans state]
    decide
  · exact ⟨fd', unclaimed.nonzero, other, fun q member key => absurd key (quiet q member)⟩
  · exact fun q member key => absurd key (quiet q member)

/-- The accept request of a shard is prepared again. -/
theorem rearmed (shard : w.cfg.kind = .shard)
    (rearmed : Rearmed w o w') : w'.Fences ∧ ∀ {fd : Int}, w.Unclaimed fd → w'.Unclaimed fd := by
  obtain @⟨w₁, got⟩ := rearmed
  have requests : w.prepareAccept.outstanding.Perm ([_] ++ w.outstanding) :=
    outstanding_push rfl rfl rfl
  have prepared : w.prepareAccept.Fences := by
    refine fences.of_requests rfl rfl rfl rfl rfl rfl rfl ?_ fun fenced => ?_
    · intro q member flag
      refine (mem_cons.mp (requests.subset member)).resolve_left ?_
      rintro rfl
      exact flag.elim nofun nofun
    · refine fenced.join requests ?_ ?_
      · intro q added holds
        rw [mem_singleton.mp added] at holds
        exact holds.1.elim nofun nofun
      · intro q added key
        rw [mem_singleton.mp added] at key
        exact Or.inr ⟨shard, key.symm⟩
  obtain ⟨fences₁, _⟩ := prepared.get sane.prepareAccept got (Or.inl rfl)
  obtain ⟨sane₁, found⟩ := sane.prepareAccept.get got
  have same := get_cfg got
  have cfg : w₁.cfg = w.cfg := same
  have entry := fences₁.entries found
  have reserved : w₁.cfg.Reserved w.cfg.listener := by
    rw [cfg]
    exact ⟨shard, rfl⟩
  have none' : held (w₁.heap o).life w₁.outstanding = 0 := by
    by_contra some'
    exact (entry.claimed (Or.inr some')).other reserved
  refine ⟨fences₁.setConn sane₁ found (.of_none none' (by simp [ConnState.Transferring]) ?_
    entry.fd), ?_⟩
  · intro _
    rw [cfg]
  · intro fd unclaimed
    have ne : fd ≠ w.cfg.listener := fun same => unclaimed.other ⟨shard, same⟩
    have others : w₁.connections.lookup fd = w.connections.lookup fd ∧
        w₁.outstanding = w.prepareAccept.outstanding := by
      rcases get_cases w.prepareAccept sane.prepareAccept.poolBound w.cfg.listener w.cfg.listener
        with ⟨o', _, same⟩ | ⟨o', base, w₂, entered, same⟩
      · cases got.symm.trans same
        exact ⟨rfl, rfl⟩
      · cases got.symm.trans same
        refine ⟨entered.lookup_ne ne, ?_⟩
        rw [entered.frame]
        rfl
    refine ⟨unclaimed.nonzero, ?_, others.1.trans unclaimed.absent, fun q member => ?_⟩
    · change ¬ w₁.cfg.Reserved fd
      rw [cfg]
      exact unclaimed.other
    · change q ∈ w₁.outstanding at member
      rw [others.2] at member
      rcases mem_cons.mp (requests.subset member) with rfl | old
      · exact ne.symm
      · exact unclaimed.quiet q old

theorem accepted (shard : w.cfg.kind = .shard)
    (unclaimed : w.Unclaimed c.res) (accepted : Accepted w env c err w') : w'.Fences := by
  cases accepted with
  | refused err full => exact { fences with }
  | failed err free reason rearmed addressed =>
    obtain ⟨fences₁, kept⟩ := fences.rearmed sane shard rearmed
    exact (fences₁.addressed (sane.rearmed rearmed).1 (kept unclaimed).absent addressed).1
  | welcomed free rearmed addressed welcomed =>
    obtain ⟨fences₁, kept⟩ := fences.rearmed sane shard rearmed
    exact fences₁.admitted (sane.rearmed rearmed).1 (kept unclaimed) addressed welcomed

end Fences

/-- No descriptor is taken up for a new connection while it has an entry or something is
outstanding under it. -/
def Vacant (w : Worker) : Label → Prop
  | .event _ => ∀ c ∈ w.cq.head?, 0 ≤ c.res →
      c.sqe.flag = .addConn ∨ w.cfg.Reserved c.sqe.key → w.Unclaimed c.res
  | .newConn _ => ∀ fd ∈ w.connQueue.head?, w.Unclaimed fd
  | _ => True

instance (w : Worker) (fd : Int) : Decidable (w.Unclaimed fd) :=
  decidable_of_iff' _ (w.unclaimed_iff fd)

instance (w : Worker) : (label : Label) → Decidable (w.Vacant label)
  | .event _ => inferInstanceAs (Decidable (∀ c ∈ w.cq.head?, _))
  | .newConn _ => inferInstanceAs (Decidable (∀ fd ∈ w.connQueue.head?, _))
  | .shutdown | .turn .. | .peek | .endBatch | .asyncWrite _ | .complete .. | .handOff ..
  | .taskBegin _ | .taskCall .. | .taskEnd _ => isTrue trivial

namespace Fences

variable (fences : w.Fences)
include fences

/-- An event of the loop. -/
theorem event (sane : w.Sane)
    {cq : List Cqe} (first : w.cq = c :: cq) (phase : Phase) (vacant : w.Vacant (.event env))
    (handled : Handled { w with phase := phase, cq := cq } env c w') : w'.Fences := by
  have perm := outstanding_pop first phase
  have vacant : 0 ≤ c.res → c.sqe.flag = .addConn ∨ w.cfg.Reserved c.sqe.key →
      Unclaimed { w with phase := phase, cq := cq } c.res := by
    intro fine new
    have unclaimed := vacant c (by rw [first]; rfl) fine new
    refine { unclaimed with quiet := fun q old => ?_ }
    exact unclaimed.quiet q (perm.subset (mem_cons_of_mem _ old))
  have popped : Fences { w with phase := phase, cq := cq } := by
    refine fences.of_requests rfl rfl rfl rfl rfl rfl rfl
      (fun q old _ => perm.subset (mem_cons_of_mem _ old)) fun fenced => ?_
    refine (fenced.perm perm).mono ?_ fun _ _ q old _ => mem_cons_of_mem _ old
    exact (sublist_cons_self ..).countP_le
  have sane₀ : Sane { w with phase := phase, cq := cq } := { sane with }
  cases handled with
  | looked error consumer got => exact (popped.get sane₀ got (Or.inr rfl)).1
  | dropped _ _ | skipped _ _ _ _ => exact popped
  | @announced err w₁ fine consumer flag handed =>
    obtain ⟨addressed, welcomed⟩ := handed
    have after : w₁.Fences := popped.admitted sane₀ (vacant fine (Or.inl flag)) addressed
      welcomed
    split_ifs
    · obtain ⟨shut, stopped⟩ := stop_eq w₁
      rw [stopped]
      exact { after with }
    · exact after
  | served fine kind got stream served =>
    obtain ⟨fences₁, origin⟩ := popped.get sane₀ got (Or.inl rfl)
    obtain ⟨sane₁, found⟩ := sane₀.get got
    refine fences₁.served sane₁ found served ?_
    rcases origin with ⟨rfl, before⟩ | invalid
    · exact Or.inr ((fences.entries before).perm perm)
    · exact Or.inl invalid
  | @accepted o err w₁ w₂ w' fine shard got state accepted ended =>
    obtain ⟨fences₁, origin⟩ := popped.get sane₀ got (Or.inl rfl)
    rcases origin with ⟨rfl, before⟩ | invalid
    · have listener := (fences.entries before).listener state
      have unclaimed := vacant fine (Or.inr ⟨shard, listener⟩)
      have fences₂ := popped.accepted sane₀ shard unclaimed accepted
      obtain ⟨sane₂, keeps⟩ := sane₀.accepted accepted
      cases err with
      | none =>
        cases ended
        exact fences₂
      | some err => exact fences₂.closeConn sane₂ (keeps before) ended
    · cases state.symm.trans invalid

/-- The shutdown sweep queues closes and opens no guard. -/
theorem shutdownHandler (sane : w.Sane)
    (order : List (Int × Bool)) : (w.shutdownHandler order).Fences := by
  refine (@shutdownHandler_invariant w (fun w => w.Sane ∧ w.Fences) ?_ ?_ order
    ⟨sane, fences⟩).2
  · exact fun ⟨sane, fences⟩ => ⟨{ sane with }, { fences with }⟩
  · rintro w key o found ⟨sane, fences⟩
    have acts : Session.Acts w.cfg (w.session o) _ := .single (.armClose _)
    have swept := fences.session sane found (acts.frame sane.tcp)
      ((fences.entries found).swept (x := w.session o) (outstanding_push rfl rfl rfl))
    exact ⟨sane.sweepOne found, { swept with }⟩

/-- The kernel stores bytes and notes down what it did. -/
theorem executed {q : Sqe} {res : Int} {data : List UInt8}
    (executed : Executed w q res data w') : w'.Fences := by
  cases executed with
  | error _ _ => exact fences
  | sendError _ _ _ | accepted _ _ _ _ | sent _ _ _ _ | closed _ _ => exact { fences with }
  | received fine flag fits size =>
    exact { fences with entries := fun found => { fences.entries found with } }

theorem complete {chain : Nat} {old new : List Sqe} {cqes : List Cqe}
    (found : w.inflight[chain]? = some old) (perm : (new ++ cqes.map Cqe.sqe).Perm old) :
    Fences { w with inflight := w.inflight.set chain new, cq := w.cq ++ cqes } :=
  fences.of_perm rfl rfl rfl rfl rfl rfl rfl (outstanding_complete found perm)

/-- A message announces a connection, under the key 0. -/
theorem announced (fd : Int) {openFds : List Int} {addresses : AList fun _ : Int => NetAddr} :
    Fences { w with
      openFds := openFds, socketAddresses := addresses
      cq := w.cq ++ [{ sqe := { flag := .addConn, key := 0, fd := fd }, res := fd }] } := by
  have whole : w.underway ++ List.map Cqe.sqe (w.cq ++
      [{ sqe := { flag := .addConn, key := 0, fd := fd }, res := fd }]) =
      w.outstanding ++ [{ flag := .addConn, key := 0, fd := fd }] := by
    rw [map_append, ← append_assoc]
    rfl
  refine fences.of_requests rfl rfl rfl rfl rfl rfl rfl ?_ fun fenced => ?_
  · intro q member flag
    change q ∈ w.underway ++ List.map Cqe.sqe _ at member
    rw [whole] at member
    refine (mem_append.mp member).resolve_right fun added => ?_
    rw [mem_singleton.mp added] at flag
    exact flag.elim nofun nofun
  · change Fenced w.cfg _ _ (w.underway ++ List.map Cqe.sqe _)
    rw [whole]
    refine fenced.join perm_append_comm ?_ ?_
    · intro q added holds
      rw [mem_singleton.mp added] at holds
      exact holds.1.elim nofun nofun
    · intro q added key
      rw [mem_singleton.mp added] at key
      exact Or.inl key.symm

/-- Every step keeps the fences. -/
theorem step (sane : w.Sane)
    {label : Label} (vacant : w.Vacant label) (stepped : Stepped w label w') : w'.Fences := by
  have noTask : ∀ {i : Nat} {t : Task} {p : Prop}, w.tasks[i]? = some t → p := by
    intro i t p found
    rw [fences.tasks] at found
    cases found
  cases stepped with
  | shutdown => exact { fences with }
  | @turn order chains result phase shut top all kept =>
    refine (fences.shutdownHandler sane order).of_perm rfl rfl rfl rfl rfl rfl rfl ?_
    rw [outstanding, underway_submit]
    exact .refl _
  | event phase first handled => exact fences.event sane first _ vacant handled
  | paced quiet running kept => exact { fences with }
  | @newConn env fd rest err w' phase first handed =>
    have sane₀ : Sane { w with connQueue := rest } := { sane with }
    have fences₀ : Fences { w with connQueue := rest } := { fences with }
    have unclaimed := vacant fd (by rw [first]; rfl)
    have unclaimed₀ : Unclaimed { w with connQueue := rest } fd := { unclaimed with }
    obtain ⟨addressed, welcomed⟩ := handed
    exact fences₀.admitted sane₀ unclaimed₀ addressed welcomed
  | asyncWrite phase first arming =>
    rw [fences.queued] at first
    cases first
  | completed found executed settles =>
    rw [← executed.queues.1] at found
    exact (fences.executed executed).complete found settles.perm
  | @handOff fd addr consumer nonneg small closed cq connQueue announced =>
    rcases announced with ⟨rfl, rfl⟩ | ⟨rfl, rfl⟩
    · exact fences.announced fd
    · exact { fences with }
  | taskBegin found | taskCall found _ | taskEnd found _ => exact noTask found

end Fences

end Worker

end Gain
