import Gain.Worker.Ownership

/-! # The listener of a shard

A shard keeps one accept request for its listening socket. As long as every accept
succeeds and leads to a connection that is configured and armed, the request is
prepared again each time, and the listener's entry stays registered and its socket
open.
-/

namespace Gain

open Function List

namespace Session

variable {cfg : Config} {x x₁ x' : Session}

/-- Code on a connection does not make it the listener, and shuts down no descriptor
but its own. -/
structure Modest (x x' : Session) : Prop where
  fd : x'.conn.fd = x.conn.fd
  state : x.conn.state ≠ .accept → x'.conn.state ≠ .accept
  shut : ∀ fd ∈ x'.shut, fd ∈ x.shut ∨ fd = x.conn.fd

namespace Modest

theorem of_same (fd : x'.conn.fd = x.conn.fd) (state : x'.conn.state = x.conn.state)
    (shut : x'.shut = x.shut) : Modest x x' := by
  refine ⟨fd, ?_, ?_⟩
  · rw [state]
    exact id
  · intro fd member
    rw [shut] at member
    exact Or.inl member

theorem of_armed (fd : x'.conn.fd = x.conn.fd) (state : x'.conn.state ≠ .accept)
    (shut : x'.shut = x.shut) : Modest x x' := by
  refine ⟨fd, fun _ => state, ?_⟩
  intro fd member
  rw [shut] at member
  exact Or.inl member

theorem trans (first : Modest x x₁) (second : Modest x₁ x') : Modest x x' where
  fd := second.fd.trans first.fd
  state := fun other => second.state (first.state other)
  shut := by
    intro fd member
    rcases second.shut fd member with old | own
    · exact first.shut fd old
    · exact Or.inr (own.trans first.fd)

end Modest

theorem Method.modest (method : Method cfg x x') : Modest x x' := by
  cases method with
  | refused | inbound _ _ _ | outbound _ _ _ => exact .of_same rfl rfl rfl
  | close =>
    unfold Session.close Connection.close
    split_ifs <;> exact .of_same rfl rfl rfl

/-- Every act is modest. -/
theorem Act.modest (tcp : cfg.sendRecvMsg = false) (act : Act cfg x x') : Modest x x' := by
  cases act with
  | call called => exact (call_method called).modest
  | fire _ | userSpace => exact .of_same rfl rfl rfl
  | received counted =>
    obtain ⟨rb, rb', _, _, rfl⟩ := onKernelRead_eq counted
    exact .of_same rfl rfl rfl
  | sent dropped =>
    obtain ⟨rb, rb', _, _, rfl⟩ := onKernelWrite_eq dropped
    exact .of_same rfl rfl rfl
  | armRead armed =>
    obtain ⟨rb, rb', mem, addr, _, _, _, rfl⟩ := addReadRequest_eq tcp armed
    exact .of_armed rfl nofun rfl
  | armWrite armed =>
    obtain ⟨rb, addr, _, _, rfl⟩ := addWriteRequest_eq tcp armed
    exact .of_armed rfl nofun rfl
  | armClose => exact .of_armed rfl nofun rfl
  | shutdown =>
    refine ⟨rfl, id, ?_⟩
    intro fd member
    rcases mem_cons.mp member with rfl | old
    · exact Or.inr rfl
    · exact Or.inl old
  | closed =>
    unfold Connection.close
    split_ifs <;> exact .of_same rfl rfl rfl

theorem Acts.modest (tcp : cfg.sendRecvMsg = false) (acts : Acts cfg x x') : Modest x x' := by
  induction acts with
  | refl => exact .of_same rfl rfl rfl
  | tail _ act ih => exact ih.trans (act.modest tcp)

theorem ended_modest (x : Session) (syscallClose : Bool) (err : Option Error) :
    Modest x (x.ended syscallClose err) := by
  refine ⟨rfl, id, ?_⟩
  intro fd member
  cases syscallClose with
  | false => exact Or.inl member
  | true =>
    rcases mem_cons.mp member with rfl | old
    · exact Or.inr rfl
    · exact Or.inl old

end Session

namespace Worker

variable {w w' : Worker} {m n o : Nat} {key fd : Int} {x : Session} {env : Env} {c : Cqe}
  {err : Option Error} {base : Connection} {cq : List Cqe} {left : Nat}

/-- A shard that has not been asked to shut down, with `n` accept requests. The
object `m` is its listener; no other object, request or new connection is for the
listening socket. -/
structure Tended (m n : Nat) (w : Worker) : Prop where
  shard : w.cfg.kind = .shard
  named : w.cfg.listener ≠ 0
  calm : w.shutdowning = false
  connQueue : w.connQueue = []
  found : w.connections.lookup w.cfg.listener = some m
  state : (w.heap m).state = .accept
  others : ∀ o, o ≠ m → (w.heap o).fd ≠ w.cfg.listener ∧ (w.heap o).state ≠ .accept
  tasks : ∀ t ∈ w.tasks, t.obj ≠ m
  queued : m ∉ w.asyncOpQueue
  requests : ∀ q ∈ w.outstanding,
    (q.flag = .accept ↔ q.key = w.cfg.listener) ∧ (q.flag = .close → q.fd ≠ w.cfg.listener)
  count : w.outstanding.countP (fun q => q.flag = .accept) = n
  accepted : ∀ c ∈ w.cq, c.sqe.flag = .accept → 0 ≤ c.res → c.res ≠ w.cfg.listener
  opened : w.cfg.listener ∈ w.openFds
  live : w.phase = .stopped ∨ w.cfg.listener ∉ w.shut

namespace Tended

variable (tended : Tended m n w)
include tended

/-- The registry has changed, and the requests have not. -/
theorem of_registry (registers : Registers w w')
    (found : w'.connections.lookup w.cfg.listener = some m) (state : (w'.heap m).state = .accept)
    (others : ∀ o, o ≠ m → (w'.heap o).fd ≠ w.cfg.listener ∧ (w'.heap o).state ≠ .accept) :
    Tended m n w' := by
  rw [registers]
  exact { tended with found := found, state := state, others := others }

/-- A connection is entered for another descriptor. -/
theorem entered (sane : w.Sane) (other : key ≠ w.cfg.listener) (other' : fd ≠ w.cfg.listener)
    (entered : Entered w key fd o base w') : Tended m n w' ∧ o ≠ m := by
  have ne : m ≠ o := sane.unused entered.toTaken tended.found
  refine ⟨?_, ne.symm⟩
  apply tended.of_registry entered.registers
  case found =>
    rw [entered.lookup_ne other.symm]
    exact tended.found
  case state =>
    rw [entered.others m ne]
    exact tended.state
  case others =>
    intro i apart
    by_cases same : i = o
    · subst same
      obtain ⟨inbound, outbound, conn⟩ := entered.conn
      rw [conn]
      refine ⟨other', ?_⟩
      rcases entered.source with ⟨_, rfl, _⟩ | ⟨_, rfl, _⟩
      · exact (tended.others i apart).2
      · exact nofun
    · rw [entered.others i same]
      exact tended.others i apart

/-- Code works on another connection. -/
theorem session (apart : o ≠ m) (frame : Session.Frame w.cfg (w.session o) x)
    (modest : Session.Modest (w.session o) x) : Tended m n (w.setSession x) := by
  obtain rfl : x.obj = o := frame.obj
  obtain ⟨other, plain⟩ := tended.others x.obj apart
  obtain ⟨new, pushed, own⟩ := frame.prepared
  have whole := outstanding_setSession pushed
  have heap : ∀ i, i ≠ x.obj → (w.setSession x).heap i = w.heap i := fun i ne => update_of_ne ne ..
  refine { tended with state := ?_, others := ?_, requests := ?_, count := ?_, live := ?_ }
  · rw [heap m apart.symm]
    exact tended.state
  · intro i apart'
    by_cases same : i = x.obj
    · subst same
      change (update w.heap x.obj x.conn x.obj).fd ≠ _ ∧ _
      simp only [setSession, update_self]
      exact ⟨modest.fd ▸ other, modest.state plain⟩
    · rw [heap i same]
      exact tended.others i apart'
  · intro q member
    rw [whole] at member
    rcases mem_append.mp member with underway | completed
    · rcases mem_append.mp underway with old | added
      · exact tended.requests q (mem_append_left _ old)
      · have issued := own q added
        refine ⟨⟨fun accept => ?_, fun mine => absurd (issued.key.symm.trans mine) other⟩,
          fun _ => issued.fd ▸ other⟩
        rcases issued.flag with flag | flag | flag <;> cases flag.symm.trans accept
    · exact tended.requests q (mem_append_right _ completed)
  · have none' : new.countP (fun q => q.flag = .accept) = 0 := by
      rw [countP_eq_zero]
      intro q added accept
      rcases (own q added).flag with flag | flag | flag <;>
        cases flag.symm.trans (of_decide_eq_true accept)
    rw [whole, countP_append, countP_append, none', Nat.add_zero, ← countP_append]
    exact tended.count
  · refine tended.live.imp id fun running shut => ?_
    rcases modest.shut _ shut with old | own
    · exact running old
    · exact other own.symm

theorem acts (tcp : w.cfg.sendRecvMsg = false) (apart : o ≠ m)
    (acts : Session.Acts w.cfg (w.session o) x) : Tended m n (w.setSession x) :=
  tended.session apart (acts.frame tcp) (acts.modest tcp)

/-- Giving up another connection keeps the accepts. -/
theorem released (apart : o ≠ m) (other : key ≠ w.cfg.listener)
    (released : Released w key o w') : Tended m n w' := by
  apply tended.of_registry released.registers
  case found =>
    rw [released.lookup_ne other.symm]
    exact tended.found
  case state =>
    rw [released.others m apart.symm]
    exact tended.state
  case others =>
    intro i apart'
    by_cases same : i = o
    · subst same
      rw [released.conn]
      exact ⟨tended.named.symm, nofun⟩
    · rw [released.others i same]
      exact tended.others i apart'

theorem closeConn (sane : w.Sane)
    (found : w.connections.lookup key = some o) (apart : o ≠ m) {syscallClose : Bool}
    {ops : List ConnOp} (done : w.closeConn o syscallClose err ops = some w') : Tended m n w' := by
  have ended := tended.session apart (Session.ended_frame _ syscallClose err)
    (Session.ended_modest _ _ _)
  refine ended.released apart ?_ (sane.ended found done)
  rintro rfl
  exact apart (Option.some.inj (found.symm.trans tended.found))

/-- Another connection is served. -/
theorem served (sane : w.Sane) (found : w.connections.lookup key = some o)
    (apart : o ≠ m) (served : Served w env c o w') : Tended m n w' := by
  have lt := sane.bound found
  cases served with
  | eof state nothing ended => exact tended.closeConn sane found apart ended
  | armed prelude arming => exact tended.acts sane.tcp apart (prelude.acts.trans arming.acts)
  | failed prelude arming ended =>
    have acts := prelude.acts.trans arming.acts
    exact (tended.acts sane.tcp apart acts).closeConn (sane.acts lt acts) found apart ended
  | spawned state some' received async =>
    have tended := tended.acts sane.tcp apart (.single (.received received))
    refine { tended with tasks := ?_ }
    intro t member
    rcases mem_append.mp member with old | new
    · exact tended.tasks t old
    · rw [mem_singleton.mp new]
      exact apart
  | closed state flag ended => exact tended.closeConn sane found apart ended
  | flushed state flag sent called =>
    exact tended.acts sane.tcp apart (Session.written_acts sent called)
  | ignored state other other' => exact tended
  | unknown state ended => exact tended.closeConn sane found apart ended

/-- A connection of another descriptor is looked up. -/
theorem get (sane : w.Sane) (other : key ≠ w.cfg.listener)
    (got : w.get key key = (o, w')) : Tended m n w' ∧ o ≠ m := by
  rcases get_cases w sane.poolBound key key with ⟨o', found, same⟩ | ⟨o', base, w₁, entered, same⟩
  · cases got.symm.trans same
    refine ⟨tended, ?_⟩
    rintro rfl
    exact other (sane.inj found tended.found)
  · cases got.symm.trans same
    exact tended.entered sane other other entered

theorem get_listener : w.get w.cfg.listener w.cfg.listener = (m, w) := by
  unfold Worker.get
  rw [tended.found]

/-- The connection of a new socket is not the listener. -/
theorem addressed (sane : w.Sane) (other : fd ≠ w.cfg.listener)
    (addressed : Addressed w fd o w') : Tended m n w' ∧ o ≠ m := by
  cases addressed with
  | @intro w₁ localAddr remoteAddr addresses got =>
    have cfg := get_cfg got
    obtain ⟨tended₁, apart⟩ := tended.get sane other got
    refine ⟨?_, apart⟩
    apply tended₁.of_registry
    case registers => rfl
    case found => exact tended₁.found
    case state =>
      change (update w₁.heap o _ m).state = _
      rw [update_of_ne apart.symm]
      exact tended₁.state
    case others =>
      intro i apart'
      obtain ⟨other', plain⟩ := tended₁.others i apart'
      by_cases same : i = o
      · subst same
        simp only [setConn, update_self]
        rw [cfg]
        exact ⟨other, plain⟩
      · simp only [setConn, update_of_ne same]
        exact ⟨other', plain⟩

/-- The accept request is prepared again. -/
theorem rearmed (rearmed : Rearmed w o w') : Tended m (n + 1) w' := by
  obtain @⟨w₁, got⟩ := rearmed
  have requests : w.prepareAccept.outstanding.Perm (_ :: w.outstanding) :=
    outstanding_push rfl rfl rfl
  have prepared : Tended m (n + 1) w.prepareAccept := by
    refine { tended with requests := ?_, count := ?_ }
    · intro q member
      rcases mem_cons.mp (requests.subset member) with rfl | old
      · exact ⟨⟨fun _ => rfl, fun _ => rfl⟩, nofun⟩
      · exact tended.requests q old
    · rw [requests.countP_eq, countP_cons_of_pos (by rfl), tended.count]
  cases got.symm.trans prepared.get_listener
  apply prepared.of_registry
  case registers => rfl
  case found => exact prepared.found
  case state => simp only [setConn, update_self]
  case others =>
    intro i apart
    simp only [setConn, update_of_ne apart]
    exact prepared.others i apart

/-- An accept leads to a connection that is configured and armed. -/
theorem welcome (sane : w.Sane) (other : c.res ≠ w.cfg.listener) (welcoming : w.Welcoming env)
    (accepted : Accepted w env c err w') : err = none ∧ Tended m (n + 1) w' := by
  cases accepted with
  | refused err full =>
    rw [welcoming.accept] at full
    cases full
  | failed err free reason rearmed addressed =>
    rcases reason with ⟨chosen, refused⟩ | ⟨chosen, refused⟩
    · exact absurd (welcoming.incomingCpu chosen) refused
    · exact absurd (welcoming.keepAlive chosen) refused
  | welcomed free rearmed addressed welcomed =>
    refine ⟨welcomed.armed welcoming.arm.1 welcoming.arm.2, ?_⟩
    obtain ⟨sane₁, _, _⟩ := sane.rearmed rearmed
    rw [← rearmed.cfg] at other
    obtain ⟨tended₂, apart⟩ := (tended.rearmed rearmed).addressed sane₁ other addressed
    obtain ⟨x, acts, rfl⟩ := welcomed.acts
    exact tended₂.acts (sane₁.addressed addressed).1.tcp apart acts

/-- The next completion is taken from the queue. -/
theorem pop (first : w.cq = c :: cq) (phase : w.phase = .events (left + 1)) :
    ∃ n', Tended m n' { w with phase := .events left, cq := cq } ∧
      n = n' + if c.sqe.flag = .accept then 1 else 0 := by
  have perm := outstanding_pop first (.events left)
  have count := perm.countP_eq fun q => q.flag = .accept
  rw [countP_cons, tended.count] at count
  simp only [decide_eq_true_eq] at count
  refine ⟨_, ?_, count.symm⟩
  refine { tended with requests := ?_, count := rfl, accepted := ?_, live := ?_ }
  · intro q member
    exact tended.requests q (perm.subset (mem_cons_of_mem _ member))
  · intro c' member
    refine tended.accepted c' ?_
    rw [first]
    exact mem_cons_of_mem _ member
  · refine Or.inr (tended.live.resolve_left fun stopped => ?_)
    rw [stopped] at phase
    cases phase

/-- An event that is not the listener's. -/
theorem handled (sane : w.Sane)
    (other : c.sqe.key ≠ w.cfg.listener) (handled : Handled w env c w') : Tended m n w' := by
  cases handled with
  | looked error consumer got => cases consumer.symm.trans tended.shard
  | dropped error shard => exact tended
  | skipped _ consumer _ _ | announced _ consumer _ _ => cases consumer.symm.trans tended.shard
  | served fine kind got stream served =>
    obtain ⟨tended₁, apart⟩ := tended.get sane other got
    obtain ⟨sane₁, found⟩ := sane.get got
    exact tended₁.served sane₁ found apart served
  | accepted fine shard got state accepted ended =>
    obtain ⟨tended₁, apart⟩ := tended.get sane other got
    exact absurd state (tended₁.others _ apart).2

/-- An event of the listener. -/
theorem handled_accept (sane : w.Sane)
    (key : c.sqe.key = w.cfg.listener) (fine : 0 ≤ c.res) (other : c.res ≠ w.cfg.listener)
    (welcoming : w.Welcoming env) (handled : Handled w env c w') : Tended m (n + 1) w' := by
  cases handled with
  | looked error consumer got => cases consumer.symm.trans tended.shard
  | dropped error shard => exact absurd error (not_lt.mpr fine)
  | skipped _ consumer _ _ | announced _ consumer _ _ => cases consumer.symm.trans tended.shard
  | served fine kind got stream served =>
    rw [key] at got
    cases got.symm.trans tended.get_listener
    exact absurd tended.state (stream tended.shard)
  | accepted fine shard got state accepted ended =>
    rw [key] at got
    cases got.symm.trans tended.get_listener
    obtain ⟨rfl, tended⟩ := tended.welcome sane other welcoming accepted
    cases ended
    exact tended

/-- The kernel's part of a request: an accepted descriptor is not the listening socket,
which nobody closes. -/
theorem executed {q : Sqe} (member : q ∈ w.outstanding) {res : Int}
    {data : List UInt8} (executed : Executed w q res data w') :
    Tended m n w' ∧ (q.flag = .accept → 0 ≤ res → res ≠ w.cfg.listener) := by
  have refused : ∀ {flag : Flag}, q.flag = flag → flag ≠ .accept →
      q.flag = .accept → 0 ≤ res → res ≠ w.cfg.listener :=
    fun mine other accept => absurd (mine.symm.trans accept) other
  cases executed with
  | error error flag => exact ⟨tended, fun _ fine => absurd error (not_lt.mpr fine)⟩
  | sendError error flag nothing => exact ⟨{ tended with }, refused flag nofun⟩
  | accepted fine flag closed small =>
    refine ⟨{ tended with opened := mem_cons_of_mem _ tended.opened }, fun _ _ same => ?_⟩
    rw [same] at closed
    exact closed tended.opened
  | received _ flag _ _ | sent _ flag _ _ => exact ⟨{ tended with }, refused flag nofun⟩
  | closed fine flag =>
    have other := (tended.requests q member).2 flag
    refine ⟨{ tended with opened := ?_ }, refused flag nofun⟩
    exact mem_filter.mpr ⟨tended.opened, decide_eq_true other.symm⟩

/-- Entries of a submitted chain are completed. -/
theorem complete {chain : Nat} {old new : List Sqe} {cqes : List Cqe}
    (found : w.inflight[chain]? = some old) (perm : (new ++ cqes.map Cqe.sqe).Perm old)
    (accepted : ∀ c ∈ cqes, c.sqe.flag = .accept → 0 ≤ c.res → c.res ≠ w.cfg.listener) :
    Tended m n { w with inflight := w.inflight.set chain new, cq := w.cq ++ cqes } := by
  have perm := outstanding_complete found perm
  refine { tended with requests := ?_, count := ?_, accepted := ?_ }
  · intro q member
    exact tended.requests q (perm.subset member)
  · exact (perm.countP_eq _).trans tended.count
  · intro c member
    rcases mem_append.mp member with old | new
    · exact tended.accepted c old
    · exact accepted c new

theorem submit (running : w.phase ≠ .stopped) (chains : Nat) {phase : Phase} {shut : List Int}
    (kept : phase ≠ .stopped → shut = w.shut) : Tended m n (w.submit chains phase shut) := by
  have same : (w.submit chains phase shut).outstanding = w.outstanding :=
    congrArg (· ++ w.cq.map Cqe.sqe) (underway_submit w chains phase shut)
  refine { tended with requests := ?_, count := ?_, live := ?_ }
  · rw [same]
    exact tended.requests
  · rw [same]
    exact tended.count
  · by_cases stopped : phase = .stopped
    · exact Or.inl stopped
    · refine Or.inr ?_
      change _ ∉ shut
      rw [kept stopped]
      exact tended.live.resolve_left running

end Tended

/-- No shutdown is requested, and an accept that is handled has succeeded and leads to a
connection that is configured and armed. -/
def Inviting (w : Worker) : Label → Prop
  | .shutdown => False
  | .event env => ∀ c ∈ w.cq.head?, c.sqe.flag = .accept → 0 ≤ c.res ∧ w.Welcoming env
  | _ => True

instance (w : Worker) : (label : Label) → Decidable (w.Inviting label)
  | .shutdown => isFalse id
  | .event _ => inferInstanceAs (Decidable (∀ c ∈ w.cq.head?, _))
  | .turn .. | .peek | .endBatch | .newConn _ | .asyncWrite _ | .complete .. | .handOff ..
  | .taskBegin _ | .taskCall .. | .taskEnd _ => isTrue trivial

namespace Tended

/-- An event is handled. -/
theorem event (tended : Tended m 1 w) (sane : w.Sane) (inviting : w.Inviting (.event env))
    (phase : w.phase = .events (left + 1)) (first : w.cq = c :: cq)
    (handled : Handled { w with phase := .events left, cq := cq } env c w') : Tended m 1 w' := by
  have inside : c ∈ w.cq := by
    rw [first]
    exact mem_cons_self
  have listener := (tended.requests c.sqe
    (mem_append_right _ (mem_map_of_mem inside))).1
  have sane₀ : Sane { w with phase := .events left, cq := cq } := { sane with }
  obtain ⟨n, popped, count⟩ := tended.pop first phase
  by_cases accept : c.sqe.flag = .accept
  · rw [if_pos accept] at count
    obtain rfl : n = 0 := by omega
    have head : c ∈ w.cq.head? := by
      rw [first]
      rfl
    obtain ⟨fine, welcoming⟩ := inviting c head accept
    exact popped.handled_accept sane₀ (listener.mp accept) fine
      (tended.accepted c inside accept fine)
      ⟨welcoming.accept, welcoming.arm, welcoming.incomingCpu, welcoming.keepAlive⟩ handled
  · rw [if_neg accept] at count
    subst count
    exact popped.handled sane₀ (fun mine => accept (listener.mpr mine)) handled

/-- Every inviting step keeps one accept underway. -/
theorem step (tended : Tended m 1 w) (sane : w.Sane) {label : Label} (inviting : w.Inviting label)
    (stepped : Stepped w label w') : Tended m 1 w' := by
  have ofTask : ∀ {i : Nat} {t : Task}, w.tasks[i]? = some t → t.obj ≠ m :=
    fun found => tended.tasks _ (mem_of_getElem? found)
  cases stepped with
  | shutdown => exact inviting.elim
  | @turn order chains result phase shut top all kept =>
    have same : w.shutdownHandler order = w := by
      unfold shutdownHandler needToShutdown
      rw [tended.calm]
      rfl
    rw [same] at kept ⊢
    refine tended.submit ?_ chains kept
    rw [top]
    exact nofun
  | event phase first handled => exact tended.event sane inviting phase first handled
  | @paced label phase shut quiet running kept =>
    refine { tended with live := ?_ }
    by_cases stopped : phase = .stopped
    · exact Or.inl stopped
    · refine Or.inr ?_
      rw [kept stopped]
      exact tended.live.resolve_left running
  | newConn phase first handed =>
    rw [tended.connQueue] at first
    cases first
  | @asyncWrite env o rest x phase first arming =>
    have apart : o ≠ m := by
      rintro rfl
      refine tended.queued ?_
      rw [first]
      exact mem_cons_self
    have taken : Tended m 1 { w with asyncOpQueue := rest } := by
      refine { tended with queued := fun member => tended.queued ?_ }
      rw [first]
      exact mem_cons_of_mem _ member
    exact taken.acts sane.tcp apart arming.acts
  | completed found executed settles =>
    have member := mem_append_left (w.cq.map Cqe.sqe)
      (mem_underway_of_getElem? found mem_cons_self)
    obtain ⟨tended₁, fresh⟩ := tended.executed member executed
    rw [← executed.queues.1] at found
    refine tended₁.complete found settles.perm (settles.all ?_ ?_)
    · rw [executed.queues.2.2.2.2.2.2]
      exact fresh
    · exact fun c error _ fine => absurd error (not_lt.mpr fine)
  | handOff consumer nonneg small closed announced => cases consumer.symm.trans tended.shard
  | @taskBegin i o n found =>
    have apart : o ≠ m := ofTask found
    have begun := tended.acts sane.tcp apart
      ((Relation.ReflTransGen.single (.userSpace _)).tail (.fire _ (.onRead n)))
    refine { begun with tasks := ?_ }
    intro t member
    rcases mem_or_eq_of_mem_set member with old | rfl
    · exact tended.tasks t old
    · exact apart
  | taskCall found called => exact tended.acts sane.tcp (ofTask found) (.single (.call called))
  | @taskEnd i o n op found next =>
    have apart := ofTask found
    have placed : Tended m 1 (w.setConn o { w.heap o with nextAsyncOp := op }) := by
      apply tended.of_registry
      case registers => rfl
      case found => exact tended.found
      case state =>
        simp only [setConn, update_of_ne (Ne.symm apart)]
        exact tended.state
      case others =>
        intro i apart'
        by_cases same : i = o
        · subst same
          simp only [setConn, update_self]
          exact tended.others i apart'
        · simp only [setConn, update_of_ne same]
          exact tended.others i apart'
    refine { placed with tasks := ?_, queued := ?_ }
    · intro t member
      exact tended.tasks t (mem_of_mem_eraseIdx member)
    · intro member
      rcases mem_append.mp member with old | new
      · exact tended.queued old
      · exact apart (mem_singleton.mp new).symm

end Tended

variable {cfg : Config} {streams : Streams}

/-- A shard starts with one accept. -/
theorem start_tended (shard : cfg.kind = .shard) (tcp : cfg.sendRecvMsg = false)
    (named : cfg.listener ≠ 0) (started : start cfg streams = some w) : ∃ m, Tended m 1 w := by
  rcases start_eq tcp started with ⟨consumer, _⟩ | ⟨_, m, w₁, rearmed, rfl⟩
  · cases consumer.symm.trans shard
  clear started
  obtain ⟨base, w₂, entered, rfl⟩ := rearmed_init rearmed
  refine ⟨m, ?_⟩
  have frame := entered.frame
  rw [frame]
  have heap : ∀ i, i ≠ m → w₂.heap i = {} := fun i apart => entered.others i apart
  have request : ∀ q ∈ [({ flag := .accept, key := cfg.listener, fd := cfg.listener } : Sqe)],
      (q.flag = .accept ↔ q.key = cfg.listener) ∧ (q.flag = .close → q.fd ≠ cfg.listener) := by
    intro q member
    rw [mem_singleton.mp member]
    exact ⟨⟨fun _ => rfl, fun _ => rfl⟩, fun close => by cases close⟩
  have opened : cfg.listener ∈ [0, 1, 2, cfg.listener] := by simp
  refine ⟨shard, named, rfl, rfl, AList.lookup_insert _, ?_, ?_, forall_mem_nil _,
    not_mem_nil, request, rfl, forall_mem_nil _, opened, Or.inr not_mem_nil⟩
  · simp only [setConn, update_self]
  · intro i apart
    simp only [setConn, update_of_ne apart, heap i apart]
    exact ⟨named.symm, by decide⟩

/-- One accept request is outstanding, and the listener is registered as such and has not
been shut down. -/
structure Accepting (w : Worker) : Prop where
  once : w.outstanding.countP (fun q => q.flag = .accept) = 1
  registered : ∃ o, w.connections.lookup w.cfg.listener = some o ∧ (w.heap o).state = .accept
  opened : w.phase ≠ .stopped → w.cfg.listener ∉ w.shut

/-- In every state of a run of a stream shard whose accepts succeed, with every accepted
connection configured and armed, and which is not asked to shut down, the shard accepts. -/
theorem run_accepting_of_inviting (shard : cfg.kind = .shard) (tcp : cfg.sendRecvMsg = false)
    (named : cfg.listener ≠ 0) (started : start cfg streams = some w) {ls : List Label}
    (ran : run step ls w = some w') (along : Along step Inviting ls w) : w'.Accepting := by
  obtain ⟨m, tended⟩ := start_tended shard tcp named started
  obtain ⟨_, tended⟩ := Sane.run (fun _ _ _ sane inviting stepped tended =>
    tended.step sane inviting stepped) (start_sane tcp started) ran along tended
  exact ⟨tended.count, ⟨m, tended.found, tended.state⟩, fun running =>
    tended.live.resolve_left running⟩

/-- A connection is accepted and armed. -/
def greeting : List Label :=
  [.turn [] 1 .done, .peek, .endBatch, .asyncWrite {}, .complete 0 5 false [] (some 7),
    .turn [] 0 .done, .peek, .event {}, .endBatch, .asyncWrite {}]

theorem run_accepting_of_inviting_greeting : ∃ w w', start (plain .shard) keepNothing = some w ∧
    run step greeting w = some w' ∧ w'.connections.keys = [5, 3] ∧ w'.Accepting := by
  obtain ⟨w, w', started, ran, along, keys⟩ : ∃ w w', start (plain .shard) keepNothing = some w ∧
      run step greeting w = some w' ∧ Along step Inviting greeting w ∧
      w'.connections.keys = [5, 3] := exists_run (by decide)
  exact ⟨w, w', started, ran, keys, run_accepting_of_inviting rfl rfl (by decide) started ran along⟩

/-- The process has no descriptor left for the connection that is accepted. -/
def acceptRefused : List Label :=
  [.turn [] 1 .done, .peek, .endBatch, .asyncWrite {}, .complete 0 (-24) false [] none,
    .turn [] 0 .done, .peek, .event {}, .endBatch, .asyncWrite {}]

/-- Keep-alive cannot be set for the connection that is accepted. -/
def keepAliveRefused : List Label :=
  [.turn [] 1 .done, .peek, .endBatch, .asyncWrite {}, .complete 0 5 false [] (some 7),
    .turn [] 0 .done, .peek, .event { keepAlive := some (.external 22) }, .endBatch, .asyncWrite {}]

/-- No accept is prepared after one that failed. A connection that is not configured has
the listener shut down and its entry released in its place. -/
theorem run_not_accepting :
    (∃ w w', start (plain .shard) keepNothing = some w ∧ run step acceptRefused w = some w' ∧
      w'.phase = .top ∧ w'.shutdowning = false ∧ w'.outstanding = [] ∧ ¬ w'.Accepting) ∧
    ∃ w w', start { plain .shard with tcpKeepAlive := true } keepNothing = some w ∧
      run step keepAliveRefused w = some w' ∧ w'.phase = .top ∧ w'.shutdowning = false ∧
      w'.connections.lookup 3 = none ∧ 3 ∈ w'.shut ∧ ¬ w'.Accepting := by
  refine ⟨?_, ?_⟩
  · obtain ⟨w, w', started, ran, top, calm, nothing⟩ : ∃ w w',
        start (plain .shard) keepNothing = some w ∧
        run step acceptRefused w = some w' ∧ w'.phase = .top ∧ w'.shutdowning = false ∧
        w'.outstanding = [] := exists_run (by decide)
    refine ⟨w, w', started, ran, top, calm, nothing, fun accepting => ?_⟩
    have once := accepting.once
    rw [nothing] at once
    cases once
  · obtain ⟨w, w', started, ran, top, calm, absent, shut, listener⟩ : ∃ w w',
        start { plain .shard with tcpKeepAlive := true } keepNothing = some w ∧
        run step keepAliveRefused w = some w' ∧ w'.phase = .top ∧ w'.shutdowning = false ∧
        w'.connections.lookup 3 = none ∧ 3 ∈ w'.shut ∧ w'.cfg.listener = 3 := exists_run (by decide)
    refine ⟨w, w', started, ran, top, calm, absent, shut, fun accepting => ?_⟩
    obtain ⟨o, found, _⟩ := accepting.registered
    rw [listener, absent] at found
    cases found

end Worker

end Gain
