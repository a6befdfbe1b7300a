import Gain.Worker.Acts
import Gain.Worker.Loop

/-! # What handling an event can do

For a worker on stream connections, every path through `handleConn`, through a
hand-off and through the queues, as a statement about the session of the one
connection it works on.
-/

namespace Gain

open Function Option Session

namespace Worker

variable {w w' : Worker} {o : Nat} {x x' : Session}

@[simp] theorem session_setSession (w : Worker) (x : Session) :
    (w.setSession x).session x.obj = x := by
  simp [session, setSession]

@[simp] theorem setSession_session (w : Worker) (o : Nat) : w.setSession (w.session o) = w := by
  simp only [setSession, session, update_eq_self]

theorem setSession_setSession (w : Worker) {x x' : Session} (obj : x'.obj = x.obj)
    (life : x'.conn.life = x.conn.life) : (w.setSession x).setSession x' = w.setSession x' := by
  simp only [setSession, obj, life, update_idem]

theorem within_eq {α : Type} {code : Session → Option (α × Session)} {a : α}
    (done : w.within o code = some (a, w')) :
    ∃ x', code (w.session o) = some (a, x') ∧ w' = w.setSession x' := by
  obtain ⟨⟨b, x'⟩, ran, last⟩ := map_eq_some_iff.mp done
  cases last
  exact ⟨x', ran, rfl⟩

/-- The paths through `handleConn`, for a connection that is not the listener. -/
inductive Served (w : Worker) (env : Env) (cqe : Cqe) (o : Nat) : Worker → Prop
  | eof {w' : Worker} (state : (w.heap o).state = .read) (nothing : cqe.res ≤ 0)
      (ended : w.closeConn o true (some .eof) env.onClose = some w') : Served w env cqe o w'
  | armed {x x' : Session} (prelude : Session.Prelude w.cfg env.handler cqe (w.session o) x)
      (arming : Session.Arming w.cfg env.sqe x none x') : Served w env cqe o (w.setSession x')
  | failed {x x' : Session} {err : Error} {w' : Worker}
      (prelude : Session.Prelude w.cfg env.handler cqe (w.session o) x)
      (arming : Session.Arming w.cfg env.sqe x (some err) x')
      (ended : (w.setSession x').closeConn o true (some err) env.onClose = some w') :
      Served w env cqe o w'
  | spawned {x : Session} (state : (w.heap o).state = .read) (some' : 0 < cqe.res)
      (received : (w.session o).onKernelRead cqe = some x) (async : w.cfg.asyncHandler = true) :
      Served w env cqe o
        { w.setSession x with tasks := w.tasks ++ [⟨o, cqe.res, false⟩] }
  | closed {w' : Worker} (state : (w.heap o).state = .close) (flag : cqe.sqe.flag = .close)
      (ended : w.closeConn o false none env.onClose = some w') : Served w env cqe o w'
  | flushed {x₁ x : Session} (state : (w.heap o).state = .close) (flag : cqe.sqe.flag = .write)
      (sent : (w.session o).onKernelWrite cqe = some x₁)
      (called : Session.calls w.cfg.source env.handler
        (x₁.setUserSpace.fired (.onWrite cqe.res)) = some x) :
      Served w env cqe o (w.setSession x)
  | ignored (state : (w.heap o).state = .close) (other : cqe.sqe.flag ≠ .close)
      (other' : cqe.sqe.flag ≠ .write) : Served w env cqe o w
  | unknown {w' : Worker} {err : Error}
      (state : (w.heap o).state = .invalid ∨ (w.heap o).state = .accept)
      (ended : w.closeConn o true (some err) env.onClose = some w') : Served w env cqe o w'

variable {env : Env} {cqe : Cqe} {err : Option Error} {w₁ : Worker} {sqe : Nat → Bool}

theorem onKernelRead_identity (received : x.onKernelRead cqe = some x') :
    x'.obj = x.obj ∧ x'.conn.life = x.conn.life := by
  obtain ⟨rb, rb', _, _, rfl⟩ := onKernelRead_eq received
  exact ⟨rfl, rfl⟩

/-- An error that is passed on to `closeConn`, or none. -/
theorem served_of_arming (prelude : Session.Prelude w.cfg env.handler cqe (w.session o) x)
    (arming : Session.Arming w.cfg env.sqe x err x')
    (ended : (w.setSession x').endOnError env o err = some w') : Served w env cqe o w' := by
  cases err with
  | none =>
    cases ended
    exact .armed prelude arming
  | some err => exact .failed prelude arming ended

/-- The ways of `onRead`. -/
theorem onRead_served (tcp : w.cfg.sendRecvMsg = false) (state : (w.heap o).state = .read)
    (read : w.onRead env cqe o = some (err, w₁)) (ended : w₁.endOnError env o err = some w') :
    Served w env cqe o w' := by
  unfold onRead at read
  by_cases nothing : cqe.res ≤ 0
  · rw [if_pos nothing] at read
    obtain ⟨w₂, closed, last⟩ := bind_eq_some_iff.mp read
    cases last
    cases ended
    exact .eof state nothing closed
  · rw [if_neg nothing] at read
    have some' : 0 < cqe.res := not_le.mp nothing
    obtain ⟨⟨_, w₂⟩, counted, rest⟩ := bind_eq_some_iff.mp read
    obtain ⟨x₁, received, rfl⟩ := within_eq counted
    obtain ⟨x₁', received, same⟩ := map_eq_some_iff.mp received
    cases same
    obtain ⟨obj, life⟩ := onKernelRead_identity received
    change x₁.obj = o at obj
    subst obj
    have cfg : (w.setSession x₁).cfg = w.cfg := rfl
    simp only [receiver, cfg, tcp, Bool.false_eq_true, if_false, bind_eq_bind, bind_some] at rest
    have conn : (w.setSession x₁).heap x₁.obj = x₁.conn := update_self ..
    rw [conn] at rest
    by_cases again : cqe.nonempty = true ∧ (!x₁.conn.closed) = true
    · rw [if_pos again] at rest
      obtain ⟨x₂, asked, rfl⟩ := within_eq rest
      rw [session_setSession] at asked
      have arming : Session.Arming w.cfg env.sqe x₁ err x₂ := by
        rcases addReadRequest_cases asked with ⟨full, rfl, rfl⟩ | ⟨free, rfl, armed⟩
        · exact .refused _ full
        · exact .read free armed
      have frame := arming.acts.frame tcp
      rw [setSession_setSession w frame.obj frame.life] at ended
      refine served_of_arming (.reread state some' received again.1 ?_) arming ended
      simpa using again.2
    · rw [if_neg again] at rest
      by_cases async : w.cfg.asyncHandler = true
      · rw [if_pos async] at rest
        cases rest
        cases ended
        exact .spawned state some' received async
      · rw [if_neg async] at rest
        obtain ⟨x₂, worked, rfl⟩ := within_eq rest
        rw [session_setSession] at worked
        obtain ⟨x₃, called, arming⟩ := workAndArm_eq tcp worked
        have frame := Session.Acts.frame tcp ((calls_acts called).trans arming.acts)
        rw [setSession_setSession w (x := x₁) frame.obj frame.life] at ended
        exact served_of_arming (.worked state some' received called) arming ended

theorem onWrite_served (state : (w.heap o).state = .write)
    (wrote : w.onWrite env cqe o = some (err, w₁)) (ended : w₁.endOnError env o err = some w') :
    Served w env cqe o w' := by
  obtain ⟨x₂, ran, rfl⟩ := within_eq wrote
  obtain ⟨x₁, written, next⟩ := bind_eq_some_iff.mp ran
  obtain ⟨x₀, sent, called⟩ := onWritten_eq written
  exact served_of_arming (.wrote state sent called) (addNextRequest_arming next) ended

/-- The ways of a close completion. -/
theorem onClosing_served (state : (w.heap o).state = .close)
    (done : w.onClosing env cqe o = some w') : Served w env cqe o w' := by
  unfold onClosing at done
  cases flag : cqe.sqe.flag with
  | close =>
    rw [flag] at done
    exact .closed state flag done
  | write =>
    rw [flag] at done
    obtain ⟨⟨_, w₁⟩, ran, rfl⟩ := map_eq_some_iff.mp done
    obtain ⟨x, written, rfl⟩ := within_eq ran
    obtain ⟨x', written, same⟩ := map_eq_some_iff.mp written
    cases same
    obtain ⟨x₁, sent, called⟩ := onWritten_eq written
    exact .flushed state flag sent called
  | accept | read | addConn =>
    rw [flag] at done
    cases done
    exact .ignored state (by rw [flag]; decide) (by rw [flag]; decide)

/-- The ways of a consumer's connection. -/
theorem consumerHandleConn_served (tcp : w.cfg.sendRecvMsg = false)
    (done : w.consumerHandleConn env cqe o = some w') : Served w env cqe o w' := by
  unfold consumerHandleConn at done
  cases state : (w.heap o).state with
  | read =>
    rw [state] at done
    obtain ⟨⟨err, w₁⟩, read, ended⟩ := bind_eq_some_iff.mp done
    exact onRead_served tcp state read ended
  | write =>
    rw [state] at done
    obtain ⟨⟨err, w₁⟩, wrote, ended⟩ := bind_eq_some_iff.mp done
    exact onWrite_served state wrote ended
  | close =>
    rw [state] at done
    exact onClosing_served state done
  | invalid =>
    rw [state] at done
    exact .unknown (Or.inl state) done
  | accept =>
    rw [state] at done
    exact .unknown (Or.inr state) done

/-- A shard handles a connection as a consumer does. -/
theorem shardHandleConn_eq (tcp : w.cfg.sendRecvMsg = false)
    (stream : (w.heap o).state ≠ .accept) :
    w.shardHandleConn env cqe o = w.consumerHandleConn env cqe o := by
  unfold shardHandleConn consumerHandleConn
  cases state : (w.heap o).state with
  | accept => exact absurd state stream
  | write => simp only [tcp, Bool.false_eq_true, if_false]
  | invalid | read | close => rfl

theorem shardHandleConn_served (tcp : w.cfg.sendRecvMsg = false)
    (stream : (w.heap o).state ≠ .accept) (done : w.shardHandleConn env cqe o = some w') :
    Served w env cqe o w' := by
  rw [shardHandleConn_eq tcp stream] at done
  exact consumerHandleConn_served tcp done

/-- A new connection is announced and armed. -/
inductive Welcomed (w : Worker) (env : Env) (sqe : Nat → Bool) (o : Nat) :
    Option Error → Worker → Prop
  | intro {x x' : Session} {err : Option Error}
      (called : Session.calls w.cfg.source env.handler
        ((w.session o).setUserSpace.fired .onAccept) = some x)
      (arming : Session.Arming w.cfg sqe x err x') : Welcomed w env sqe o err (w.setSession x')

theorem Welcomed.acts {err : Option Error} (welcomed : Welcomed w env sqe o err w') :
    ∃ x, Session.Acts w.cfg (w.session o) x ∧ w' = w.setSession x := by
  obtain ⟨called, arming⟩ := welcomed
  exact ⟨_, (fired_acts called).trans arming.acts, rfl⟩

/-- A new connection that finds submission entries is armed. -/
theorem Welcomed.armed (welcomed : Welcomed w env sqe o err w') (free : sqe 0 = true)
    (free' : sqe 1 = true) : err = none := by
  obtain ⟨called, arming⟩ := welcomed
  cases arming with
  | refused err full =>
    rw [free] at full
    cases full
  | writeOnly err _ full closed armed =>
    rw [free'] at full
    cases full
  | read _ _ | write _ _ _ | writeClose _ _ _ _ | close _ _ _ => rfl

theorem welcome_welcomed (done : w.welcome env sqe o = some (err, w')) :
    Welcomed w env sqe o err w' := by
  obtain ⟨x', ran, rfl⟩ := within_eq done
  obtain ⟨x, fired, next⟩ := bind_eq_some_iff.mp ran
  exact .intro fired (addNextRequest_arming next)

/-- One entry of the asynchronous queue: the requests of the next operation. -/
theorem handleAsyncWrite_eq (done : w.handleAsyncWrite env o = some w')
    (tcp : w.cfg.sendRecvMsg = false) :
    ∃ x', Session.AsyncArming w.cfg env.sqe (w.session o) x' ∧ w' = w.setSession x' := by
  obtain ⟨⟨err, w₁⟩, ran, rfl⟩ := map_eq_some_iff.mp done
  obtain ⟨x', code, rfl⟩ := within_eq ran
  refine ⟨x', ?_, rfl⟩
  cases next : (w.session o).conn.nextAsyncOp with
  | noOp =>
    rw [next] at code
    cases code
    exact .nothing next
  | readOp =>
    rw [next] at code
    rcases addReadRequest_cases code with ⟨full, rfl, rfl⟩ | ⟨free, rfl, armed⟩
    · exact .armed (.refused .gettingSQE full)
    · exact .armed (.read free armed)
  | writeOp =>
    rw [next] at code
    exact .armed (writeData_arming tcp code)
  | closeOp =>
    rw [next] at code
    cases free : env.sqe 0 with
    | false =>
      rw [free] at code
      cases code
      exact .armed (.refused .gettingSQE free)
    | true =>
      rw [free] at code
      cases code
      exact .close free next

end Worker

end Gain
