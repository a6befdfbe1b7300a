import Gain.Worker.Ownership

/-! # Handlers in the loop and in a goroutine

With an asynchronous handler `doAsyncWork` decides on the next request after
`OnRead`, and `handleAsyncWrites` prepares it in a later part of the loop. This
comes to what the loop would have done itself exactly if that request finds the
entries it asks for: the loop closes the connection when it does not, and
`handleAsyncWrites` only logs the error.
-/

namespace Gain

open Function List Option Session

variable {α β γ : Type} {err : Option Error} {ops : List ConnOp}

/-- Two computations with the same first step and related rests. -/
theorem bind_eq_map_bind {first first' : Option α} {rest : α → Option γ} {rest' : α → Option β}
    {f : β → γ} (same : first = first') (rests : ∀ a, rest a = (rest' a).map f) :
    first.bind rest = (first'.bind rest').map f := by
  subst same
  cases first with
  | none => rfl
  | some a => exact rests a

theorem map_bind_eq_map_bind {δ : Type} {first : Option δ} {first' : Option α} {rest : δ → Option γ}
    {rest' : α → Option β} {f : β → γ} {g : α → δ} (same : first = first'.map g)
    (rests : ∀ a, rest (g a) = (rest' a).map f) : first.bind rest = (first'.bind rest').map f := by
  rw [same, bind_map]
  exact bind_eq_map_bind rfl rests

namespace Session

variable {cfg : Config} {x x' : Session} {op : AsyncOp} {free : Bool} {sqe : Nat → Bool}

/-- The decision is kept in the connection. -/
def decided (x : Session) (op : AsyncOp) : Session :=
  { x with conn := { x.conn with nextAsyncOp := op } }

theorem addReadRequest_decided (free : Bool) :
    (x.decided op).addReadRequest cfg free =
      (x.addReadRequest cfg free).map (Prod.map id (decided · op)) := by
  cases free with
  | false => rfl
  | true =>
    refine bind_eq_map_bind rfl fun inbound => ?_
    refine bind_eq_map_bind rfl fun grown => ?_
    exact bind_eq_map_bind rfl fun entry => rfl

theorem addCloseConnRequest_decided (free : Bool) :
    (x.decided op).addCloseConnRequest free =
      Prod.map id (decided · op) (x.addCloseConnRequest free) := by
  cases free <;> rfl

theorem addWriteRequest_decided (free link : Bool) :
    (x.decided op).addWriteRequest cfg free link =
      (x.addWriteRequest cfg free link).map (Prod.map id (decided · op)) := by
  cases free with
  | false => rfl
  | true => exact bind_eq_map_bind rfl fun entry => rfl

theorem setMsgHeaderWrite_decided (c : Connection) :
    { c with nextAsyncOp := op }.setMsgHeaderWrite =
      c.setMsgHeaderWrite.map fun c => { c with nextAsyncOp := op } := by
  refine bind_eq_map_bind rfl fun outbound => ?_
  refine bind_eq_map_bind rfl fun base => ?_
  exact bind_eq_map_bind rfl fun header => rfl

/-- The write request of `writeData`, and the close request behind it. -/
def writeThenClose (cfg : Config) (sqe : Nat → Bool) (x : Session) :
    Option (Option Error × Session) := do
  let closed := x.conn.closed
  let (err, x) ← x.addWriteRequest cfg (sqe 0) closed
  match err with
  | some err => return (some err, x)
  | none => if closed then return x.addCloseConnRequest (sqe 1) else return (none, x)

/-- The decision kept is not read. -/
theorem writeThenClose_decided (sqe : Nat → Bool) :
    (x.decided op).writeThenClose cfg sqe =
      (x.writeThenClose cfg sqe).map (Prod.map id (decided · op)) := by
  unfold writeThenClose
  change ((x.decided op).addWriteRequest cfg (sqe 0) x.conn.closed).bind _ =
    Option.map _ ((x.addWriteRequest cfg (sqe 0) x.conn.closed).bind _)
  rw [addWriteRequest_decided]
  cases x.addWriteRequest cfg (sqe 0) x.conn.closed with
  | none => rfl
  | some result =>
    obtain ⟨err | err, x'⟩ := result
    · change (if x.conn.closed then some ((x'.decided op).addCloseConnRequest (sqe 1))
        else some (none, x'.decided op)) = Option.map _
          (if x.conn.closed then some (x'.addCloseConnRequest (sqe 1)) else some (none, x'))
      rw [addCloseConnRequest_decided]
      split_ifs <;> rfl
    · rfl

theorem writeData_eq (cfg : Config) (sqe : Nat → Bool) (x : Session) :
    x.writeData cfg sqe =
      (if cfg.sendRecvMsg then x.conn.setMsgHeaderWrite else some x.conn).bind fun c =>
        { x with conn := c }.writeThenClose cfg sqe := by
  unfold writeData
  split_ifs <;> rfl

theorem writeData_decided (sqe : Nat → Bool) :
    (x.decided op).writeData cfg sqe = (x.writeData cfg sqe).map (Prod.map id (decided · op)) := by
  have same : ∀ c : Connection,
      ({ x with conn := { c with nextAsyncOp := op } }).writeThenClose cfg sqe =
      ({ x with conn := c }.writeThenClose cfg sqe).map (Prod.map id (decided · op)) :=
    fun c => writeThenClose_decided (x := { x with conn := c }) sqe
  rw [writeData_eq, writeData_eq]
  split_ifs
  · change ({ x.conn with nextAsyncOp := op }.setMsgHeaderWrite).bind _ = _
    rw [setMsgHeaderWrite_decided]
    cases x.conn.setMsgHeaderWrite with
    | none => rfl
    | some c => exact same c
  · exact same x.conn

/-- The request a decision leads to. -/
def perform (cfg : Config) (sqe : Nat → Bool) (op : AsyncOp) (x : Session) :
    Option (Option Error × Session) :=
  match op with
  | .readOp => x.addReadRequest cfg (sqe 0)
  | .writeOp => x.writeData cfg sqe
  | .closeOp => some (x.addCloseConnRequest (sqe 0))
  | .noOp => some (none, x)

theorem perform_decided (sqe : Nat → Bool) (next : AsyncOp) :
    (x.decided op).perform cfg sqe next =
      (x.perform cfg sqe next).map (Prod.map id (decided · op)) := by
  cases next with
  | noOp => rfl
  | readOp => exact addReadRequest_decided (sqe 0)
  | writeOp => exact writeData_decided sqe
  | closeOp => exact congrArg some (addCloseConnRequest_decided (sqe 0))

/-- The handler runs, then its decision is performed. -/
theorem workAndArm_eq_perform (cfg : Config) (env : Env) (n : Int) (x : Session) :
    x.workAndArm cfg env n = (x.work cfg n env.handler).bind fun x' =>
      (Worker.nextAsyncOp x'.conn).bind fun op => x'.perform cfg env.sqe op := by
  unfold workAndArm
  change (x.work cfg n env.handler).bind _ = _
  congr 1
  funext x'
  unfold Worker.nextAsyncOp
  change x'.conn.outboundBuffered.bind _ = (x'.conn.outboundBuffered.bind _).bind _
  cases x'.conn.outboundBuffered with
  | none => rfl
  | some pending =>
    change (if pending > 0 then _ else if x'.conn.closed then _ else _) = (some
      (if pending > 0 then AsyncOp.writeOp
        else if x'.conn.closed then .closeOp else .readOp)).bind
        fun op => x'.perform cfg env.sqe op
    split_ifs <;> rfl

theorem addReadRequest_same (done : x.addReadRequest cfg free = some (err, x')) :
    x'.obj = x.obj ∧ x'.conn.life = x.conn.life := by
  cases free with
  | false =>
    cases done
    exact ⟨rfl, rfl⟩
  | true =>
    obtain ⟨inbound, _, grows⟩ := bind_eq_some_iff.mp done
    obtain ⟨grown, _, enters⟩ := bind_eq_some_iff.mp grows
    obtain ⟨entry, _, last⟩ := bind_eq_some_iff.mp enters
    cases last
    exact ⟨rfl, rfl⟩

theorem addWriteRequest_same {link : Bool}
    (done : x.addWriteRequest cfg free link = some (err, x')) :
    x'.obj = x.obj ∧ x'.conn.life = x.conn.life := by
  cases free with
  | false =>
    cases done
    exact ⟨rfl, rfl⟩
  | true =>
    obtain ⟨entry, _, last⟩ := bind_eq_some_iff.mp done
    cases last
    exact ⟨rfl, rfl⟩

theorem addCloseConnRequest_same (free : Bool) (x : Session) :
    (x.addCloseConnRequest free).2.obj = x.obj ∧
      (x.addCloseConnRequest free).2.conn.life = x.conn.life := by
  cases free <;> exact ⟨rfl, rfl⟩

theorem writeThenClose_same (done : x.writeThenClose cfg sqe = some (err, x')) :
    x'.obj = x.obj ∧ x'.conn.life = x.conn.life := by
  obtain ⟨⟨failed, x₁⟩, written, rest⟩ := bind_eq_some_iff.mp done
  have same := addWriteRequest_same written
  cases failed with
  | some failed =>
    cases rest
    exact same
  | none =>
    dsimp only at rest
    split_ifs at rest with closed
    · have later := addCloseConnRequest_same (sqe 1) x₁
      rw [Option.some.inj rest] at later
      exact ⟨later.1.trans same.1, later.2.trans same.2⟩
    · cases rest
      exact same

/-- The request is prepared for the connection it was decided for. -/
theorem perform_same (done : x.perform cfg sqe op = some (err, x')) :
    x'.obj = x.obj ∧ x'.conn.life = x.conn.life := by
  cases op with
  | noOp =>
    cases done
    exact ⟨rfl, rfl⟩
  | readOp => exact addReadRequest_same done
  | writeOp =>
    obtain ⟨c, header, rest⟩ := bind_eq_some_iff.mp ((writeData_eq ..).symm.trans done)
    obtain ⟨obj, life⟩ := writeThenClose_same rest
    have same : c.life = x.conn.life := by
      split_ifs at header
      · obtain ⟨outbound, _, addresses⟩ := bind_eq_some_iff.mp header
        obtain ⟨base, _, headers⟩ := bind_eq_some_iff.mp addresses
        obtain ⟨old, _, last⟩ := bind_eq_some_iff.mp headers
        cases last
        rfl
      · cases header
        rfl
    exact ⟨obj, life.trans same⟩
  | closeOp =>
    have same := addCloseConnRequest_same (sqe 0) x
    rw [Option.some.inj done] at same
    exact same

/-- Handlers do not shut sockets down. -/
theorem calls_shut (done : calls cfg.source ops x = some x') : x'.shut = x.shut := by
  induction ops generalizing x with
  | nil =>
    cases done
    rfl
  | cons op ops ih =>
    obtain ⟨x₁, first, rest⟩ := bind_eq_some_iff.mp done
    rw [ih rest]
    cases call_method first <;> rfl

end Session

/-- The outcomes of the `GetSQE` calls after those for the bytes received: a datagram's main
connection has been armed again. -/
def Env.following (env : Env) (cfg : Config) : Env :=
  if cfg.sendRecvMsg then { env with sqe := fun i => env.sqe (i + 1) } else env

namespace Worker

variable {w : Worker} {o : Nat} {n : Int} {w' : Worker}

/-- The calls of a handler's goroutine, one step each. -/
theorem run_taskCalls {i : Nat} (task : w.tasks[i]? = some ⟨o, n, true⟩) (ops : List ConnOp) :
    run step (ops.map (.taskCall i)) w =
      (Session.calls w.cfg.source ops (w.session o)).map w.setSession := by
  induction ops generalizing w with
  | nil => exact congrArg some (setSession_session w o).symm
  | cons op ops ih =>
    have first : w.step (.taskCall i op) =
        ((w.session o).call w.cfg.source op).map w.setSession := by
      simp only [step, task]
    rw [map_cons, run, first, Session.calls]
    cases called : (w.session o).call w.cfg.source op with
    | none => rfl
    | some x =>
      have frame := (call_method called).frame
      have here : (w.setSession x).session o = x := by
        rw [← show x.obj = o from frame.obj, session_setSession]
      change run step (ops.map (.taskCall i)) (w.setSession x) =
        (Session.calls w.cfg.source ops x).map w.setSession
      rw [ih (w := w.setSession x) task, here]
      refine map_congr fun x' later => ?_
      have rest := calls_frame later
      exact setSession_setSession w rest.obj rest.life

theorem setConn_setSession (w : Worker) (x : Session) (op : AsyncOp) :
    (w.setSession x).setConn x.obj { x.conn with nextAsyncOp := op } =
      w.setSession (x.decided op) := by
  simp only [setConn, setSession, Session.decided, update_idem]

/-- The connection waits in the queue with the decision made. -/
def enqueued (w : Worker) (tasks : List Task) (x : Session) (op : AsyncOp) : Worker :=
  { w.setSession (x.decided op) with
    tasks := tasks, asyncOpQueue := w.asyncOpQueue ++ [x.obj] }

/-- The last goroutine ends. -/
theorem step_taskEnd {tasks : List Task} {x : Session}
    (last : w.tasks = tasks ++ [⟨x.obj, n, true⟩]) :
    (w.setSession x).step (.taskEnd tasks.length) =
      (nextAsyncOp x.conn).map (w.enqueued tasks x) := by
  have task : (w.setSession x).tasks[tasks.length]? = some ⟨x.obj, n, true⟩ := by
    change w.tasks[tasks.length]? = _
    rw [last, List.getElem?_concat_length]
  have conn : (w.setSession x).heap x.obj = x.conn := update_self ..
  have erased : (w.setSession x).tasks.eraseIdx tasks.length = tasks := by
    change w.tasks.eraseIdx tasks.length = tasks
    rw [last, eraseIdx_append_of_length_le (Nat.le_refl _), Nat.sub_self]
    exact append_nil tasks
  simp only [step, task, conn, erased]
  cases nextAsyncOp x.conn with
  | none => rfl
  | some op =>
    change some { (w.setSession x).setConn x.obj { x.conn with nextAsyncOp := op } with
      tasks := tasks, asyncOpQueue := w.asyncOpQueue ++ [x.obj] } = some _
    rw [setConn_setSession]
    rfl

/-- A goroutine runs its handler, decides and puts the connection into the queue. -/
theorem run_task {tasks : List Task} (last : w.tasks = tasks ++ [⟨o, n, false⟩])
    (ops : List ConnOp) :
    run step (.taskBegin tasks.length ::
        (ops.map (.taskCall tasks.length) ++ [.taskEnd tasks.length])) w =
      ((w.session o).work w.cfg n ops).bind fun x =>
        (nextAsyncOp x.conn).map (w.enqueued tasks x) := by
  let x₀ : Session := (w.session o).setUserSpace.fired (.onRead n)
  let w₁ : Worker := { w with tasks := tasks ++ [⟨o, n, true⟩] }
  have begun : w.step (.taskBegin tasks.length) = some (w₁.setSession x₀) := by
    have task : w.tasks[tasks.length]? = some ⟨o, n, false⟩ := by
      rw [last, List.getElem?_concat_length]
    simp only [step, task]
    change some { w.setSession x₀ with tasks := w.tasks.set tasks.length ⟨o, n, true⟩ } = some _
    rw [last, set_append_right _ _ (Nat.le_refl _), Nat.sub_self]
    rfl
  have task : (w₁.setSession x₀).tasks[tasks.length]? = some ⟨o, n, true⟩ :=
    List.getElem?_concat_length ..
  have here : (w₁.setSession x₀).session o = x₀ := session_setSession w₁ x₀
  rw [run, begun, bind_some, run_append, run_taskCalls task, here]
  change ((Session.calls w.cfg.source ops x₀).map (w₁.setSession x₀).setSession).bind _ =
    (Session.calls w.cfg.source ops x₀).bind _
  cases called : Session.calls w.cfg.source ops x₀ with
  | none => rfl
  | some x =>
    have frame := calls_frame called
    obtain rfl : x.obj = o := frame.obj
    change (((w₁.setSession x₀).setSession x).step (.taskEnd tasks.length)).bind _ = _
    rw [setSession_setSession w₁ frame.obj frame.life, step_taskEnd rfl]
    change _ = (nextAsyncOp x.conn).map (w.enqueued tasks x)
    cases nextAsyncOp x.conn <;> rfl

theorem release_shut {key : Int} (done : w.release key = some w') : w'.shut = w.shut := by
  unfold release at done
  split at done
  · cases done
    rfl
  · obtain ⟨w₁, put, last⟩ := bind_eq_some_iff.mp done
    obtain ⟨_, _, rest⟩ := bind_eq_some_iff.mp put
    obtain ⟨_, _, rest⟩ := bind_eq_some_iff.mp rest
    cases rest
    cases last
    rfl

/-- A connection that is given up is shut down. -/
theorem closeConn_shut (done : w.closeConn o true err ops = some w') :
    w'.shut = (w.heap o).fd :: w.shut := by
  obtain ⟨x, closed, rest⟩ := bind_eq_some_iff.mp done
  rw [release_shut rest]
  change x.shut = _
  rw [calls_shut closed]
  rw [if_pos rfl]
  split_ifs <;> rfl

/-! ## What does not depend on where handlers run -/

/-- The worker with another kind of handler and other goroutines. -/
def inContext (async : Bool) (tasks : List Task) (w : Worker) : Worker :=
  { w with cfg := { w.cfg with asyncHandler := async }, tasks := tasks }

variable (async : Bool) (tasks : List Task) {env : Env} {cqe : Cqe}

theorem within_inContext (code : Session → Option (α × Session)) :
    (w.inContext async tasks).within o code =
      (w.within o code).map (Prod.map id (inContext async tasks)) := by
  unfold within
  change Option.map _ (code (w.session o)) = _
  cases code (w.session o) <;> rfl

theorem getConnection_inContext :
    (w.inContext async tasks).getConnection =
      Prod.map id (inContext async tasks) w.getConnection := by
  cases taken : w.connPool.get with
  | mk ptr connPool =>
    have taken' : (w.inContext async tasks).connPool.get = (ptr, connPool) := taken
    simp only [getConnection, taken, taken']
    cases ptr <;> rfl

theorem putConnection_inContext :
    (w.inContext async tasks).putConnection o =
      (w.putConnection o).map (inContext async tasks) := by
  refine bind_eq_map_bind rfl fun bufPool => ?_
  exact bind_eq_map_bind rfl fun bufPool => rfl

theorem release_inContext (key : Int) :
    (w.inContext async tasks).release key = (w.release key).map (inContext async tasks) := by
  have same : (w.inContext async tasks).connections.lookup key = w.connections.lookup key := rfl
  simp only [release, same]
  cases w.connections.lookup key with
  | none => rfl
  | some o =>
    let w₁ : Worker := { w with
      connections := w.connections.erase key, connectionsCount := addInt32 w.connectionsCount (-1) }
    exact map_bind_eq_map_bind (putConnection_inContext (w := w₁) async tasks) fun w => rfl

theorem closeConn_inContext (syscallClose : Bool) (err : Option Error) (ops : List ConnOp) :
    (w.inContext async tasks).closeConn o syscallClose err ops =
      (w.closeConn o syscallClose err ops).map (inContext async tasks) := by
  refine bind_eq_map_bind rfl fun x => ?_
  exact release_inContext (w := w.setSession x) async tasks x.conn.key

theorem endOnError_inContext (env : Env) (err : Option Error) :
    (w.inContext async tasks).endOnError env o err =
      (w.endOnError env o err).map (inContext async tasks) := by
  cases err with
  | none => rfl
  | some err => exact closeConn_inContext async tasks true (some err) env.onClose

/-- A fork does not see the context. -/
theorem fork_inContext (write : Bool) :
    (w.inContext async tasks).fork o write =
      (w.fork o write).map (Prod.map id (inContext async tasks)) := by
  unfold fork
  cases keys : w.keyPool.get with
  | mk key keyPool =>
    have keys' : (w.inContext async tasks).keyPool.get = (key, keyPool) := keys
    simp only [keys']
    cases taken : ({ w with keyPool := keyPool } : Worker).getConnection with
    | mk f w₁ =>
      have taken' :
          ({ w.inContext async tasks with keyPool := keyPool } : Worker).getConnection =
          (f, w₁.inContext async tasks) := by
        have got := getConnection_inContext (w := { w with keyPool := keyPool }) async tasks
        rw [taken] at got
        exact got
      rw [taken']
      cases write with
      | false => exact bind_eq_map_bind rfl fun c => rfl
      | true =>
        refine bind_eq_map_bind rfl fun forked => ?_
        exact bind_eq_map_bind rfl fun c => rfl

theorem receiver_inContext (env : Env) :
    (w.inContext async tasks).receiver env o =
      (w.receiver env o).map (Prod.map id (inContext async tasks)) := by
  unfold receiver
  cases datagram : w.cfg.sendRecvMsg with
  | false =>
    have datagram' : (w.inContext async tasks).cfg.sendRecvMsg = false := datagram
    rw [datagram']
    rfl
  | true =>
    have datagram' : (w.inContext async tasks).cfg.sendRecvMsg = true := datagram
    rw [datagram']
    refine map_bind_eq_map_bind (fork_inContext async tasks true) fun r => ?_
    let w₁ := r.2.setConn r.1 { r.2.heap r.1 with localAddr := r.2.cfg.localAddr }
    exact map_bind_eq_map_bind (within_inContext (w := w₁) async tasks _) fun r => rfl

/-- The part of `onRead` before the handler: the bytes are counted, and those of a datagram go to
a connection of their own. -/
def received (w : Worker) (env : Env) (cqe : Cqe) (o : Nat) :
    Option ((Option Error × Nat) × Worker) := do
  let (_, w) ← w.within o fun x => (x.onKernelRead cqe).map fun x => ((), x)
  w.receiver env o

theorem received_inContext (env : Env) (cqe : Cqe) :
    (w.inContext async tasks).received env cqe o =
      (w.received env cqe o).map (Prod.map id (inContext async tasks)) := by
  refine map_bind_eq_map_bind (within_inContext async tasks _) fun r => ?_
  exact receiver_inContext (w := r.2) async tasks env

theorem getConnection_cfg (w : Worker) : w.getConnection.2.cfg = w.cfg := by
  unfold getConnection
  dsimp only
  split <;> rfl

theorem fork_cfg {f : Nat} (done : w.fork o true = some (f, w')) : w'.cfg = w.cfg := by
  rcases keyed : w.keyPool.get with ⟨key, keyPool⟩
  have kept := getConnection_cfg { w with keyPool := keyPool }
  rcases got : getConnection { w with keyPool := keyPool } with ⟨f', w₁⟩
  simp only [fork, keyed, got] at done kept
  obtain ⟨forked, _, rest⟩ := bind_eq_some_iff.mp done
  obtain ⟨main, _, last⟩ := bind_eq_some_iff.mp rest
  cases last
  exact kept

theorem received_cfg {r : Option Error × Nat} (done : w.received env cqe o = some (r, w')) :
    w'.cfg = w.cfg := by
  obtain ⟨⟨_, w₁⟩, counted, rest⟩ := bind_eq_some_iff.mp done
  obtain ⟨x₁, _, rfl⟩ := within_eq counted
  change (w.setSession x₁).receiver env o = _ at rest
  unfold receiver at rest
  split_ifs at rest
  · obtain ⟨⟨forked, w₂⟩, forks, rest⟩ := bind_eq_some_iff.mp rest
    obtain ⟨⟨err, w₃⟩, arms, last⟩ := bind_eq_some_iff.mp rest
    obtain ⟨x₂, _, rfl⟩ := within_eq arms
    cases last
    have kept : w₂.cfg = w.cfg := fork_cfg (w := w.setSession x₁) forks
    exact kept
  · cases rest
    rfl

/-- The part of `onRead` from there on. -/
def answer (w : Worker) (env : Env) (cqe : Cqe) (err : Option Error) (o : Nat) :
    Option (Option Error × Worker) :=
  match err with
  | some err => some (some err, w)
  | none =>
    if cqe.nonempty ∧ !(w.heap o).closed then
      w.within o (Session.addReadRequest w.cfg ((env.following w.cfg).sqe 0))
    else if w.cfg.asyncHandler then
      some (none, { w with tasks := w.tasks ++ [⟨o, cqe.res, false⟩] })
    else w.within o (Session.workAndArm w.cfg (env.following w.cfg) cqe.res)

/-- No handler is called for the completion. -/
def Unstarted (w : Worker) (cqe : Cqe) (err : Option Error) (o : Nat) : Prop :=
  err.isSome ∨ cqe.nonempty ∧ !(w.heap o).closed

instance (w : Worker) (cqe : Cqe) (err : Option Error) (o : Nat) :
    Decidable (w.Unstarted cqe err o) :=
  inferInstanceAs (Decidable (err.isSome ∨ cqe.nonempty ∧ !(w.heap o).closed))

theorem started_of_not (started : ¬ w.Unstarted cqe err o) :
    err = none ∧ ¬ (cqe.nonempty ∧ !(w.heap o).closed) := by
  refine ⟨?_, fun more => started (Or.inr more)⟩
  cases err with
  | none => rfl
  | some err => exact absurd (Or.inl rfl) started

/-- An answer does not see the context. -/
theorem answer_inContext (unstarted : w.Unstarted cqe err o) :
    (w.inContext async tasks).answer env cqe err o =
      (w.answer env cqe err o).map (Prod.map id (inContext async tasks)) := by
  cases err with
  | some err => rfl
  | none =>
    have more : cqe.nonempty ∧ !(w.heap o).closed := by
      rcases unstarted with gone | more
      · cases gone
      · exact more
    unfold answer
    rw [if_pos more]
    change (if cqe.nonempty ∧ !(w.heap o).closed then _ else _) = _
    rw [if_pos more]
    exact within_inContext async tasks _

theorem onRead_eq (some' : ¬ cqe.res ≤ 0) :
    w.onRead env cqe o = (w.received env cqe o).bind fun r => r.2.answer env cqe r.1.1 r.1.2 := by
  unfold onRead received
  rw [if_neg some']
  change Option.bind _ _ = (Option.bind _ _).bind _
  rw [bind_assoc]
  rfl

/-- `handleConn` -/
def handleConn (w : Worker) (env : Env) (cqe : Cqe) (o : Nat) : Option Worker :=
  match w.cfg.kind with
  | .consumer => w.consumerHandleConn env cqe o
  | .shard => w.shardHandleConn env cqe o

/-- `onRead` with the error handling of `handleConn`. -/
def handleRead (w : Worker) (env : Env) (cqe : Cqe) (o : Nat) : Option Worker := do
  let (err, w) ← w.onRead env cqe o
  w.endOnError env o err

theorem handleConn_read (state : (w.heap o).state = .read) :
    w.handleConn env cqe o = w.handleRead env cqe o := by
  unfold handleConn
  cases w.cfg.kind with
  | consumer =>
    dsimp only
    rw [consumerHandleConn, state]
    rfl
  | shard =>
    dsimp only
    rw [shardHandleConn, state]
    rfl

/-- The goroutine started last runs, and the entry it has put into the queue is handled. -/
def finishTask (w : Worker) (env : Env) : Option Worker := do
  let i := w.tasks.length - 1
  let w ← run step (.taskBegin i :: (env.handler.map (.taskCall i) ++ [.taskEnd i])) w
  let o ← w.asyncOpQueue.getLast?
  { w with asyncOpQueue := w.asyncOpQueue.dropLast }.handleAsyncWrite env o

/-- A completion is handled with the handler in the loop. -/
def handleConnSync (w : Worker) (env : Env) (cqe : Cqe) (o : Nat) : Option Worker :=
  (w.inContext false w.tasks).handleConn env cqe o

/-- A completion is handled with the handler in a goroutine of its own, if it comes to that. -/
def handleConnAsync (w : Worker) (env : Env) (cqe : Cqe) (o : Nat) : Option Worker := do
  let w' ← (w.inContext true w.tasks).handleConn env cqe o
  if w'.tasks.length = w.tasks.length then return w'
  else w'.finishTask (env.following w.cfg)

/-- The error of the request that follows the handler, if one is run. -/
def armingError (w : Worker) (env : Env) (cqe : Cqe) (o : Nat) : Option Error :=
  if cqe.res ≤ 0 then none
  else (w.received env cqe o).bind fun ((err, o'), v) =>
    if v.Unstarted cqe err o' then none
    else ((v.session o').workAndArm v.cfg (env.following v.cfg) cqe.res).bind Prod.fst

/-- The worker without the traces of how the handler was run. -/
def settled (w : Worker) : Worker :=
  { w.inContext false w.tasks with heap := fun o => { w.heap o with nextAsyncOp := .noOp } }

theorem settled_setSession (w : Worker) (x : Session) (op : AsyncOp) :
    (w.setSession (x.decided op)).settled = (w.setSession x).settled := by
  have heaps : (fun o => { (w.setSession (x.decided op)).heap o with nextAsyncOp := .noOp }) =
      fun o => ({ (w.setSession x).heap o with nextAsyncOp := .noOp } : Connection) := by
    funext o
    by_cases self : o = x.obj
    · subst self
      simp only [setSession, Session.decided, update_self]
    · simp only [setSession, Session.decided, update_of_ne self]
  unfold settled
  rw [heaps]
  rfl

theorem handleAsyncWrite_eq_perform (w : Worker) (env : Env) (o : Nat) :
    w.handleAsyncWrite env o =
      ((w.session o).perform w.cfg env.sqe (w.session o).conn.nextAsyncOp).map
        fun r => w.setSession r.2 := by
  unfold handleAsyncWrite within
  rw [Option.map_map]
  rfl

/-- The entry of a queue is handled as decided. -/
theorem handleAsyncWrite_enqueued (env : Env) (x : Session) (op : AsyncOp) (queue : List Nat) :
    ({ w.enqueued tasks x op with asyncOpQueue := queue } : Worker).handleAsyncWrite env x.obj =
      (x.perform w.cfg env.sqe op).map fun r =>
        { w.setSession (r.2.decided op) with tasks := tasks, asyncOpQueue := queue } := by
  let w₁ : Worker := { w.enqueued tasks x op with asyncOpQueue := queue }
  have here : w₁.session x.obj = x.decided op := session_setSession w (x.decided op)
  change w₁.handleAsyncWrite env x.obj = _
  rw [handleAsyncWrite_eq_perform, here]
  change ((x.decided op).perform w.cfg env.sqe op).map (fun r => w₁.setSession r.2) = _
  rw [perform_decided, Option.map_map]
  refine map_congr fun r done => ?_
  obtain ⟨obj, life⟩ := perform_same done
  have again : (w.setSession (x.decided op)).setSession (r.2.decided op) =
      w.setSession (r.2.decided op) := setSession_setSession w obj life
  change { (w.setSession (x.decided op)).setSession (r.2.decided op) with
    tasks := tasks, asyncOpQueue := queue } = _
  rw [again]

/-- What a goroutine started last comes to. -/
theorem finishTask_eq (last : w.tasks = tasks ++ [⟨o, n, false⟩]) (env : Env) :
    w.finishTask env = ((w.session o).work w.cfg n env.handler).bind fun x =>
      (nextAsyncOp x.conn).bind fun op => (x.perform w.cfg env.sqe op).map fun r =>
        { w.setSession (r.2.decided op) with tasks := tasks } := by
  have newest : w.tasks.length - 1 = tasks.length := by
    rw [last, length_append]
    exact Nat.add_sub_cancel tasks.length 1
  unfold finishTask
  rw [newest]
  dsimp only
  rw [run_task last env.handler]
  change (((w.session o).work w.cfg n env.handler).bind _).bind _ = _
  rw [bind_assoc]
  congr 1
  funext x
  cases nextAsyncOp x.conn with
  | none => rfl
  | some op =>
    change (w.asyncOpQueue ++ [x.obj]).getLast?.bind _ = (x.perform w.cfg env.sqe op).map _
    rw [getLast?_concat]
    change ({ w.enqueued tasks x op with
      asyncOpQueue := (w.asyncOpQueue ++ [x.obj]).dropLast } : Worker).handleAsyncWrite env
        x.obj = _
    rw [dropLast_concat, handleAsyncWrite_enqueued]
    rfl

/-- Without a handler, nothing depends on where it would run. -/
theorem settled_of_unstarted {w' : Option Worker} (env : Env) :
    ((w'.map (inContext true tasks)).bind fun w' =>
      if w'.tasks.length = tasks.length then some w' else w'.finishTask env).map settled =
      (w'.map (inContext false tasks)).map settled := by
  cases w' with
  | none => rfl
  | some w' =>
    change Option.map settled
      (if (w'.inContext true tasks).tasks.length = tasks.length then _ else _) = _
    rw [if_pos (show (w'.inContext true tasks).tasks.length = tasks.length from rfl)]
    rfl

/-- The handler in the loop and in a goroutine, from the point where it is called. If the request
that follows it fails, only the loop shuts a socket down. -/
theorem settled_of_started (env env' : Env) (main : Nat) :
    ((w.inContext true (tasks ++ [⟨o, n, false⟩])).finishTask env).map settled =
      (((w.inContext false tasks).within o (Session.workAndArm w.cfg env n)).bind fun r =>
        r.2.endOnError env' main r.1).map settled ↔
      ((w.session o).workAndArm w.cfg env n).bind Prod.fst = none := by
  rw [finishTask_eq tasks rfl env, within_inContext]
  unfold within
  rw [workAndArm_eq_perform]
  change (((w.session o).work w.cfg n env.handler).bind _).map _ =
    (((((w.session o).work w.cfg n env.handler).bind _).map _).map _ |>.bind _).map _ ↔ _
  cases (w.session o).work w.cfg n env.handler with
  | none => exact iff_of_true rfl rfl
  | some x =>
    change ((nextAsyncOp x.conn).bind _).map _ =
      (((((nextAsyncOp x.conn).bind _).map _).map _).bind _).map _ ↔
        ((nextAsyncOp x.conn).bind _).bind _ = none
    cases nextAsyncOp x.conn with
    | none => exact iff_of_true rfl rfl
    | some op =>
      change ((x.perform w.cfg env.sqe op).map _).map _ =
        ((((x.perform w.cfg env.sqe op).map _).map _).bind _).map _ ↔
          (x.perform w.cfg env.sqe op).bind _ = none
      cases x.perform w.cfg env.sqe op with
      | none => exact iff_of_true rfl rfl
      | some r =>
        obtain ⟨err, x'⟩ := r
        have same := settled_setSession (w.inContext false tasks) x' op
        cases err with
        | none => exact iff_of_true (congrArg some same) rfl
        | some err =>
          refine iff_of_false (fun agree => ?_) nofun
          obtain ⟨w₁, closed, settled⟩ := map_eq_some_iff.mp agree.symm
          have shut := congrArg Worker.shut (settled.trans same)
          change w₁.shut = x'.shut at shut
          rw [closeConn_shut closed] at shut
          exact absurd (congrArg List.length shut) (Nat.succ_ne_self _)

theorem handleRead_of_nothing (nothing : cqe.res ≤ 0) :
    (w.inContext async tasks).handleRead env cqe o =
      (w.closeConn o true (some .eof) env.onClose).map (inContext async tasks) := by
  unfold handleRead onRead
  rw [if_pos nothing, closeConn_inContext]
  cases w.closeConn o true (some .eof) env.onClose <;> rfl

theorem handleRead_of_some (some' : ¬ cqe.res ≤ 0) :
    (w.inContext async tasks).handleRead env cqe o =
      (w.received env cqe o).bind fun r =>
        ((r.2.inContext async tasks).answer env cqe r.1.1 r.1.2).bind fun s =>
          s.2.endOnError env o s.1 := by
  unfold handleRead
  rw [onRead_eq some', received_inContext]
  change ((Option.map _ _).bind _).bind _ = _
  rw [bind_map, bind_assoc]
  rfl

/-- Wherever the handler runs, the same requests are prepared in the same order, every connection
is left the same, and the same ones are closed and released, exactly if the request that follows
the handler finds the entries it asks for. -/
theorem handleConnAsync_eq_iff_armed (env : Env) (cqe : Cqe) (state : (w.heap o).state = .read) :
    (w.handleConnAsync env cqe o).map settled = (w.handleConnSync env cqe o).map settled ↔
      w.armingError env cqe o = none := by
  unfold handleConnAsync handleConnSync armingError
  have read : ∀ async, (w.inContext async w.tasks).handleConn env cqe o =
      (w.inContext async w.tasks).handleRead env cqe o := fun _ => handleConn_read state
  rw [read, read]
  by_cases nothing : cqe.res ≤ 0
  · rw [handleRead_of_nothing true _ nothing, handleRead_of_nothing false _ nothing, if_pos nothing]
    exact iff_of_true (settled_of_unstarted w.tasks (env.following w.cfg)) rfl
  · rw [handleRead_of_some true _ nothing, handleRead_of_some false _ nothing, if_neg nothing]
    cases received : w.received env cqe o with
    | none => exact iff_of_true rfl rfl
    | some r =>
      obtain ⟨⟨err, o'⟩, v⟩ := r
      have cfg := received_cfg received
      dsimp only [bind_some]
      by_cases unstarted : v.Unstarted cqe err o'
      · have answers : ∀ async, (((v.inContext async w.tasks).answer env cqe err o').bind fun s =>
            s.2.endOnError env o s.1) = ((v.answer env cqe err o').bind fun s =>
              s.2.endOnError env o s.1).map (inContext async w.tasks) := by
          intro async
          refine map_bind_eq_map_bind (answer_inContext async w.tasks unstarted) fun s => ?_
          exact endOnError_inContext async w.tasks env s.1
        change ((((v.inContext true w.tasks).answer env cqe err o').bind _).bind _).map _ =
          (((v.inContext false w.tasks).answer env cqe err o').bind _).map _ ↔ _
        rw [answers, answers, if_pos unstarted]
        exact iff_of_true (settled_of_unstarted w.tasks (env.following w.cfg)) rfl
      · obtain ⟨rfl, waiting⟩ := started_of_not unstarted
        rw [← cfg, if_neg unstarted]
        have async : (v.inContext true w.tasks).answer env cqe none o' =
            some (none, v.inContext true (w.tasks ++ [⟨o', cqe.res, false⟩])) := if_neg waiting
        have sync : (v.inContext false w.tasks).answer env cqe none o' =
            (v.inContext false w.tasks).within o'
              (Session.workAndArm v.cfg (env.following v.cfg) cqe.res) := if_neg waiting
        change ((((v.inContext true w.tasks).answer env cqe none o').bind _).bind _).map _ =
          (((v.inContext false w.tasks).answer env cqe none o').bind _).map _ ↔ _
        rw [async, sync]
        have longer : (w.tasks ++ [(⟨o', cqe.res, false⟩ : Task)]).length ≠ w.tasks.length := by
          rw [length_append]
          exact Nat.succ_ne_self w.tasks.length
        change Option.map settled (if (w.tasks ++ [(⟨o', cqe.res, false⟩ : Task)]).length =
          w.tasks.length then _ else _) = _ ↔ _
        rw [if_neg longer]
        exact settled_of_started w.tasks (env.following v.cfg) env o

/-- A connection is accepted, and a byte is received from it. -/
def byteReceived : List Label :=
  admission ++ ([.endBatch, .asyncWrite {}, .turn [] 1 .done, .peek,
    .complete 0 1 false [65] none] : List Label)

/-- The completion of `byteReceived`. -/
def byteCompletion : Cqe := { sqe := { flag := .read, key := 5, fd := 5 }, res := 1, data := [65] }

/-- The handler answers and closes. -/
theorem handleConnAsync_eq_iff_armed_byteReceived : ∃ w w₁ w₂,
    (start (plain .consumer) keepNothing).bind (run step byteReceived) = some w ∧
    w.handleConnSync { handler := [.write [66], .close] } byteCompletion 0 = some w₁ ∧
    w.handleConnAsync { handler := [.write [66], .close] } byteCompletion 0 = some w₂ ∧
    w₁.sq.map (List.map Sqe.flag) = [[.write, .close]] ∧ w₂.settled = w₁.settled := by
  have seen : (((start (plain .consumer) keepNothing).bind (run step byteReceived)).bind fun w =>
      (w.handleConnSync { handler := [.write [66], .close] } byteCompletion 0).map fun w₁ =>
        decide (w₁.sq.map (List.map Sqe.flag) = [[.write, .close]] ∧ (w.heap 0).state = .read ∧
          w.armingError { handler := [.write [66], .close] } byteCompletion 0 = none)) =
      some true := by
    decide +kernel
  obtain ⟨w, ran, seen⟩ := bind_eq_some_iff.mp seen
  obtain ⟨w₁, sync, seen⟩ := map_eq_some_iff.mp seen
  obtain ⟨queued, state, armed⟩ := of_decide_eq_true seen
  have same := (handleConnAsync_eq_iff_armed _ _ state).mpr armed
  rw [sync] at same
  obtain ⟨w₂, async, settled⟩ := map_eq_some_iff.mp same
  exact ⟨w, w₁, w₂, ran, sync, async, queued, settled⟩

/-- Without an entry for the next receive the loop gives the connection up, and the connection of a
goroutine stays without a request. -/
theorem handleConnAsync_ne : ∃ w w₁ w₂,
    (start (plain .consumer) keepNothing).bind (run step byteReceived) = some w ∧
    w.handleConnSync { sqe := fun _ => false } byteCompletion 0 = some w₁ ∧
    w.handleConnAsync { sqe := fun _ => false } byteCompletion 0 = some w₂ ∧
    w₁.connections.lookup 5 = none ∧ w₂.connections.lookup 5 = some 0 ∧
    w₂.sq.flatten.length = 0 := by
  have seen : (((start (plain .consumer) keepNothing).bind (run step byteReceived)).bind fun w =>
      (w.handleConnSync { sqe := fun _ => false } byteCompletion 0).bind fun w₁ =>
        (w.handleConnAsync { sqe := fun _ => false } byteCompletion 0).map fun w₂ =>
          decide (w₁.connections.lookup 5 = none ∧ w₂.connections.lookup 5 = some 0 ∧
            w₂.sq.flatten.length = 0)) = some true := by
    decide +kernel
  obtain ⟨w, ran, seen⟩ := bind_eq_some_iff.mp seen
  obtain ⟨w₁, sync, seen⟩ := bind_eq_some_iff.mp seen
  obtain ⟨w₂, async, seen⟩ := map_eq_some_iff.mp seen
  exact ⟨w, w₁, w₂, ran, sync, async, of_decide_eq_true seen⟩

end Worker

end Gain
