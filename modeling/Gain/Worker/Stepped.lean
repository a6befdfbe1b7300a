import Gain.Worker.Served

/-! # One step of a worker

Every step of a worker on stream connections, path by path: what an event leads
to beyond the connection it is for, the shutdown sweep, the queues, the kernel's
part and the goroutines of asynchronous handlers.
-/

namespace Gain

open Function List Option

/-- What of a consumer concerns the connections handed over to it. -/
structure Mail where
  cfg : Config
  cq : List Cqe
  connQueue : List Int
  socketAddresses : AList fun _ : Int => NetAddr
  phase : Phase

namespace Worker

def mail (w : Worker) : Mail := ⟨w.cfg, w.cq, w.connQueue, w.socketAddresses, w.phase⟩

variable {w w' : Worker} {o : Nat} {x x' : Session} {env : Env} {cqe : Cqe} {err : Option Error}
  {fd res : Int} {q : Sqe} {data : List UInt8} {peer : Option NetAddr} {label : Label}

theorem get_mail {key : Int} (got : w.get key fd = (o, w')) : w'.mail = w.mail := by
  unfold get at got
  cases found : w.connections.lookup key with
  | some o' =>
    rw [found] at got
    cases got
    rfl
  | none =>
    rw [found] at got
    unfold getConnection at got
    rcases answer : w.connPool.get with ⟨ptr, connPool⟩
    rw [answer] at got
    cases ptr <;> cases got <;> rfl

/-- The worker's configuration is the same after a look-up. -/
theorem get_cfg {key : Int} (got : w.get key fd = (o, w')) : w'.cfg = w.cfg :=
  congrArg Mail.cfg (get_mail got)

/-- The connection of a new socket, found or entered, with its addresses. -/
inductive Addressed (w : Worker) (fd : Int) (o : Nat) : Worker → Prop
  | intro {w₁ : Worker} {localAddr remoteAddr : Option NetAddr}
      {addresses : AList fun _ : Int => NetAddr} (got : w.get fd fd = (o, w₁)) :
      Addressed w fd o { w₁.setConn o { w₁.heap o with
        fd := fd, localAddr := localAddr, remoteAddr := remoteAddr } with
        socketAddresses := addresses }

theorem Addressed.cfg (addressed : Addressed w fd o w') : w'.cfg = w.cfg := by
  obtain ⟨got⟩ := addressed
  have same := get_cfg got
  exact same

theorem enter_addressed (w : Worker) (fd : Int) (addr : Option NetAddr) :
    Addressed w fd (w.enter fd addr).1 (w.enter fd addr).2 :=
  .intro rfl

/-- A hand-off is taken up. -/
inductive HandedOver (w : Worker) (env : Env) (fd : Int) : Option Error → Worker → Prop
  | intro {o : Nat} {w₁ w' : Worker} {err : Option Error} (addressed : Addressed w fd o w₁)
      (welcomed : Welcomed w₁ env env.sqe o err w') : HandedOver w env fd err w'

theorem handleNewConn_handedOver (done : w.handleNewConn env fd = some (err, w')) :
    HandedOver w env fd err w' :=
  .intro (.intro rfl) (welcome_welcomed done)

/-- The accept request of a shard is prepared. -/
def prepareAccept (w : Worker) : Worker :=
  { w with sq := Chains.push w.sq { flag := .accept, key := w.cfg.listener, fd := w.cfg.listener } }

/-- The accept request of a shard is prepared, and its entry found or entered. -/
inductive Rearmed (w : Worker) (o : Nat) : Worker → Prop
  | intro {w₁ : Worker}
      (got : w.prepareAccept.get w.cfg.listener w.cfg.listener = (o, w₁)) :
      Rearmed w o (w₁.setConn o { w₁.heap o with state := .accept })

theorem Rearmed.cfg (rearmed : Rearmed w o w') : w'.cfg = w.cfg := by
  obtain ⟨got⟩ := rearmed
  have same := get_cfg got
  exact same

theorem addAcceptConnRequest_rearmed (w : Worker) :
    ∃ o, Rearmed w o (w.addAcceptConnRequest true).2 :=
  ⟨_, .intro rfl⟩

/-- The paths through a shard's `onAccept`. -/
inductive Accepted (w : Worker) (env : Env) (cqe : Cqe) : Option Error → Worker → Prop
  | refused (err : Error) (full : env.sqe 0 = false) :
      Accepted w env cqe (some err) { w with accepting := false }
  | failed {o o' : Nat} {w₁ w' : Worker} (err : Error) (free : env.sqe 0 = true)
      (reason : (w.cfg.cpuAffinity = true ∧ env.incomingCpu ≠ none) ∨
        (w.cfg.tcpKeepAlive = true ∧ env.keepAlive ≠ none))
      (rearmed : Rearmed w o w₁) (addressed : Addressed w₁ cqe.res o' w') :
      Accepted w env cqe (some err) w'
  | welcomed {o o' : Nat} {w₁ w₂ w' : Worker} {err : Option Error} (free : env.sqe 0 = true)
      (rearmed : Rearmed w o w₁) (addressed : Addressed w₁ cqe.res o' w₂)
      (welcomed : Welcomed w₂ env (fun i => env.sqe (i + 1)) o' err w') : Accepted w env cqe err w'

/-- The ways of `onAccept`. -/
theorem onAccept_accepted (done : w.onAccept env cqe = some (err, w')) :
    Accepted w env cqe err w' := by
  unfold onAccept at done
  cases free : env.sqe 0 with
  | false =>
    rw [free] at done
    cases done
    exact .refused _ free
  | true =>
    rw [free] at done
    obtain ⟨o, rearmed⟩ := addAcceptConnRequest_rearmed w
    have answer : w.addAcceptConnRequest true = (none, (w.addAcceptConnRequest true).2) := rfl
    rw [answer] at done
    generalize (w.addAcceptConnRequest true).2 = w₁ at rearmed done
    have addressed := enter_addressed w₁ cqe.res w₁.clientAddr
    dsimp only at done
    generalize w₁.enter cqe.res w₁.clientAddr = entry at addressed done
    obtain ⟨o', w₂⟩ := entry
    dsimp only at done addressed
    have same : w₂.cfg = w.cfg := addressed.cfg.trans rearmed.cfg
    have option : ∀ {chosen : Bool} {answer : Option Error} {e : Error},
        (if chosen = true then answer else none) = some e → chosen = true ∧ answer ≠ none := by
      intro chosen answer e given
      cases chosen with
      | false => cases given
      | true => exact ⟨rfl, fun none' => nomatch given.symm.trans none'⟩
    split at done
    · rename_i err' _ incomingCpu
      cases done
      rw [same] at incomingCpu
      exact .failed _ free (Or.inl (option incomingCpu)) rearmed addressed
    · rename_i err' _ keepAlive
      cases done
      rw [same] at keepAlive
      exact .failed _ free (Or.inr (option keepAlive)) rearmed addressed
    · exact .welcomed free rearmed addressed (welcome_welcomed done)

/-- The paths an event takes through the loop. -/
inductive Handled (w : Worker) (env : Env) (cqe : Cqe) : Worker → Prop
  /-- The result is an error, and a consumer still looks the connection up. -/
  | looked {o : Nat} {w' : Worker} (error : cqe.res < 0) (consumer : w.cfg.kind = .consumer)
      (got : w.get cqe.sqe.key 0 = (o, w')) : Handled w env cqe w'
  | dropped (error : cqe.res < 0) (shard : w.cfg.kind = .shard) : Handled w env cqe w
  | skipped (fine : 0 ≤ cqe.res) (consumer : w.cfg.kind = .consumer)
      (flag : cqe.sqe.flag ≠ .addConn) (small : cqe.sqe.key < 2) : Handled w env cqe w
  | announced {err : Option Error} {w' : Worker} (fine : 0 ≤ cqe.res)
      (consumer : w.cfg.kind = .consumer) (flag : cqe.sqe.flag = .addConn)
      (handed : HandedOver w env cqe.res err w') :
      Handled w env cqe (if err.isSome then w'.stop else w')
  | served {o : Nat} {w₁ w' : Worker} (fine : 0 ≤ cqe.res)
      (kind : w.cfg.kind = .consumer → cqe.sqe.flag ≠ .addConn ∧ 2 ≤ cqe.sqe.key)
      (got : w.get cqe.sqe.key cqe.sqe.key = (o, w₁))
      (stream : w.cfg.kind = .shard → (w₁.heap o).state ≠ .accept)
      (served : Served w₁ env cqe o w') : Handled w env cqe w'
  | accepted {o : Nat} {err : Option Error} {w₁ w₂ w' : Worker} (fine : 0 ≤ cqe.res)
      (shard : w.cfg.kind = .shard)
      (got : w.get cqe.sqe.key cqe.sqe.key = (o, w₁)) (state : (w₁.heap o).state = .accept)
      (accepted : Accepted w₁ env cqe err w₂) (ended : w₂.endOnError env o err = some w') :
      Handled w env cqe w'

/-- The ways of an event. -/
theorem handleEvent_handled (tcp : w.cfg.sendRecvMsg = false)
    (done : w.handleEvent env cqe = some w') : Handled w env cqe w' := by
  have live := userData_ne_zero cqe.sqe.flag cqe.sqe.key
  unfold handleEvent at done
  cases kind : w.cfg.kind with
  | consumer =>
    rw [kind] at done
    simp only [consumerEvent, processEvent, kind, live, if_false] at done
    by_cases error : cqe.res < 0
    · rw [if_pos error] at done
      cases done
      exact .looked error kind rfl
    · rw [if_neg error] at done
      have fine := not_lt.mp error
      by_cases flag : cqe.sqe.flag = .addConn
      · simp only [if_pos flag] at done
        obtain ⟨⟨err, w₁⟩, handed, last⟩ := bind_eq_some_iff.mp done
        cases last
        exact .announced fine kind flag (handleNewConn_handedOver handed)
      · simp only [if_neg flag] at done
        by_cases small : cqe.sqe.key < 2
        · rw [if_pos small] at done
          cases done
          exact .skipped fine kind flag small
        · rw [if_neg small] at done
          rcases got : w.get cqe.sqe.key cqe.sqe.key with ⟨o, w₁⟩
          simp only [getFd, got] at done
          refine .served fine (fun _ => ⟨flag, not_lt.mp small⟩) got ?_
            (consumerHandleConn_served ?_ done)
          · intro shard
            rw [kind] at shard
            cases shard
          · rw [get_cfg got]
            exact tcp
  | shard =>
    rw [kind] at done
    simp only [shardEvent, processEvent, kind, live, if_false] at done
    by_cases error : cqe.res < 0
    · rw [if_pos error] at done
      cases done
      exact .dropped error kind
    · rw [if_neg error] at done
      have fine := not_lt.mp error
      have asked : (if w.cfg.sendRecvMsg then w.cfg.listener else cqe.sqe.key) = cqe.sqe.key := by
        rw [tcp]
        rfl
      dsimp only at done
      rw [asked] at done
      rcases got : w.get cqe.sqe.key cqe.sqe.key with ⟨o, w₁⟩
      rw [got] at done
      dsimp only at done
      by_cases state : (w₁.heap o).state = .accept
      · unfold shardHandleConn at done
        rw [state] at done
        obtain ⟨⟨err, w₂⟩, accepted, ended⟩ := bind_eq_some_iff.mp done
        exact .accepted fine kind got state (onAccept_accepted accepted) ended
      · refine .served fine ?_ got (fun _ => state) (shardHandleConn_served ?_ state done)
        · intro consumer
          rw [kind] at consumer
          cases consumer
        · rw [get_cfg got]
          exact tcp

/-- The close of one connection is requested. -/
def sweepOne (w : Worker) (o : Nat) : Worker :=
  { w.setSession ((w.session o).addCloseConnRequest true).2 with
    releaseFdSet := insert (w.heap o).fd w.releaseFdSet }

/-- One connection of the shutdown sweep: it is left as it is, or its close is requested. -/
theorem closeConns_cases (w : Worker) (skipped key : Int) (free : Bool) (rest : List (Int × Bool)) :
    (w.closeConns skipped ((key, free) :: rest) = w.closeConns skipped rest ∧
      (free = true → ∀ o, w.connections.lookup key = some o → (w.heap o).fd = skipped)) ∨
      ∃ o, w.connections.lookup key = some o ∧ (w.heap o).fd ≠ skipped ∧
        w.closeConns skipped ((key, free) :: rest) = (w.sweepOne o).closeConns skipped rest := by
  rw [closeConns.eq_2]
  cases found : w.connections.lookup key with
  | none => exact Or.inl ⟨rfl, nofun⟩
  | some o =>
    dsimp only
    by_cases same : (w.heap o).fd = skipped
    · rw [if_pos same]
      refine Or.inl ⟨rfl, fun _ o' here => ?_⟩
      cases here
      exact same
    · rw [if_neg same]
      cases free with
      | false =>
        refine Or.inl ⟨?_, nofun⟩
        change (w.setSession (w.session o)).closeConns skipped rest = _
        rw [setSession_session]
      | true =>
        refine Or.inr ⟨o, rfl, same, ?_⟩
        have fd : ((w.setSession ((w.session o).addCloseConnRequest true).2).heap o).fd =
            (w.heap o).fd := by
          change (update w.heap o _ o).fd = _
          rw [update_self]
          rfl
        simp only [Session.addCloseConnRequest, Bool.not_true, Bool.false_eq_true, if_false,
          isNone_none, if_true] at fd ⊢
        rw [fd]
        rfl

/-- What the sweep keeps for one connection it keeps for all. -/
theorem closeConns_invariant {invariant : Worker → Prop} (swept : ∀ {w : Worker} {key : Int}
      {o : Nat}, w.connections.lookup key = some o → invariant w → invariant (w.sweepOne o))
    (skipped : Int) (order : List (Int × Bool)) (holds : invariant w) :
    invariant (w.closeConns skipped order) := by
  induction order generalizing w with
  | nil => exact holds
  | cons entry order ih =>
    obtain ⟨key, free⟩ := entry
    rcases closeConns_cases w skipped key free order with ⟨same, _⟩ | ⟨o, found, _, same⟩
    · rw [same]
      exact ih holds
    · rw [same]
      exact ih (swept found holds)

/-- What shutting down keeps. -/
theorem shutdownHandler_invariant {invariant : Worker → Prop}
    (marked : ∀ {w : Worker} {closing accepting inProgress shut fds}, invariant w →
      invariant { w with
        closing := closing, accepting := accepting, inProgress := inProgress, shut := shut
        releaseFdSet := fds })
    (swept : ∀ {w : Worker} {key : Int} {o : Nat}, w.connections.lookup key = some o →
      invariant w → invariant (w.sweepOne o))
    (order : List (Int × Bool)) (holds : invariant w) : invariant (w.shutdownHandler order) := by
  unfold shutdownHandler
  split_ifs
  · have all : invariant (w.onCloseHandler order) := by
      unfold onCloseHandler
      split
      · exact closeConns_invariant swept _ _ (marked holds)
      · exact closeConns_invariant swept _ _ (marked holds)
    exact marked all
  · exact holds

/-- What the kernel does to execute a request of a stream worker. -/
inductive Executed (w : Worker) (q : Sqe) (res : Int) (data : List UInt8) : Worker → Prop
  | error (error : res < 0) (flag : q.flag = .accept ∨ q.flag = .read ∨ q.flag = .close) :
      Executed w q res data w
  | sendError (error : res < 0) (flag : q.flag = .write) (nothing : data = []) :
      Executed w q res data (w.record q.life fun h => { h with sendFailed := true })
  | accepted {peer : Option NetAddr} (fine : 0 ≤ res) (flag : q.flag = .accept)
      (closed : res ∉ w.openFds) (small : res < 2 ^ 31) :
      Executed w q res data { w with openFds := res :: w.openFds, clientAddr := peer }
  | received (fine : 0 ≤ res) (flag : q.flag = .read) (fits : res ≤ q.len)
      (size : res = data.length) : Executed w q res data (w.deposit q.addr data)
  | sent (fine : 0 ≤ res) (flag : q.flag = .write) (fits : res ≤ q.len)
      (bytes : w.fetch q.addr res = some data) :
      Executed w q res data (w.record q.life fun h => { h with taken := h.taken ++ data })
  | closed (fine : 0 ≤ res) (flag : q.flag = .close) :
      Executed w q res data ({ w with openFds := w.openFds.filter (· ≠ q.fd) }.record q.life
        fun h => { h with closes := h.closes + 1 })

/-- Every request the kernel executes is one of these. -/
theorem execute_executed (done : w.execute q res data peer = some w')
    (tcp : w.cfg.sendRecvMsg = false) : Executed w q res data w' := by
  unfold execute at done
  cases flag : q.flag with
  | accept =>
    rw [flag] at done
    dsimp only at done
    split_ifs at done with error taken
    · cases done
      exact .error error (Or.inl flag)
    · cases done
      rw [not_or, not_le] at taken
      exact .accepted (not_lt.mp error) flag taken.1 taken.2
  | read =>
    rw [flag] at done
    dsimp only at done
    split_ifs at done with error nothing fits message
    · cases done
      exact .error error (Or.inr (Or.inl flag))
    · rw [show (w.deposit q.addr data).cfg.sendRecvMsg = false from tcp] at message
      cases message
    · cases done
      exact .received (not_lt.mp error) flag fits.1 fits.2
  | write =>
    rw [flag] at done
    dsimp only at done
    split_ifs at done with error nothing fits
    · cases done
      exact .sendError error flag nothing
    · cases done
      exact .sent (not_lt.mp error) flag fits.1 fits.2
  | close =>
    rw [flag] at done
    dsimp only at done
    split_ifs at done with error
    · cases done
      exact .error error (Or.inr (Or.inr flag))
    · cases done
      exact .closed (not_lt.mp error) flag
  | addConn =>
    rw [flag] at done
    cases done

variable (executed : Executed w q res data w')
include executed

/-- What the kernel's part of a request can change. -/
theorem Executed.frame : w' = { w with
    heap := w'.heap, bufPool := w'.bufPool, mem := w'.mem, histories := w'.histories
    openFds := w'.openFds, clientAddr := w'.clientAddr } := by
  cases executed <;> rfl

/-- The kernel's part of a request leaves the registry and the queues alone. -/
theorem Executed.queues :
    w'.inflight = w.inflight ∧ w'.sq = w.sq ∧ w'.cq = w.cq ∧ w'.connections = w.connections ∧
      w'.tasks = w.tasks ∧ w'.asyncOpQueue = w.asyncOpQueue ∧ w'.cfg = w.cfg := by
  cases executed <;> exact ⟨rfl, rfl, rfl, rfl, rfl, rfl, rfl⟩

theorem Executed.flag : q.flag ≠ .addConn := by
  intro flag
  cases executed with
  | error error flag' => rcases flag' with other | other | other <;> cases other.symm.trans flag
  | sendError _ other _ | accepted _ other _ _ | received _ other _ _ | sent _ other _ _ =>
    cases other.symm.trans flag
  | closed fine other => cases other.symm.trans flag

omit executed

/-- The prepared chains are submitted, and the loop goes on or ends. -/
def submit (w : Worker) (chains : Nat) (phase : Phase) (shut : List Int) : Worker :=
  { w with
    inflight := w.inflight ++ w.sq.take chains, sq := w.sq.drop chains, phase := phase
    shut := shut }

/-- The first request of a chain completes. When it fails, what is linked to it is cancelled;
otherwise that is left in the chain. -/
inductive Settles (c : Cqe) (rest : List Sqe) : List Sqe → List Cqe → Prop
  | fine (fine : 0 ≤ c.res) : Settles c rest rest [c]
  | failed (error : c.res < 0) : Settles c rest [] (c :: rest.map Sqe.cancelled)

section Settles

variable {rest left : List Sqe} {cqes : List Cqe}

variable (settles : Settles cqe rest left cqes)
include settles

theorem Settles.perm : (left ++ cqes.map Cqe.sqe).Perm (cqe.sqe :: rest) := by
  cases settles with
  | fine fine => exact perm_append_singleton ..
  | failed error =>
    simp only [map_cons, List.map_map, comp_def, Sqe.cancelled, List.map_id', nil_append]
    exact .refl _

theorem Settles.sub : ∀ q ∈ left, q ∈ cqe.sqe :: rest :=
  fun _ member => settles.perm.subset (mem_append_left _ member)

theorem Settles.mem : cqe ∈ cqes := by
  cases settles with
  | fine fine => exact mem_singleton_self _
  | failed error => exact mem_cons_self

theorem Settles.cases : ∀ c ∈ cqes, c = cqe ∨ ∃ q ∈ rest, c = q.cancelled := by
  intro c member
  cases settles with
  | fine fine => exact Or.inl (mem_singleton.mp member)
  | failed error =>
    refine (mem_cons.mp member).imp_right fun behind => ?_
    obtain ⟨q, inside, rfl⟩ := mem_map.mp behind
    exact ⟨q, inside, rfl⟩

/-- What is delivered besides the completion carries an error. -/
theorem Settles.all {property : Cqe → Prop}
    (own : property cqe) (error : ∀ c : Cqe, c.res < 0 → property c) : ∀ c ∈ cqes, property c := by
  intro c member
  rcases settles.cases c member with rfl | ⟨q, _, rfl⟩
  · exact own
  · exact error _ (show ecanceled < 0 by decide)

end Settles

/-- The steps of a worker on stream connections. -/
inductive Stepped (w : Worker) : Label → Worker → Prop
  | shutdown : Stepped w .shutdown { w with shutdowning := true }
  | turn {order : List (Int × Bool)} {chains : Nat} {result : Submit} {phase : Phase}
      {shut : List Int} (top : w.phase = .top)
      (all : w.needToShutdown = true → (order.map Prod.fst).Perm w.connections.keys)
      (kept : phase ≠ .stopped → shut = (w.shutdownHandler order).shut) :
      Stepped w (.turn order chains result) ((w.shutdownHandler order).submit chains phase shut)
  | event {env : Env} {left : Nat} {cqe : Cqe} {cq : List Cqe} {w' : Worker}
      (phase : w.phase = .events (left + 1)) (first : w.cq = cqe :: cq)
      (handled : Handled { w with phase := .events left, cq := cq } env cqe w') :
      Stepped w (.event env) w'
  /-- The loop goes on to its next phase or ends. -/
  | paced {label : Label} {phase : Phase} {shut : List Int}
      (quiet : (label = .peek ∨ label = .endBatch) ∨
        (∃ env, label = .newConn env ∧ w.connQueue = []) ∨
        ∃ env, label = .asyncWrite env ∧ w.asyncOpQueue = [])
      (running : w.phase ≠ .stopped) (kept : phase ≠ .stopped → shut = w.shut) :
      Stepped w label { w with phase := phase, shut := shut }
  | newConn {env : Env} {fd : Int} {rest : List Int} {err : Option Error} {w' : Worker}
      (phase : w.phase = .conns) (first : w.connQueue = fd :: rest)
      (handed : HandedOver { w with connQueue := rest } env fd err w') :
      Stepped w (.newConn env) w'
  | asyncWrite {env : Env} {o : Nat} {rest : List Nat} {x : Session}
      (phase : w.phase = .asyncs) (first : w.asyncOpQueue = o :: rest)
      (arming : Session.AsyncArming w.cfg env.sqe (w.session o) x) :
      Stepped w (.asyncWrite env) ({ w with asyncOpQueue := rest }.setSession x)
  | completed {chain : Nat} {res : Int} {nonempty : Bool} {data : List UInt8}
      {peer : Option NetAddr} {q : Sqe} {rest left : List Sqe} {cqes : List Cqe} {w₁ : Worker}
      (found : w.inflight[chain]? = some (q :: rest)) (executed : Executed w q res data w₁)
      (settles : Settles ⟨q, res, nonempty, data⟩ rest left cqes) :
      Stepped w (.complete chain res nonempty data peer) { w₁ with
        inflight := w₁.inflight.set chain left, cq := w₁.cq ++ cqes }
  | handOff {fd : Int} {addr : NetAddr} (consumer : w.cfg.kind = .consumer) (nonneg : 0 ≤ fd)
      (small : fd < 2 ^ 31) (closed : fd ∉ w.openFds) {cq : List Cqe} {connQueue : List Int}
      (announced : (cq = w.cq ++ [{ sqe := { flag := .addConn, key := 0, fd := fd }, res := fd }] ∧
        connQueue = w.connQueue) ∨ (cq = w.cq ∧ connQueue = w.connQueue ++ [fd])) :
      Stepped w (.handOff fd addr) { w with
        openFds := fd :: w.openFds, socketAddresses := w.socketAddresses.insert fd addr
        cq := cq, connQueue := connQueue }
  | taskBegin {i : Nat} {o : Nat} {n : Int} (found : w.tasks[i]? = some ⟨o, n, false⟩) :
      Stepped w (.taskBegin i)
        { w.setSession ((w.session o).setUserSpace.fired (.onRead n)) with
          tasks := w.tasks.set i ⟨o, n, true⟩ }
  | taskCall {i : Nat} {op : ConnOp} {o : Nat} {n : Int} {x : Session}
      (found : w.tasks[i]? = some ⟨o, n, true⟩)
      (called : (w.session o).call w.cfg.source op = some x) :
      Stepped w (.taskCall i op) (w.setSession x)
  | taskEnd {i : Nat} {o : Nat} {n : Int} {op : AsyncOp}
      (found : w.tasks[i]? = some ⟨o, n, true⟩) (next : nextAsyncOp (w.heap o) = some op) :
      Stepped w (.taskEnd i) { w.setConn o { w.heap o with nextAsyncOp := op } with
        tasks := w.tasks.eraseIdx i, asyncOpQueue := w.asyncOpQueue ++ [o] }

theorem stop_eq (w : Worker) : ∃ shut, w.stop = { w with phase := .stopped, shut := shut } := by
  unfold stop
  split
  · exact ⟨w.shut, rfl⟩
  · exact ⟨_, rfl⟩

/-- A completion executes the first request of a chain. -/
theorem complete_stepped (tcp : w.cfg.sendRecvMsg = false) {chain : Nat} {nonempty : Bool}
    (done : w.complete chain res nonempty data peer = some w') :
    Stepped w (.complete chain res nonempty data peer) w' := by
  unfold complete at done
  split at done
  · rename_i q rest found
    obtain ⟨w₁, executed, last⟩ := bind_eq_some_iff.mp done
    have executed := execute_executed executed tcp
    by_cases error : res < 0
    · rw [if_pos error] at last
      cases last
      exact .completed found executed (.failed error)
    · rw [if_neg error] at last
      cases last
      exact .completed found executed (.fine (not_lt.mp error))
  · cases done

/-- A turn of the loop is one of the steps listed. -/
theorem turn_stepped {order : List (Int × Bool)} {chains : Nat} {result : Submit}
    (done : w.step (.turn order chains result) = some w') :
    Stepped w (.turn order chains result) w' := by
  simp only [step] at done
  by_cases guard : w.phase = .top ∧
      (w.needToShutdown → (order.map Prod.fst).Perm w.connections.keys)
  · rw [if_pos guard] at done
    cases result with
    | done | skippable =>
      cases done
      exact .turn guard.1 guard.2 fun _ => rfl
    | failed =>
      cases done
      unfold stop
      split
      · exact .turn guard.1 guard.2 fun running => absurd rfl running
      · exact .turn guard.1 guard.2 fun running => absurd rfl running
  · rw [if_neg guard] at done
    cases done

/-- Every step is one of these. -/
theorem step_stepped (tcp : w.cfg.sendRecvMsg = false) (done : w.step label = some w') :
    Stepped w label w' := by
  cases label with
  | shutdown =>
    cases done
    exact .shutdown
  | turn order chains result => exact turn_stepped done
  | event env =>
    simp only [step] at done
    split at done
    · rename_i left cqe cq phase first
      exact .event phase first (handleEvent_handled tcp done)
    · cases done
  | peek =>
    simp only [step] at done
    split_ifs at done with phase
    cases done
    exact .paced (Or.inl (Or.inl rfl)) (by rw [phase]; decide) fun _ => rfl
  | endBatch =>
    simp only [step] at done
    split_ifs at done with phase
    cases done
    exact .paced (Or.inl (Or.inr rfl)) (by rw [phase]; decide) fun _ => rfl
  | newConn env =>
    simp only [step] at done
    split at done
    · rename_i phase first
      cases done
      exact .paced (Or.inr (Or.inl ⟨env, rfl, first⟩)) (by rw [phase]; decide) fun _ => rfl
    · rename_i fd rest phase first
      obtain ⟨⟨err, w₁⟩, handed, rfl⟩ := map_eq_some_iff.mp done
      exact .newConn phase first (handleNewConn_handedOver handed)
    · cases done
  | asyncWrite env =>
    simp only [step] at done
    split at done
    · rename_i phase first
      cases done
      have quiet : ((Label.asyncWrite env = .peek ∨ Label.asyncWrite env = .endBatch) ∨
          (∃ env', Label.asyncWrite env = .newConn env' ∧ w.connQueue = []) ∨
          ∃ env', Label.asyncWrite env = .asyncWrite env' ∧ w.asyncOpQueue = []) :=
        Or.inr (Or.inr ⟨env, rfl, first⟩)
      have running : w.phase ≠ .stopped := by
        rw [phase]
        decide
      split_ifs
      · obtain ⟨shut, same⟩ := stop_eq w
        rw [same]
        exact .paced quiet running fun running => absurd rfl running
      · exact .paced quiet running fun _ => rfl
    · rename_i o rest phase first
      obtain ⟨x, arming, rfl⟩ := handleAsyncWrite_eq done tcp
      exact .asyncWrite phase first arming
    · cases done
  | complete chain res nonempty data peer => exact complete_stepped tcp done
  | handOff fd addr =>
    simp only [step] at done
    by_cases guard : w.cfg.kind = .consumer ∧ 0 ≤ fd ∧ fd < 2 ^ 31 ∧ fd ∉ w.openFds
    · rw [if_pos guard] at done
      obtain ⟨consumer, nonneg, small, closed⟩ := guard
      split_ifs at done
      · cases done
        exact .handOff consumer nonneg small closed (Or.inl ⟨rfl, rfl⟩)
      · cases done
        exact .handOff consumer nonneg small closed (Or.inr ⟨rfl, rfl⟩)
    · rw [if_neg guard] at done
      cases done
  | taskBegin i =>
    simp only [step] at done
    split at done
    · rename_i o n found
      obtain ⟨x, worked, rfl⟩ := map_eq_some_iff.mp done
      cases worked
      exact .taskBegin found
    · cases done
  | taskCall i op =>
    simp only [step] at done
    split at done
    · rename_i o n found
      obtain ⟨x, called, rfl⟩ := map_eq_some_iff.mp done
      exact .taskCall found called
    · cases done
  | taskEnd i =>
    simp only [step] at done
    split at done
    · rename_i o n found
      obtain ⟨op, next, last⟩ := bind_eq_some_iff.mp done
      cases last
      exact .taskEnd found next
    · cases done

/-! ## The configuration never changes -/

theorem closeConn_mail {syscallClose : Bool} {ops : List ConnOp}
    (done : w.closeConn o syscallClose err ops = some w') : w'.mail = w.mail := by
  obtain ⟨x, _, rest⟩ := bind_eq_some_iff.mp done
  unfold release at rest
  split at rest
  · cases rest
    rfl
  · obtain ⟨w₁, put, last⟩ := bind_eq_some_iff.mp rest
    obtain ⟨first, _, put⟩ := bind_eq_some_iff.mp put
    obtain ⟨second, _, put⟩ := bind_eq_some_iff.mp put
    cases put
    cases last
    rfl

theorem Served.mail (served : Served w env cqe o w') : w'.mail = w.mail := by
  cases served with
  | eof _ _ ended | closed _ _ ended | unknown _ ended => exact closeConn_mail ended
  | failed _ _ ended => exact (closeConn_mail ended :)
  | armed _ _ | spawned _ _ _ _ | flushed _ _ _ _ | ignored _ _ _ => rfl

theorem Welcomed.cfg {sqe : Nat → Bool} (welcomed : Welcomed w env sqe o err w') :
    w'.cfg = w.cfg := by
  obtain ⟨x, _, rfl⟩ := welcomed.acts
  rfl

theorem HandedOver.cfg (handed : HandedOver w env fd err w') : w'.cfg = w.cfg := by
  obtain ⟨addressed, welcomed⟩ := handed
  exact welcomed.cfg.trans addressed.cfg

theorem Accepted.cfg (accepted : Accepted w env cqe err w') : w'.cfg = w.cfg := by
  cases accepted with
  | refused err full => rfl
  | failed err free reason rearmed addressed => exact addressed.cfg.trans rearmed.cfg
  | welcomed free rearmed addressed welcomed =>
    exact welcomed.cfg.trans (addressed.cfg.trans rearmed.cfg)

theorem stop_cfg (w : Worker) : w.stop.cfg = w.cfg := by
  unfold stop
  split <;> rfl

theorem Handled.cfg (handled : Handled w env cqe w') : w'.cfg = w.cfg := by
  cases handled with
  | looked error consumer got => exact get_cfg got
  | dropped error shard => rfl
  | skipped fine consumer flag small => rfl
  | announced fine consumer flag handed =>
    split_ifs
    · exact (stop_cfg _).trans handed.cfg
    · exact handed.cfg
  | served fine kind got stream served => exact congrArg Mail.cfg (served.mail.trans (get_mail got))
  | @accepted o err w₁ w₂ w' fine shard got state accepted ended =>
    have same := accepted.cfg.trans (get_cfg got)
    cases err with
    | none =>
      cases ended
      exact same
    | some err => exact (congrArg Mail.cfg (closeConn_mail ended)).trans same

theorem sweepOne_eq (w : Worker) (o : Nat) : w.sweepOne o = { w with
    heap := update w.heap o { w.heap o with state := .close }
    sq := w.sq.push { flag := .close, key := (w.heap o).fd, fd := (w.heap o).fd, obj := o
                      life := (w.heap o).life }
    releaseFdSet := insert (w.heap o).fd w.releaseFdSet } := by
  have same : update w.histories (w.heap o).life (w.histories (w.heap o).life) =
      w.histories := update_eq_self ..
  rw [sweepOne, Session.addCloseConnRequest_eq, setSession]
  simp only [session, same]

/-- All that the shutdown sweep writes. -/
theorem shutdownHandler_frame (w : Worker) (order : List (Int × Bool)) :
    ∃ heap sq closing accepting inProgress shut fds, w.shutdownHandler order = { w with
      heap := heap, sq := sq, closing := closing, accepting := accepting, inProgress := inProgress
      shut := shut, releaseFdSet := fds } := by
  refine @shutdownHandler_invariant w (fun w' => ∃ heap sq closing accepting inProgress shut fds,
    w' = { w with
      heap := heap, sq := sq, closing := closing, accepting := accepting, inProgress := inProgress
      shut := shut, releaseFdSet := fds }) ?_ ?_ order ⟨_, _, _, _, _, _, _, rfl⟩
  · rintro w₁ _ _ _ _ _ ⟨_, _, _, _, _, _, _, rfl⟩
    exact ⟨_, _, _, _, _, _, _, rfl⟩
  · rintro w₁ _ o _ ⟨_, _, _, _, _, _, _, rfl⟩
    rw [sweepOne_eq]
    exact ⟨_, _, _, _, _, _, _, rfl⟩

theorem Stepped.cfg (stepped : Stepped w label w') : w'.cfg = w.cfg := by
  cases stepped with
  | @turn order chains result phase shut top all kept =>
    obtain ⟨_, _, _, _, _, _, _, swept⟩ := shutdownHandler_frame w order
    rw [swept]
    rfl
  | event phase first handled => exact (handled.cfg :)
  | newConn phase first handed => exact (handed.cfg :)
  | completed found executed settles => exact executed.queues.2.2.2.2.2.2
  | shutdown | paced _ _ _ | asyncWrite _ _ _ | handOff _ _ _ _ _ | taskBegin _ | taskCall _ _
  | taskEnd _ _ => rfl

end Worker

end Gain
