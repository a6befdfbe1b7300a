import Gain.Worker.Completion

/-! # The other steps

The goroutines of asynchronous handlers, the queues, the shutdown sweep and the
loop itself. Together with events and completions every orderly step keeps a
worker regular.
-/

namespace Gain

open Function List

namespace Worker

variable {w w₁ w' : Worker} {k : Int} {o : Nat} {rules : Rules} {exact' : Prop} {x : Session}
  {i : Nat} {t : Task} {tasks : List Task} {n : Int}

/-! ## The loop -/

variable (regular : w.Regular rules)
include regular

theorem Regular.submit (chains : Nat) (phase : Phase) (shut : List Int) :
    Leads rules exact' w (w.submit chains phase shut) := by
  have same : ∀ k, (w.submit chains phase shut).todo k = w.todo k := by
    intro k
    rw [todo, underway_submit]
    rfl
  refine .carried regular ⟨regular.sane.submit _ _ _, regular.std, regular.queue, regular.news,
    ?_, regular.pool⟩ (.of_same rfl rfl rfl rfl rfl rfl rfl (fun _ => same _) (fun _ => rfl)
      (Or.inl ⟨same _, rfl⟩))
  change Chains.Solo w.cfg.listener ((w.inflight ++ w.sq.take chains) ++ w.sq.drop chains)
  rw [append_assoc, take_append_drop]
  exact regular.solo

/-- A connection is handed to a consumer. -/
theorem Regular.handOff (consumer : w.cfg.kind = .consumer) {fd : Int}
    (nonneg : 0 ≤ fd) (small : fd < 2 ^ 31) (closed : fd ∉ w.openFds)
    {addresses : AList fun _ : Int => NetAddr} {cq : List Cqe} {connQueue : List Int}
    (announced : (cq = w.cq ++ [{ sqe := { flag := .addConn, key := 0, fd := fd }, res := fd }] ∧
      connQueue = w.connQueue) ∨ (cq = w.cq ∧ connQueue = w.connQueue ++ [fd])) :
    Leads rules exact' w { w with
      openFds := fd :: w.openFds, socketAddresses := addresses, cq := cq
      connQueue := connQueue } := by
  have fresh := regular.toGround.fresh nonneg small closed
  have std : ∀ fd' ∈ [0, 1, 2, w.cfg.listener], fd' ∈ fd :: w.openFds :=
    fun fd' standard => mem_cons_of_mem _ (regular.std fd' standard)
  have same : ∀ k, (cq.filter fun c => c.sqe.key = k ∧ c.sqe.flag ≠ .addConn) = w.completed k := by
    intro k
    rcases announced with ⟨rfl, _⟩ | ⟨rfl, _⟩
    · rw [filter_append, filter_cons_of_neg (by simp), filter_nil, append_nil]
      rfl
    · rfl
  have carried : Carried rules exact' w { w with
      openFds := fd :: w.openFds, socketAddresses := addresses, cq := cq
      connQueue := connQueue } :=
    .of_same rfl rfl rfl rfl rfl rfl rfl (fun _ => rfl) (fun _ => same _) (Or.inl ⟨rfl, same _⟩)
  refine .carried regular ⟨{ regular.sane with }, std, ?_, ?_, regular.solo, regular.pool⟩
    carried
  · intro fd' member
    rcases announced with ⟨_, rfl⟩ | ⟨_, rfl⟩
    · exact regular.queue fd' member
    · rcases mem_append.mp member with old | added
      · exact regular.queue fd' old
      · rw [mem_singleton.mp added]
        exact fresh
  · intro c member
    rcases announced with ⟨rfl, _⟩ | ⟨rfl, _⟩
    · rcases mem_append.mp member with old | added
      · exact regular.news c old
      · rw [mem_singleton.mp added]
        exact ⟨fun _ => ⟨consumer, fresh⟩, fun flag => nomatch flag⟩
    · exact regular.news c member

/-! ## Asynchronous handlers -/

/-- A connection that a goroutine or the queue holds is registered. -/
theorem Regular.registered (busy : w.tasksOf o ≠ [] ∨ w.asyncOpQueue.count o ≠ 0) :
    ∃ k, w.connections.lookup k = some o ∧ k ≠ w.cfg.listener := by
  by_contra none'
  have free : w.tasksOf o = [] ∧ w.asyncOpQueue.count o = 0 := by
    by_cases listener : w.connections.lookup w.cfg.listener = some o
    · exact ⟨(regular.listener listener).2.2.1, (regular.listener listener).2.2.2⟩
    · refine regular.free fun k found => none' ⟨k, found, ?_⟩
      rintro rfl
      exact listener found
  rcases busy with some' | some'
  · exact some' free.1
  · exact some' free.2

/-- The first operation of the asynchronous queue is carried out. -/
theorem Regular.asyncWrite {env : Env} {rest : List Nat} (first : w.asyncOpQueue = o :: rest)
    (arming : Session.AsyncArming w.cfg env.sqe (w.session o) x)
    (sized : exact' → ({ w with asyncOpQueue := rest }.setSession x).Exact) :
    Leads rules exact' w ({ w with asyncOpQueue := rest }.setSession x) := by
  have count : w.asyncOpQueue.count o = rest.count o + 1 := by
    rw [first, count_cons_self]
  obtain ⟨k, found, other⟩ := regular.registered (o := o) (Or.inr (by rw [count]; simp))
  have tidy := regular.tidy found other
  have held := tidy.held
  have queued : (w.view k o).queued = rest.count o + 1 := count
  rw [queued] at held
  have zero : rest.count o = 0 := by omega
  obtain ⟨none', _⟩ := tidy.waits (Or.inr (by rw [queued]; simp))
  obtain ⟨new, armed⟩ := arming.prepared regular.sane.tcp
  have frame := arming.acts.frame regular.sane.tcp
  have ground : Ground { w with asyncOpQueue := rest } := by
    refine ⟨{ regular.sane with queued := ?_ }, regular.std, regular.queue, regular.news,
      regular.solo, regular.pool⟩
    intro i member
    refine regular.sane.queued i ?_
    rw [first]
    exact mem_cons_of_mem _ member
  have touched : Touched k o (w.heap o).life w { w with asyncOpQueue := rest } := by
    refine ⟨rfl, fun _ => rfl, fun _ _ => rfl, le_rfl, fun _ => rfl, fun _ => rfl, fun _ => rfl, ?_,
      fun _ => rfl, le_rfl⟩
    intro i ne
    rw [first, count_cons_of_ne ne.symm]
  have own : ∀ q ∈ new, q.key = k := by
    intro q member
    rw [armed.own.1 q member]
    exact tidy.fd
  refine .one
    (regular.session ground touched rfl found found other frame rfl armed.sq own ?_ ?_)
  · exact armed.own.2.imp id fun joined => ⟨joined, (append_eq_nil_iff.mp none').2⟩
  · have move : View.Move w.cfg rules exact' (w.view k o)
        { (w.view k o).worked x new with queued := 0 } :=
      .asyncArmed (by rw [queued, zero]) armed sized
    rw [← zero] at move
    exact move

omit regular

theorem tasks_split (found : tasks[i]? = some t) :
    ∃ before behind, tasks = before ++ t :: behind ∧
      (∀ t', tasks.set i t' = before ++ t' :: behind) ∧ tasks.eraseIdx i = before ++ behind := by
  obtain ⟨lt, rfl⟩ := List.getElem?_eq_some_iff.mp found
  refine ⟨tasks.take i, tasks.drop (i + 1), ?_, ?_, eraseIdx_eq_take_drop_succ ..⟩
  · rw [List.getElem_cons_drop, take_append_drop]
  · intro t'
    exact set_eq_take_append_cons_drop.trans (if_pos lt)

/-- A goroutine's connection is registered, and it is the only one that runs on it. -/
theorem Regular.task (regular : w.Regular rules) (found : w.tasks[i]? = some t) :
    ∃ k, w.connections.lookup k = some t.obj ∧
      k ≠ w.cfg.listener ∧ w.tasksOf t.obj = [t] ∧ w.asyncOpQueue.count t.obj = 0 ∧
      (∀ t', t'.obj = t.obj → ((w.tasks.set i t').filter fun s => s.obj = t.obj) = [t']) ∧
      ((w.tasks.eraseIdx i).filter fun s => s.obj = t.obj) = [] := by
  obtain ⟨before, behind, all, set, erase⟩ := tasks_split found
  have mine : w.tasksOf t.obj = (before.filter fun s => s.obj = t.obj) ++
      t :: behind.filter fun s => s.obj = t.obj := by
    rw [tasksOf, all, filter_append, filter_cons_of_pos (by simp)]
  obtain ⟨k, registered, other⟩ := regular.registered (o := t.obj) (Or.inl (by rw [mine]; simp))
  have held := (regular.tidy registered other).held
  change (w.tasksOf t.obj).length + w.asyncOpQueue.count t.obj ≤ 1 at held
  rw [mine, length_append, length_cons] at held
  have first : (before.filter fun s => s.obj = t.obj) = [] := length_eq_zero_iff.mp (by omega)
  have last : (behind.filter fun s => s.obj = t.obj) = [] := length_eq_zero_iff.mp (by omega)
  refine ⟨k, registered, other, ?_, by omega, ?_, ?_⟩
  · rw [mine, first, last]
    rfl
  · intro t' same
    rw [set, filter_append, filter_cons_of_pos (by simpa using same), first, last]
    rfl
  · rw [erase, filter_append, first, last]
    rfl

/-- The other connections' goroutines are the same. -/
theorem tasks_filter_ne {j : Nat} (found : tasks[i]? = some t) (ne : j ≠ t.obj) :
    (∀ t', t'.obj = t.obj → ((tasks.set i t').filter fun s => s.obj = j) =
      tasks.filter fun s => s.obj = j) ∧
      ((tasks.eraseIdx i).filter fun s => s.obj = j) = tasks.filter fun s => s.obj = j := by
  obtain ⟨before, behind, all, set, erase⟩ := tasks_split found
  refine ⟨?_, ?_⟩
  · intro t' same
    rw [set, all, filter_append, filter_append, filter_cons_of_neg, filter_cons_of_neg]
    · simpa using ne.symm
    · rw [same]
      simpa using ne.symm
  · rw [erase, all, filter_append, filter_append, filter_cons_of_neg]
    simpa using ne.symm

variable (regular : w.Regular rules)
include regular

/-- A goroutine begins with its handler. -/
theorem Regular.taskBegin (found : w.tasks[i]? = some ⟨o, n, false⟩) :
    Leads rules exact' w { w.setSession ((w.session o).setUserSpace.fired (.onRead n)) with
      tasks := w.tasks.set i ⟨o, n, true⟩ } := by
  obtain ⟨k, registered, other, mine, _, set, _⟩ := regular.task found
  have acts : Session.Acts w.cfg (w.session o) ((w.session o).setUserSpace.fired (.onRead n)) :=
    (Relation.ReflTransGen.single (.userSpace _)).tail (.fire _ _)
  have bound : ∀ t ∈ w.tasks.set i ⟨o, n, true⟩, t.obj < w.nextObj := by
    intro t member
    rcases mem_or_eq_of_mem_set member with old | rfl
    · exact regular.sane.tasks t old
    · exact regular.sane.bound registered
  have touched : Touched k o (w.heap o).life w { w with tasks := w.tasks.set i ⟨o, n, true⟩ } :=
    touched_tasks fun ne => (tasks_filter_ne found ne).1 _ rfl
  refine .one (regular.session (regular.toGround.tasks bound) touched rfl registered registered
    other (acts.frame regular.sane.tcp) rfl (rfl : _ = Chains.pushAll w.sq []) (by simp)
    (Or.inl rfl) ?_)
  have move : View.Move w.cfg rules exact' (w.view k o)
      { (w.view k o).worked ((w.session o).setUserSpace.fired (.onRead n)) [] with
        tasks := [⟨o, n, true⟩] } := .begun mine
  rw [← set ⟨o, n, true⟩ rfl] at move
  exact move

theorem Regular.taskCall {op : ConnOp} (found : w.tasks[i]? = some ⟨o, n, true⟩)
    (called : (w.session o).call w.cfg.source op = some x) (call : rules.call op)
    (sized : exact' → (w.setSession x).Exact) : Leads rules exact' w (w.setSession x) := by
  obtain ⟨k, registered, other, mine, _⟩ := regular.task found
  have act : Session.Act w.cfg (w.session o) x := .call called
  have pushed : x.sq = Chains.pushAll w.sq [] := (Session.call_method called).still.sq
  exact .one (regular.session regular.toGround .refl rfl registered registered other
    (act.frame regular.sane.tcp) rfl pushed (by simp) (Or.inl rfl) (.called mine called call sized))

/-- A goroutine ends with an operation. -/
theorem Regular.taskEnd {op : AsyncOp}
    (found : w.tasks[i]? = some ⟨o, n, true⟩) (next : nextAsyncOp (w.heap o) = some op) :
    Leads rules exact' w { w.setConn o { w.heap o with nextAsyncOp := op } with
      tasks := w.tasks.eraseIdx i, asyncOpQueue := w.asyncOpQueue ++ [o] } := by
  obtain ⟨k, registered, other, mine, _, _, erase⟩ := regular.task found
  have lt := regular.sane.bound registered
  have placed : (w.setConn o { w.heap o with nextAsyncOp := op }).Sane :=
    regular.sane.setConn lt rfl rfl rfl rfl rfl
  have ground := regular.toGround.setConn registered placed
  have conn : (w.setConn o { w.heap o with nextAsyncOp := op }).heap o =
      { w.heap o with nextAsyncOp := op } := update_self ..
  refine .one (regular.moved ⟨{ placed with tasks := ?_, queued := ?_ }, ground.std,
    ground.queue, ground.news, ground.solo, ground.pool⟩ other ⟨rfl, fun _ => rfl,
    fun ne _ => update_of_ne ne .., le_rfl, fun _ => rfl, fun _ => rfl, ?_, ?_,
    fun _ => rfl, le_rfl⟩ registered registered ?_ rfl)
  · exact fun t member => regular.sane.tasks t (mem_of_mem_eraseIdx member)
  · intro j member
    rcases mem_append.mp member with old | added
    · exact regular.sane.queued j old
    · rw [mem_singleton.mp added]
      exact lt
  · intro j ne
    exact (tasks_filter_ne found ne).2
  · intro j ne
    rw [count_append, count_singleton]
    simp [ne.symm]
  · have queued : (w.asyncOpQueue ++ [o]).count o = w.asyncOpQueue.count o + 1 := by
      rw [count_append, count_singleton_self]
    have move : View.Move w.cfg rules exact' (w.view k o) _ := .returned mine next
    simp only [view, tasksOf, conn, erase, queued] at move ⊢
    exact move

/-! ## The shutdown sweep -/

/-- A close is prepared under the key of its connection. -/
theorem Regular.closing_own (found : w.connections.lookup k = some o) (other : k ≠ w.cfg.listener) :
    ∀ q ∈ [(w.session o).closing], q.key = k := by
  intro q member
  rw [mem_singleton.mp member]
  exact (regular.tidy found other).fd

/-- The close of an idle connection is requested. -/
theorem Regular.swept (found : w.connections.lookup k = some o) (other : k ≠ w.cfg.listener)
    (idle : (w.view k o).Idle) (allowed : rules.sweep (w.view k o)) (fds : Finset Int) :
    Leads rules exact' w { w.setSession ((w.session o).addCloseConnRequest true).2 with
      releaseFdSet := fds } := by
  have act : Session.Act w.cfg (w.session o) ((w.session o).addCloseConnRequest true).2 :=
    .armClose _
  have own := regular.closing_own found other
  have swept : Leads rules exact' w (w.setSession ((w.session o).addCloseConnRequest true).2) :=
    .one (regular.session regular.toGround .refl rfl found found other
      (act.frame regular.sane.tcp) rfl (rfl : _ = Chains.pushAll w.sq [(w.session o).closing]) own
      (Or.inr ⟨Or.inl rfl, idle.todo⟩) (.swept idle allowed))
  exact swept.trans (.loop swept.1 rfl)

/-- The sweep leaves the listener out. -/
theorem Regular.ne_listener (found : w.connections.lookup k = some o)
    (kept : (w.heap o).fd ≠ w.skipped) : k ≠ w.cfg.listener := by
  rintro rfl
  cases kind : w.cfg.kind with
  | consumer =>
    rw [(regular.consumer kind).1] at found
    cases found
  | shard =>
    refine kept ?_
    rw [skipped, kind]
    exact (regular.listener found).2.1

/-- The sweep requests the close of one connection after the other. -/
theorem Regular.closeConns (order : List (Int × Bool)) (nodup : (order.map Prod.fst).Nodup)
    (idle : ∀ k ∈ order.map Prod.fst, ∀ o, w.connections.lookup k = some o →
      (w.heap o).fd ≠ w.skipped → (w.view k o).Idle ∧ rules.sweep (w.view k o)) :
    Leads rules exact' w (w.closeConns w.skipped order) := by
  induction order generalizing w with
  | nil => exact .refl regular
  | cons entry order ih =>
    obtain ⟨key, free⟩ := entry
    rw [map_cons, nodup_cons] at nodup
    rcases closeConns_cases w w.skipped key free order with ⟨same, _⟩ | ⟨o, found, kept, same⟩
    · rw [same]
      exact ih regular nodup.2 fun k member => idle k (mem_cons_of_mem _ member)
    · rw [same]
      have other := regular.ne_listener found kept
      obtain ⟨none', allowed⟩ := idle key mem_cons_self o found kept
      have swept : Leads rules exact' w (w.sweepOne o) := regular.swept found other none' allowed _
      refine swept.trans (ih swept.1 nodup.2 ?_)
      -- the connections still to come are as they were
      have act : Session.Act w.cfg (w.session o) ((w.session o).addCloseConnRequest true).2 :=
        .armClose _
      have touched := touched_setSession (act.frame regular.sane.tcp)
        (rfl : _ = Chains.pushAll w.sq [(w.session o).closing]) (regular.closing_own found other)
      intro k member i found' kept'
      have ne : k ≠ key := by
        rintro rfl
        exact nodup.1 member
      have before : w.connections.lookup k = some i := found'
      have apart : i ≠ o := by
        rintro rfl
        exact ne (regular.sane.inj before found)
      have heap := touched.heap apart (regular.sane.bound before)
      have view := touched.view regular.sane (regular.sane.apart found) ne before
      change ((w.setSession ((w.session o).addCloseConnRequest true).2).heap i).fd ≠ w.skipped
        at kept'
      rw [heap] at kept'
      change ((w.setSession ((w.session o).addCloseConnRequest true).2).view k i).Idle ∧
        rules.sweep ((w.setSession ((w.session o).addCloseConnRequest true).2).view k i)
      rw [view]
      exact idle k (mem_cons_of_mem _ member) i before kept'

/-- The worker shuts down its idle connections. -/
theorem Regular.shutdownHandler {order : List (Int × Bool)}
    (all : w.needToShutdown = true → (order.map Prod.fst).Perm w.connections.keys)
    (idle : w.needToShutdown = true → ∀ k o, w.connections.lookup k = some o →
      (w.heap o).fd ≠ w.skipped → (w.view k o).Idle ∧ rules.sweep (w.view k o)) :
    Leads rules exact' w (w.shutdownHandler order) := by
  unfold Worker.shutdownHandler
  by_cases needed : w.needToShutdown = true
  · rw [if_pos needed]
    have nodup : (order.map Prod.fst).Nodup := (all needed).nodup_iff.mpr w.connections.nodupKeys
    obtain ⟨w₁, same, loop⟩ : ∃ w₁ : Worker,
        w.onCloseHandler order = w₁.closeConns w.skipped order ∧
        w₁ = { w with
          closing := w₁.closing, releaseFdSet := w₁.releaseFdSet, phase := w₁.phase
          shutdowning := w₁.shutdowning, inProgress := w₁.inProgress, accepting := w₁.accepting
          shut := w₁.shut } := by
      unfold onCloseHandler skipped
      cases w.cfg.kind with
      | consumer | shard => exact ⟨_, rfl, rfl⟩
    have first : Leads rules exact' w w₁ := .loop regular loop
    have skipped : w₁.skipped = w.skipped := by
      rw [loop]
      rfl
    have idle₁ : ∀ k ∈ order.map Prod.fst, ∀ o, w₁.connections.lookup k = some o →
        (w₁.heap o).fd ≠ w₁.skipped → (w₁.view k o).Idle ∧ rules.sweep (w₁.view k o) := by
      rw [loop]
      exact fun k _ => idle needed k
    have swept : Leads rules exact' w₁ (w₁.closeConns w₁.skipped order) :=
      first.1.closeConns order nodup idle₁
    rw [same, ← skipped]
    exact (first.trans swept).trans (.loop swept.1 rfl)
  · rw [if_neg needed]
    exact .refl regular

/-! ## Steps -/

/-- Every orderly step keeps a worker regular, and is made of moves, births and ends of
connections. -/
theorem Regular.step {label : Label} (orderly : Orderly rules w label)
    (stepped : Stepped w label w') (sized : exact' → w'.Exact) : Leads rules exact' w w' := by
  cases stepped with
  | shutdown => exact .loop regular rfl
  | @turn order chains result phase shut top all kept =>
    have first : Leads rules exact' w (w.shutdownHandler order) :=
      regular.shutdownHandler all orderly
    exact first.trans (first.1.submit _ _ _)
  | @event env left c cq w' phase first handled =>
    exact regular.handled first (.events left) (orderly c cq first) handled sized
  | paced quiet running kept => exact .loop regular rfl
  | @newConn env fd rest err w' phase first handed =>
    have queue : Leads rules exact' w { w with connQueue := rest } := by
      refine .carried regular ⟨{ regular.sane with }, regular.std, ?_, regular.news,
        regular.solo, regular.pool⟩ (.of_same rfl rfl rfl rfl rfl rfl rfl (fun _ => rfl)
          (fun _ => rfl) (Or.inl ⟨rfl, rfl⟩))
      intro fd' member
      refine regular.queue fd' ?_
      rw [first]
      exact mem_cons_of_mem _ member
    have fresh : w.cfg.Fresh fd := by
      refine regular.queue fd ?_
      rw [first]
      exact mem_cons_self
    exact queue.trans (queue.1.handedOver fresh (orderly.2 fd rest first) handed orderly.1
      sized)
  | asyncWrite phase first arming => exact regular.asyncWrite first arming sized
  | @completed chain res nonempty data peer q rest left cqes w₁ found executed settles =>
    cases settles with
    | fine fine =>
      exact regular.completed found fine (fun flag => orderly q rest found flag fine) executed
    | failed error => exact regular.failed found error executed
  | handOff consumer nonneg small closed announced =>
    exact regular.handOff consumer nonneg small closed announced
  | taskBegin found => exact regular.taskBegin found
  | taskCall found called => exact regular.taskCall found called orderly sized
  | taskEnd found next => exact regular.taskEnd found next

end Worker

end Gain
