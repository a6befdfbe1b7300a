import Gain.Worker.Sane
import Gain.Worker.Tidy

/-! # Regular workers

A worker is orderly as long as nothing makes it give up a connection that has
requests underway, or use the entry of one for another. Then all its connections
are tidy, nothing is underway for a key without a connection, and every step is a
move of some of its connections.
-/

namespace Gain

open List

/-- The chains of two connections are different ones. -/
def Chains.Solo (listener : Int) (chains : Chains) : Prop :=
  chains.Pairwise fun c d => ∀ q ∈ c, ∀ q' ∈ d, q.key = q'.key → q.key = listener

/-- A descriptor that a new socket can have. -/
structure Config.Fresh (cfg : Config) (fd : Int) : Prop where
  low : 2 < fd
  high : fd < 2 ^ 31
  other : fd ≠ cfg.listener

/-- The key of a shard's listener. -/
def Config.Reserved (cfg : Config) (k : Int) : Prop := cfg.kind = .shard ∧ k = cfg.listener

instance (cfg : Config) (k : Int) : Decidable (cfg.Reserved k) :=
  inferInstanceAs (Decidable (_ ∧ _))

/-- The history of a listener that is registered. -/
structure History.Silent (h : History) : Prop where
  closes : h.closes = 0
  closeCalled : h.closeCalled = false
  word : h.word = []

/-- The history of an entry that does not stand for an accepted connection. -/
structure Rules.Unheard (rules : Rules) (h : History) : Prop where
  closes : h.closes = 0
  closeCalled : h.closeCalled = false
  word : h.word = [] ∨ rules.failing ∧ ∃ err, h.word = [.onClose err]

theorem History.Silent.unheard {h : History} (silent : h.Silent) (rules : Rules) :
    rules.Unheard h :=
  ⟨silent.closes, silent.closeCalled, Or.inl silent.word⟩

namespace Worker

/-- The requests underway for a key. -/
def todo (w : Worker) (k : Int) : List Sqe := w.underway.filter fun q => q.key = k

/-- The completions of a key not yet handled. -/
def completed (w : Worker) (k : Int) : List Cqe :=
  w.cq.filter fun c => c.sqe.key = k ∧ c.sqe.flag ≠ .addConn

def tasksOf (w : Worker) (o : Nat) : List Task := w.tasks.filter fun t => t.obj = o

/-- What concerns the connection registered under a key as an object. -/
def view (w : Worker) (k : Int) (o : Nat) : View where
  obj := o
  conn := w.heap o
  history := w.histories (w.heap o).life
  todo := w.todo k
  done := w.completed k
  tasks := w.tasksOf o
  queued := w.asyncOpQueue.count o

/-- The descriptor the shutdown sweep leaves out. -/
def skipped (w : Worker) : Int :=
  match w.cfg.kind with
  | .consumer => -1
  | .shard => w.cfg.listener

/-- An event of a shard's listener leads to a connection that is configured and armed. -/
@[mk_iff]
structure Welcoming (w : Worker) (env : Env) : Prop where
  accept : env.sqe 0 = true
  arm : env.sqe 1 = true ∧ env.sqe 2 = true
  incomingCpu : w.cfg.cpuAffinity = true → env.incomingCpu = none
  keepAlive : w.cfg.tcpKeepAlive = true → env.keepAlive = none

/-- An event does not give up a connection that has a request underway, and a new
connection does not find the entry of another. -/
@[mk_iff]
structure OrderlyEvent (rules : Rules) (w : Worker) (env : Env) (c : Cqe) : Prop where
  calls : ∀ op ∈ env.handler, rules.call op
  unregistered : c.sqe.flag = .addConn ∨ c.sqe.flag = .accept → 0 ≤ c.res →
    w.connections.lookup c.res = none
  pair : c.sqe.flag ≠ .accept → env.sqe 0 = true → env.sqe 1 = true
  full : c.sqe.flag ≠ .accept → env.sqe 0 = false → rules.full
  eof : c.sqe.flag = .read → c.res = 0 → rules.eof
  welcoming : c.sqe.flag = .accept → 0 ≤ c.res → rules.failing ∨ w.Welcoming env
  more : c.sqe.flag = .read → c.nonempty = true → rules.more

/-- The steps in which the worker keeps its connections apart. A shutdown finds no
connection with anything underway. -/
def Orderly (rules : Rules) (w : Worker) : Label → Prop
  | .turn _ _ _ => w.needToShutdown = true → ∀ k o, w.connections.lookup k = some o →
      (w.heap o).fd ≠ w.skipped → (w.view k o).Idle ∧ rules.sweep (w.view k o)
  | .event env => ∀ c cq, w.cq = c :: cq → OrderlyEvent rules w env c
  | .newConn env => (∀ op ∈ env.handler, rules.call op) ∧
      ∀ fd rest, w.connQueue = fd :: rest → w.connections.lookup fd = none
  | .complete chain res _ _ _ => ∀ q rest, w.inflight[chain]? = some (q :: rest) →
      q.flag = .write → 0 ≤ res → rules.send q res
  | .taskCall _ op => rules.call op
  | _ => True

instance (w : Worker) (env : Env) : Decidable (w.Welcoming env) :=
  decidable_of_iff' _ (w.welcoming_iff env)

instance (rules : Rules) [rules.Checked] (w : Worker) (env : Env) (c : Cqe) :
    Decidable (OrderlyEvent rules w env c) :=
  decidable_of_iff' _ (orderlyEvent_iff rules w env c)

instance (rules : Rules) [rules.Checked] (w : Worker) :
    (label : Label) → Decidable (Orderly rules w label)
  | .turn _ _ _ =>
    decidable_of_iff (w.needToShutdown = true → ∀ e ∈ w.connections.entries,
      (w.heap e.2).fd ≠ w.skipped → (w.view e.1 e.2).Idle ∧ rules.sweep (w.view e.1 e.2))
      ⟨fun all needed k o found => all needed ⟨k, o⟩ (AList.mem_lookup_iff.mp found),
        fun all needed e member => all needed e.1 e.2 (AList.mem_lookup_iff.mpr member)⟩
  | .event env =>
    match first : w.cq with
    | [] => isTrue fun _ _ head => nomatch first.symm.trans head
    | c :: cq => decidable_of_iff (OrderlyEvent rules w env c)
        ⟨fun orderly c' cq' head => by
          cases first.symm.trans head
          exact orderly, fun all => all c cq first⟩
  | .newConn env =>
    match first : w.connQueue with
    | [] => decidable_of_iff (∀ op ∈ env.handler, rules.call op)
        ⟨fun calls => ⟨calls, fun _ _ head => nomatch first.symm.trans head⟩, And.left⟩
    | fd :: rest => decidable_of_iff ((∀ op ∈ env.handler, rules.call op) ∧
        w.connections.lookup fd = none)
        ⟨fun ⟨calls, absent⟩ => ⟨calls, fun fd' rest' head => by
          cases first.symm.trans head
          exact absent⟩, fun ⟨calls, all⟩ => ⟨calls, all fd rest first⟩⟩
  | .complete chain res _ _ _ =>
    match found : w.inflight[chain]? with
    | some (q :: rest) => decidable_of_iff (q.flag = .write → 0 ≤ res → rules.send q res)
        ⟨fun send q' rest' head => by
          cases found.symm.trans head
          exact send, fun all => all q rest found⟩
    | some [] => isTrue fun _ _ head => nomatch found.symm.trans head
    | none => isTrue fun _ _ head => nomatch found.symm.trans head
  | .taskCall _ op => inferInstanceAs (Decidable (rules.call op))
  | .shutdown | .peek | .endBatch | .asyncWrite _ | .handOff _ _ | .taskBegin _ | .taskEnd _ =>
    isTrue trivial

/-- What a regular worker needs beyond its connections. -/
structure Ground (w : Worker) : Prop where
  sane : w.Sane
  std : ∀ fd ∈ [0, 1, 2, w.cfg.listener], fd ∈ w.openFds
  queue : ∀ fd ∈ w.connQueue, w.cfg.Fresh fd
  news : ∀ c ∈ w.cq, (c.sqe.flag = .addConn → w.cfg.kind = .consumer ∧ w.cfg.Fresh c.res) ∧
    (c.sqe.flag = .accept → 0 ≤ c.res → w.cfg.Fresh c.res)
  solo : Chains.Solo w.cfg.listener (w.inflight ++ w.sq)
  pool : ∀ o ∈ w.connPool.items, (w.heap o).state = .invalid ∧ (w.heap o).closed = false

/-- What holds in every state of an orderly run. -/
structure Regular (rules : Rules) (w : Worker) : Prop extends Ground w where
  fresh : ∀ {k : Int} {o : Nat}, w.connections.lookup k = some o → k ≠ w.cfg.listener →
    w.cfg.Fresh k
  tidy : ∀ {k : Int} {o : Nat}, w.connections.lookup k = some o → k ≠ w.cfg.listener →
    (w.view k o).Tidy k
  quiet : ∀ {k : Int}, w.connections.lookup k = none → k ≠ w.cfg.listener →
    w.todo k = [] ∧ w.completed k = []
  free : ∀ {o : Nat}, (∀ k, w.connections.lookup k ≠ some o) →
    w.tasksOf o = [] ∧ w.asyncOpQueue.count o = 0
  accepts : (∀ q ∈ w.todo w.cfg.listener, q.flag = .accept) ∧
    ∀ c ∈ w.completed w.cfg.listener, c.sqe.flag = .accept
  consumer : w.cfg.kind = .consumer → w.connections.lookup w.cfg.listener = none ∧
    w.todo w.cfg.listener = [] ∧ w.completed w.cfg.listener = []
  listener : ∀ {o : Nat}, w.connections.lookup w.cfg.listener = some o →
    (w.heap o).state = .accept ∧ (w.heap o).fd = w.cfg.listener ∧ w.tasksOf o = [] ∧
      w.asyncOpQueue.count o = 0
  listening : ¬ rules.failing → w.cfg.kind = .shard →
    ∃ o, w.connections.lookup w.cfg.listener = some o

/-- What becomes of the connection under a key. -/
inductive Slot (rules : Rules) (exact' : Prop) (w w' : Worker) (k : Int) : Prop
  | absent (before : w.connections.lookup k = none) (after : w'.connections.lookup k = none)
  | kept {o : Nat} (before : w.connections.lookup k = some o)
      (after : w'.connections.lookup k = some o) (same : w'.view k o = w.view k o)
  | moved {o : Nat} (before : w.connections.lookup k = some o)
      (after : w'.connections.lookup k = some o)
      (move : View.Move w.cfg rules exact' (w.view k o) (w'.view k o))
  | born {o : Nat} (before : w.connections.lookup k = none)
      (after : w'.connections.lookup k = some o)
      (born : View.Born w.cfg rules exact' k (w'.view k o))
  | ended {o : Nat} (before : w.connections.lookup k = some o)
      (after : w'.connections.lookup k = none)
      (ends : View.Ends w.cfg rules (w.view k o) (w'.histories (w.heap o).life))

/-- What becomes of all connections, and of the lives that are over. -/
structure Evolution (rules : Rules) (exact' : Prop) (w w' : Worker) : Prop where
  cfg : w'.cfg = w.cfg
  slot : ∀ {k : Int}, k ≠ w.cfg.listener → Slot rules exact' w w' k
  nextLife : w.nextLife ≤ w'.nextLife
  past : ∀ life < w.nextLife, (∀ k o, w.connections.lookup k = some o →
    (w.heap o).life ≠ life) → w'.histories life = w.histories life
  newborn : ∀ life, w.nextLife ≤ life → life < w'.nextLife →
    (∃ k o, k ≠ w.cfg.listener ∧ w'.connections.lookup k = some o ∧ (w'.heap o).life = life) ∨
      rules.Unheard (w'.histories life)
  listener : ∀ o, w.connections.lookup w.cfg.listener = some o →
    (w.histories (w.heap o).life).Silent → rules.Unheard (w'.histories (w.heap o).life)
  silent : ∀ o, w'.connections.lookup w.cfg.listener = some o →
    (∀ i, w.connections.lookup w.cfg.listener = some i → (w.histories (w.heap i).life).Silent) →
    (w'.histories (w'.heap o).life).Silent

/-- Only what concerns one key, one object and one life has changed. -/
structure Touched (k : Int) (o : Nat) (life : Nat) (w w' : Worker) : Prop where
  cfg : w'.cfg = w.cfg
  lookup : ∀ {k'}, k' ≠ k → w'.connections.lookup k' = w.connections.lookup k'
  heap : ∀ {i}, i ≠ o → i < w.nextObj → w'.heap i = w.heap i
  nextObj : w.nextObj ≤ w'.nextObj
  todo : ∀ {k'}, k' ≠ k → w'.todo k' = w.todo k'
  completed : ∀ {k'}, k' ≠ k → w'.completed k' = w.completed k'
  tasks : ∀ {i}, i ≠ o → w'.tasksOf i = w.tasksOf i
  queued : ∀ {i}, i ≠ o → w'.asyncOpQueue.count i = w.asyncOpQueue.count i
  histories : ∀ {l}, l ≠ life → w'.histories l = w.histories l
  nextLife : w.nextLife ≤ w'.nextLife

variable {w w₁ w' : Worker} {k : Int} {o life : Nat} {rules : Rules} {exact' : Prop} {i : Nat}

theorem Touched.refl : Touched k o life w w :=
  ⟨rfl, fun _ => rfl, fun _ _ => rfl, le_rfl, fun _ => rfl, fun _ => rfl, fun _ => rfl,
    fun _ => rfl, fun _ => rfl, le_rfl⟩

theorem Touched.trans (first : Touched k o life w w₁) (second : Touched k o life w₁ w') :
    Touched k o life w w' where
  cfg := second.cfg.trans first.cfg
  lookup ne := (second.lookup ne).trans (first.lookup ne)
  heap ne lt := (second.heap ne (lt.trans_le first.nextObj)).trans (first.heap ne lt)
  nextObj := first.nextObj.trans second.nextObj
  todo ne := (second.todo ne).trans (first.todo ne)
  completed ne := (second.completed ne).trans (first.completed ne)
  tasks ne := (second.tasks ne).trans (first.tasks ne)
  queued ne := (second.queued ne).trans (first.queued ne)
  histories ne := (second.histories ne).trans (first.histories ne)
  nextLife := first.nextLife.trans second.nextLife

/-- The key, the object and the life are not another connection's. -/
structure Apart (w : Worker) (k : Int) (o life : Nat) : Prop where
  obj : ∀ {k'}, k' ≠ k → w.connections.lookup k' ≠ some o
  lives : ∀ {k' i}, k' ≠ k → w.connections.lookup k' = some i → (w.heap i).life ≠ life
  own : (∃ i, w.connections.lookup k = some i) → w.connections.lookup k = some o ∧
    (w.heap o).life = life
  born : w.connections.lookup k = none → w.nextLife ≤ life

/-- A registered connection is one of its own. -/
theorem Sane.apart (sane : w.Sane) (found : w.connections.lookup k = some o) :
    Apart w k o (w.heap o).life where
  obj ne other := ne (sane.inj other found)
  lives ne other same := ne (sane.lifeInj other found same)
  own _ := ⟨found, rfl⟩
  born none' := by
    rw [found] at none'
    cases none'

/-- So is one that is not registered yet. -/
theorem Sane.apart_new (sane : w.Sane) (absent : w.connections.lookup k = none)
    (unused : ∀ k', w.connections.lookup k' ≠ some o) : Apart w k o w.nextLife where
  obj _ := unused _
  lives _ found := (sane.lives _ (sane.bound found)).ne
  own := by
    rintro ⟨i, found⟩
    rw [absent] at found
    cases found
  born _ := le_rfl

theorem Touched.view (touched : Touched k o life w w') (sane : w.Sane) (apart : Apart w k o life)
    {k' : Int} (ne : k' ≠ k) (found : w.connections.lookup k' = some i) :
    w'.view k' i = w.view k' i := by
  have other : i ≠ o := by
    rintro rfl
    exact apart.obj ne found
  have same := touched.heap other (sane.bound found)
  simp only [Worker.view, same, touched.histories (apart.lives ne found), touched.todo ne,
    touched.completed ne, touched.tasks other, touched.queued other]

/-- A descriptor that was not open is a new one. -/
theorem Ground.fresh (ground : w.Ground) {fd : Int} (nonneg : 0 ≤ fd) (small : fd < 2 ^ 31)
    (closed : fd ∉ w.openFds) : w.cfg.Fresh fd := by
  have other : ∀ fd' ∈ [0, 1, 2, w.cfg.listener], fd ≠ fd' := by
    rintro fd' standard rfl
    exact closed (ground.std _ standard)
  have zero := other 0 (by simp)
  have one := other 1 (by simp)
  have two := other 2 (by simp)
  exact ⟨by omega, small, other w.cfg.listener (by simp)⟩

/-- The connection under the key, if there is one, is this object. -/
theorem Apart.eq (apart : Apart w k o life) (found : w.connections.lookup k = some i) : i = o := by
  have same := (apart.own ⟨i, found⟩).1
  rw [found] at same
  cases same
  rfl

theorem Touched.free (touched : Touched k o life w w') (apart : Apart w k o life)
    (regular : w.Regular rules) (ne : i ≠ o)
    (unregistered : ∀ k', w'.connections.lookup k' ≠ some i) :
    w'.tasksOf i = [] ∧ w'.asyncOpQueue.count i = 0 := by
  rw [touched.tasks ne, touched.queued ne]
  refine regular.free fun k' found => ?_
  by_cases same : k' = k
  · subst same
    exact ne (apart.eq found)
  · refine unregistered k' ?_
    rw [touched.lookup same]
    exact found

/-- One connection has changed, and the worker stays regular if that is a move of it. -/
theorem Regular.touched (regular : w.Regular rules) (ground : w'.Ground)
    (other : k ≠ w.cfg.listener) (touched : Touched k o life w w') (apart : Apart w k o life)
    (slot : Slot rules exact' w w' k) (after : ∀ {i}, w'.connections.lookup k = some i → i = o)
    (range : w.connections.lookup k = none → w'.connections.lookup k = some o → w.cfg.Fresh k)
    (gone : w'.connections.lookup k = none → w'.todo k = [] ∧ w'.completed k = [] ∧
      w'.tasksOf o = [] ∧ w'.asyncOpQueue.count o = 0) : w'.Regular rules := by
  have back : ∀ {k' i}, k' ≠ k → w'.connections.lookup k' = some i →
      w.connections.lookup k' = some i := by
    intro k' i ne found
    rw [← touched.lookup ne]
    exact found
  have listener : w'.cfg.listener = w.cfg.listener := by rw [touched.cfg]
  have kind : w'.cfg.kind = w.cfg.kind := by rw [touched.cfg]
  have shared := touched.lookup other.symm
  refine ⟨ground, ?_, ?_, ?_, ?_, ?_, ?_, ?_, ?_⟩
  · intro k' i found ne
    rw [listener] at ne
    rw [touched.cfg]
    by_cases same : k' = k
    · subst same
      cases before : w.connections.lookup k' with
      | some j => exact regular.fresh before ne
      | none =>
        rw [after found] at found
        exact range before found
    · exact regular.fresh (back same found) ne
  · intro k' i found ne
    rw [listener] at ne
    by_cases same : k' = k
    · subst same
      cases slot with
      | absent before after =>
        rw [found] at after
        cases after
      | kept before after view =>
        rw [found] at after
        cases after
        rw [view]
        exact regular.tidy before ne
      | moved before after move =>
        rw [found] at after
        cases after
        exact (regular.tidy before ne).move regular.sane.tcp move
      | born before after born =>
        rw [found] at after
        cases after
        exact .born regular.sane.tcp born
      | ended before after ends =>
        rw [found] at after
        cases after
    · rw [touched.view regular.sane apart same (back same found)]
      exact regular.tidy (back same found) ne
  · intro k' none' ne
    rw [listener] at ne
    by_cases same : k' = k
    · subst same
      exact ⟨(gone none').1, (gone none').2.1⟩
    · rw [touched.todo same, touched.completed same]
      rw [touched.lookup same] at none'
      exact regular.quiet none' ne
  · intro i unregistered
    by_cases same : i = o
    · subst same
      cases found : w'.connections.lookup k with
      | none => exact (gone found).2.2
      | some j =>
        have whose := after found
        subst whose
        exact absurd found (unregistered k)
    · exact touched.free apart regular same unregistered
  · rw [listener, touched.todo other.symm, touched.completed other.symm]
    exact regular.accepts
  · intro consumer
    rw [kind] at consumer
    rw [listener, shared, touched.todo other.symm, touched.completed other.symm]
    exact regular.consumer consumer
  · intro i found
    rw [listener, shared] at found
    have ne : i ≠ o := by
      rintro rfl
      exact apart.obj other.symm found
    rw [listener, touched.heap ne (regular.sane.bound found), touched.tasks ne, touched.queued ne]
    exact regular.listener found
  · intro never shard
    rw [kind] at shard
    rw [listener, shared]
    exact regular.listening never shard

/-- The entries and the lives that have not been touched. -/
theorem Touched.slot (touched : Touched k o life w w') (sane : w.Sane) (apart : Apart w k o life)
    {k' : Int} (ne : k' ≠ k) : Slot rules exact' w w' k' := by
  have same := touched.lookup ne
  cases found : w.connections.lookup k' with
  | none => exact .absent found (same.trans found)
  | some i => exact .kept found (same.trans found) (touched.view sane apart ne found)

theorem Touched.past (touched : Touched k o life w w') (apart : Apart w k o life) {l : Nat}
    (lt : l < w.nextLife)
    (none' : ∀ k o, w.connections.lookup k = some o → (w.heap o).life ≠ l) :
    w'.histories l = w.histories l := by
  refine touched.histories ?_
  rintro rfl
  cases found : w.connections.lookup k with
  | none => exact absurd (apart.born found) (not_le.mpr lt)
  | some i =>
    obtain ⟨registered, same⟩ := apart.own ⟨i, found⟩
    exact none' k o registered same

/-- The same, as an evolution of the connections. -/
theorem Touched.evolution (touched : Touched k o life w w') (sane : w.Sane)
    (apart : Apart w k o life) (other : k ≠ w.cfg.listener) (slot : Slot rules exact' w w' k)
    (newborn : ∀ l, w.nextLife ≤ l → l < w'.nextLife →
      w'.connections.lookup k = some o ∧ (w'.heap o).life = l) : Evolution rules exact' w w' where
  cfg := touched.cfg
  slot := by
    intro k' ne
    by_cases same : k' = k
    · subst same
      exact slot
    · exact touched.slot sane apart same
  nextLife := touched.nextLife
  past := fun l lt none' => touched.past apart lt none'
  newborn := by
    intro l le lt
    obtain ⟨found, same⟩ := newborn l le lt
    exact Or.inl ⟨k, o, other, found, same⟩
  listener := by
    intro i found silent
    rw [touched.histories (apart.lives other.symm found)]
    exact silent.unheard rules
  silent := by
    intro i found silent
    rw [touched.lookup other.symm] at found
    have ne : i ≠ o := by
      rintro rfl
      exact apart.obj other.symm found
    rw [touched.heap ne (sane.bound found), touched.histories (apart.lives other.symm found)]
    exact silent i found

/-- The entry of the listener has changed, or what is underway for it. -/
theorem Regular.touchedListener (regular : w.Regular rules) (ground : w'.Ground)
    (touched : Touched w.cfg.listener o life w w') (apart : Apart w w.cfg.listener o life)
    (shard : w.cfg.kind = .shard)
    (accepts : (∀ q ∈ w'.todo w.cfg.listener, q.flag = .accept) ∧
      ∀ c ∈ w'.completed w.cfg.listener, c.sqe.flag = .accept)
    (held : w'.tasksOf o = [] ∧ w'.asyncOpQueue.count o = 0)
    (entry : ∀ {i}, w'.connections.lookup w.cfg.listener = some i →
      i = o ∧ (w'.heap i).state = .accept ∧ (w'.heap i).fd = w.cfg.listener)
    (listening : ¬ rules.failing → ∃ i, w'.connections.lookup w.cfg.listener = some i) :
    w'.Regular rules := by
  have back : ∀ {k' i}, k' ≠ w.cfg.listener → w'.connections.lookup k' = some i →
      w.connections.lookup k' = some i := by
    intro k' i ne found
    rw [← touched.lookup ne]
    exact found
  have listener : w'.cfg.listener = w.cfg.listener := by rw [touched.cfg]
  refine ⟨ground, ?_, ?_, ?_, ?_, ?_, ?_, ?_, ?_⟩
  · intro k' i found ne
    rw [listener] at ne
    rw [touched.cfg]
    exact regular.fresh (back ne found) ne
  · intro k' i found ne
    rw [listener] at ne
    rw [touched.view regular.sane apart ne (back ne found)]
    exact regular.tidy (back ne found) ne
  · intro k' none' ne
    rw [listener] at ne
    rw [touched.todo ne, touched.completed ne]
    rw [touched.lookup ne] at none'
    exact regular.quiet none' ne
  · intro i unregistered
    by_cases same : i = o
    · subst same
      exact held
    · exact touched.free apart regular same unregistered
  · rw [listener]
    exact accepts
  · intro consumer
    rw [touched.cfg, shard] at consumer
    cases consumer
  · intro i found
    rw [listener] at found ⊢
    obtain ⟨rfl, state, fd⟩ := entry found
    exact ⟨state, fd, held.1, held.2⟩
  · intro never _
    rw [listener]
    exact listening never

/-- The same for the listener. -/
theorem Touched.evolutionListener (touched : Touched w.cfg.listener o life w w') (sane : w.Sane)
    (apart : Apart w w.cfg.listener o life)
    (newborn : ∀ l, w.nextLife ≤ l → l < w'.nextLife → rules.Unheard (w'.histories l))
    (listener : w.connections.lookup w.cfg.listener = some o →
      (w.histories (w.heap o).life).Silent → rules.Unheard (w'.histories (w.heap o).life))
    (silent : ∀ i, w'.connections.lookup w.cfg.listener = some i →
      (∀ i, w.connections.lookup w.cfg.listener = some i → (w.histories (w.heap i).life).Silent) →
      (w'.histories (w'.heap i).life).Silent) : Evolution rules exact' w w' where
  cfg := touched.cfg
  slot := touched.slot sane apart
  nextLife := touched.nextLife
  past := fun l lt none' => touched.past apart lt none'
  newborn := fun l le lt => Or.inr (newborn l le lt)
  listener := by
    intro i found
    have same := apart.eq found
    subst same
    exact listener found
  silent := silent

/-- No connection has been touched by the code: at most requests have moved along. -/
structure Carried (rules : Rules) (exact' : Prop) (w w' : Worker) : Prop where
  cfg : w'.cfg = w.cfg
  connections : w'.connections = w.connections
  heap : w'.heap = w.heap
  tasks : w'.tasks = w.tasks
  queue : w'.asyncOpQueue = w.asyncOpQueue
  nextLife : w'.nextLife = w.nextLife
  histories : ∀ life, (∀ {k o}, k ≠ w.cfg.listener → w.connections.lookup k = some o →
    (w.heap o).life ≠ life) → w'.histories life = w.histories life
  view : ∀ {k o}, k ≠ w.cfg.listener → w.connections.lookup k = some o →
    w'.view k o = w.view k o ∨ View.Move w.cfg rules exact' (w.view k o) (w'.view k o)
  quiet : ∀ {k}, k ≠ w.cfg.listener → w.connections.lookup k = none →
    w'.todo k = w.todo k ∧ w'.completed k = w.completed k
  listener : (w'.todo w.cfg.listener = w.todo w.cfg.listener ∧
      w'.completed w.cfg.listener = w.completed w.cfg.listener) ∨
    w.cfg.kind = .shard ∧ (∀ q ∈ w'.todo w.cfg.listener, q.flag = .accept) ∧
      ∀ c ∈ w'.completed w.cfg.listener, c.sqe.flag = .accept

/-- What is underway has not changed, up to the accepts of the listener. -/
theorem Carried.of_same (cfg : w'.cfg = w.cfg) (connections : w'.connections = w.connections)
    (heap : w'.heap = w.heap) (tasks : w'.tasks = w.tasks)
    (queue : w'.asyncOpQueue = w.asyncOpQueue) (nextLife : w'.nextLife = w.nextLife)
    (histories : w'.histories = w.histories)
    (todo : ∀ {k}, k ≠ w.cfg.listener → w'.todo k = w.todo k)
    (completed : ∀ {k}, k ≠ w.cfg.listener → w'.completed k = w.completed k)
    (listener : (w'.todo w.cfg.listener = w.todo w.cfg.listener ∧
        w'.completed w.cfg.listener = w.completed w.cfg.listener) ∨
      w.cfg.kind = .shard ∧ (∀ q ∈ w'.todo w.cfg.listener, q.flag = .accept) ∧
        ∀ c ∈ w'.completed w.cfg.listener, c.sqe.flag = .accept) : Carried rules exact' w w' where
  cfg := cfg
  connections := connections
  heap := heap
  tasks := tasks
  queue := queue
  nextLife := nextLife
  histories _ _ := by rw [histories]
  view ne _ := by
    simp only [Worker.view, heap, histories, todo ne, completed ne, tasksOf, tasks, queue, true_or]
  quiet ne _ := ⟨todo ne, completed ne⟩
  listener := listener

/-- Requests move along, and all stays regular. -/
theorem Regular.carried (regular : w.Regular rules)
    (ground : w'.Ground) (carried : Carried rules exact' w w') : w'.Regular rules := by
  refine ⟨ground, ?_, ?_, ?_, ?_, ?_, ?_, ?_, ?_⟩
  · rw [carried.cfg, carried.connections]
    exact regular.fresh
  · intro k o found ne
    rw [carried.connections] at found
    rw [carried.cfg] at ne
    rcases carried.view ne found with same | move
    · rw [same]
      exact regular.tidy found ne
    · exact (regular.tidy found ne).move regular.sane.tcp move
  · intro k none' ne
    rw [carried.connections] at none'
    rw [carried.cfg] at ne
    rw [(carried.quiet ne none').1, (carried.quiet ne none').2]
    exact regular.quiet none' ne
  · intro o unregistered
    rw [carried.connections] at unregistered
    rw [tasksOf, carried.tasks, carried.queue]
    exact regular.free unregistered
  · rw [carried.cfg]
    rcases carried.listener with ⟨todo, completed⟩ | ⟨_, accepts⟩
    · rw [todo, completed]
      exact regular.accepts
    · exact accepts
  · intro consumer
    rw [carried.cfg] at consumer ⊢
    rcases carried.listener with ⟨todo, completed⟩ | ⟨shard, _⟩
    · rw [carried.connections, todo, completed]
      exact regular.consumer consumer
    · rw [shard] at consumer
      cases consumer
  · intro o found
    rw [carried.cfg, carried.connections] at found
    rw [carried.cfg, carried.heap, tasksOf, carried.tasks, carried.queue]
    exact regular.listener found
  · rw [carried.cfg, carried.connections]
    exact regular.listening

/-- The same, as an evolution. -/
theorem Carried.evolution (carried : Carried rules exact' w w') (sane : w.Sane) :
    Evolution rules exact' w w' := by
  have kept : ∀ {o}, w.connections.lookup w.cfg.listener = some o →
      w'.histories (w.heap o).life = w.histories (w.heap o).life := by
    intro o found
    refine carried.histories _ fun ne other same => ne (sane.lifeInj other found same)
  refine ⟨carried.cfg, ?_, carried.nextLife.ge, ?_, ?_, ?_, ?_⟩
  · intro k ne
    have after : ∀ {o}, w.connections.lookup k = o → w'.connections.lookup k = o := by
      intro o found
      rw [carried.connections]
      exact found
    cases found : w.connections.lookup k with
    | none => exact .absent found (after found)
    | some o =>
      rcases carried.view ne found with same | move
      · exact .kept found (after found) same
      · exact .moved found (after found) move
  · intro life _ past
    exact carried.histories life fun _ found => past _ _ found
  · intro l le lt
    rw [carried.nextLife] at lt
    exact absurd lt (not_lt.mpr le)
  · intro o found silent
    rw [kept found]
    exact silent.unheard rules
  · intro o found silent
    rw [carried.connections] at found
    rw [carried.heap, kept found]
    exact silent o found

end Worker

namespace Chains

variable {listener : Int} {inflight sq : Chains} {new : List Sqe}

/-- Requests for a connection that has none underway stay in a chain of their own, as
far as that connection is concerned. -/
theorem Solo.pushAll (solo : Solo listener (inflight ++ sq)) (joined : Joined new)
    (apart : ∀ q ∈ (inflight ++ sq).flatten, ∀ q' ∈ new, q.key = q'.key → q.key = listener) :
    Solo listener (inflight ++ pushAll sq new) := by
  rcases pushAll_joined sq joined with same | ⟨init, last, rfl, same⟩
  · rw [same, ← append_assoc]
    refine pairwise_append.mpr ⟨solo, pairwise_singleton .., ?_⟩
    intro c place d only q member q' member'
    rw [mem_singleton.mp only] at member'
    exact apart q (mem_flatten.mpr ⟨c, place, member⟩) q' member'
  · rw [same, ← append_assoc]
    rw [← append_assoc] at solo apart
    obtain ⟨before, _, across⟩ := pairwise_append.mp solo
    refine pairwise_append.mpr ⟨before, pairwise_singleton .., ?_⟩
    intro c place d only q member q' member'
    rw [mem_singleton.mp only] at member'
    rcases mem_append.mp member' with old | added
    · exact across c place last (mem_singleton_self last) q member q' old
    · refine apart q (mem_flatten.mpr ⟨c, mem_append_left _ place, member⟩) q' added

/-- A chain may lose entries. -/
theorem Solo.set (solo : Solo listener (inflight ++ sq)) {chain : Nat} {old rest : List Sqe}
    (found : inflight[chain]? = some old) (sub : ∀ q ∈ rest, q ∈ old) :
    Solo listener (inflight.set chain rest ++ sq) := by
  obtain ⟨lt, rfl⟩ := List.getElem?_eq_some_iff.mp found
  have split : inflight = inflight.take chain ++ inflight[chain] :: inflight.drop (chain + 1) := by
    rw [List.getElem_cons_drop, take_append_drop]
  have set : inflight.set chain rest =
      inflight.take chain ++ rest :: inflight.drop (chain + 1) :=
    set_eq_take_append_cons_drop.trans (if_pos lt)
  rw [set, append_assoc, cons_append]
  unfold Solo at solo
  rw [split, append_assoc, cons_append, pairwise_append, pairwise_cons] at solo
  obtain ⟨before, ⟨first, behind⟩, across⟩ := solo
  refine pairwise_append.mpr ⟨before, pairwise_cons.mpr ⟨?_, behind⟩, ?_⟩
  · intro d place q member
    exact first d place q (sub q member)
  · intro c place d place' q member q' member'
    rcases mem_cons.mp place' with rfl | after
    · exact across c place _ mem_cons_self q member q' (sub q' member')
    · exact across c place d (mem_cons_of_mem _ after) q member q' member'

end Chains

end Gain
