import Gain.Worker.Descriptors
import Gain.Worker.Mail
import Gain.Worker.Vacancy

/-! # Descriptors that are used again

The kernel may give a descriptor to a new connection as soon as the close of the
old one has executed, while its completion still waits. On the ring that
completion stands before the announcement of the new connection; the queue of new
connections has no such order.
-/

namespace Gain

open List

namespace Worker

variable {w w' : Worker} {env : Env} {o : Nat} {c : Cqe} {cq : List Cqe} {err : Option Error}
  {k fd : Int} {rules : Rules} {new : List Cqe} {label : Label} {q : Sqe}

/-! ## What a step does to the registry -/

/-- The kernel's descriptors and the queues that new connections come from are the same, and
nothing is registered that was not, apart from one key. -/
structure Keeps (new : Option Int) (w w' : Worker) : Prop where
  openFds : w'.openFds = w.openFds
  cq : w'.cq = w.cq
  connQueue : w'.connQueue = w.connQueue
  registered : ∀ {k o}, w'.connections.lookup k = some o →
    w.connections.lookup k = some o ∨ new = some k

theorem Keeps.of_same (openFds : w'.openFds = w.openFds) (cq : w'.cq = w.cq)
    (connQueue : w'.connQueue = w.connQueue) (connections : w'.connections = w.connections) :
    Keeps none w w' :=
  ⟨openFds, cq, connQueue, fun found => Or.inl (connections ▸ found)⟩

theorem Keeps.released {x : Session} {key : Int}
    (released : Released (w.setSession x) key o w') : Keeps none w w' := by
  refine ⟨by rw [released.frame]; rfl, by rw [released.frame]; rfl, by rw [released.frame]; rfl, ?_⟩
  intro k i found
  exact Or.inl (released.of_lookup found).2

/-- A new connection is handed over. -/
theorem Keeps.handedOver (bound : ∀ o ∈ w.connPool.items, o < w.nextObj)
    (handed : HandedOver w env fd err w') : Keeps (some fd) w w' := by
  obtain ⟨@⟨w₁, _, _, _, got⟩, welcomed⟩ := handed
  obtain ⟨x, _, rfl⟩ := welcomed.acts
  rcases get_cases w bound fd fd with ⟨_, _, same⟩ | ⟨_, base, _, entered, same⟩
  · cases got.symm.trans same
    exact ⟨rfl, rfl, rfl, Or.inl⟩
  · cases got.symm.trans same
    have frame : w₁.openFds = w.openFds ∧ w₁.cq = w.cq ∧ w₁.connQueue = w.connQueue := by
      rw [entered.frame]
      exact ⟨rfl, rfl, rfl⟩
    refine ⟨frame.1, frame.2.1, frame.2.2, ?_⟩
    intro k i found
    change w₁.connections.lookup k = some i at found
    by_cases new : k = fd
    · exact Or.inr (by rw [new])
    · rw [entered.lookup_ne new] at found
      exact Or.inl found

theorem Keeps.closeConn (sane : w.Sane) (found : w.connections.lookup k = some o)
    {syscallClose : Bool} {ops : List ConnOp}
    (done : w.closeConn o syscallClose err ops = some w') :
    Keeps none w w' ∧ w'.connections.lookup k = none := by
  have released := sane.ended found done
  exact ⟨.released released, released.lookup_self⟩

/-- An event of a connection enters none, and the completion of its close removes it. -/
theorem Keeps.served (sane : w.Sane)
    (found : w.connections.lookup k = some o) (served : Served w env c o w') :
    Keeps none w w' ∧
      ((w.heap o).state = .close → c.sqe.flag = .close → w'.connections.lookup k = none) := by
  cases served with
  | eof state nothing ended =>
    obtain ⟨keeps, absent⟩ := Keeps.closeConn sane found ended
    exact ⟨keeps, fun _ _ => absent⟩
  | @armed x x' prelude arming =>
    refine ⟨.of_same rfl rfl rfl rfl, fun closing _ => ?_⟩
    rcases prelude.state.1 with state | state <;> cases state.symm.trans closing
  | @failed x x' err w' prelude arming ended =>
    have sane' := sane.acts (sane.bound found) (prelude.acts.trans arming.acts)
    obtain ⟨keeps, absent⟩ := Keeps.closeConn sane' found ended
    exact ⟨⟨keeps.openFds, keeps.cq, keeps.connQueue, keeps.registered⟩, fun _ _ => absent⟩
  | spawned state some' received async =>
    refine ⟨.of_same rfl rfl rfl rfl, fun closing _ => ?_⟩
    cases state.symm.trans closing
  | closed state flag ended =>
    obtain ⟨keeps, absent⟩ := Keeps.closeConn sane found ended
    exact ⟨keeps, fun _ _ => absent⟩
  | flushed state flag sent called =>
    refine ⟨.of_same rfl rfl rfl rfl, fun _ closes => ?_⟩
    cases flag.symm.trans closes
  | ignored state not' _ => exact ⟨.of_same rfl rfl rfl rfl, fun _ closes => absurd closes not'⟩
  | unknown state ended =>
    obtain ⟨keeps, absent⟩ := Keeps.closeConn sane found ended
    exact ⟨keeps, fun _ _ => absent⟩

/-- An event of a consumer enters no connection but the one it announces, and the completion of
a close that took effect removes one. -/
theorem Keeps.handled (regular : w.Regular rules) (consumer : w.cfg.kind = .consumer)
    (first : w.cq = c :: cq) (phase : Phase) (handled : Handled (w.pop phase cq) env c w') :
    Keeps c.announces (w.pop phase cq) w' ∧
      (c.closes = true → w'.connections.lookup c.sqe.key = none) := by
  have member : c ∈ w.cq := by
    rw [first]
    exact mem_cons_self
  have registered : c.sqe.flag ≠ .addConn → c.sqe.key ≠ w.cfg.listener ∧
      ∃ o, w.connections.lookup c.sqe.key = some o ∧ c ∈ (w.view c.sqe.key o).done := by
    intro flag
    rcases regular.completion_cases member flag with ⟨shard, _⟩ | found
    · cases consumer.symm.trans shard
    · exact found
  have sane : (w.pop phase cq).Sane := (regular.toGround.pop first phase).sane
  have silent : c.sqe.flag ≠ .addConn → c.announces = none := fun flag =>
    if_neg fun new => flag new.1
  cases handled with
  | looked error _ got =>
    have flag : c.sqe.flag ≠ .addConn := by
      intro flag
      have := ((regular.news c member).1 flag).2.low
      omega
    obtain ⟨_, o, found, _⟩ := registered flag
    cases got.symm.trans (get_found (w := w.pop phase cq) found _)
    rw [silent flag]
    refine ⟨.of_same rfl rfl rfl rfl, fun closes => ?_⟩
    rw [Cqe.closes_of_error error] at closes
    cases closes
  | dropped error shard => cases consumer.symm.trans shard
  | skipped fine _ flag small =>
    obtain ⟨other, o, found, _⟩ := registered flag
    have := (regular.fresh found other).low
    omega
  | @announced err w₁ fine _ flag handed =>
    rw [Cqe.announces, if_pos ⟨flag, fine⟩]
    refine ⟨?_, fun closes => ?_⟩
    · have keeps := Keeps.handedOver (w := w.pop phase cq) regular.sane.poolBound handed
      cases err with
      | none => exact keeps
      | some err =>
        obtain ⟨shut, same⟩ := stop_eq w₁
        simp only [Option.isSome_some, if_true, same]
        exact ⟨keeps.openFds, keeps.cq, keeps.connQueue, keeps.registered⟩
    · rw [Cqe.closes_of_flag (by rw [flag]; decide)] at closes
      cases closes
  | @served i w₁ w' fine kind got stream served =>
    have flag := (kind consumer).1
    obtain ⟨other, o, found, mine⟩ := registered flag
    cases got.symm.trans (get_found (w := w.pop phase cq) found _)
    obtain ⟨keeps, closed⟩ := Keeps.served sane found served
    rw [silent flag]
    refine ⟨keeps, fun closes => closed ?_ (of_decide_eq_true closes).1⟩
    have head := (regular.tidy found other).head (completed_of_first first rfl flag phase)
    rw [(of_decide_eq_true closes).1] at head
    rcases head with ⟨_, not'⟩ | ⟨_, not'⟩ | ⟨state, _⟩
    · cases not'
    · cases not'
    · exact state
  | accepted fine shard got state accepted ended => cases consumer.symm.trans shard

/-! ## Descriptors that wait for a connection -/

/-- The completion of a close of the descriptor is among these. -/
def ClosedIn (cq : List Cqe) (k : Int) : Prop := ∃ c ∈ cq, c.closes = true ∧ c.sqe.key = k

theorem mem_announces {before after : List Cqe} (announces : c.announces = some fd) :
    fd ∈ (before ++ c :: after).filterMap Cqe.announces :=
  mem_filterMap.mpr ⟨c, mem_append_right _ mem_cons_self, announces⟩

/-- A descriptor is handed over while it is open, and not twice. A connection on a descriptor
that is not open, or handed over again, has been closed, and on the ring its completion stands
before the announcement. -/
structure Timely (w : Worker) : Prop where
  open' : ∀ fd ∈ w.waiting, fd ∈ w.openFds
  nodup : w.waiting.Nodup
  used : ∀ {k o}, w.connections.lookup k = some o →
    (k ∈ w.openFds ∧ k ∉ w.waiting) ∨ ClosedIn w.cq k
  order : ∀ {before c after}, w.cq = before ++ c :: after → ∀ {fd}, c.announces = some fd →
    ∀ {o}, w.connections.lookup fd = some o → ClosedIn before fd

theorem Timely.of_same (timely : w.Timely) (connections : w'.connections = w.connections)
    (openFds : w'.openFds = w.openFds) (cq : w'.cq = w.cq)
    (connQueue : w'.connQueue = w.connQueue) : w'.Timely := by
  have same : w'.waiting = w.waiting := by rw [waiting, waiting, cq, connQueue]
  refine ⟨?_, ?_, ?_, ?_⟩
  · rw [same, openFds]
    exact timely.open'
  · rw [same]
    exact timely.nodup
  · rw [connections, same, openFds, cq]
    exact timely.used
  · rw [connections, cq]
    exact timely.order

/-- An event is taken from the ring. -/
theorem Timely.event (timely : w.Timely) (first : w.cq = c :: cq) {phase : Phase}
    (keeps : Keeps c.announces (w.pop phase cq) w')
    (closed : c.closes = true → w'.connections.lookup c.sqe.key = none) : w'.Timely := by
  have after : w'.waiting = cq.filterMap Cqe.announces ++ w.connQueue := by
    rw [waiting, keeps.cq, keeps.connQueue]
    rfl
  have sub : w'.waiting.Sublist w.waiting := by
    rw [after, waiting, first]
    exact ((sublist_cons_self c cq).filterMap _).append (.refl _)
  have taken : ∀ {fd}, c.announces = some fd → fd ∈ w.waiting ∧ fd ∉ w'.waiting := by
    intro fd announces
    have all : w.waiting = fd :: w'.waiting := by
      rw [after, waiting, first, filterMap_cons_some announces]
      rfl
    have nodup := timely.nodup
    rw [all, nodup_cons] at nodup
    rw [all]
    exact ⟨mem_cons_self, nodup.1⟩
  -- The close that was just handled does not count any more.
  have remains : ∀ {l : List Cqe} {k : Int} {o : Nat}, w'.connections.lookup k = some o →
      ClosedIn (c :: l) k → ClosedIn l k := by
    rintro l k o found ⟨d, member, closes, rfl⟩
    rcases mem_cons.mp member with rfl | member
    · rw [closed closes] at found
      cases found
    · exact ⟨d, member, closes, rfl⟩
  refine ⟨?_, timely.nodup.sublist sub, ?_, ?_⟩
  · rw [keeps.openFds]
    exact fun fd member => timely.open' fd (sub.subset member)
  · intro k o found
    rw [keeps.openFds, keeps.cq]
    rcases keeps.registered found with old | fresh
    · rcases timely.used old with ⟨open', free⟩ | waiting
      · exact Or.inl ⟨open', fun member => free (sub.subset member)⟩
      · rw [first] at waiting
        exact Or.inr (remains found waiting)
    · exact Or.inl ⟨timely.open' _ (taken fresh).1, (taken fresh).2⟩
  · intro before d rest split fd announces o found
    rw [keeps.cq] at split
    change cq = before ++ d :: rest at split
    rcases keeps.registered found with old | fresh
    · have whole : w.cq = (c :: before) ++ d :: rest := by rw [first, split, cons_append]
      exact remains found (timely.order whole announces old)
    · refine absurd ?_ (taken fresh).2
      rw [after, split]
      exact mem_append_left _ (mem_announces announces)

/-- A descriptor is taken from the queue. -/
theorem Timely.newConn (timely : w.Timely) {rest : List Int} (first : w.connQueue = fd :: rest)
    (keeps : Keeps (some fd) { w with connQueue := rest } w') : w'.Timely := by
  have after : w'.waiting = w.cq.filterMap Cqe.announces ++ rest := by
    rw [waiting, keeps.cq, keeps.connQueue]
  have all : w.waiting.Perm (fd :: w'.waiting) := by
    rw [after, waiting, first]
    exact perm_middle
  have nodup := nodup_cons.mp (all.nodup_iff.mp timely.nodup)
  have sub : ∀ k ∈ w'.waiting, k ∈ w.waiting := fun k member =>
    all.symm.subset (mem_cons_of_mem _ member)
  refine ⟨?_, nodup.2, ?_, ?_⟩
  · rw [keeps.openFds]
    exact fun k member => timely.open' k (sub k member)
  · intro k o found
    rw [keeps.openFds, keeps.cq]
    rcases keeps.registered found with old | fresh
    · exact (timely.used old).imp_left (And.imp_right fun free member => free (sub k member))
    · cases fresh
      exact Or.inl ⟨timely.open' fd (all.symm.subset mem_cons_self), nodup.1⟩
  · intro before d rest' split fd' announces o found
    rw [keeps.cq] at split
    rcases keeps.registered found with old | fresh
    · exact timely.order split announces old
    · cases fresh
      refine absurd ?_ nodup.1
      rw [after, show w.cq = before ++ d :: rest' from split]
      exact mem_append_left _ (mem_announces announces)

/-- An element of a list that has grown is an old one, with the same ones before it, or a new
one, with all old ones before it. -/
theorem split_append {α : Type} {l new before after : List α} {a : α}
    (split : l ++ new = before ++ a :: after) :
    (∃ rest, l = before ++ a :: rest) ∨ (a ∈ new ∧ ∃ first, before = l ++ first) := by
  rcases append_eq_append_iff.mp split with ⟨first, rfl, rest⟩ | ⟨rest, rfl, tail⟩
  · refine Or.inr ⟨?_, first, rfl⟩
    rw [rest]
    exact mem_append_right _ mem_cons_self
  · cases rest with
    | nil =>
      refine Or.inr ⟨?_, [], (by simp)⟩
      rw [nil_append] at tail
      rw [← tail]
      exact mem_cons_self
    | cons b rest =>
      rw [cons_append] at tail
      cases tail
      exact Or.inl ⟨rest, rfl⟩

theorem ClosedIn.append {l : List Cqe} (closed : ClosedIn l k) : ClosedIn (l ++ new) k := by
  obtain ⟨c, member, closes, key⟩ := closed
  exact ⟨c, mem_append_left _ member, closes, key⟩

/-- Requests complete; a descriptor may be closed. -/
theorem Timely.arrive (timely : w.Timely) (silent : ∀ c ∈ new, c.announces = none)
    (connections : w'.connections = w.connections) (connQueue : w'.connQueue = w.connQueue)
    (arrived : w'.cq = w.cq ++ new)
    (openFds : ∀ fd ∈ w.openFds, fd ∈ w'.openFds ∨ (fd ∉ w.waiting ∧ ClosedIn new fd)) :
    w'.Timely := by
  have same : w'.waiting = w.waiting := by
    rw [waiting, waiting, connQueue, arrived, filterMap_append,
      filterMap_eq_nil_iff.mpr silent, append_nil]
  refine ⟨?_, ?_, ?_, ?_⟩
  · rw [same]
    intro fd member
    exact (openFds fd (timely.open' fd member)).resolve_right fun closed => closed.1 member
  · rw [same]
    exact timely.nodup
  · rw [connections, same, arrived]
    intro k o found
    rcases timely.used found with ⟨open', free⟩ | waiting
    · rcases openFds k open' with still | ⟨_, c, member, closes, key⟩
      · exact Or.inl ⟨still, free⟩
      · exact Or.inr ⟨c, mem_append_right _ member, closes, key⟩
    · exact Or.inr waiting.append
  · rw [connections, arrived]
    intro before c after split fd announces o found
    rcases split_append split with ⟨rest, old⟩ | ⟨fresh, _⟩
    · exact timely.order old announces found
    · cases (silent c fresh).symm.trans announces

/-- A descriptor that was not open is handed over. -/
theorem Timely.handOff (timely : w.Timely) (nonneg : 0 ≤ fd) (closed : fd ∉ w.openFds)
    (announced : (w'.cq = w.cq ++ [{ sqe := { flag := .addConn, key := 0, fd := fd }, res := fd }] ∧
      w'.connQueue = w.connQueue) ∨ (w'.cq = w.cq ∧ w'.connQueue = w.connQueue ++ [fd]))
    (openFds : w'.openFds = fd :: w.openFds) (connections : w'.connections = w.connections) :
    w'.Timely := by
  have perm : w'.waiting.Perm (fd :: w.waiting) := by
    rcases announced with ⟨cq, connQueue⟩ | ⟨cq, connQueue⟩
    · have new : Cqe.announces { sqe := { flag := .addConn, key := 0, fd := fd }, res := fd } =
          some fd := if_pos ⟨rfl, nonneg⟩
      rw [waiting, cq, connQueue, filterMap_append, filterMap_cons_some new, append_assoc]
      exact perm_middle
    · rw [waiting, cq, connQueue, ← append_assoc]
      exact perm_append_singleton ..
  have unused : fd ∉ w.waiting := fun member => closed (timely.open' fd member)
  obtain ⟨new, arrived, only⟩ : ∃ new, w'.cq = w.cq ++ new ∧ ∀ c ∈ new, c.res = fd := by
    rcases announced with ⟨cq, _⟩ | ⟨cq, _⟩
    · exact ⟨_, cq, by simp⟩
    · exact ⟨[], by simpa using cq, by simp⟩
  refine ⟨?_, perm.nodup_iff.mpr (nodup_cons.mpr ⟨unused, timely.nodup⟩), ?_, ?_⟩
  · rw [openFds]
    intro k member
    rcases mem_cons.mp (perm.subset member) with rfl | old
    · exact mem_cons_self
    · exact mem_cons_of_mem _ (timely.open' k old)
  · rw [connections, openFds, arrived]
    intro k o found
    rcases timely.used found with ⟨open', free⟩ | waiting
    · refine Or.inl ⟨mem_cons_of_mem _ open', fun member => ?_⟩
      rcases mem_cons.mp (perm.subset member) with rfl | old
      · exact closed open'
      · exact free old
    · exact Or.inr waiting.append
  · rw [connections, arrived]
    intro before c after split fd' announces o found
    rcases split_append split with ⟨rest, old⟩ | ⟨fresh, first, rfl⟩
    · exact timely.order old announces found
    · rw [← (announces_eq_some announces).2.2, only c fresh] at found ⊢
      rcases timely.used found with ⟨open', _⟩ | waiting
      · exact absurd open' closed
      · exact waiting.append

/-! ## Runs -/

/-- A shutdown finds no connection with anything underway, there is a free submission entry for
the second request of a pair if there is one for the first, and a descriptor is taken from the
queue only when no completion of its close waits on the ring. -/
def Prompt (w : Worker) : Label → Prop
  | .turn order chains result => Orderly {} w (.turn order chains result)
  | .event env => env.sqe 0 = true → env.sqe 1 = true
  | .newConn _ => ∀ fd rest, w.connQueue = fd :: rest → ¬ ClosedIn w.cq fd
  | _ => True

instance (cq : List Cqe) (k : Int) : Decidable (ClosedIn cq k) :=
  inferInstanceAs (Decidable (∃ c ∈ cq, c.closes = true ∧ c.sqe.key = k))

instance (w : Worker) : (label : Label) → Decidable (w.Prompt label)
  | .turn order chains result =>
    inferInstanceAs (Decidable (Orderly {} w (.turn order chains result)))
  | .event env => inferInstanceAs (Decidable (env.sqe 0 = true → env.sqe 1 = true))
  | .newConn _ =>
    match first : w.connQueue with
    | [] => isTrue fun _ _ head => nomatch first.symm.trans head
    | fd :: rest => decidable_of_iff (¬ ClosedIn w.cq fd)
        ⟨fun free fd' rest' head => by
          cases first.symm.trans head
          exact free, fun all => all fd rest first⟩
  | .shutdown | .peek | .endBatch | .asyncWrite _ | .complete _ _ _ _ _ | .handOff _ _
  | .taskBegin _ | .taskCall _ _ | .taskEnd _ => isTrue trivial

/-- A consumer handles no accept. -/
theorem Regular.flag_ne_accept (regular : w.Regular rules) (consumer : w.cfg.kind = .consumer)
    (member : c ∈ w.cq) : c.sqe.flag ≠ .accept := by
  intro flag
  rcases regular.completion_cases member (by rw [flag]; decide) with
    ⟨shard, _⟩ | ⟨other, o, found, mine⟩
  · cases consumer.symm.trans shard
  · have mine' : c.sqe ∈ (w.view c.sqe.key o).requests := mem_append_left _ (mem_map_of_mem mine)
    rcases (regular.tidy found other).flags _ mine' with not' | not' | not' <;>
      cases flag.symm.trans not'

/-- What is taken from the ring or from the queue is not registered. -/
theorem Timely.orderly (timely : w.Timely) (regular : w.Regular {})
    (consumer : w.cfg.kind = .consumer) (prompt : w.Prompt label) : Orderly {} w label := by
  cases label with
  | turn order chains result => exact prompt
  | event env =>
    intro c cq first
    have member : c ∈ w.cq := by
      rw [first]
      exact mem_cons_self
    have not' := regular.flag_ne_accept consumer member
    refine ⟨fun _ _ => trivial, ?_, fun _ => prompt, fun _ _ => trivial, fun _ _ => trivial,
      fun flag => absurd flag not', fun _ _ => trivial⟩
    intro flag fine
    have announces : c.announces = some c.res := if_pos ⟨flag.resolve_right not', fine⟩
    cases found : w.connections.lookup c.res with
    | none => rfl
    | some o =>
      obtain ⟨d, member, _⟩ := timely.order (nil_append (c :: cq) ▸ first) announces found
      cases member
  | newConn env =>
    refine ⟨fun _ _ => trivial, fun fd rest first => ?_⟩
    cases found : w.connections.lookup fd with
    | none => rfl
    | some o =>
      rcases timely.used found with ⟨_, free⟩ | waiting
      · refine absurd ?_ free
        rw [waiting, first]
        exact mem_append_right _ mem_cons_self
      · exact absurd waiting (prompt fd rest first)
  | complete chain res nonempty data peer => exact fun _ _ _ _ _ => trivial
  | taskCall i op => trivial
  | shutdown | peek | endBatch | asyncWrite _ | handOff _ _ | taskBegin _ | taskEnd _ => trivial

/-- A close that is underway is the only one of its connection. -/
theorem Regular.not_closedIn (regular : w.Regular rules) (consumer : w.cfg.kind = .consumer)
    (member : q ∈ w.underway) (flag : q.flag = .close) :
    q.fd = q.key ∧ (∃ o, w.connections.lookup q.key = some o) ∧ ¬ ClosedIn w.cq q.key := by
  rcases regular.request_cases member with ⟨shard, _⟩ | ⟨other, o, found, mine⟩
  · cases consumer.symm.trans shard
  · have tidy := regular.tidy found other
    refine ⟨(tidy.own q mine).2.1, ⟨o, found⟩, ?_⟩
    rintro ⟨c, done, closes, key⟩
    have once := tidy.shape.count_close
    have first : Flag.close ∈ ((w.view q.key o).done.map Cqe.sqe).map Sqe.flag := by
      rw [map_map]
      refine mem_map.mpr ⟨c, mem_filter.mpr ⟨done, ?_⟩, (of_decide_eq_true closes).1⟩
      simp [key, (of_decide_eq_true closes).1]
    have second : Flag.close ∈ (w.view q.key o).todo.map Sqe.flag :=
      mem_map.mpr ⟨q, mem_filter.mpr ⟨member, by simp⟩, flag⟩
    rw [View.requests, map_append, count_append] at once
    have := count_pos_iff.mpr first
    have := count_pos_iff.mpr second
    omega

/-- The kernel executes a request. -/
theorem Timely.executed (timely : w.Timely) (regular : w.Regular rules)
    (consumer : w.cfg.kind = .consumer) (member : q ∈ w.underway) {res : Int} {data : List UInt8}
    {w₁ : Worker} (executed : Executed w q res data w₁) {nonempty : Bool} {rest left : List Sqe}
    {cqes : List Cqe} (settles : Settles ⟨q, res, nonempty, data⟩ rest left cqes)
    (others : ∀ q' ∈ rest, q' ∈ w.underway) (arrived : w'.cq = w₁.cq ++ cqes)
    (same : w'.connections = w₁.connections ∧ w'.openFds = w₁.openFds ∧
      w'.connQueue = w₁.connQueue) : w'.Timely := by
  have flags : ∀ q ∈ w.underway, q.flag ≠ .addConn ∧ q.flag ≠ .accept := by
    intro q member
    rcases regular.request_cases member with ⟨shard, _⟩ | ⟨other, o, found, mine⟩
    · cases consumer.symm.trans shard
    · rcases (regular.tidy found other).flags q mine with flag | flag | flag <;>
        rw [flag] <;> decide
  obtain ⟨connections', openFds, connQueue⟩ := same
  obtain ⟨_, _, cq, connections, _⟩ := executed.queues
  rw [cq] at arrived
  refine timely.arrive ?_ (connections'.trans connections) (connQueue.trans ?_) arrived ?_
  · intro c new
    refine if_neg fun announces => ?_
    rcases settles.cases c new with rfl | ⟨q', old, rfl⟩
    · exact (flags q member).1 announces.1
    · exact (flags q' (others q' old)).1 announces.1
  · cases executed <;> rfl
  · rw [openFds]
    intro fd open'
    cases executed with
    | accepted fine flag closed small => exact absurd flag (flags q member).2
    | error _ _ | sendError _ _ _ | received _ _ _ _ | sent _ _ _ _ => exact Or.inl open'
    | closed fine flag =>
      by_cases same : fd = q.fd
      · obtain ⟨own, ⟨o, found⟩, alone⟩ := regular.not_closedIn consumer member flag
        refine Or.inr ⟨?_, ⟨q, res, nonempty, data⟩, settles.mem, ?_, ?_⟩
        · rw [same, own]
          exact ((timely.used found).resolve_right alone).2
        · simp [Cqe.closes, flag, fine]
        · rw [same, own]
      · exact Or.inl (mem_filter.mpr ⟨open', by simpa using same⟩)

/-- Every step keeps the descriptors in time. -/
theorem Timely.step (timely : w.Timely) (regular : w.Regular {}) (consumer : w.cfg.kind = .consumer)
    (stepped : Stepped w label w') : w'.Timely := by
  cases stepped with
  | shutdown | paced _ _ _ | asyncWrite _ _ _ | taskBegin _ | taskCall _ _ | taskEnd _ _ =>
    exact timely.of_same rfl rfl rfl rfl
  | @turn order chains result phase shut top all kept =>
    obtain ⟨_, _, _, _, _, _, _, swept⟩ := shutdownHandler_frame w order
    rw [swept]
    exact timely.of_same rfl rfl rfl rfl
  | @event env left c cq w' phase first handled =>
    obtain ⟨keeps, closed⟩ := Keeps.handled regular consumer first (.events left) handled
    exact timely.event first keeps closed
  | @newConn env fd rest err w' phase first handed =>
    exact timely.newConn first
      (Keeps.handedOver (w := { w with connQueue := rest }) regular.sane.poolBound handed)
  | completed found executed settles =>
    have member := mem_underway_of_getElem? found mem_cons_self
    refine timely.executed regular consumer member executed settles (fun q' behind => ?_) rfl
      ⟨rfl, rfl, rfl⟩
    exact mem_underway_of_getElem? found (mem_cons_of_mem _ behind)
  | handOff _ nonneg small closed announced => exact timely.handOff nonneg closed announced rfl rfl

/-- The entry that `getFd` returns for the descriptor is made by this call, it is not closed and
its buffers are empty. -/
structure StartsFresh (w : Worker) (fd : Int) : Prop where
  absent : w.connections.lookup fd = none
  open' : ((w.getFd fd).2.heap (w.getFd fd).1).closed = false
  vacant : ((w.getFd fd).2.heap (w.getFd fd).1).Vacant

theorem Regular.startsFresh (regular : w.Regular rules) (vacant : w.bufPool.Vacant)
    (absent : w.connections.lookup fd = none) : w.StartsFresh fd := by
  rcases get_cases w regular.sane.poolBound fd fd with ⟨o, found, _⟩ | ⟨o, base, w₁, entered, got⟩
  · rw [absent] at found
    cases found
  · obtain ⟨inbound, outbound, conn⟩ := entered.conn
    refine ⟨absent, ?_, ?_⟩
    · rw [getFd, got, conn]
      exact (entered.invalid regular.toGround).2.1
    · rw [getFd, got]
      exact (get_vacant vacant got).2 absent

/-- In an orderly step `handleNewConn` is called with a descriptor that is not registered. -/
theorem newcomer_unregistered (orderly : Orderly {} w label) {addr : Option NetAddr}
    (newcomer : w.newcomer label = some (fd, addr)) : w.connections.lookup fd = none := by
  cases label with
  | event env =>
    simp only [Worker.newcomer] at newcomer
    split at newcomer
    · rename_i c cq _ first
      obtain ⟨fd', announces, same⟩ := Option.map_eq_some_iff.mp newcomer
      cases same
      obtain ⟨flag, fine, rfl⟩ := announces_eq_some announces
      exact (orderly c cq first).unregistered (Or.inl flag) fine
    · cases newcomer
  | newConn env =>
    simp only [Worker.newcomer] at newcomer
    split at newcomer
    · rename_i fd' rest _ first
      cases newcomer
      exact orderly.2 fd rest first
    · cases newcomer
  | shutdown | turn _ _ _ | peek | endBatch | asyncWrite _ | complete _ _ _ _ _ | handOff _ _
  | taskBegin _ | taskCall _ _ | taskEnd _ => cases newcomer

variable {cfg : Config} {streams : Streams}

/-- In every state of a prompt run, a connection that is handed over next starts fresh. -/
theorem run_startsFresh_of_prompt (tcp : cfg.sendRecvMsg = false) (consumer : cfg.kind = .consumer)
    (started : start cfg streams = some w) {ls : List Label} (ran : run step ls w = some w')
    (along : Along step Prompt ls w) {label : Label} (prompt : w'.Prompt label) {fd : Int}
    {addr : Option NetAddr} (newcomer : w'.newcomer label = some (fd, addr)) :
    w'.StartsFresh fd := by
  have invariant : w'.cfg = cfg ∧ w'.Regular {} ∧ w'.Timely ∧ w'.bufPool.Vacant := by
    have preserved : ∀ s l s', Prompt s l → step s l = some s' →
        s.cfg = cfg ∧ s.Regular {} ∧ s.Timely ∧ s.bufPool.Vacant →
        s'.cfg = cfg ∧ s'.Regular {} ∧ s'.Timely ∧ s'.bufPool.Vacant := by
      rintro s l s' prompt done ⟨rfl, regular, timely, vacant⟩
      have stepped := step_stepped tcp done
      have orderly := timely.orderly regular consumer prompt
      have leads : Leads {} False s s' := regular.step orderly stepped False.elim
      exact ⟨stepped.cfg, leads.1, timely.step regular consumer stepped, stepped.vacant vacant⟩
    refine invariant_of_run preserved ran along
      ⟨start_cfg tcp started, start_regular tcp started, ?_, ?_⟩
    · obtain ⟨_, rfl⟩ | ⟨shard, _⟩ := start_eq tcp started
      · refine ⟨by simp [waiting, init], by simp [waiting, init], ?_, ?_⟩
        · intro k o found
          cases (AList.lookup_empty k).symm.trans found
        · intro before c after split
          cases before <;> cases split
      · cases consumer.symm.trans shard
    · obtain ⟨_, rfl⟩ | ⟨shard, _⟩ := start_eq tcp started
      · simp [BufferPool.Vacant, init, SyncPool.empty]
      · cases consumer.symm.trans shard
  obtain ⟨rfl, regular, timely, vacant⟩ := invariant
  exact regular.startsFresh vacant
    (newcomer_unregistered (timely.orderly regular consumer prompt) newcomer)

/-- After a visit the descriptor is used for another connection. -/
def secondVisit : List Label :=
  visit ++ ([.endBatch, .asyncWrite {}, .handOff 5 8, .turn [] 0 .done, .peek] : List Label)

theorem run_startsFresh_of_prompt_secondVisit :
    ∃ w w', start (plain .consumer) keepNothing = some w ∧ run step secondVisit w = some w' ∧
      w'.newcomer (.event {}) = some (5, some 8) ∧ w'.nextLife = 1 ∧ w'.StartsFresh 5 := by
  obtain ⟨w, w', started, ran, along, newcomer, once⟩ : ∃ w w',
      start (plain .consumer) keepNothing = some w ∧
      run step secondVisit w = some w' ∧ Along step Prompt secondVisit w ∧
      w'.newcomer (.event {}) = some (5, some 8) ∧ w'.nextLife = 1 := exists_run (by decide)
  have prompt : w'.Prompt (.event {}) := fun _ => rfl
  exact ⟨w, w', started, ran, newcomer, once,
    run_startsFresh_of_prompt rfl rfl started ran along prompt newcomer⟩

/-- A connection is closed in `OnAccept`. Before the completion of its close is handled, its
descriptor comes in again through the queue. -/
def queuedAgain : List Label :=
  [.handOff 5 7, .turn [] 0 .done, .peek, .endBatch, .newConn { handler := [.close] }, .newConn {},
    .asyncWrite {}, .turn [] 1 .done, .peek, .endBatch, .complete 0 0 false [] none, .handOff 5 8]

theorem run_not_startsFresh : ∃ w w', start queueing keepNothing = some w ∧
    run step queuedAgain w = some w' ∧ w'.newcomer (.newConn {}) = some (5, some 8) ∧
      ((w'.getFd 5).2.heap (w'.getFd 5).1).closed = true ∧ ¬ w'.StartsFresh 5 := by
  obtain ⟨w, w', started, ran, newcomer, closed⟩ : ∃ w w', start queueing keepNothing = some w ∧
      run step queuedAgain w = some w' ∧ w'.newcomer (.newConn {}) = some (5, some 8) ∧
      ((w'.getFd 5).2.heap (w'.getFd 5).1).closed = true := exists_run (by decide)
  refine ⟨w, w', started, ran, newcomer, closed, fun fresh => ?_⟩
  cases closed.symm.trans fresh.open'

end Worker

end Gain
