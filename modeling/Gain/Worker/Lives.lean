import Gain.Worker.Interleaving

/-! # The lives of connections in an orderly run

A property of single connections that their moves preserve holds of every
connection in every state of an orderly run, and what it says of a connection at
its end holds of every life that is over.
-/

namespace Gain

open Function List

/-- A property of connections, and one of the histories they leave behind. -/
structure Lasting (cfg : Config) (rules : Rules) (exact' : Prop) (current : Int → View → Prop)
    (past : History → Prop) : Prop where
  born : ∀ {k v}, View.Born cfg rules exact' k v → current k v
  move : ∀ {k v v'}, v.Tidy k → current k v → View.Move cfg rules exact' v v' → current k v'
  ends : ∀ {k v h}, v.Tidy k → current k v → View.Ends cfg rules v h → past h
  unheard : ∀ {h}, rules.Unheard h → past h

namespace Worker

variable {w w₁ w' : Worker} {rules : Rules} {exact' : Prop} {current : Int → View → Prop}
  {past : History → Prop} {cfg : Config} {streams : Streams} {ls : List Label}

/-- All connections have the one property, and all lives that are over the other. -/
structure Lives (current : Int → View → Prop) (past : History → Prop) (w : Worker) : Prop where
  current : ∀ {k o}, k ≠ w.cfg.listener → w.connections.lookup k = some o →
    current k (w.view k o)
  past : ∀ life < w.nextLife, (∀ k o, w.connections.lookup k = some o →
    (w.heap o).life ≠ life) → past (w.histories life)
  listener : ∀ o, w.connections.lookup w.cfg.listener = some o →
    (w.histories (w.heap o).life).Silent

/-- A life is that of a connection or of the listener, or it is over. -/
theorem Lives.cases (lives : Lives current past w) {life : Nat} (lt : life < w.nextLife) :
    (∃ k o, k ≠ w.cfg.listener ∧ w.connections.lookup k = some o ∧ (w.heap o).life = life ∧
      current k (w.view k o)) ∨ (w.histories life).Silent ∨ past (w.histories life) := by
  by_cases registered : ∃ k o, w.connections.lookup k = some o ∧ (w.heap o).life = life
  · obtain ⟨k, o, found, rfl⟩ := registered
    by_cases other : k = w.cfg.listener
    · subst other
      exact Or.inr (Or.inl (lives.listener o found))
    · exact Or.inl ⟨k, o, other, found, rfl, lives.current other found⟩
  · apply Or.inr ∘ Or.inr
    exact lives.past life lt fun k o found same => registered ⟨k, o, found, same⟩

/-- What lasts is kept by every evolution. -/
theorem Lives.evolution (lives : Lives current past w)
    (lasting : Lasting w.cfg rules exact' current past) (tcp : w.cfg.sendRecvMsg = false)
    (tidy : ∀ {k o}, k ≠ w.cfg.listener → w.connections.lookup k = some o → (w.view k o).Tidy k)
    (evolution : Evolution rules exact' w w') : Lives current past w' := by
  refine ⟨?_, ?_, ?_⟩
  · intro k o other found
    rw [evolution.cfg] at other
    cases evolution.slot other with
    | absent before after =>
      rw [found] at after
      cases after
    | kept before after same =>
      rw [found] at after
      cases after
      rw [same]
      exact lives.current other before
    | moved before after move =>
      rw [found] at after
      cases after
      exact lasting.move (tidy other before) (lives.current other before) move
    | born before after born =>
      rw [found] at after
      cases after
      exact lasting.born born
    | ended before after ends =>
      rw [found] at after
      cases after
  · intro life lt ceased
    by_cases old : life < w.nextLife
    · by_cases registered : ∃ k o, w.connections.lookup k = some o ∧ (w.heap o).life = life
      · obtain ⟨k, o, found, rfl⟩ := registered
        by_cases other : k = w.cfg.listener
        · subst other
          exact lasting.unheard (evolution.listener o found (lives.listener o found))
        · cases evolution.slot other with
          | absent before after =>
            rw [found] at before
            cases before
          | kept before after same =>
            rw [found] at before
            cases before
            exact absurd (congrArg (fun v => v.conn.life) same) (ceased k o after)
          | moved before after move =>
            rw [found] at before
            cases before
            exact absurd (move.identity tcp).2 (ceased k o after)
          | born before after born =>
            rw [found] at before
            cases before
          | ended before after ends =>
            rw [found] at before
            cases before
            exact lasting.ends (tidy other found) (lives.current other found) ends
      · have none' : ∀ k o, w.connections.lookup k = some o → (w.heap o).life ≠ life :=
          fun k o found same => registered ⟨k, o, found, same⟩
        rw [evolution.past life old none']
        exact lives.past life old none'
    · rcases evolution.newborn life (not_lt.mp old) lt with ⟨k, o, _, found, same⟩ | unheard
      · exact absurd same (ceased k o found)
      · exact lasting.unheard unheard
  · intro o found
    rw [evolution.cfg] at found
    exact evolution.silent o found lives.listener

theorem Lives.leads (lives : Lives current past w)
    (lasting : Lasting w.cfg rules exact' current past)
    (regular : w.Regular rules) (leads : Leads rules exact' w w') : Lives current past w' := by
  replace leads := leads.2
  have all : w'.cfg = w.cfg ∧ w'.Regular rules ∧ Lives current past w' := by
    induction leads with
    | refl => exact ⟨rfl, regular, lives⟩
    | @tail w₁ w₂ _ step ih =>
      obtain ⟨same, regular, lives⟩ := ih
      rw [← same] at lasting
      refine ⟨step.2.cfg.trans same, step.1, lives.evolution lasting regular.sane.tcp ?_ step.2⟩
      exact fun other found => regular.tidy found other
  exact all.2.2

/-! ## The start -/

/-- A new worker is regular. -/
theorem init_regular (tcp : cfg.sendRecvMsg = false) (consumer : cfg.kind = .consumer) :
    (init cfg streams).Regular rules := by
  have nothing : ∀ {k : Int} {o : Nat}, ¬ (init cfg streams).connections.lookup k = some o := by
    intro k o found
    rw [init, AList.lookup_empty] at found
    cases found
  refine ⟨⟨init_sane tcp streams, fun fd => id, by simp [init], by simp [init],
    List.Pairwise.nil, by simp [init, SyncPool.empty]⟩, fun found => absurd found nothing,
    fun found => absurd found nothing, fun _ _ => ⟨rfl, rfl⟩, fun _ => ⟨rfl, rfl⟩, ?_,
    fun _ => ⟨AList.lookup_empty _, rfl, rfl⟩, fun found => absurd found nothing, ?_⟩
  · exact ⟨by simp [todo, underway, init], by simp [completed, init]⟩
  · intro _ shard
    rw [show (init cfg streams).cfg.kind = cfg.kind from rfl, consumer] at shard
    cases shard

/-- The state in which the loop of a shard starts. -/
theorem rearmed_init_regular (tcp : cfg.sendRecvMsg = false) (shard : cfg.kind = .shard) {o : Nat}
    (rearmed : Rearmed (init cfg streams) o w) : w.Regular rules := by
  have sane := ((init_sane tcp streams).rearmed rearmed).1
  have found := ((init_sane tcp streams).rearmed rearmed).2.1
  have same : w.cfg = cfg := rearmed.cfg
  obtain ⟨base, w₁, entered, rfl⟩ := rearmed_init rearmed
  obtain ⟨inbound, outbound, conn⟩ := entered.conn
  have only : ∀ {k i}, w₁.connections.lookup k = some i → k = cfg.listener := by
    intro k i found
    by_contra ne
    rw [entered.lookup_ne ne] at found
    cases (AList.lookup_empty k).symm.trans found
  have items : w₁.connPool.items = [] :=
    eq_nil_iff_forall_not_mem.mpr fun i member => by
      cases ((init_sane tcp streams).prepareAccept.pool_sub entered.toTaken).2.2 i member
  have fields : w₁.openFds = [0, 1, 2, cfg.listener] ∧ w₁.connQueue = [] ∧ w₁.cq = [] ∧
      w₁.inflight = [] ∧ w₁.sq =
        [[{ flag := .accept, key := cfg.listener, fd := cfg.listener }]] ∧ w₁.tasks = [] ∧
      w₁.asyncOpQueue = [] ∧ w₁.cfg = cfg := by
    rw [entered.frame]
    exact ⟨rfl, rfl, rfl, rfl, rfl, rfl, rfl, rfl⟩
  obtain ⟨openFds, connQueue, cq, inflight, sq, tasks, queue, cfg'⟩ := fields
  have heap : (w₁.setConn o { w₁.heap o with state := .accept }).heap o =
      { w₁.heap o with state := .accept } := update_self ..
  have underway' : (w₁.setConn o { w₁.heap o with state := .accept }).underway =
      [{ flag := .accept, key := cfg.listener, fd := cfg.listener }] := by
    change (w₁.inflight ++ w₁.sq).flatten = _
    rw [inflight, sq]
    rfl
  have held : ∀ i, (w₁.setConn o { w₁.heap o with state := .accept }).tasksOf i = [] ∧
      (w₁.setConn o { w₁.heap o with state := .accept }).asyncOpQueue.count i = 0 := by
    intro i
    change (w₁.tasks.filter _ = [] ∧ w₁.asyncOpQueue.count i = 0)
    rw [tasks, queue]
    exact ⟨rfl, rfl⟩
  have completed' : ∀ k, (w₁.setConn o { w₁.heap o with state := .accept }).completed k = [] := by
    intro k
    change w₁.cq.filter _ = []
    rw [cq]
    rfl
  refine ⟨⟨sane, ?_, ?_, ?_, ?_, ?_⟩, ?_, ?_, ?_, fun _ => held _, ?_, ?_, ?_, ?_⟩
  · change ∀ fd ∈ [0, 1, 2, w₁.cfg.listener], fd ∈ w₁.openFds
    rw [openFds, cfg']
    exact fun fd => id
  · change ∀ fd ∈ w₁.connQueue, _
    rw [connQueue]
    exact fun fd member => nomatch member
  · change ∀ c ∈ w₁.cq, _
    rw [cq]
    exact fun c member => nomatch member
  · change Chains.Solo w₁.cfg.listener (w₁.inflight ++ w₁.sq)
    rw [inflight, sq]
    exact pairwise_singleton ..
  · change ∀ i ∈ w₁.connPool.items, _
    rw [items]
    exact fun i member => nomatch member
  · intro k i found other
    rw [same] at other
    exact absurd (only found) other
  · intro k i found other
    rw [same] at other
    exact absurd (only found) other
  · intro k _ other
    rw [same] at other
    refine ⟨?_, completed' k⟩
    rw [todo, underway', filter_cons_of_neg (by simpa using other.symm)]
    rfl
  · refine ⟨?_, ?_⟩
    · intro q member
      rw [todo, underway'] at member
      rw [mem_singleton.mp (mem_filter.mp member).1]
    · intro c member
      rw [completed'] at member
      cases member
  · intro consumer
    rw [same, shard] at consumer
    cases consumer
  · intro i registered
    rw [same] at registered ⊢
    have whose : i = o := by
      rw [show (w₁.setConn o _).connections.lookup cfg.listener = some o from found] at registered
      cases registered
      rfl
    subst whose
    refine ⟨?_, ?_, held _⟩
    · rw [heap]
    · rw [heap, conn]
  · intro _ _
    rw [same]
    exact ⟨o, found⟩

theorem start_regular (tcp : cfg.sendRecvMsg = false) (started : start cfg streams = some w) :
    w.Regular rules := by
  rcases start_eq tcp started with ⟨consumer, rfl⟩ | ⟨shard, o, w₁, rearmed, rfl⟩
  · exact init_regular tcp consumer
  · have regular : w₁.Regular rules := rearmed_init_regular tcp shard rearmed
    have accepting : Leads rules True w₁ { w₁ with accepting := true } := .loop regular rfl
    exact accepting.1

/-- No life is over at the start. -/
theorem start_lives (tcp : cfg.sendRecvMsg = false) (started : start cfg streams = some w) :
    Lives current past w := by
  rcases start_eq tcp started with ⟨_, rfl⟩ | ⟨shard, o, w₁, rearmed, rfl⟩
  · have nothing : ∀ {k : Int} {o : Nat}, ¬ (init cfg streams).connections.lookup k = some o := by
      intro k o found
      rw [init, AList.lookup_empty] at found
      cases found
    exact ⟨fun _ found => absurd found nothing, fun life lt => absurd lt (Nat.not_lt_zero life),
      fun _ found => absurd found nothing⟩
  · have same : w₁.cfg = cfg := rearmed.cfg
    obtain ⟨base, w₂, entered, rfl⟩ := rearmed_init rearmed
    have life : ((w₂.setConn o { w₂.heap o with state := .accept }).heap o).life = 0 := by
      change (update w₂.heap o _ o).life = 0
      rw [update_self]
      exact entered.life
    have fields : w₂.nextLife = 1 ∧ w₂.histories = fun _ => {} := by
      rw [entered.frame]
      exact ⟨rfl, rfl⟩
    have found : w₂.connections.lookup cfg.listener = some o := entered.lookup_self
    refine ⟨?_, ?_, ?_⟩
    · intro k i other registered
      change w₂.connections.lookup k = some i at registered
      rw [show (w₂.setConn o _).cfg = cfg from same] at other
      rw [entered.lookup_ne other] at registered
      cases (AList.lookup_empty k).symm.trans registered
    · intro l lt ceased
      change l < w₂.nextLife at lt
      rw [fields.1] at lt
      obtain rfl : l = 0 := by omega
      exact absurd life (ceased cfg.listener o found)
    · intro i _
      change (w₂.histories _).Silent
      rw [fields.2]
      exact ⟨rfl, rfl, rfl⟩

/-! ## Runs -/

/-- An orderly run keeps a worker regular. -/
theorem run_regular (tcp : cfg.sendRecvMsg = false) (started : start cfg streams = some w)
    (ran : run step ls w = some w') (along : Along step (Orderly rules) ls w) :
    w'.Regular rules := by
  refine invariant_of_run (fun s l s' orderly done regular => ?_) ran along
    (start_regular tcp started)
  have leads : Leads rules False s s' :=
    regular.step orderly (step_stepped regular.sane.tcp done) False.elim
  exact leads.1

/-- A lasting property holds of all connections of an orderly run. -/
theorem run_lives (lasting : Lasting cfg rules False current past) (tcp : cfg.sendRecvMsg = false)
    (started : start cfg streams = some w) (ran : run step ls w = some w')
    (along : Along step (Orderly rules) ls w) : Lives current past w' := by
  have invariant : w'.cfg = cfg ∧ w'.Regular rules ∧ Lives current past w' := by
    have preserved : ∀ s l s', Orderly rules s l → step s l = some s' →
        s.cfg = cfg ∧ s.Regular rules ∧ Lives current past s →
        s'.cfg = cfg ∧ s'.Regular rules ∧ Lives current past s' := by
      rintro s l s' orderly stepped ⟨rfl, regular, lives⟩
      have moved := step_stepped tcp stepped
      have leads := regular.step orderly moved False.elim
      exact ⟨moved.cfg, leads.1, lives.leads lasting regular leads⟩
    exact invariant_of_run preserved ran along
      ⟨start_cfg tcp started, start_regular tcp started, start_lives tcp started⟩
  exact invariant.2.2

/-- The same, where the memory pool answers every request with the size asked for. -/
theorem run_lives_exact (lasting : Lasting cfg rules True current past)
    (tcp : cfg.sendRecvMsg = false) (started : start cfg streams = some w)
    (ran : run step ls w = some w') (along : Along step (Orderly rules) ls w)
    (throughout : Throughout step Worker.Exact ls w) : Lives current past w' := by
  have invariant : w'.cfg = cfg ∧ w'.Regular rules ∧ Lives current past w' := by
    have preserved : ∀ s l s', Orderly rules s l → s.Exact → s'.Exact → step s l = some s' →
        s.cfg = cfg ∧ s.Regular rules ∧ Lives current past s →
        s'.cfg = cfg ∧ s'.Regular rules ∧ Lives current past s' := by
      rintro s l s' orderly _ sized stepped ⟨rfl, regular, lives⟩
      have moved := step_stepped tcp stepped
      have leads : Leads rules True s s' := regular.step orderly moved fun _ => sized
      exact ⟨moved.cfg, leads.1, lives.leads lasting regular leads⟩
    exact invariant_of_run_throughout preserved ran along throughout
      ⟨start_cfg tcp started, start_regular tcp started, start_lives tcp started⟩
  exact invariant.2.2

end Worker

end Gain
