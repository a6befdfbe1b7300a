import Gain.Server.Steps

/-! # Starting the engine

A call of `Start` by itself. One that is refused at once changes nothing, and one
that meets no failure serves; every failure in between is returned with the state
left behind, and all but that of the probe with a close goroutine.
-/

namespace Gain

open List Option

namespace Engine

variable {cfg : Config} {e e' : Engine} {c c' : StartCall} {mainProcess : Bool} {address : Text}
  {o : Outcome} {s s' : Engine × StartCall} {err : Error} {outcomes : List Outcome} {e₁ : Engine}
  {c₁ : StartCall}

/-- A call that fails on its way leaves the engine inactive and no close goroutine behind. -/
def LeavesNoTrace (e e' : Engine) (c' : StartCall) : Prop :=
  ∀ err, c'.place = .returned (some err) → err ≠ .serverAlreadyRunning → err ≠ .invalidState →
    e'.state = .inactive ∧ e'.closers = e.closers

/-- The error with which a step of `start` fails. The load balancer is asked for by the
reactor only. -/
def failure (cfg : Config) (s : Engine × StartCall) (o : Outcome) : Option Error :=
  match s.2.place with
  | .probe => o.err.map (.wrapped "getProbe err")
  | .listener => initListener cfg s.1.network o
  | .listeners i => if (i : Int) < cfg.workers then initListener cfg s.1.network o else none
  | .balancer => createLoadBalancer cfg.loadBalancing
  | .acceptor => o.err.map (.wrapped "creating ring error")
  | .shards i | .consumers i =>
    if (i : Int) < cfg.workers then o.err.map (.wrapped "creating ring error") else none
  | _ => none

/-- The errors of the environment are not those of a refused start. -/
def Outcome.Genuine (o : Outcome) : Prop :=
  ∀ err, o.err = some err ∨ o.filter = some err →
    err ≠ .serverAlreadyRunning ∧ err ≠ .invalidState

theorem initListener_eq_none {network : Text} (known : socketKind network ≠ none)
    (err : o.err = none) (filter : o.filter = none) : initListener cfg network o = none := by
  unfold initListener normalize
  split_ifs with filtered
  · exact filter
  · cases kind : socketKind network with
    | none => exact absurd kind known
    | some _ => exact err

/-- A genuine failure is not about the server's state. -/
theorem failure_genuine (genuine : o.Genuine) (fails : failure cfg s o = some err) :
    err ≠ .serverAlreadyRunning ∧ err ≠ .invalidState := by
  have ring : ∀ {text : String}, o.err.map (.wrapped text) = some err →
      err ≠ .serverAlreadyRunning ∧ err ≠ .invalidState := by
    intro text wrapped
    obtain ⟨inner, _, rfl⟩ := map_eq_some_iff.mp wrapped
    exact ⟨nofun, nofun⟩
  have listener : initListener cfg s.1.network o = some err →
      err ≠ .serverAlreadyRunning ∧ err ≠ .invalidState := by
    unfold initListener normalize
    split_ifs
    · exact fun filter => genuine err (Or.inr filter)
    · split
      · exact fun failed => genuine err (Or.inl failed)
      · rintro ⟨⟩
        exact ⟨nofun, nofun⟩
  unfold failure at fails
  split at fails
  · exact ring fails
  · exact listener fails
  · split_ifs at fails
    exact listener fails
  · unfold createLoadBalancer at fails
    split at fails <;> cases fails
    exact ⟨nofun, nofun⟩
  · exact ring fails
  · split_ifs at fails
    exact ring fails
  · split_ifs at fails
    exact ring fails
  · cases fails

/-- A step that fails returns its error and undoes nothing. -/
theorem advance_failure (fails : failure cfg (e, c) o = some err) :
    c.place.midway = true ∧
      advance cfg (e, c) o = some (e, { c with place := .returned (some err) }) := by
  unfold advance
  unfold failure at fails
  cases place : c.place with
  | probe | acceptor =>
    simp only [place] at fails ⊢
    obtain ⟨inner, failed, rfl⟩ := map_eq_some_iff.mp fails
    rw [failed]
    exact ⟨rfl, rfl⟩
  | listener | balancer =>
    simp only [place] at fails ⊢
    rw [fails]
    exact ⟨rfl, rfl⟩
  | listeners i =>
    simp only [place] at fails ⊢
    split_ifs at fails with more
    rw [if_pos more, fails]
    exact ⟨rfl, rfl⟩
  | shards i | consumers i =>
    simp only [place] at fails ⊢
    split_ifs at fails with more
    obtain ⟨inner, failed, rfl⟩ := map_eq_some_iff.mp fails
    rw [if_pos more, failed]
    exact ⟨rfl, rfl⟩
  | isRunning | load | store | notify | spawn | parse | closer | launch | running | serving
  | returned _ => simp only [place, reduceCtorEq] at fails

/-- A step that does not fail returns an error only by refusing the start. -/
theorem advance_unfailing (fine : failure cfg (e, c) o = none)
    (moved : advance cfg (e, c) o = some s') (returned : s'.2.place = .returned (some err)) :
    err = .serverAlreadyRunning ∨ err = .invalidState := by
  unfold failure at fine
  unfold advance at moved
  cases place : c.place with
  | isRunning | load =>
    simp only [place] at moved
    split_ifs at moved <;> cases moved <;> cases returned
    · first | exact Or.inl rfl | exact Or.inr rfl
  | probe | acceptor =>
    simp only [place, map_eq_none_iff] at fine
    simp only [place, fine] at moved
    cases moved
    cases returned
  | listener | balancer =>
    simp only [place] at fine
    simp only [place, fine] at moved
    cases moved
    cases returned
  | listeners i =>
    simp only [place] at fine moved
    split_ifs at fine moved
    · rw [fine] at moved
      cases moved
      cases returned
    · cases moved
      cases returned
  | shards i | consumers i =>
    simp only [place, ite_eq_right_iff, map_eq_none_iff] at fine
    simp only [place] at moved
    split_ifs at moved with more
    · rw [fine more] at moved
      cases moved
      cases returned
    · cases moved
      cases returned
  | notify | parse =>
    simp only [place] at moved
    split_ifs at moved <;> cases moved <;> cases returned
  | store | spawn | closer | launch | running | serving =>
    simp only [place] at moved
    cases moved
    cases returned
  | returned _ => simp only [place, reduceCtorEq] at moved

/-- A start that is between its two stores has left the engine starting. -/
def Starting (s : Engine × StartCall) : Prop := s.2.place.midway = true → s.1.state = .starting

theorem Starting.advance (starting : Starting s) (moved : advance cfg s o = some s') :
    Starting s' := by
  obtain ⟨e₁, c₁⟩ := s
  obtain ⟨e₂, c₂⟩ := s'
  cases advance_advanced moved with
  | outside _ after _ =>
    intro mid
    rw [show (_ : StartAt).midway = false from after] at mid
    cases mid
  | begins _ => exact fun _ => rfl
  | works before _ _ _ => exact fun _ => starting before
  | closer place => exact fun _ => starting (by rw [show c₁.place = _ from place]; rfl)
  | running _ => exact nofun

/-- Once a start that is on its way fails, nothing restores the state. -/
theorem unfailing_of_leavesNoTrace (genuine : ∀ o ∈ outcomes, o.Genuine)
    (starting : Starting (e₁, c₁)) (ran : run (advance cfg) outcomes (e₁, c₁) = some (e', c'))
    (clean : LeavesNoTrace e e' c') :
    Along (advance cfg) (fun s o => failure cfg s o = none) outcomes (e₁, c₁) := by
  induction outcomes generalizing e₁ c₁ with
  | nil => trivial
  | cons o outcomes ih =>
    obtain ⟨⟨e₂, c₂⟩, moved, rest⟩ := bind_eq_some_iff.mp ran
    have later := ih (fun o member => genuine o (mem_cons_of_mem _ member))
      (starting.advance moved) rest
    refine ⟨?_, fun s' moved' => ?_⟩
    · by_contra failed
      obtain ⟨err, fails⟩ := ne_none_iff_exists'.mp failed
      obtain ⟨mid, stopped⟩ := advance_failure fails
      cases stopped.symm.trans moved
      -- A call that has returned makes no step.
      cases outcomes with
      | cons o' outcomes => cases rest
      | nil =>
        cases rest
        obtain ⟨running, invalid⟩ := failure_genuine (genuine o mem_cons_self) fails
        have inactive := (clean err rfl running invalid).1
        cases (starting mid).symm.trans inactive
    · cases moved.symm.trans moved'
      exact later

/-- A start that meets no failure returns an error only when it is refused. -/
theorem leavesNoTrace_of_unfailing (begun : ∀ err, c₁.place ≠ .returned (some err))
    (ran : run (advance cfg) outcomes (e₁, c₁) = some (e', c'))
    (along : Along (advance cfg) (fun s o => failure cfg s o = none) outcomes (e₁, c₁)) :
    LeavesNoTrace e e' c' := by
  have preserved : ∀ (s : Engine × StartCall) (o : Outcome) s', failure cfg s o = none →
      advance cfg s o = some s' →
      (∀ err, s.2.place = .returned (some err) →
        err = .serverAlreadyRunning ∨ err = .invalidState) →
      ∀ err, s'.2.place = .returned (some err) →
        err = .serverAlreadyRunning ∨ err = .invalidState :=
    fun s o s' fine moved _ err place => advance_unfailing fine moved place
  have refused := invariant_of_run preserved ran along fun err place => absurd place (begun err)
  intro err place running invalid
  rcases refused err place with same | same
  · exact absurd same running
  · exact absurd same invalid

/-! ## A start that serves -/

/-- The call comes to a goal when nothing fails from here on. -/
def Reaches (cfg : Config) (goal : Engine × StartCall → Prop) (s : Engine × StartCall) : Prop :=
  ∃ n s', run (advance cfg) (List.replicate n {}) s = some s' ∧ goal s'

section Reaches

variable {goal : Engine × StartCall → Prop}

theorem Reaches.here (reached : goal s) : Reaches cfg goal s :=
  ⟨0, s, rfl, reached⟩

theorem Reaches.step (moved : advance cfg s {} = some s') (reaches : Reaches cfg goal s') :
    Reaches cfg goal s := by
  obtain ⟨n, s₁, ran, reached⟩ := reaches
  refine ⟨n + 1, s₁, ?_, reached⟩
  rw [replicate_succ, run, moved]
  exact ran

/-- The loops of `start` come to their ends. -/
theorem Reaches.loop {place : Nat → StartAt} {next : StartAt}
    (again : ∀ i : Nat, (i : Int) < cfg.workers →
      advance cfg (e, { c with place := place i }) {} = some (e, { c with place := place (i + 1) }))
    (done : ∀ i : Nat, ¬ (i : Int) < cfg.workers →
      advance cfg (e, { c with place := place i }) {} = some (e, { c with place := next }))
    (reaches : Reaches cfg goal (e, { c with place := next })) (i left : Nat)
    (bound : cfg.workers ≤ i + left) : Reaches cfg goal (e, { c with place := place i }) := by
  induction left generalizing i with
  | zero => exact .step (done i (by omega)) reaches
  | succ left ih =>
    by_cases more : (i : Int) < cfg.workers
    · exact .step (again i more) (ih (i + 1) (by omega))
    · exact .step (done i more) reaches

/-- The listeners of the shards are opened. -/
theorem Reaches.listeners (known : socketKind e.network ≠ none)
    (reaches : Reaches cfg goal (e, { c with place := .shards 0 })) :
    Reaches cfg goal (e, { c with place := .listeners 0 }) := by
  have opened : initListener cfg e.network {} = none := initListener_eq_none known rfl rfl
  refine .loop (fun i more => ?_) (fun i less => ?_) reaches 0 cfg.workers.toNat (by omega)
  · simp only [advance, if_pos more, opened]
  · simp only [advance, if_neg less]

/-- The listener of the reactor is opened. -/
theorem Reaches.listener (known : socketKind e.network ≠ none)
    (reaches : Reaches cfg goal (e, { c with place := .balancer })) :
    Reaches cfg goal (e, { c with place := .listener }) := by
  have opened : initListener cfg e.network {} = none := initListener_eq_none known rfl rfl
  refine .step ?_ reaches
  simp only [advance, opened]

/-- A start of an inactive engine comes to parse its address. -/
theorem Reaches.parse (inactive : e.state = .inactive)
    (reaches : ∀ e run, Reaches cfg goal (e, ⟨mainProcess, address, .parse, run⟩)) :
    Reaches cfg goal (e, { mainProcess := mainProcess, address := address }) := by
  have notify : ∀ (e : Engine) (run : Nat),
      Reaches cfg goal (e, ⟨mainProcess, address, .notify, run⟩) := by
    intro e run
    cases mainProcess with
    | true | false => exact .step rfl (.step rfl (reaches _ run))
  have store : Reaches cfg goal (e, ⟨mainProcess, address, .store, 0⟩) :=
    .step rfl (.step rfl (notify _ e.runs))
  have load : Reaches cfg goal (e, ⟨mainProcess, address, .load, 0⟩) := by
    refine .step ?_ store
    simp [advance, inactive]
  refine .step ?_ load
  simp [advance, inactive]

end Reaches

/-- The call serves. -/
def Serving (s : Engine × StartCall) : Prop := s.2.place = .serving ∧ s.1.state = .running

theorem reaches_closer (e : Engine) (c : StartCall) :
    Reaches cfg Serving (e, { c with place := .closer }) :=
  ⟨3, _, rfl, rfl, rfl⟩

theorem reaches_shards (e : Engine) (c : StartCall) :
    Reaches cfg Serving (e, { c with place := .shards 0 }) := by
  refine .loop (fun i more => ?_) (fun i less => ?_) (reaches_closer e c) 0 cfg.workers.toNat
    (by omega)
  · simp only [advance, if_pos more]
  · simp only [advance, if_neg less]

theorem reaches_balancer (balancer : createLoadBalancer cfg.loadBalancing = none) (e : Engine)
    (c : StartCall) : Reaches cfg Serving (e, { c with place := .balancer }) := by
  have consumers : Reaches cfg Serving (e, { c with place := .consumers 0 }) := by
    refine .loop (fun i more => ?_) (fun i less => ?_) (reaches_closer e c) 0 cfg.workers.toNat
      (by omega)
    · simp only [advance, if_pos more]
    · simp only [advance, if_neg less]
  have acceptor : Reaches cfg Serving (e, { c with place := .acceptor }) := .step rfl consumers
  refine .step ?_ acceptor
  simp only [advance, balancer]

/-- A start of an inactive engine that meets no failure serves. -/
theorem reaches_serving (inactive : e.state = .inactive)
    (known : socketKind (parseProtoAddr address).1 ≠ none)
    (asked : if cfg.architecture = .socketSharding ∨ (parseProtoAddr address).1 = udp
      then 0 ≤ cfg.workers else createLoadBalancer cfg.loadBalancing = none) :
    Reaches cfg Serving (e, { mainProcess := mainProcess, address := address }) := by
  refine Reaches.parse inactive fun e run => ?_
  by_cases sharding : cfg.architecture = .socketSharding ∨ (parseProtoAddr address).1 = udp
  · rw [if_pos sharding] at asked
    refine .step ?_ (.listeners (e := { e with
      network := (parseProtoAddr address).1, address := (parseProtoAddr address).2 })
      (c := ⟨mainProcess, address, .parse, run⟩) known (reaches_shards _ _))
    simp only [advance, if_pos sharding, if_neg (Int.not_lt.mpr asked)]
  · rw [if_neg sharding] at asked
    refine .step ?_ (.listener (e := { e with
      network := (parseProtoAddr address).1, address := (parseProtoAddr address).2 })
      (c := ⟨mainProcess, address, .parse, run⟩) known (reaches_balancer asked _ _))
    simp only [advance, if_neg sharding]

/-! ## Failing starts -/

/-- A start leaves no trace exactly if nothing it asks for fails. On an inactive engine it serves
if the network is known and so is the load balancing that the reactor asks for. -/
theorem start_leavesNoTrace_iff_unfailing {outcomes : List Outcome}
    (genuine : ∀ o ∈ outcomes, o.Genuine)
    (ran : run (advance cfg) outcomes (e, { mainProcess := mainProcess, address := address }) =
      some (e', c')) :
    (LeavesNoTrace e e' c' ↔ Along (advance cfg) (fun s o => failure cfg s o = none) outcomes
      (e, { mainProcess := mainProcess, address := address })) ∧
    (e.state = .inactive → socketKind (parseProtoAddr address).1 ≠ none →
      (if cfg.architecture = .socketSharding ∨ (parseProtoAddr address).1 = udp
        then 0 ≤ cfg.workers else createLoadBalancer cfg.loadBalancing = none) →
      Reaches cfg Serving (e, { mainProcess := mainProcess, address := address })) := by
  refine ⟨⟨unfailing_of_leavesNoTrace genuine nofun ran, ?_⟩, reaches_serving⟩
  exact leavesNoTrace_of_unfailing nofun ran

/-- Shards are started although the load balancing is unknown. -/
theorem start_leavesNoTrace_iff_unfailing_sharding :
    ∃ e' c', run (advance ⟨.socketSharding, 1, false, .other 7⟩) (List.replicate 14 {})
        ({}, { mainProcess := false, address := tcp }) = some (e', c') ∧
      c'.place = .serving ∧ LeavesNoTrace {} e' c' ∧
      Reaches ⟨.socketSharding, 1, false, .other 7⟩ Serving
        ({}, { mainProcess := false, address := tcp }) := by
  have genuine : ∀ o ∈ List.replicate 14 ({} : Outcome), o.Genuine := by
    intro o member err failed
    rw [eq_of_mem_replicate member] at failed
    rcases failed with failed | failed <;> cases failed
  have started : ∃ e' c', run (advance ⟨.socketSharding, 1, false, .other 7⟩)
      (List.replicate 14 {}) ({}, { mainProcess := false, address := tcp }) = some (e', c') ∧
      c'.place = .serving := ⟨_, _, rfl, rfl⟩
  obtain ⟨e', c', ran, serving⟩ := started
  obtain ⟨clean, serves⟩ := start_leavesNoTrace_iff_unfailing genuine ran
  exact ⟨e', c', ran, serving, clean.mpr (by decide), serves rfl (by decide) (by decide)⟩

/-- The port is in use: the engine stays in its starting state and the close goroutine waits
for a signal. -/
theorem start_leaves_trace : ∃ e' c',
    run (advance { workers := 1 }) [{}, {}, {}, {}, {}, {}, {}, { err := some (.external 98) }]
        ({}, ⟨false, tcp, .isRunning, 0⟩) = some (e', c') ∧
      c'.place = .returned (some (.external 98)) ∧ ¬ LeavesNoTrace {} e' c' ∧
      (∃ e'' c'', run (advance { workers := 1 }) [{}, {}] (e', ⟨false, tcp, .isRunning, 0⟩) =
        some (e'', c'') ∧ c''.place = .returned (some .invalidState)) ∧
      e'.closers = [.receiving] := by
  refine ⟨_, _, rfl, rfl, fun clean => ?_, ⟨_, _, rfl, rfl⟩, rfl⟩
  have inactive := (clean _ rfl nofun nofun).1
  cases inactive

end Engine

end Gain
