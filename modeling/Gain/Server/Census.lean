import Mathlib.Algebra.BigOperators.Ring.Finset
import Gain.Server.Launch
import Gain.Worker.Census

/-! # The active connections of a server

The workers of a server run side by side, each in the loop of its goroutine, and
`ActiveConnections` adds up what those in the table of workers report. A worker whose
loop returns an error is taken off the table, and its connections are not counted any
more. While the workers are orderly and none of them fails, the number reported is that
of the connections that have been announced to the handler and not closed. A shard that
loses the entry of its listener reports one connection too few.
-/

namespace Gain

open Function Option

/-- The goroutines of a server, and for each loop the worker from its `prepareHandler` on. -/
structure Server where
  launch : Launch
  workers : Nat → Worker

namespace Server

inductive Label where
  /-- `Start`, or a goroutine outside its loop. -/
  | launch (label : Launch.Label)
  /-- A worker in its loop, or something that happens to the worker. -/
  | worker (i : Nat) (label : Gain.Label)

/-- The step is one of the loop of a worker. -/
def ofLoop : Gain.Label → Bool
  | .turn .. | .peek | .event _ | .endBatch | .newConn _ | .asyncWrite _ => true
  | .shutdown | .complete .. | .handOff .. | .taskBegin _ | .taskCall .. | .taskEnd _ => false

/-- Whether the loop returns with this step, and then whether with an error. -/
def returns (label : Gain.Label) (w : Worker) : Option Bool :=
  match label with
  | .turn .. | .event _ => if w.phase = .stopped then some true else none
  | .asyncWrite _ => if w.phase = .stopped then some false else none
  | _ => none

/-- The goroutine of a worker, which goes on with `handleWorkerStop` when its loop has returned
an error. -/
def leave (l : Launch) (i : Nat) : Option Bool → Option Launch
  | none => some l
  | some fails => l.step (.loop (some i) fails)

def step (s : Server) : Label → Option Server
  | .launch label =>
    match label with
    | .loop (some i) _ =>
      if s.launch.loops (some i) = .innerLoop then none
      else (s.launch.step label).map fun launch => { s with launch }
    | _ => (s.launch.step label).map fun launch => { s with launch }
  | .worker i label =>
    if ofLoop label = true ∧ s.launch.loops (some i) ≠ .innerLoop then none
    else do
      let w ← (s.workers i).step label
      let launch ← leave s.launch i (returns label w)
      return { launch, workers := update s.workers i w }

/-- `ActiveConnections` -/
def activeConnections (s : Server) : Int :=
  (s.launch.readWriteWorkers.map fun i => (s.workers i).activeConnections).sum

/-- The connections of these workers for which `OnAccept` has been fired and `OnClose` has not. -/
def currentConnections (s : Server) (workers : List Nat) : Nat :=
  (workers.map fun i => (s.workers i).currentLives.length).sum

/-- The steps of the workers are orderly, and no loop returns an error. -/
def Orderly (s : Server) : Label → Prop
  | .launch (.loop _ fails) => fails = false
  | .launch .start => True
  | .worker i label => Worker.Orderly .welcoming (s.workers i) label ∧
      ((s.workers i).step label).bind (returns label) ≠ some true

instance (s : Server) : (label : Label) → Decidable (s.Orderly label)
  | .launch (.loop _ fails) => inferInstanceAs (Decidable (fails = false))
  | .launch .start => isTrue trivial
  | .worker i label => inferInstanceAs (Decidable (Worker.Orderly .welcoming (s.workers i) label ∧
      ((s.workers i).step label).bind (returns label) ≠ some true))

/-- The loop has returned an error, and its worker is to be taken off the table. -/
def stopping : Launch.Loop → Bool
  | .workerStop _ | .delete _ => true
  | _ => false

/-- No worker is taken off the table. -/
structure Manned (order : List Nat) (l : Launch) : Prop where
  table : l.readWriteWorkers = order
  alive : ∀ x, stopping (l.loops x) = false

variable {order : List Nat} {l l' : Launch} {s s' : Server} {place : Launch.Loop}

/-- A loop that does not fail does not stop. -/
theorem advance_unstopping {o : Launch.Options} {worker : Bool} {place' : Launch.Loop}
    {effect : Launch.Effect} (moved : place.advance o worker false = some (place', effect))
    (alive : stopping place = false) : stopping place' = false ∧ effect ≠ .delete := by
  cases place with
  | workerStop _ | delete _ => cases alive
  | unborn | ended _ => cases moved
  | startLoop | prepared | startListener | innerLoop | done _ =>
    cases moved
    exact ⟨rfl, nofun⟩
  | prepareHandler =>
    cases worker with
    | true => cases moved
    | false =>
      cases moved
      exact ⟨rfl, nofun⟩

/-- A loop goes on without coming to `handleWorkerStop`. -/
theorem Manned.loops (manned : Manned order l) {x : Launch.Party} (alive : stopping place = false)
    (y : Launch.Party) : stopping (update l.loops x place y) = false := by
  by_cases own : y = x
  · subst own
    rw [update_self]
    exact alive
  · rw [update_of_ne own]
    exact manned.alive y

theorem Manned.start (manned : Manned order l) (moved : l.start = some l') : Manned order l' := by
  unfold Launch.start at moved
  split at moved <;> (try split_ifs at moved) <;> cases moved
  · exact ⟨manned.table, manned.loops rfl⟩
  · exact ⟨manned.table, manned.loops rfl⟩
  · exact ⟨manned.table, manned.alive⟩
  · exact ⟨manned.table, manned.loops rfl⟩
  · exact ⟨manned.table, manned.alive⟩
  · exact ⟨manned.table, manned.alive⟩

/-- No step takes a worker off the table. -/
theorem Manned.step (manned : Manned order l) {label : Launch.Label}
    (fine : ∀ x fails, label = .loop x fails → fails = false)
    (moved : l.step label = some l') : Manned order l' := by
  unfold Launch.step at moved
  split_ifs at moved
  cases label with
  | start => exact manned.start moved
  | loop x fails =>
    obtain ⟨⟨place, effect⟩, advanced, rfl⟩ := map_eq_some_iff.mp moved
    rw [fine x fails rfl] at advanced
    obtain ⟨alive, kept⟩ := advance_unstopping advanced (manned.alive x)
    cases effect with
    | delete => exact absurd rfl kept
    | nothing | startedWgDone | doneWgDone | panic => exact ⟨manned.table, manned.loops alive⟩

/-- The table is complete, and each worker has come from its start by orderly steps. -/
structure Census (order : List Nat) (started : Nat → Worker) (s : Server) : Prop where
  manned : Manned order s.launch
  comes : ∀ i, Comes Worker.step (Worker.Orderly .welcoming) (started i) (s.workers i)

/-- Every orderly step keeps the census. -/
theorem Census.step {started : Nat → Worker} (census : Census order started s) {label : Label}
    (orderly : s.Orderly label) (moved : s.step label = some s') : Census order started s' := by
  cases label with
  | launch label =>
    have frame : ∀ {launch : Launch}, s.launch.step label = some launch →
        Census order started { s with launch } := fun moved =>
      ⟨census.manned.step (fun i fails same => by subst same; exact orderly) moved, census.comes⟩
    simp only [Server.step] at moved
    split at moved <;> (try split_ifs at moved) <;>
      (obtain ⟨launch, launched, rfl⟩ := map_eq_some_iff.mp moved; exact frame launched)
  | worker i label =>
    simp only [Server.step] at moved
    split_ifs at moved
    obtain ⟨w, taken, rest⟩ := bind_eq_some_iff.mp moved
    obtain ⟨launch, returned, rest⟩ := bind_eq_some_iff.mp rest
    cases rest
    obtain ⟨meets, fine⟩ := orderly
    rw [taken, bind_some] at fine
    refine ⟨?_, fun j => ?_⟩
    · cases ends : returns label w with
      | none =>
        rw [ends] at returned
        cases returned
        exact census.manned
      | some fails =>
        rw [ends] at returned fine
        have ended : s.launch.step (.loop (some i) fails) = some launch := returned
        refine census.manned.step (fun i' fails' same => ?_) ended
        cases same
        exact Bool.eq_false_iff.mpr fun failed => fine (congrArg some failed)
    · by_cases own : j = i
      · subst own
        change Comes _ _ _ (update s.workers j w j)
        rw [update_self]
        exact (census.comes j).next meets taken
      · change Comes _ _ _ (update s.workers i w j)
        rw [update_of_ne own]
        exact census.comes j

/-- In every run whose steps are orderly and in which no loop returns an error, as long as no worker
has 2 ^ 31 entries, a server of any number of workers reports the connections for which `OnAccept`
has been fired and `OnClose` has not. -/
theorem run_activeConnections_of_orderly {cfg : Nat → Config} {streams : Nat → Worker.Streams}
    (tcp : ∀ i, (cfg i).sendRecvMsg = false) {options : Launch.Options} {workers : Nat → Worker}
    (started : ∀ i, Worker.start (cfg i) (streams i) = some (workers i)) {ls : List Label}
    (ran : run step ls ⟨Launch.launch options order, workers⟩ = some s)
    (along : Along step Orderly ls ⟨Launch.launch options order, workers⟩)
    (few : ∀ i ∈ order, (s.workers i).connections.keys.length < 2 ^ 31) :
    s.activeConnections = s.currentConnections order ∧ 0 ≤ s.activeConnections := by
  have initial : Census order workers ⟨Launch.launch options order, workers⟩ :=
    ⟨⟨rfl, fun _ => rfl⟩, fun i => .refl (workers i)⟩
  have census := invariant_of_run (fun _ _ _ meets moved census => Census.step census meets moved)
    ran along initial
  have same : s.activeConnections = s.currentConnections order := by
    unfold activeConnections currentConnections
    rw [census.manned.table, Nat.cast_list_sum, List.map_map]
    refine congrArg List.sum (List.map_congr_left fun i member => ?_)
    obtain ⟨ls, ran, along⟩ := census.comes i
    exact Worker.run_activeConnections (tcp i) (started i) ran along (few i member)
  refine ⟨same, ?_⟩
  rw [same]
  exact Int.natCast_nonneg _

open Worker

/-- A worker is started, and its loop begins. -/
def begins (i : Nat) : List Label :=
  ([.start, .loop (some i) false, .start, .loop (some i) false,
    .loop (some i) false] : List Launch.Label).map .launch

/-- The loops of two consumers and of the acceptor begin, and `OnStart` is called. -/
def reacting : List Label :=
  begins 0 ++ begins 1 ++ ([.start, .loop none false, .loop none false, .loop none false, .start,
    .start] : List Launch.Label).map .launch

/-- Two consumers are each handed a connection. The second one's connection is closed. -/
def handedOut : List Label := reacting ++ admission.map (.worker 0) ++ visit.map (.worker 1)

theorem run_activeConnections_of_orderly_handedOut : ∃ s,
    run step handedOut
      ⟨Launch.launch ⟨false, false, false⟩ [0, 1], fun _ => init (plain .consumer) keepNothing⟩ =
      some s ∧ s.launch.main = .serving ∧ s.currentConnections [0, 1] = 1 ∧
      s.activeConnections = 1 := by
  have started : ∀ _ : Nat, Worker.start (plain .consumer) keepNothing =
      some (init (plain .consumer) keepNothing) := fun _ => rfl
  have along : Along step Orderly handedOut
      ⟨Launch.launch ⟨false, false, false⟩ [0, 1],
        fun _ => init (plain .consumer) keepNothing⟩ := by decide +kernel
  obtain ⟨s, ran, serving, one, few⟩ : ∃ s, run step handedOut
        ⟨Launch.launch ⟨false, false, false⟩ [0, 1],
          fun _ => init (plain .consumer) keepNothing⟩ = some s ∧
      s.launch.main = .serving ∧ s.currentConnections [0, 1] = 1 ∧
      ∀ i ∈ [0, 1], (s.workers i).connections.keys.length < 2 ^ 31 :=
    exists_run_from (by decide +kernel)
  obtain ⟨same, _⟩ := run_activeConnections_of_orderly (fun _ => rfl) started ran along few
  rw [one] at same
  exact ⟨s, ran, serving, one, same⟩

/-- A shard accepts a connection when there is no free submission entry for its next accept. -/
def acceptedFull : List Label :=
  begins 0 ++ ([.start, .start] : List Launch.Label).map .launch ++
    ([.turn [] 1 .done, .peek, .endBatch, .asyncWrite {}, .complete 0 5 false [] (some 7),
      .turn [] 0 .done, .peek, .event { sqe := fun _ => false }, .endBatch,
      .asyncWrite {}] : List Gain.Label).map (.worker 0)

theorem run_activeConnections_negative : ∃ w s,
    Worker.start (plain .shard) keepNothing = some w ∧
    run step acceptedFull ⟨Launch.launch ⟨true, false, false⟩ [0], fun _ => w⟩ = some s ∧
    s.launch.main = .serving ∧ (s.workers 0).phase = .top ∧ (s.workers 0).shutdowning = false ∧
    s.currentConnections [0] = 0 ∧ s.activeConnections = -1 := by
  have seen : ((Worker.start (plain .shard) keepNothing).bind fun w =>
      run step acceptedFull ⟨Launch.launch ⟨true, false, false⟩ [0], fun _ => w⟩).map (fun s =>
        decide (s.launch.main = .serving ∧ (s.workers 0).phase = .top ∧
          (s.workers 0).shutdowning = false ∧ s.currentConnections [0] = 0 ∧
          s.activeConnections = -1)) = some true := by decide +kernel
  obtain ⟨s, ran, seen⟩ := map_eq_some_iff.mp seen
  obtain ⟨w, started, ran⟩ := bind_eq_some_iff.mp ran
  exact ⟨w, s, started, ran, of_decide_eq_true seen⟩

end Server

end Gain
