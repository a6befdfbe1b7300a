import Gain.Foundation.Tally
import Gain.Server.Engine

/-! # Launching the loops

Once the workers are there, `startReactor` and `startSocketSharding` start a goroutine for
each of them and wait on a channel until it has come to its `prepareHandler`. Two wait groups
count the loops that are not running yet and those that have not ended. A loop that returns an
error is taken off the workers, and lowers the first wait group if it was not running.
-/

namespace Gain

open Function List Option

namespace Launch

/-- Where the goroutine of a loop is, and from its end on whether it was `running`. -/
inductive Loop where
  | unborn
  /-- Setting the priority and the affinity. -/
  | startLoop
  | prepareHandler
  /-- The rest of the `prepareHandler` of a worker, after the signal on `startedChan`. -/
  | prepared
  | startListener
  | innerLoop
  /-- In `handleWorkerStop`, before `started`. -/
  | workerStop (running : Bool)
  | delete (running : Bool)
  /-- Before the `Done` of `doneWg`. -/
  | done (running : Bool)
  | ended (running : Bool)
  deriving DecidableEq

/-- What a step of a goroutine does to the others. -/
inductive Effect where
  | nothing
  | startedWgDone
  | doneWgDone
  | delete
  | panic
  deriving DecidableEq

structure Options where
  sharding : Bool
  cpuAffinity : Bool
  processPriority : Bool

/-- One step of the goroutine of a worker or of the acceptor, which may fail. An error of the
acceptor is a panic. -/
def Loop.advance (o : Options) (worker fails : Bool) : Loop → Option (Loop × Effect)
  | startLoop =>
    if fails then
      if worker then if o.cpuAffinity then some (workerStop false, .nothing) else none
      else if o.cpuAffinity || o.processPriority then some (startLoop, .panic) else none
    else some (prepareHandler, .nothing)
  | prepareHandler =>
    -- a worker is met on its channel here
    if worker then none
    else if fails then some (prepareHandler, .panic)
    else some (startListener, .nothing)
  | prepared =>
    -- a consumer has nothing left to do
    if fails then if o.sharding then some (workerStop false, .nothing) else none
    else some (startListener, .nothing)
  | startListener => some (innerLoop, .startedWgDone)
  | innerLoop =>
    if fails then
      if worker then some (workerStop true, .nothing) else some (innerLoop, .panic)
    else some (done true, .nothing)
  | workerStop running => some (delete running, if running then .nothing else .startedWgDone)
  | delete running => some (done running, .delete)
  | done running => some (ended running, .doneWgDone)
  | unborn | ended _ => none

/-- A worker by its index, or the acceptor. -/
abbrev Party := Option Nat

/-- Where `startReactor` or `startSocketSharding` is. -/
inductive MainAt where
  /-- Starting the loops of these, then waiting for `startedWg`. -/
  | starting (ahead : List Party)
  /-- At the `startedChan` of a worker. -/
  | receiving (worker : Nat) (ahead : List Party)
  | store
  /-- `OnStart` and waiting for `doneWg`. -/
  | serving
  | returned
  deriving DecidableEq

end Launch

open Launch in
structure Launch where
  options : Options
  readWriteWorkers : List Nat
  main : MainAt
  loops : Party → Loop := fun _ => .unborn
  startedWg : Int := 0
  doneWg : Int := 0
  panicked : Bool := false

namespace Launch

/-- `startedWg.Add(1)`, `doneWg.Add(1)` and `go`. Nobody else waits for them. -/
def go (s : Launch) (x : Party) : Launch :=
  { s with
    loops := update s.loops x .startLoop
    startedWg := s.startedWg + 1
    doneWg := s.doneWg + 1 }

/-- One step of `startReactor` or `startSocketSharding`. -/
def start (s : Launch) : Option Launch :=
  match s.main with
  | .starting (some i :: ahead) => some { s.go (some i) with main := .receiving i ahead }
  | .starting (none :: ahead) => some { s.go none with main := .starting ahead }
  | .starting [] => if s.startedWg = 0 then some { s with main := .store } else none
  | .receiving i ahead =>
    if s.loops (some i) = .prepareHandler then
      some { s with
        loops := update s.loops (some i) .prepared
        main := .starting ahead }
    else none
  | .store => some { s with main := .serving }
  | .serving => if s.doneWg = 0 then some { s with main := .returned } else none
  | .returned => none

/-- A loop goes on. -/
def perform (s : Launch) (x : Party) (l : Loop) (effect : Effect) : Launch :=
  let s := { s with loops := update s.loops x l }
  match effect with
  | .nothing => s
  | .startedWgDone => { s with startedWg := s.startedWg - 1 }
  | .doneWgDone => { s with doneWg := s.doneWg - 1 }
  | .delete => { s with readWriteWorkers := s.readWriteWorkers.filter fun i => some i ≠ x }
  | .panic => { s with panicked := true }

inductive Label where
  | start
  | loop (x : Party) (fails : Bool)
  deriving DecidableEq

def step (s : Launch) (label : Label) : Option Launch :=
  if s.panicked then none else
  match label with
  | .start => s.start
  | .loop x fails =>
    ((s.loops x).advance s.options x.isSome fails).map fun (l, effect) => s.perform x l effect

/-- Those who are started: the workers in the order of the `Range`, then the acceptor. -/
def parties (options : Options) (order : List Nat) : List Party :=
  order.map some ++ if options.sharding then [] else [none]

def launch (options : Options) (order : List Nat) : Launch :=
  { options, readWriteWorkers := order, main := .starting (parties options order) }

/-! ## The steps of a loop -/

namespace Loop

/-- The loop has not lowered `startedWg`. -/
def starting : Loop → Bool
  | startLoop | prepareHandler | prepared | startListener | workerStop false => true
  | _ => false

/-- The loop has not lowered `doneWg`. -/
def alive : Loop → Bool
  | unborn | ended _ => false
  | _ => true

/-- The loop has failed before it was running. -/
def dead : Loop → Bool
  | workerStop false | delete false | done false | ended false => true
  | _ => false

/-- The loop is in `innerLoop` or has left it. -/
def ran : Loop → Bool
  | innerLoop | workerStop true | delete true | done true | ended true => true
  | _ => false

/-- The loop has not given its signal, or has failed. -/
def due (l : Loop) : Bool := l = startLoop || l = prepareHandler || l.dead

structure Advances (l l' : Loop) (effect : Effect) : Prop where
  born : l ≠ unborn ∧ l' ≠ unborn
  started : effect = .startedWgDone → l.starting = true ∧ l'.starting = false
  starting : effect ≠ .startedWgDone → l'.starting = l.starting
  done : effect = .doneWgDone → l.alive = true ∧ l'.alive = false
  alive : effect ≠ .doneWgDone → l'.alive = l.alive

variable {o : Options} {worker fails : Bool} {l l' : Loop} {effect : Effect}

theorem advance_advances (moved : l.advance o worker fails = some (l', effect)) :
    Advances l l' effect := by
  cases l with
  | workerStop running =>
    cases moved
    constructor <;> decide +revert
  | _ =>
    simp only [advance] at moved
    (try split_ifs at moved) <;> cases moved <;> constructor <;> decide +revert

/-- Before the signal a worker can only fail, and then it does not give the signal any more. -/
theorem advance_due (moved : l.advance o true fails = some (l', effect)) :
    (l.due = true → l'.due = true) ∧ (l.dead = true → l'.dead = true) := by
  cases l with
  | workerStop running =>
    cases moved
    decide +revert
  | _ =>
    simp only [advance] at moved
    (try split_ifs at moved) <;> cases moved <;> decide +revert

theorem ran_or_dead (born : l ≠ unborn) (started : l.starting = false) :
    l.ran = true ∨ l.dead = true := by
  cases l with
  | unborn => exact absurd rfl born
  | startLoop | prepareHandler | prepared | startListener => cases started
  | _ => decide +revert

theorem ended_of_not_alive (born : l ≠ unborn) (gone : l.alive = false) :
    ∃ running, l = ended running := by
  cases l with
  | unborn => exact absurd rfl born
  | ended running => exact ⟨running, rfl⟩
  | _ => cases gone

end Loop

variable {s s' : Launch} {l : Loop} {effect : Effect} {x : Party} {everyone later : List Party}
  {i : Nat} {label : Label}

theorem perform_loops (s : Launch) (x : Party) (l : Loop) (effect : Effect) :
    (s.perform x l effect).loops = update s.loops x l ∧ (s.perform x l effect).main = s.main := by
  cases effect <;> exact ⟨rfl, rfl⟩

/-! ## What the wait groups count -/

/-- Those who are still to be started. -/
def MainAt.ahead : MainAt → List Party
  | starting ahead | receiving _ ahead => ahead
  | _ => []

/-- `startedWg` has been waited for. -/
def MainAt.passed : MainAt → Bool
  | store | serving | returned => true
  | _ => false

structure Balanced (everyone : List Party) (s : Launch) : Prop where
  started : Awaited Loop.starting s.loops s.startedWg
  done : Awaited Loop.alive s.loops s.doneWg
  born : ∃ early, everyone = early ++ s.main.ahead ∧ ∀ x, s.loops x = .unborn ↔ x ∉ early
  passed : s.main.passed = true → ∀ x, (s.loops x).starting = false
  returned : s.main = .returned → ∀ x, (s.loops x).alive = false
  waits : ∀ {i ahead}, s.main = .receiving i ahead → (s.loops (some i)).due = true

theorem launch_balanced (options : Options) (order : List Nat) :
    Balanced (parties options order) (launch options order) where
  started := .zero fun _ => rfl
  done := .zero fun _ => rfl
  born := ⟨[], rfl, fun _ => ⟨fun _ => not_mem_nil, fun _ => rfl⟩⟩
  passed := fun passed => by cases passed
  returned := fun returned => by cases returned
  waits := fun receiving => by cases receiving

namespace Balanced

variable {main : MainAt}

variable (balanced : Balanced everyone s)
include balanced

theorem turn (ahead : main.ahead = s.main.ahead)
    (passed : main.passed = true → ∀ x, (s.loops x).starting = false)
    (returned : main = .returned → ∀ x, (s.loops x).alive = false)
    (away : ∀ {i ahead}, main ≠ .receiving i ahead) : Balanced everyone { s with main := main } :=
  { balanced with
    born := ahead.symm ▸ balanced.born
    passed
    returned
    waits := fun receiving => absurd receiving away }

/-- A loop goes on. -/
theorem perform (adv : Loop.Advances (s.loops x) l effect)
    (waits : ∀ {i ahead}, s.main = .receiving i ahead → x = some i → l.due = true) :
    Balanced everyone (s.perform x l effect) := by
  obtain ⟨loops, main⟩ := perform_loops s x l effect
  refine ⟨?_, ?_, ?_, ?_, ?_, ?_⟩ <;> (try rw [main]) <;> rw [loops]
  · cases effect with
    | startedWgDone => exact balanced.started.leave (adv.started rfl).1 (adv.started rfl).2
    | _ => exact balanced.started.stay (adv.starting (by decide))
  · cases effect with
    | doneWgDone => exact balanced.done.leave (adv.done rfl).1 (adv.done rfl).2
    | _ => exact balanced.done.stay (adv.alive (by decide))
  · obtain ⟨early, split, born⟩ := balanced.born
    refine ⟨early, split, (forall_update_iff s.loops fun y l => l = .unborn ↔
      y ∉ early).mpr ⟨?_, fun y _ => born y⟩⟩
    rw [← born x]
    exact iff_of_false adv.born.2 adv.born.1
  · intro passed
    have all := balanced.passed passed
    refine (forall_update_iff s.loops fun _ l => l.starting = false).mpr
      ⟨?_, fun y _ => all y⟩
    by_cases lowers : effect = .startedWgDone
    · exact (adv.started lowers).2
    · exact (adv.starting lowers).trans (all x)
  · intro returned
    have all := balanced.returned returned
    refine (forall_update_iff s.loops fun _ l => l.alive = false).mpr
      ⟨?_, fun y _ => all y⟩
    by_cases lowers : effect = .doneWgDone
    · exact (adv.done lowers).2
    · exact (adv.alive lowers).trans (all x)
  · intro i ahead receiving
    by_cases own : some i = x
    · rw [own, update_self]
      exact waits receiving own.symm
    · rw [update_of_ne own]
      exact balanced.waits receiving

/-- The next loop is started. -/
theorem go (distinct : everyone.Nodup)
    (next : s.main.ahead = x :: later) (rest : main.ahead = later) (before : main.passed = false)
    (waits : ∀ {i ahead}, main = .receiving i ahead → x = some i) :
    Balanced everyone { s.go x with main := main } := by
  obtain ⟨early, split, born⟩ := balanced.born
  rw [next] at split
  have new : x ∉ early := by
    rw [split] at distinct
    exact fun old => (nodup_append.mp distinct).2.2 x old x mem_cons_self rfl
  have unborn := (born x).mpr new
  refine ⟨balanced.started.enter (congrArg Loop.starting unborn) rfl,
    balanced.done.enter (congrArg Loop.alive unborn) rfl, ⟨early ++ [x], ?_,
      (forall_update_iff s.loops fun y l => l = .unborn ↔ y ∉ early ++ [x]).mpr ⟨?_, ?_⟩⟩,
    fun passed => ?_, fun returned => ?_, fun {i ahead} receiving => ?_⟩
  · rw [split, rest, append_assoc]
    rfl
  · exact iff_of_false (by decide) fun out => out (mem_append_right _ mem_cons_self)
  · intro y other
    rw [born y, mem_append, mem_singleton, or_iff_left other]
  · cases before.symm.trans passed
  · cases before.symm.trans (congrArg MainAt.passed returned)
  · cases waits receiving
    exact congrArg Loop.due (update_self (some i) Loop.startLoop s.loops)

/-- A step of `Start`. -/
theorem start (distinct : everyone.Nodup) (moved : s.start = some s') : Balanced everyone s' := by
  unfold Launch.start at moved
  split at moved <;> rename_i here <;> (try split_ifs at moved with found) <;> cases moved
  · exact balanced.go distinct (congrArg MainAt.ahead here) rfl rfl fun same => by
      cases same
      rfl
  · exact balanced.go distinct (congrArg MainAt.ahead here) rfl rfl fun same => by cases same
  · exact balanced.turn (here ▸ rfl) (fun _ => (found ▸ balanced.started).nobody)
      (fun same => by cases same) fun same => by cases same
  · -- the signal is given and received at once
    rename_i i ahead
    have turned : Balanced everyone { s with main := .starting ahead } :=
      balanced.turn (here ▸ rfl) (fun same => by cases same) (fun same => by cases same)
        fun same => by cases same
    have adv : Loop.Advances (s.loops (some i)) .prepared .nothing := by
      rw [found]
      constructor <;> decide
    exact turned.perform adv fun same => by cases same
  · exact balanced.turn (here ▸ rfl) (fun _ => balanced.passed (here ▸ rfl))
      (fun same => by cases same) fun same => by cases same
  · exact balanced.turn (here ▸ rfl) (fun _ => balanced.passed (here ▸ rfl))
      (fun _ => (found ▸ balanced.done).nobody) fun same => by cases same

theorem step (distinct : everyone.Nodup)
    (moved : s.step label = some s') : Balanced everyone s' := by
  unfold Launch.step at moved
  split_ifs at moved
  cases label with
  | start => exact balanced.start distinct moved
  | loop x fails =>
    obtain ⟨⟨l, effect⟩, advanced, rfl⟩ := map_eq_some_iff.mp moved
    refine balanced.perform (Loop.advance_advances advanced) ?_
    rintro i ahead receiving rfl
    exact (Loop.advance_due advanced).1 (balanced.waits receiving)

/-- Everyone has been started. -/
theorem born_of_passed (passed : s.main.passed = true)
    (inside : x ∈ everyone) : s.loops x ≠ .unborn := by
  obtain ⟨early, split, born⟩ := balanced.born
  cases here : s.main with
  | starting _ | receiving _ _ => cases (congrArg MainAt.passed here).symm.trans passed
  | _ =>
    rw [here] at split
    rw [split.trans (append_nil early)] at inside
    exact fun unborn => (born x).mp unborn inside

end Balanced

theorem parties_nodup {options : Options} {order : List Nat} (distinct : order.Nodup) :
    (parties options order).Nodup := by
  have workers := distinct.map (some_injective Nat)
  unfold parties
  split_ifs
  · rw [append_nil]
    exact workers
  · refine workers.append (nodup_singleton none) fun x inside last => ?_
    obtain ⟨i, _, rfl⟩ := mem_map.mp inside
    cases mem_singleton.mp last

variable {options : Options} {order : List Nat} {ls : List Label}

theorem run_balanced (ran : run step ls (launch options order) = some s)
    (distinct : order.Nodup) : Balanced (parties options order) s :=
  run_preserves (Balanced (parties options order))
    (fun _ _ _ moved balanced => balanced.step (parties_nodup distinct) moved) ran
    (launch_balanced options order)

/-- The wait groups do not fall below zero. The engine is running only when every loop was or has
failed before, and `Start` returns only when all of them have ended. -/
theorem run_waits (ran : run step ls (launch options order) = some s) (distinct : order.Nodup) :
    0 ≤ s.startedWg ∧ 0 ≤ s.doneWg ∧
    (s.main.passed = true → ∀ x ∈ parties options order,
      (s.loops x).ran = true ∨ (s.loops x).dead = true) ∧
    (s.main = .returned → ∀ x ∈ parties options order, ∃ running, s.loops x = .ended running) := by
  have balanced := run_balanced ran distinct
  refine ⟨balanced.started.nonneg, balanced.done.nonneg, fun passed x inside => ?_,
    fun returned x inside => ?_⟩
  · exact Loop.ran_or_dead (balanced.born_of_passed passed inside) (balanced.passed passed x)
  · have passed : s.main.passed = true := congrArg MainAt.passed returned
    exact Loop.ended_of_not_alive (balanced.born_of_passed passed inside)
      (balanced.returned returned x)

/-- The first of two shards fails when it adds its request. -/
def halfFailed : List Label :=
  [.start, .loop (some 0) false, .start, .loop (some 0) true, .start, .loop (some 1) false,
    .start] ++
    List.replicate 3 (.loop (some 0) false) ++ List.replicate 2 (.loop (some 1) false) ++
    [.start, .start, .loop (some 1) false, .loop (some 1) false, .start]

theorem run_waits_halfFailed : ∃ s, run step halfFailed (launch ⟨true, false, false⟩ [0, 1]) =
    some s ∧ s.readWriteWorkers = [1] ∧
    ∀ x ∈ parties ⟨true, false, false⟩ [0, 1], ∃ running, s.loops x = .ended running := by
  have ends : (run step halfFailed (launch ⟨true, false, false⟩ [0, 1])).map
      (fun s => (s.main, s.readWriteWorkers)) = some (.returned, [1]) := by decide
  obtain ⟨s, ran, same⟩ := map_eq_some_iff.mp ends
  obtain ⟨returned, listed⟩ := Prod.mk.inj same
  exact ⟨s, ran, listed, (run_waits ran (by decide)).2.2.2 returned⟩

/-! ## Who is waited for -/

/-- `Start` waits for a worker that gives no signal any more. -/
def Stuck (i : Nat) (ahead : List Party) (s : Launch) : Prop :=
  s.main = .receiving i ahead ∧ (s.panicked = true ∨ (s.loops (some i)).dead = true)

/-- What is stuck stays stuck. -/
theorem Stuck.step (stuck : Stuck i later s) (moved : s.step label = some s') :
    Stuck i later s' := by
  obtain ⟨receiving, reason⟩ := stuck
  unfold Launch.step at moved
  split_ifs at moved with panicked
  have dead := reason.resolve_left panicked
  cases label with
  | start =>
    simp only [Launch.start, receiving] at moved
    split_ifs at moved with found
    cases (congrArg Loop.dead found).symm.trans dead
  | loop x fails =>
    obtain ⟨⟨l, effect⟩, advanced, rfl⟩ := map_eq_some_iff.mp moved
    obtain ⟨loops, main⟩ := perform_loops s x l effect
    refine ⟨main.trans receiving, .inr ?_⟩
    rw [loops]
    by_cases own : some i = x
    · subst own
      rw [update_self]
      exact (Loop.advance_due advanced).2 dead
    · rw [update_of_ne own]
      exact dead

theorem step_received (calm : s.panicked = false) (receiving : s.main = .receiving i later)
    (found : s.loops (some i) = .prepareHandler) :
    ∃ s', s.step .start = some s' ∧ s'.main ≠ .receiving i later := by
  simp only [step, calm, start, receiving, found, Bool.false_eq_true, if_false, if_true]
  exact ⟨_, rfl, by simp only [ne_eq, reduceCtorEq, not_false_eq_true]⟩

/-- `Start` gets on from a worker if and only if it has not failed before its signal, for example
at its affinity. Otherwise the engine never is running. -/
theorem run_receives_iff (ran : run step ls (launch options order) = some s)
    (distinct : order.Nodup) (receiving : s.main = .receiving i later) :
    (∃ ms s', run step ms s = some s' ∧ s'.main ≠ .receiving i later) ↔
      s.panicked = false ∧ (s.loops (some i)).dead = false := by
  constructor
  · rintro ⟨ms, s', ran', away⟩
    by_contra waits
    rw [not_and_or, Bool.not_eq_false, Bool.not_eq_false] at waits
    have stuck : Stuck i later s' := run_preserves (Stuck i later)
      (fun _ _ _ moved stuck => stuck.step moved) ran' ⟨receiving, waits⟩
    exact away stuck.1
  · rintro ⟨calm, lives⟩
    have due := (run_balanced ran distinct).waits receiving
    rw [Loop.due, lives, Bool.or_false, Bool.or_eq_true, decide_eq_true_eq,
      decide_eq_true_eq] at due
    obtain early | found := due
    · have first : s.step (.loop (some i) false) =
          some (s.perform (some i) .prepareHandler .nothing) := by
        simp only [step, calm, Loop.advance, early, Bool.false_eq_true, if_false, map_some]
      obtain ⟨s', second, away⟩ := step_received (s := s.perform (some i) .prepareHandler .nothing)
        calm receiving (update_self ..)
      exact ⟨[.loop (some i) false, .start], s', (run_cons first).trans (run_cons second), away⟩
    · obtain ⟨s', taken, away⟩ := step_received calm receiving found
      exact ⟨[.start], s', run_cons taken, away⟩

/-- The affinity of the only consumer cannot be set. -/
theorem run_receives_iff_unset : ∃ s, run step [.start, .loop (some 0) true]
      (launch ⟨false, true, false⟩ [0]) = some s ∧
    ∀ ms s', run step ms s = some s' → s'.main = .receiving 0 [none] := by
  have ends : (run step [.start, .loop (some 0) true] (launch ⟨false, true, false⟩ [0])).map
      (fun s => (s.main, (s.loops (some 0)).dead)) = some (.receiving 0 [none], true) := by decide
  obtain ⟨s, ran, same⟩ := map_eq_some_iff.mp ends
  obtain ⟨receiving, dead⟩ := Prod.mk.inj same
  refine ⟨s, ran, fun ms s' ran' => ?_⟩
  by_contra away
  have lives := ((run_receives_iff ran (by decide) receiving).mp ⟨ms, s', ran', away⟩).2
  cases lives.symm.trans dead

end Launch

end Gain
