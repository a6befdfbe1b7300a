import Mathlib.Order.Basic
import Mathlib.Tactic.MkIffOfInductiveProp
import Mathlib.Tactic.SplitIfs
import Gain.Foundation.Run

/-! # Shutting down a worker

`shutdown` raises a flag and a counter and waits until the counter is down again;
the loop of the worker sees the flag, closes what it has and lowers the counter
when it ends. The two run at the same time, and each load, store and change of the
counter is one step.
-/

namespace Gain

structure Shutdowner where
  shutdowning : Bool := false
  inProgress : Bool := false
  /-- The counter of the wait group, which panics when it becomes negative. -/
  wg : Int := 0
  deriving DecidableEq

namespace Shutdowner

def markShutdownInProgress (s : Shutdowner) : Shutdowner := { s with inProgress := true }

/-- Where the caller of `shutdown` is. -/
inductive Caller where
  | idle
  | stored
  | waiting
  | returned
  deriving DecidableEq

/-- Where the loop is. -/
inductive Position where
  | preparing
  /-- Before `needToShutdown`. -/
  | shutdownHandler
  /-- `needToShutdown` has seen the first flag. -/
  | requested
  | onCloseHandler
  | marking
  /-- Submitting, handling events and finishing the iteration. -/
  | body
  | notifyFinish
  /-- `notifyFinish` has seen the flag. -/
  | lowering
  | ended
  deriving DecidableEq

inductive Role where
  | acceptor
  /-- A consumer or a shard. -/
  | readWrite
  deriving DecidableEq

/-- How the preparation or the body of one iteration ends. -/
inductive Turnout where
  | next
  /-- The finish condition holds. -/
  | finish
  | error
  deriving DecidableEq

structure State where
  role : Role
  flags : Shutdowner := {}
  caller : Caller := .idle
  position : Position := .preparing
  deriving DecidableEq

inductive Action where
  /-- The next step of `shutdown`. -/
  | caller
  /-- The next step of the loop. -/
  | loop (turnout : Turnout)
  deriving DecidableEq

/-- `shutdown` -/
def shutdown (s : State) : Option State :=
  match s.caller with
  | .idle => some { s with caller := .stored, flags := { s.flags with shutdowning := true } }
  | .stored => some { s with caller := .waiting, flags := { s.flags with wg := s.flags.wg + 1 } }
  | .waiting => if s.flags.wg = 0 then some { s with caller := .returned } else none
  | .returned => none

/-- The loop is over: only the acceptor notifies whatever the reason is. -/
def ceased (role : Role) : Position :=
  match role with
  | .acceptor => .notifyFinish
  | .readWrite => .ended

/-- One step of the loop with the `shutdownHandler` and the `loopFinishCondition` of the role. -/
def loop (s : State) (turnout : Turnout) : Option State :=
  match s.position with
  | .preparing =>
    match turnout with
    | .error => some { s with position := ceased s.role }
    | _ => some { s with position := .shutdownHandler }
  | .shutdownHandler =>
    some { s with position := if s.flags.shutdowning then .requested else .body }
  | .requested => some { s with position := if s.flags.inProgress then .body else .onCloseHandler }
  | .onCloseHandler => some { s with position := .marking }
  | .marking =>
    some { s with
      flags := s.flags.markShutdownInProgress
      position := match s.role with
        | .acceptor => .notifyFinish
        | .readWrite => .body }
  | .body =>
    match turnout, s.role with
    | .next, _ => some { s with position := .shutdownHandler }
    | .finish, .readWrite => some { s with position := .notifyFinish }
    | .finish, .acceptor => none
    | .error, role => some { s with position := ceased role }
  | .notifyFinish =>
    some { s with position := if s.flags.shutdowning then .lowering else .ended }
  | .lowering =>
    some { s with position := .ended, flags := { s.flags with wg := s.flags.wg - 1 } }
  | .ended => none

def step (s : State) : Action → Option State
  | .caller => shutdown s
  | .loop turnout => loop s turnout

/-- The loop has ended and `shutdown` waits for it. -/
def Stuck (s : State) : Prop :=
  s.position = .ended ∧ s.caller = .waiting ∧ 0 < s.flags.wg

/-- `shutdown` has raised the counter before the loop looks whether to lower it, and a
consumer or a shard does not end with an error. -/
@[mk_iff]
structure InTime (s : State) (action : Action) : Prop where
  notify : action ≠ .caller → s.position = .notifyFinish → s.caller = .waiting
  error : action = .loop .error → s.position = .preparing ∨ s.position = .body →
    s.role = .acceptor

instance (s : State) (action : Action) : Decidable (InTime s action) :=
  decidable_of_iff' _ (inTime_iff s action)

/-- The counter is up from the `Add` of the caller until the loop has lowered it. -/
structure Counted (s : State) : Prop where
  flag : s.caller ≠ .idle → s.flags.shutdowning = true
  raised : s.caller = .waiting → s.position ≠ .ended → s.flags.wg = 1
  down : s.caller ≠ .waiting ∨ s.position = .ended → s.flags.wg = 0
  early : s.position = .lowering → s.caller = .waiting
  ceased : s.position = .ended → s.caller = .waiting ∨ s.caller = .returned

variable {s s' : State}

/-- A step of the caller. -/
theorem Counted.shutdown (counted : Counted s) (moved : shutdown s = some s') : Counted s' := by
  obtain ⟨flag, raised, down, early, ceased⟩ := counted
  unfold Shutdowner.shutdown at moved
  cases at' : s.caller with
  | idle =>
    rw [at'] at moved ceased down early
    cases moved
    have zero : s.flags.wg = 0 := down (Or.inl (by decide))
    refine ⟨fun _ => rfl, nofun, fun _ => zero, fun place => ?_, fun place => ?_⟩
    · cases early place
    · rcases ceased place with same | same <;> cases same
  | stored =>
    rw [at'] at moved ceased down early flag
    cases moved
    have zero : s.flags.wg = 0 := down (Or.inl (by decide))
    refine ⟨fun _ => flag (by decide), fun _ _ => ?_, fun reason => ?_, fun _ => rfl,
      fun _ => Or.inl rfl⟩
    · change s.flags.wg + 1 = 1
      rw [zero]
      rfl
    · rcases reason with ne | place
      · exact absurd rfl ne
      · rcases ceased place with same | same <;> cases same
  | waiting =>
    simp only [at'] at moved
    split_ifs at moved with zero
    cases moved
    rw [at'] at flag raised
    have place : s.position = .ended := by
      by_contra running
      rw [raised rfl running] at zero
      contradiction
    refine ⟨fun _ => flag (by decide), nofun, fun _ => zero, fun low => ?_, fun _ => Or.inr rfl⟩
    rw [show s.position = .lowering from low] at place
    cases place
  | returned => simp only [at', reduceCtorEq] at moved

/-- A step of the loop that leaves the counter alone and the loop before its end. -/
theorem Counted.moved (counted : Counted s) (alive : s.position ≠ .ended) {flags : Shutdowner}
    (shutdowning : flags.shutdowning = s.flags.shutdowning) (wg : flags.wg = s.flags.wg)
    {place : Position} (running : place ≠ .ended)
    (early : place = .lowering → s.caller = .waiting) :
    Counted { s with flags := flags, position := place } := by
  refine ⟨fun begun => ?_, fun waits _ => ?_, fun reason => ?_, early, fun ended => ?_⟩
  · exact shutdowning.trans (counted.flag begun)
  · exact wg.trans (counted.raised waits alive)
  · rcases reason with ne | ended
    · exact wg.trans (counted.down (Or.inl ne))
    · exact absurd ended running
  · exact absurd ended running

/-- A step of the loop in time. -/
theorem Counted.loop {turnout : Turnout} (counted : Counted s) (inTime : InTime s (.loop turnout))
    (moved : loop s turnout = some s') : Counted s' := by
  have notify := inTime.notify nofun
  have acceptor : turnout = .error → s.position = .preparing ∨ s.position = .body →
      s.role = .acceptor := fun failed => inTime.error (by rw [failed])
  unfold Shutdowner.loop at moved
  cases place : s.position with
  | preparing =>
    have alive : s.position ≠ .ended := by rw [place]; decide
    rw [place] at moved
    cases turnout with
    | next | finish =>
      cases moved
      exact counted.moved alive rfl rfl (by decide) nofun
    | error =>
      cases moved
      have role := acceptor rfl (Or.inl place)
      apply counted.moved alive rfl rfl <;> simp [Shutdowner.ceased, role]
  | shutdownHandler | requested =>
    have alive : s.position ≠ .ended := by rw [place]; decide
    rw [place] at moved
    cases moved
    apply counted.moved alive rfl rfl <;> split_ifs <;> simp
  | onCloseHandler =>
    have alive : s.position ≠ .ended := by rw [place]; decide
    rw [place] at moved
    cases moved
    exact counted.moved alive rfl rfl nofun nofun
  | marking =>
    have alive : s.position ≠ .ended := by rw [place]; decide
    rw [place] at moved
    cases moved
    have kept : s.flags.markShutdownInProgress.shutdowning = s.flags.shutdowning := rfl
    apply counted.moved alive kept rfl <;> split <;> simp
  | body =>
    have alive : s.position ≠ .ended := by rw [place]; decide
    rw [place] at moved
    cases turnout with
    | next =>
      cases moved
      exact counted.moved alive rfl rfl nofun nofun
    | finish =>
      cases role : s.role with
      | acceptor => simp only [role, reduceCtorEq] at moved
      | readWrite =>
        simp only [role, Option.some.injEq] at moved
        subst moved
        rw [← role]
        exact counted.moved alive rfl rfl nofun nofun
    | error =>
      cases moved
      have role := acceptor rfl (Or.inr place)
      apply counted.moved alive rfl rfl <;> simp [Shutdowner.ceased, role]
  | notifyFinish =>
    have alive : s.position ≠ .ended := by rw [place]; decide
    have waits := notify place
    have flag := counted.flag (by rw [waits]; decide)
    simp only [place, flag, if_true, Option.some.injEq] at moved
    subst moved
    exact counted.moved alive rfl rfl nofun fun _ => waits
  | lowering =>
    have waits := counted.early place
    have one := counted.raised waits (by rw [place]; decide)
    rw [place] at moved
    cases moved
    have zero : s.flags.wg - 1 = 0 := by rw [one]; rfl
    exact ⟨counted.flag, fun _ running => absurd rfl running, fun _ => zero, nofun,
      fun _ => Or.inl waits⟩
  | ended =>
    rw [place] at moved
    cases moved

/-- When the loop always ends in time, the counter is never negative and nobody waits for a
loop that has ended. -/
theorem run_not_stuck_of_inTime {role : Role} {actions : List Action} {s : State}
    (ran : run step actions { role := role } = some s)
    (along : Along step InTime actions { role := role }) : 0 ≤ s.flags.wg ∧ ¬ Stuck s := by
  have preserved : ∀ s action s', InTime s action → step s action = some s' → Counted s →
      Counted s' := by
    intro s action s' inTime stepped counted
    cases action with
    | caller => exact counted.shutdown stepped
    | loop turnout => exact counted.loop inTime stepped
  have counted : Counted s :=
    invariant_of_run preserved ran along ⟨nofun, nofun, fun _ => rfl, nofun, nofun⟩
  refine ⟨?_, ?_⟩
  · by_cases up : s.caller = .waiting ∧ s.position ≠ .ended
    · rw [counted.raised up.1 up.2]
      decide
    · rw [not_and_or, not_not] at up
      exact Int.le_of_eq (counted.down up).symm
  · rintro ⟨ended, _, positive⟩
    rw [counted.down (Or.inr ended)] at positive
    exact absurd positive (Int.lt_irrefl 0)

/-- A consumer is shut down, closes its connections and ends. -/
def consumerShutdown : List Action :=
  [.loop .next, .caller, .caller, .loop .next, .loop .next, .loop .next, .loop .next,
    .loop .finish, .loop .next, .loop .next, .caller]

theorem run_not_stuck_of_inTime_consumerShutdown :
    ∃ s, run step consumerShutdown { role := .readWrite } = some s ∧ s.caller = .returned ∧
      0 ≤ s.flags.wg ∧ ¬ Stuck s := by
  have along : Along step InTime consumerShutdown { role := .readWrite } := by decide
  exact ⟨_, rfl, rfl, run_not_stuck_of_inTime rfl along⟩

/-- A consumer that has nothing to close ends between the two steps of `shutdown`, and a
consumer whose loop fails is shut down afterwards. -/
theorem run_negative_and_run_stuck :
    (∃ actions s, run step actions { role := .readWrite } = some s ∧ s.flags.wg < 0) ∧
      ∃ actions s, run step actions { role := .readWrite } = some s ∧ Stuck s := by
  refine ⟨⟨[.loop .next, .caller, .loop .next, .loop .next, .loop .next, .loop .next,
    .loop .finish, .loop .next, .loop .next], _, rfl, by decide⟩, ?_⟩
  exact ⟨[.loop .next, .loop .next, .loop .error, .caller, .caller], _, rfl, rfl, rfl, by decide⟩

end Shutdowner

end Gain
