import Gain.Server.Engine

/-! # What the engine can do in one step

The steps of a start and of the engine as relations, with one case for each way
the state changes.
-/

namespace Gain

open Option

namespace Engine

variable {cfg : Config} {e e' : Engine} {c c' : StartCall} {e₁ : Engine}

/-- Between the two states a start stores. -/
def StartAt.midway : StartAt → Bool
  | .isRunning | .load | .store | .serving | .returned _ => false
  | _ => true

/-- The close goroutine of the run is not yet spawned. -/
def StartAt.unspawned : StartAt → Bool
  | .isRunning | .load | .store | .probe | .notify | .spawn => true
  | _ => false

/-- The call has returned. -/
def StartAt.over : StartAt → Bool
  | .returned _ => true
  | _ => false

/-- What one step of a start can do. -/
inductive Advanced (e : Engine) (c : StartCall) : Engine → StartCall → Prop
  | outside {p : StartAt} (before : c.place.midway = false) (after : p.midway = false)
      (order : p.over = true ∨ p.unspawned = true ∧ c.place.unspawned = true) :
      Advanced e c e { c with place := p }
  | begins (place : c.place = .store) :
      Advanced e c { e with state := .starting, runs := e.runs + 1 }
        { c with place := .probe, run := e.runs }
  | works {p : StartAt} {network address : Text} {closers : List CloserAt}
      {notifiers : List NotifyAt} (before : c.place.midway = true)
      (late : p = .launch ∨ p = .running → c.place = .launch)
      (spawned : (closers = e.closers ∧ (p.over = true ∨ p.unspawned = c.place.unspawned)) ∨
        (c.place = .spawn ∧ p = .parse ∧ closers = e.closers ++ [.receiving]))
      (notified : notifiers = e.notifiers ∨
        c.mainProcess = true ∧ notifiers = e.notifiers ++ [.waiting]) :
      Advanced e c { e with
        network := network, address := address, closers := closers, notifiers := notifiers }
        { c with place := p }
  | closer (place : c.place = .closer) :
      Advanced e c { e with closer := some c.run } { c with place := .launch }
  | running (place : c.place = .running) :
      Advanced e c { e with state := .running, current := c.run } { c with place := .serving }

/-- A step that only moves the call. -/
theorem Advanced.moves {p : StartAt} (before : c.place.midway = true)
    (late : p = .launch ∨ p = .running → c.place = .launch)
    (order : p.over = true ∨ p.unspawned = c.place.unspawned) :
    Advanced e c e { c with place := p } :=
  .works before late (Or.inl ⟨rfl, order⟩) (Or.inl rfl)

/-- The code of `Start` goes one of these ways. -/
theorem advance_advanced {o : Outcome} (moved : advance cfg (e, c) o = some (e₁, c')) :
    Advanced e c e₁ c' := by
  have moves : ∀ {p : StartAt}, some (e, { c with place := p }) = some (e₁, c') →
      c.place.midway = true → (p = .launch ∨ p = .running → c.place = .launch) →
      p.unspawned = c.place.unspawned → Advanced e c e₁ c' := by
    intro p same before late order
    cases same
    exact .moves before late (Or.inr order)
  have fails : ∀ {err : Error}, some (e, { c with place := .returned (some err) }) =
      some (e₁, c') → c.place.midway = true → Advanced e c e₁ c' := by
    intro err same before
    cases same
    exact .moves before (by simp) (Or.inl rfl)
  unfold advance at moved
  cases place : c.place with
  | isRunning | load =>
    simp only [place] at moved
    split_ifs at moved <;> cases moved
    · exact .outside (by rw [place]; rfl) rfl (Or.inl rfl)
    · exact .outside (by rw [place]; rfl) rfl (Or.inr ⟨rfl, by rw [place]; rfl⟩)
  | store =>
    simp only [place] at moved
    cases moved
    exact .begins place
  | probe | listener | balancer | acceptor =>
    simp only [place] at moved
    split at moved
    · exact fails moved (by rw [place]; rfl)
    · exact moves moved (by rw [place]; rfl) (by simp) (by rw [place]; rfl)
  | notify =>
    have before : c.place.midway = true := by rw [place]; rfl
    simp only [place] at moved
    split_ifs at moved with main
    · cases moved
      exact .works before (by simp) (Or.inl ⟨rfl, Or.inr (by rw [place]; rfl)⟩)
        (Or.inr ⟨main, rfl⟩)
    · exact moves moved before (by simp) (by rw [place]; rfl)
  | spawn =>
    simp only [place] at moved
    cases moved
    exact .works (by rw [place]; rfl) (by simp) (Or.inr ⟨place, rfl, rfl⟩) (Or.inl rfl)
  | parse =>
    have before : c.place.midway = true := by rw [place]; rfl
    simp only [place] at moved
    split_ifs at moved <;> cases moved
    · exact .works before (by simp) (Or.inl ⟨rfl, Or.inr (by rw [place]; rfl)⟩) (Or.inl rfl)
    · exact .works before (by simp) (Or.inl ⟨rfl, Or.inr (by rw [place]; rfl)⟩) (Or.inl rfl)
  | listeners i | shards i | consumers i =>
    simp only [place] at moved
    split_ifs at moved
    · split at moved
      · exact fails moved (by rw [place]; rfl)
      · exact moves moved (by rw [place]; rfl) (by simp) (by rw [place]; rfl)
    · exact moves moved (by rw [place]; rfl) (by simp) (by rw [place]; rfl)
  | closer =>
    simp only [place] at moved
    cases moved
    exact .closer place
  | launch =>
    simp only [place] at moved
    exact moves moved (by rw [place]; rfl) (fun _ => place) (by rw [place]; rfl)
  | running =>
    simp only [place] at moved
    cases moved
    exact .running place
  | serving =>
    simp only [place] at moved
    cases moved
    exact .outside (by rw [place]; rfl) rfl (Or.inl rfl)
  | returned _ => simp only [place, reduceCtorEq] at moved

/-- What one step of the engine can do. -/
inductive Stepped (cfg : Config) (e : Engine) : Label → Engine → Prop
  | callStart {mainProcess : Bool} {address : Text} :
      Stepped cfg e (.callStart mainProcess address)
        { e with starts := e.starts ++ [{ mainProcess := mainProcess, address := address }] }
  | call {kind : CallKind} : Stepped cfg e (.call kind)
      { e with calls := e.calls ++ [{ kind := kind }] }
  | start {i : Nat} {o : Outcome} {c c' : StartCall} {e₁ : Engine} (found : e.starts[i]? = some c)
      (advanced : Advanced e c e₁ c') :
      Stepped cfg e (.start i o) { e₁ with starts := e.starts.set i c' }
  | load {i : Nat} {c : Call} (found : e.calls[i]? = some c) (place : c.place = .load)
      (running : e.state = .running) :
      Stepped cfg e (.caller i)
        { e with calls := e.calls.set i { c with place := .store, run := e.current } }
  | skip {i : Nat} {c : Call} (found : e.calls[i]? = some c) (place : c.place = .load)
      (other : e.state ≠ .running) :
      Stepped cfg e (.caller i) { e with calls := e.calls.set i { c with place := .skipped } }
  | store {i : Nat} {c : Call} (found : e.calls[i]? = some c) (place : c.place = .store) :
      Stepped cfg e (.caller i)
        { e with state := .closing, calls := e.calls.set i { c with place := .sending } }
  | notified {n : Nat} (waiting : e.notifiers[n]? = some .waiting) :
      Stepped cfg e (.notified n) { e with notifiers := e.notifiers.set n .sending }
  | signal {i j : Nat} {c : Call} (found : e.calls[i]? = some c) (place : c.place = .sending)
      (receiving : e.closers[j]? = some .receiving) :
      Stepped cfg e (.signal i j) { e with
        calls := e.calls.set i { c with place := c.kind.signalled }
        closers := e.closers.set j (.received .user) }
  | systemSignal {n j : Nat} (sending : e.notifiers[n]? = some .sending)
      (receiving : e.closers[j]? = some .receiving) :
      Stepped cfg e (.systemSignal n j) { e with
        notifiers := e.notifiers.set n .finished
        closers := e.closers.set j (.received .system) }
  | close {j run : Nat} {signal : CloseSignal} (found : e.closers[j]? = some (.received signal))
      (closer : e.closer = some run) :
      Stepped cfg e (.closer j) { e with closers := e.closers.set j (.closing signal run) }
  | closed {j run : Nat} {signal : CloseSignal}
      (found : e.closers[j]? = some (.closing signal run)) :
      Stepped cfg e (.closer j)
        { e with closers := e.closers.set j (.storing signal), closed := run :: e.closed }
  | inactive {j : Nat} {signal : CloseSignal} (found : e.closers[j]? = some (.storing signal)) :
      Stepped cfg e (.closer j)
        { e with state := .inactive, closers := e.closers.set j (.handingBack signal) }
  | exit {j : Nat} (found : e.closers[j]? = some .exiting) :
      Stepped cfg e (.closer j) { e with exited := true, closers := e.closers.set j .finished }
  | back {j i : Nat} {c : Call} {signal : CloseSignal} (found : e.calls[i]? = some c)
      (place : c.place = .awaiting) (handing : e.closers[j]? = some (.handingBack signal)) :
      Stepped cfg e (.back j i) { e with
        calls := e.calls.set i { c with place := .returned }
        closers := e.closers.set j (if signal = .system then .exiting else .finished) }

theorem Advanced.starts (advanced : Advanced e c e₁ c') : e₁.starts = e.starts := by
  cases advanced <;> rfl

/-- Every step is one of these. -/
theorem step_stepped {l : Label} (stepped : step cfg e l = some e') : Stepped cfg e l e' := by
  unfold step at stepped
  split_ifs at stepped
  cases l with
  | callStart mainProcess address =>
    cases stepped
    exact .callStart
  | call kind =>
    cases stepped
    exact .call
  | start i o =>
    obtain ⟨c, found, rest⟩ := bind_eq_some_iff.mp stepped
    obtain ⟨⟨e₁, c'⟩, moved, rest⟩ := bind_eq_some_iff.mp rest
    cases rest
    have advanced := advance_advanced moved
    rw [advanced.starts]
    exact .start found advanced
  | caller i =>
    obtain ⟨c, found, rest⟩ := bind_eq_some_iff.mp stepped
    unfold stepCall at rest
    cases place : c.place <;> simp only [place, reduceCtorEq] at rest
    · split_ifs at rest with running <;> cases rest
      · exact .load found place running
      · exact .skip found place running
    · cases rest
      exact .store found place
  | notified n =>
    simp only at stepped
    split_ifs at stepped with waiting
    cases stepped
    exact .notified waiting
  | signal i j =>
    obtain ⟨c, found, rest⟩ := bind_eq_some_iff.mp stepped
    split_ifs at rest with meet
    cases rest
    exact .signal found meet.1 meet.2
  | systemSignal n j =>
    simp only at stepped
    split_ifs at stepped with meet
    cases stepped
    exact .systemSignal meet.1 meet.2
  | closer j =>
    obtain ⟨g, found, rest⟩ := bind_eq_some_iff.mp stepped
    unfold stepCloser at rest
    cases g with
    | received signal =>
      obtain ⟨run, closer, rfl⟩ := map_eq_some_iff.mp rest
      exact .close found closer
    | closing signal run =>
      cases rest
      exact .closed found
    | storing signal =>
      cases rest
      exact .inactive found
    | exiting =>
      cases rest
      exact .exit found
    | receiving | handingBack _ | finished => cases rest
  | back j i =>
    obtain ⟨c, found, rest⟩ := bind_eq_some_iff.mp stepped
    split at rest
    case h_1 signal handing =>
      by_cases place : c.place = .awaiting
      · rw [if_pos place] at rest
        cases rest
        exact .back found place handing
      · rw [if_neg place] at rest
        cases rest
    case h_2 => cases rest

/-- A run is started and comes to serve. -/
def serve (i : Nat) : List Label := .callStart false tcp :: List.replicate 15 (.start i {})

end Engine

end Gain
